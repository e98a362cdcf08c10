import MicroBasic.Eval.Block

/-!
# Ordinary faults

Five faults tell of the evaluation itself: that a budget is exhausted, that a loop statement has no
pair, and that the program halted. All others are ordinary. What is read off the machine, calculated
with values or declared fails for ordinary causes only, so the five arise exactly where the
evaluator raises them.
-/

namespace MicroBasic

/-- Whether a fault is neither an exhausted budget nor a loop statement without its pair, and does
not tell of a halt. -/
def Fault.isOrdinary : Fault → Bool
  | stepBudget _ => false
  | callDepth _ => false
  | strayControl .unpairedLoop => false
  | strayControl .inactiveNext => false
  | halted _ => false
  | _ => true

theorem Fault.not_isFatal_of_isOrdinary {fault : Fault} (ordinary : fault.isOrdinary = true) :
    fault.isFatal = false := by
  cases fault <;> first | rfl | cases ordinary

theorem Fault.haltReason?_of_isOrdinary {fault : Fault} (ordinary : fault.isOrdinary = true) :
    fault.haltReason? = none := by
  cases fault <;> first | rfl | cases ordinary

/-- Something fails for ordinary reasons only. -/
def Ordinary {α : Type} (result : Except Fault α) : Prop :=
  ∀ fault, result = .error fault → fault.isOrdinary = true

namespace Ordinary

variable {α β : Type}

theorem pure (value : α) : Ordinary (Pure.pure value) := by
  rintro _ ⟨⟩

theorem throw {fault : Fault} (ordinary : fault.isOrdinary = true) :
    Ordinary (MonadExcept.throw fault : Except Fault α) := by
  rintro _ ⟨⟩
  exact ordinary

theorem bind {first : Except Fault α} {rest : α → Except Fault β} (start : Ordinary first)
    (onward : ∀ value, Ordinary (rest value)) : Ordinary (first >>= rest) := by
  intro fault failed
  cases first with
  | error cause =>
    cases failed
    exact start _ rfl
  | ok value => exact onward value fault failed

theorem map {first : Except Fault α} (change : α → β) (start : Ordinary first) :
    Ordinary (change <$> first) := by
  intro fault failed
  cases first with
  | error cause =>
    cases failed
    exact start _ rfl
  | ok value => cases failed

theorem mapM {γ : Type} {each : α → Except Fault γ} {items : List α}
    (ordinary : ∀ item, Ordinary (each item)) : Ordinary (items.mapM each) := by
  induction items with
  | nil => exact pure _
  | cons item rest ih =>
    rw [List.mapM_cons]
    exact (ordinary item).bind fun _ => ih.bind fun _ => pure _

theorem foldlM {γ : Type} {each : γ → α → Except Fault γ} {start : γ} {items : List α}
    (ordinary : ∀ state item, Ordinary (each state item)) :
    Ordinary (items.foldlM each start) := by
  induction items generalizing start with
  | nil => exact pure _
  | cons item rest ih =>
    rw [List.foldlM_cons]
    exact (ordinary start item).bind fun _ => ih

end Ordinary

namespace Machine

theorem ordinary_readPlace (m : Machine) (place : Place) : Ordinary (m.readPlace place) := by
  unfold readPlace
  split
  · split
    · exact .pure _
    · exact .throw rfl
  · split
    · exact .pure _
    · exact .throw rfl
  · dsimp only
    split
    · exact .pure _
    · exact .throw rfl

theorem ordinary_writePlace (m : Machine) (place : Place) (value : Value) :
    Ordinary (m.writePlace place value) := by
  cases place with
  | slot frame key =>
    unfold writePlace
    dsimp only
    split
    · exact .pure _
    · exact .throw rfl
  | field record name => exact .pure _
  | element array index =>
    unfold writePlace
    dsimp only
    split
    · exact .pure _
    · exact .throw rfl

theorem ordinary_readVariable (m : Machine) (name : String) : Ordinary (m.readVariable name) := by
  unfold readVariable
  dsimp only
  split
  · exact .map _ (m.ordinary_readPlace _)
  · exact .pure _

theorem ordinary_setVariable (m : Machine) (name : String) (value : Value) :
    Ordinary (m.setVariable name value) := by
  unfold setVariable
  dsimp only
  split
  · exact m.ordinary_writePlace _ value
  · exact .pure _

theorem ordinary_park (m : Machine) : Ordinary m.park := by
  refine .bind (.foldlM fun vars entry => ?_) fun vars => .pure _
  exact .bind (m.ordinary_readPlace entry.2) fun value => .pure _

end Machine

namespace Value

theorem ordinary_asNumber (heap : Heap) (value : Value) : Ordinary (value.asNumber heap) := by
  unfold asNumber
  split
  · exact .pure _
  · split
    · exact .pure _
    · exact .throw rfl
  · exact .throw rfl

theorem ordinary_checkType (heap : Heap) (value : Value) (type : TypeSpec) (what : String) :
    Ordinary (value.checkType heap type what) := by
  unfold checkType
  split
  · exact .pure _
  · exact .throw rfl

theorem ordinary_compare (heap : Heap) (op : BinaryOp) (test : Ordering → Bool) (a b : Value) :
    Ordinary (compare heap op test a b) := by
  unfold compare strictOrder
  refine .bind ?_ fun order => .pure _
  split
  · exact .pure _
  · exact .pure _
  · exact .throw rfl

theorem ordinary_calculate {f : Float → Float → Except Fault Float} (heap : Heap)
    (ordinary : ∀ x y, Ordinary (f x y)) (a b : Value) : Ordinary (calculate heap f a b) :=
  .bind (ordinary_asNumber heap a) fun x =>
    .bind (ordinary_asNumber heap b) fun y => .bind (ordinary x y) fun _ => .pure _

theorem ordinary_dividing (f : Float → Float → Float) (x y : Float) :
    Ordinary (dividing f x y) := by
  unfold dividing
  split
  · exact .throw rfl
  · exact .pure _

theorem ordinary_apply (heap : Heap) (op : BinaryOp) (a b : Value) :
    Ordinary (apply heap op a b) := by
  cases op with
  | concat | equal | notEqual => exact .pure _
  | add =>
    unfold apply
    dsimp only
    split
    · exact .pure _
    · exact .pure _
    · exact ordinary_calculate heap (fun _ _ => .pure _) a b
  | less | greater | lessEqual | greaterEqual => exact ordinary_compare heap _ _ a b
  | subtract | multiply | power => exact ordinary_calculate heap (fun _ _ => .pure _) a b
  | divide | wholeDivide | modulo => exact ordinary_calculate heap (ordinary_dividing _) a b
  | and | or => exact ordinary_calculate heap (fun _ _ => .throw rfl) a b

theorem ordinary_asIndex (heap : Heap) (index : Value) (length : Nat) :
    Ordinary (index.asIndex heap length) := by
  refine .bind (ordinary_asNumber heap index) fun n => ?_
  split
  · split
    · exact .pure _
    · exact .throw rfl
  · exact .throw rfl

theorem ordinary_elementAt (heap : Heap) (items : Array Value) (index : Value) :
    Ordinary (elementAt heap items index) := by
  refine .bind (ordinary_asIndex heap index _) fun place => ?_
  split
  · exact .pure _
  · exact .throw rfl

theorem ordinary_indexed (heap : Heap) (object index : Value) :
    Ordinary (indexed heap object index) := by
  unfold indexed
  split
  · exact ordinary_elementAt heap _ index
  · exact ordinary_elementAt heap _ index
  · dsimp only
    split
    · split
      · exact .pure _
      · exact .throw rfl
    · exact .throw rfl
  · exact .throw rfl

theorem ordinary_parts (types : TypeTable) (heap : Heap) (value : Value) :
    Ordinary (parts types heap value) := by
  have named (record : Record) (names : List String) : Ordinary (fieldsNamed record names) := by
    refine .mapM fun name => ?_
    split
    · exact .pure _
    · exact .throw rfl
  unfold parts
  split
  · exact .pure _
  · dsimp only
    split
    · exact named _ _
    · exact named _ _
  · exact .throw rfl

end Value

theorem Lookup.ordinary_member (tables : Lookup) (receiver : Value) (name : String) :
    Ordinary (tables.member receiver name) := by
  have method : Ordinary (tables.method receiver name) := by
    unfold Lookup.method
    split
    · exact .pure _
    · split
      · exact .pure _
      · exact .pure _
    · exact .throw rfl
  unfold Lookup.member
  split
  · split
    · exact .pure _
    · exact .pure _
  · dsimp only
    split
    · exact .pure _
    · split
      · exact .pure _
      · exact method
  · exact method

theorem OverloadSet.ordinary_select (set : OverloadSet) (heap : Heap) (values : List Value) :
    Ordinary (set.select heap values) := by
  unfold select
  split
  · exact .pure _
  · exact .throw rfl
  · exact .throw rfl

theorem FunctionTable.ordinary_define (functions : FunctionTable) (overload : Overload) :
    Ordinary (functions.define overload) := by
  unfold define OverloadSet.define
  refine .bind ?_ fun _ => .pure _
  split
  · split
    · exact .pure _
    · exact .throw rfl
  · exact .pure _

theorem PropertyTable.ordinary_define (properties : PropertyTable) (decl : PropertyDecl Block)
    (origin : Nat) (loops : LoopsRef) : Ordinary (properties.define decl origin loops) := by
  unfold define
  dsimp only
  split
  · split
    · exact .pure _
    · exact .throw rfl
  · exact .pure _

theorem TypeTable.ordinary_define (types : TypeTable) (decl : TypeDecl) :
    Ordinary (types.define decl) := by
  unfold define
  split
  · exact .throw rfl
  · exact .pure _

theorem Evaluator.ordinary_passes (heap : Heap) (op : BinaryOp) (selector operand : Value) :
    Ordinary (passes heap op selector operand) := by
  unfold passes
  split
  all_goals first | exact .pure _ | exact .throw rfl

end MicroBasic
