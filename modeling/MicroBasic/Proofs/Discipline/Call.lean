import MicroBasic.Proofs.Discipline.Laws
import MicroBasic.Proofs.Results

/-!
# Calls keep a discipline

Evaluating arguments, resolving what is called, and calling it keep every discipline that an
evaluator respects. One lemma for each function of the evaluator, in the order of their definitions;
callers use these and do not look inside again.
-/

namespace MicroBasic

theorem Expr.spread_or (item : Expr) :
    (∃ token inner, item = .spread token inner) ∨ ∀ token inner, item ≠ .spread token inner := by
  cases item <;> first | exact .inl ⟨_, _, rfl⟩ | exact .inr nofun

namespace Evaluator

variable (self : Evaluator) {item : Expr} {rest : List Expr}

theorem values_cons (plain : ∀ token inner, item ≠ .spread token inner) :
    self.values (item :: rest) = do
      let value ← self.eval item
      return value :: (← self.values rest) := by
  cases item <;> first | rfl | exact absurd rfl (plain _ _)

theorem args_cons (plain : ∀ token inner, item ≠ .spread token inner) :
    self.args (item :: rest) = do
      let first ← Exec.placed item.token (self.arg item)
      return first :: (← self.args rest) := by
  cases item <;> first | rfl | exact absurd rfl (plain _ _)

end Evaluator

theorem Value.asIndex_lt {heap : Heap} {length place : Nat} {index : Value}
    (found : index.asIndex heap length = .ok place) : place < length := by
  obtain ⟨n, _, found⟩ := Results.of_bind found
  split at found
  · split at found
    · cases found
      assumption
    · cases found
  · cases found

theorem Value.indexed_of_asIndex {heap : Heap} {ref : ArrayRef} {place : Nat} {value : Value}
    {index : Value} (counted : index.asIndex heap (heap.items ref).size = .ok place)
    (held : (heap.items ref)[place]? = some value) :
    indexed heap (.array ref) index = .ok value := by
  simp only [indexed, elementAt, counted, Bind.bind, Except.bind, held]
  rfl

theorem OverloadSet.mem_of_select {heap : Heap} {values : List Value} {overload : Overload}
    {set : OverloadSet} (found : set.select heap values = .ok overload) :
    overload ∈ set.overloads := by
  unfold OverloadSet.select at found
  split at found
  · next only single =>
    cases found
    have held : overload ∈ set.overloads.filter (fun other => other.accepts heap values) := by
      rw [single]
      exact List.mem_singleton.mpr rfl
    exact (List.mem_filter.mp held).1
  · cases found
  · cases found

namespace Discipline

/-- A member whose value may occur or whose function may be called. -/
def GoodMember (D : Discipline) (member : Member) (_ : Machine) : Prop :=
  match member with
  | .field value => D.Val value
  | .property getter => D.Callable getter
  | .method overload => D.Callable overload
  | _ => True

namespace Makes

variable {D : Discipline} {m : Machine}

theorem checkType {value : Value} {type : TypeSpec} {what : String} (M : D.Makes) (inv : D.Inv m) :
    D.Sound m (fun _ final => final = m ∧ value.hasType m.heap type = true)
      (Exec.checkType value type what) (Exec.checkType value type what) := by
  refine .ask inv (fun fault failed => ?_) fun _ passed => ⟨rfl, ?_⟩
  · exact M.ordinary (value.ordinary_checkType _ type what fault failed)
  · exact Value.hasType_of_checkType passed

theorem initialOf {type : TypeSpec} (M : D.Makes) (inv : D.Inv m) :
    D.Sound m D.GoodValue (Evaluator.initialOf type) (Evaluator.initialOf type) :=
  M.built inv (Evaluator.initialOf_builds M.toPlain (M.declared inv))

theorem resultOf {signal : Signal} {decl : FunctionDecl Block} (M : D.Makes) (inv : D.Inv m)
    (good : D.GoodSignal signal m) :
    D.Sound m D.GoodValue (Evaluator.resultOf decl signal) (Evaluator.resultOf decl signal) := by
  unfold Evaluator.resultOf
  split
  · exact .pure inv good
  · exact .halt inv
  · exact .fail inv (M.ordinary rfl)
  · exact .fail inv (M.ordinary rfl)
  · exact M.initialOf inv

end Makes

namespace Hooks

variable {D : Discipline} {left right : Evaluator} {m : Machine}

section

variable (R : D.Hooks left right)

include R

variable {name : String} {value : Value}

theorem recordValue {ref : RecordRef} (inv : D.Inv m)
    (found : (m.heap.record ref).get? name = some value) : D.Val value := by
  obtain ⟨field, first, rfl⟩ := Option.map_eq_some_iff.mp found
  exact R.laws.fields inv (List.mem_of_find?_eq_some first)

theorem indexedValue {object index : Value} (inv : D.Inv m)
    (found : Value.indexed m.heap object index = .ok value) : D.Val value := by
  have element {items : Array Value} (all : ∀ item ∈ items, D.Val item)
      (found : Value.elementAt m.heap items index = .ok value) : D.Val value := by
    obtain ⟨place, _, found⟩ := Results.of_bind found
    split at found
    · cases found
      exact all _ (Array.mem_of_getElem? ‹_›)
    · cases found
  unfold Value.indexed at found
  split at found
  · exact element (fun item among => R.laws.items inv among) found
  · refine element (fun item among => ?_) found
    obtain ⟨letter, _, rfl⟩ := List.mem_map.mp (List.mem_toArray.mp among)
    exact R.laws.text
  · dsimp only at found
    split at found
    · split at found
      · cases found
        exact R.recordValue inv ‹_›
      · cases found
    · cases found
  · cases found

theorem partValues {parts : List Value} (inv : D.Inv m)
    (found : value.parts m.types m.heap = .ok parts) : ∀ part ∈ parts, D.Val part := by
  have named (ref : RecordRef) (names : List String) (parts : List Value)
      (found : Value.fieldsNamed (m.heap.record ref) names = .ok parts) :
      ∀ part ∈ parts, D.Val part := by
    intro part among
    obtain ⟨name, _, got⟩ := Results.of_mapM found part among
    split at got
    · cases got
      exact R.recordValue inv ‹_›
    · cases got
  unfold Value.parts at found
  split at found
  · cases found
    intro part among
    exact R.laws.items inv (Array.mem_toList_iff.mp among)
  · dsimp only at found
    split at found
    · exact named _ _ _ found
    · exact named _ _ _ found
  · cases found

theorem memberOf {receiver : Value} (inv : D.Inv m) :
    D.Sound m D.GoodMember (left.memberOf receiver name) (right.memberOf receiver name) := by
  have method {member : Member}
    (found : Lookup.method ⟨m.functions, m.properties, left.host, m.heap⟩
        receiver name = .ok member) : D.GoodMember member m := by
    unfold Lookup.method at found
    split at found
    · next only single =>
      cases found
      have held : only ∈ m.functions.receivers m.heap name receiver := by
        simp [single]
      unfold FunctionTable.receivers at held
      split at held
      · exact R.laws.functions inv ‹_› (List.mem_filter.mp held).1
      · cases held
    · split at found <;> cases found <;> trivial
    · cases found
  unfold Evaluator.memberOf Evaluator.tables
  rw [R.host]
  refine .get (.ofExcept inv (fun fault failed => ?_) fun member found => ?_)
  · exact R.laws.ordinary (Lookup.ordinary_member _ receiver name fault failed)
  · unfold Lookup.member at found
    split at found
    · split at found <;> cases found <;> trivial
    · dsimp only at found
      split at found
      · cases found
        exact R.recordValue inv ‹_›
      · split at found
        · cases found
          exact R.laws.getters inv ‹_›
        · exact method found
    · exact method found

theorem failUnknown {α : Type} {Good : α → Machine → Prop} (inv : D.Inv m) :
    D.Sound m Good (left.failUnknown name) (right.failUnknown name) := by
  unfold Evaluator.failUnknown
  rw [R.host]
  exact .get (.fail inv (R.laws.ordinary rfl))

theorem failMissing {α : Type} {Good : α → Machine → Prop} {receiver : Value}
    {suggestion : Option String} (inv : D.Inv m) :
    D.Sound m Good (Evaluator.failMissing receiver name suggestion)
      (Evaluator.failMissing receiver name suggestion) :=
  .heap (.fail inv (R.laws.ordinary rfl))

theorem withTarget (inv : D.Inv m) :
    D.Sound m D.GoodValue Evaluator.withTarget Evaluator.withTarget := by
  refine .get ?_
  split
  · next target others open_ =>
    exact .pure inv (R.laws.targets inv (by rw [open_]; exact List.mem_cons_self))
  · exact .fail inv (R.laws.ordinary rfl)

theorem partsOf (inv : D.Inv m) :
    D.Sound m D.GoodValues (Evaluator.partsOf value) (Evaluator.partsOf value) :=
  .ask inv (fun fault failed => R.laws.ordinary (value.ordinary_parts _ _ fault failed))
    fun _ found => R.partValues inv found

theorem values {exprs : List Expr} (fine : ∀ expr ∈ exprs, expr.Among D.Known) (inv : D.Inv m) :
    D.Sound m D.GoodValues (left.values exprs) (right.values exprs) := by
  induction exprs generalizing m with
  | nil => exact .pure inv (by simp [GoodValues])
  | cons item rest ih =>
    obtain ⟨fine, others⟩ := List.forall_mem_cons.mp fine
    rcases item.spread_or with ⟨token, inner, rfl⟩ | plain
    · refine (R.eval (fine.part List.mem_cons_self) inv).bind fun value next inv step good => ?_
      refine ((R.partsOf inv).placed fine.token).bind fun parts next inv step known => ?_
      refine (ih others inv).bind fun others next inv step later => ?_
      exact .pure inv (List.forall_mem_append.mpr ⟨known, later⟩)
    · rw [left.values_cons plain, right.values_cons plain]
      refine (R.eval fine inv).bind fun value next inv step good => ?_
      refine (ih others inv).bind fun others next inv step later => ?_
      exact .pure inv (List.forall_mem_cons.mpr ⟨good, later⟩)

theorem defaultOf {param : Param} (fine : ∀ expr, param.default = some expr → expr.Among D.Known)
    (inv : D.Inv m) :
    D.Sound m D.GoodValue (left.defaultOf param) (right.defaultOf param) := by
  unfold Evaluator.defaultOf
  split
  · exact R.eval (fine _ ‹_›) inv
  · exact R.laws.initialOf inv

end

end Hooks

namespace Respects

variable {D : Discipline} {left right : Evaluator} {m : Machine}

theorem callOverload (R : D.Respects left right) {overload : Overload} {args : List Arg}
    (inv : D.Inv m) (callable : D.Callable overload) (good : D.GoodArgs args m) :
    D.Sound m D.GoodValue (left.callOverload overload args) (right.callOverload overload args) := by
  refine .heap ?_
  dsimp only
  split
  · exact R.callUser inv callable good
  · exact .fail inv (R.laws.ordinary rfl)

theorem callHost (R : D.Respects left right) {function : HostRef} {args : List Value}
    (inv : D.Inv m) (good : ∀ value ∈ args, D.Val value) :
    D.Sound m D.GoodValue (left.callHost function args) (right.callHost function args) := by
  unfold Evaluator.callHost
  rw [R.host]
  exact R.laws.hosting inv good

theorem goodArg_ofValue {value : Value} (good : D.Val value) : D.GoodArg (Arg.ofValue value) m := by
  refine ⟨good, ?_⟩
  rintro _ ⟨⟩

section

variable (R : D.Respects left right)

include R

variable {name : String} {exprs : List Expr}

theorem memberValue {receiver : Value} (inv : D.Inv m) (known : D.Val receiver) :
    D.Sound m D.GoodValue (left.memberValue receiver name) (right.memberValue receiver name) := by
  refine (R.memberOf inv).bind fun member next inv step good => ?_
  have receiverOnly : D.GoodArgs [Arg.ofValue receiver] next := by
    intro arg among
    rw [List.mem_singleton.mp among]
    exact goodArg_ofValue known
  match member with
  | .field value => exact .pure inv good
  | .property getter => exact R.callUser inv good receiverOnly
  | .method overload => exact .pure inv (R.laws.boundFunction.mpr ⟨good, known⟩)
  | .hosted (.function ref) true => exact .pure inv (R.laws.boundHost.mpr known)
  | .hosted (.function ref) false | .hosted (.group ref) _ => exact .pure inv R.laws.hostEntry
  | .missing suggestion => exact R.failMissing inv

theorem fieldArg {object : Value} (inv : D.Inv m) (known : D.Val object) :
    D.Sound m D.GoodArg (left.fieldArg object name) (right.fieldArg object name) := by
  refine .heap ?_
  split
  · next arg found =>
    refine .pure inv ?_
    unfold Evaluator.fieldArg? at found
    split at found
    · obtain ⟨field, present, rfl⟩ := Option.map_eq_some_iff.mp found
      refine ⟨R.laws.fields inv (List.mem_of_find?_eq_some present), ?_⟩
      rintro _ ⟨⟩
      exact R.laws.spot_field inv present
    · cases found
  · refine (R.memberValue inv known).bind fun value next inv step good => ?_
    exact .pure inv (goodArg_ofValue good)

theorem elementArg {object index : Value} (inv : D.Inv m) :
    D.Sound m D.GoodArg (Evaluator.elementArg object index)
      (Evaluator.elementArg object index) := by
  have element : D.Sound m (fun value final => D.Val value ∧ final = m)
      (Exec.ofExcept (Value.indexed m.heap object index))
      (Exec.ofExcept (Value.indexed m.heap object index)) := by
    refine .ofExcept inv (fun fault failed => ?_) fun value found => ?_
    · exact R.laws.ordinary (Value.ordinary_indexed _ object index fault failed)
    · exact ⟨R.indexedValue inv found, rfl⟩
  refine .heap (element.bind fun value next inv step good => ?_)
  obtain ⟨known, rfl⟩ := good
  cases object with
  | array ref =>
    have place : D.Sound next (fun place final => D.Spot final (.element ref place))
        (Exec.ofExcept (index.asIndex next.heap (next.heap.items ref).size))
        (Exec.ofExcept (index.asIndex next.heap (next.heap.items ref).size)) := by
      refine .ofExcept inv (fun fault failed => ?_) fun place found => ?_
      · exact R.laws.ordinary (Value.ordinary_asIndex _ index _ fault failed)
      · exact R.laws.spot_element inv (Value.asIndex_lt found)
    refine place.bind fun place final inv step spot => ?_
    refine .pure inv ⟨known, ?_⟩
    rintro _ ⟨⟩
    exact spot
  | number | text | record | function | boundFunction | hostFunction | boundHost | hostGroup =>
    exact .pure inv (goodArg_ofValue known)

theorem arrayVariable {callee : Expr} (inv : D.Inv m) :
    D.Sound m Free (Evaluator.arrayVariable? callee) (Evaluator.arrayVariable? callee) := by
  have nothing : D.Sound m Free (Pure.pure none : Exec (Option Value)) (Pure.pure none) :=
    .pure inv trivial
  cases callee with
  | name token name =>
    have read : D.Sound m Free (Exec.ask (fun m => m.readVariable name))
        (Exec.ask (fun m => m.readVariable name)) := by
      refine .ask inv (fun fault failed => ?_) fun _ _ => trivial
      exact R.laws.ordinary (m.ordinary_readVariable name fault failed)
    refine read.bind fun value next inv step _ => ?_
    split
    · exact .pure inv trivial
    · exact .pure inv trivial
  | number | text | array | object | record | withField | unary | binary | conditional | call
  | member | index | spread | await | new => exact nothing

theorem plainArg {expr : Expr} (fine : expr.Among D.Known) (inv : D.Inv m) :
    D.Sound m D.GoodArg (do return Arg.ofValue (← left.eval expr))
      (do return Arg.ofValue (← right.eval expr)) :=
  (R.eval fine inv).bind fun _ _ inv _ good => .pure inv (goodArg_ofValue good)

theorem arg {expr : Expr} (fine : expr.Among D.Known) (inv : D.Inv m) :
    D.Sound m D.GoodArg (left.arg expr) (right.arg expr) := by
  cases expr with
  | name token name =>
    refine .get ((R.eval fine inv).bind fun value next inv' step good => ?_)
    refine .pure inv' ⟨good, fun place found => ?_⟩
    exact D.spot_step step (R.laws.spot_name inv found)
  | member token object name =>
    refine (R.eval (fine.part List.mem_cons_self) inv).bind fun object next inv step known => ?_
    exact R.fieldArg inv known
  | withField token name =>
    refine (R.withTarget inv).bind fun object next inv step known => ?_
    exact R.fieldArg inv known
  | index token object index =>
    refine (R.eval (fine.part List.mem_cons_self) inv).bind fun object next inv step known => ?_
    refine (R.eval (fine.part (by simp [Expr.parts])) inv).bind fun index next inv step good => ?_
    exact R.elementArg inv
  | call token callee args =>
    match args with
    | [index] =>
      refine (R.arrayVariable inv).bind fun object next inv step _ => ?_
      match object with
      | some object =>
        refine (R.eval (fine.part (by simp [Expr.parts])) inv).bind fun index next inv step good =>
          ?_
        exact R.elementArg inv
      | none => exact R.plainArg fine inv
    | [] | _ :: _ :: _ => exact R.plainArg fine inv
  | number | text | array | object | record | unary | binary | conditional | spread | await
  | new => exact R.plainArg fine inv

theorem readVariable (inv : D.Inv m) :
    D.Sound m (fun found _ => ∀ value, found = some value → D.Val value)
      (Exec.ask (fun m => m.readVariable name))
      (Exec.ask (fun m => m.readVariable name)) := by
  refine .ask inv (fun fault failed => ?_) fun found read value same => ?_
  · exact R.laws.ordinary (m.ordinary_readVariable name fault failed)
  · subst same
    exact R.laws.readVariable inv read

section Lists

variable (fine : ∀ expr ∈ exprs, expr.Among D.Known)

include fine

theorem args (inv : D.Inv m) : D.Sound m D.GoodArgs (left.args exprs) (right.args exprs) := by
  induction exprs generalizing m with
  | nil => exact .pure inv (by simp [GoodArgs])
  | cons item rest ih =>
    obtain ⟨fine, others⟩ := List.forall_mem_cons.mp fine
    rcases item.spread_or with ⟨token, inner, rfl⟩ | plain
    · refine (R.eval (fine.part List.mem_cons_self) inv).bind fun value next inv step good => ?_
      refine ((R.partsOf inv).placed fine.token).bind fun parts next inv step known => ?_
      refine (ih others inv).bind fun others next inv step later => ?_
      refine .pure inv
        (List.forall_mem_append.mpr ⟨List.forall_mem_map.mpr fun part held => ?_, later⟩)
      exact goodArg_ofValue (known part held)
    · rw [left.args_cons plain, right.args_cons plain]
      refine ((R.arg fine inv).placed fine.token).bind fun first next inv step good => ?_
      refine (ih others inv).bind fun others final inv step later => ?_
      refine .pure inv (List.forall_mem_cons.mpr ⟨⟨good.1, fun place taken => ?_⟩, later⟩)
      exact D.spot_step step (good.2 place taken)

theorem callNamed (inv : D.Inv m) :
    D.Sound m D.GoodValue (left.callNamed name exprs) (right.callNamed name exprs) := by
  refine .get ?_
  split
  · exact R.failUnknown inv
  · next set declared =>
    refine (R.args fine inv).bind fun args next inv' step good => ?_
    have chosen : D.Sound next (fun overload final => D.Callable overload ∧ final = next)
        (Exec.ofExcept (set.select next.heap (args.map Arg.value)))
        (Exec.ofExcept (set.select next.heap (args.map Arg.value))) := by
      refine .ofExcept inv' (fun fault failed => ?_) fun overload found => ⟨?_, rfl⟩
      · exact R.laws.ordinary (set.ordinary_select _ _ fault failed)
      · exact R.laws.functions inv declared (OverloadSet.mem_of_select found)
    refine .heap (chosen.bind fun overload final inv step found => ?_)
    obtain ⟨callable, rfl⟩ := found
    exact R.callUser inv callable good

theorem callValue {callee : Value} (inv : D.Inv m) (known : D.Val callee) :
    D.Sound m D.GoodValue (left.callValue callee exprs) (right.callValue callee exprs) := by
  have uncallable : D.Sound m D.GoodValue
      (do Exec.fail (.notCallable (callee.typeName (← Exec.heap))))
      (do Exec.fail (.notCallable (callee.typeName (← Exec.heap)))) :=
    .heap (.fail inv (R.laws.ordinary rfl))
  cases callee with
  | function name => exact R.callNamed fine inv
  | boundFunction overload receiver =>
    obtain ⟨callable, receiverKnown⟩ := R.laws.boundFunction.mp known
    refine (R.args fine inv).bind fun args next inv step good => ?_
    exact R.callOverload inv callable
      (List.forall_mem_cons.mpr ⟨goodArg_ofValue receiverKnown, good⟩)
  | hostFunction ref =>
    refine (R.values fine inv).bind fun values next inv step good => ?_
    exact R.callHost inv good
  | boundHost ref receiver =>
    refine (R.values fine inv).bind fun values next inv step good => ?_
    exact R.callHost inv (List.forall_mem_cons.mpr ⟨R.laws.boundHost.mp known, good⟩)
  | array ref =>
    match exprs with
    | [index] =>
      refine (R.eval (fine _ List.mem_cons_self) inv).bind fun index next inv step good => ?_
      refine .ask inv (fun fault failed => ?_) fun value found => R.indexedValue inv found
      exact R.laws.ordinary (Value.ordinary_indexed _ _ index fault failed)
    | [] | _ :: _ :: _ => exact uncallable
  | number | text | record | hostGroup => exact uncallable

theorem callName (inv : D.Inv m) :
    D.Sound m D.GoodValue (left.callName name exprs) (right.callName name exprs) := by
  refine (R.readVariable inv).bind fun found next inv step known => ?_
  match found with
  | some value =>
    dsimp only
    split
    · exact R.callValue fine inv (known value rfl)
    · exact .heap (.fail inv (R.laws.ordinary rfl))
  | none =>
    refine .get ?_
    split
    · exact R.callNamed fine inv
    · rw [R.host]
      split
      · refine (R.values fine inv).bind fun values next inv step good => ?_
        exact R.callHost inv good
      · exact .fail inv (R.laws.ordinary rfl)
      · exact R.failUnknown inv

theorem callMember {receiver : Value} (inv : D.Inv m) (known : D.Val receiver) :
    D.Sound m D.GoodValue (left.callMember receiver name exprs)
      (right.callMember receiver name exprs) := by
  refine (R.memberOf inv).bind fun member next inv step good => ?_
  have receiverFirst {args : List Arg} {m : Machine} (good : D.GoodArgs args m) :
      D.GoodArgs (Arg.ofValue receiver :: args) m :=
    List.forall_mem_cons.mpr ⟨goodArg_ofValue known, good⟩
  match member with
  | .field value => exact R.callValue fine inv good
  | .property getter =>
    refine (R.callUser inv good (receiverFirst (List.forall_mem_nil _))).bind
      fun value next inv step good => ?_
    exact R.callValue fine inv good
  | .method overload =>
    refine (R.args fine inv).bind fun args next inv step known => ?_
    exact R.callOverload inv good (receiverFirst known)
  | .hosted (.function ref) binds =>
    refine (R.values fine inv).bind fun values next inv step good => ?_
    refine R.callHost inv ?_
    split
    · exact List.forall_mem_cons.mpr ⟨known, good⟩
    · exact good
  | .hosted (.group ref) _ => exact .fail inv (R.laws.ordinary rfl)
  | .missing suggestion => exact R.failMissing inv

theorem call {callee : Expr} (named : callee.Among D.Known) (inv : D.Inv m) :
    D.Sound m D.GoodValue (left.call callee exprs) (right.call callee exprs) := by
  have other : D.Sound m D.GoodValue
      (do let value ← left.eval callee; left.callValue value exprs)
      (do let value ← right.eval callee; right.callValue value exprs) :=
    (R.eval named inv).bind fun value next inv step known => R.callValue fine inv known
  cases callee with
  | name token name => exact R.callName fine inv
  | member token object name =>
    refine (R.eval (named.part List.mem_cons_self) inv).bind fun object next inv step known => ?_
    exact R.callMember fine inv known
  | number | text | array | object | record | withField | unary | binary | conditional | call
  | index | spread | await | new => exact other

end Lists

end

end Respects

end Discipline

end MicroBasic
