import MicroBasic.Proofs.Discipline.Call

/-!
# Expressions and assignments keep a discipline

The lemmas go through the evaluation of expressions and through assignment, one for each function.
The values that an expression gives may occur wherever the values that it was made from may.
-/

namespace MicroBasic

namespace Value

theorem apply_cases {heap : Heap} {op : BinaryOp} {a b value : Value}
    (found : apply heap op a b = .ok value) : (∃ n, value = .number n) ∨ ∃ s, value = .text s := by
  have truth (holds : Bool) : (∃ n, ofBool holds = .number n) ∨ ∃ s, ofBool holds = .text s := by
    cases holds <;> exact .inl ⟨_, rfl⟩
  have calculated {f : Float → Float → Except Fault Float}
      (found : calculate heap f a b = .ok value) :
      (∃ n, value = .number n) ∨ ∃ s, value = .text s := by
    obtain ⟨x, _, found⟩ := Results.of_bind found
    obtain ⟨y, _, found⟩ := Results.of_bind found
    obtain ⟨n, _, found⟩ := Results.of_bind found
    cases found
    exact .inl ⟨n, rfl⟩
  have compared {test : Ordering → Bool} (found : compare heap op test a b = .ok value) :
      (∃ n, value = .number n) ∨ ∃ s, value = .text s := by
    obtain ⟨order, _, found⟩ := Results.of_bind found
    cases found
    exact truth _
  cases op with
  | concat =>
    cases found
    exact .inr ⟨_, rfl⟩
  | add =>
    unfold apply at found
    dsimp only at found
    split at found
    · cases found
      exact .inr ⟨_, rfl⟩
    · cases found
      exact .inr ⟨_, rfl⟩
    · exact calculated found
  | equal | notEqual =>
    cases found
    exact truth _
  | less | greater | lessEqual | greaterEqual => exact compared found
  | subtract | multiply | power | divide | wholeDivide | modulo | and | or =>
    exact calculated found

end Value

namespace Discipline.Respects

variable {D : Discipline} {left right : Evaluator} {m : Machine}

theorem truthValue (R : D.Respects left right) (holds : Bool) : D.Val (.ofBool holds) := by
  cases holds <;> exact R.laws.number

theorem lookup {name : String} (R : D.Respects left right) (inv : D.Inv m) :
    D.Sound m D.GoodValue (left.lookup name) (right.lookup name) := by
  refine (R.readVariable inv).bind fun found next inv step known => ?_
  match found with
  | some value => exact .pure inv (known value rfl)
  | none =>
    refine .get ?_
    split
    · exact .pure inv R.laws.functionName
    · rw [R.host]
      split
      · exact .pure inv R.laws.hostEntry
      · exact R.failUnknown inv

theorem holds {expr : Expr} (R : D.Respects left right) (fine : expr.Among D.Known)
    (inv : D.Inv m) :
    D.Sound m Free (left.holds expr) (right.holds expr) :=
  (R.eval fine inv).bind fun _ _ inv _ _ => .heap (.pure inv trivial)

theorem insertedFields {value : Value} {name : String} {record : Record}
    (known : ∀ field ∈ record.fields, D.Val field.2) (good : D.Val value) :
    ∀ field ∈ (record.insert name value).fields, D.Val field.2 := by
  have put (fields : List (String × Value)) (known : ∀ field ∈ fields, D.Val field.2) :
      ∀ field ∈ Record.putField name value fields, D.Val field.2 := by
    induction fields with
    | nil => simp [Record.putField]
    | cons first rest ih =>
      obtain ⟨head, rest⟩ := List.forall_mem_cons.mp known
      unfold Record.putField
      split
      · exact List.forall_mem_cons.mpr ⟨good, rest⟩
      · exact List.forall_mem_cons.mpr ⟨head, ih rest⟩
  unfold Record.insert
  split
  · exact put record.fields known
  · exact List.forall_mem_append.mpr ⟨known, List.forall_mem_singleton.mpr good⟩

theorem insert_declared (record : Record) (name : String) (value : Value) :
    (record.insert name value).declared = record.declared := by
  unfold Record.insert
  split <;> rfl

section

variable (R : D.Respects left right)

include R

variable {fields : List (String × Expr)} {name typeName : String} {value : Value}

theorem objectOf {record : Record} (fine : ∀ field ∈ fields, field.2.Among D.Known) (inv : D.Inv m)
    (known : ∀ field ∈ record.fields, D.Val field.2) (undeclared : record.declared = none) :
    D.Sound m (fun record _ => (∀ field ∈ record.fields, D.Val field.2) ∧ record.declared = none)
      (left.objectOf record fields) (right.objectOf record fields) := by
  induction fields generalizing m record with
  | nil => exact .pure inv ⟨known, undeclared⟩
  | cons entry rest ih =>
    obtain ⟨name, expr⟩ := entry
    obtain ⟨fine, others⟩ := List.forall_mem_cons.mp fine
    refine (R.eval fine inv).bind fun value next inv step good => ?_
    exact ih others inv (insertedFields known good)
      ((insert_declared record name value).trans undeclared)

theorem typeNamed (inv : D.Inv m) :
    D.Sound m (fun decl final => D.Declared final decl) (Evaluator.typeNamed name)
      (Evaluator.typeNamed name) := by
  refine .get ?_
  split
  · exact .pure inv (R.laws.declared inv ‹_›)
  · exact .fail inv (R.laws.ordinary rfl)

theorem givenFields {decl : TypeDecl} (fine : ∀ field ∈ fields, field.2.Among D.Known)
    (inv : D.Inv m) :
    D.Sound m (fun given _ => ∀ field ∈ given, D.Val field.2)
      (left.givenFields decl fields) (right.givenFields decl fields) := by
  induction fields generalizing m with
  | nil => exact .pure inv (by simp)
  | cons entry rest ih =>
    obtain ⟨name, expr⟩ := entry
    obtain ⟨fine, others⟩ := List.forall_mem_cons.mp fine
    unfold Evaluator.givenFields
    split
    · refine (R.eval fine inv).bind fun value next inv step good => ?_
      refine (ih others inv).bind fun others next inv step known => ?_
      exact .pure inv (List.forall_mem_cons.mpr ⟨good, known⟩)
    · exact (Sound.fail inv (R.laws.ordinary rfl)).placed fine.token

theorem recordOf (fine : ∀ field ∈ fields, field.2.Among D.Known) (inv : D.Inv m) :
    D.Sound m D.GoodValue (left.recordOf typeName fields) (right.recordOf typeName fields) := by
  refine (R.typeNamed inv).bind fun decl next inv step declared => ?_
  refine (R.givenFields fine inv).bind fun given last inv step known => ?_
  have declared := D.declared_step step declared
  refine Sound.bind (R.laws.built inv (Evaluator.givenTo_builds R.laws.toPlain
    (R.laws.declared inv) known)) fun fields next inv step filled => ?_
  exact R.laws.newTyped inv (D.declared_step step declared) filled

theorem newOf {exprs : List Expr} (fine : ∀ expr ∈ exprs, expr.Among D.Known) (inv : D.Inv m) :
    D.Sound m D.GoodValue (left.newOf typeName exprs) (right.newOf typeName exprs) := by
  refine (R.typeNamed inv).bind fun decl next inv step declared => ?_
  refine (R.values fine inv).bind fun values last inv step known => ?_
  have declared := D.declared_step step declared
  split
  · exact .fail inv (R.laws.ordinary rfl)
  · refine Sound.bind (R.laws.built inv (Evaluator.filledFields_builds R.laws.toPlain
      (R.laws.declared inv) known)) fun fields next inv step filled => ?_
    exact R.laws.newTyped inv (D.declared_step step declared) filled

theorem numberOf (inv : D.Inv m) :
    D.Sound m Free (Evaluator.numberOf value) (Evaluator.numberOf value) :=
  .ask inv (fun fault failed => R.laws.ordinary (value.ordinary_asNumber _ fault failed)) fun _ _ =>
    trivial

theorem applyUnary {op : UnaryOp} (inv : D.Inv m) :
    D.Sound m D.GoodValue (Evaluator.applyUnary op value) (Evaluator.applyUnary op value) := by
  cases op with
  | negate | plus => exact (R.numberOf inv).bind fun _ _ inv _ _ => .pure inv R.laws.number
  | not => exact .heap (.pure inv (R.truthValue _))

theorem binary {op : BinaryOp} {a b : Expr} (first : a.Among D.Known) (second : b.Among D.Known)
    (inv : D.Inv m) :
    D.Sound m D.GoodValue (left.binary op a b) (right.binary op a b) := by
  have truth {m : Machine} (inv : D.Inv m) :
      D.Sound m D.GoodValue (do return .ofBool (← left.holds b))
        (do return .ofBool (← right.holds b)) :=
    (R.holds second inv).bind fun _ _ inv _ _ => .pure inv (R.truthValue _)
  have eager : D.Sound m D.GoodValue
      (do
        let first ← left.eval a
        let second ← left.eval b
        Exec.ask (fun m => Value.apply m.heap op first second))
      (do
        let first ← right.eval a
        let second ← right.eval b
        Exec.ask (fun m => Value.apply m.heap op first second)) := by
    refine (R.eval first inv).bind fun x next inv step _ => ?_
    refine (R.eval second inv).bind fun y next inv step _ => ?_
    refine .ask inv (fun fault failed => ?_) fun value found => ?_
    · exact R.laws.ordinary (Value.ordinary_apply _ op x y fault failed)
    · rcases Value.apply_cases found with ⟨n, rfl⟩ | ⟨s, rfl⟩
      · exact R.laws.number
      · exact R.laws.text
  cases op with
  | and =>
    refine (R.holds first inv).bind fun decides next inv step _ => ?_
    cases decides with
    | true => exact truth inv
    | false => exact .pure inv (R.truthValue _)
  | or =>
    refine (R.holds first inv).bind fun decides next inv step _ => ?_
    cases decides with
    | true => exact .pure inv (R.truthValue _)
    | false => exact truth inv
  | add | subtract | multiply | divide | wholeDivide | modulo | power | concat | equal | notEqual
  | less | greater | lessEqual | greaterEqual => exact eager

theorem plainExpression {expr : Expr} (fine : expr.Among D.Known) (inv : D.Inv m) :
    D.Sound m D.GoodValue (left.expression expr) (right.expression expr) := by
  cases expr with
  | number token value => exact .pure inv R.laws.number
  | text token value => exact .pure inv R.laws.text
  | name token name => exact R.lookup inv
  | array token items =>
    refine (R.values (fun _ => fine.part) inv).bind fun values next inv step known => ?_
    exact R.laws.newArray inv fun item among => known item (List.mem_toArray.mp among)
  | object token fields =>
    refine (R.objectOf (List.forall_mem_map.mp fun _ => fine.part) inv (by simp) rfl).bind
      fun record next inv step known => ?_
    exact R.laws.newRecord inv known.1 known.2
  | record token typeName fields => exact R.recordOf (List.forall_mem_map.mp fun _ => fine.part) inv
  | withField token name =>
    refine (R.withTarget inv).bind fun target next inv step known => ?_
    exact R.memberValue inv known
  | unary token op operand =>
    refine (R.eval (fine.part List.mem_cons_self) inv).bind fun value next inv step _ => ?_
    exact R.applyUnary inv
  | binary token op a b =>
    exact R.binary (fine.part List.mem_cons_self) (fine.part (by simp [Expr.parts])) inv
  | conditional token condition yes no =>
    refine (R.holds (fine.part List.mem_cons_self) inv).bind fun decides next inv step _ => ?_
    cases decides <;> exact R.eval (fine.part (by simp [Expr.parts])) inv
  | call token callee args =>
    exact R.call (fun _ among => fine.part (List.mem_cons_of_mem _ among))
      (fine.part List.mem_cons_self) inv
  | member token object name =>
    refine (R.eval (fine.part List.mem_cons_self) inv).bind fun object next inv step known => ?_
    exact R.memberValue inv known
  | index token object index =>
    refine (R.eval (fine.part List.mem_cons_self) inv).bind fun object next inv step _ => ?_
    refine (R.eval (fine.part (by simp [Expr.parts])) inv).bind fun index next inv step _ => ?_
    refine .ask inv (fun fault failed => ?_) fun value found => R.indexedValue inv found
    exact R.laws.ordinary (Value.ordinary_indexed _ object index fault failed)
  | spread token inner => exact .fail inv (R.laws.ordinary rfl)
  | await token inner => exact R.eval (fine.part List.mem_cons_self) inv
  | new token typeName args => exact R.newOf (fun _ => fine.part) inv

theorem evalExpr {expr : Expr} (fine : expr.Among D.Known) (inv : D.Inv m) :
    D.Sound m D.GoodValue (left.evalExpr expr) (right.evalExpr expr) := by
  refine Sound.placed ((R.expression inv).bind fun _ next inv step _ => ?_) fine.token
  exact R.plainExpression fine inv

theorem assignVariable {name : String} {value : Value} (inv : D.Inv m) (known : D.Val value) :
    D.Sound m Free (Evaluator.assignVariable name value) (Evaluator.assignVariable name value) := by
  refine (R.laws.checkType inv).bind fun _ next inv step _ => ?_
  refine .change inv (fun fault failed => ?_) fun final assigned => ?_
  · exact R.laws.ordinary (next.ordinary_setVariable name value fault failed)
  · exact R.laws.setVariable inv known assigned

theorem checkField (inv : D.Inv m) :
    D.Sound m (fun _ final => final = m ∧ m.Allows typeName name value)
      (Evaluator.checkField typeName name value) (Evaluator.checkField typeName name value) := by
  refine .get ?_
  split
  · next type found =>
    refine (R.laws.checkType inv).weaken fun _ _ _ _ passed => ⟨passed.1, ?_⟩
    intro decl other declared typed
    rw [declared, Option.bind_some, typed] at found
    cases found
    exact passed.2
  · next missing =>
    refine .pure inv ⟨rfl, fun decl other declared typed => ?_⟩
    rw [declared, Option.bind_some, typed] at missing
    cases missing

theorem setMember {object : Value} (inv : D.Inv m) (objectKnown : D.Val object)
    (known : D.Val value) :
    D.Sound m Free (left.setMember object name value) (right.setMember object name value) := by
  cases object with
  | record ref =>
    refine .heap ?_
    dsimp only
    split
    · refine (R.checkField inv).bind fun _ next inv step checked => ?_
      obtain ⟨rfl, allowed⟩ := checked
      exact .changed (R.laws.setField inv known allowed)
    · refine .get ?_
      split
      · next setter declared =>
        have both : D.GoodArgs [Arg.ofValue (.record ref), Arg.ofValue value] m :=
          List.forall_mem_cons.mpr
            ⟨goodArg_ofValue objectKnown, List.forall_mem_singleton.mpr (goodArg_ofValue known)⟩
        refine Sound.bind (R.callOverload inv (R.laws.setters inv declared) both)
          fun _ next inv step _ => ?_
        exact .pure inv trivial
      · split
        · exact .changed (R.laws.insertField inv known ‹_›)
        · exact .fail inv (R.laws.ordinary rfl)
  | number | text | array | function | boundFunction | hostFunction | boundHost | hostGroup =>
    exact .heap (.fail inv (R.laws.ordinary rfl))

theorem setIndex {object index : Value} (inv : D.Inv m) (objectKnown : D.Val object)
    (known : D.Val value) :
    D.Sound m Free (left.setIndex object index value) (right.setIndex object index value) := by
  refine .heap ?_
  cases object with
  | array ref =>
    have place : D.Sound m Free (Exec.ofExcept (index.asIndex m.heap (m.heap.items ref).size))
        (Exec.ofExcept (index.asIndex m.heap (m.heap.items ref).size)) := by
      refine .ofExcept inv (fun fault failed => ?_) fun _ _ => trivial
      exact R.laws.ordinary (Value.ordinary_asIndex _ index _ fault failed)
    refine place.bind fun place next inv step _ => ?_
    exact .changed (R.laws.setItem inv known)
  | record ref =>
    cases index with
    | text key => exact R.setMember inv objectKnown known
    | number | array | record | function | boundFunction | hostFunction | boundHost
    | hostGroup => exact .fail inv (R.laws.ordinary rfl)
  | number | text | function | boundFunction | hostFunction | boundHost | hostGroup =>
    exact .fail inv (R.laws.ordinary rfl)

theorem assign {target : Expr} {value : Value} (fine : target.Among D.Known) (inv : D.Inv m)
    (known : D.Val value) :
    D.Sound m Free (left.assign target value) (right.assign target value) := by
  have unassignable : D.Sound m Free
      (Exec.placed target.token (Exec.fail .notAssignable : Exec Unit))
      (Exec.placed target.token (Exec.fail .notAssignable)) :=
    (Sound.fail inv (R.laws.ordinary rfl)).placed fine.token
  cases target with
  | name token name => exact (R.assignVariable inv known).placed fine.token
  | member token object name =>
    refine (R.eval (fine.part List.mem_cons_self) inv).bind fun object next inv step objectKnown =>
      ?_
    exact (R.setMember inv objectKnown known).placed fine.token
  | withField token name =>
    refine (R.withTarget inv).bind fun object next inv step objectKnown => ?_
    exact (R.setMember inv objectKnown known).placed fine.token
  | index token object index =>
    refine (R.eval (fine.part List.mem_cons_self) inv).bind fun object next inv step objectKnown =>
      ?_
    refine (R.eval (fine.part (by simp [Expr.parts])) inv).bind fun index next inv step _ => ?_
    exact (R.setIndex inv objectKnown known).placed fine.token
  | call token callee args =>
    cases callee with
    | name nameToken name =>
      rcases args with _ | ⟨index, _ | _⟩
      · exact unassignable
      · refine (R.eval (fine.part List.mem_cons_self) inv).bind
          fun object next inv step objectKnown => ?_
        refine (R.eval (fine.part (by simp [Expr.parts])) inv).bind fun index next inv step _ => ?_
        exact (R.setIndex inv objectKnown known).placed fine.token
      · exact unassignable
    | number | text | array | object | record | withField | unary | binary | conditional | call
    | member | index | spread | await | new => exact unassignable
  | number | text | array | object | record | unary | binary | conditional | spread | await
  | new => exact unassignable

end

end Discipline.Respects

end MicroBasic
