import MicroBasic.Proofs.Concord.Basic

/-!
# Congruences of work

Two evaluators that evaluate nested expressions and calls alike in some sense evaluate whatever is
made of these alike in that sense, as long as it is kept when one work follows another, and true of
work that is the same for both, stays within a scope, and sees neither the pairings of the machine
nor how many statements were counted. The lemmas here go through the functions of the evaluator that
evaluate expressions, and through the parts of statements that only do so. What executes blocks is
left out: it looks at how work ended.
-/

namespace MicroBasic

/-- A change of machines that most work does not see: there are other pairings, and more statements
were counted. -/
structure Shift where
  pairings : List LoopBindings
  ahead : Nat

/-- A machine after the change. -/
def Shift.machine (shift : Shift) (m : Machine) : Machine :=
  { m with pairings := shift.pairings, steps := m.steps + shift.ahead }

theorem Shift.setVariable {name : String} {value : Value} (shift : Shift) (m : Machine) :
    (shift.machine m).setVariable name value = (m.setVariable name value).map shift.machine := by
  unfold Machine.setVariable
  dsimp only [Shift.machine]
  split
  · next place found =>
    cases place with
    | slot frame key =>
      dsimp only [Machine.writePlace]
      split <;> rfl
    | field ref name => rfl
    | element ref index =>
      dsimp only [Machine.writePlace]
      split <;> rfl
  · rfl

/-- A judgement on families of works that is kept when works are put together. -/
structure Congruence (ι : Type) where
  Rel : {α : Type} → (ι → Exec α) → Prop
  pure : ∀ {α : Type} {value : α}, Rel (fun _ => Pure.pure value)
  throw : ∀ {α : Type} {cause : Break}, Rel (fun _ => (MonadExcept.throw (.broken cause) : Exec α))
  get : ∀ {α : Type} {rest : ι → Machine → Exec α},
    (∀ (s : Shift) m i, rest i (s.machine m) = rest i m) →
    (∀ m, Rel (fun i => rest i m)) → Rel (fun i => MonadState.get >>= rest i)
  change : ∀ {step : Machine → Except Fault Machine},
    (∀ {m next}, step m = .ok next → m.Calm next) →
    (∀ (s : Shift) m, step (s.machine m) = (step m).map s.machine) → Rel (fun _ => Exec.change step)
  making : ∀ {α : Type} (work : Making α), Rel (fun _ => Exec.making work)
  bind : ∀ {α β : Type} {first : ι → Exec α} {rest : ι → α → Exec β}, Rel first →
    (∀ value, Rel (fun i => rest i value)) → Rel (fun i => first i >>= rest i)
  placed : ∀ {α : Type} {work : ι → Exec α} (token : Token), Rel work →
    Rel (fun i => Exec.placed token (work i))

namespace Congruence

variable {ι : Type} (C : Congruence ι) {α β : Type}

theorem ite {condition : Prop} {γ : Type} {yes no : ι → Exec γ} [Decidable condition]
    (whenTrue : C.Rel yes)
    (whenFalse : C.Rel no) : C.Rel (fun i => if condition then yes i else no i) := by
  by_cases test : condition
  · simp only [if_pos test]
    exact whenTrue
  · simp only [if_neg test]
    exact whenFalse

theorem heap {rest : ι → Heap → Exec α} (later : ∀ heap, C.Rel (fun i => rest i heap)) :
    C.Rel (fun i => Exec.heap >>= rest i) :=
  C.get (fun _ _ _ => rfl) fun m => later m.heap

theorem fail (fault : Fault) : C.Rel (fun _ => (Exec.fail fault : Exec α)) :=
  C.throw

theorem ofExcept (result : Except Fault α) : C.Rel (fun _ => Exec.ofExcept result) := by
  cases result with
  | ok value => exact C.pure
  | error fault => exact C.fail fault

theorem ask {read : Machine → Except Fault α}
    (same : ∀ (s : Shift) m, read (s.machine m) = read m) : C.Rel (fun _ => Exec.ask read) :=
  C.get (fun s m _ => congrArg Exec.ofExcept (same s m)) fun m => C.ofExcept (read m)

theorem changed {change : Machine → Machine} (calm : ∀ m : Machine, m.Calm (change m))
    (same : ∀ (s : Shift) m, change (s.machine m) = s.machine (change m)) :
    C.Rel (fun _ => (modify change : Exec Unit)) := by
  have step : C.Rel (fun _ => Exec.change fun m => .ok (change m)) :=
    C.change (by rintro m _ ⟨⟩; exact calm m) fun s m => congrArg Except.ok (same s m)
  exact step

theorem readVariable (name : String) : C.Rel (fun _ => Exec.ask fun m => m.readVariable name) :=
  C.ask fun _ _ => rfl

theorem checkType (value : Value) (type : TypeSpec) (what : String) :
    C.Rel (fun _ => Exec.checkType value type what) :=
  C.ask fun _ _ => rfl

theorem initialOf (type : TypeSpec) : C.Rel (fun _ => Evaluator.initialOf type) :=
  C.get (fun _ _ _ => rfl) fun m => C.making (m.types.initial type)

theorem resultOf (decl : FunctionDecl Block) (signal : Signal) :
    C.Rel (fun _ => Evaluator.resultOf decl signal) := by
  unfold Evaluator.resultOf
  split
  · exact C.pure
  · exact C.throw
  · exact C.fail _
  · exact C.fail _
  · exact C.initialOf _

theorem failMissing {receiver : Value} {name : String} {suggestion : Option String} :
    C.Rel (fun _ => (Evaluator.failMissing receiver name suggestion : Exec α)) :=
  C.heap fun _ => C.fail _

theorem withTarget : C.Rel (fun _ => Evaluator.withTarget) := by
  refine C.get (fun _ _ _ => rfl) fun m => ?_
  split
  · exact C.pure
  · exact C.fail _

theorem partsOf (value : Value) : C.Rel (fun _ => Evaluator.partsOf value) :=
  C.ask fun _ _ => rfl

theorem elementArg (object index : Value) : C.Rel (fun _ => Evaluator.elementArg object index) := by
  refine C.heap fun heap => C.bind (C.ofExcept _) fun value => ?_
  split
  · exact C.bind (C.ofExcept _) fun place => C.pure
  · exact C.pure

theorem arrayVariable (callee : Expr) : C.Rel (fun _ => Evaluator.arrayVariable? callee) := by
  unfold Evaluator.arrayVariable?
  split
  · refine C.bind (C.readVariable _) fun held => ?_
    split
    · exact C.pure
    · exact C.pure
  · exact C.pure

theorem typeNamed (name : String) : C.Rel (fun _ => Evaluator.typeNamed name) := by
  refine C.get (fun _ _ _ => rfl) fun m => ?_
  split
  · exact C.pure
  · exact C.fail _

theorem fieldValue (decl : TypeDecl) (field : FieldDecl) (given : Option Value) :
    C.Rel (fun _ => Evaluator.fieldValue decl field given) := by
  have checked (value : Value) : C.Rel (fun _ => do
      Exec.checkType value field.type s!"field {decl.name}.{field.name}"
      return (field.name, value)) :=
    C.bind (C.checkType _ _ _) fun _ => C.pure
  cases given with
  | some value => exact checked value
  | none => exact C.bind (C.initialOf field.type) checked

theorem filledFields (decl : TypeDecl) (fields : List FieldDecl) (values : List Value) :
    C.Rel (fun _ => Evaluator.filledFields decl fields values) := by
  induction fields generalizing values with
  | nil => exact C.pure
  | cons field rest ih =>
    exact C.bind (C.fieldValue decl field _) fun _ => C.bind (ih _) fun _ => C.pure

theorem givenTo (decl : TypeDecl) (fields : List FieldDecl) (given : List (String × Value)) :
    C.Rel (fun _ =>
    fields.mapM fun field => Evaluator.fieldValue decl field (Evaluator.givenTo field given)) := by
  induction fields with
  | nil => exact C.pure
  | cons field rest ih =>
    simp only [List.mapM_cons]
    exact C.bind (C.fieldValue decl field _) fun _ => C.bind ih fun _ => C.pure

theorem numberOf (value : Value) : C.Rel (fun _ => Evaluator.numberOf value) :=
  C.ask fun _ _ => rfl

theorem applyUnary (op : UnaryOp) (value : Value) :
    C.Rel (fun _ => Evaluator.applyUnary op value) := by
  cases op with
  | negate | plus => exact C.bind (C.numberOf value) fun _ => C.pure
  | not => exact C.heap fun _ => C.pure

theorem setVariable (name : String) (value : Value) :
    C.Rel (fun _ => Exec.change fun m => m.setVariable name value) :=
  C.change (fun assigned => .setVariable assigned) fun s m => s.setVariable m

theorem assignVariable (name : String) (value : Value) :
    C.Rel (fun _ => Evaluator.assignVariable name value) :=
  C.bind (C.checkType _ _ _) fun _ => C.setVariable name value

theorem checkField (typeName name : String) (value : Value) :
    C.Rel (fun _ => Evaluator.checkField typeName name value) := by
  refine C.get (fun _ _ _ => rfl) fun m => ?_
  split
  · exact C.checkType _ _ _
  · exact C.pure

theorem updateRecord (ref : RecordRef) (update : Record → Record) :
    C.Rel (fun _ => Evaluator.updateRecord ref update) :=
  C.changed (fun _ => .shared ..) fun _ _ => rfl

theorem advanceCounter (counter : Counter) : C.Rel (fun _ => Evaluator.advanceCounter counter) := by
  refine C.bind (C.readVariable _) fun held => ?_
  cases held with
  | none => exact C.fail _
  | some value =>
    exact C.bind (C.numberOf value) fun _ => C.bind (C.assignVariable _ _) fun _ => C.pure

theorem nextRound {stmt : Stmt} (pairs : C.Rel (fun _ => Evaluator.pairOf stmt))
    (loops : List ActiveLoop) : C.Rel (fun _ => Evaluator.nextRound stmt loops) := by
  refine C.bind pairs fun binding => ?_
  split
  · exact C.fail _
  · exact C.bind (C.advanceCounter _) fun continues => C.ite C.pure C.pure

theorem enterHandler (clause : CatchClause Block) (error : RuntimeError) :
    C.Rel (fun _ => Evaluator.enterHandler clause error) := by
  unfold Evaluator.enterHandler
  split
  · exact C.bind (C.making _) fun record => C.setVariable _ record
  · exact C.pure

/-- A declaration enters something in a table. -/
theorem entering {α : Type} {table : Machine → Except Fault α} {enter : Machine → α → Machine}
    (calm : ∀ (m : Machine) entered, m.Calm (enter m entered))
    (same : ∀ (s : Shift) m, table (s.machine m) = table m := by exact fun _ _ => rfl)
    (entered : ∀ (s : Shift) m value, enter (s.machine m) value = s.machine (enter m value) := by
      exact fun _ _ _ => rfl) :
    C.Rel (fun _ => Exec.change fun m => do return enter m (← table m)) := by
  refine C.change (fun {m next} done => ?_) fun s m => ?_
  · obtain ⟨value, _, done⟩ := Results.of_bind done
    cases done
    exact calm m value
  · rw [same]
    cases table m with
    | ok value => exact congrArg Except.ok (entered s m value)
    | error fault => rfl

theorem defineFunction (decl : FunctionDecl Block) (origin : Nat) :
    C.Rel (fun _ => Evaluator.defineFunction decl origin) :=
  C.entering fun _ _ => .shared ..

theorem defineProperty (decl : PropertyDecl Block) (origin : Nat) :
    C.Rel (fun _ => Evaluator.defineProperty decl origin) :=
  C.entering fun _ _ => .shared ..

theorem defineType (decl : TypeDecl) : C.Rel (fun _ => Evaluator.defineType decl) :=
  C.entering fun _ _ => .shared ..

theorem declare {define : Exec Unit} (stmt : Stmt) (defines : C.Rel (fun _ => define)) :
    C.Rel (fun _ => Evaluator.declare stmt define) :=
  C.get (fun _ _ _ => rfl) fun _ => C.ite C.pure defines

theorem deferBlock (body : Block) : C.Rel (fun _ => Evaluator.deferBlock body) :=
  C.changed (.defer · body) fun _ _ => rfl

theorem spawn (name : String) : C.Rel (fun _ => (modify (Machine.spawn · name) : Exec Unit)) := by
  refine C.changed (.spawn · name) fun s m => ?_
  unfold Machine.spawn
  dsimp only
  rw [apply_ite s.machine]
  rfl

theorem resume {α : Type} (result : Except Break α) : C.Rel (fun _ => Exec.resume result) := by
  cases result with
  | ok value => exact C.pure
  | error cause => exact C.throw

theorem returning (overload : Overload) (outcome : Outcome) : C.Rel (fun _ => do
    let signal ← Exec.resume outcome
    let value ← Evaluator.resultOf overload.decl signal
    match overload.decl.returnType with
    | some type => Exec.checkType value type s!"{overload.name} return value"
    | none => Pure.pure ()
    return value) := by
  refine C.bind (C.resume outcome) fun signal => C.bind (C.resultOf _ signal) fun value => ?_
  cases overload.decl.returnType with
  | some type => exact C.bind (C.checkType _ _ _) fun _ => C.pure
  | none => exact C.bind C.pure fun _ => C.pure

theorem register (types : Bool) (block : Block) : C.Rel (fun _ => Run.register types block) := by
  induction block with
  | nil => exact C.pure
  | cons stmt rest ih =>
    have entered {define : Exec Unit} (defines : C.Rel (fun _ => define)) : C.Rel (fun _ => do
        Exec.placed stmt.token define
        modify (fun m : Machine => { m with hoisted := stmt.id :: m.hoisted })
        Run.register types rest) :=
      C.bind (C.placed _ defines) fun _ =>
        C.bind (C.changed (fun _ => .shared ..) fun _ _ => rfl) fun _ => ih
    have registers := Run.registers types stmt
    unfold Run.register
    generalize Run.registration? types stmt = entry at registers ⊢
    cases registers with
    | none => exact ih
    | type => exact entered (C.defineType _)
    | function => exact entered (C.defineFunction _ _)
    | property => exact entered (C.defineProperty _ _)

theorem hoist (block : Block) : C.Rel (fun _ => Run.hoist block) :=
  C.bind (C.register true block) fun _ => C.register false block

theorem initials (type : TypeSpec) (count : Nat) (items : Array Value) :
    C.Rel (fun _ => Evaluator.initials type count items) := by
  induction count generalizing items with
  | zero => exact C.pure
  | succ count ih => exact C.bind (C.initialOf type) fun _ => ih _

/-- Evaluators evaluate nested expressions alike, if these are small enough, and have one host. -/
structure Joins (family : ι → Evaluator) (host : Host) (Small : Expr → Prop) : Prop where
  hosts : ∀ i, (family i).host = host
  invoke : ∀ function args, C.Rel (fun _ => Exec.hosting function (host.invoke function args))
  takeLine : ∀ prompt, C.Rel (fun _ => Exec.takeLine prompt)
  observe : ∀ expr, C.Rel (fun i => (family i).observe (.expression expr))
  eval : ∀ {expr}, Small expr → C.Rel (fun i => (family i).eval expr)

/-- Evaluators evaluate nested expressions and calls alike. -/
structure JoinsCalls (family : ι → Evaluator) (host : Host) (Small : Expr → Prop) : Prop
    extends C.Joins family host Small where
  callUser : ∀ overload args, C.Rel (fun i => (family i).callUser overload args)

namespace Joins

variable {C} {family : ι → Evaluator} {host : Host} {Small : Expr → Prop}
    (J : C.Joins family host Small)

include J

theorem memberOf (receiver : Value) (name : String) :
    C.Rel (fun i => (family i).memberOf receiver name) := by
  simp only [Evaluator.memberOf, Evaluator.tables, J.hosts]
  exact C.get (fun _ _ _ => rfl) fun _ => C.ofExcept _

theorem failUnknown (name : String) : C.Rel (fun i => ((family i).failUnknown name : Exec α)) := by
  simp only [Evaluator.failUnknown, J.hosts]
  exact C.get (fun _ _ _ => rfl) fun _ => C.fail _

theorem callHost (function : HostRef) (args : List Value) :
    C.Rel (fun i => (family i).callHost function args) := by
  simp only [Evaluator.callHost, J.hosts]
  exact J.invoke function args

theorem lookup (name : String) : C.Rel (fun i => (family i).lookup name) := by
  refine C.bind (C.readVariable name) fun held => ?_
  cases held with
  | some value => exact C.pure
  | none =>
    refine C.get (fun _ _ _ => rfl) fun m => ?_
    simp only [J.hosts]
    split
    · exact C.pure
    · split
      · exact C.pure
      · exact J.failUnknown name

theorem holds {expr : Expr} (small : Small expr) : C.Rel (fun i => (family i).holds expr) :=
  C.bind (J.eval small) fun _ => C.heap fun _ => C.pure

theorem values {exprs : List Expr} (small : ∀ expr, sizeOf expr < sizeOf exprs → Small expr) :
    C.Rel (fun i => (family i).values exprs) := by
  induction exprs with
  | nil => exact C.pure
  | cons item rest ih =>
    have size := List.cons.sizeOf_spec item rest
    have others := ih fun expr less => small expr (by omega)
    rcases item.spread_or with ⟨token, inner, rfl⟩ | plain
    · rw [Expr.spread.sizeOf_spec] at size
      refine C.bind (J.eval (small inner (by omega))) fun _ => ?_
      exact C.bind (C.placed _ (C.partsOf _)) fun _ => C.bind others fun _ => C.pure
    · simp only [Evaluator.values_cons _ plain]
      exact C.bind (J.eval (small item (by omega))) fun _ => C.bind others fun _ => C.pure

end Joins

theorem Joins.defaultOf {family : ι → Evaluator} {host : Host} {C : Congruence ι}
    (J : C.Joins family host fun _ => True) (param : Param) :
    C.Rel (fun i => (family i).defaultOf param) := by
  unfold Evaluator.defaultOf
  split
  · exact J.eval trivial
  · exact C.initialOf _

namespace JoinsCalls

section Expressions

variable {C} {family : ι → Evaluator} {host : Host} {Small : Expr → Prop}
    (J : C.JoinsCalls family host Small)

include J

theorem callOverload (overload : Overload) (args : List Arg) :
    C.Rel (fun i => (family i).callOverload overload args) :=
  C.heap fun _ => C.ite (J.callUser overload args) (C.fail _)

theorem memberValue (receiver : Value) (name : String) :
    C.Rel (fun i => (family i).memberValue receiver name) := by
  refine C.bind (J.memberOf receiver name) fun member => ?_
  split
  · exact C.pure
  · exact J.callUser _ _
  iterate 3 · exact C.pure
  · exact C.failMissing

theorem fieldArg (object : Value) (name : String) :
    C.Rel (fun i => (family i).fieldArg object name) := by
  refine C.heap fun heap => ?_
  split
  · exact C.pure
  · exact C.bind (J.memberValue object name) fun _ => C.pure

variable {expr : Expr}

theorem arg (small : ∀ inner, sizeOf inner ≤ sizeOf expr → Small inner) :
    C.Rel (fun i => (family i).arg expr) := by
  have whole : C.Rel (fun i => (family i).eval expr) := J.eval (small expr (Nat.le_refl _))
  have plain : C.Rel (fun i => do return Arg.ofValue (← (family i).eval expr)) :=
    C.bind whole fun _ => C.pure
  unfold Evaluator.arg
  split
  · exact C.get (fun _ _ _ => rfl) fun _ => C.bind whole fun _ => C.pure
  · exact C.bind (J.eval (small _ (by simp +arith))) fun _ => J.fieldArg _ _
  · exact C.bind C.withTarget fun _ => J.fieldArg _ _
  · refine C.bind (J.eval (small _ (by simp +arith))) fun _ => ?_
    exact C.bind (J.eval (small _ (by simp))) fun _ => C.elementArg _ _
  · refine C.bind (C.arrayVariable _) fun held => ?_
    cases held with
    | some object => exact C.bind (J.eval (small _ (by simp +arith))) fun _ => C.elementArg _ _
    | none => exact plain
  · exact plain

theorem args {exprs : List Expr} (small : ∀ expr, sizeOf expr < sizeOf exprs → Small expr) :
    C.Rel (fun i => (family i).args exprs) := by
  induction exprs with
  | nil => exact C.pure
  | cons item rest ih =>
    have size := List.cons.sizeOf_spec item rest
    have others := ih fun expr less => small expr (by omega)
    rcases item.spread_or with ⟨token, inner, rfl⟩ | plain
    · rw [Expr.spread.sizeOf_spec] at size
      refine C.bind (J.eval (small inner (by omega))) fun _ => ?_
      exact C.bind (C.placed _ (C.partsOf _)) fun _ => C.bind others fun _ => C.pure
    · simp only [Evaluator.args_cons _ plain]
      have first : C.Rel (fun i => (family i).arg item) :=
        J.arg fun inner less => small inner (by omega)
      exact C.bind (C.placed _ first) fun _ => C.bind others fun _ => C.pure

section Calls

variable {exprs : List Expr} (small : ∀ expr, sizeOf expr < sizeOf exprs → Small expr)

include small

theorem callNamed (name : String) : C.Rel (fun i => (family i).callNamed name exprs) := by
  refine C.get (fun _ _ _ => rfl) fun m => ?_
  split
  · exact J.failUnknown name
  · refine C.bind (J.args small) fun args => C.heap fun _ => ?_
    exact C.bind (C.ofExcept _) fun overload => J.callUser overload args

theorem callValue (callee : Value) : C.Rel (fun i => (family i).callValue callee exprs) := by
  unfold Evaluator.callValue
  split
  · exact J.callNamed small _
  · exact C.bind (J.args small) fun _ => J.callOverload _ _
  · exact C.bind (J.values small) fun _ => J.callHost _ _
  · exact C.bind (J.values small) fun _ => J.callHost _ _
  · exact C.bind (J.eval (small _ (by simp +arith))) fun _ => C.ask fun _ _ => rfl
  · exact C.heap fun _ => C.fail _

theorem callName (name : String) : C.Rel (fun i => (family i).callName name exprs) := by
  refine C.bind (C.readVariable _) fun held => ?_
  cases held with
  | some value => exact C.ite (J.callValue small value) (C.heap fun _ => C.fail _)
  | none =>
    refine C.get (fun _ _ _ => rfl) fun m => C.ite (J.callNamed small name) ?_
    simp only [J.hosts]
    split
    · exact C.bind (J.values small) fun _ => J.callHost _ _
    · exact C.fail _
    · exact J.failUnknown name

theorem callMember (receiver : Value) (name : String) :
    C.Rel (fun i => (family i).callMember receiver name exprs) := by
  refine C.bind (J.memberOf receiver name) fun member => ?_
  split
  · exact J.callValue small _
  · exact C.bind (J.callUser _ _) fun _ => J.callValue small _
  · exact C.bind (J.args small) fun _ => J.callOverload _ _
  · exact C.bind (J.values small) fun _ => J.callHost _ _
  · exact C.fail _
  · exact C.failMissing

theorem call {callee : Expr} (named : ∀ expr, sizeOf expr ≤ sizeOf callee → Small expr) :
    C.Rel (fun i => (family i).call callee exprs) := by
  unfold Evaluator.call
  split
  · exact J.callName small _
  · exact C.bind (J.eval (named _ (by simp; omega))) fun _ => J.callMember small _ _
  · exact C.bind (J.eval (named _ (Nat.le_refl _))) fun _ => J.callValue small _

theorem newOf (typeName : String) : C.Rel (fun i => (family i).newOf typeName exprs) := by
  refine C.bind (C.typeNamed _) fun decl => C.bind (J.values small) fun values => ?_
  split
  · exact C.fail _
  · exact C.bind (C.filledFields decl decl.fields values) fun _ => C.making _

end Calls

section Fields

variable {fields : List (String × Expr)} (small : ∀ expr, sizeOf expr < sizeOf fields → Small expr)

include small

theorem objectOf (record : Record) : C.Rel (fun i => (family i).objectOf record fields) := by
  induction fields generalizing record with
  | nil => exact C.pure
  | cons field rest ih =>
    obtain ⟨name, expr⟩ := field
    have size := List.cons.sizeOf_spec (name, expr) rest
    rw [Prod.mk.sizeOf_spec] at size
    exact C.bind (J.eval (small expr (by omega))) fun _ =>
      ih (fun expr less => small expr (by omega)) _

theorem givenFields (decl : TypeDecl) : C.Rel (fun i => (family i).givenFields decl fields) := by
  induction fields with
  | nil => exact C.pure
  | cons field rest ih =>
    obtain ⟨name, expr⟩ := field
    have size := List.cons.sizeOf_spec (name, expr) rest
    rw [Prod.mk.sizeOf_spec] at size
    refine C.ite (C.bind (J.eval (small expr (by omega))) fun _ => ?_) (C.placed _ (C.fail _))
    exact C.bind (ih fun expr less => small expr (by omega)) fun _ => C.pure

theorem recordOf (typeName : String) : C.Rel (fun i => (family i).recordOf typeName fields) := by
  refine C.bind (C.typeNamed _) fun decl => C.bind (J.givenFields small decl) fun given => ?_
  exact C.bind (C.givenTo decl decl.fields given) fun _ => C.making _

end Fields

theorem binary {left right : Expr} {op : BinaryOp} (first : Small left) (second : Small right) :
    C.Rel (fun i => (family i).binary op left right) := by
  have told : C.Rel (fun i => do return Value.ofBool (← (family i).holds right)) :=
    C.bind (J.holds second) fun _ => C.pure
  unfold Evaluator.binary
  split
  · exact C.bind (J.holds first) fun _ => C.ite told (C.pure)
  · exact C.bind (J.holds first) fun _ => C.ite (C.pure) told
  · exact C.bind (J.eval first) fun _ => C.bind (J.eval second) fun _ => C.ask fun _ _ => rfl

/-- An expression whose inner ones are small, without a place for its own errors. -/
theorem expression (small : ∀ inner, sizeOf inner < sizeOf expr → Small inner) :
    C.Rel (fun i => (family i).expression expr) := by
  unfold Evaluator.expression
  split
  · exact C.pure
  · exact C.pure
  · exact J.lookup _
  · exact C.bind (J.values fun inner less => small inner (by simp; omega)) fun _ => C.making _
  · exact C.bind (J.objectOf (fun inner less => small inner (by simp; omega)) _) fun _ => C.making _
  · exact J.recordOf (fun inner less => small inner (by simp; omega)) _
  · exact C.bind C.withTarget fun _ => J.memberValue _ _
  · exact C.bind (J.eval (small _ (by simp +arith))) fun _ => C.applyUnary _ _
  · exact J.binary (small _ (by simp +arith)) (small _ (by simp +arith))
  · refine C.bind (J.holds (small _ (by simp +arith))) fun _ => ?_
    exact C.ite (J.eval (small _ (by simp +arith))) (J.eval (small _ (by simp +arith)))
  · exact J.call (fun inner less => small inner (by simp; omega)) fun inner less =>
      small inner (by simp; omega)
  · exact C.bind (J.eval (small _ (by simp +arith))) fun _ => J.memberValue _ _
  · refine C.bind (J.eval (small _ (by simp +arith))) fun _ => ?_
    exact C.bind (J.eval (small _ (by simp +arith))) fun _ => C.ask fun _ _ => rfl
  · exact C.fail _
  · exact J.eval (small _ (by simp +arith))
  · next args =>
    refine J.newOf (fun inner less => small inner ?_) _
    cases args with
    | none =>
      simp at less ⊢
      omega
    | some args =>
      simp at less ⊢
      omega

theorem evalExpr (small : ∀ inner, sizeOf inner < sizeOf expr → Small inner) :
    C.Rel (fun i => (family i).evalExpr expr) :=
  C.placed _ (C.bind (J.observe expr) fun _ => J.expression small)

theorem setMember (object : Value) (name : String) (value : Value) :
    C.Rel (fun i => (family i).setMember object name value) := by
  unfold Evaluator.setMember
  split
  · refine C.heap fun heap => C.ite (C.bind (C.checkField _ _ _) fun _ => C.updateRecord _ _)
      (C.get (fun _ _ _ => rfl) fun m => ?_)
    split
    · exact C.bind (J.callOverload _ _) fun _ => C.pure
    · exact C.ite (C.updateRecord _ _) (C.fail _)
  · exact C.heap fun _ => C.fail _

theorem setIndex (object index value : Value) :
    C.Rel (fun i => (family i).setIndex object index value) := by
  refine C.heap fun heap => ?_
  split
  · exact C.bind (C.ofExcept _) fun _ => C.changed (fun _ => .shared ..) fun _ _ => rfl
  · exact J.setMember _ _ _
  · exact C.fail _

end Expressions

variable {C} {family : ι → Evaluator} {host : Host} (J : C.JoinsCalls family host fun _ => True)

include J

theorem assign (target : Expr) (value : Value) :
    C.Rel (fun i => (family i).assign target value) := by
  unfold Evaluator.assign
  split
  · exact C.placed _ (C.assignVariable _ _)
  · exact C.bind (J.eval trivial) fun _ => C.placed _ (J.setMember _ _ _)
  · exact C.bind C.withTarget fun _ => C.placed _ (J.setMember _ _ _)
  · exact C.bind (J.eval trivial) fun _ => C.bind (J.eval trivial) fun _ =>
      C.placed _ (J.setIndex _ _ _)
  · exact C.bind (J.eval trivial) fun _ => C.bind (J.eval trivial) fun _ =>
      C.placed _ (J.setIndex _ _ _)
  · exact C.placed _ (C.fail _)

theorem evalNumber (expr : Expr) : C.Rel (fun i => (family i).evalNumber expr) :=
  C.bind (J.eval trivial) fun _ => C.placed _ (C.numberOf _)

theorem beginCounter (var : String) (start limit : Expr) (step : Option Expr) :
    C.Rel (fun i => (family i).beginCounter var start limit step) := by
  have begun (start limit step : Float) :
    C.Rel (fun _ => if step == 0 then Exec.fail (.zeroStep var)
      else do
        Evaluator.assignVariable var (.number start)
        return (({ var, limit, step } : Counter), Counter.continues { var, limit, step } start)) :=
    C.ite (C.fail _) (C.bind (C.assignVariable _ _) fun _ => C.pure)
  refine C.bind (J.evalNumber start) fun _ => C.bind (J.evalNumber limit) fun _ => ?_
  cases step with
  | some step => exact C.bind (J.evalNumber step) fun _ => begun _ _ _
  | none => exact begun _ _ 1

theorem beginFor {stmt : Stmt} (pairs : C.Rel (fun _ => Evaluator.pairOf stmt)) (var : String)
    (start limit : Expr) (step : Option Expr) (loops : List ActiveLoop) :
    C.Rel (fun i => (family i).beginFor stmt var start limit step loops) :=
  C.bind pairs fun _ => C.bind (J.beginCounter var start limit step) fun _ => C.ite C.pure C.pure

theorem goesOn (condition : Option LoopCondition) :
    C.Rel (fun i => (family i).goesOn condition) := by
  cases condition with
  | some condition => exact C.bind (J.holds trivial) fun _ => C.pure
  | none => exact C.pure

theorem printedText (text : String) (items : List PrintItem) :
    C.Rel (fun i => (family i).printedText text items) := by
  induction items generalizing text with
  | nil => exact C.pure
  | cons item rest ih => exact C.bind (J.eval trivial) fun _ => C.heap fun _ => ih _

theorem print (items : List PrintItem) (newline : Bool) :
    C.Rel (fun i => (family i).print items newline) := by
  refine C.bind (J.printedText "" items) fun text => ?_
  cases newline with
  | true => exact C.changed (.writeLine · text) fun _ _ => rfl
  | false => exact C.changed (.write · text) fun _ _ => rfl

theorem input (prompt : String) (targets : List Expr) :
    C.Rel (fun i => (family i).input prompt targets) := by
  induction targets generalizing prompt with
  | nil => exact C.pure
  | cons target rest ih =>
    exact C.bind (J.takeLine prompt) fun _ => C.bind (J.assign target _) fun _ => ih _

theorem chosenBranch (otherwise : Option Block) (branches : List (IfBranch Block)) :
    C.Rel (fun i => (family i).chosenBranch otherwise branches) := by
  induction branches with
  | nil => exact C.pure
  | cons branch rest ih => exact C.bind (J.holds trivial) fun _ => C.ite (C.pure) ih

theorem caseMatches (selector : Value) (test : CaseTest) :
    C.Rel (fun i => (family i).caseMatches selector test) := by
  cases test with
  | value expr => exact C.bind (J.eval trivial) fun _ => C.heap fun _ => C.pure
  | range low high => exact C.bind (J.eval trivial) fun _ => C.bind (J.eval trivial) fun _ => C.pure
  | compare op expr => exact C.bind (J.eval trivial) fun _ => C.ask fun _ _ => rfl

theorem anyMatches (selector : Value) (tests : List CaseTest) :
    C.Rel (fun i => (family i).anyMatches selector tests) := by
  induction tests with
  | nil => exact C.pure
  | cons test rest ih => exact C.bind (J.caseMatches selector test) fun _ => C.ite (C.pure) ih

theorem chosenCase (selector : Value) (otherwise : Option Block) (cases : List (CaseClause Block)) :
    C.Rel (fun i => (family i).chosenCase selector otherwise cases) := by
  induction cases with
  | nil => exact C.pure
  | cons clause rest ih =>
    exact C.bind (C.placed _ (J.anyMatches selector clause.tests)) fun _ => C.ite (C.pure) ih

theorem raise (token : Token) (message : Expr) (code : Option Expr) :
    C.Rel (fun i => (family i).raise token message code) := by
  refine C.bind (J.eval trivial) fun _ => C.heap fun _ => ?_
  cases code with
  | some code => exact C.bind (J.eval trivial) fun _ => C.heap fun _ => C.placed _ (C.fail _)
  | none => exact C.placed _ (C.fail _)

theorem dimSize (name : String) (size : Expr) : C.Rel (fun i => (family i).dimSize name size) := by
  refine C.bind (J.eval trivial) fun _ => C.bind (C.numberOf _) fun n => ?_
  split
  · exact C.fail _
  · exact C.ite C.pure (C.fail _)

theorem dim (name : String) (size : Option Expr) (type : Option TypeSpec) :
    C.Rel (fun i => (family i).dim name size type) := by
  cases size with
  | none => exact C.bind (C.initialOf _) (C.setVariable name)
  | some size =>
    refine C.bind (J.dimSize name size) fun _ => C.bind (C.initials _ _ _) fun items => ?_
    exact C.bind (C.making _) (C.setVariable name)

end JoinsCalls

end Congruence

end MicroBasic
