import MicroBasic.Eval.Block
import MicroBasic.Proofs.Restated

/-!
# Disciplines of evaluation

A discipline names what evaluation keeps: what is true of every machine, what a piece of work may do
to a machine, and which values, places, blocks and functions may occur. Two pieces of work are sound
for a discipline, from a machine, when they keep it and end alike, except where the discipline says
how they may part. Comparing a piece of work with itself gives an invariant; comparing the work of
two evaluators shows that they agree.

The rules here follow the operations that work is put together from. Each of them is used by name
where the functions of the evaluator are gone through.
-/

namespace MicroBasic

@[simp] theorem RuntimeError.placedAt_fault (error : RuntimeError) (token : Token) :
    (error.placedAt token).fault = error.fault := by
  unfold placedAt
  split <;> rfl

/-- An error stands at one of some tokens, if it has a place. -/
def RuntimeError.Stands (known : Token → Prop) (error : RuntimeError) : Prop :=
  ∀ place, error.location = some place → ∃ token, known token ∧ token.location = place

theorem RuntimeError.Stands.placedAt {known : Token → Prop} {token : Token} {error : RuntimeError}
    (stands : error.Stands known) (among : known token) : (error.placedAt token).Stands known := by
  unfold RuntimeError.placedAt
  split
  · exact stands
  · rintro _ ⟨⟩
    exact ⟨token, among, rfl⟩

namespace Expr

/-- The expressions that an expression is made of. -/
def parts : Expr → List Expr
  | array _ items => items
  | object _ fields => fields.map Prod.snd
  | record _ _ fields => fields.map Prod.snd
  | unary _ _ operand => [operand]
  | binary _ _ left right => [left, right]
  | conditional _ condition yes no => [condition, yes, no]
  | call _ callee args => callee :: args
  | member _ inner _ => [inner]
  | index _ inner place => [inner, place]
  | spread _ inner => [inner]
  | await _ inner => [inner]
  | new _ _ args => args.getD []
  | _ => []

/-- One expression is another, or part of it at any depth. -/
inductive Within (expr : Expr) : Expr → Prop
  | self : Within expr expr
  | inner {part outer : Expr} (deeper : Within expr part) (held : part ∈ outer.parts) :
    Within expr outer

/-- All tokens of an expression are known. -/
def Among (known : Token → Prop) (expr : Expr) : Prop :=
  ∀ part : Expr, part.Within expr → known part.token

variable {known : Token → Prop} {expr inner : Expr}

theorem Among.token (among : expr.Among known) : known expr.token :=
  among expr .self

theorem Among.part (among : expr.Among known) (held : inner ∈ expr.parts) : inner.Among known :=
  fun part within => among part (.inner within held)

end Expr

/-- The expressions of a case test. -/
def CaseTest.exprs : CaseTest → List Expr
  | value expr => [expr]
  | range low high => [low, high]
  | compare _ expr => [expr]

namespace StmtKind

variable {β : Type}

/-- The expressions of a statement, apart from those in its inner blocks. -/
def exprs : StmtKind β → List Expr
  | assign target value _ => [target, value]
  | print items _ => items.map PrintItem.expr
  | input _ targets => targets
  | branch branches _ _ => branches.map IfBranch.condition
  | openFor _ start limit step => start :: limit :: step.toList
  | whileLoop condition _ => [condition]
  | doLoop before after _ => (before.toList ++ after.toList).map LoopCondition.condition
  | raise message code => message :: code.toList
  | function decl => decl.params.filterMap Param.default
  | property decl => decl.params.filterMap Param.default
  | withBlock target _ => [target]
  | select selector clauses _ =>
    selector :: clauses.flatMap fun clause => clause.tests.flatMap CaseTest.exprs
  | dim _ size _ => size.toList
  | returnValue value => value.toList
  | call expr => [expr]
  | _ => []

/-- The tokens that a statement has besides its own. -/
def tokens : StmtKind β → List Token
  | select _ clauses _ => clauses.map CaseClause.token
  | _ => []

end StmtKind

/-- All tokens of a statement are known, apart from those in its inner blocks. -/
structure Stmt.Among (known : Token → Prop) (stmt : Stmt) : Prop where
  token : known stmt.token
  tokens : ∀ token ∈ stmt.kind.tokens, known token
  exprs : ∀ expr ∈ stmt.kind.exprs, expr.Among known

theorem Stmt.Among.of_all {known : Token → Prop} (stmt : Stmt)
    (all : ∀ token, known token := by exact fun _ => trivial) : stmt.Among known :=
  ⟨all _, fun _ _ => all _, fun _ _ _ _ => all _⟩

namespace Exec

variable {β : Type} {m : Machine}

theorem get_bind {rest : Machine → Exec β} : (MonadState.get >>= rest) m = rest m m :=
  rfl

theorem heap_bind {rest : Heap → Exec β} : (Exec.heap >>= rest) m = rest m.heap m :=
  rfl

theorem modify_bind {change : Machine → Machine} {rest : Unit → Exec β} :
    (modify change >>= rest) m = rest () (change m) :=
  rfl

theorem of_bind {α : Type} {first : Exec α} {rest : α → Exec β} {value : β} {final : Machine}
    (done : (first >>= rest) m = .ok value final) :
    ∃ middle next, first m = .ok middle next ∧ rest middle next = .ok value final := by
  simp only [Bind.bind, EStateM.bind] at done
  cases begun : first m with
  | ok middle next =>
    rw [begun] at done
    exact ⟨middle, next, rfl, done⟩
  | error escape next =>
    rw [begun] at done
    cases done

theorem bind_of_ok {next : Machine} {α : Type} {first : Exec α} {rest : α → Exec β} {middle : α}
    (done : first m = .ok middle next) : (first >>= rest) m = rest middle next := by
  simp only [Bind.bind, EStateM.bind, done]

end Exec

theorem Escape.unparted : ∀ {left : Escape} {_ : Machine} {_ : Escape} {_ : Machine}, False →
    ∀ cause, left ≠ .broken cause :=
  False.elim

theorem Escape.unhalted : ∀ {_ : Escape} {_ : Machine} {right : Escape} {_ : Machine}, False →
    ∀ reason, right ≠ .broken (.halt reason) :=
  False.elim

theorem Escape.unstrayed : ∀ {left : Escape} {_ : Machine}, False → ∀ cause, left ≠ .broken cause :=
  False.elim

/-- What evaluation keeps. What is not said is not restricted, and work does not part or stray. -/
structure Discipline where
  /-- What is true of every machine. -/
  Inv : Machine → Prop
  /-- What work may do to a machine. -/
  Step : Machine → Machine → Prop
  /-- The values that may occur. -/
  Val : Value → Prop := fun _ => True
  /-- The places that an argument may have. -/
  Spot : Machine → Place → Prop := fun _ _ => True
  /-- The blocks that may be executed. -/
  Code : Machine → Block → Prop := fun _ _ => True
  /-- The functions that may be called. -/
  Callable : Overload → Prop := fun _ => True
  /-- The record types that records may be made of. -/
  Declared : Machine → TypeDecl → Prop := fun _ _ => True
  /-- The tokens that code may have. -/
  Known : Token → Prop := fun _ => True
  /-- The causes for which work may fail. -/
  Cause : Fault → Prop := fun _ => True
  /-- How two pieces of work that do not end alike may have ended. -/
  Parted : Escape → Machine → Escape → Machine → Prop := fun _ _ _ _ => False
  /-- How the first of two pieces of work may have ended where nothing is said of the second. -/
  Strayed : Escape → Machine → Prop := fun _ _ => False
  step_refl : ∀ m, Step m m
  step_trans : ∀ {first second third}, Step first second → Step second third → Step first third
  spot_step : ∀ {first second place}, Step first second → Spot first place → Spot second place := by
    exact fun _ _ => trivial
  code_step : ∀ {first second block}, Step first second → Code first block → Code second block := by
    exact fun _ _ => trivial
  declared_step : ∀ {first second decl}, Step first second → Declared first decl →
    Declared second decl := by exact fun _ _ => trivial
  /-- Giving an error a place does not bring parted work together. -/
  parted_placed : ∀ {left leftMachine error rightMachine token},
    Parted left leftMachine (.broken (.error error)) rightMachine →
      Parted left leftMachine (.broken (.error (error.placedAt token))) rightMachine := by
    exact False.elim
  /-- The first of two parted pieces of work has not failed by itself. -/
  parted_left : ∀ {left leftMachine right rightMachine},
    Parted left leftMachine right rightMachine → ∀ cause, left ≠ .broken cause := by
    exact @Escape.unparted
  /-- Work does not part by halting. -/
  parted_right : ∀ {left leftMachine right rightMachine},
    Parted left leftMachine right rightMachine → ∀ reason, right ≠ .broken (.halt reason) := by
    exact @Escape.unhalted
  /-- Work does not stray by failing. -/
  strayed_left :
      ∀ {left leftMachine}, Strayed left leftMachine → ∀ cause, left ≠ .broken cause := by
    exact @Escape.unstrayed

namespace Discipline

variable (D : Discipline)

/-- A machine is one of those that come up, and work may lead to it from another one. -/
abbrev Keeps (m next : Machine) : Prop :=
  D.Inv next ∧ D.Step m next

/-- An error that work may fail with: for a cause that is allowed, and at a known token. -/
def Allows (error : RuntimeError) : Prop :=
  D.Cause error.fault ∧ error.Stands D.Known

/-- How two pieces of work end that are sound from a machine. `Good` is what is true of a value and
the machine that comes with it. -/
inductive Agree {α : Type} (m : Machine) (Good : α → Machine → Prop) :
    EStateM.Result Escape Machine α → EStateM.Result Escape Machine α → Prop
  | value {value : α} {final : Machine} (kept : D.Inv final) (step : D.Step m final)
      (good : Good value final) : Agree m Good (.ok value final) (.ok value final)
  | error {error : RuntimeError} {final : Machine} (kept : D.Inv final)
      (step : D.Step m final) (allowed : D.Allows error) :
      Agree m Good (.error (.broken (.error error)) final) (.error (.broken (.error error)) final)
  | halt {reason : HaltReason} {final : Machine} (kept : D.Inv final)
      (step : D.Step m final) :
      Agree m Good (.error (.broken (.halt reason)) final) (.error (.broken (.halt reason)) final)
  | awaiting {what : Awaited} {final : Machine} :
      Agree m Good (.error (.awaiting what) final) (.error (.awaiting what) final)
  | parted {left right : Escape} {leftMachine rightMachine : Machine}
      (parted : D.Parted left leftMachine right rightMachine) :
      Agree m Good (.error left leftMachine) (.error right rightMachine)
  | strayed {left : Escape} {leftMachine : Machine} {right : EStateM.Result Escape Machine α}
      (strayed : D.Strayed left leftMachine) : Agree m Good (.error left leftMachine) right

/-- Two pieces of work, begun on a machine, keep a discipline and end alike. -/
def Sound {α : Type} (m : Machine) (Good : α → Machine → Prop) (left right : Exec α) : Prop :=
  D.Agree m Good (left m) (right m)

/-- Nothing is asked of a value. -/
def Free {α : Type} : α → Machine → Prop := fun _ _ => True

/-- A value that may occur. -/
def GoodValue : Value → Machine → Prop := fun value _ => D.Val value

/-- Values that may occur. -/
def GoodValues : List Value → Machine → Prop := fun values _ => ∀ value ∈ values, D.Val value

/-- An argument whose value may occur and which may have its place. -/
def GoodArg (arg : Arg) (m : Machine) : Prop :=
  D.Val arg.value ∧ ∀ place, arg.place = some place → D.Spot m place

/-- Arguments whose values may occur and which may have their places. -/
def GoodArgs (args : List Arg) (m : Machine) : Prop :=
  ∀ arg ∈ args, D.GoodArg arg m

/-- A signal that a block may end with: it does not jump, and a returned value may occur. -/
def GoodSignal (signal : Signal) (_ : Machine) : Prop :=
  match signal with
  | .jump _ => False
  | .returned (some value) => D.Val value
  | _ => True

/-- How work that was attempted may have ended. -/
def GoodEnd {α : Type} (Good : α → Machine → Prop) (result : Except Break α) (final : Machine) :
    Prop :=
  match result with
  | .ok value => Good value final
  | .error (.error error) => D.Allows error
  | .error (.halt _) => True

theorem allows_unplaced {fault : Fault} {D : Discipline} (cause : D.Cause fault) :
    D.Allows (.unplaced fault) :=
  ⟨cause, nofun⟩

variable {D} {α β : Type} {m next : Machine} {Good : α → Machine → Prop}

theorem Agree.after {left right : EStateM.Result Escape Machine α} (step : D.Step m next)
    (agree : D.Agree next Good left right) : D.Agree m Good left right := by
  cases agree with
  | value kept later good => exact .value kept (D.step_trans step later) good
  | error kept later allowed => exact .error kept (D.step_trans step later) allowed
  | halt kept later => exact .halt kept (D.step_trans step later)
  | awaiting => exact .awaiting
  | parted parted => exact .parted parted
  | strayed strayed => exact .strayed strayed

theorem Agree.weaken {left right : EStateM.Result Escape Machine α} {Weak : α → Machine → Prop}
    (agree : D.Agree m Good left right)
    (implies : ∀ value final, D.Inv final → D.Step m final → Good value final →
      Weak value final) : D.Agree m Weak left right := by
  cases agree with
  | value kept step good => exact .value kept step (implies _ _ kept step good)
  | error kept step cause => exact .error kept step cause
  | halt kept step => exact .halt kept step
  | awaiting => exact .awaiting
  | parted parted => exact .parted parted
  | strayed strayed => exact .strayed strayed

theorem GoodArgs.after {args : List Arg} (step : D.Step m next) (good : D.GoodArgs args m) :
    D.GoodArgs args next := by
  intro arg among
  obtain ⟨value, place⟩ := good arg among
  exact ⟨value, fun spot taken => D.spot_step step (place spot taken)⟩

namespace Sound

theorem weaken {left right : Exec α} {Weak : α → Machine → Prop} (sound : D.Sound m Good left right)
    (implies : ∀ value final, D.Inv final → D.Step m final → Good value final →
      Weak value final) : D.Sound m Weak left right :=
  Agree.weaken sound implies

theorem pure {value : α} (inv : D.Inv m) (good : Good value m) : D.Sound m Good (Pure.pure value)
    (Pure.pure value) :=
  .value inv (D.step_refl m) good

theorem bind {Middle : α → Machine → Prop} {Last : β → Machine → Prop} {left right : Exec α}
    {leftRest rightRest : α → Exec β} (first : D.Sound m Middle left right)
    (rest : ∀ value next, D.Inv next → D.Step m next → Middle value next →
      D.Sound next Last (leftRest value) (rightRest value)) :
    D.Sound m Last (left >>= leftRest) (right >>= rightRest) := by
  unfold Sound at first ⊢
  simp only [Bind.bind, EStateM.bind]
  revert first
  generalize left m = leftResult
  generalize right m = rightResult
  intro first
  cases first with
  | value kept step good => exact (rest _ _ kept step good).after step
  | error kept step cause => exact .error kept step cause
  | halt kept step => exact .halt kept step
  | awaiting => exact .awaiting
  | parted parted => exact .parted parted
  | strayed strayed => exact .strayed strayed

theorem get {leftRest rightRest : Machine → Exec α}
    (rest : D.Sound m Good (leftRest m) (rightRest m)) :
    D.Sound m Good (MonadState.get >>= leftRest) (MonadState.get >>= rightRest) :=
  rest

theorem heap {leftRest rightRest : Heap → Exec α}
    (rest : D.Sound m Good (leftRest m.heap) (rightRest m.heap)) :
    D.Sound m Good (Exec.heap >>= leftRest) (Exec.heap >>= rightRest) :=
  rest

theorem changed {change : Machine → Machine} (kept : D.Keeps m (change m)) :
    D.Sound m Free (modify change) (modify change) :=
  .value kept.1 kept.2 trivial

theorem fail {fault : Fault} (inv : D.Inv m) (cause : D.Cause fault) :
    D.Sound m Good (Exec.fail fault) (Exec.fail fault) :=
  .error inv (D.step_refl m) (allows_unplaced cause)

theorem halt {reason : HaltReason} (inv : D.Inv m) : D.Sound m Good (throw (.broken (.halt reason)))
    (throw (.broken (.halt reason))) :=
  Agree.halt inv (D.step_refl m)

theorem await {what : Awaited} : D.Sound m Good (Exec.await what) (Exec.await what) :=
  .awaiting

theorem ofExcept {result : Except Fault α} (inv : D.Inv m)
    (cause : ∀ fault, result = .error fault → D.Cause fault)
    (good : ∀ value, result = .ok value → Good value m) :
    D.Sound m Good (Exec.ofExcept result) (Exec.ofExcept result) := by
  cases result with
  | ok value => exact .pure inv (good value rfl)
  | error fault => exact .fail inv (cause fault rfl)

theorem ask {read : Machine → Except Fault α} (inv : D.Inv m)
    (cause : ∀ fault, read m = .error fault → D.Cause fault)
    (good : ∀ value, read m = .ok value → Good value m) :
    D.Sound m Good (Exec.ask read) (Exec.ask read) :=
  .get (.ofExcept inv cause good)

theorem asked {γ : Type} {Last : γ → Machine → Prop} {leftRest rightRest : α → Exec γ}
    {read : Machine → Except Fault α} (inv : D.Inv m)
    (cause : ∀ fault, read m = .error fault → D.Cause fault)
    (rest : ∀ value, read m = .ok value → D.Sound m Last (leftRest value) (rightRest value)) :
    D.Sound m Last (Exec.ask read >>= leftRest) (Exec.ask read >>= rightRest) := by
  unfold Sound Exec.ask
  simp only [bind_assoc, Exec.get_bind]
  cases outcome : read m with
  | error fault => exact .error inv (D.step_refl m) (allows_unplaced (cause fault outcome))
  | ok value => exact rest value outcome

theorem changing {leftRest rightRest : Exec α} {change : Machine → Machine}
    (step : D.Step m (change m))
    (rest : D.Sound (change m) Good leftRest rightRest) :
    D.Sound m Good (do modify change; leftRest) (do modify change; rightRest) :=
  Agree.after step rest

theorem change {step : Machine → Except Fault Machine} (inv : D.Inv m)
    (cause : ∀ fault, step m = .error fault → D.Cause fault)
    (keeps : ∀ next, step m = .ok next → D.Keeps m next) :
    D.Sound m Free (Exec.change step) (Exec.change step) := by
  unfold Sound Exec.change Exec.ask
  simp only [bind_assoc, Exec.get_bind]
  cases outcome : step m with
  | error fault => exact .error inv (D.step_refl m) (allows_unplaced (cause fault outcome))
  | ok next => exact .value (keeps next outcome).1 (keeps next outcome).2 trivial

theorem resume {outcome : Except Break α} (inv : D.Inv m) (good : D.GoodEnd Good outcome m) :
    D.Sound m Good (Exec.resume outcome) (Exec.resume outcome) := by
  match outcome with
  | .ok value => exact .pure inv good
  | .error (.error error) => exact .error inv (D.step_refl m) good
  | .error (.halt reason) => exact .halt inv

end Sound

/-- Work under one discipline is done within work under another: what may occur and how work may end
is the same for both, while a step means what each of them says. -/
structure Nested (D E : Discipline) : Prop where
  val : ∀ {value}, E.Val value → D.Val value
  allows : ∀ {error}, E.Allows error → D.Allows error
  parted : ∀ {left leftMachine right rightMachine},
    E.Parted left leftMachine right rightMachine → D.Parted left leftMachine right rightMachine
  strayed : ∀ {left leftMachine}, E.Strayed left leftMachine → D.Strayed left leftMachine

theorem Nested.refl (D : Discipline) : Nested D D where
  val known := known
  allows allowed := allowed
  parted differ := differ
  strayed lost := lost

theorem Nested.goodSignal {E : Discipline} (nested : Nested D E) {signal : Signal}
    {inner outer : Machine} (good : E.GoodSignal signal inner) : D.GoodSignal signal outer := by
  match signal with
  | .jump _ => exact good
  | .returned (some _) => exact nested.val good
  | .returned none | .done | .halt _ | .exit _ | .continued _ => trivial

theorem Nested.goodEnd {E : Discipline} {outcome : Outcome} (nested : Nested D E)
    {inner outer : Machine} (good : E.GoodEnd E.GoodSignal outcome inner) :
    D.GoodEnd D.GoodSignal outcome outer := by
  match outcome with
  | .ok signal => exact @Nested.goodSignal D E nested signal inner outer good
  | .error (.error _) => exact nested.allows good
  | .error (.halt _) => trivial

theorem Agree.changed {change : Machine → Machine} {leftRest rightRest : Unit → Exec α}
    (rest : D.Agree m Good (leftRest () (change next)) (rightRest () (change next))) :
    D.Agree m Good ((modify change >>= leftRest) next) ((modify change >>= rightRest) next) :=
  rest

/-- Going on after work that may break off. The work may begin on another machine, and be done under
a discipline of its own. Where it parted by an error, only the second goes on, with that error. -/
theorem Agree.attempt {E : Discipline} {left right : Exec α} {γ : Type} {Last : γ → Machine → Prop}
    {leftRest rightRest : Except Break α → Exec γ} (nested : Nested D E)
    (sound : E.Sound next Good left right)
    (rest : ∀ result final, E.Inv final → E.Step next final → E.GoodEnd Good result final →
      D.Agree m Last (leftRest result final) (rightRest result final))
    (parted : ∀ {escape leftMachine error rightMachine}, right next =
      .error (.broken (.error error)) rightMachine →
      E.Parted escape leftMachine (.broken (.error error)) rightMachine →
        D.Agree m Last (.error escape leftMachine)
          (rightRest (.error (.error error)) rightMachine)) :
    D.Agree m Last ((Exec.attempt left >>= leftRest) next)
      ((Exec.attempt right >>= rightRest) next) := by
  unfold Sound at sound
  simp only [Bind.bind, EStateM.bind, Exec.attempt]
  revert sound parted
  generalize left next = leftResult
  generalize right next = rightResult
  intro sound parted
  cases sound with
  | value kept step good => exact rest _ _ kept step good
  | error kept step cause => exact rest _ _ kept step cause
  | halt kept step => exact rest _ _ kept step trivial
  | awaiting => exact .awaiting
  | @parted leftEscape rightEscape leftMachine rightMachine differ =>
    have unbroken := E.parted_left differ
    have steady := E.parted_right differ
    cases leftEscape with
    | broken cause => exact absurd rfl (unbroken cause)
    | awaiting | stopped =>
      rcases rightEscape with (error | reason) | what | _
      · exact parted rfl differ
      · exact absurd rfl (steady reason)
      · exact .parted (nested.parted differ)
      · exact .parted (nested.parted differ)
  | @strayed leftEscape leftMachine _ strayed =>
    cases leftEscape with
    | broken cause => exact absurd rfl (E.strayed_left strayed cause)
    | awaiting | stopped => exact .strayed (nested.strayed strayed)

namespace Sound

theorem placed {token : Token} {left right : Exec α} (sound : D.Sound m Good left right)
    (known : D.Known token) :
    D.Sound m Good (Exec.placed token left) (Exec.placed token right) := by
  simp only [Exec.placed_eq]
  refine Agree.attempt (.refl D) sound (fun result final kept step good => ?_) fun _ parted =>
    .parted (D.parted_placed parted)
  match result with
  | .ok value => exact .value kept step good
  | .error (.error error) =>
    exact .error kept step ⟨RuntimeError.placedAt_fault error token ▸ good.1, good.2.placedAt known⟩
  | .error (.halt reason) => exact .halt kept step

theorem halting {left right : Exec α} (sound : D.Sound m Good left right) :
    D.Sound m (fun result final => ∀ value, result = .ok value → Good value final)
      (Exec.halting left) (Exec.halting right) := by
  simp only [Exec.halting_eq]
  refine Agree.attempt (.refl D) sound (fun result final kept step good => ?_) fun _ parted =>
    .parted parted
  match result with
  | .ok value => exact .value kept step fun _ same => Except.ok.inj same ▸ good
  | .error (.error error) => exact .error kept step good
  | .error (.halt reason) => exact .value kept step nofun

end Sound

end Discipline

end MicroBasic
