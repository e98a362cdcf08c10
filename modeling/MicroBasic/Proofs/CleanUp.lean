import MicroBasic.Host.Library
import MicroBasic.Proofs.Isolation.Calls

/-!
# Clean-up blocks

A `TRY` statement with a `FINALLY` block comes to its end in one of a few ways. Once its `TRY` part
and, if an error is handled, its `CATCH` part have an outcome, the clean-up block is executed, once,
on the machine they leave, and the statement ends with a break or a signal of the clean-up block or
else with that outcome.

Two ways pass the clean-up block by. One is an exhausted budget. The other is a handler that cannot
be entered, because its variable stands for an element of an array that has become too short
meanwhile. On the machines that runs come to, nothing else keeps a variable from being assigned: a
variable of a caller and a field of a record are always there.
-/

namespace MicroBasic

theorem Machine.Aimed.setVariable_fails {reach : List Place} {name : String} {value : Value}
    {fault : Fault} {m : Machine} (inv : m.Aimed reach)
    (failed : m.setVariable name value = .error fault) :
    ∃ array index, m.scope.places.get? (Text.stripSuffix name) = some (.element array index) ∧
      (m.heap.items array).size ≤ index ∧
        fault = .indexOutOfRange index.toFloat (m.heap.items array).size := by
  unfold Machine.setVariable at failed
  dsimp only at failed
  split at failed
  · next place stands =>
    cases place with
    | slot frame key =>
      obtain ⟨_, scope, found, _⟩ := inv.of_get? stands
      have parked : frame < m.parked.length := (List.getElem?_eq_some_iff.mp found).1
      simp only [Machine.writePlace, if_pos parked] at failed
      cases failed
    | field record field => cases failed
    | element array index =>
      simp only [Machine.writePlace] at failed
      split at failed
      · cases failed
      · next short =>
        cases failed
        exact ⟨array, index, stands, Nat.not_lt.mp short, rfl⟩
  · cases failed

namespace Evaluator

/-- A handler cannot be entered with an error: its variable stands for an element that is not there.
-/
structure Lost (clause : CatchClause Block) (m : Machine) (name : String) (array : ArrayRef)
    (index : Nat) : Prop where
  named : clause.errorName = some name
  stands : m.scope.places.get? (Text.stripSuffix name) = some (.element array index)
  short : (m.heap.items array).size ≤ index

theorem enterHandler_cases {clause : CatchClause Block} {error : RuntimeError} {m : Machine}
    {reach : List Place} (inv : m.Aimed reach) :
    (∃ entered, enterHandler clause error m = .ok () entered) ∨
      ∃ name array index final, Lost clause m name array index ∧ enterHandler clause error m =
          .error (.broken (.error
            (.unplaced (.indexOutOfRange index.toFloat (m.heap.items array).size)))) final := by
  unfold enterHandler
  cases named : clause.errorName with
  | none => exact .inl ⟨m, rfl⟩
  | some name =>
    -- The description of the error is a new record; arrays are as they were.
    obtain ⟨ref, made⟩ : ∃ ref, ref = m.heap.newRecord (errorRecord error) := ⟨_, rfl⟩
    have begun :
        Exec.newRecord (errorRecord error) m = .ok (.record ref.1) { m with heap := ref.2 } := by
      rw [made]
      rfl
    have same (array : ArrayRef) : ref.2.items array = m.heap.items array := by
      rw [made]
      rfl
    have kept : Machine.Aimed reach { m with heap := ref.2 } := inv.sameScopes ⟨rfl, rfl⟩
    dsimp only
    rw [Exec.bind_of_ok begun]
    unfold Exec.change Exec.ask
    simp only [bind_assoc, Exec.get_bind]
    cases assigned : Machine.setVariable { m with heap := ref.2 } name (.record ref.1) with
    | ok entered => exact .inl ⟨entered, rfl⟩
    | error fault =>
      obtain ⟨array, index, stands, short, rfl⟩ := kept.setVariable_fails assigned
      rw [same] at short ⊢
      exact .inr ⟨name, array, index, _, ⟨named, stands, short⟩, rfl⟩

variable (self : Evaluator)

/-- The `TRY` part of a statement, and its `CATCH` part if an error is handled, end with an outcome.
-/
inductive Guarded (body : Block) (handler : Option (CatchClause Block)) (m : Machine) :
    Outcome → Machine → Prop
  | unhandled {outcome : Outcome} {final : Machine}
      (ended : Exec.attempt (self.exec body) m = .ok outcome final)
      (unexhausted : outcome.Unexhausted)
      (passes : handler = none ∨ ∀ error, outcome ≠ .error (.error error)) :
      Guarded body handler m outcome final
  | handled {clause : CatchClause Block} {error : RuntimeError} {raised entered final : Machine}
      {outcome : Outcome} (caught : handler = some clause)
      (failed : Exec.attempt (self.exec body) m = .ok (.error (.error error)) raised)
      (unexhausted : error.fault.isFatal = false)
      (enters : enterHandler clause error raised = .ok () entered)
      (ended : Exec.attempt (self.exec clause.body) entered = .ok outcome final) :
      Guarded body handler m outcome final

/-- A clean-up block is executed after an outcome: its own break or signal is the result, and
otherwise the outcome is taken up again. -/
inductive CleansUp (block : Block) (outcome : Outcome) (m : Machine) :
    EStateM.Result Escape Machine Signal → Prop
  | breaks {escape : Escape} {final : Machine}
      (executed : self.exec block m = .error escape final) :
      CleansUp block outcome m (.error escape final)
  | signals {signal : Signal} {final : Machine} (executed : self.exec block m = .ok signal final)
      (own : signal ≠ .done) : CleansUp block outcome m (.ok signal final)
  | resumes {final : Machine} (executed : self.exec block m = .ok .done final) :
      CleansUp block outcome m (Exec.resume outcome final)

/-- How a `TRY` statement with a clean-up block ends. -/
inductive TryEnds (body : Block) (handler : Option (CatchClause Block)) (block : Block)
    (m : Machine) : EStateM.Result Escape Machine Signal → Prop
  /-- The `TRY` part is unfinished. -/
  | unfinished {what : Awaited} {final : Machine}
      (awaits : Exec.attempt (self.exec body) m = .error (.awaiting what) final) :
      TryEnds body handler block m (.error (.awaiting what) final)
  /-- The `CATCH` part is unfinished. -/
  | handling {clause : CatchClause Block} {error : RuntimeError} {raised entered final : Machine}
      {what : Awaited} (caught : handler = some clause)
      (failed : Exec.attempt (self.exec body) m = .ok (.error (.error error)) raised)
      (unexhausted : error.fault.isFatal = false)
      (enters : enterHandler clause error raised = .ok () entered)
      (awaits : Exec.attempt (self.exec clause.body) entered = .error (.awaiting what) final) :
      TryEnds body handler block m (.error (.awaiting what) final)
  /-- A budget is exhausted in the `TRY` part. -/
  | exhausted {cause : Break} {final : Machine} (fatal : cause.isFatal = true)
      (failed : Exec.attempt (self.exec body) m = .ok (.error cause) final) :
      TryEnds body handler block m (.error (.broken cause) final)
  /-- The handler cannot be entered, since its variable is lost. -/
  | lost {clause : CatchClause Block} {error : RuntimeError} {raised final : Machine}
      {name : String} {array : ArrayRef} {index : Nat} (caught : handler = some clause)
      (failed : Exec.attempt (self.exec body) m = .ok (.error (.error error)) raised)
      (unexhausted : error.fault.isFatal = false) (lost : Lost clause raised name array index) :
      TryEnds body handler block m (.error (.broken (.error (.unplaced
          (.indexOutOfRange index.toFloat (raised.heap.items array).size)))) final)
  /-- The clean-up block is executed after the outcome of the `TRY` and `CATCH` parts. -/
  | cleaned {outcome : Outcome} {middle : Machine} {result : EStateM.Result Escape Machine Signal}
      (guarded : self.Guarded body handler m outcome middle)
      (cleans : self.CleansUp block outcome middle result) :
      TryEnds body handler block m result

variable {self} {body block : Block} {handler : Option (CatchClause Block)} {outcome : Outcome}
    {m : Machine}

theorem cleanUp_cleansUp (silent : ∀ moment m, self.observe moment m = .ok () m) :
    self.CleansUp block outcome m (self.cleanUp (some block) outcome m) := by
  unfold cleanUp
  dsimp only
  rw [Exec.bind_of_ok (silent _ _)]
  cases executed : self.exec block m with
  | error escape final =>
    simp only [Bind.bind, EStateM.bind, executed]
    exact .breaks executed
  | ok signal final =>
    rw [Exec.bind_of_ok executed]
    cases signal with
    | done => exact .resumes executed
    | jump target | halt reason | returned value | exit kind | continued kind =>
      exact .signals executed nofun

theorem tryEnds_of_error {reach : List Place} {clause : CatchClause Block} {error : RuntimeError}
    {raised : Machine} (hooks : (Discipline.isolation reach).Hooks self self)
    (silent : ∀ moment m, self.observe moment m = .ok () m)
    (inv : raised.Aimed reach) (caught : handler = some clause)
    (failed : Exec.attempt (self.exec body) m = .ok (.error (.error error)) raised)
    (unexhausted : error.fault.isFatal = false) :
    self.TryEnds body handler block m
      ((do
        let outcome ← self.handle clause error
        self.cleanUp (some block) outcome) raised) := by
  unfold handle
  simp only [bind_assoc]
  rcases enterHandler_cases inv with ⟨entered, enters⟩ | ⟨name, array, index, final, lost, refused⟩
  · rw [Exec.bind_of_ok enters]
    have sound : (Discipline.isolation reach).Sound raised _ (enterHandler clause error) _ :=
      hooks.enterHandler inv
    obtain ⟨kept, _⟩ := sound.ends (Discipline.isolation_united reach) |>.kept (.inl ⟨(), enters⟩)
    have unstopped := Discipline.Sound.unstopped (Discipline.isolation_united reach)
      (hooks.exec kept trivial :
        (Discipline.isolation reach).Sound entered _ (self.exec clause.body) _)
    rcases Exec.attempt_concludes unstopped with ⟨what, final, awaits⟩ | ⟨outcome, final, ended⟩
    · simp only [Bind.bind, EStateM.bind, awaits]
      exact .handling caught failed unexhausted enters awaits
    · rw [Exec.bind_of_ok ended]
      exact .cleaned (.handled caught failed unexhausted enters ended) (cleanUp_cleansUp silent)
  · simp only [Bind.bind, EStateM.bind, refused]
    exact .lost caught failed unexhausted lost

theorem tryStmt_tryEnds {reach : List Place} (hooks : (Discipline.isolation reach).Hooks self self)
    (silent : ∀ moment m, self.observe moment m = .ok () m)
    (unhalted : ∀ block, (self.exec block).Unhalted (fun _ => True)) (inv : m.Aimed reach) :
    self.TryEnds body handler block m (self.tryStmt body handler (some block) m) := by
  have sound : (Discipline.isolation reach).Sound m _ (self.exec body) (self.exec body) :=
    hooks.exec inv trivial
  have united := Discipline.isolation_united reach
  unfold tryStmt
  rcases Exec.attempt_concludes (sound.unstopped united) with
    ⟨what, final, awaits⟩ | ⟨outcome, final, ended⟩
  · simp only [Bind.bind, EStateM.bind, awaits]
    exact .unfinished awaits
  · rw [Exec.bind_of_ok ended]
    have cleaned (unexhausted : Outcome.Unexhausted outcome)
        (passes : handler = none ∨ ∀ error, outcome ≠ .error (.error error)) :
        self.TryEnds body handler block m (self.cleanUp (some block) outcome final) :=
      .cleaned (.unhandled ended unexhausted passes) (cleanUp_cleansUp silent)
    cases outcome with
    | ok signal => exact cleaned nofun (.inr nofun)
    | error cause =>
      cases cause with
      | halt reason => exact absurd rfl ((unhalted body).attempt.good ended reason)
      | error error =>
        dsimp only
        cases fatal : (Break.error error).isFatal with
        | true => exact .exhausted fatal ended
        | false =>
          cases handler with
          | none =>
            refine cleaned ?_ (.inl rfl)
            rintro cause ⟨⟩
            exact fatal
          | some clause =>
            exact tryEnds_of_error hooks silent
              ((sound.ends united).kept (Exec.endsOn_of_attempt ended)).1 rfl ended fatal

end Evaluator

/-- In every run, a `TRY` statement with a clean-up block ends in one of a few ways: with one
execution of its clean-up block after the outcome of its other parts, or unfinished, or because a
budget is exhausted in its `TRY` part, or because the variable of its handler stands for an element
that is not there. -/
theorem clean_up_follows_try {history : List Program} {interpreter : Interpreter}
    (reached : Reached history interpreter) (program : Program) :
    interpreter.Always program (fun moment machine => ∀ stmt body handler block,
      moment = .statement stmt → stmt.kind = .attempt body handler (some block) →
        ∀ bound, (evaluator interpreter.settings interpreter.host bound).TryEnds body handler block
          machine
          ((evaluator interpreter.settings interpreter.host bound).plainStmt stmt machine)) := by
  refine reached.always program fun inv _ => ?_
  rintro stmt body handler block - kind bound
  unfold Evaluator.plainStmt
  rw [kind]
  exact Evaluator.tryStmt_tryEnds (Discipline.isolation_hooks (fun _ _ => rfl) bound _)
    (fun _ _ => Discipline.evaluator_observe) (evaluator_unhalted _ _ bound) inv

/-- A program whose handler fails, with a clean-up block. -/
def failingHandler : Program :=
  .ofSource ("TRY\nERROR \"first\"\nCATCH e\nERROR e.message & \" second\"\nFINALLY\nPRINT \"finally\"\n" ++
      "END TRY")

/-- The run of that program. -/
def failingHandlerRun : RunResult × Interpreter :=
  (Interpreter.new .empty {} .still).runWithin 40 failingHandler

/-- In a run of that program after it has failed before, and printed by its clean-up, clean-ups
follow. -/
theorem clean_up_follows_failing_handler :
    failingHandlerRun.2.outputs = ["finally"] ∧ failingHandlerRun.1.isAwaiting = false ∧
      failingHandlerRun.2.Always failingHandler (fun moment machine => ∀ stmt body handler block,
        moment = .statement stmt → stmt.kind = .attempt body handler (some block) →
          ∀ bound, (evaluator failingHandlerRun.2.settings failingHandlerRun.2.host bound).TryEnds
            body handler block machine
            ((evaluator failingHandlerRun.2.settings failingHandlerRun.2.host bound).plainStmt stmt
              machine)) := by
  have outputs : failingHandlerRun.2.outputs = ["finally"] := by decide +kernel
  have finished : failingHandlerRun.1.isAwaiting = false := by decide +kernel
  have ran : (Interpreter.new .empty {} .still).runWithin 40 failingHandler =
      (failingHandlerRun.1, failingHandlerRun.2) := (Prod.eta failingHandlerRun).symm
  exact ⟨outputs, finished,
    clean_up_follows_try (.run (.new .empty {} .still) ran finished) failingHandler⟩

/-- A program whose handler has a variable that stands for the last element of an array, which is
taken away before the error is raised. -/
def lostVariable : Program :=
  .ofSource ("SUB S(REF e, a)\nTRY\nx = ARR.POP(a)\nERROR \"boom\"\nCATCH e\nPRINT \"caught\"\nFINALLY\n" ++
      "PRINT \"finally\"\nEND TRY\nEND SUB\nb = [1]\nCALL S(b[0], b)")

/-- The run of that program. -/
def lostVariableRun : RunResult × Interpreter :=
  (Interpreter.new .standard {} .still).runWithin 40 lostVariable

/-- A handler whose variable is lost keeps the clean-up from running: the run fails with an index
that is out of range, and nothing is printed. -/
theorem clean_up_passed_by_lost_variable :
    lostVariableRun.1.errorCode? = some "INDEX_OUT_OF_RANGE" ∧ lostVariableRun.2.outputs = [] := by
  decide +kernel

end MicroBasic
