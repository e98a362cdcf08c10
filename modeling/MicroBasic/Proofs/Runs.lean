import MicroBasic.Proofs.Discipline.Shallow
import MicroBasic.Proofs.Halting.Blocks

/-!
# Runs and their moments

An interpreter is reached by running programs on it, one after another. What is true at every moment
of a run is said through a run that checks it: at each moment its observer looks at the machine and
stops where the assertion fails. An assertion always holds when no such run is stopped. A run that
is not stopped is the run itself, so nothing is lost by looking on.
-/

namespace MicroBasic

open Classical in
/-- The observer that stops a run at a moment where an assertion fails. -/
noncomputable def assertion (asserted : Moment → Machine → Prop) (moment : Moment) : Exec Unit :=
  fun m => if asserted moment m then .ok () m else .error .stopped m

theorem assertion_holds {asserted : Moment → Machine → Prop} {moment : Moment} {m : Machine}
    (holds : asserted moment m) : assertion asserted moment m = .ok () m :=
  if_pos holds

theorem assertion_fails {asserted : Moment → Machine → Prop} {moment : Moment} {m : Machine}
    (fails : ¬ asserted moment m) : assertion asserted moment m = .error .stopped m :=
  if_neg fails

theorem assertion_eq {asserted : Moment → Machine → Prop} {test : Moment → Machine → Bool}
    (decides : ∀ moment m, test moment m = true ↔ asserted moment m) :
    assertion asserted = fun moment m => if test moment m then .ok () m else .error .stopped m := by
  funext moment m
  by_cases holds : asserted moment m
  · rw [assertion_holds holds, if_pos ((decides moment m).mpr holds)]
  · rw [assertion_fails holds, if_neg (mt (decides moment m).mp holds)]

/-- Whether work was stopped by an observer. -/
def isStopped {α : Type} : EStateM.Result Escape Machine α → Bool
  | .error .stopped _ => true
  | _ => false

theorem exists_of_isStopped {α : Type} {result : EStateM.Result Escape Machine α}
    (stopped : isStopped result = true) : ∃ final, result = .error .stopped final := by
  unfold isStopped at stopped
  split at stopped
  · exact ⟨_, rfl⟩
  · cases stopped

/-- Work that was begun on a machine comes to its end on another one: with a value, with an error,
or because the program halted. -/
def Exec.EndsOn {α : Type} (work : Exec α) (m final : Machine) : Prop :=
  (∃ value, work m = .ok value final) ∨ ∃ cause, work m = .error (.broken cause) final

namespace Exec

variable {α β : Type} {m : Machine}

/-- Work that needs something from outside that is not there yet. -/
def Unfinished (work : Exec α) (m : Machine) : Prop :=
  ∃ what final, work m = .error (.awaiting what) final

theorem Unfinished.bind {first : Exec α} {rest : α → Exec β} (unfinished : first.Unfinished m) :
    (first >>= rest).Unfinished m := by
  obtain ⟨what, final, awaits⟩ := unfinished
  refine ⟨what, final, ?_⟩
  simp only [Bind.bind, EStateM.bind, awaits]

theorem attempt_concludes {work : Exec α} (unstopped : ∀ final, work m ≠ .error .stopped final) :
    (attempt work).Unfinished m ∨ ∃ result final, attempt work m = .ok result final := by
  unfold Unfinished attempt
  cases done : work m with
  | ok value final => exact .inr ⟨_, _, rfl⟩
  | error escape final =>
    cases escape with
    | broken cause => exact .inr ⟨_, _, rfl⟩
    | awaiting what => exact .inl ⟨_, _, rfl⟩
    | stopped => exact absurd done (unstopped final)

theorem endsOn_of_attempt {γ : Type} {work : Exec γ} {result : Except Break γ} {final : Machine}
    (ended : attempt work m = .ok result final) : work.EndsOn m final := by
  unfold attempt at ended
  cases done : work m with
  | ok value last =>
    rw [done] at ended
    cases ended
    exact .inl ⟨value, done⟩
  | error escape last =>
    rw [done] at ended
    cases escape with
    | broken cause =>
      cases ended
      exact .inr ⟨cause, done⟩
    | awaiting what | stopped => cases ended

end Exec

/-- Whether a block goes on or ends. -/
def Moment.isPlace : Moment → Bool
  | place _ _ _ => true
  | _ => false

/-- Whether a run needs something from outside. -/
def RunResult.isAwaiting : RunResult → Bool
  | awaiting _ => true
  | _ => false

/-- The code of the error that a run failed with, if it did. -/
def RunResult.errorCode? : RunResult → Option String
  | failed error => some error.fault.code
  | _ => none

/-- A run fails if its outcome is an error, or a signal that no program can end with. -/
theorem Run.of_resultOf_failed {before : Nat} {m : Machine} {outcome : Outcome}
    {error : RuntimeError} (unhalting : Unhalting outcome)
    (failed : Run.resultOf before m outcome = .failed error) : outcome = .error (.error error) ∨
      ∃ signal, outcome = .ok signal ∧ Run.haltOf signal = .error error.fault ∧
        error.location = none := by
  cases outcome with
  | error cause =>
    cases cause with
    | error other =>
      cases failed
      exact .inl rfl
    | halt reason => exact absurd rfl (unhalting reason)
  | ok signal =>
    simp only [Run.resultOf] at failed
    split at failed
    · cases failed
    · next stray =>
      cases failed
      exact .inr ⟨signal, rfl, stray, rfl⟩

namespace Interpreter

/-- How the statements of a program end. -/
def work (interpreter : Interpreter) (bound : Nat) (program : Program) :
    EStateM.Result Escape Machine Outcome :=
  Run.statements (evaluator interpreter.settings interpreter.host bound) program.statements
    (Run.begin interpreter.settings program interpreter.machine)

/-- What a run makes of how its statements ended. -/
def conclude (interpreter : Interpreter) :
    EStateM.Result Escape Machine Outcome → RunResult × Interpreter
  | .ok outcome final =>
    (Run.resultOf interpreter.machine.console.lines.size (Run.finish final) outcome,
      { interpreter with machine := Run.finish final })
  | .error (.broken cause) final =>
    (Run.resultOf interpreter.machine.console.lines.size (Run.finish final) (.error cause),
      { interpreter with machine := Run.finish final })
  | .error (.awaiting what) final => (.awaiting what, { interpreter with machine := final })
  | .error .stopped final => (.awaiting .fuel, { interpreter with machine := final })

theorem runWithin_eq (interpreter : Interpreter) (bound : Nat) (program : Program) :
    interpreter.runWithin bound program =
      interpreter.conclude (interpreter.work bound program) := by
  unfold runWithin work conclude
  split <;> simp only [*]

/-- The same work under an observer that stops it where an assertion fails. -/
noncomputable def checkedWork (interpreter : Interpreter) (asserted : Moment → Machine → Prop)
    (bound : Nat) (program : Program) : EStateM.Result Escape Machine Outcome :=
  Run.statements
    (observedEvaluator (assertion asserted) interpreter.settings interpreter.host bound)
    program.statements (Run.begin interpreter.settings program interpreter.machine)

/-- An assertion holds at every moment of every run of a program. -/
def Always (interpreter : Interpreter) (program : Program) (asserted : Moment → Machine → Prop) :
    Prop :=
  ∀ bound final, interpreter.checkedWork asserted bound program ≠ .error .stopped final

variable {interpreter next : Interpreter} {bound : Nat} {program : Program}

theorem runWithin_finished {result : RunResult}
    (ran : interpreter.runWithin bound program = (result, next))
    (finished : result.isAwaiting = false) :
    ∃ final, next = { interpreter with machine := Run.finish final } ∧
      ((∃ outcome, interpreter.work bound program = .ok outcome final) ∨
        ∃ cause, interpreter.work bound program = .error (.broken cause) final) := by
  unfold runWithin at ran
  dsimp only at ran
  split at ran
  · next outcome final ended =>
    cases ran
    exact ⟨final, rfl, .inl ⟨outcome, ended⟩⟩
  · next cause final ended =>
    cases ran
    exact ⟨final, rfl, .inr ⟨cause, ended⟩⟩
  · cases ran
    cases finished
  · cases ran
    cases finished

theorem host_runWithin {result : RunResult}
    (ran : interpreter.runWithin bound program = (result, next)) :
    next.host = interpreter.host := by
  unfold runWithin at ran
  dsimp only at ran
  split at ran <;> cases ran <;> rfl

/-- The work of a run does not break off by halting. -/
theorem work_unbroken {reason : HaltReason} {final : Machine} :
    interpreter.work bound program ≠ .error (.broken (.halt reason)) final :=
  (Run.statements_unhalted _ _ _ _).unbroken

/-- The outcome of a run is no halt that broke something off. -/
theorem work_unhalting {outcome : Outcome} {final : Machine}
    (ended : interpreter.work bound program = .ok outcome final) : Unhalting outcome :=
  (Run.statements_unhalted _ _ _ _).good ended

/-- A run fails with the error that its statements end with, or because of a signal that they end
with. -/
theorem runWithin_failed_cases {error : RuntimeError}
    (ran : interpreter.runWithin bound program = (.failed error, next)) :
    (∃ final, interpreter.work bound program = .ok (.error (.error error)) final ∨
      interpreter.work bound program = .error (.broken (.error error)) final) ∨
    ∃ signal final, interpreter.work bound program = .ok (.ok signal) final ∧
      Run.haltOf signal = .error error.fault ∧ error.location = none := by
  rw [runWithin_eq] at ran
  cases ended : interpreter.work bound program with
  | ok outcome final =>
    rw [ended] at ran
    rcases Run.of_resultOf_failed (work_unhalting ended)
      (Prod.mk.inj ran).1 with rfl | ⟨signal, rfl, stray⟩
    · exact .inl ⟨final, .inl rfl⟩
    · exact .inr ⟨signal, final, rfl, stray⟩
  | error escape final =>
    rw [ended] at ran
    cases escape with
    | broken cause =>
      cases cause with
      | error cause =>
        cases (Prod.mk.inj ran).1
        exact .inl ⟨final, .inr rfl⟩
      | halt reason => exact absurd ended work_unbroken
    | awaiting what | stopped => cases ran

/-- A run fails with the error that its statements end with, or for an ordinary cause. -/
theorem runWithin_failure {error : RuntimeError}
    (ran : interpreter.runWithin bound program = (.failed error, next)) :
    (∃ final, interpreter.work bound program = .ok (.error (.error error)) final ∨
      interpreter.work bound program = .error (.broken (.error error)) final) ∨
    error.fault.isOrdinary = true := by
  refine (runWithin_failed_cases ran).imp_right ?_
  rintro ⟨signal, final, -, stray, -⟩
  revert stray
  generalize error.fault = fault
  intro stray
  unfold Run.haltOf at stray
  split at stray <;> cases stray <;> rfl

end Interpreter

/-- An interpreter is reached by running some programs on it, one after another, since it was new or
reset. -/
inductive Reached : List Program → Interpreter → Prop
  | new (host : Host) (settings : Settings) (world : World) :
    Reached [] (.new host settings world)
  | run {history : List Program} {interpreter next : Interpreter} {bound : Nat} {program : Program}
    {result : RunResult} (earlier : Reached history interpreter)
    (ran : interpreter.runWithin bound program = (result, next))
    (finished : result.isAwaiting = false) : Reached (history ++ [program]) next
  | taken {history : List Program} {interpreter : Interpreter}
    (earlier : Reached history interpreter) : Reached history interpreter.takeOutputs.2
  | limited {history : List Program} {interpreter : Interpreter} (settings : Settings)
    (earlier : Reached history interpreter) : Reached history (interpreter.withSettings settings)
  | moved {history : List Program} {interpreter : Interpreter} (world : World)
    (earlier : Reached history interpreter) : Reached history (interpreter.withWorld world)
  | reset {history : List Program} {interpreter : Interpreter}
    (earlier : Reached history interpreter) : Reached [] interpreter.reset

namespace Discipline

variable {D : Discipline}

/-- How a piece of work may end under a discipline. -/
def Ends {α : Type} (D : Discipline) (m : Machine) (Good : α → Machine → Prop) :
    EStateM.Result Escape Machine α → Prop
  | .ok value final => D.Inv final ∧ D.Step m final ∧ Good value final
  | .error (.broken _) final => D.Inv final ∧ D.Step m final
  | .error (.awaiting _) _ => True
  | .error .stopped _ => False

variable {m : Machine} {settings : Settings} {host : Host}

theorem Ends.kept {α : Type} {Good : α → Machine → Prop} {result : EStateM.Result Escape Machine α}
    {final : Machine} (ends : D.Ends m Good result)
    (finished : (∃ value, result = .ok value final) ∨
      ∃ cause, result = .error (.broken cause) final) :
    D.Inv final ∧ D.Step m final := by
  rcases finished with ⟨value, rfl⟩ | ⟨cause, rfl⟩
  · exact ⟨ends.1, ends.2.1⟩
  · exact ends

/-- Under a discipline work neither parts nor strays. -/
def United (D : Discipline) : Prop :=
  (∀ left leftMachine right rightMachine, ¬ D.Parted left leftMachine right rightMachine) ∧
    ∀ left leftMachine, ¬ D.Strayed left leftMachine

theorem Agree.ends {α : Type} {Good : α → Machine → Prop}
    {left right : EStateM.Result Escape Machine α} (united : D.United)
    (agree : D.Agree m Good left right) : D.Ends m Good left := by
  cases agree with
  | value kept step good => exact ⟨kept, step, good⟩
  | error kept step _ | halt kept step => exact ⟨kept, step⟩
  | awaiting => trivial
  | parted differ => exact absurd differ (united.1 _ _ _ _)
  | strayed strayed => exact absurd strayed (united.2 _ _)

theorem Sound.unstopped {α : Type} {Good : α → Machine → Prop}
    {left right : Exec α} (united : D.United) (sound : D.Sound m Good left right)
    (final : Machine) : left m ≠ .error .stopped final := by
  intro stopped
  have ends := Agree.ends united sound
  rw [stopped] at ends
  exact ends

theorem Agree.same {α : Type} {m : Machine} {Good : α → Machine → Prop}
    {left right : EStateM.Result Escape Machine α} (united : D.United)
    (agree : D.Agree m Good left right) : left = right := by
  cases agree with
  | parted differ => exact absurd differ (united.1 _ _ _ _)
  | strayed strayed => exact absurd strayed (united.2 _ _)
  | _ => rfl

theorem Sound.allows {error : RuntimeError} {final : Machine} {α : Type} {Good : α → Machine → Prop}
    {left right : Exec α} (united : D.United)
    (sound : D.Sound m Good left right) (failed : left m = .error (.broken (.error error)) final) :
    D.Allows error := by
  unfold Sound at sound
  rw [failed] at sound
  revert sound
  generalize right m = result
  intro sound
  cases sound with
  | error _ _ allowed => exact allowed
  | parted differ => exact absurd differ (united.1 _ _ _ _)
  | strayed strayed => exact absurd strayed (united.2 _ _)

theorem Hooks.statements_sound {left right : Evaluator} {block : Block}
    (undivided : ∀ left leftMachine right rightMachine,
      ¬ D.Parted left leftMachine right rightMachine)
    (H : D.Hooks left right) (S : D.Draining) (G : D.Registering block) (inv : D.Inv m)
    (code : D.Code m block) (inner : ∀ stmt ∈ block, ∀ inner ∈ stmt.blocks, D.Code m inner)
    (fine : ∀ stmt ∈ block, stmt.Among D.Known := by exact fun _ _ => .of_all _) :
    D.Sound m (D.GoodEnd D.GoodSignal) (Run.statements left block)
      (Run.statements right block) := by
  have sound := H.statements S G inv code inner (fun outcome final kept step good =>
      (Sound.pure kept good : D.Sound final (D.GoodEnd D.GoodSignal) (pure outcome) _).after step)
    (fun differ => absurd differ (undivided _ _ _ _)) fine
  simpa only [bind_pure] using sound

/-- What is known of a moment that comes while a discipline is kept. -/
def Arises (D : Discipline) (moment : Moment) (m : Machine) : Prop :=
  match moment with
  | .place block _ _ => D.Code m block
  | .statement stmt => ∀ inner ∈ stmt.blocks, D.Code m inner
  | .call overload args => D.Callable overload ∧ D.GoodArgs args m
  | .cleanUp _ outcome => D.GoodEnd D.GoodSignal outcome m
  | _ => True

variable {left right : Evaluator}

theorem Sound.passing {m : Machine} {moment : Moment} (inv : D.Inv m)
    (first : left.observe moment m = .ok () m) (second : right.observe moment m = .ok () m) :
    D.Sound m Free (left.observe moment) (right.observe moment) := by
  unfold Sound
  rw [first, second]
  exact .value inv (D.step_refl m) trivial

/-- Observers that let every moment pass keep a discipline under which work ends alike. Moments at
which a block goes on at a place are left to the block. -/
theorem Observers.passing (united : D.United)
    (cause : ∀ {fault m}, left.Exhausted fault m → D.Cause fault) (first : ∀ {moment m}, D.Inv m →
      moment.isPlace = false → D.Arises moment m → left.observe moment m = .ok () m)
    (second : ∀ {moment m}, D.Inv m → moment.isPlace = false → D.Arises moment m →
      right.observe moment m = .ok () m) : D.Observers left right where
  expression inv := .passing inv (first inv rfl trivial) (second inv rfl trivial)
  call inv callable good :=
    .passing inv (first inv rfl ⟨callable, good⟩) (second inv rfl ⟨callable, good⟩)
  cleanUp inv good := .passing inv (first inv rfl good) (second inv rfl good)
  exhaust {_ _ m fault} inv exhausted := by
    have observed :
        D.Sound m Free (left.observe (.exhausted fault)) (right.observe (.exhausted fault)) :=
      .passing inv (first inv rfl trivial) (second inv rfl trivial)
    exact observed.bind fun _ _ inv _ _ => .fail inv (cause exhausted)
  cleanUp_parted _ _ differ := absurd differ (united.1 _ _ _ _)

/-- Nested evaluation keeps the disciplines of a family at every bound, under an observer that lets
every moment pass. The body of a function may be under another discipline than its caller. -/
theorem Hooks.passing {ι : Type} {D : ι → Discipline} {observe : Moment → Exec Unit}
    {settings : Settings} {host : Host} (laws : ∀ i, (D i).Laws host) (steady : ∀ i, (D i).Steady)
    (united : ∀ i, (D i).United) (hereditary : ∀ i, (D i).Hereditary)
    (cause : ∀ i {fault}, (D i).Cause fault)
    (passes : ∀ {i moment m}, (D i).Inv m → (D i).Arises moment m → observe moment m = .ok () m)
    (entry : ∀ {i bound m parked overload args},
      (∀ j, (D j).Hooks (observedEvaluator observe settings host bound)
        (observedEvaluator observe settings host bound)) →
      (D i).Inv m → (D i).Callable overload → (D i).GoodArgs args m →
      m.park = .ok parked →
      ∃ E, Entry (D i) E (observedEvaluator observe settings host bound)
        (observedEvaluator observe settings host bound) m parked overload args)
    (bound : Nat) (i : ι) :
    (D i).Hooks (observedEvaluator observe settings host bound)
      (observedEvaluator observe settings host bound) := by
  induction bound generalizing i with
  | zero => exact .zero (laws i)
  | succ bound hooks =>
    have passes {moment : Moment} {m : Machine} (inv : (D i).Inv m)
      (arises : (D i).Arises moment m) :
        (observedEvaluator observe settings host bound).observe moment m = .ok () m := by
      rw [observedEvaluator_observe]
      exact passes inv arises
    have observers : (D i).Observers (observedEvaluator observe settings host bound)
        (observedEvaluator observe settings host bound) :=
      .passing (united i) (fun _ => cause i) (fun inv _ => passes inv) fun inv _ => passes inv
    have respects := Respects.of (hooks i) (steady i) observers fun inv callable good done =>
      entry hooks inv callable good done
    refine .succ respects fun inv code => respects.execBlock (cause i) (hereditary i)
      (fun inv code => ?_) (fun inv inner _ => ?_) inv code
    · exact .passing inv (passes inv code) (passes inv code)
    · exact .passing inv (passes inv inner) (passes inv inner)

/-- Types that are declared stay declared and no error tells of a halt, and nothing else is asked.
-/
def unrestricted : Discipline where
  Inv _ := True
  Step := Machine.KeepsTypes
  Cause fault := fault.haltReason? = none
  step_refl := Machine.KeepsTypes.refl
  step_trans first second _ _ found := second (first found)

theorem unrestricted_loose : unrestricted.Loose where
  inv _ := trivial
  step := id
  val _ := trivial
  spot _ _ := trivial
  code _ _ := trivial
  callable _ := trivial
  cause _ unhalted := unhalted

theorem unrestricted_scoping : unrestricted.Scoping :=
  unrestricted_loose.shallow.scoping

theorem unrestricted_united : unrestricted.United :=
  ⟨fun _ _ _ _ parted => parted, fun _ _ strayed => strayed⟩

theorem evaluator_observe {bound : Nat} {moment : Moment} :
    (evaluator settings host bound).observe moment m = .ok () m := by
  unfold evaluator
  rw [observedEvaluator_observe]
  rfl

/-- An exhausted budget is no halt. -/
theorem haltReason?_of_exhausted {fault : Fault} {self : Evaluator}
    (exhausted : self.Exhausted fault m) :
    fault.haltReason? = none := by
  rcases exhausted with ⟨limit, -, rfl, -⟩ | ⟨limit, -, rfl, -⟩ <;> rfl

theorem unrestricted_silent (bound : Nat) :
    unrestricted.Hooks (evaluator settings host bound) (evaluator settings host bound) :=
  unrestricted_loose.hooks unrestricted_scoping
    (fun _ => .passing unrestricted_united haltReason?_of_exhausted
      (fun _ _ _ => evaluator_observe) fun _ _ _ => evaluator_observe) (.pure trivial trivial)
    (fun _ => .pure trivial trivial) bound

/-- Looking on: work under an observer that stops it is compared with the work itself. -/
def watching : Discipline where
  Inv _ := True
  Step _ _ := True
  Strayed escape _ := escape = .stopped
  step_refl _ := trivial
  step_trans _ _ := trivial
  strayed_left strayed := by
    rintro cause rfl
    cases strayed

theorem watching_loose : watching.Loose where
  inv _ := trivial
  step _ := trivial
  val _ := trivial
  spot _ _ := trivial
  code _ _ := trivial
  callable _ := trivial
  cause _ _ := trivial

theorem watching_assertion {asserted : Moment → Machine → Prop} {moment : Moment} :
    watching.Sound m Free (assertion asserted moment) (return : Exec Unit) := by
  unfold Sound
  by_cases holds : asserted moment m
  · rw [assertion_holds holds]
    exact .value trivial trivial trivial
  · rw [assertion_fails holds]
    exact .strayed rfl

theorem watching_agree {α : Type} {Good : α → Machine → Prop}
    {observed work : EStateM.Result Escape Machine α}
    (agree : watching.Agree m Good observed work) :
    (∃ final, observed = .error .stopped final) ∨ observed = work := by
  cases agree with
  | strayed stopped => exact .inl ⟨_, congrArg (EStateM.Result.error · _) stopped⟩
  | parted differ => exact differ.elim
  | _ => exact .inr rfl

theorem watching_scoping : watching.Scoping :=
  watching_loose.shallow.scoping

theorem watching_hooks {asserted : Moment → Machine → Prop} (bound : Nat) :
    watching.Hooks (observedEvaluator (assertion asserted) settings host bound)
      (evaluator settings host bound) := by
  have watched (moment : Moment) {bound : Nat} {m : Machine} : watching.Sound m Free
        ((observedEvaluator (assertion asserted) settings host bound).observe moment)
        ((evaluator settings host bound).observe moment) := by
    unfold evaluator
    simp only [observedEvaluator_observe]
    exact watching_assertion
  refine watching_loose.hooks watching_scoping (fun bound => ?_) watching_assertion
    (fun _ => watching_assertion) bound
  exact {
    expression := fun _ => watched _
    call := fun _ _ _ => watched _
    cleanUp := fun _ _ => watched _
    exhaust := fun _ _ => (watched _).bind fun _ _ inv _ _ => .fail inv trivial
    cleanUp_parted := fun _ _ differ => differ.elim }

end Discipline

theorem Interpreter.checkedWork_eq (interpreter : Interpreter) (asserted : Moment → Machine → Prop)
    (bound : Nat) (program : Program) :
    (∃ final, interpreter.checkedWork asserted bound program = .error .stopped final) ∨
      interpreter.checkedWork asserted bound program = interpreter.work bound program := by
  have sound : Discipline.watching.Sound
      (Run.begin interpreter.settings program interpreter.machine) _
      (Run.statements
        (observedEvaluator (assertion asserted) interpreter.settings interpreter.host bound)
        program.statements)
      (Run.statements (evaluator interpreter.settings interpreter.host bound) program.statements) :=
    (Discipline.watching_hooks bound).statements_sound (fun _ _ _ _ differ => differ)
      Discipline.watching_scoping.toDraining (Discipline.watching_scoping.registering _) trivial
      trivial fun _ _ _ _ => trivial
  exact Discipline.watching_agree sound

end MicroBasic
