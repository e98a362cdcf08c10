import MicroBasic.Parse.Program
import MicroBasic.Proofs.Concord.Observed
import MicroBasic.Proofs.Runs

/-!
# The state of an evaluation is balanced

Whatever an evaluation opens it closes again, however it ends: scopes of calls, `WITH` blocks, the
loops of another program, places that names stand for. Blocks that wait for the end of a scope are
only added. So as many scopes are parked at every moment of a run as there are calls around it, and
when a run has come to its end nothing of it is left open.
-/

namespace MicroBasic

/-- What was open before some work is open after it, and nothing else; more blocks may wait. -/
structure Machine.Balanced (before after : Machine) : Prop where
  targets : after.activation.targets = before.activation.targets
  parked : after.parked.length = before.parked.length
  places : after.scope.places = before.scope.places
  loops : after.activation.loops = before.activation.loops
  depth : after.activation.depth = before.activation.depth
  /-- The blocks that waited before still wait, below those that came later. -/
  deferred : before.activation.deferred <:+ after.activation.deferred

theorem Machine.Onward.balanced {before after : Machine} (onward : before.Onward after) :
    before.Balanced after :=
  have ⟨added, waiting, _⟩ := onward.deferred
  ⟨onward.targets, onward.parked, onward.places, onward.loops, onward.depth, added, waiting.symm⟩

/-- Nothing of a run is left open. -/
structure Machine.Rested (m : Machine) : Prop where
  parked : m.parked = []
  places : m.scope.places = .empty
  deferred : m.activation.deferred = []
  targets : m.activation.targets = []
  pending : m.console.pending = none

/-- The depth of calls is the number of parked scopes and keeps to the limit. -/
def Machine.Nested (limit : Nat) (m : Machine) : Prop :=
  m.parked.length = m.activation.depth ∧ m.activation.depth ≤ limit

/-- Everything that an evaluator does on a machine is balanced. -/
structure Evaluator.Balances (self : Evaluator) (m : Machine) : Prop where
  expression : ∀ expr final, (self.evalExpr expr).EndsOn m final → m.Balanced final
  statement : ∀ stmt loops final, (self.execStmt stmt loops).EndsOn m final → m.Balanced final
  block : ∀ block final, (self.execBlock block).EndsOn m final → m.Balanced final

/-- Two works that no observer stops. -/
def unstopped : Concord Bool :=
  paired .never

theorem unstopped_serves {Ok : Machine → Prop} {observe : Moment → Exec Unit} {settings : Settings}
    {host : Host} (bound : Nat) (stable : ∀ {m next : Machine}, Ok m → m.Framed next → Ok next)
    (enters : ∀ {m parked : Machine} {overload : Overload}, Ok m →
      m.activation.depth < settings.maxCallDepth → m.park = .ok parked →
        Ok (parked.entering overload))
    (passes : ∀ {m} moment, Ok m → observe moment m = .ok () m) :
    unstopped.Serves (fun _ => observedEvaluator observe settings host bound) host
      settings.maxCallDepth Ok (fun _ => True) := by
  have counting :
      Counting .never (fun _ => observe) (fun _ => settings) host settings.maxCallDepth Ok :=
    .alike stable enters passes
  exact @Counting.serves _ _ _ _ _ _ (fun _ => bound) counting (Nat.le_refl bound)

theorem ended_of_unstopped {m : Machine} {α : Type} {Good : α → Machine → Prop}
    {Bad : Break → Machine → Prop} {result : EStateM.Result Escape Machine α}
    (holds : unstopped.Holds m Good Bad (fun _ => result)) :
    (∃ value final, result = .ok value final ∧ Good value final) ∨
      (∃ cause final, result = .error (.broken cause) final ∧ Bad cause final) ∨
      ∃ what final, result = .error (.awaiting what) final := by
  cases holds.ends true with
  | value trail good => exact .inl ⟨_, _, rfl, good⟩
  | broken trail bad => exact .inr (.inl ⟨_, _, rfl, bad⟩)
  | awaiting awaits => exact .inr (.inr ⟨_, _, rfl⟩)
  | stopped stops => exact stops.elim

theorem holds_of_endsOn {α : Type} {m final : Machine} {work : Exec α} {Inv : Machine → Prop}
    (holds : unstopped.Holds m (fun _ => Inv) (fun _ => Inv) (fun _ => work m))
    (ended : work.EndsOn m final) : Inv final := by
  rcases ended_of_unstopped
    holds with ⟨value, last, done, held⟩ | ⟨cause, last, broke, held⟩ | ⟨what, last, awaits⟩
  · rcases ended with ⟨other, same⟩ | ⟨cause, same⟩
    · cases done.symm.trans same
      exact held
    · cases done.symm.trans same
  · rcases ended with ⟨value, same⟩ | ⟨other, same⟩
    · cases broke.symm.trans same
    · cases broke.symm.trans same
      exact held
  · rcases ended with ⟨value, same⟩ | ⟨cause, same⟩
    · cases awaits.symm.trans same
    · cases awaits.symm.trans same

theorem evaluator_serves (settings : Settings) (host : Host) (bound : Nat) :
    unstopped.Serves (fun _ => evaluator settings host bound) host settings.maxCallDepth
      (fun _ => True) (fun _ => True) :=
  unstopped_serves bound (fun _ _ => trivial) (fun _ _ _ => trivial) fun _ _ => rfl

theorem evaluator_balances (settings : Settings) (host : Host) (bound : Nat) (m : Machine) :
    (evaluator settings host bound).Balances m := by
  have serves := evaluator_serves settings host bound
  constructor
  · intro expr final ended
    have kept : unstopped.Keeps m (fun _ => (evaluator settings host bound).evalExpr expr) :=
      serves.evalExpr (fun _ _ => trivial) trivial
    exact (holds_of_endsOn kept ended).balanced
  · intro stmt loops final ended
    have kept : unstopped.Keeps m (fun _ => (evaluator settings host bound).execStmt stmt loops) :=
      serves.execStmt trivial
    exact (holds_of_endsOn kept ended).balanced
  · intro block final ended
    have runs : unstopped.Runs m (fun _ => (evaluator settings host bound).execBlock block) :=
      serves.execBlock serves (fun _ _ _ => trivial) trivial
    exact (holds_of_endsOn runs.keeps ended).balanced

variable {interpreter : Interpreter}

/-- The statements of a program leave a scope as they found it, with no block waiting, and do not
break off. -/
theorem Interpreter.work_stays {bound : Nat} {program : Program} {final : Machine}
    (ended : (∃ outcome, interpreter.work bound program = .ok outcome final) ∨
      ∃ cause, interpreter.work bound program = .error (.broken cause) final) :
    (Run.begin interpreter.settings program interpreter.machine).Stays final ∧
      final.activation.deferred = [] := by
  have holds : unstopped.Holds (Run.begin interpreter.settings program interpreter.machine)
      (fun _ final => (Run.begin interpreter.settings program interpreter.machine).Stays final ∧
        final.activation.deferred = [])
      (fun _ final => (Run.begin interpreter.settings program interpreter.machine).Stays final ∧
        final.activation.deferred = []) (fun _ => interpreter.work bound program) :=
    (evaluator_serves interpreter.settings interpreter.host bound).statements trivial
  exact @holds_of_endsOn _ _ final (fun _ => interpreter.work bound program) _ holds ended

theorem Machine.Rested.after_run {bound : Nat} {program : Program} {result : RunResult}
    {next : Interpreter} (rested : interpreter.machine.Rested)
    (ran : interpreter.runWithin bound program = (result, next))
    (finished : result.isAwaiting = false) : next.machine.Rested := by
  obtain ⟨final, rfl, ended⟩ := Interpreter.runWithin_finished ran finished
  obtain ⟨stays, emptied⟩ := Interpreter.work_stays ended
  have unparked : final.parked = [] := by
    have same := stays.parked
    rw [show (Run.begin interpreter.settings program interpreter.machine).parked = [] from
      rested.parked] at same
    exact List.length_eq_zero_iff.mp same
  have placeless : final.scope.places = .empty := stays.places.trans rested.places
  cases begun : final.console.pending with
  | none =>
    have flushed : final.flush = final := by
      unfold Machine.flush
      rw [begun]
      rfl
    unfold Run.finish
    rw [flushed]
    exact ⟨unparked, placeless, emptied, rfl, begun⟩
  | some text =>
    have flushed : final.flush = final.writeLine "" := by
      unfold Machine.flush
      rw [begun]
      rfl
    unfold Run.finish
    rw [flushed]
    exact ⟨unparked, placeless, emptied, rfl, rfl⟩

theorem Reached.rested {history : List Program} (reached : Reached history interpreter) :
    interpreter.machine.Rested := by
  induction reached with
  | new host settings world => exact ⟨rfl, rfl, rfl, rfl, rfl⟩
  | run earlier ran finished ih => exact ih.after_run ran finished
  | taken earlier ih =>
    exact ⟨ih.parked, ih.places, ih.deferred, ih.targets, ih.pending⟩
  | limited settings earlier ih => exact ih
  | moved world earlier ih =>
    exact ⟨ih.parked, ih.places, ih.deferred, ih.targets, ih.pending⟩
  | reset earlier ih => exact ⟨rfl, rfl, rfl, rfl, rfl⟩

theorem Machine.Nested.entering {limit : Nat} {overload : Overload} {m parked : Machine}
    (nested : m.Nested limit) (within : m.activation.depth < limit)
    (done : m.park = .ok parked) : (parked.entering overload).Nested limit := by
  obtain ⟨_, _, same, behind⟩ := Machine.grows_of_park done
  constructor
  · show parked.parked.length = parked.activation.depth + 1
    rw [behind, same, List.length_append, List.length_singleton, nested.1]
  · show parked.activation.depth + 1 ≤ limit
    rw [same]
    exact within

theorem Interpreter.always_nested (program : Program) (unparked : interpreter.machine.parked = []) :
    interpreter.Always program (fun _ m => m.Nested interpreter.settings.maxCallDepth) := by
  intro bound final stopped
  have serves : unstopped.Serves (fun _ => observedEvaluator
        (assertion (fun _ m => m.Nested interpreter.settings.maxCallDepth))
        interpreter.settings interpreter.host bound)
      interpreter.host interpreter.settings.maxCallDepth
      (Machine.Nested interpreter.settings.maxCallDepth) (fun _ => True) := by
    refine unstopped_serves bound (fun nested framed => ?_) (fun nested within done => ?_)
      fun moment nested => assertion_holds nested
    · exact ⟨by rw [framed.parked, framed.depth, nested.1], by rw [framed.depth]; exact nested.2⟩
    · exact nested.entering within done
  have begun : (Run.begin interpreter.settings program interpreter.machine).Nested
      interpreter.settings.maxCallDepth :=
    ⟨congrArg List.length unparked, Nat.zero_le _⟩
  have holds : unstopped.Holds (Run.begin interpreter.settings program interpreter.machine)
      (fun _ final => (Run.begin interpreter.settings program interpreter.machine).Stays final ∧
        final.activation.deferred = []) (fun _ _ => True)
      (fun _ => interpreter.checkedWork
          (fun _ m => m.Nested interpreter.settings.maxCallDepth) bound program) :=
    serves.statements begun
  rcases ended_of_unstopped holds with ⟨_, _, done, _⟩ | ⟨_, _, broke, _⟩ | ⟨_, _, awaits⟩
  · exact absurd (done.symm.trans stopped) nofun
  · exact absurd (broke.symm.trans stopped) nofun
  · exact absurd (awaits.symm.trans stopped) nofun

/-- The state of an evaluation is balanced: on every machine whatever an evaluation opens it closes,
however it ends; in a run as many scopes are parked as calls are under way, at most as many as are
allowed; and a run that has come to its end, however it did, leaves nothing open. -/
theorem evaluation_balanced {history : List Program} {interpreter : Interpreter}
    (reached : Reached history interpreter) (program : Program) :
    (∀ bound machine,
      (evaluator interpreter.settings interpreter.host bound).Balances machine) ∧
    interpreter.Always program
      (fun _ machine => machine.Nested interpreter.settings.maxCallDepth) ∧
    ∀ bound result next, interpreter.runWithin bound program = (result, next) →
      result.isAwaiting = false → next.machine.Rested := by
  refine ⟨?_, ?_, ?_⟩
  · intro bound machine
    exact evaluator_balances interpreter.settings interpreter.host bound machine
  · exact Interpreter.always_nested program reached.rested.parked
  · intro bound result next ran finished
    exact reached.rested.after_run ran finished

/-- A program that fails in a call within a `WITH` block, with a block waiting and a line begun. -/
def failingWithin : Program :=
  .ofSource ("SUB Fill(REF r)\nWITH r\n.n = 1\nDEFER PRINT 2;\nERROR \"e\"\nEND WITH\nEND SUB\n" ++
      "a = [\x7bn: 0\x7d]\nPRINT 1;\nCALL Fill(a[0])")

/-- The run of that program. -/
def failingWithinRun : RunResult × Interpreter :=
  (Interpreter.new .empty {} .still).runWithin 40 failingWithin

/-- The run fails, and in a second run of the program everything is balanced again. -/
theorem evaluation_balanced_after_failure :
    failingWithinRun.1.errorCode? = some "USER_ERROR" ∧ failingWithinRun.2.outputs = ["12"] ∧
      failingWithinRun.2.Always failingWithin
        (fun _ machine => machine.Nested failingWithinRun.2.settings.maxCallDepth) ∧
      (failingWithinRun.2.runWithin 40 failingWithin).2.machine.Rested := by
  have failed : failingWithinRun.1.errorCode? = some "USER_ERROR" := by decide +kernel
  have printed : failingWithinRun.2.outputs = ["12"] := by decide +kernel
  have finished : failingWithinRun.1.isAwaiting = false := by decide +kernel
  have again : (failingWithinRun.2.runWithin 40 failingWithin).1.isAwaiting = false := by
    decide +kernel
  have ran : (Interpreter.new .empty {} .still).runWithin 40 failingWithin =
      (failingWithinRun.1, failingWithinRun.2) := (Prod.eta failingWithinRun).symm
  have balanced := evaluation_balanced (.run (.new .empty {} .still) ran finished) failingWithin
  refine ⟨failed, printed, balanced.2.1, ?_⟩
  exact balanced.2.2 40 _ _ (Prod.eta (failingWithinRun.2.runWithin 40 failingWithin)).symm again

end MicroBasic
