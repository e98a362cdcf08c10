import MicroBasic.Proofs.Balance

/-!
# Blocks that wait for the end of a scope

A scope is the top level of a run or the body of a function that is called. A `DEFER` statement
leaves a block to wait for the end of its scope, and the end of the scope runs the waiting blocks,
latest first, also those that a waiting block itself leaves to wait. The journal of a scope tells
what became of its blocks.

While the statements of a scope are executed, and while one of its waiting blocks runs, blocks are
only added: a call has waiting blocks of its own, and gives its caller back what it found. So the
journal of a scope that has ended is a sequence of registrations and runs in which every run takes
up the block that was registered latest of those still waiting. No block is left over, and none runs
twice.
-/

namespace MicroBasic

namespace DeferEvent

/-- The block that was left to wait, if one was. -/
def registered? : DeferEvent → Option Deferred
  | registered block => some block
  | _ => none

/-- The block that began to run, if one did. -/
def begun? : DeferEvent → Option Deferred
  | begun block => some block
  | _ => none

end DeferEvent

/-- The outcome of a scope whose own statements ended with `first`: that of the waiting block that
was the last to fail or halt, if there is one. Events come latest first. -/
def verdict (first : Outcome) (events : List DeferEvent) : Outcome :=
  (events.findSome? DeferEvent.breaking?).getD first

theorem verdict_append (first : Outcome) (later earlier : List DeferEvent) :
    verdict first (later ++ earlier) = verdict (verdict first earlier) later := by
  unfold verdict
  rw [List.findSome?_append]
  cases later.findSome? DeferEvent.breaking? with
  | none | some outcome => rfl

theorem verdict_registered (first : Outcome) (added : List Deferred) :
    verdict first (added.map .registered) = first := by
  induction added with
  | nil => rfl
  | cons block added ih => exact ih

theorem verdict_run (first result : Outcome) (block : Deferred) (added : List Deferred) :
    verdict first (.ended result :: (added.map .registered ++ [.begun block])) =
      (DeferEvent.ended result).breaking?.getD first := by
  calc verdict first ([.ended result] ++ (added.map .registered ++ [.begun block]))
      = verdict (verdict (verdict first [.begun block]) (added.map .registered))
          [.ended result] := by
        rw [verdict_append, verdict_append]
    _ = verdict first [.ended result] := by
        rw [verdict_registered]
        rfl
    _ = (DeferEvent.ended result).breaking?.getD first := by
        unfold verdict
        rw [List.findSome?_cons]
        cases (DeferEvent.ended result).breaking? with
        | none | some outcome => rfl

namespace Evaluator

variable (self : Evaluator)

/-- The blocks that are left waiting by the events of a scope, latest first. A block is left to
wait, or the block that waits on top is taken away and its body is executed once, which may leave
others to wait. -/
inductive Leaves : List DeferEvent → List Deferred → Prop
  | none : Leaves [] []
  | registered {events : List DeferEvent} {waiting : List Deferred} (block : Deferred)
      (earlier : Leaves events waiting) : Leaves (.registered block :: events) (block :: waiting)
  | ran {events : List DeferEvent} {waiting : List Deferred} {block : Deferred} {result : Outcome}
      {m final : Machine} (added : List Deferred) (earlier : Leaves events (block :: waiting))
      (before : m.activation.journal = .begun block :: events)
      (executed : Exec.attempt (self.exec block.body) m = .ok result final)
      (after : final.activation.journal = added.map .registered ++ .begun block :: events) :
      Leaves (.ended result :: (added.map .registered ++ .begun block :: events)) (added ++ waiting)

variable {self}

theorem Leaves.registering {events : List DeferEvent} {waiting : List Deferred}
    (earlier : self.Leaves events waiting) (added : List Deferred) :
    self.Leaves (added.map .registered ++ events) (added ++ waiting) := by
  induction added with
  | nil => exact earlier
  | cons block added ih => exact .registered block ih

/-- The blocks that were registered are those that ran and those that wait, each as often as it was
registered. -/
theorem Leaves.perm {events : List DeferEvent} {waiting : List Deferred}
    (leaves : self.Leaves events waiting) :
    (waiting ++ events.filterMap DeferEvent.begun?).Perm
      (events.filterMap DeferEvent.registered?) := by
  induction leaves with
  | none => exact .nil
  | registered block earlier ih => exact ih.cons block
  | @ran events waiting block result m final added earlier before executed after
      ih =>
    have begun : (added.map DeferEvent.registered).filterMap DeferEvent.begun? = [] := by
      simp [DeferEvent.begun?]
    have registered :
        (added.map DeferEvent.registered).filterMap DeferEvent.registered? = added := by
      simp [List.filterMap_map, Function.comp_def, DeferEvent.registered?]
    have first :
      (DeferEvent.ended result :: (added.map .registered ++ .begun block :: events)).filterMap
        DeferEvent.begun? = block :: events.filterMap DeferEvent.begun? := by
      rw [List.filterMap_cons, List.filterMap_append, begun]
      rfl
    have second :
      (DeferEvent.ended result :: (added.map .registered ++ .begun block :: events)).filterMap
        DeferEvent.registered? = added ++ events.filterMap DeferEvent.registered? := by
      rw [List.filterMap_cons, List.filterMap_append, registered]
      rfl
    rw [first, second, List.append_assoc]
    exact List.Perm.append_left added (List.perm_middle.trans ih)

end Evaluator

/-- The waiting blocks of a scope have all been run. The statements of the scope ended with `first`
on `middle`, and after the waiting blocks the scope itself ended with `last` on `final`. -/
structure Evaluator.Unwound (self : Evaluator) (first : Outcome) (middle : Machine) (last : Outcome)
    (final : Machine) : Prop where
  /-- Until the end of the scope, blocks were only left to wait. -/
  registered : middle.activation.journal = middle.activation.deferred.map .registered
  /-- Every block ran when it was the latest of those waiting, and none is left. -/
  settled : self.Leaves final.activation.journal []
  /-- Every block ran as often as it was left to wait. -/
  matched : (final.activation.journal.filterMap DeferEvent.begun?).Perm
    (final.activation.journal.filterMap DeferEvent.registered?)
  emptied : final.activation.deferred = []
  /-- The waiting block that failed or halted last decides how the scope ends, or else its
  statements. -/
  decided : last = verdict first final.activation.journal

namespace Evaluator

variable {self : Evaluator} {host : Host} {limit : Nat} {outcome last : Outcome} {m final : Machine}

theorem of_drain_some {block : Deferred} {others : List Deferred} {fuel : Nat}
    (waiting : m.activation.deferred = block :: others)
    (done : self.drain (fuel + 1) outcome m = .ok last final) :
    ∃ result middle, Exec.attempt (self.exec block.body) (m.starting block others) =
      .ok result middle ∧
      self.drainAfter fuel outcome result (middle.concluding result m.activation.loops) =
        .ok last final := by
  rw [drain_waiting waiting] at done
  obtain ⟨result, middle, executed, done⟩ := Exec.of_bind done
  exact ⟨result, middle, executed, done⟩

theorem deferred_of_drain {fuel : Nat} (done : self.drain fuel outcome m = .ok last final) :
    final.activation.deferred = [] := by
  induction fuel generalizing m outcome with
  | zero => cases done
  | succ fuel ih =>
    cases waiting : m.activation.deferred with
    | nil =>
      rw [drain_idle waiting] at done
      cases done
      exact waiting
    | cons block others =>
      obtain ⟨result, middle, _, done⟩ := of_drain_some waiting done
      rcases Outcome.unexhausted_or result with ordinary | ⟨cause, rfl, fatal⟩
      · rw [drainAfter_ordinary ordinary] at done
        exact ih done
      · rw [drainAfter_exhausted fatal] at done
        cases done
        rfl

theorem deferred_of_finishScope (done : self.finishScope outcome m = .ok last final) :
    final.activation.deferred = [] := by
  rcases outcome.unexhausted_or with ordinary | ⟨cause, rfl, fatal⟩
  · rw [finishScope_drain self ordinary] at done
    exact deferred_of_drain done
  · rw [finishScope_exhausted fatal] at done
    cases done
    rfl

variable (self) in
/-- A scope that was begun on a machine and executed `body` has ended: no block is left waiting, and
unless a budget is exhausted all blocks that it left to wait have been run. -/
def EndsScope (body : Exec Signal) (start : Machine) (last : Outcome) (final : Machine) : Prop :=
  ∃ first middle, Exec.attempt body start = .ok first middle ∧
    self.finishScope first middle = .ok last final ∧ final.activation.deferred = [] ∧
    (last.Unexhausted → self.Unwound first middle last final)

section

variable (serves : unstopped.Serves (fun _ => self) host limit (fun _ => True) (fun _ => True))

include serves

/-- The end of a scope runs all waiting blocks, latest first, and the last of them to fail or halt
decides. -/
theorem drain_settles {fuel : Nat}
    (leaves : self.Leaves m.activation.journal m.activation.deferred)
    (done : self.drain fuel outcome m = .ok last final) (ordinary : last.Unexhausted) :
    self.Leaves final.activation.journal [] ∧
      ∃ events, final.activation.journal = events ++ m.activation.journal ∧
        last = verdict outcome events := by
  -- Each round takes the block on top; what its run adds is on top of the others in the next round.
  induction fuel generalizing m outcome with
  | zero => cases done
  | succ fuel ih =>
    cases waiting : m.activation.deferred with
    | nil =>
      rw [drain_idle waiting] at done
      cases done
      rw [waiting] at leaves
      exact ⟨leaves, [], rfl, rfl⟩
    | cons block others =>
      obtain ⟨result, middle, executed, done⟩ := of_drain_some waiting done
      have kept : unstopped.Keeps (m.starting block others) (fun _ => self.exec block.body) :=
        (serves.exec trivial).keeps
      obtain ⟨added, more, journal⟩ :=
        (holds_of_endsOn kept (Exec.endsOn_of_attempt executed)).deferred
      rw [waiting] at leaves
      rcases Outcome.unexhausted_or result with unbroken | ⟨cause, rfl, fatal⟩
      · rw [drainAfter_ordinary unbroken] at done
        have next : self.Leaves
            (.ended result :: middle.activation.journal) middle.activation.deferred := by
          rw [more, journal]
          exact .ran added leaves rfl executed journal
        obtain ⟨settled, events, history, decided⟩ := ih next done
        refine ⟨settled,
          events ++ .ended result :: (added.map .registered ++ [.begun block]), ?_, ?_⟩
        · rw [history]
          show events ++ .ended result :: middle.activation.journal = _
          rw [journal]
          simp [Machine.starting]
        · rw [verdict_append, verdict_run]
          exact decided
      · rw [drainAfter_exhausted fatal] at done
        cases done
        have contrary := ordinary cause rfl
        rw [fatal] at contrary
        cases contrary

/-- A scope that begins with no block waiting and ends without an exhausted budget has run all
blocks that it left to wait. -/
theorem unwound_of_finishScope {first : Outcome} {start middle : Machine}
    (fresh : start.activation.deferred = [])
    (blank : start.activation.journal = []) (defers : start.Defers middle)
    (done : self.finishScope first middle = .ok last final) (ordinary : last.Unexhausted) :
    self.Unwound first middle last final := by
  obtain ⟨added, waiting, journal⟩ := defers
  rw [fresh, List.append_nil] at waiting
  rw [blank, List.append_nil, ← waiting] at journal
  have leaves : self.Leaves middle.activation.journal middle.activation.deferred := by
    have registering := (Leaves.none : self.Leaves [] []).registering middle.activation.deferred
    rw [List.append_nil, List.append_nil, ← journal] at registering
    exact registering
  have emptied := deferred_of_finishScope done
  rcases first.unexhausted_or with unbroken | ⟨cause, rfl, fatal⟩
  · rw [finishScope_drain self unbroken] at done
    obtain ⟨settled, events, history, decided⟩ := drain_settles serves leaves done ordinary
    refine ⟨journal, settled, settled.perm, emptied, ?_⟩
    rw [history, verdict_append, journal, verdict_registered]
    exact decided
  · rw [finishScope_exhausted fatal] at done
    cases done
    have contrary := ordinary cause rfl
    rw [fatal] at contrary
    cases contrary

theorem endsScope {start : Machine} {body : Exec Signal}
    (within : unstopped.Holds start (fun _ => start.Within) (fun _ => start.Within)
      (fun _ => body start))
    (fresh : start.activation.deferred = []) (blank : start.activation.journal = []) :
    (Exec.attempt body >>= self.finishScope).Unfinished start ∨
      ∃ last final, (Exec.attempt body >>= self.finishScope) start = .ok last final ∧
        self.EndsScope body start last final := by
  have ends : unstopped.Holds start (fun _ => start.Framed) (fun _ _ => False) _ :=
    serves.scope trivial within
  rcases ended_of_unstopped ends with
    ⟨last, final, done, _⟩ | ⟨_, _, _, never⟩ | unfinished
  · obtain ⟨first, middle, executed, finished⟩ := Exec.of_bind done
    have kept := holds_of_endsOn within (Exec.endsOn_of_attempt executed)
    exact .inr ⟨last, final, done, first, middle, executed, finished,
      deferred_of_finishScope finished,
        unwound_of_finishScope serves fresh blank kept.deferred finished⟩
  · exact never.elim
  · exact .inl unfinished

end

end Evaluator

/-- The calls of a function as scopes: a call is unfinished, or its caller's scope cannot be parked
and none is begun, or it ends, all blocks that it left to wait have been run, and its caller has the
waiting blocks that it had. -/
def Evaluator.CallEndsScope (self : Evaluator) (overload : Overload) (args : List Arg)
    (m : Machine) : Prop :=
  (self.runBody overload args).Unfinished m ∨ (∃ fault, m.park = .error fault ∧
      self.runBody overload args m = .error (.broken (.error (.unplaced fault))) m) ∨
    ∃ parked last final after, m.park = .ok parked ∧
      self.EndsScope (do
        self.bindParams overload.name overload.params args
        self.exec overload.decl.body) (parked.entering overload) last final ∧
      self.runBody overload args m = .ok last after ∧ after.activation = m.activation

theorem Evaluator.callEndsScope {settings : Settings} {host : Host} (bound : Nat)
    (overload : Overload) (args : List Arg) (m : Machine) :
    (evaluator settings host bound).CallEndsScope overload args m := by
  cases parks : m.park with
  | error fault =>
    have refused :=
      @runBody_refused (evaluator settings host bound) _ pure m overload args fault parks
    rw [bind_pure] at refused
    exact .inr (.inl ⟨fault, parks, refused⟩)
  | ok parked =>
    have serves := evaluator_serves settings host bound
    have body : unstopped.Holds (parked.entering overload) _ _ _ :=
      @Concord.Hooks.body _ _ _ _ _ _ _ serves.toHooks overload args trivial
    rcases endsScope serves body rfl rfl with unfinished | ⟨last, final, done, ended⟩
    · refine .inl ?_
      unfold Exec.Unfinished
      rw [runBody_scope parks]
      exact unfinished.bind
    · refine .inr (.inr ⟨parked, last, final, final.leaving m.activation, parks, ended, ?_, ?_⟩)
      · rw [runBody_scope parks, Exec.bind_of_ok done]
        rfl
      · exact Machine.activation_leaving parks
          (holds_of_endsOn (serves.scope trivial body) (.inl ⟨last, done⟩))

/-- Waiting blocks run latest first and exactly once. In every run, a `DEFER` statement leaves its
block to wait once; the top level of the run is a scope, and so is every call of a function on any
machine; and every scope that comes to its end has run the blocks it left to wait. -/
theorem deferred_blocks_unwind {history : List Program} {interpreter : Interpreter}
    (reached : Reached history interpreter) (program : Program) (bound : Nat) :
    (∀ stmt body machine, stmt.kind = .defer body →
      (evaluator interpreter.settings interpreter.host bound).plainStmt stmt machine =
        .ok .done (machine.defer body)) ∧
    ((∃ what final, interpreter.work bound program = .error (.awaiting what) final) ∨
      ∃ last final, interpreter.work bound program = .ok last final ∧
        (evaluator interpreter.settings interpreter.host bound).EndsScope
          (do
            Run.hoist program.statements
            (evaluator interpreter.settings interpreter.host bound).exec program.statements)
          (Run.begin interpreter.settings program interpreter.machine) last final) ∧
    ∀ overload args machine,
      (evaluator interpreter.settings interpreter.host bound).CallEndsScope overload args
        machine := by
  refine ⟨?_, ?_, Evaluator.callEndsScope bound⟩
  · intro stmt body machine kind
    unfold Evaluator.plainStmt
    rw [kind]
    rfl
  · have serves := evaluator_serves interpreter.settings interpreter.host bound
    exact Evaluator.endsScope serves ((serves.program trivial).within (.refl _))
      reached.rested.deferred rfl

/-- A program whose subroutine fails while blocks wait, one of which leaves another to wait and
fails itself. -/
def failingDefers : Program :=
  .ofSource ("SUB Work()\nDEFER PRINT 1\nDEFER\nDEFER PRINT 2\nERROR \"second\"\nEND DEFER\n" ++
      "ERROR \"first\"\nEND SUB\nDEFER PRINT 3\nCALL Work()")

/-- The run of that program. -/
def failingDefersRun : RunResult × Interpreter :=
  (Interpreter.new .empty {} .still).runWithin 40 failingDefers

/-- In a run of that program after it has failed before, all waiting blocks run, as they did in the
first run, latest first. -/
theorem deferred_blocks_unwind_after_failure :
    failingDefersRun.2.outputs = ["2", "1", "3"] ∧ failingDefersRun.1.isAwaiting = false ∧
      ∃ last final, failingDefersRun.2.work 40 failingDefers = .ok last final ∧
        (evaluator failingDefersRun.2.settings failingDefersRun.2.host 40).EndsScope
          (do
            Run.hoist failingDefers.statements
            (evaluator failingDefersRun.2.settings failingDefersRun.2.host 40).exec
              failingDefers.statements)
          (Run.begin failingDefersRun.2.settings failingDefers failingDefersRun.2.machine) last
          final := by
  have outputs : failingDefersRun.2.outputs = ["2", "1", "3"] := by decide +kernel
  have finished : failingDefersRun.1.isAwaiting = false := by decide +kernel
  have again : (failingDefersRun.2.runWithin 40 failingDefers).1.isAwaiting = false := by
    decide +kernel
  have ran : (Interpreter.new .empty {} .still).runWithin 40 failingDefers =
      (failingDefersRun.1, failingDefersRun.2) := (Prod.eta failingDefersRun).symm
  have unwinds :=
    deferred_blocks_unwind (.run (.new .empty {} .still) ran finished) failingDefers 40
  refine ⟨outputs, finished, unwinds.2.1.resolve_left ?_⟩
  rintro ⟨what, final, awaits⟩
  obtain ⟨_, _, ⟨_, done⟩ | ⟨_, broke⟩⟩ :=
    Interpreter.runWithin_finished
      (Prod.eta (failingDefersRun.2.runWithin 40 failingDefers)).symm again
  · exact absurd (awaits.symm.trans done) nofun
  · exact absurd (awaits.symm.trans broke) nofun

end MicroBasic
