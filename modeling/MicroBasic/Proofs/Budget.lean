import MicroBasic.Parse.Program
import MicroBasic.Proofs.Runs

/-!
# What an exhausted budget does to a run

Once a budget is exhausted, nothing more happens in the run but the leaving of scopes, and the run
fails with that error. The one thing that comes between is the clean-up of a `TRY` statement whose
handler exhausted the depth of calls: this clean-up runs, and what it ends with can take the place
of the error. Where it is the number of statements that is exhausted, such a clean-up does not get
beyond its first statement, which is refused as well.
-/

namespace MicroBasic

/-- A machine apart from its scopes, its activation and the number of statements counted. -/
def Machine.beyondScopes (m : Machine) : Machine :=
  { m with scope := .empty, parked := [], activation := .initial, steps := 0 }

/-- Nothing has happened to a machine, apart from scopes that were left and statements that were
counted: it shows the same output and holds the same data, and the outermost scope is as it was. -/
structure Machine.Frozen (before after : Machine) : Prop where
  rest : after.beyondScopes = before.beyondScopes
  outermost : after.parked.headD after.scope = before.parked.headD before.scope
  steps : before.steps ≤ after.steps

namespace Machine.Frozen

variable {before after : Machine}

theorem refl (m : Machine) : m.Frozen m where
  rest := rfl
  outermost := rfl
  steps := Nat.le_refl _

theorem activation (frozen : before.Frozen after) {activation : Activation} :
    before.Frozen { after with activation } where
  rest := frozen.rest
  outermost := frozen.outermost
  steps := frozen.steps

theorem unpark (frozen : before.Frozen after) : before.Frozen after.unpark := by
  unfold Machine.unpark
  rcases List.eq_nil_or_concat after.parked with unparked | ⟨outer, scope, parked⟩
  · rw [unparked]
    exact frozen
  · rw [List.concat_eq_append] at parked
    rw [parked, List.getLast?_concat, List.dropLast_concat]
    refine ⟨frozen.rest, ?_, frozen.steps⟩
    rw [← frozen.outermost, parked]
    cases outer <;> rfl

theorem counted (frozen : before.Frozen after) :
    before.Frozen { after with steps := after.steps + 1 } where
  rest := frozen.rest
  outermost := frozen.outermost
  steps := Nat.le_succ_of_le frozen.steps

end Machine.Frozen

namespace Evaluator

variable {self : Evaluator} {m : Machine} {limit : Nat}

theorem tick_refused (limited : self.settings.maxSteps = some limit) (spent : limit ≤ m.steps)
    (passes : self.observe (.exhausted (.stepBudget limit))
      { m with steps := m.steps + 1 } =
        .ok () { m with steps := m.steps + 1 }) :
    self.tick m = .error (.broken (.error (.unplaced (.stepBudget limit))))
        { m with steps := m.steps + 1 } := by
  have exceeded : limit < m.steps + 1 := Nat.lt_succ_of_le spent
  unfold tick
  rw [limited]
  simp only [Exec.get_bind, Exec.modify_bind, if_pos exceeded, exhaust]
  simp only [Bind.bind, EStateM.bind, passes]
  rfl

/-- A block that is begun when the budget is spent ends at once: it is empty, or its first statement
is refused. -/
theorem execBlock_refused {block : Block} {fuel : Nat} (filled : self.fuel = fuel + 1)
    (limited : self.settings.maxSteps = some limit) (spent : limit ≤ m.steps)
    (passes : ∀ {moment m}, (∀ block outcome, moment ≠ .cleanUp block outcome) →
      self.observe moment m = .ok () m) :
    self.execBlock block m = .ok .done m ∨ ∃ error, error.fault = .stepBudget limit ∧
      self.execBlock block m =
          .error (.broken (.error error)) { m with steps := m.steps + 1 } := by
  have arrives : self.observe (.place block 0 []) m = .ok () m := passes nofun
  have refused := tick_refused limited spent (passes nofun)
  unfold execBlock
  rw [filled]
  unfold execFrom
  simp only [Bind.bind, EStateM.bind, arrives]
  cases block with
  | nil => exact .inl rfl
  | cons stmt rest =>
    refine .inr ⟨(RuntimeError.unplaced (.stepBudget limit)).placedAt stmt.token, ?_, ?_⟩
    · exact RuntimeError.placedAt_fault _ _
    simp only [List.getElem?_cons_zero, perform, Bind.bind, EStateM.bind, Exec.placed, refused]

theorem Fails.level {bound : Nat} {observe : Moment → Exec Unit} {settings : Settings} {host : Host}
    (fails : (observedEvaluator observe settings host bound).Fails) :
    ∃ lower, bound = lower + 3 := by
  obtain ⟨block, m, error, final, failed⟩ := fails
  match bound with
  | 0 | 1 | 2 => cases failed
  | lower + 3 => exact ⟨lower, rfl⟩

end Evaluator

/-- A clean-up block runs after an error with a fault. -/
def Moment.CleansUpAfter (fault : Fault) (moment : Moment) : Prop :=
  ∃ block error, moment = .cleanUp block (.error (.error error)) ∧ error.fault = fault

/-- It is not the moment at which a fault tells that a budget is exhausted. -/
def Unexhausted (fault : Fault) (moment : Moment) (_ : Machine) : Prop :=
  moment ≠ .exhausted fault

/-- No clean-up begins after an error because calls are nested too deeply. -/
def Uncleaned (fault : Fault) (moment : Moment) (_ : Machine) : Prop :=
  (∃ limit, fault = .callDepth limit) → ¬ moment.CleansUpAfter fault

/-- How a run goes on from the moment at which a budget is found exhausted. The machine of that
moment is `met`, and the machine on which the run has ended so far is `now`. -/
structure Spent (settings : Settings) (fault : Fault) (escape : Escape) (met now : Machine) :
    Prop where
  frozen : met.Frozen now
  budget : (∃ limit, settings.maxSteps = some limit ∧ fault = .stepBudget limit ∧
    limit < met.steps) ∨ ∃ limit, fault = .callDepth limit ∧ now.steps = met.steps
  ending : (∃ error, escape = .broken (.error error) ∧ error.fault = fault) ∨
    (∃ limit, fault = .callDepth limit) ∧ escape = .stopped

namespace Spent

variable {settings : Settings} {fault : Fault} {escape : Escape} {met now : Machine}

theorem unpark (spent : Spent settings fault escape met now) :
    Spent settings fault escape met now.unpark where
  frozen := spent.frozen.unpark
  budget := by
    refine spent.budget.imp_right fun ⟨limit, same, steps⟩ => ⟨limit, same, ?_⟩
    unfold Machine.unpark
    split
    · exact steps
    · exact steps
  ending := spent.ending

theorem activation (spent : Spent settings fault escape met now) {activation : Activation} :
    Spent settings fault escape met { now with activation } where
  frozen := spent.frozen.activation
  budget := spent.budget
  ending := spent.ending

end Spent

namespace Discipline

/-- A run that is stopped where a budget is found exhausted is compared with one that goes on. -/
def exhaustion (settings : Settings) (fault : Fault) : Discipline where
  Inv _ := True
  Step _ _ := True
  Cause other := other ≠ fault
  Parted left met right now := left = .stopped ∧ Spent settings fault right met now
  step_refl _ := trivial
  step_trans _ _ := trivial
  parted_placed {left met error now token} parted := by
    obtain ⟨stopped, spent⟩ := parted
    refine ⟨stopped, spent.frozen, spent.budget, .inl ⟨_, rfl, ?_⟩⟩
    rcases spent.ending with ⟨other, same, cause⟩ | ⟨_, same⟩
    · cases same
      rw [RuntimeError.placedAt_fault]
      exact cause
    · cases same
  parted_left parted cause := by
    rw [parted.1]
    nofun
  parted_right parted reason := by
    rintro rfl
    rcases parted.2.ending with ⟨other, same, cause⟩ | ⟨_, same⟩
    · cases same
    · cases same

variable {settings : Settings} {fault : Fault}

theorem exhaustion_loose (fatal : fault.isFatal = true) : (exhaustion settings fault).Loose where
  inv _ := trivial
  step _ := trivial
  val _ := trivial
  spot _ _ := trivial
  code _ _ := trivial
  callable _ := trivial
  cause := by
    rintro other ordinary - rfl
    rw [fatal] at ordinary
    cases ordinary

theorem exhaustion_scoping (fatal : fault.isFatal = true) :
    (exhaustion settings fault).Scoping := by
  refine (exhaustion_loose fatal).shallow.scoping ?_ ?_ ?_
  · rintro left met error now ⟨_, spent⟩
    rcases spent.ending with ⟨other, same, cause⟩ | ⟨_, same⟩
    · cases same
      rw [← cause] at fatal
      exact fatal
    · cases same
  · rintro left met right now activation ⟨stopped, spent⟩
    exact ⟨stopped, spent.activation⟩
  · rintro left met right now ⟨stopped, spent⟩
    exact ⟨stopped, spent.unpark⟩

theorem exhaustion_passing {moment : Moment} {m : Machine} (other : moment ≠ .exhausted fault)
    (clean : ¬ moment.CleansUpAfter fault) :
    (exhaustion settings fault).Sound m Free (assertion (Unexhausted fault) moment)
      (assertion (Uncleaned fault) moment) := by
  have left : assertion (Unexhausted fault) moment m = .ok () m := assertion_holds other
  have right : assertion (Uncleaned fault) moment m = .ok () m :=
    assertion_holds fun _ => clean
  unfold Sound
  rw [left, right]
  exact .value trivial trivial trivial

theorem exhaustion_exhaust {host : Host} {bound : Nat} {cause : Fault} {m : Machine} {α : Type}
    {Good : α → Machine → Prop}
    (exhausted :
      (observedEvaluator (assertion (Unexhausted fault)) settings host bound).Exhausted cause m) :
    (exhaustion settings fault).Sound m Good
      ((observedEvaluator (assertion (Unexhausted fault)) settings host bound).exhaust cause)
      ((observedEvaluator (assertion (Uncleaned fault)) settings host bound).exhaust cause) := by
  unfold Evaluator.exhaust
  simp only [observedEvaluator_observe]
  by_cases same : cause = fault
  · subst same
    have left : assertion (Unexhausted cause) (.exhausted cause) m =
        .error .stopped m := assertion_fails fun other => other rfl
    have right : assertion (Uncleaned cause) (.exhausted cause) m = .ok () m :=
      assertion_holds fun _ ⟨block, error, same, _⟩ => nomatch same
    unfold Sound
    simp only [Bind.bind, EStateM.bind, left, right]
    refine .parted ⟨rfl, .refl m, ?_, .inl ⟨_, rfl, rfl⟩⟩
    rcases exhausted with ⟨limit, limited, same, exceeded⟩ | ⟨limit, _, same, _⟩
    · rw [observedEvaluator_settings] at limited
      exact .inl ⟨limit, limited, same, exceeded⟩
    · exact .inr ⟨limit, same, rfl⟩
  · have passing : (exhaustion settings fault).Sound m Free
        (assertion (Unexhausted fault) (.exhausted cause))
        (assertion (Uncleaned fault) (.exhausted cause)) :=
      exhaustion_passing (fun equal => same (Moment.exhausted.inj equal))
        fun ⟨block, error, equal, _⟩ => nomatch equal
    exact passing.bind fun _ _ _ _ _ => .fail trivial same

/-- A clean-up after an exhausted budget: it is refused with its first statement, or the observer
stops the run where it begins. -/
theorem exhaustion_cleanUp {host : Host} {bound : Nat} {escape : Escape} {met : Machine}
    {error : RuntimeError} {now m : Machine} (block : Block)
    (fails : (observedEvaluator (assertion (Uncleaned fault)) settings host bound).Fails)
    (parted : (exhaustion settings fault).Parted escape met (.broken (.error error)) now) :
    (exhaustion settings fault).Agree m (exhaustion settings fault).GoodSignal (.error escape met)
      ((observedEvaluator (assertion (Uncleaned fault)) settings host bound).cleanUp (some block)
        (.error (.error error)) now) := by
  obtain ⟨rfl, spent⟩ := parted
  have cause : error.fault = fault := by
    rcases spent.ending with ⟨other, same, cause⟩ | ⟨_, same⟩
    · cases same
      exact cause
    · cases same
  unfold Evaluator.cleanUp
  simp only [observedEvaluator_observe, Bind.bind, EStateM.bind]
  rcases spent.budget with ⟨limit, limited, rfl, exceeded⟩ | ⟨limit, rfl, steps⟩
  · have passes (moment : Moment) (m : Machine) :
        assertion (Uncleaned (.stepBudget limit)) moment m = .ok () m :=
      assertion_holds fun ⟨_, same⟩ => nomatch same
    obtain ⟨lower, rfl⟩ := fails.level
    have spentNow : limit ≤ now.steps :=
      Nat.le_of_lt (Nat.lt_of_lt_of_le exceeded spent.frozen.steps)
    have refused : (observedEvaluator (assertion (Uncleaned (.stepBudget limit))) settings host
            (lower + 3)).exec block now = .ok .done now ∨
          ∃ error, error.fault = .stepBudget limit ∧
            (observedEvaluator (assertion (Uncleaned (.stepBudget limit))) settings host
              (lower + 3)).exec block now =
              .error (.broken (.error error)) { now with steps := now.steps + 1 } :=
      Evaluator.execBlock_refused rfl limited spentNow fun _ => passes _ _
    rw [passes]
    dsimp only
    rcases refused with empty | ⟨other, same, failed⟩
    · rw [empty]
      exact .parted ⟨rfl, spent⟩
    · rw [failed]
      refine .parted ⟨rfl, spent.frozen.counted, .inl ⟨limit, limited, rfl, exceeded⟩, .inl ?_⟩
      exact ⟨other, rfl, same⟩
  · have stopped : assertion (Uncleaned (.callDepth limit)) (.cleanUp block (.error (.error error)))
        now = .error .stopped now :=
      assertion_fails fun clean => clean ⟨limit, rfl⟩ ⟨block, error, rfl, cause⟩
    rw [stopped]
    exact .parted ⟨rfl, spent.frozen, .inr ⟨limit, rfl, steps⟩, .inr ⟨⟨limit, rfl⟩, rfl⟩⟩

theorem exhaustion_observers (host : Host) (bound : Nat) : (exhaustion settings fault).Observers
      (observedEvaluator (assertion (Unexhausted fault)) settings host bound)
      (observedEvaluator (assertion (Uncleaned fault)) settings host bound) where
  expression _ := by
    simp only [observedEvaluator_observe]
    exact exhaustion_passing nofun fun ⟨_, _, same, _⟩ => nomatch same
  call _ _ _ := by
    simp only [observedEvaluator_observe]
    exact exhaustion_passing nofun fun ⟨_, _, same, _⟩ => nomatch same
  cleanUp {m block outcome} _ good := by
    simp only [observedEvaluator_observe]
    refine exhaustion_passing nofun ?_
    rintro ⟨other, error, same, cause⟩
    cases same
    exact good.1 cause
  exhaust _ exhausted := exhaustion_exhaust exhausted
  cleanUp_parted block fails parted := exhaustion_cleanUp block fails parted

theorem exhaustion_hooks (fatal : fault.isFatal = true) (host : Host) (bound : Nat) :
    (exhaustion settings fault).Hooks
      (observedEvaluator (assertion (Unexhausted fault)) settings host bound)
      (observedEvaluator (assertion (Uncleaned fault)) settings host bound) :=
  (exhaustion_loose fatal).hooks (exhaustion_scoping fatal) (exhaustion_observers host)
    (exhaustion_passing nofun fun ⟨_, _, same, _⟩ => nomatch same)
    (fun _ => exhaustion_passing nofun fun ⟨_, _, same, _⟩ => nomatch same) bound

/-- A run that is stopped where the budget is exhausted goes on without the observer as an exhausted
budget lets it. -/
theorem Agree.spent {m : Machine} {α : Type} {Good : α → Machine → Prop} {met : Machine}
    {right : EStateM.Result Escape Machine α}
    (agree : (exhaustion settings fault).Agree m Good (.error .stopped met) right) :
    ∃ escape now, right = .error escape now ∧ Spent settings fault escape met now := by
  cases agree with
  | parted differ => exact ⟨_, _, rfl, differ.2⟩
  | strayed strayed => exact strayed.elim

theorem unrestricted_passing {asserted : Moment → Machine → Prop} {m : Machine} {moment : Moment}
    (holds : asserted moment m) :
    unrestricted.Sound m Free (assertion asserted moment) (assertion asserted moment) := by
  unfold Sound
  rw [assertion_holds holds]
  exact .value trivial id trivial

/-- Nested evaluation is not stopped by an assertion about statements that holds of every statement
within the budget. -/
theorem unrestricted_hooks {asserted : Moment → Machine → Prop} (host : Host)
    (others : ∀ moment m, (∀ stmt, moment ≠ .statement stmt) → asserted moment m)
    (statements : ∀ stmt m, (∀ limit, settings.maxSteps = some limit → m.steps ≤ limit) →
      asserted (.statement stmt) m) (bound : Nat) :
    unrestricted.Hooks (observedEvaluator (assertion asserted) settings host bound)
      (observedEvaluator (assertion asserted) settings host bound) := by
  have other {moment : Moment} {m : Machine} (apart : ∀ stmt, moment ≠ .statement stmt) :=
    unrestricted_passing (others moment m apart)
  refine unrestricted_loose.hooks unrestricted_scoping (fun bound => ?_) (other nofun)
    (fun {m stmt bound} within => ?_) bound
  · exact {
      expression := fun _ => by
        simp only [observedEvaluator_observe]
        exact other nofun
      call := fun _ _ _ => by
        simp only [observedEvaluator_observe]
        exact other nofun
      cleanUp := fun _ _ => by
        simp only [observedEvaluator_observe]
        exact other nofun
      exhaust := fun {_ _ m fault} _ exhausted => by
        have observed : unrestricted.Sound m Free (assertion asserted (.exhausted fault))
            (assertion asserted (.exhausted fault)) := other nofun
        unfold Evaluator.exhaust
        simp only [observedEvaluator_observe]
        exact observed.bind fun _ _ _ _ _ => .fail trivial (haltReason?_of_exhausted exhausted)
      cleanUp_parted := fun _ _ parted => parted.elim }
  · unfold Evaluator.WithinBudget at within
    rw [observedEvaluator_settings] at within
    exact unrestricted_passing (statements stmt m within)

end Discipline

/-- A statement is only executed while the number of statements counted is within the budget. -/
def Settings.Allows (settings : Settings) (moment : Moment) (m : Machine) : Prop :=
  ∀ stmt limit, moment = .statement stmt → settings.maxSteps = some limit → m.steps ≤ limit

theorem Interpreter.always_allowed (interpreter : Interpreter) (program : Program) :
    interpreter.Always program interpreter.settings.Allows := by
  intro bound final stopped
  have hooks : Discipline.unrestricted.Hooks
      (observedEvaluator
        (assertion interpreter.settings.Allows) interpreter.settings interpreter.host
        bound) _ := Discipline.unrestricted_hooks interpreter.host
    (fun moment m apart stmt limit same => absurd same (apart stmt))
    (fun stmt m within other limit _ limited => within limit limited) bound
  have sound : Discipline.unrestricted.Sound
      (Run.begin interpreter.settings program interpreter.machine) _
      (Run.statements _ program.statements) _ :=
    hooks.statements_sound (fun _ _ _ _ => id) Discipline.unrestricted_scoping.toDraining
      (Discipline.unrestricted_scoping.registering _) trivial trivial fun _ _ _ _ => trivial
  have ends := Discipline.Agree.ends ⟨fun _ _ _ _ => id, fun _ _ => id⟩ sound
  unfold checkedWork at stopped
  rw [stopped] at ends
  exact ends

theorem Exec.ended_of_resume {α : Type} {work : Exec (Except Break α)} {m : Machine}
    {escape : Escape} {final : Machine} (ended : (work >>= Exec.resume) m = .error escape final) :
    work m = .error escape final ∨ ∃ cause, escape = .broken cause ∧
      work m = .ok (.error cause) final := by
  simp only [Bind.bind, EStateM.bind] at ended
  match done : work m with
  | .error _ _ =>
    rw [done] at ended
    cases ended
    exact .inl rfl
  | .ok (.ok _) _ =>
    rw [done] at ended
    cases ended
  | .ok (.error cause) last =>
    rw [done] at ended
    cases ended
    exact .inr ⟨cause, rfl, rfl⟩

theorem Interpreter.runWithin_failed {bound : Nat} {program : Program} {error : RuntimeError}
    {final : Machine} {interpreter : Interpreter}
    (ended : interpreter.work bound program = .error (.broken (.error error)) final ∨
      interpreter.work bound program = .ok (.error (.error error)) final) :
    interpreter.runWithin bound program =
      (.failed error, { interpreter with machine := Run.finish final }) := by
  unfold work at ended
  unfold runWithin
  rcases ended with failed | failed
  · simp only [failed]
    rfl
  · simp only [failed]
    rfl

/-- A run that is stopped where a budget is exhausted goes on as an exhausted budget lets it, up to
a clean-up after that error. -/
theorem Interpreter.spent_of_exhausted {fault : Fault} {bound : Nat} {program : Program}
    {met : Machine} {interpreter : Interpreter} (fatal : fault.isFatal = true)
    (meets : interpreter.checkedWork (Unexhausted fault) bound program = .error .stopped met) :
    ∃ escape now, Spent interpreter.settings fault escape met now ∧
      (interpreter.checkedWork (Uncleaned fault) bound program = .error escape now ∨
        ∃ cause, escape = .broken cause ∧
          interpreter.checkedWork (Uncleaned fault) bound program = .ok (.error cause) now) := by
  have sound : (Discipline.exhaustion interpreter.settings fault).Sound
      (Run.begin interpreter.settings program interpreter.machine)
      (Discipline.exhaustion interpreter.settings fault).GoodSignal
      (Run.statements (observedEvaluator (assertion (Unexhausted fault)) interpreter.settings
        interpreter.host bound) program.statements >>= Exec.resume)
      (Run.statements (observedEvaluator (assertion (Uncleaned fault)) interpreter.settings
        interpreter.host bound) program.statements >>= Exec.resume) :=
    (Discipline.exhaustion_hooks fatal interpreter.host bound).statements
      (Discipline.exhaustion_scoping fatal).toDraining
      ((Discipline.exhaustion_scoping fatal).registering _) trivial trivial (fun _ _ _ _ => trivial)
      (fun _ _ inv step good => (Discipline.Sound.resume inv good).after step)
      fun parted => .parted parted
  have stopped : (Run.statements (observedEvaluator (assertion (Unexhausted fault))
      interpreter.settings interpreter.host bound) program.statements >>= Exec.resume)
      (Run.begin interpreter.settings program interpreter.machine) = .error .stopped met := by
    unfold checkedWork at meets
    simp only [Bind.bind, EStateM.bind, meets]
  unfold Discipline.Sound at sound
  rw [stopped] at sound
  obtain ⟨escape, now, ended, spent⟩ := sound.spent
  exact ⟨escape, now, spent, Exec.ended_of_resume ended⟩

/-- What a budget that is exhausted on the machine `met` does to a run. -/
structure Interpreter.Exhausts (interpreter : Interpreter) (bound : Nat) (program : Program)
    (fault : Fault) (met : Machine) : Prop where
  /-- Statements are only executed within the budget. -/
  allowed : interpreter.Always program interpreter.settings.Allows
  exceeded : ∀ limit, fault = .stepBudget limit → interpreter.settings.maxSteps = some limit ∧
    limit < met.steps
  /-- Nothing happens any more and the run fails with the error. Or else it is the depth of calls
  that is exhausted, and nothing happens until a clean-up begins after the error, in a `TRY`
  statement whose handler ended with it. -/
  ended : (∃ error final, interpreter.runWithin bound program =
        (.failed error, { interpreter with machine := Run.finish final }) ∧
      error.fault = fault ∧ met.Frozen final ∧
      ((∃ limit, fault = .callDepth limit) → final.steps = met.steps)) ∨
    (∃ limit, fault = .callDepth limit) ∧ ∃ later,
        interpreter.checkedWork (Uncleaned fault) bound program = .error .stopped later ∧
        met.Frozen later ∧ later.steps = met.steps

/-- An exhausted budget is fatal to a run, but for clean-ups after a handler that calls too deeply.
-/
theorem exhausted_budget_ends_run {interpreter : Interpreter} {bound : Nat} {program : Program}
    {fault : Fault} {met : Machine} (fatal : fault.isFatal = true)
    (meets : interpreter.checkedWork (Unexhausted fault) bound program = .error .stopped met) :
    interpreter.Exhausts bound program fault met := by
  obtain ⟨escape, now, spent, ended⟩ := Interpreter.spent_of_exhausted fatal meets
  have uncounted : (∃ limit, fault = .callDepth limit) → now.steps = met.steps := by
    rintro ⟨limit, rfl⟩
    rcases spent.budget with ⟨_, _, same, _⟩ | ⟨_, _, steps⟩
    · cases same
    · exact steps
  refine ⟨interpreter.always_allowed program, ?_, ?_⟩
  · rintro limit rfl
    rcases spent.budget with ⟨other, limited, same, exceeded⟩ | ⟨_, same, _⟩
    · cases same
      exact ⟨limited, exceeded⟩
    · cases same
  · rcases spent.ending with ⟨error, rfl, cause⟩ | ⟨depth, rfl⟩
    · refine .inl ⟨error, now, Interpreter.runWithin_failed ?_, cause, spent.frozen, uncounted⟩
      -- The run was not stopped by the observer, so it is the run itself.
      rcases interpreter.checkedWork_eq (Uncleaned fault) bound program with ⟨final, stopped⟩ | same
      · rw [stopped] at ended
        rcases ended with other | ⟨_, _, other⟩
        · cases other
        · cases other
      · rw [same] at ended
        refine ended.imp_right ?_
        rintro ⟨_, broken, done⟩
        cases broken
        exact done
    · refine .inr ⟨depth, now, ?_, spent.frozen, uncounted depth⟩
      rcases ended with stopped | ⟨_, same, _⟩
      · exact stopped
      · cases same

/-- A new interpreter that allows calls to be nested to some depth. -/
def Interpreter.ofDepth (limit : Nat) : Interpreter :=
  .new .empty { maxCallDepth := limit } .still

/-- Whether calls are not found too deep for a limit. -/
def Moment.isWithinDepth (limit : Nat) : Moment → Bool
  | .exhausted (.callDepth other) => other != limit
  | _ => true

theorem Moment.isWithinDepth_iff (limit : Nat) (moment : Moment) (m : Machine) :
    moment.isWithinDepth limit = true ↔ Unexhausted (.callDepth limit) moment m := by
  unfold isWithinDepth Unexhausted
  split
  · simp
  · next other =>
    refine iff_of_true rfl ?_
    rintro rfl
    exact other limit rfl

/-- A program that calls too deeply in a `TRY` statement, while blocks wait in the calls. -/
def deepTry : Program :=
  .ofSource ("SUB R()\nDEFER PRINT \"d\"\nCALL R()\nEND SUB\n" ++
      "TRY\nCALL R()\nCATCH e\nPRINT \"c\"\nFINALLY\nPRINT \"f\"\nEND TRY")

/-- Calling too deeply is fatal to a run of that program. -/
theorem exhausted_budget_ends_deep_try :
    ∃ met, (Interpreter.ofDepth 2).checkedWork (Unexhausted (.callDepth 2)) 60 deepTry =
        .error .stopped met ∧
      (Interpreter.ofDepth 2).Exhausts 60 deepTry (.callDepth 2) met := by
  have stopped : isStopped
      ((Interpreter.ofDepth 2).checkedWork (Unexhausted (.callDepth 2)) 60 deepTry) = true := by
    unfold Interpreter.checkedWork
    rw [assertion_eq fun moment machine => moment.isWithinDepth_iff 2 machine]
    decide +kernel
  obtain ⟨met, meets⟩ := exists_of_isStopped stopped
  exact ⟨met, meets, exhausted_budget_ends_run rfl meets⟩

/-- A program whose handler calls too deeply, and whose clean-up then returns. -/
def deepHandler : Program :=
  .ofSource ("FUNCTION F()\nTRY\nERROR \"x\"\nCATCH e\nCALL F()\nFINALLY\nRETURN \"r\"\nEND TRY\n" ++
      "END FUNCTION\nPRINT F()")

/-- The lines printed by a run that came to its end. -/
def RunResult.outputs : RunResult → List String
  | completed completion => completion.outputs
  | _ => []

/-- The error of a handler that calls too deeply is lost in the clean-up: the run goes on. -/
theorem clean_up_overtakes_depth_error :
    isStopped ((Interpreter.ofDepth 1).checkedWork (Unexhausted (.callDepth 1)) 60 deepHandler) =
        true ∧
      ((Interpreter.ofDepth 1).runWithin 60 deepHandler).1.outputs = ["r"] := by
  constructor
  · unfold Interpreter.checkedWork
    rw [assertion_eq fun moment machine => moment.isWithinDepth_iff 1 machine]
    decide +kernel
  · decide +kernel

end MicroBasic
