import Mathlib.Data.List.Nodup
import Mathlib.Data.List.Perm.Subperm
import MicroBasic.Parse.Program
import MicroBasic.Proofs.Concord.Observed
import MicroBasic.Proofs.Concord.Settling
import MicroBasic.Proofs.Library
import MicroBasic.Proofs.Runs

/-!
# Runs with a budget terminate

A budget of statements makes every run terminate, also one that executes few statements: one that
repeats an empty body, evaluates default values that call the same function, or keeps blocks waiting
that make others wait. The measure has four parts. A nested block is only executed after a statement
was counted, so there are fewer statements left. The body of a function is one call deeper. A loop
counts a statement in each round or leaves fewer blocks waiting. All other nested evaluation is that
of a smaller expression.

Every statement that is executed has a number of its own, which is at most the budget.
-/

namespace MicroBasic

/-- Every function of a host terminates: it never runs out of fuel, and in a world that is complete
it needs nothing from outside and leaves the world so. -/
def Host.Terminates (host : Host) : Prop :=
  ∀ ref args state,
    match host.invoke ref args state with
    | .ok _ next => state.world.Complete → next.world.Complete
    | .error (.fault _) next => state.world.Complete → next.world.Complete
    | .error (.awaiting what) _ => what ≠ .fuel ∧ ¬ state.world.Complete

theorem World.clock_of_readClock (world : World) :
    match world.readClock with
    | (.ok _, next) => world.Complete → next.Complete
    | (.error what, _) => what ≠ .fuel ∧ ¬ world.Complete := by
  unfold readClock
  cases world.clock.readings with
  | cons reading rest => exact fun complete => ⟨complete.input, complete.clock⟩
  | nil =>
    cases more : world.clock.live with
    | false => exact fun complete => complete
    | true => exact ⟨nofun, fun complete => nomatch more.symm.trans complete.clock⟩

theorem World.random_eq (world : World) :
    ∃ value seed, world.random = (value, { world with seed }) :=
  ⟨_, _, rfl⟩

/-- The rule that a complete world stays one, and that nothing is needed there. -/
def HeapRule.completing (start : World) : HeapRule where
  Inv _ := True
  Val _ := True
  number := trivial
  text := trivial
  array := trivial
  items _ _ := trivial
  setItems _ _ := trivial
  newArray _ _ := trivial
  Outside world := start.Complete → world.Complete
  Needs what := what ≠ .fuel ∧ ¬ start.Complete
  random {world} kept complete := by
    obtain ⟨value, seed, drawn⟩ := world.random_eq
    rw [drawn]
    exact (kept complete).sources ⟨rfl, rfl⟩
  clock {world} kept := by
    have read := world.clock_of_readClock
    match world.readClock, read with
    | (.ok _, _), read => exact fun complete => read (kept complete)
    | (.error _, _), read => exact ⟨read.1, fun complete => read.2 (kept complete)⟩

theorem Host.standard_terminates : standard.Terminates := by
  intro ref args state
  have obeys := standard_serves (.completing state.world) ref args
    (fun _ _ => trivial) state ⟨trivial, fun complete => complete⟩
  match standard.invoke ref args state, obeys with
  | .ok _ _, obeys => exact obeys.2.2
  | .error (.fault _) _, obeys => exact obeys.2
  | .error (.awaiting _) _, obeys => exact obeys

section Settling

variable {settings : Settings} {host : Host} {limit : Nat} {Ok : Machine → Prop} {m : Machine}

theorem settling_invoke {function : HostRef} {args : List Value} (terminates : host.Terminates) :
    (settling limit).Keeps m (fun _ => Exec.hosting function (host.invoke function args)) := by
  have ended := terminates function args { heap := m.heap, world := m.world }
  refine Settles.same ?_
  unfold Exec.hosting
  match host.invoke function args { heap := m.heap, world := m.world }, ended with
  | .ok _ _, ended => exact .value ended (.world ..)
  | .error (.fault _) _, ended => exact .broken ended (.world ..)
  | .error (.awaiting _) _, ended => exact .awaiting ended

theorem settling_tick (limited : settings.maxSteps = some limit) : (settling limit).Holds m
      (fun _ final => m.Onward final ∧ (settling limit).Spent m final)
      (fun cause final => m.Onward final ∧ cause.isFatal = true)
      (fun bound => (evaluator settings host bound).tick m) := by
  have calm := Machine.Calm.counted m
  have own (bound : Nat) : (evaluator settings host bound).settings = settings :=
    observedEvaluator_settings ..
  rcases settings.affords_or m with affords | ⟨other, same, spent⟩
  · have ticked (bound : Nat) : (evaluator settings host bound).tick m = .ok () m.counted := by
      refine Evaluator.tick_afforded ?_
      rw [own]
      exact affords
    simp only [ticked]
    exact (settling limit).value calm
      ⟨calm.toOnward, affords limit limited, Nat.lt_succ_self m.steps⟩
  · have refused (bound : Nat) : (evaluator settings host bound).tick m =
        .error (.broken (.error (.unplaced (.stepBudget other)))) m.counted := by
      rw [Evaluator.tick_exhausts (by rw [own]; exact same) spent]
      exact Evaluator.exhaust_passed Discipline.evaluator_observe
    simp only [refused]
    exact (settling limit).broken calm ⟨calm.toOnward, rfl⟩

theorem settling_setting (terminates : host.Terminates) (limited : settings.maxSteps = some limit)
    (stable : ∀ {m next : Machine}, Ok m → m.Framed next → Ok next) :
    (settling limit).Setting (evaluator settings host) host settings.maxCallDepth Ok where
  hosts _ := observedEvaluator_host ..
  limits bound := by
    rw [show (evaluator settings host bound).settings = settings from observedEvaluator_settings ..]
  room least := by
    refine ⟨least + 1, fun bound larger => ?_⟩
    show least ≤ (observedEvaluator _ settings host bound).fuel
    rw [observedEvaluator_fuel]
    exact Nat.le_sub_one_of_lt larger
  stable := stable
  invoke := settling_invoke terminates
  observe {m moment} _ _ := by
    simp only [Discipline.evaluator_observe]
    exact (settling limit).value (.refl m) rfl
  exhaust {m} _ _ := by
    unfold Concord.Keeps
    simp only [Evaluator.exhaust_passed Discipline.evaluator_observe]
    exact (settling limit).broken (.refl m) (.refl m)
  tick _ := settling_tick limited
  counts _ _ :=
    Concord.counts_of_tick (settling_tick limited) fun _ _ _ => Discipline.evaluator_observe

theorem settling_raised {Bad : Break → Machine → Prop} {α : Type} {Good : α → Machine → Prop}
    {lower upper : Nat → EStateM.Result Escape Machine α}
    (raise : ∀ bound, upper bound = if bound =
      0 then .error (.awaiting .fuel) m else lower (bound - 1))
    (settles : (settling limit).Holds m Good Bad lower) :
    (settling limit).Holds m Good Bad upper := by
  have unbounded : Unbounded (fun bound => bound - 1) := fun least =>
    ⟨least + 1, fun bound larger => Nat.le_sub_one_of_lt larger⟩
  refine Settles.along settles unbounded 1 fun bound larger => ?_
  rw [raise, if_neg (Nat.ne_of_gt larger)]

/-- The machines on which at most some statements and calls are left. -/
def Machine.Leaves (limit depth statements calls : Nat) (m : Machine) : Prop :=
  limit ≤ m.steps + statements ∧ depth ≤ m.activation.depth + calls

theorem Machine.Leaves.framed {depth statements calls : Nat} {next : Machine}
    (leaves : m.Leaves limit depth statements calls) (framed : m.Framed next) :
    next.Leaves limit depth statements calls :=
  ⟨Nat.le_trans leaves.1
    (Nat.add_le_add_right framed.steps _), by rw [framed.depth]; exact leaves.2⟩

theorem settling_serves_of
    (setting : (settling limit).Setting (evaluator settings host) host settings.maxCallDepth Ok)
    (exec : ∀ {m block}, Ok m →
      (settling limit).Runs m (fun bound => (evaluator settings host bound).execBlock block))
    (call : ∀ {m overload args}, Ok m → (settling limit).Keeps m
        (fun bound => (evaluator settings host bound).callUser overload args)) :
    (settling limit).Serves (evaluator settings host) host settings.maxCallDepth Ok
      (fun _ => True) := by
  have nested {m : Machine} {block : Block} (ok : Ok m) :
      (settling limit).Runs m (fun bound => (evaluator settings host bound).exec block) := by
    have raise (bound : Nat) : (evaluator settings host bound).exec block m =
        if bound = 0 then .error (.awaiting .fuel) m
        else (evaluator settings host (bound - 1)).execBlock block m :=
      observedEvaluator_exec
    exact settling_raised raise (exec ok)
  have sized (size : Nat) : ∀ {m : Machine} {expr : Expr}, sizeOf expr < size → Ok m →
      (settling limit).Keeps m (fun bound => (evaluator settings host bound).eval expr) := by
    induction size with
    | zero => exact fun small _ => absurd small (Nat.not_lt_zero _)
    | succ size ih =>
      intro m expr small ok
      have serves : (settling limit).Serves (evaluator settings host) host settings.maxCallDepth Ok
          (fun inner => sizeOf inner < size) :=
        { setting with eval := ih, exec := nested, call }
      have raise (bound : Nat) : (evaluator settings host bound).eval expr m =
          if bound = 0 then .error (.awaiting .fuel) m
          else (evaluator settings host (bound - 1)).evalExpr expr m :=
        observedEvaluator_eval
      refine settling_raised raise (serves.evalExpr (fun inner smaller => ?_) ok)
      exact Nat.lt_of_lt_of_le smaller (Nat.le_of_lt_succ small)
  exact { setting with
    eval := fun {m expr} _ ok => sized (sizeOf expr + 1) (Nat.lt_succ_self _) ok
    exec := nested
    call }

theorem settling_serves_nowhere (terminates : host.Terminates)
    (limited : settings.maxSteps = some limit) :
    (settling limit).Serves (evaluator settings host) host settings.maxCallDepth (fun _ => False)
      (fun _ => True) :=
  { settling_setting terminates limited fun never _ => never with
    eval := fun _ never => never.elim
    exec := fun never => never.elim
    call := fun never => never.elim }

/-- Evaluation settles with some statements left if it does wherever blocks are executed. The
induction is on the number of calls that are left: the body of a function is one call deeper. -/
theorem settling_serves_calls {statements : Nat} (terminates : host.Terminates)
    (limited : settings.maxSteps = some limit) {Inner : Nat → Machine → Prop}
    (inner : ∀ calls, (settling limit).Serves (evaluator settings host) host settings.maxCallDepth
      (Inner calls) (fun _ => True))
    (enters : ∀ {calls m next}, m.Leaves limit settings.maxCallDepth statements calls →
      m.Onward next → (settling limit).Spent m next → Inner calls next) (calls : Nat) :
    (settling limit).Serves (evaluator settings host) host settings.maxCallDepth
      (Machine.Leaves limit settings.maxCallDepth statements calls) (fun _ => True) := by
  have setting (calls : Nat) : (settling limit).Setting (evaluator settings host) host
      settings.maxCallDepth (Machine.Leaves limit settings.maxCallDepth statements calls) :=
    settling_setting terminates limited fun leaves framed => leaves.framed framed
  induction calls with
  | zero =>
    refine settling_serves_of (setting 0) ((setting 0).execBlock (inner 0) enters) ?_
    refine (setting 0).callUser (settling_serves_nowhere terminates limited).toHooks ?_
    intro m parked overload leaves within done
    exact absurd leaves.2 (Nat.not_le_of_lt within)
  | succ calls ih =>
    refine settling_serves_of (setting _) ((setting _).execBlock (inner _) enters) ?_
    refine (setting _).callUser ih.toHooks ?_
    intro m parked overload leaves within done
    obtain ⟨grows, _, same, _⟩ := Machine.grows_of_park done
    constructor
    · exact Nat.le_trans leaves.1 (Nat.add_le_add_right grows.steps _)
    · show settings.maxCallDepth ≤ parked.activation.depth + 1 + calls
      rw [same]
      exact Nat.le_trans leaves.2 (by omega)

/-- Evaluation settles, whatever number of statements and calls is left: a block is executed with
fewer statements left. -/
theorem settling_serves (terminates : host.Terminates) (limited : settings.maxSteps = some limit)
    (statements calls : Nat) :
    (settling limit).Serves (evaluator settings host) host settings.maxCallDepth
      (Machine.Leaves limit settings.maxCallDepth statements calls) (fun _ => True) := by
  induction statements generalizing calls with
  | zero =>
    refine settling_serves_calls terminates limited
      (fun _ => settling_serves_nowhere terminates limited) ?_ calls
    intro calls m next leaves step spent
    exact absurd leaves.1 (Nat.not_le_of_lt spent.1)
  | succ statements ih =>
    refine settling_serves_calls terminates limited ih ?_ calls
    intro calls m next leaves step spent
    refine ⟨?_, by rw [step.depth]; exact leaves.2⟩
    calc limit ≤ m.steps + (statements + 1) := leaves.1
      _ = m.steps + 1 + statements := by omega
      _ ≤ next.steps + statements := Nat.add_le_add_right spent.2 statements

end Settling

/-- It is not the moment at which a statement of some kind is executed. -/
def Moment.Spares (target : Stmt → Machine → Prop) (moment : Moment) (m : Machine) : Prop :=
  ∀ stmt, moment = .statement stmt → ¬ target stmt m

/-- A run within a bound comes to execute a statement on a machine: stopped there and nowhere else,
it is stopped. -/
def Interpreter.Executes (interpreter : Interpreter) (bound : Nat) (program : Program) (stmt : Stmt)
    (m : Machine) : Prop :=
  interpreter.checkedWork (Moment.Spares fun other now => other = stmt ∧ now = m) bound program =
    .error .stopped m

/-- Works are stopped where a statement was counted since they began, within a budget. -/
def Stopping.counted (settings : Settings) : Stopping where
  Stops _ m final :=
    m.steps < final.steps ∧ ∀ limit, settings.maxSteps = some limit → final.steps ≤ limit
  stops_before grows stops := ⟨Nat.lt_of_le_of_lt grows.steps stops.1, stops.2⟩

section Executions

variable {settings : Settings} {host : Host} {targets : Bool → Stmt → Machine → Prop}

/-- An observer that stops a run at statements of some kind. -/
noncomputable def spotting (targets : Bool → Stmt → Machine → Prop) (i : Bool) :
    Moment → Exec Unit :=
  assertion (Moment.Spares (targets i))

theorem spotting_passes {moment : Moment} {i : Bool} {m : Machine}
    (other : ∀ stmt, moment ≠ .statement stmt) : spotting targets i moment m = .ok () m :=
  assertion_holds fun stmt same => absurd same (other stmt)

theorem spotting_counts {m : Machine} {bounds : Bool → Nat} {stmt : Stmt}
    (apart : ∀ stmt m, ¬ (targets false stmt m ∧ targets true stmt m)) :
    (paired (.counted settings)).Holds m (fun _ final => m.Onward final ∧ True)
      (fun cause final => m.Onward final ∧ cause.isFatal = true) (fun i => (do
        Exec.placed stmt.token (duo (spotting targets) (fun _ => settings) host bounds i).tick
        (duo (spotting targets) (fun _ => settings) host bounds i).observe (.statement stmt))
          m) := by
  have calm := Machine.Calm.counted m
  rcases settings.affords_or m with affords | ⟨limit, limited, spent⟩
  · -- The statement is counted by both. They part where one of them has a target.
    have stopped (i : Bool) (target : targets i stmt m.counted) :
        spotting targets i (.statement stmt) m.counted = .error .stopped m.counted :=
      assertion_fails fun spares => spares stmt rfl target
    have passed (i : Bool) (other : ¬ targets i stmt m.counted) :
        spotting targets i (.statement stmt) m.counted = .ok () m.counted :=
      assertion_holds fun same executed => by
        cases executed
        exact other
    have alone (i : Bool) :
      ((Stopping.counted settings).manner i).Ends m.counted (fun _ _ => True) (fun _ _ => True)
        (.ok () m.counted : EStateM.Result Escape Machine Unit) :=
      .value (.refl _) trivial
    have counted (i : Bool) := @Evaluator.count_afforded
      (duo (spotting targets) (fun _ => settings) host bounds i) m stmt
      (by rw [duo_settings]; exact affords)
    simp only [counted]
    simp only [duo_observe]
    refine ⟨fun i => ?_, ?_⟩
    · by_cases target : targets i stmt m.counted
      · rw [stopped i target]
        exact .stopped ⟨Nat.lt_succ_self m.steps, fun limit limited => affords limit limited⟩
      · rw [passed i target]
        exact .value calm.toGrows ⟨calm.toOnward, trivial⟩
    · by_cases first : targets false stmt m.counted
      · have second : ¬ targets true stmt m.counted := fun second => apart _ _ ⟨first, second⟩
        refine .inr (.inr ⟨false, m.counted, stopped false first, calm.toGrows, ?_⟩)
        rw [Bool.not_false, passed true second]
        exact alone true
      · by_cases second : targets true stmt m.counted
        · refine .inr (.inr ⟨true, m.counted, stopped true second, calm.toGrows, ?_⟩)
          rw [Bool.not_true, passed false first]
          exact alone false
        · rw [passed false first, passed true second]
          exact .inr (.inl ⟨rfl, nofun⟩)
  · have refused (i : Bool) := @Evaluator.count_refused
      (duo (spotting targets) (fun _ => settings) host bounds i) m stmt limit
      (by rw [duo_settings]; exact limited) spent (by rw [duo_observe]; exact spotting_passes nofun)
    simp only [refused]
    refine .same (fun _ => .broken calm.toGrows ⟨calm.toOnward, ?_⟩) nofun
    show ((RuntimeError.unplaced (.stepBudget limit)).placedAt stmt.token).fault.isFatal = true
    rw [RuntimeError.placedAt_fault]
    rfl

theorem spotting_counting (apart : ∀ stmt m, ¬ (targets false stmt m ∧ targets true stmt m)) :
    Counting (.counted settings) (spotting targets)
      (fun _ => settings) host settings.maxCallDepth (fun _ => True) where
  limits _ := rfl
  stable _ _ := trivial
  enters _ _ _ := trivial
  quiet _ quiet := by
    refine spotting_passes fun stmt same => ?_
    rw [same] at quiet
    cases quiet
  depth _ := spotting_passes nofun
  tick _ := paired_tick fun _ _ => spotting_passes nofun
  counts _ _ := spotting_counts apart

variable {interpreter : Interpreter} {bound : Nat} {program : Program}

theorem Interpreter.spotting_works
    (apart : ∀ stmt m, ¬ (targets false stmt m ∧ targets true stmt m)) :
    Pair (.counted interpreter.settings)
      (Run.begin interpreter.settings program interpreter.machine) (fun _ _ => True)
      (fun _ _ => True)
      (fun i => interpreter.checkedWork (Moment.Spares (targets i)) bound program) := by
  have hooks := @Counting.hooks _ _ _ interpreter.host _ _ (fun _ => bound)
    (@spotting_counting interpreter.settings interpreter.host targets apart) (Nat.le_refl bound)
  have ran : (paired (.counted interpreter.settings)).Holds
      (Run.begin interpreter.settings program interpreter.machine)
      (fun _ final => (Run.begin interpreter.settings program interpreter.machine).Stays final ∧
        final.activation.deferred = []) (fun _ _ => True)
      (fun i => interpreter.checkedWork (Moment.Spares (targets i)) bound program) :=
    hooks.statements trivial
  exact Pair.weaken ran (fun _ _ _ => trivial) fun _ _ held => held

theorem Interpreter.Executes.within {stmt : Stmt} {m : Machine} {limit : Nat}
    (executes : interpreter.Executes bound program stmt m)
    (limited : interpreter.settings.maxSteps = some limit) : 1 ≤ m.steps ∧ m.steps ≤ limit := by
  let targets : Bool → Stmt → Machine → Prop
    | false => fun other now => other = stmt ∧ now = m
    | true => fun _ _ => False
  have works := @spotting_works targets interpreter bound program fun _ _ both => both.2
  have ends := works.ends false
  rw [show interpreter.checkedWork (Moment.Spares (targets false)) bound program = _ from
    executes] at ends
  cases ends with
  | stopped stops => exact ⟨Nat.lt_of_le_of_lt (Nat.zero_le _) stops.1, stops.2 limit limited⟩

theorem Interpreter.Executes.unique {first second : Stmt × Machine}
    (before : interpreter.Executes bound program first.1 first.2)
    (after : interpreter.Executes bound program second.1 second.2)
    (same : first.2.steps = second.2.steps) : first = second := by
  refine Classical.byContradiction fun different => ?_
  let spots : Bool → Stmt × Machine
    | false => first
    | true => second
  have apart (stmt : Stmt) (m : Machine) : ¬ ((stmt = (spots false).1 ∧ m = (spots false).2) ∧
        stmt = (spots true).1 ∧ m = (spots true).2) := by
    rintro ⟨⟨rfl, rfl⟩, sameStmt, sameMachine⟩
    exact different (Prod.ext sameStmt sameMachine)
  have works :=
    @spotting_works
      (fun i stmt m => stmt = (spots i).1 ∧ m = (spots i).2) interpreter bound program apart
  have stopped (i : Bool) : interpreter.checkedWork
      (Moment.Spares fun stmt m => stmt = (spots i).1 ∧ m = (spots i).2) bound program =
      .error .stopped (spots i).2 := by
    cases i with
    | false => exact before
    | true => exact after
  have alike (i j : Bool) : (spots i).2.steps = (spots j).2.steps := by
    cases i <;> cases j <;> first | rfl | exact same | exact same.symm
  rcases works.compared with ⟨final, fuel⟩ | ⟨_, unstopped⟩ | ⟨i, met, ended, _, later⟩
  · exact nomatch (stopped false).symm.trans fuel
  · exact unstopped _ (stopped true)
  · -- One run is stopped first, and the other one later, with a larger number.
    cases (stopped i).symm.trans ended
    rw [stopped (!i)] at later
    cases later with
    | stopped stops => exact Nat.lt_irrefl _ (alike i (!i) ▸ stops.1)

theorem Interpreter.executions_within {limit : Nat}
    (limited : interpreter.settings.maxSteps = some limit) {executions : List (Stmt × Machine)}
    (distinct : executions.Nodup) (executed : ∀ execution ∈ executions,
      interpreter.Executes bound program execution.1 execution.2) : executions.length ≤ limit := by
  have numbers : (executions.map fun execution => execution.2.steps).Nodup := by
    refine List.Nodup.map_on (fun first before second after same => ?_) distinct
    exact (executed first before).unique (executed second after) same
  have range : (executions.map fun execution => execution.2.steps) ⊆ List.range' 1 limit := by
    intro number among
    obtain ⟨execution, member, rfl⟩ := List.mem_map.mp among
    have within := (executed execution member).within limited
    exact List.mem_range'_1.mpr (by omega)
  calc executions.length = (executions.map fun execution => execution.2.steps).length :=
        (List.length_map _).symm
    _ ≤ (List.range' 1 limit).length := (numbers.subperm range).length_le
    _ = limit := List.length_range'

end Executions

theorem Interpreter.work_settles {limit : Nat} {interpreter : Interpreter}
    (terminates : interpreter.host.Terminates)
    (limited : interpreter.settings.maxSteps = some limit) (program : Program) :
    Settles (Run.begin interpreter.settings program interpreter.machine) (fun _ _ => True)
      (fun _ _ => True) (fun bound => interpreter.work bound program) := by
  have serves := settling_serves terminates limited limit interpreter.settings.maxCallDepth
  have begun : (Run.begin interpreter.settings program interpreter.machine).Leaves limit
      interpreter.settings.maxCallDepth limit interpreter.settings.maxCallDepth :=
    ⟨Nat.le_add_left .., Nat.le_add_left ..⟩
  exact Settles.weaken (serves.statements begun) (fun _ _ _ => trivial) fun _ _ held => held

theorem Interpreter.of_conclude_awaiting {ended : EStateM.Result Escape Machine Outcome}
    {what : Awaited} {interpreter next : Interpreter}
    (concluded : interpreter.conclude ended = (.awaiting what, next)) :
    (∃ final, ended = .error (.awaiting what) final) ∨ ∃ final, ended = .error .stopped final := by
  have finished {before : Nat} {m : Machine} {outcome : Outcome} :
      Run.resultOf before m outcome ≠ .awaiting what := by
    unfold Run.resultOf
    split
    · exact nofun
    · split <;> exact nofun
  match ended with
  | .ok _ _ | .error (.broken _) _ => exact absurd (Prod.mk.inj concluded).1 finished
  | .error (.awaiting other) final =>
    cases concluded
    exact .inl ⟨final, rfl⟩
  | .error .stopped final => exact .inr ⟨final, rfl⟩

/-- A budget of statements makes every run terminate, on any machine and with any limit of calls:
from some bound on the work that may be done makes no difference. The run ends with a result or an
error, unless it needs something from outside that has not come yet, which is so only where there is
more to come. And no more statements are executed in it than the budget allows. -/
theorem budget_terminates_run {interpreter : Interpreter} {limit : Nat}
    (terminates : interpreter.host.Terminates)
    (limited : interpreter.settings.maxSteps = some limit) (program : Program) :
    (∃ result next least,
      (∀ bound, least ≤ bound → interpreter.runWithin bound program = (result, next)) ∧
      ∀ what, result = .awaiting what → what ≠ .fuel ∧ ¬ interpreter.machine.world.Complete) ∧
    ∀ bound (executions : List (Stmt × Machine)), executions.Nodup →
      (∀ execution ∈ executions, interpreter.Executes bound program execution.1 execution.2) →
      executions.length ≤ limit := by
  refine ⟨?_, fun bound executions => Interpreter.executions_within limited⟩
  obtain ⟨ended, ⟨least, same⟩, ends⟩ := Interpreter.work_settles terminates limited program
  refine ⟨(interpreter.conclude ended).1, (interpreter.conclude ended).2, least,
    fun bound larger => ?_, fun what awaits => ?_⟩
  · rw [Interpreter.runWithin_eq, show interpreter.work bound program = ended from
      same bound larger]
  · have concluded : interpreter.conclude ended = (.awaiting what, _) := Prod.ext awaits rfl
    rcases Interpreter.of_conclude_awaiting concluded with ⟨final, rfl⟩ | ⟨final, rfl⟩
    · cases ends with
      | awaiting needed => exact needed
    · cases ends with
      | stopped stops => exact stops.elim

/-- A program that repeats an empty body for ever, while a block waits. -/
def endless : Program :=
  .ofSource "DEFER PRINT MATH.SQRT(2);\nDO\nLOOP"

/-- Without a budget that program goes on for as long as it may; with one it terminates. -/
theorem budget_terminates_endless_loop :
    ((Interpreter.new .standard {} .still).runWithin 30 endless).1.isAwaiting = true ∧
      ∃ result next least,
        (∀ bound, least ≤ bound →
          (Interpreter.new .standard { maxSteps := some 7 } .still).runWithin bound endless =
            (result, next)) ∧
        result.isAwaiting = false := by
  refine ⟨by decide +kernel, ?_⟩
  obtain ⟨⟨result, next, least, same, awaits⟩, _⟩ := @budget_terminates_run
    (.new .standard { maxSteps := some 7 } .still) 7 Host.standard_terminates rfl endless
  refine ⟨result, next, least, same, ?_⟩
  cases ended : result with
  | awaiting what => exact absurd ⟨nofun, rfl⟩ (awaits what ended).2
  | completed completion => rfl
  | failed error => rfl

end MicroBasic
