import MicroBasic.Proofs.Balance
import MicroBasic.Proofs.Isolation.Scopes

/-!
# Calls leave the scopes of their callers alone

At every moment of every run, calling any function with arguments that have their places on the
machine leaves all scopes as they were, whatever the function does and however it ends: each scope
has the same variables, with the same values except at the places that parameters of this call were
made to stand for. A call begins on variables that read the same as those of its caller.
-/

namespace MicroBasic

namespace Machine

/-- Reading places into a table one after another: a name has what its place holds, and the names
without a place have what they had. -/
theorem snapshot_entries {read : Place → Except Fault Value} {entries : List (String × Place)}
    {start result : Table String Value}
    (done : entries.foldlM
      (fun vars entry => do return vars.insert entry.1 (← read entry.2)) start = .ok result)
    (distinct : (entries.map Prod.fst).Nodup) (name : String) :
    (∀ place, (name, place) ∈ entries → ∃ value, read place = .ok value ∧
      result.get? name = some value) ∧
      (name ∉ entries.map Prod.fst → result.get? name = start.get? name) := by
  induction entries generalizing start with
  | nil =>
    cases done
    exact ⟨nofun, fun _ => rfl⟩
  | cons entry rest ih =>
    rw [List.foldlM_cons] at done
    obtain ⟨vars, first, done⟩ := Results.of_bind done
    obtain ⟨value, taken, first⟩ := Results.of_bind first
    cases first
    rw [List.map_cons, List.nodup_cons] at distinct
    obtain ⟨placed, unplaced⟩ := ih done distinct.2
    refine ⟨fun place among => ?_, fun absent => ?_⟩
    · rcases List.mem_cons.mp among with same | among
      · subst same
        exact ⟨value, taken, (unplaced distinct.1).trans (Table.get?_insert.trans (if_pos rfl))⟩
      · exact placed place among
    · rw [List.map_cons, List.mem_cons, not_or] at absent
      exact (unplaced absent.2).trans (Table.get?_insert.trans (if_neg absent.1))

theorem readVariable_park {m parked : Machine}
    (distinct : m.scope.places.keys.Nodup) (done : m.park = .ok parked) (name : String) :
    parked.readVariable name = m.readVariable name := by
  obtain ⟨vars, taken, done⟩ := Results.of_bind done
  cases done
  obtain ⟨placed, unplaced⟩ := snapshot_entries taken distinct (Text.stripSuffix name)
  unfold readVariable
  have copied : Table.get? (Table.empty : Table String Place) (Text.stripSuffix name) = none := rfl
  simp only [copied]
  cases found : m.scope.places.get? (Text.stripSuffix name) with
  | some place =>
    obtain ⟨value, held, same⟩ := placed place (Table.mem_of_get? found)
    simp only [same, held]
    rfl
  | none =>
    have absent : Text.stripSuffix name ∉ m.scope.places.keys := by
      intro known
      have present := Table.contains_iff.mpr known
      rw [Table.contains, found] at present
      cases present
    rw [unplaced absent]

end Machine

namespace Discipline

variable {observe : Moment → Exec Unit} {settings : Settings} {host : Host}

theorem isolation_united (reach : List Place) : (isolation reach).United :=
  ⟨fun _ _ _ _ parted => parted, fun _ _ strayed => strayed⟩

theorem sparing_united (places : List Place) : (sparing places).United :=
  ⟨fun _ _ _ _ parted => parted, fun _ _ strayed => strayed⟩

theorem isolation_hooks (passes : ∀ {reach moment m}, (isolation reach).Inv m →
      (isolation reach).Arises moment m → observe moment m = .ok () m)
    (bound : Nat) (reach : List Place) :
    (isolation reach).Hooks (observedEvaluator observe settings host bound)
      (observedEvaluator observe settings host bound) := by
  refine Hooks.passing (fun reach => isolation_laws reach host)
    (fun reach => (isolation_scoping reach).toSteady) isolation_united
    (fun _ => .of_all fun _ _ => trivial) (fun _ => trivial) passes
    (fun hooks inv _ good done => ?_) bound reach
  exact isolation_call (hooks _) inv good done

/-- A call leaves all scopes alone, except for the values at the places that its parameters were
made to stand for. -/
theorem sparing_callUser {args : List Arg} {m : Machine} {bound : Nat} {overload : Overload}
    (has : ∀ arg ∈ args, ∀ place, arg.place = some place → m.Has place) :
    (sparing (boundPlaces m.heap overload.params args)).Sound m
      (sparing (boundPlaces m.heap overload.params args)).GoodValue
      ((evaluator settings host bound).callUser overload args)
      ((evaluator settings host bound).callUser overload args) := by
  have quiet (moment : Moment) :
      (evaluator settings host bound).observe moment = (return : Exec Unit) := by
    simp [evaluator]
  rw [Evaluator.callUser_eq, quiet, pure_bind]
  refine (sparing_shallow _).controlling.makes.called rfl trivial (fun _ => ?_) fun done => ?_
  · unfold Evaluator.exhaust
    rw [quiet, pure_bind]
    exact .fail trivial trivial
  · refine ⟨_, isolation_entry ⟨id, id, id, id⟩ (isolation_hooks (fun _ _ => rfl) bound _)
      (fun place among => ?_) done fun kept => ⟨trivial, kept⟩⟩
    obtain ⟨arg, among, taken⟩ := mem_of_mem_boundPlaces among
    exact has arg among place taken

theorem isolation_statements {reach : List Place} {m : Machine} {block : Block}
    (passes : ∀ {reach moment m}, (isolation reach).Inv m →
      (isolation reach).Arises moment m → observe moment m = .ok () m) (bound : Nat)
        (inv : m.Aimed reach) :
    (isolation reach).Agree m ((isolation reach).GoodEnd (isolation reach).GoodSignal)
      (Run.statements (observedEvaluator observe settings host bound) block m)
      (Run.statements (observedEvaluator observe settings host bound) block m) :=
  (isolation_hooks passes bound reach).statements_sound (isolation_united reach).1
    (isolation_scoping reach).toDraining ((isolation_scoping reach).registering _) inv trivial
    fun _ _ _ _ => trivial

end Discipline

/-- A call that comes to its end has left all scopes alone, except for the values at the places that
its parameters were made to stand for. -/
theorem Evaluator.callUser_spares {bound : Nat} {overload : Overload} {m final : Machine}
    {settings : Settings} {host : Host} {args : List Arg}
    (has : ∀ arg ∈ args, ∀ place, arg.place = some place → m.Has place)
    (ended : ((evaluator settings host bound).callUser overload args).EndsOn m final) :
    ScopesKept (boundPlaces m.heap overload.params args) m.scopes final.scopes := by
  have spared :
      (Discipline.sparing _).Ends _ _ ((evaluator settings host bound).callUser overload args m) :=
    (Discipline.sparing_callUser has).ends (Discipline.sparing_united _)
  exact (spared.kept ended).2

theorem Machine.Aimed.sameScopes {reach : List Place} {m next : Machine}
    (inv : m.Aimed reach) (same : m.SameScopes next) : next.Aimed reach :=
  (Discipline.isolation_same inv same).1

theorem Reached.aimed {history : List Program} {interpreter : Interpreter}
    (reached : Reached history interpreter) : interpreter.machine.Aimed [] := by
  have placeless := reached.rested.places
  constructor
  · rw [placeless]
    exact List.nodup_nil
  · rw [placeless]
    exact nofun

theorem Reached.always {history : List Program} {interpreter : Interpreter}
    {asserted : Moment → Machine → Prop} (reached : Reached history interpreter) (program : Program)
    (holds : ∀ {reach moment m}, m.Aimed reach → (Discipline.isolation reach).Arises moment m →
      asserted moment m) :
    interpreter.Always program asserted := by
  intro bound final stopped
  have begun : (Run.begin interpreter.settings program interpreter.machine).Aimed [] :=
    reached.aimed.sameScopes ⟨rfl, rfl⟩
  have ends : (Discipline.isolation []).Ends _ _ (interpreter.checkedWork asserted bound program) :=
    (Discipline.isolation_statements (fun inv arises => assertion_holds (holds inv arises)) bound
      begun).ends (Discipline.isolation_united [])
  rw [stopped] at ends
  exact ends

/-- The arguments have places that a machine has. -/
def Machine.Offers (m : Machine) (args : List Arg) : Prop :=
  ∀ arg ∈ args, ∀ place, arg.place = some place → m.Has place

/-- Calls are isolated at a moment of a run. -/
structure CallsIsolated (settings : Settings) (host : Host) (moment : Moment) (m : Machine) :
    Prop where
  /-- A function is called with arguments that have their places on the machine. -/
  offered : ∀ overload args, moment = .call overload args → m.Offers args
  /-- Any call with such arguments, however it ends, leaves all scopes with the variables and values
  that they had, except for the values at places that its parameters were made to stand for. -/
  spared : ∀ bound overload args, m.Offers args → ∀ final,
    ((evaluator settings host bound).callUser overload args).EndsOn m final →
      ScopesKept (boundPlaces m.heap overload.params args) m.scopes final.scopes
  /-- On the copy of the current scope that a call begins with, every name reads as it does now. -/
  copied : ∀ parked, m.park = .ok parked → ∀ name, parked.readVariable name = m.readVariable name

/-- Calls are isolated at every moment of every run. -/
theorem calls_isolated {history : List Program} {interpreter : Interpreter}
    (reached : Reached history interpreter) (program : Program) :
    interpreter.Always program (CallsIsolated interpreter.settings interpreter.host) := by
  refine reached.always program fun inv arises => ⟨?_, ?_, ?_⟩
  · rintro overload args rfl arg among place taken frame key same
    exact ((arises.2 arg among).2 place taken frame key same).1
  · intro bound overload args offers final ended
    exact Evaluator.callUser_spares offers ended
  · intro parked done
    exact Machine.readVariable_park inv.distinct done

/-- A program whose subroutine writes through its parameter and then fails. -/
def failingTwice : Program :=
  .ofSource ("SUB Twice(REF x$)\nx$ = x$ & x$\nERROR \"e\"\nEND SUB\n" ++
      "a$ = \"u\"\nCALL Twice(a$)")

/-- A run of that program on a new interpreter, which fails within the call. -/
def failingRun : RunResult × Interpreter :=
  (Interpreter.new .empty {} .still).runWithin 40 failingTwice

/-- Calls are isolated in a run of that program after it has failed before. -/
theorem calls_isolated_after_failure :
    failingTwice.statements.length = 3 ∧ failingRun.1.isAwaiting = false ∧
      failingRun.2.Always failingTwice (CallsIsolated failingRun.2.settings failingRun.2.host) := by
  have parsed : failingTwice.statements.length = 3 := by decide +kernel
  have finished : failingRun.1.isAwaiting = false := by decide +kernel
  have ran : (Interpreter.new .empty {} .still).runWithin 40 failingTwice =
      (failingRun.1, failingRun.2) := (Prod.eta failingRun).symm
  exact ⟨parsed, finished, calls_isolated (.run (.new .empty {} .still) ran finished) failingTwice⟩

end MicroBasic
