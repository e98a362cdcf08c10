import MicroBasic.Proofs.Placement.Registered
import MicroBasic.Proofs.Transparency

/-!
# Declarations may stand anywhere

Where the declarations of a program stand among its other statements makes no difference to what is
seen of a run. A program and a rearranged one are both compared with the statements that are left
without declarations: the program comes to the end with no more statements than it had, and the
rearranged one does if it may pass by all its declarations before each of the other statements. Both
are compared as trees, whose loops are told without pairings, so it does not matter that the places
of the loops are other ones.
-/

namespace MicroBasic

open Discipline

namespace Run

variable (settings : Settings) (host : Host) (bound : Nat)

/-- Run a program whose statements may be executed up to a number of times, and the blocks they
deferred. Nested blocks and calls are evaluated within a bound of their own. -/
def rationed (block : Block) (fuel : Nat) : Exec Outcome := do
  let outcome ← Exec.attempt (do
    hoist block
    (evaluator settings host bound).execFrom block fuel 0 [])
  (evaluator settings host (bound + 1)).finishScope outcome

/-- Register the declarations of a block and execute a tree. -/
def executing (block : Block) (tree : Folded) (fuel : Nat) : Exec Signal := do
  hoist block
  let ended ← (structuredEvaluator settings host bound).runTree tree fuel
  return ended.1

/-- Run a program as a tree, with the blocks it deferred. -/
def throughTree (block : Block) (tree : Folded) (fuel : Nat) : Exec Outcome := do
  let outcome ← Exec.attempt (executing settings host bound block tree fuel)
  (structuredEvaluator settings host (bound + 1)).finishScope outcome

variable {settings host bound}

theorem statements_eq_rationed {block : Block} :
    Run.statements (evaluator settings host (bound + 1)) block =
      rationed settings host bound block (bound - 1) := by
  have fuel : (evaluator settings host bound).fuel = bound - 1 := observedEvaluator_fuel ..
  rw [← fuel]
  rfl

theorem rationed_eq_throughTree {tree : Folded} {fuel : Nat} {program : Program} {world : World}
    (isPaired : program.IsPaired) (honest : host.Honest)
    (folds : program.statements.fold = some tree) :
    rationed settings host bound program.statements fuel
      (Run.begin settings program (.initial world)) =
      throughTree settings host bound program.statements tree fuel
        (Run.begin settings program (.initial world)) := by
  have known : ∀ other ∈ [program], other.IsPaired :=
    fun _ among => List.mem_singleton.mp among ▸ isPaired
  have silent := unstopped_of_silent [program]
  have hooks (bound : Nat) := @Unstopped.pairedHooks _ settings _ _ silent honest known bound
  have inv := (Machine.Coherent.initial world).begin settings program
  have issued := Run.begin_issued (.initial world) settings program
  have registering := (looping_scoping [program]).registering program.statements
  have executed : (looping [program]).Sound (Run.begin settings program (.initial world))
      (looping [program]).GoodSignal
      (do
        hoist program.statements
        (evaluator settings host bound).execFrom program.statements fuel 0 [])
      (executing settings host bound program.statements tree fuel) := by
    refine ((hooks bound).hoist registering inv fun _ among _ held => issued.step among held).bind
      fun _ final inv step _ => ?_
    have issued := (looping [program]).code_step step issued
    have start : tree.At 0 tree (([] : List Frame).map Frame.toEnclosing) := .root
    exact (silent.walk (hooks bound) known folds).inStep fuel inv issued start nofun
  have ran : (looping [program]).Sound (Run.begin settings program (.initial world))
      ((looping [program]).GoodEnd (looping [program]).GoodSignal)
      (rationed settings host bound program.statements fuel >>= pure)
      (throughTree settings host bound program.statements tree fuel >>= pure) := by
    unfold rationed throughTree
    simp only [bind_assoc]
    refine Agree.attempt (.refl _) executed (fun outcome final kept step good => ?_) fun _ differ =>
      differ.elim
    refine Agree.finishScope (.refl _) (hooks (bound + 1))
      (looping_scoping [program]).toDraining kept good
      (fun outcome last kept later good => ?_) fun differ => differ.elim
    exact (Sound.pure kept good : (looping [program]).Sound last _ (pure outcome) _).after
      ((looping [program]).step_trans step later)
  simp only [bind_pure] at ran
  exact ran.same (looping_united _)

theorem exists_statements_eq_rationed {block : Block} {fuel : Nat} {m : Machine}
    (ended : ∀ final, rationed settings host bound block fuel m ≠ .error (.awaiting .fuel) final) :
    ∃ higher, Run.statements (evaluator settings host higher) block m =
      rationed settings host bound block fuel m := by
  let lower (i : Bool) : Nat := cond i (max bound (fuel + 1)) bound
  let upper (i : Bool) : Nat := lower i + 1
  let fuels (i : Bool) : Nat := cond i (max bound (fuel + 1) - 1) fuel
  have room : lower false ≤ lower true := Nat.le_max_left _ _
  have counting : Counting .never (fun _ _ => return)
      (fun _ => settings) host settings.maxCallDepth (fun _ => True) :=
    .alike (fun _ _ => trivial) (fun _ _ _ => trivial) fun _ _ => rfl
  have setting := @Counting.setting _ _ _ _ _ _ lower counting room
  have serves := @Counting.serves _ _ _ _ _ _ lower counting room
  have hooks := @Counting.hooks _ _ _ _ _ _ upper counting (Nat.succ_le_succ room)
  have enough : fuels false ≤ fuels true := by
    have larger : fuel + 1 ≤ max bound (fuel + 1) := Nat.le_max_right _ _
    show fuel ≤ max bound (fuel + 1) - 1
    omega
  have executed : (paired .never).Keeps m (fun i => do
      hoist block
      (duo (fun _ _ => return) (fun _ => settings) host lower i).execFrom block (fuels i) 0 []) :=
    Concord.Keeps.hoist.bind fun _ next _ =>
      (setting.execFrom serves (fun _ _ _ => trivial) enough 0 [] trivial).keeps
  have ran : (paired .never).Holds m (fun _ => m.Framed) (fun _ _ => True) _ :=
    hooks.scope trivial (executed.within (.refl m))
  refine ⟨lower true + 1, ?_⟩
  rcases ran.compared with ⟨final, fuel⟩ | ⟨same, _⟩ | ⟨i, met, stopped, _⟩
  · exact absurd fuel (ended final)
  · rw [statements_eq_rationed]
    exact same.symm
  · have ends := ran.ends i
    rw [stopped] at ends
    cases ends with
    | stopped never => exact never.elim

section Rearranged

variable {program other : Program} {tree tree' : Folded} {A : Allowance} {full bare : Nat}
    {world : World}
  (isPaired : program.IsPaired) (honest : host.Honest) (unlimited : settings.maxSteps = none)
  (rearranges : program.statements.Rearranges other.statements)
  (folds : program.statements.fold = some tree)
  (folds' : other.statements.fold = some tree') (fits : A.Fits tree'.declarations)
  (covers : A.Covers tree'.declarations full bare)

include isPaired honest unlimited rearranges folds folds' fits covers

/-- A rearranged program executes its statements as the program does without its declarations. -/
theorem executing_follows :
    A.Exceeded (executing settings host bound other.statements tree' full
      (Run.begin settings other (.initial world)))
        (executing settings host bound program.statements tree.pruned bare
          (Run.begin settings program (.initial world))) ∨
      ∃ later, executing settings host bound other.statements tree' full
        (Run.begin settings other (.initial world)) = (Shift.mk [other.bindings] later).result
          (executing settings host bound program.statements tree.pruned bare
            (Run.begin settings program (.initial world))) := by
  have ends := @hoist_ends program settings host isPaired honest world
  have issued := Run.begin_issued (.initial world) settings program
  have within : ∀ stmt ∈ tree'.statements, stmt ∈ program.statements := by
    rw [← Block.statements_fold folds']
    exact fun stmt => rearranges.perm.mem_iff.mp
  unfold executing
  have begun : Run.begin settings other (.initial world) =
      (Shift.mk [other.bindings] 0).machine (Run.begin settings program (.initial world)) := rfl
  rw [hoist_of_rearranges rearranges, begun, ← rearranges.pruned folds folds']
  generalize Run.begin settings program (.initial world) = m at *
  have same : hoist program.statements ((Shift.mk [other.bindings] 0).machine m) =
      (Shift.mk [other.bindings] 0).result (hoist program.statements m) :=
    (Shift.mk [other.bindings] 0).congruence.hoist program.statements m
  cases done : hoist program.statements m with
  | ok value next =>
    rw [done] at same ends
    have registers : next.Registers program :=
      ⟨⟨ends.1, noted_of_hoist done⟩, (looping [program]).code_step ends.2.1 issued⟩
    rw [Exec.bind_of_ok same, Exec.bind_of_ok done]
    have covers : A.Covers (0 + tree'.declarations) full bare := by rwa [Nat.zero_add]
    have attuned := isPaired.attuned honest unlimited bound
    rcases attuned.runTree within fits registers covers with exceeded | ⟨later, left, same, _⟩
    · exact .inl exceeded.bind
    · refine .inr ⟨later, ?_⟩
      simp only [Bind.bind, EStateM.bind, same, Functor.map, EStateM.map]
      cases (structuredEvaluator settings host bound).runTree tree'.pruned bare next <;> rfl
  | error escape final =>
    rw [done] at same
    refine .inr ⟨0, ?_⟩
    simp only [Bind.bind, EStateM.bind, same, done]
    rfl

theorem throughTree_follows :
    A.Exceeded (throughTree settings host bound other.statements tree' full
      (Run.begin settings other (.initial world)))
        (throughTree settings host bound program.statements tree.pruned bare
          (Run.begin settings program (.initial world))) ∨
      ∃ later, throughTree settings host bound other.statements tree' full
        (Run.begin settings other (.initial world)) = (Shift.mk [other.bindings] later).result
          (throughTree settings host bound program.statements tree.pruned bare
            (Run.begin settings program (.initial world))) := by
  rcases @executing_follows settings host bound program other tree tree' A full bare world
    isPaired honest unlimited rearranges folds folds' fits covers with exceeded | ⟨later, same⟩
  · exact .inl exceeded.attempt.bind
  · refine .inr ⟨later, ?_⟩
    have E := (Shift.mk [other.bindings] later).evaluates_structured host unlimited (bound + 1)
    simp only [throughTree, Bind.bind, EStateM.bind, Exec.attempt, same]
    cases executing settings host bound program.statements tree.pruned bare
      (Run.begin settings program (.initial world)) with
    | ok signal next => exact E.finishScope (.ok signal) next
    | error escape next =>
      cases escape with
      | broken cause => exact E.finishScope (.error cause) next
      | _ => rfl

end Rearranged

end Run

/-- What is seen of a run: its result, the lines printed, the variables with the arrays and records
that they refer to, and the world outside. -/
structure Sight where
  result : RunResult
  outputs : List String
  globals : List (String × Value)
  heap : Heap
  world : World

/-- What is seen of a run with a result that leaves an interpreter. -/
def Sight.of (ran : RunResult × Interpreter) : Sight where
  result := ran.1
  outputs := ran.2.outputs
  globals := ran.2.globals
  heap := ran.2.machine.heap
  world := ran.2.world

/-- A run of a program comes to its end, and this is seen of it. -/
def Interpreter.Shows (interpreter : Interpreter) (program : Program) (sight : Sight) : Prop :=
  ∃ result next, interpreter.Finishes program result next ∧ Sight.of (result, next) = sight

theorem Sight.of_shift {s : Shift} {interpreter : Interpreter}
    {result : EStateM.Result Escape Machine Outcome} :
    Sight.of (interpreter.conclude (s.result result)) = Sight.of (interpreter.conclude result) := by
  have flushed (m : Machine) : (s.machine m).flush = s.machine m.flush := by
    unfold Machine.flush
    rw [apply_ite s.machine]
    rfl
  have finished (m : Machine) : Run.finish (s.machine m) = s.machine (Run.finish m) := by
    unfold Run.finish
    rw [flushed]
    rfl
  have same (before : Nat) (m : Machine) (outcome : Outcome) :
      Run.resultOf before (s.machine m) outcome = Run.resultOf before m outcome := rfl
  match result with
  | .ok outcome final =>
    simp only [Shift.result, Interpreter.conclude, finished, same]
    rfl
  | .error (.broken cause) final =>
    simp only [Shift.result, Interpreter.conclude, finished, same]
    rfl
  | .error (.awaiting what) final | .error .stopped final => rfl

section Rearranged

variable {program other : Program} {settings : Settings} {host : Host} {world : World}
    (isPaired : program.IsPaired)
  (isPaired' : other.IsPaired) (rearranges : program.statements.Rearranges other.statements)
  (honest : host.Honest)
  (unlimited : settings.maxSteps = none)

include isPaired isPaired' rearranges honest unlimited

theorem Interpreter.exists_work_rearranged {bound : Nat}
    (ended : ∀ final, (Interpreter.new host settings world).work bound program ≠
      .error (.awaiting .fuel) final) :
    ∃ higher result ahead aheadOther, (Interpreter.new host settings world).work bound program =
        (Shift.mk [program.bindings] ahead).result result ∧
      (Interpreter.new host settings world).work higher other =
        (Shift.mk [other.bindings] aheadOther).result result := by
  obtain ⟨tree, folds, _⟩ := isPaired.pairs .self
  obtain ⟨tree', folds', _⟩ := isPaired'.pairs .self
  have raised : (Interpreter.new host settings world).work bound program =
      Run.throughTree settings host bound program.statements tree (bound - 1)
        (Run.begin settings program (.initial world)) := by
    rw [← Interpreter.work_raised (Nat.le_succ bound) ended,
      ← Run.rationed_eq_throughTree isPaired honest folds, ← Run.statements_eq_rationed]
    rfl
  -- The program has no more to execute than it has without its declarations.
  have bare :=
    @Run.throughTree_follows settings host bound program program tree tree .equal (bound - 1)
    (bound - 1) world isPaired honest unlimited (.refl _) folds folds trivial (Nat.le_refl _)
  rw [← raised] at bare
  obtain ⟨ahead, same⟩ : ∃ ahead, _ := bare.resolve_left fun ⟨final, fuel⟩ => ended final fuel
  -- The rearranged program has enough for all its declarations before each other statement.
  have full := @Run.throughTree_follows settings host bound program other tree tree'
    (.generous tree'.declarations) _ (bound - 1) world isPaired honest unlimited rearranges folds
    folds' (Nat.le_refl _) (Nat.le_refl _)
  obtain ⟨aheadOther, same'⟩ : ∃ aheadOther, _ := by
    refine full.resolve_left fun ⟨final, fuel⟩ => ?_
    rw [fuel] at same
    exact ended _ same
  rw [← Run.rationed_eq_throughTree isPaired' honest folds'] at same'
  obtain ⟨higher, ran⟩ := @Run.exists_statements_eq_rationed settings host bound other.statements _
    (Run.begin settings other (.initial world)) fun final fuel => by
      obtain ⟨before, fuel⟩ := Shift.awaits_of_result (same'.symm.trans fuel)
      rw [fuel] at same
      exact ended _ same
  exact ⟨higher, _, ahead, aheadOther, same, ran.trans same'⟩

theorem Interpreter.Shows.rearranged {sight : Sight}
    (seen : (Interpreter.new host settings world).Shows program sight) :
    (Interpreter.new host settings world).Shows other sight := by
  obtain ⟨result, next, ⟨finished, least, ran⟩, rfl⟩ := seen
  have ran := ran least (Nat.le_refl least)
  rw [runWithin_eq] at ran
  have ended (final : Machine) :
      (Interpreter.new host settings world).work least program ≠
          .error (.awaiting .fuel) final := by
    intro fuel
    rw [fuel] at ran
    cases ran
    cases finished
  obtain ⟨higher, common, ahead, aheadOther, same, same'⟩ :=
    exists_work_rearranged isPaired isPaired'
    rearranges honest unlimited ended
  have sight : Sight.of ((Interpreter.new host settings world).runWithin higher other) =
      Sight.of (result, next) := by
    rw [runWithin_eq, same', Sight.of_shift, ← ran, same, Sight.of_shift]
  obtain ⟨result', next', ran'⟩ : ∃ result' next',
      (Interpreter.new host settings world).runWithin higher other = (result', next') :=
    ⟨_, _, (Prod.eta _).symm⟩
  rw [ran'] at sight
  have alike : result' = result := congrArg Sight.result sight
  exact ⟨result', next', .of_runWithin ran' (alike ▸ finished), sight⟩

end Rearranged

/-- Where the declarations of a program stand among its statements makes no difference. Let the
statements of a parsed program be rearranged, with the declarations in the order in which they were
and the other statements in the order in which they were. Then the loops can be paired again, and on
a fresh interpreter without a budget of statements the rearranged program comes to its end if and
only if the program does, with the same result, the same output and the same variables. -/
theorem declarations_stand_anywhere {program : Program} (parsed : program.IsParsed) {others : Block}
    (rearranges : program.statements.Rearranges others) {host : Host} (honest : host.Honest)
    {settings : Settings} (unlimited : settings.maxSteps = none) (world : World) :
    ∃ bindings, others.pairing = .ok bindings ∧
      ∀ sight, (Interpreter.new host settings world).Shows program sight ↔
        (Interpreter.new host settings world).Shows { statements := others, bindings } sight := by
  have isPaired := parsed.isPaired
  obtain ⟨bindings, paired⟩ := rearranges.exists_pairing isPaired.2
  have isPairedOther : Program.IsPaired { statements := others, bindings } :=
    ⟨rearranges.nodup_ids isPaired.1, paired⟩
  refine ⟨bindings, paired, fun sight => ⟨fun seen => ?_, fun seen => ?_⟩⟩
  · exact seen.rearranged isPaired isPairedOther rearranges honest unlimited
  · exact seen.rearranged isPairedOther isPaired rearranges.symm honest unlimited

/-- A program with a declaration in a loop that is called there, and with another one behind the
loop. -/
def scatteredDeclarations : Program :=
  .ofSource ("FOR I = 1 TO 2\nSUB Show(x)\nPRINT x\nEND SUB\nShow(\"a\")\nNEXT I\n" ++
      "TYPE Point\nx AS NUMBER\nEND TYPE\nEND")

/-- The run of that program. -/
def scatteredRun : RunResult × Interpreter :=
  (Interpreter.new .standard {} .still).runWithin 30 scatteredDeclarations

/-- The program prints what it prints with both declarations before the loop. -/
theorem scattered_declarations_gathered :
    scatteredDeclarations.IsParsed ∧
      scatteredDeclarations.statements.map Stmt.isDeclaration =
        [false, true, false, false, true, false] ∧
      (∃ sight, (Interpreter.new .standard {} .still).Shows scatteredDeclarations sight ∧
        sight.outputs = ["a", "a"]) ∧
      ∃ bindings, scatteredDeclarations.statements.gathered.pairing = .ok bindings ∧
        ∀ sight, (Interpreter.new .standard {} .still).Shows scatteredDeclarations sight ↔
          (Interpreter.new .standard {} .still).Shows
            { statements := scatteredDeclarations.statements.gathered, bindings } sight := by
  have parsed : scatteredDeclarations.IsParsed := Program.isParsed_ofSource (by decide +kernel)
  have kinds : scatteredDeclarations.statements.map Stmt.isDeclaration =
      [false, true, false, false, true, false] := by decide +kernel
  have finished : scatteredRun.1.isAwaiting = false := by decide +kernel
  have printed : scatteredRun.2.outputs = ["a", "a"] := by decide +kernel
  have ran : (Interpreter.new .standard {} .still).runWithin 30 scatteredDeclarations =
      (scatteredRun.1, scatteredRun.2) := (Prod.eta scatteredRun).symm
  refine ⟨parsed, kinds, ?_, ?_⟩
  · -- From here on only what is known of the run matters, not what it computes.
    generalize scatteredRun.1 = result at finished ran
    generalize scatteredRun.2 = next at printed ran
    exact ⟨Sight.of (result, next), ⟨result, next, .of_runWithin ran finished, rfl⟩, printed⟩
  · exact declarations_stand_anywhere parsed (Block.rearranges_gathered _) Host.standard_honest
      rfl .still

end MicroBasic
