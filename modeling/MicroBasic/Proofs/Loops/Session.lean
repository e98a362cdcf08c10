import MicroBasic.Proofs.Loops.Simulation

/-!
# Loops in a session

A session runs one program after another on the same interpreter, and code of an earlier program may
run in a later one: a function that is called, an accessor, a function bound to a value, a block
that waits. All of it keeps the pairs of its own program throughout. So every block is executed with
its own pairs in force, within exactly the loops around its place, and does what the tree does that
it is.
-/

namespace MicroBasic

variable {history : List Program} {interpreter : Interpreter} {program : Program}

namespace Machine.Coherent

variable {m : Machine}

theorem initial (world : World) : (Machine.initial world).Coherent [] :=
  ⟨rfl, .initial world, nofun⟩

theorem begin (coherent : m.Coherent history) (settings : Settings) (program : Program) :
    (Run.begin settings program m).Coherent (history ++ [program]) where
  pairings := by
    rw [Run.begin, coherent.pairings, List.map_append, List.map_singleton]
  carries :=
    (coherent.carries.mono fun _ issued => Issued.append issued _).same
      ⟨rfl, rfl, rfl, rfl, rfl, rfl⟩
  deferred block among := (coherent.deferred block among).append _

theorem finish (coherent : m.Coherent history) : (Run.finish m).Coherent history := by
  have flushed : m.flush.Coherent history := by
    unfold Machine.flush
    split
    · exact coherent.same ⟨rfl, rfl, rfl, rfl, rfl, rfl⟩ rfl fun _ among => among
    · exact coherent
  exact ⟨flushed.pairings, flushed.carries.withActivation nofun, flushed.deferred⟩

end Machine.Coherent

theorem Run.begin_issued {m : Machine} (coherent : m.Coherent history) (settings : Settings)
    (program : Program) :
    Issued (history ++ [program])
      (Run.begin settings program m).activation.loops program.statements := by
  refine ⟨program, ?_, .self⟩
  have last : m.pairings.length = history.length := by rw [coherent.pairings, List.length_map]
  show (history ++ [program])[m.pairings.length]? = some program
  rw [last, List.getElem?_concat_length]

theorem Discipline.Unstopped.statements {observe : Moment → Exec Unit} {settings : Settings}
    {m : Machine} {host : Host} (unstopped : Unstopped (history ++ [program]) observe)
    (honest : host.Honest) (parsed : ∀ known ∈ history ++ [program], known.IsParsed)
    (coherent : m.Coherent history) (bound : Nat) :
    (looping (history ++ [program])).Sound (Run.begin settings program m)
      ((looping (history ++ [program])).GoodEnd (looping (history ++ [program])).GoodSignal)
      (Run.statements (observedEvaluator observe settings host bound) program.statements)
      (Run.statements (structuredEvaluator settings host bound) program.statements) := by
  have issued := Run.begin_issued coherent settings program
  exact (unstopped.hooks honest parsed bound).statements_sound (looping_united _).1
    (looping_scoping _).toDraining ((looping_scoping _).registering _)
      (coherent.begin settings program) issued
    fun _ among _ held => issued.step among held

theorem Reached.coherent (reached : Reached history interpreter)
    (parsed : ∀ known ∈ history, known.IsParsed) (honest : interpreter.host.Honest) :
    interpreter.machine.Coherent history := by
  induction reached with
  | new host settings world => exact .initial world
  | @run history interpreter next bound program result earlier ran finished ih =>
    obtain ⟨final, rfl, ended⟩ := Interpreter.runWithin_finished ran finished
    have coherent := ih (fun known among => parsed known (List.mem_append_left _ among)) honest
    have ends :
        (Discipline.looping (history ++ [program])).Ends _ _ (interpreter.work bound program) :=
      ((Discipline.unstopped_of_silent _).statements honest parsed coherent bound).ends
        (Discipline.looping_united _)
    exact (ends.kept ended).1.finish
  | taken earlier ih =>
    exact (ih parsed honest).same ⟨rfl, rfl, rfl, rfl, rfl, rfl⟩ rfl fun _ among => among
  | limited settings earlier ih => exact ih parsed honest
  | moved world earlier ih =>
    exact (ih parsed honest).same ⟨rfl, rfl, rfl, rfl, rfl, rfl⟩ rfl fun _ among => among
  | reset earlier ih => exact .initial _

theorem Reached.always_looping {asserted : Moment → Machine → Prop}
    (reached : Reached history interpreter)
    (parsed : ∀ known ∈ history ++ [program], known.IsParsed) (honest : interpreter.host.Honest)
    (unstopped : Discipline.Unstopped (history ++ [program]) (assertion asserted)) :
    interpreter.Always program asserted := by
  intro bound final stopped
  have coherent :=
    reached.coherent (fun known among => parsed known (List.mem_append_left _ among)) honest
  have ends : (Discipline.looping (history ++ [program])).Ends _ _
      (interpreter.checkedWork asserted bound program) :=
    (unstopped.statements honest parsed coherent bound).ends (Discipline.looping_united _)
  rw [stopped] at ends
  exact ends

/-- A block does what the tree does that it is. -/
structure RunsAsTree (settings : Settings) (host : Host) (block : Block) (m : Machine) : Prop where
  /-- The loops of the tree are the ranges that the pairs in force give to its statements. -/
  pairs : m.bindings.Pairs block
  same : ∀ bound, (evaluator settings host bound).execBlock block m =
    (structuredEvaluator settings host bound).execTree block m
  unjumped : ∀ bound target final, (evaluator settings host bound).execBlock block m ≠
    .ok (.jump target) final

/-- Every block of a session, on any machine where all code keeps the pairs of its own program and
those of the block are in force, does what its tree does. Such are the machines on which blocks are
executed in every run. -/
theorem blocks_run_as_trees (reached : Reached history interpreter)
    (parsed : ∀ known ∈ history ++ [program], known.IsParsed) (honest : interpreter.host.Honest) :
    interpreter.Always program (fun moment machine => ∀ block place loops,
      moment = .place block place loops →
        machine.Coherent (history ++ [program]) ∧
          Issued (history ++ [program]) machine.activation.loops block) ∧
    ∀ settings machine block, machine.Coherent (history ++ [program]) →
      Issued (history ++ [program]) machine.activation.loops block →
        RunsAsTree settings interpreter.host block machine := by
  constructor
  · refine reached.always_looping parsed honest ⟨fun _ other => ?_, fun coherent issued _ _ => ?_⟩
    · refine assertion_holds ?_
      rintro block place loops rfl
      cases other
    · refine assertion_holds ?_
      rintro block place loops ⟨⟩
      exact ⟨coherent, issued⟩
  · intro settings machine block coherent issued
    have silent := Discipline.unstopped_of_silent (history ++ [program])
    have united := Discipline.looping_united (history ++ [program])
    have sound (bound : Nat) := @Discipline.Unstopped.execBlock _ block machine settings
      interpreter.host _ bound silent parsed (silent.hooks honest parsed bound) coherent issued
    refine ⟨coherent.pairs issued parsed, fun bound => (sound bound).same united, ?_⟩
    intro bound target final jumped
    have ends : (Discipline.looping (history ++ [program])).Ends machine _
        ((evaluator settings interpreter.host bound).execBlock block machine) :=
      (sound bound).ends united
    rw [jumped] at ends
    exact ends.2.2

/-- A program whose loops are nested and follow each other, one of them without any round, and whose
loops are left and continued from within other blocks. -/
def nestedLoops : Program :=
  .ofSource ("FOR I = 1 TO 3\nFOR J = 5 TO 1\nNEXT J\nFOR K = 1 TO 9\nIF K > I THEN\nEXIT FOR\nEND IF\n" ++
      "WHILE K = 1\nK = K + 1\nCONTINUE FOR\nEND WHILE\nNEXT K\nNEXT I")

/-- A run of that program does what its tree does. -/
theorem nested_loops_run_as_tree :
    nestedLoops.IsParsed ∧
      nestedLoops.statements.pairs =
        [{ forIndex := 0, nextIndex := 7 }, { forIndex := 1, nextIndex := 2 },
          { forIndex := 3, nextIndex := 6 }] ∧
      RunsAsTree {} .standard nestedLoops.statements
        (Run.begin {} nestedLoops (.initial .still)) := by
  have parsed : nestedLoops.IsParsed := Program.isParsed_ofSource (by decide +kernel)
  have all : ∀ known ∈ [] ++ [nestedLoops], known.IsParsed := by simp [parsed]
  have reached : Reached [] (.new .standard {} .still) := .new .standard {} .still
  have coherent := reached.coherent nofun Host.standard_honest
  refine ⟨parsed, by decide +kernel, ?_⟩
  exact (blocks_run_as_trees reached all Host.standard_honest).2 {} _ nestedLoops.statements
    (coherent.begin {} nestedLoops) (Run.begin_issued coherent {} nestedLoops)

/-- The loops of a block follow its statements, where it goes on at a place. -/
structure LoopsFollow (history : List Program) (settings : Settings) (host : Host) (block : Block)
    (place : Nat) (loops : List ActiveLoop) (m : Machine) : Prop where
  /-- The pairs in force are those of the program that the block is part of. -/
  issued : Issued history m.activation.loops block
  /-- They are the pairs of the tree that the block is. -/
  pairs : m.bindings.Pairs block
  /-- The loops that the block is in, outermost first, are those whose pairs are around the place.
  -/
  active : (loops.map ActiveLoop.binding).reverse = block.pairsAround place
  /-- However the statement at the place ends, the same pairs are in force again. -/
  restored : ∀ bound stmt final, block[place]? = some stmt →
    ((evaluator settings host bound).execStmt stmt loops).EndsOn m final →
      final.activation.loops = m.activation.loops
  /-- The statement at the place does not fail for want of a pair or a loop. -/
  paired : ∀ bound stmt error final, block[place]? = some stmt →
    (evaluator settings host bound).execStmt stmt loops m =
      .error (.broken (.error error)) final →
        error.fault ≠ .strayControl .unpairedLoop ∧ error.fault ≠ .strayControl .inactiveNext

theorem LoopsFollow.of_at {block : Block} {root : Folded} {place : Nat} {tree : Folded}
    {settings : Settings} {host : Host} {m : Machine} (honest : host.Honest)
    (parsed : ∀ known ∈ history, known.IsParsed)
    {frames : List Frame} (coherent : m.Coherent history)
    (issued : Issued history m.activation.loops block) (folds : block.fold = some root)
    (found : root.At place tree (frames.map Frame.toEnclosing)) :
    LoopsFollow history settings host block place (frames.map Frame.active) m := by
  have silent := Discipline.unstopped_of_silent history
  have united := Discipline.looping_united history
  have sound (bound : Nat) {stmt : Stmt} (stands : block[place]? = some stmt) :
      ∃ work, (Discipline.looping history).Sound m Discipline.Free
        ((evaluator settings host bound).execStmt stmt (frames.map Frame.active)) work :=
    (silent.walk (silent.hooks honest parsed bound)
      (fun known among => (parsed known among).isPaired)
      folds).execStmt_sound issued coherent found stands
  refine ⟨issued, coherent.pairs issued parsed, ?_, ?_, ?_⟩
  · unfold Block.pairsAround Block.pairs
    rw [folds]
    rw [found.pairs_around, List.map_map, List.map_map]
    rfl
  · intro bound stmt final stands ended
    obtain ⟨_, sound⟩ := sound bound stands
    exact ((sound.ends united).kept ended).2
  · intro bound stmt error final stands failed
    obtain ⟨_, sound⟩ := sound bound stands
    exact (sound.allows united failed).1

/-- Wherever a block goes on in a run of a session, its loops follow its statements, and no run
fails for want of a pair or a loop. -/
theorem loops_follow_statements (reached : Reached history interpreter)
    (parsed : ∀ known ∈ history ++ [program], known.IsParsed) (honest : interpreter.host.Honest) :
    interpreter.Always program (fun moment machine => ∀ block place loops,
      moment = .place block place loops →
        LoopsFollow (history ++ [program]) interpreter.settings interpreter.host block place loops
          machine) ∧
    ∀ bound error next, interpreter.runWithin bound program = (.failed error, next) →
      error.fault ≠ .strayControl .unpairedLoop ∧ error.fault ≠ .strayControl .inactiveNext := by
  constructor
  · refine reached.always_looping parsed honest
      ⟨fun _ other => ?_, fun coherent issued folds found => ?_⟩
    · refine assertion_holds ?_
      rintro block place loops rfl
      cases other
    · refine assertion_holds ?_
      rintro block place loops ⟨⟩
      exact .of_at honest parsed coherent issued folds found
  · intro bound error next failed
    have coherent :=
      reached.coherent (fun known among => parsed known (List.mem_append_left _ among))
      honest
    have united := Discipline.looping_united (history ++ [program])
    have sound : (Discipline.looping (history ++ [program])).Sound _ _
        (Run.statements (evaluator interpreter.settings interpreter.host bound) program.statements)
        _ :=
      (Discipline.unstopped_of_silent _).statements honest parsed coherent bound
    rcases Interpreter.runWithin_failure failed with ⟨final, ended | ended⟩ | ordinary
    · have ends : (Discipline.looping (history ++ [program])).Ends _ _
          (interpreter.work bound program) := sound.ends united
      rw [ended] at ends
      exact ends.2.2.1
    · exact (sound.allows united ended).1
    · exact @Discipline.looping_ordinary (history ++ [program]) _ ordinary

/-- A program that declares a function with nested loops. -/
def declaringLoops : Program :=
  .ofSource ("FUNCTION Sum(n)\ns = 0\nFOR I = 1 TO n\nFOR J = 1 TO I\ns = s + J\nNEXT J\nNEXT I\n" ++
      "RETURN s\nEND FUNCTION")

/-- A program with loops of its own, with statements of the same numbers, that calls the function.
-/
def callingLoops : Program :=
  .ofSource ("x = 0\nFOR K = 1 TO 2\nDEFER PRINT Sum(K)\nx = x + Sum(K)\nNEXT K\nPRINT x")

/-- The run of that program. -/
def declaringRun : RunResult × Interpreter :=
  (Interpreter.new .standard {} .still).runWithin 60 declaringLoops

/-- The loops of both programs follow their statements in a run of the second. -/
theorem loops_follow_across_programs :
    declaringLoops.IsParsed ∧ callingLoops.IsParsed ∧ declaringRun.1.isAwaiting = false ∧
      declaringRun.2.Always callingLoops (fun moment machine => ∀ block place loops,
        moment = .place block place loops →
          LoopsFollow
            ([declaringLoops] ++ [callingLoops]) declaringRun.2.settings declaringRun.2.host
            block place loops machine) ∧
      ∀ bound error next, declaringRun.2.runWithin bound callingLoops = (.failed error, next) →
        error.fault ≠ .strayControl .unpairedLoop ∧ error.fault ≠ .strayControl .inactiveNext := by
  have declares : declaringLoops.IsParsed := Program.isParsed_ofSource (by decide +kernel)
  have calls : callingLoops.IsParsed := Program.isParsed_ofSource (by decide +kernel)
  have all : ∀ known ∈ [declaringLoops] ++ [callingLoops], known.IsParsed := by
    simp [declares, calls]
  have finished : declaringRun.1.isAwaiting = false := by decide +kernel
  have ran : (Interpreter.new .standard {} .still).runWithin 60 declaringLoops =
      (declaringRun.1, declaringRun.2) := (Prod.eta declaringRun).symm
  refine ⟨declares, calls, finished, ?_⟩
  -- From here on only what is known of the run matters, not what it computes.
  generalize declaringRun.2 = next at ran ⊢
  have reached : Reached [declaringLoops] next := .run (.new .standard {} .still) ran finished
  have honest : next.host.Honest := by
    rw [Interpreter.host_runWithin ran]
    exact Host.standard_honest
  exact loops_follow_statements reached all honest

end MicroBasic
