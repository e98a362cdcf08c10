import MicroBasic.Proofs.Budget
import MicroBasic.Proofs.Concord.Observed

/-!
# A budget of statements only cuts runs off

Two runs of one program with different budgets go on together until the smaller one is exhausted. A
run that comes to its end before is the run with any larger budget. Otherwise nothing is printed
from then on by the one, and the other one goes on from the same machine: what has been printed up
to there is the beginning of all that it prints.
-/

namespace MicroBasic

theorem intercalate_begins {sep text more : List Char} {rest : List (List Char)}
    (lines : List (List Char)) :
    sep.intercalate (lines ++ [text]) <+: sep.intercalate (lines ++ (text ++ more) :: rest) := by
  induction lines with
  | nil =>
    cases rest with
    | nil => exact ⟨more, by simp⟩
    | cons line rest =>
      refine ⟨more ++ sep ++ sep.intercalate (line :: rest), ?_⟩
      simp [List.intercalate_cons_cons]
  | cons line lines ih =>
    have further (other : List Char) (others : List (List Char)) :
      sep.intercalate (line :: lines ++ other :: others) =
          line ++ sep ++ sep.intercalate (lines ++ other :: others) :=
      List.intercalate_cons_of_ne_nil
        (List.append_ne_nil_of_right_ne_nil lines (List.cons_ne_nil other others))
    rw [further, further]
    exact (List.prefix_append_right_inj _).mpr ih

theorem intercalate_begins_append {sep : List Char} (lines rest : List (List Char)) :
    sep.intercalate lines <+: sep.intercalate (lines ++ rest) := by
  rcases List.eq_nil_or_concat lines with rfl | ⟨others, last, rfl⟩
  · exact List.nil_prefix
  · have begins := @intercalate_begins sep last [] rest others
    rw [List.append_nil] at begins
    rw [List.concat_eq_append, List.append_assoc]
    exact begins

theorem Machine.lines_flush (m : Machine) : m.flush.console.lines.toList =
      m.console.lines.toList ++ m.console.pending.toList := by
  unfold flush
  cases begun : m.console.pending with
  | none => simp
  | some text => simp [writeLine, begun]

/-- The text of the lines after some. -/
def textAfter (before : Nat) (lines : List String) : List Char :=
  ("\n".intercalate (lines.drop before)).toList

variable {before bound higher : Nat}

theorem textAfter_begins {lines rest : List String} (earlier : before ≤ lines.length)
    (text more : String) :
    textAfter before (lines ++ [text]) <+: textAfter before (lines ++ (text ++ more) :: rest) := by
  simp only [textAfter, String.toList_intercalate, List.drop_append_of_le_length earlier,
    List.map_append, List.map_cons, List.map_nil, String.toList_append]
  exact intercalate_begins _

theorem textAfter_begins_append {lines : List String} (earlier : before ≤ lines.length)
    (rest : List String) : textAfter before lines <+: textAfter before (lines ++ rest) := by
  simp only [textAfter, String.toList_intercalate, List.drop_append_of_le_length earlier,
    List.map_append]
  exact intercalate_begins_append _ _

theorem Console.Leads.text_begins {first second : Machine}
    (leads : first.console.Leads second.console)
    (earlier : before ≤ first.console.lines.toList.length) :
    textAfter before first.flush.console.lines.toList <+: textAfter before
      second.flush.console.lines.toList := by
  rw [first.lines_flush, second.lines_flush]
  cases leads with
  | pending same onward =>
    rw [same]
    cases begun : first.console.pending with
    | none =>
      rw [Option.toList_none, List.append_nil]
      exact textAfter_begins_append earlier _
    | some text =>
      obtain ⟨more, begun⟩ := onward text begun
      rw [begun]
      exact textAfter_begins earlier text more
  | lines text rest added =>
    rw [added, List.append_assoc]
    cases begun : first.console.pending with
    | none =>
      rw [Option.toList_none, List.append_nil]
      exact textAfter_begins_append earlier _
    | some start => exact textAfter_begins earlier start text

/-- An interpreter with another budget of statements. -/
def Interpreter.budgeted (interpreter : Interpreter) (maxSteps : Option Nat) : Interpreter :=
  interpreter.withSettings { interpreter.settings with maxSteps }

/-- A run comes to its end: within all bounds from some one on it has the same result and leaves the
same interpreter. -/
def Interpreter.Finishes (interpreter : Interpreter) (program : Program) (result : RunResult)
    (next : Interpreter) : Prop :=
  result.isAwaiting = false ∧ ∃ least, ∀ bound, least ≤ bound →
    interpreter.runWithin bound program = (result, next)

theorem Interpreter.work_raised {program : Program} {interpreter : Interpreter}
    (room : bound ≤ higher)
    (ended : ∀ final, interpreter.work bound program ≠ .error (.awaiting .fuel) final) :
    interpreter.work higher program = interpreter.work bound program := by
  let bounds : Bool → Nat
    | false => bound
    | true => higher
  have counting :
    Counting .never (fun _ _ => return) (fun _ => interpreter.settings) interpreter.host
      interpreter.settings.maxCallDepth (fun _ => True) :=
    .alike (fun _ _ => trivial) (fun _ _ _ => trivial) fun _ _ => rfl
  have hooks := @Counting.hooks _ _ _ _ _ _ bounds counting room
  have ran : (paired .never).Holds (Run.begin interpreter.settings program interpreter.machine)
      (fun _ final => (Run.begin interpreter.settings program interpreter.machine).Stays final ∧
        final.activation.deferred = []) (fun _ _ => True)
      (fun i => interpreter.work (bounds i) program) :=
    hooks.statements trivial
  rcases ran.compared with ⟨final, fuel⟩ | ⟨same, _⟩ | ⟨i, met, stopped, _⟩
  · exact absurd fuel (ended final)
  · exact same.symm
  · have ends := ran.ends i
    rw [stopped] at ends
    cases ends with
    | stopped never => exact never.elim

theorem Interpreter.Finishes.of_runWithin {program : Program} {result : RunResult}
    {interpreter next : Interpreter}
    (ran : interpreter.runWithin bound program = (result, next))
    (finished : result.isAwaiting = false) : interpreter.Finishes program result next := by
  refine ⟨finished, bound, fun higher room => ?_⟩
  rw [runWithin_eq] at ran ⊢
  rw [work_raised room, ran]
  intro final fuel
  rw [fuel] at ran
  cases ran
  cases finished

/-- The first of two works may be stopped. -/
def Stopping.first : Stopping where
  Stops i _ _ := i = false
  stops_before _ first := first

section Narrow

variable {settings : Settings} {limit : Nat} {larger : Option Nat} {host : Host}

/-- The observers of a run that is stopped where its budget is exhausted, and of one that goes on.
-/
noncomputable def cutting (limit : Nat) : Bool → Moment → Exec Unit
  | false => assertion (Unexhausted (.stepBudget limit))
  | true => fun _ => return

/-- Settings with a budget, and with a larger one or none. -/
def Settings.widened (settings : Settings) (limit : Nat) (larger : Option Nat) : Bool → Settings
  | false => { settings with maxSteps := some limit }
  | true => { settings with maxSteps := larger }

theorem cutting_passes {moment : Moment} {i : Bool} {m : Machine}
    (other : moment ≠ .exhausted (.stepBudget limit)) : cutting limit i moment m = .ok () m := by
  cases i with
  | false => exact assertion_holds other
  | true => rfl

section

variable (within : ∀ other, larger = some other → limit ≤ other)

include within

theorem cutting_tick {m : Machine} {bounds : Bool → Nat} :
    (paired .first).Holds m (fun _ final => m.Onward final ∧ True)
      (fun cause final => m.Onward final ∧ cause.isFatal = true)
      (fun i => (duo (cutting limit) (settings.widened limit larger) host bounds i).tick m) := by
  have calm := Machine.Calm.counted m
  by_cases spent : limit ≤ m.steps
  · have stopped : (duo (cutting limit) (settings.widened limit larger) host bounds false).tick m =
        .error .stopped m.counted := by
      rw [Evaluator.tick_exhausts (by rw [duo_settings]; rfl) spent]
      refine Evaluator.exhaust_stopped ?_
      rw [duo_observe]
      exact assertion_fails fun other => other rfl
    have goesOn {start : Machine} (grows : start.Grows m.counted) :
        ((Stopping.first).manner true).Ends start (fun _ final => m.Onward final ∧ True)
          (fun cause final => m.Onward final ∧ cause.isFatal = true)
          ((duo (cutting limit) (settings.widened limit larger) host bounds true).tick m) := by
      rcases (settings.widened limit larger true).affords_or m with
        affords | ⟨other, limited, exceeded⟩
      · rw [Evaluator.tick_afforded (by rw [duo_settings]; exact affords)]
        exact .value grows ⟨calm.toOnward, trivial⟩
      · rw [Evaluator.tick_exhausts (by rw [duo_settings]; exact limited) exceeded,
          Evaluator.exhaust_passed (by rw [duo_observe]; rfl)]
        exact .broken grows ⟨calm.toOnward, rfl⟩
    refine ⟨fun i => ?_, .inr (.inr ⟨false, m.counted, stopped, calm.toGrows, ?_⟩)⟩
    · cases i with
      | false =>
        rw [stopped]
        exact .stopped rfl
      | true => exact goesOn calm.toGrows
    · exact (goesOn (.refl _)).weaken (fun _ _ _ => trivial) fun _ _ _ => trivial
  · have affords (i : Bool) : (settings.widened limit larger i).Affords m := by
      intro other limited
      cases i with
      | false =>
        cases limited
        exact Nat.lt_of_not_le spent
      | true => exact Nat.lt_of_lt_of_le (Nat.lt_of_not_le spent) (within other limited)
    have ticked (i : Bool) := @Evaluator.tick_afforded
      (duo (cutting limit) (settings.widened limit larger) host bounds i) m
      (by rw [duo_settings]; exact affords i)
    simp only [ticked]
    exact .same (fun _ => .value calm.toGrows ⟨calm.toOnward, trivial⟩) nofun

theorem cutting_counting :
    Counting .first (cutting limit)
      (settings.widened limit larger) host settings.maxCallDepth (fun _ => True) where
  limits i := by cases i <;> rfl
  stable _ _ := trivial
  enters _ _ _ := trivial
  quiet _ quiet := by
    refine cutting_passes fun same => ?_
    rw [same] at quiet
    cases quiet
  depth _ := cutting_passes nofun
  tick _ := cutting_tick within
  counts stmt _ := Concord.counts_of_tick (cutting_tick within) fun i next _ => by
    rw [duo_observe]
    exact cutting_passes nofun

end

end Narrow

variable {interpreter : Interpreter} {program : Program} {limit : Nat} {larger : Option Nat}

theorem Interpreter.conclude_budgeted {other : Option Nat}
    (ended : EStateM.Result Escape Machine Outcome) :
    (interpreter.budgeted larger).conclude ended = (((interpreter.budgeted other).conclude ended).1,
        ((interpreter.budgeted other).conclude ended).2.budgeted larger) := by
  match ended with
  | .ok _ _ | .error (.broken _) _ | .error (.awaiting _) _ | .error .stopped _ => rfl

theorem Interpreter.work_of_exhausted {met : Machine}
    (meets : interpreter.checkedWork (Unexhausted (.stepBudget limit)) bound program =
      .error .stopped met) :
    ∃ error final, error.fault = .stepBudget limit ∧ final.console = met.console ∧
      interpreter.runWithin bound program =
        (.failed error, { interpreter with machine := Run.finish final }) := by
  obtain ⟨escape, now, spent, ended⟩ := spent_of_exhausted rfl meets
  have silent : now.beyondScopes.console = met.beyondScopes.console := by rw [spent.frozen.rest]
  rcases spent.ending with ⟨error, rfl, cause⟩ | ⟨⟨_, other⟩, _⟩
  · refine ⟨error, now, cause, silent, runWithin_failed ?_⟩
    rcases interpreter.checkedWork_eq (Uncleaned (.stepBudget limit)) bound program with
      ⟨final, stopped⟩ | same
    · rw [stopped] at ended
      rcases ended with other | ⟨_, _, other⟩ <;> cases other
    · rw [same] at ended
      refine ended.imp_right ?_
      rintro ⟨_, broken, done⟩
      cases broken
      exact done
  · cases other

theorem Console.Leads.length_le {first second : Console} (leads : first.Leads second) :
    first.lines.toList.length ≤ second.lines.toList.length := by
  cases leads with
  | pending same _ => exact Nat.le_of_eq (by rw [same])
  | lines text rest added =>
    rw [added, List.length_append]
    exact Nat.le_add_right ..

section

variable (within : ∀ other, larger = some other → limit ≤ other) (room : bound ≤ higher)

include within room

/-- A run that is stopped where its budget is exhausted, beside one with a larger budget and a
larger bound: they are the same, unless the first is stopped and the other one goes on from there.
-/
theorem Interpreter.cutting_works :
    (∃ final, (interpreter.budgeted (some limit)).checkedWork
      (Unexhausted (.stepBudget limit)) bound program = .error (.awaiting .fuel) final) ∨
    (interpreter.budgeted (some limit)).checkedWork
      (Unexhausted (.stepBudget limit)) bound program =
      (interpreter.budgeted larger).work higher program ∨
    ∃ met, (interpreter.budgeted (some limit)).checkedWork (Unexhausted (.stepBudget limit)) bound
        program = .error .stopped met ∧
      (Run.begin interpreter.settings program interpreter.machine).Grows met ∧
      (Stopping.first.manner true).Ends met (fun _ _ => True) (fun _ _ => True)
        ((interpreter.budgeted larger).work higher program) := by
  let bounds : Bool → Nat
    | false => bound
    | true => higher
  have hooks := @Counting.hooks _ _ _ interpreter.host _ _ bounds
    (@cutting_counting interpreter.settings limit larger interpreter.host within) room
  have ran : (paired .first).Holds (Run.begin interpreter.settings program interpreter.machine)
      (fun _ final => (Run.begin interpreter.settings program interpreter.machine).Stays final ∧
        final.activation.deferred = []) (fun _ _ => True)
      (fun i => Run.statements (duo (cutting limit) (interpreter.settings.widened limit larger)
        interpreter.host bounds i) program.statements
        (Run.begin interpreter.settings program interpreter.machine)) :=
    hooks.statements trivial
  rcases ran.compared with fuel | ⟨same, _⟩ | ⟨i, met, stopped, grows, later⟩
  · exact .inl fuel
  · exact .inr (.inl same)
  · cases i with
    | false => exact .inr (.inr ⟨met, stopped, grows, later⟩)
    | true =>
      have ends := ran.ends true
      rw [stopped] at ends
      cases ends with
      | stopped first => cases first

theorem Interpreter.runWithin_of_unexhausted {result : RunResult} {next : Interpreter}
    (ran : (interpreter.budgeted (some limit)).runWithin bound program = (result, next))
    (finished : result.isAwaiting = false)
    (unexhausted : ∀ met, (interpreter.budgeted (some limit)).checkedWork
      (Unexhausted (.stepBudget limit)) bound program ≠ .error .stopped met) :
    (interpreter.budgeted larger).runWithin higher program = (result, next.budgeted larger) := by
  have looking :
    (interpreter.budgeted (some limit)).checkedWork (Unexhausted (.stepBudget limit)) bound
      program = (interpreter.budgeted (some limit)).work bound program := by
    rcases (interpreter.budgeted (some limit)).checkedWork_eq
      (Unexhausted (.stepBudget limit)) bound program with ⟨met, stopped⟩ | same
    · exact absurd stopped (unexhausted met)
    · exact same
  rw [runWithin_eq] at ran
  rcases @cutting_works bound higher interpreter program limit larger within room with
    ⟨final, fuel⟩ | same | ⟨met, stopped, _⟩
  · rw [← looking, fuel] at ran
    cases ran
    cases finished
  · rw [runWithin_eq, ← same, looking, @conclude_budgeted interpreter larger (some limit), ran]
  · exact absurd stopped (unexhausted met)

/-- Where the budget of a run is exhausted, what it prints begins what a run with a larger budget
prints. -/
theorem Interpreter.text_begins_of_exhausted {met : Machine}
    (meets : (interpreter.budgeted (some limit)).checkedWork (Unexhausted (.stepBudget limit)) bound
      program = .error .stopped met)
    (finished : ((interpreter.budgeted larger).runWithin higher program).1.isAwaiting = false) :
    textAfter interpreter.outputs.length
      ((interpreter.budgeted (some limit)).runWithin bound program).2.outputs <+:
      textAfter interpreter.outputs.length
        ((interpreter.budgeted larger).runWithin higher program).2.outputs := by
  obtain ⟨error, last, _, silent, ran⟩ := work_of_exhausted meets
  rcases @cutting_works bound higher interpreter program limit larger within room with
    ⟨final, fuel⟩ | same | ⟨other, stopped, grows, ends⟩
  · exact nomatch meets.symm.trans fuel
  · rw [runWithin_eq, ← same, meets] at finished
    cases finished
  · cases meets.symm.trans stopped
    have earlier : interpreter.outputs.length ≤ met.console.lines.toList.length :=
      grows.console.length_le
    have begun : textAfter interpreter.outputs.length (Run.finish last).console.lines.toList =
        textAfter interpreter.outputs.length met.flush.console.lines.toList := by
      show textAfter _ last.flush.console.lines.toList = _
      rw [last.lines_flush, met.lines_flush, silent]
    have continued (final : Machine) (grows : met.Grows final) :
        textAfter interpreter.outputs.length (Run.finish last).console.lines.toList <+:
          textAfter interpreter.outputs.length (Run.finish final).console.lines.toList := by
      rw [begun]
      exact grows.console.text_begins earlier
    rw [runWithin_eq] at finished
    rw [ran, runWithin_eq]
    generalize (interpreter.budgeted larger).work higher program = ended at ends finished ⊢
    cases ends with
    | value grows _ | broken grows _ => exact continued _ grows
    | awaiting _ => cases finished
    | stopped first => cases first

end

/-- A budget of statements is transparent. A run that comes to its end without exhausting it has the
same result with any larger budget, or with none, and leaves the same machine. And if the runs with
both budgets come to their ends, the text that the first one prints begins that of the second. -/
theorem budget_transparent (interpreter : Interpreter) (program : Program) {limit : Nat}
    {larger : Option Nat} (within : ∀ other, larger = some other → limit ≤ other) :
    (∀ result next, (interpreter.budgeted (some limit)).Finishes program result next →
      (∀ error, result = .failed error → error.fault ≠ .stepBudget limit) →
      (interpreter.budgeted larger).Finishes program result (next.budgeted larger)) ∧
    ∀ first short second long, (interpreter.budgeted (some limit)).Finishes program first short →
      (interpreter.budgeted larger).Finishes program second long →
      textAfter interpreter.outputs.length short.outputs <+:
        textAfter interpreter.outputs.length long.outputs := by
  constructor
  · rintro result next ⟨finished, least, ran⟩ unexhausted
    refine ⟨finished, least, fun higher room => ?_⟩
    refine Interpreter.runWithin_of_unexhausted within room
      (ran least (Nat.le_refl least)) finished ?_
    intro met meets
    obtain ⟨error, final, cause, _, failed⟩ := Interpreter.work_of_exhausted meets
    have same := (ran least (Nat.le_refl least)).symm.trans failed
    exact unexhausted error (Prod.mk.inj same).1 cause
  · rintro first short second long ⟨finished, least, ran⟩ ⟨alsoFinished, enough, alsoRan⟩
    have shorter := ran least (Nat.le_refl least)
    have longer := alsoRan (max least enough) (Nat.le_max_right least enough)
    have room := Nat.le_max_left least enough
    by_cases exhausted : ∃ met, (interpreter.budgeted (some limit)).checkedWork
        (Unexhausted (.stepBudget limit)) least program = .error .stopped met
    · obtain ⟨met, meets⟩ := exhausted
      have begins :=
        Interpreter.text_begins_of_exhausted within room meets (by rw [longer]; exact alsoFinished)
      rw [shorter, longer] at begins
      exact begins
    · have same := Interpreter.runWithin_of_unexhausted within room shorter finished
        fun met meets => exhausted ⟨met, meets⟩
      cases longer.symm.trans same
      exact List.prefix_refl _

/-- A program that prints lines in parts. -/
def printing : Program :=
  .ofSource ("FOR i = 1 TO 2\nPRINT i; i;\nPRINT i\nNEXT i\n" ++
      "TRY\nPRINT 7\nFINALLY\nPRINT 8\nEND TRY")

/-- The run of that program with a budget. -/
def printingRun (maxSteps : Option Nat) : RunResult × Interpreter :=
  ((Interpreter.new .empty {} .still).budgeted maxSteps).runWithin 30 printing

/-- With ten statements the program comes to its end as without a budget, and with five it is cut
off in a line. -/
theorem budget_transparent_printing :
    (∀ other, (none : Option Nat) = some other → 5 ≤ other) ∧
      (printingRun (some 5)).2.outputs = ["111", "22"] ∧
      (printingRun (some 5)).1.errorCode? = some "STEP_BUDGET" ∧
      ((Interpreter.new .empty {} .still).budgeted none).Finishes printing (printingRun (some 10)).1
        ((printingRun (some 10)).2.budgeted none) ∧
      textAfter 0 ["111", "22"] <+: textAfter 0 (printingRun none).2.outputs := by
  have cut : (printingRun (some 5)).2.outputs = ["111", "22"] := by decide +kernel
  have failed : (printingRun (some 5)).1.errorCode? = some "STEP_BUDGET" := by decide +kernel
  have succeeded : (printingRun (some 10)).1.errorCode? = none := by decide +kernel
  have finishes (maxSteps : Option Nat) (finished : (printingRun maxSteps).1.isAwaiting = false) :
      ((Interpreter.new .empty {} .still).budgeted maxSteps).Finishes printing
        (printingRun maxSteps).1 (printingRun maxSteps).2 :=
    .of_runWithin (Prod.eta (printingRun maxSteps)).symm finished
  have unlimited (limit : Nat) : ∀ other, (none : Option Nat) = some other → limit ≤ other :=
    fun _ limited => nomatch limited
  refine ⟨unlimited 5, cut, failed, ?_, ?_⟩
  · refine (budget_transparent (.new .empty {} .still) printing (unlimited 10)).1 _ _
      (finishes (some 10) (by decide +kernel)) fun error same => ?_
    rw [same] at succeeded
    cases succeeded
  · have begins := (budget_transparent (.new .empty {} .still) printing (unlimited 5)).2 _ _ _ _
      (finishes (some 5) (by decide +kernel)) (finishes none (by decide +kernel))
    rw [cut] at begins
    exact begins

end MicroBasic
