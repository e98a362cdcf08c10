import MicroBasic.Proofs.Parsing.Calls

/-!
# Entering a program line by line

The lines of a program are entered into a session one after the other. As long as they are not a
program yet, the session gathers them; once they are, it runs them, and what has not been entered is
a program of its own. No line is ever rejected, whatever state the interpreter is in when the line
is entered.

Main statement: `Session.accepts_lines_of_program`.
-/

namespace MicroBasic

/-- Lines are gathered, or they ran, and what went wrong then did so in the run. -/
def Feed.Accepts : Feed → Prop
  | .incomplete => True
  | .ran _ failure => ∀ fault ∈ failure, ∃ error, fault = .failed error
  | .awaiting _ => True

/-- Whether more lines are needed. -/
def Feed.isAwaiting : Feed → Bool
  | .awaiting _ => true
  | _ => false

namespace Session

/-- What may come of lines that are entered one after the other. The interpreter may be in any state
whenever a line is entered, and a line that needs something from outside is entered again before the
next one. -/
inductive Answers : Session → List String → Feed → Prop
  | first {session : Session} {interpreter : Interpreter} {fuel : Nat} {line : String}
    {rest : List String} :
    Answers session (line :: rest) ({ session with interpreter }.feedWithin fuel line).1
  | later {session : Session} {interpreter : Interpreter} {fuel : Nat} {line : String}
    {rest : List String} {answer : Feed}
    (done : ({ session with interpreter }.feedWithin fuel line).1.isAwaiting = false)
    (answers : Answers ({ session with interpreter }.feedWithin fuel line).2 rest answer) :
    Answers session (line :: rest) answer

variable {session : Session} {fuel : Nat} {program : Program} {line : String} {lines : List String}

theorem run_accepts (session : Session) (fuel : Nat) (program : Program) :
    (session.run fuel program).1.Accepts := by
  unfold run
  dsimp only
  split
  · exact nofun
  · rintro _ ⟨⟩
    exact ⟨_, rfl⟩
  · trivial

theorem run_keeps (session : Session) (fuel : Nat) (program : Program) :
    (session.run fuel program).2.options = session.options ∧
      (session.run fuel program).2.gathered = session.gathered := by
  unfold run
  dsimp only
  split <;> exact ⟨rfl, rfl⟩

theorem runEntered_eq {source : String}
    (parsed : Program.parseWith session.options source = .ok program) (fuel : Nat) :
    ∃ run, session.runEntered fuel program = session.run fuel run := by
  unfold runEntered
  cases lone : session.loneVariable? program with
  | none => exact ⟨program, rfl⟩
  | some name =>
    unfold loneVariable? at lone
    split at lone
    · next stmt only =>
      split at lone
      · next isCall =>
        split at lone
        · cases lone
          obtain ⟨printer, read⟩ :=
            Program.parseWith_printing parsed (only ▸ List.mem_singleton_self stmt) isCall
          refine ⟨printer, ?_⟩
          dsimp only
          rw [read]
        · cases lone
      · cases lone
    · cases lone

/-- What is left to enter makes a program, together with the lines gathered so far. -/
def Owes (session : Session) (lines : List String) : Prop :=
  lines = [] ∨ ∃ program,
    Program.parseWith session.options (session.sourceWith ("\n".intercalate lines)) = .ok program

theorem Owes.anyhow (owes : session.Owes lines) (interpreter : Interpreter) :
    Owes { session with interpreter } lines :=
  owes

theorem parseWith_empty (options : ScanOptions) :
    ∃ program, Program.parseWith options "" = .ok program := by
  obtain ⟨tokens, finish, places, parses⟩ := @Program.parseWith_of_cuts "" _ .done options
  obtain rfl := List.map_eq_nil_iff.mp places.bare_eq
  obtain ⟨kind, text, span, position⟩ := finish
  obtain rfl : kind = .finish := places.finish_kind
  have paired : Block.pairing [] = .ok .empty := by
    rw [Block.pairing, Pairing.pairFrom]
    rfl
  have read : Program.ofTokens [⟨.finish, text, span, position⟩] = .ok ⟨[], .empty⟩ :=
    Program.ofTokens_ok_iff.mpr ⟨0, _, rfl, paired⟩
  exact ⟨⟨[], .empty⟩, by rw [parses, List.nil_append, read]; rfl⟩

theorem sourceWith_cons (more : lines ≠ []) :
    session.sourceWith ("\n".intercalate (line :: lines)) =
    session.sourceWith line ++ "\n" ++ "\n".intercalate lines := by
  rw [String.intercalate_cons_of_ne_nil more]
  unfold sourceWith
  split
  · simp only [String.append_assoc]
  · rfl

theorem feedWithin_of_ok {source : String} (entered : session.sourceWith line = source)
    (parsed : Program.parseWith session.options source = .ok program) (fuel : Nat) :
    (session.feedWithin fuel line).1.Accepts ∧
      (session.feedWithin fuel line).2.options = session.options ∧
      (session.feedWithin fuel line).2.gathered = "" := by
  obtain ⟨run, same⟩ := @runEntered_eq { session with gathered := "" } _ _ parsed fuel
  have read : session.feedWithin fuel line = { session with gathered := "" }.run fuel run := by
    rw [feedWithin, entered, parsed]
    exact same
  rw [read]
  exact ⟨run_accepts _ _ _, run_keeps _ _ _⟩

theorem feedWithin_of_mendable {source : String} {error : SyntaxError}
    (entered : session.sourceWith line = source)
    (failed : Program.parseWith session.options source = .error error)
    (mendable : error.isMendable source = true) (fuel : Nat) :
    session.feedWithin fuel line = (.incomplete, { session with gathered := source }) := by
  rw [feedWithin, entered, failed]
  exact if_pos mendable

theorem feedWithin_owes (owes : session.Owes (line :: lines)) (fuel : Nat) :
    (session.feedWithin fuel line).1.Accepts ∧ (session.feedWithin fuel line).2.Owes lines := by
  obtain ⟨program, parsed⟩ := owes.resolve_left nofun
  by_cases more : lines = []
  · subst more
    rw [String.intercalate_singleton] at parsed
    exact ⟨(feedWithin_of_ok rfl parsed fuel).1, .inl rfl⟩
  · rw [sourceWith_cons more] at parsed
    rcases Program.parseWith_cut
      parsed with ⟨⟨first, readFirst⟩, second, readSecond⟩ | ⟨error, failed, mendable⟩
    · -- The lines gathered so far run, and the rest is a program of its own.
      obtain ⟨accepts, options, gathered⟩ := feedWithin_of_ok rfl readFirst fuel
      refine ⟨accepts, .inr ⟨second, ?_⟩⟩
      rw [options, sourceWith, isGathering, gathered]
      exact readSecond
    · -- The lines are gathered, and they are not empty.
      rw [feedWithin_of_mendable rfl failed mendable]
      refine ⟨trivial, .inr ⟨program, ?_⟩⟩
      generalize session.sourceWith line = source at parsed failed
      have given : source.isEmpty = false := Bool.eq_false_iff.mpr fun blank => by
        obtain ⟨nothing, read⟩ := parseWith_empty session.options
        rw [String.isEmpty_iff.mp blank, read] at failed
        cases failed
      rw [sourceWith, isGathering, given]
      exact parsed

theorem accepts_of_owes {answer : Feed} (answers : session.Answers lines answer)
    (owes : session.Owes lines) : answer.Accepts := by
  induction answers with
  | first => exact (feedWithin_owes (owes.anyhow _) _).1
  | later _ _ ih => exact ih (feedWithin_owes (owes.anyhow _) _).2

/-- The lines of a program are entered without a syntax error. Whatever lines come first, they are a
program, and so are the others; or they are no program yet, and further lines may mend that. -/
theorem accepts_lines_of_program (nothing : session.gathered = "")
    (parsed : Program.parseWith session.options ("\n".intercalate lines) = .ok program) :
    (∀ answer, session.Answers lines answer → answer.Accepts) ∧
      ∀ first others, first ++ others = lines →
        ((∃ part, Program.parseWith session.options ("\n".intercalate first) = .ok part) ∧
          ∃ rest, Program.parseWith session.options ("\n".intercalate others) = .ok rest) ∨
        ∃ error, Program.parseWith session.options ("\n".intercalate first) = .error error ∧
          error.isMendable ("\n".intercalate first) = true := by
  have owes : session.Owes lines := by
    refine .inr ⟨program, ?_⟩
    rw [sourceWith, isGathering, nothing]
    exact parsed
  refine ⟨fun answer answers => accepts_of_owes answers owes, ?_⟩
  rintro first others rfl
  by_cases blank : first = []
  · subst blank
    exact .inl ⟨parseWith_empty _, program, parsed⟩
  · by_cases all : others = []
    · subst all
      rw [List.append_nil] at parsed
      exact .inl ⟨⟨program, parsed⟩, parseWith_empty _⟩
    · rw [String.intercalate_append_of_ne_nil blank all] at parsed
      exact Program.parseWith_cut parsed

/-- A session that has not read anything. -/
def fresh : Session :=
  .new {} .still

/-- A loop with a branch in it, and an expression. -/
def loopLines : List String :=
  ["FOR I = 1 TO 3", "IF I = 2 THEN", "X = I", "END IF", "NEXT", "X"]

/-- The session after some lines, and what came of the last of them. -/
def afterLines (lines : List String) : Feed × Session :=
  lines.foldl (fun before line => before.2.feedWithin 100 line) (.incomplete, fresh)

/-- The loop runs with its last line, and then the variable is printed. -/
theorem accepts_lines_of_loop :
    (afterLines (loopLines.take 4)).2.gathered = "FOR I = 1 TO 3\nIF I = 2 THEN\nX = I\nEND IF" ∧
      (match (afterLines loopLines).1 with
        | .ran output none => output
        | _ => []) = ["2"] ∧
      (∀ answer, fresh.Answers loopLines answer → answer.Accepts) ∧
      ∀ first others, first ++ others = loopLines →
        ((∃ part, Program.parseWith fresh.options ("\n".intercalate first) = .ok part) ∧
          ∃ rest, Program.parseWith fresh.options ("\n".intercalate others) = .ok rest) ∨
        ∃ error, Program.parseWith fresh.options ("\n".intercalate first) = .error error ∧
          error.isMendable ("\n".intercalate first) = true := by
  have parses :
      (Program.parseWith fresh.options ("\n".intercalate loopLines)).toOption.isSome = true := by
    decide +kernel
  refine ⟨by decide +kernel, by decide +kernel, ?_⟩
  cases read : Program.parseWith fresh.options ("\n".intercalate loopLines) with
  | error error =>
    rw [read] at parses
    cases parses
  | ok program => exact accepts_lines_of_program rfl read

end Session

end MicroBasic
