import MicroBasic.Proofs.Parsing.Stmts

/-!
# Blocks side by side

A block is content with the end of the second sequence: what it has read there is the beginning of
what was read of the first, and the rest of that is a block of its own, read from the line where the
second sequence ends.
-/

namespace MicroBasic

open MicroBasic.Parser (Crosses Follows Stops)

theorem Cursor.skip_stops {c : Cursor} {skips : TokenKind → Bool}
    (last : skips c.last.kind = false) : skips (c.skip skips).kind = false := by
  induction size : c.ahead.length generalizing c with
  | zero =>
    have empty := List.length_eq_zero_iff.mp size
    rw [Course.skip_of_not (.inl empty), kind, current, empty]
    exact last
  | succ size ih =>
    cases here : skips c.kind with
    | false => rwa [Course.skip_of_not (.inr here)]
    | true =>
      have nonempty : c.ahead ≠ [] := fun empty => by simp [empty] at size
      rw [Course.skip_of_skips nonempty here]
      exact ih last (by simp [next, size])

namespace Course

variable {moves : Moves} {course : Course moves} {c other : Cursor}

theorem InStep.kind_skip
    (step : course.InStep (c.skip TokenKind.isSeparator) (other.skip TokenKind.isSeparator)) :
    (other.skip TokenKind.isSeparator).kind = (c.skip TokenKind.isSeparator).kind := by
  refine step.kinds.resolve_right fun ⟨newline, _⟩ => ?_
  have last := step.last
  rw [skip_last] at last
  have stops := @Cursor.skip_stops c TokenKind.isSeparator (by rw [last]; rfl)
  rw [newline] at stops
  cases stops

/-- Two blocks are read on. Behind the separators before a line, both cursors stand at tokens of one
kind. -/
theorem InReach.separated {room room' count : Nat} {β : Type} {view : View}
    {course : Course view.moves} {related : β → β → Prop}
    {further : List Token → β → Cursor → β → Prop} {rest rest' : Unit → Parser β}
    (reach : course.InReach view room room' c other)
    (later : ∀ {c other : Cursor}, course.InReach view room room' c other → other.kind = c.kind →
      course.Matches view.known c count related further (rest () c) (rest' () other))
    (ended : ∀ {after final},
      course.Ends (fun rest _ after _ => ∃ start : Cursor, start.ahead = rest ∧
        start.atLineStart = true ∧ start.last.kind = .finish ∧
          after = start.skip TokenKind.isSeparator)
      () after () final →
        course.Matches view.known c count related further (rest () after) (rest' () final)) :
    course.Matches view.known c count related further ((Parser.skipSeparators >>= rest) c)
      ((Parser.skipSeparators >>= rest') other) := by
  rcases @Crosses.skip view room room' TokenKind.isSeparator course c other
    reach with ⟨beyond, _, stays⟩ | ends
  · exact .beyond beyond (later (reach.beyond beyond stays) stays.kind_skip)
  · exact ended ends

end Course

namespace Parse

open MicroBasic.Parser MicroBasic.Course

variable {nested nested' : Nested} {view : View} {token token' : Token}
    {room room' count id id' : Nat}

section Ends

/-- A test for the end of a block, which both sequences show alike. -/
structure BlockEnd (ends : Cursor → Bool) : Prop where
  step : ∀ {moves} {course : Course moves} {c other}, course.InStep c other → ends other = ends c

variable {ends ends' : Cursor → Bool} {word : Keyword}

theorem BlockEnd.either (first : BlockEnd ends) (second : BlockEnd ends') :
    BlockEnd (fun c => ends c || ends' c) :=
  ⟨fun step => congrArg₂ or (first.step step) (second.step step)⟩

theorem blockEnd_isAtWord : BlockEnd (fun c => c.isAtWord word) :=
  ⟨fun step => step.isAtWord word⟩

theorem blockEnd_isAtEndOf : BlockEnd (fun c => c.isAtEndOf word) :=
  ⟨fun step => step.isAtEndOf word⟩

theorem blockEnd_never : BlockEnd (fun _ => false) :=
  ⟨fun _ => rfl⟩

theorem expectEnd_follows :
    Follows view room room' 0 (fun _ _ => True) (expectEnd word token) (expectEnd word token') := by
  refine .get fun {_ c _} reach => ?_
  rw [reach.isAtEndOf]
  split
  · next here =>
    obtain ⟨isEnd, isWord⟩ := Bool.and_eq_true_iff.mp here
    have first := reach.passes (Cursor.plain_of_isAtWord isEnd)
    exact .inl ⟨Cursor.beyond_next.trans Cursor.beyond_next, trivial,
      (first.next.passes (@Cursor.plain_of_isAtWord c.next word isWord)).next⟩
  · exact reach.fails nofun

theorem expectEnd_stops : (expectEnd word token).Stops := by
  refine .get fun final => ?_
  rw [final.isAtEndOf]
  exact Stops.fail _ _ final

end Ends

section Lines

variable {β : Type} {related : β → β → Prop} {further : List Token → β → Cursor → β → Prop}

theorem lineNumber_crosses {rest rest' : Option Nat → Parser β}
    (bare : Crosses view room room' count related further (rest none) (rest' none))
    (marked : ∀ line,
      Crosses view (room - 1) (room' - 1) (count - 1) related further (rest (some line))
      (rest' (some line))) :
    Crosses view room room' count related further (lineNumber >>= rest) (lineNumber >>= rest') := by
  rw [lineNumber, bind_assoc, bind_assoc]
  refine .get fun reach => reach.byKind (fun kind passing => ?_) (reach.reads bare)
  cases kind with
  | number value =>
    dsimp only
    cases Decimal.natural? value with
    | none => exact reach.fails nofun
    | some line =>
      dsimp only
      split
      · exact (passing rfl).reads (marked line)
      · exact reach.fails nofun
  | _ => exact reach.reads bare

theorem label_crosses {rest rest' : Option String → Parser β}
    (bare : Crosses view room room' count related further (rest none) (rest' none))
    (marked : ∀ name,
      Crosses view (room - 1) (room' - 1) (count - 1) related further (rest (some name))
      (rest' (some name))) :
    Crosses view room room' count related further (label >>= rest) (label >>= rest') := by
  rw [label, bind_assoc, bind_assoc]
  refine .get fun {_ c c'} reach => reach.byKind (fun kind passing => ?_) (reach.reads bare)
  cases kind with
  | name name =>
    have next := (passing rfl).next
    have colon : c'.second.kind.isSymbol .colon = c.second.kind.isSymbol .colon := next.isAt .colon
    rw [colon]
    dsimp only
    split
    · next here =>
      have beyond : c.Beyond c.next.next 1 := (passing rfl).beyond.trans Cursor.beyond_next
      have step := (next.passes (@Cursor.plain_of_isAt c.next _ here)).next
      exact .beyond beyond (marked name _ _ _ (reach.beyond beyond step))
    · exact reach.reads bare
  | _ => exact reach.reads bare

theorem linePrefix_crosses {rest rest' : Option Nat × Option String → Parser β}
    (bare : Crosses view room room' count related further (rest (none, none)) (rest' (none, none)))
    (marked : ∀ found, (found.1.isSome || found.2.isSome) = true →
      Crosses view (room - 1) (room' - 1) (count - 1) related further (rest found) (rest' found)) :
    Crosses view room room' count related further (linePrefix >>= rest) (linePrefix >>= rest') := by
  rw [linePrefix, bind_assoc, bind_assoc]
  refine .get fun reach => ?_
  rw [reach.lineStart]
  split
  · simp only [bind_assoc, pure_bind]
    refine reach.reads (lineNumber_crosses
      (label_crosses bare fun name => marked (none, some name) rfl) fun line => ?_)
    exact label_crosses (marked (some line, none) rfl) fun name =>
      .mono (marked (some line, some name) rfl) (by omega)
  · exact reach.reads bare

theorem lineStatement_follows (follow : nested.Follow view room room' nested') :
    Follows view room room' 1 (view.Counted id fun stmt => stmt.toList.map fun stmt => [stmt])
      (lineStatement nested id) (lineStatement nested' id') := by
  refine .lifted (linePrefix_crosses (.lifted (.get fun reach => ?_)) fun found marked => .lifted
    (.get fun {_ c c'} reach => ?_))
  · rw [if_neg (by simp), if_neg (by simp)]
    refine reach.reads (.seq follow.statement (by omega) fun {stmt stmt' _ _} stmts => ?_)
    obtain ⟨_, _, _, _, _⟩ := stmt
    obtain ⟨_, _, _, _, _⟩ := stmt'
    exact .result ⟨stmts.numbered.relabel, congrArg some (Stmt.alike_relabel stmts.alike)⟩
  · have same : (c'.kind.isSeparator || c'.isAtFinish) = (c.kind.isSeparator || c.isAtFinish) :=
      reach.test (fun kind => kind.isSeparator || kind.isFinish) rfl
    rw [same]
    split
    · exact reach.reads (.result ⟨.nil, rfl⟩)
    · refine reach.reads (.seq follow.statement (by omega) fun {stmt stmt' _ _} stmts => ?_)
      obtain ⟨_, _, _, _, _⟩ := stmt
      obtain ⟨_, _, _, _, _⟩ := stmt'
      exact .result ⟨stmts.numbered.relabel, congrArg some (Stmt.alike_relabel stmts.alike)⟩

end Lines

section Blocks

variable {ends : Cursor → Bool} {fuel fuel' : Nat}

/-- The second sequence has ended inside a block. What was read of it is the beginning of the whole,
and what is left of the whole is read from a cursor before the rest of the first sequence, as a
block of its own. -/
def Resumes (moves : Moves) (nested : Nested) (ends : Cursor → Bool) (rest : List Token)
    (read : Block × Nat) (after : Cursor) (read' : Block × Nat) : Prop :=
  ∃ before behind fuel id start, read.1 = before ++ behind ∧ Tree.Alike moves before read'.1 ∧
    start.ahead = rest ∧ start.atLineStart = true ∧ start.last.kind = .finish ∧ rest.length < fuel ∧
    blockFrom nested ends fuel id start = .ok ((behind, read.2), after)

/-- The rest of a block after one of its lines. -/
def blockRest (nested : Nested) (ends : Cursor → Bool) (fuel : Nat) : Option Stmt → StmtParser Block
  | none => blockFrom nested ends fuel
  | some stmt => do
    let c ← here
    if c.isAtStatementEnd || ends c then return stmt :: (← blockFrom nested ends fuel)
    else failExpected "end of statement"

/-- A block from one of its lines on. -/
def blockLine (nested : Nested) (ends : Cursor → Bool) (fuel : Nat) : StmtParser Block := do
  let c ← here
  if c.isAtFinish || ends c then return []
  else if c.isAtBlockClose then fail (.unexpected c.blockCloseWords)
  else lineStatement nested >>= blockRest nested ends fuel

theorem blockFrom_succ {c : Cursor} : blockFrom nested ends (fuel + 1) id c =
    blockLine nested ends fuel id (c.skip TokenKind.isSeparator) := by
  rw [blockFrom]
  rfl

theorem blockRest_crosses {start : Nat} {value result : Option Stmt} (closes : BlockEnd ends)
    (stmts : view.Counted start (fun stmt => stmt.toList.map fun stmt => [stmt]) (value, id)
      (result, id'))
    (block : ∀ {id id'}, Crosses view room room' 0 (view.Counted id fun block => [block])
      (Resumes view.moves nested ends) (blockFrom nested ends fuel id)
      (blockFrom nested' ends fuel' id')) :
    Crosses view room room' 0 (view.Counted start fun block => [block])
      (Resumes view.moves nested ends) (blockRest nested ends fuel value id)
      (blockRest nested' ends fuel' result id') := by
  cases value with
  | none =>
    cases result with
    | some => cases stmts.alike
    | none =>
      cases stmts.numbered
      exact block
  | some stmt =>
    cases result with
    | none => cases stmts.alike
    | some stmt' =>
      have alike : stmt.shape view.moves.first = stmt'.shape view.moves.second :=
        Option.some.inj stmts.alike
      refine .lifted (.get fun reach => ?_)
      rw [reach.isAtStatementEnd, closes.step reach.toInStep]
      split
      · refine reach.reads
          (.joins block (by omega) (fun blocks => ?_) fun {course _ first _ second _} ended => ?_)
        · exact .result
            ⟨(stmts.numbered.append blocks.numbered).block, congrArg₂ List.cons alike blocks.alike⟩
        · cases course with
          | alike => exact ended.elim
          | cut =>
            obtain ⟨final, before, behind, fuel, id, start, whole, alikeBefore, starts⟩ := ended
            exact .inr ⟨final, stmt :: before, behind, fuel, id, start, congrArg (stmt :: ·) whole,
              congrArg₂ List.cons alike alikeBefore, starts⟩
      · exact reach.fails nofun

theorem blockFrom_crosses (follow : nested.Follow view room room' nested')
    (closes : BlockEnd ends) :
    Crosses view (min room fuel) (min room' fuel') 0 (view.Counted id fun block => [block])
      (Resumes view.moves nested ends) (blockFrom nested ends fuel id)
      (blockFrom nested' ends fuel' id') := by
  induction fuel, fuel' using Course.byRounds generalizing id id' with
  | first => exact .empty
  | second => exact .emptyOther
  | both fuel fuel' ih =>
    intro course c c' reach
    refine @InReach.separated _ _ _ _ _ _ _ _ _ _ (fun _ => blockLine nested ends fuel id)
      (fun _ => blockLine nested' ends fuel' id') reach (fun reach same => ?_)
      fun {after final} ended => ?_
    · rw [blockLine, blockLine, StmtParser.lift_bind, StmtParser.lift_bind, here_bind, here_bind,
        Cursor.isAtFinish, Cursor.isAtFinish, same, closes.step reach.toInStep,
          reach.isAtBlockClose]
      split
      · exact reach.pure ⟨.skip .nil, rfl⟩
      split
      · exact reach.fails nofun
      · refine reach.reads (.seq (lineStatement_follows follow) (by omega) fun stmts => ?_)
        exact blockRest_crosses closes stmts (.mono ih (by omega))
    · have short := reach.within.short
      rw [reach.length] at short
      cases course with
      | alike => exact ended.elim
      | cut =>
        obtain ⟨atEnd, start, ahead, starts, last, rfl⟩ := ended
        have content : blockLine nested' ends fuel' id' final = .ok (([], id'), final) := by
          rw [blockLine, StmtParser.lift_bind, here_bind, Cursor.isAtFinish, atEnd.kind_eq]
          rfl
        rw [content]
        cases read : blockLine nested ends fuel id (start.skip TokenKind.isSeparator) with
        | error => trivial
        | ok found =>
          rw [tail, List.length_cons] at short
          refine .inr
            ⟨atEnd, [], found.1.1, fuel + 1, id, start, rfl, rfl, ahead, starts, last, by omega, ?_⟩
          rw [blockFrom_succ]
          exact read

/-- A block behind others that were read before. -/
theorem block_crosses {start : Nat} {earlier : List Block}
    (follow : nested.Follow view room room' nested') (closes : BlockEnd ends)
    (numbered : Numbered view.known start earlier id) :
    Crosses view room room' 0 (view.Counted start fun block => earlier ++ [block])
      (fun _ _ _ _ => True) (block nested ends id) (block nested' ends id') :=
  .lifted (.rounds fun _ _ => .imp (blockFrom_crosses follow closes)
    (fun blocks => ⟨numbered.append blocks.numbered, blocks.alike⟩) fun _ => trivial)

end Blocks

end Parse

end MicroBasic
