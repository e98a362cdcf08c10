import Mathlib.Data.List.Forall2
import MicroBasic.Proofs.Parsing.Shape

/-!
# Two parsers side by side

A parser reads two sequences of tokens that are written alike up to some point, and the two readings
are in step as long as neither has passed that point. There are two ways for the sequences to go on:
they are alike to their ends, or the second ends where the first goes on with another line. `Course`
says which of these it is.
-/

namespace MicroBasic

/-- Whether a token ends neither a line nor the text. -/
def TokenKind.isPlain : TokenKind → Bool
  | newline => false
  | finish => false
  | _ => true

theorem Cursor.plain_of_isAtWord {c : Cursor} {word : Keyword} (isWord : c.isAtWord word = true) :
    c.kind.isPlain = true := by
  unfold Cursor.isAtWord at isWord
  cases kind : c.kind <;> rw [kind] at isWord <;> first | rfl | cases isWord

theorem Cursor.plain_of_isAt {c : Cursor} {mark : Symbol} (isMark : c.isAt mark = true) :
    c.kind.isPlain = true := by
  unfold Cursor.isAt at isMark
  cases kind : c.kind <;> rw [kind] at isMark <;> first | rfl | cases isMark

theorem Cursor.plain_of_isAtSoftWord {word : String} {c : Cursor}
    (isWord : c.isAtSoftWord word = true) : c.kind.isPlain = true := by
  unfold Cursor.isAtSoftWord at isWord
  cases kind : c.kind <;> rw [kind] at isWord <;> first | rfl | cases isWord

/-- How two sequences of tokens that begin alike go on. -/
inductive Course (moves : Moves) where
  /-- Alike to the end. -/
  | alike
  /-- The second ends where the first has the end of a line. -/
  | cut (ending : Token) (rest : List Token) (last : Token) (ends : ending.kind = .newline)
    (isLast : last.kind = .finish)

namespace Course

variable {moves : Moves}

/-- What the first sequence holds from the point on up to which both are in step. -/
def tail : Course moves → List Token
  | alike => []
  | cut ending rest _ _ _ => ending :: rest

/-- A token closes the second sequence where it was cut. -/
def Closing : Course moves → Token → Prop
  | alike, _ => True
  | cut _ _ last _ _, token => token = last

variable {course : Course moves} {c other : Cursor}

/-- Two cursors in sequences that are in step. -/
structure InStep (course : Course moves) (c other : Cursor) : Prop where
  ahead : ∃ tokens, c.ahead = tokens ++ course.tail ∧
    List.Forall₂ (Tree.Alike moves) tokens other.ahead
  lineStart : other.atLineStart = c.atLineStart
  last : c.last.kind = .finish
  lastOther : other.last.kind = .finish
  closing : course.Closing other.last

/-- Both cursors stand before tokens that correspond. -/
structure Passes (course : Course moves) (c other : Cursor) : Prop where
  alike : Tree.Alike moves c.current other.current
  next : course.InStep c.next other.next
  ahead : c.ahead = c.current :: c.next.ahead
  aheadOther : other.ahead = other.current :: other.next.ahead

namespace Passes

variable (passes : course.Passes c other)

include passes

theorem kind : other.kind = c.kind :=
  (congrArg Token.kind passes.alike).symm

end Passes

namespace InStep

variable (step : course.InStep c other)

include step

/-- In step, either both stand before tokens that correspond, or both have come to the point where
the sequences part. -/
theorem passes_or : course.Passes c other ∨ c.ahead = course.tail ∧ other.ahead = [] := by
  obtain ⟨tokens, ahead, same⟩ := step.ahead
  generalize aheadOther : other.ahead = others at same
  cases same with
  | nil => exact .inr ⟨ahead, rfl⟩
  | @cons token token' tokens others first rest =>
    have here : c.current = token := by simp [Cursor.current, ahead]
    have here' : other.current = token' := by simp [Cursor.current, aheadOther]
    have kinds : other.kind = c.kind := by
      unfold Cursor.kind
      rw [here, here']
      exact (congrArg Token.kind first).symm
    have behind : other.next.ahead = others := by simp [Cursor.next, aheadOther]
    refine .inl ⟨by rwa [here, here'],
      ⟨⟨tokens, ?_, behind ▸ rest⟩, ?_, step.last, step.lastOther, step.closing⟩, ?_, ?_⟩
    · simp [Cursor.next, ahead]
    · exact congrArg TokenKind.isNewline kinds
    · simp [Cursor.next, here, ahead]
    · rw [here', behind, aheadOther]

theorem length : c.ahead.length = other.ahead.length + course.tail.length := by
  obtain ⟨tokens, ahead, same⟩ := step.ahead
  rw [ahead, List.length_append, same.length_eq]

theorem kinds : other.kind = c.kind ∨ c.kind = .newline ∧ other.kind = .finish := by
  rcases step.passes_or with passes | ⟨ahead, aheadOther⟩
  · exact .inl passes.kind
  · unfold Cursor.kind Cursor.current
    rw [ahead, aheadOther]
    cases course with
    | alike => exact .inl (step.lastOther.trans step.last.symm)
    | cut _ _ _ ends => exact .inr ⟨ends, step.lastOther⟩

theorem test (test : TokenKind → Bool) (blind : test .finish = test .newline) :
    test other.kind = test c.kind := by
  rcases step.kinds with same | ⟨newline, finish⟩
  · rw [same]
  · rw [newline, finish, blind]

theorem passes (plain : c.kind.isPlain = true) : course.Passes c other := by
  rcases step.passes_or with passes | ⟨ahead, _⟩
  · exact passes
  · unfold Cursor.kind Cursor.current at plain
    rw [ahead] at plain
    cases course with
    | alike =>
      simp only [tail, List.headD_nil, step.last] at plain
      cases plain
    | cut _ _ _ ends =>
      simp only [tail, List.headD_cons, ends] at plain
      cases plain

theorem isAt (mark : Symbol) : other.isAt mark = c.isAt mark :=
  step.test (TokenKind.isSymbol mark) rfl

theorem isAtWord (word : Keyword) : other.isAtWord word = c.isAtWord word :=
  step.test (TokenKind.isKeyword word) rfl

theorem isAtSoftWord (word : String) : other.isAtSoftWord word = c.isAtSoftWord word := by
  unfold Cursor.isAtSoftWord
  rcases step.kinds with same | ⟨newline, finish⟩
  · rw [same]
  · rw [newline, finish]

theorem second (plain : c.kind.isPlain = true) : other.second.kind = c.second.kind ∨
    c.second.kind = .newline ∧ other.second.kind = .finish :=
  (step.passes plain).next.kinds

theorem isAtEndOf (word : Keyword) : other.isAtEndOf word = c.isAtEndOf word := by
  unfold Cursor.isAtEndOf
  rw [step.isAtWord]
  cases isEnd : c.isAtWord .END with
  | false => rfl
  | true => exact (step.passes (Cursor.plain_of_isAtWord isEnd)).next.isAtWord word

theorem isAtBlockClose : other.isAtBlockClose = c.isAtBlockClose := by
  unfold Cursor.isAtBlockClose
  rcases step.kinds with same | ⟨newline, finish⟩
  · rw [same]
    split
    case h_8 isEnd =>
      have plain : c.kind.isPlain = true := by rw [isEnd]; rfl
      rcases step.second plain with same | ⟨newline, finish⟩
      · rw [same]
      · rw [newline, finish]
    all_goals rfl
  · rw [newline, finish]

theorem isAtStatementEnd : other.isAtStatementEnd = c.isAtStatementEnd := by
  unfold Cursor.isAtStatementEnd
  rw [step.isAtBlockClose]
  congr 1
  exact step.test (fun kind => kind.isSeparator || kind.isFinish) rfl

theorem isAtInlineEnd (openFors : Nat) :
    other.isAtInlineEnd openFors = c.isAtInlineEnd openFors := by
  have ends := step.test (fun kind => kind.isNewline || kind.isFinish) rfl
  unfold Cursor.isAtInlineEnd Cursor.isAtFinish
  rw [step.isAtBlockClose, step.isAtWord, ends]

end InStep

section Skipping

variable {skips : TokenKind → Bool}

theorem skip_of_skips (nonempty : c.ahead ≠ []) (here : skips c.kind = true) :
    c.skip skips = c.next.skip skips := by
  obtain ⟨ahead, last, atLineStart⟩ := c
  cases ahead with
  | nil => exact absurd rfl nonempty
  | cons token rest =>
    have passed : skips token.kind = true := here
    simp only [Cursor.skip, Cursor.next, List.tail_cons, List.takeWhile_cons, passed, if_true,
      List.getLast?_cons, List.dropWhile_cons]
    cases more : (rest.takeWhile fun token => skips token.kind).getLast? with
    | some token => rfl
    | none =>
      have stays : rest.dropWhile (fun token => skips token.kind) = rest := by
        have all :=
          List.takeWhile_append_dropWhile (p := fun token : Token => skips token.kind) (l := rest)
        rwa [List.getLast?_eq_none_iff.mp more, List.nil_append] at all
      rw [stays]
      rfl

theorem skip_of_not (stays : c.ahead = [] ∨ skips c.kind = false) : c.skip skips = c := by
  obtain ⟨ahead, last, atLineStart⟩ := c
  cases ahead with
  | nil => rfl
  | cons token rest =>
    have stays : skips token.kind = false := stays.resolve_left (List.cons_ne_nil _ _)
    simp [Cursor.skip, stays]

theorem skip_last : (c.skip skips).last = c.last := by
  unfold Cursor.skip
  split <;> rfl

/-- The cursors have passed the end of the line at which the sequences part, and what may be skipped
behind it. -/
def Crossed (skips : TokenKind → Bool) (c other : Cursor) : Course moves → Prop
  | alike => False
  | cut _ rest last _ _ =>
    (∃ start : Cursor, start.ahead = rest ∧ start.atLineStart = true ∧ start.last.kind = .finish ∧
      c = start.skip skips) ∧ other.ahead = [] ∧ other.last = last

theorem InStep.skip_apart (step : course.InStep c other) (ahead : c.ahead = course.tail)
    (aheadOther : other.ahead = []) :
    course.InStep (c.skip skips) (other.skip skips) ∨
      skips .newline = true ∧ course.Crossed skips (c.skip skips) (other.skip skips) := by
  cases course with
  | alike =>
    rw [skip_of_not (.inl ahead), skip_of_not (.inl aheadOther)]
    exact .inl step
  | cut ending rest last ends isLast =>
    have here : c.kind = .newline := by simp [Cursor.kind, Cursor.current, ahead, tail, ends]
    rw [@skip_of_not other _ (.inl aheadOther)]
    cases passes : skips .newline with
    | false =>
      rw [skip_of_not (.inr (by rw [here, passes]))]
      exact .inl step
    | true =>
      refine .inr ⟨rfl, ⟨c.next, ?_, ?_, step.last, ?_⟩, aheadOther, step.closing⟩
      · simp [Cursor.next, ahead, tail]
      · simp [Cursor.next, here, TokenKind.isNewline]
      · exact skip_of_skips (by simp [ahead, tail]) (by rw [here, passes])

theorem InStep.skip (step : course.InStep c other) :
    course.InStep (c.skip skips) (other.skip skips) ∨
      skips .newline = true ∧ course.Crossed skips (c.skip skips) (other.skip skips) := by
  induction size : other.ahead.length generalizing c other with
  | zero =>
    rcases step.passes_or with passes | ⟨ahead, aheadOther⟩
    · rw [passes.aheadOther] at size
      cases size
    · exact step.skip_apart ahead aheadOther
  | succ size ih =>
    rcases step.passes_or with passes | ⟨ahead, aheadOther⟩
    · cases here : skips c.kind with
      | true =>
        have passed : c.skip skips = c.next.skip skips :=
          skip_of_skips (by rw [passes.ahead]; exact List.cons_ne_nil _ _) here
        have passed' : other.skip skips = other.next.skip skips :=
          skip_of_skips (by rw [passes.aheadOther]; exact List.cons_ne_nil _ _)
            (by rw [passes.kind, here])
        rw [passed, passed']
        refine ih passes.next ?_
        rw [passes.aheadOther] at size
        exact Nat.succ.inj size
      | false =>
        rw [skip_of_not (.inr here), skip_of_not (.inr (by rw [passes.kind, here]))]
        exact .inl step
    · exact step.skip_apart ahead aheadOther

theorem InStep.skipColons (step : course.InStep c other) :
    course.InStep (c.skip (TokenKind.isSymbol .colon)) (other.skip (TokenKind.isSymbol .colon)) :=
  step.skip.resolve_right fun wrong => nomatch wrong.1

end Skipping

end Course

end MicroBasic
