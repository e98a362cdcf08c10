import MicroBasic.Proofs.Parsing.Coverage
import MicroBasic.Proofs.Parsing.Progress

/-!
# Where errors in a source stand

A scanning error stands at the characters that could not be scanned. A parsing error stands at a
token that the parser has come to, and that token came unchanged from the scanner.
-/

namespace MicroBasic

/-- A span of a source begins and ends at character boundaries, and a position is that of its first
character. -/
structure Span.StandsIn (span : Span) (position : Position) (source : List Char) : Prop where
  ordered : span.start ≤ span.stop
  within : span.stop ≤ byteLength source
  boundaries : ∃ before chars after, source = before ++ chars ++ after ∧
    span = ⟨byteLength before, byteLength (before ++ chars)⟩ ∧ position = Position.behind before

theorem Span.standsIn {source : List Char} {position : Position} {span : Span}
    (boundaries : ∃ before chars after, source = before ++ chars ++ after ∧
      span = ⟨byteLength before, byteLength (before ++ chars)⟩ ∧
        position = Position.behind before) :
    span.StandsIn position source := by
  refine ⟨?_, ?_, boundaries⟩
  all_goals obtain ⟨before, chars, after, rfl, rfl, _⟩ := boundaries
  · rw [byteLength_append]
    exact Nat.le_add_right _ _
  · rw [byteLength_append (before ++ chars)]
    exact Nat.le_add_right _ _

namespace Scan

/-- A fault is found at characters that some others stand before. -/
theorem boundaries_of_scanFrom {fuel : Nat} {before cs : List Char} {error : ScanError}
    (failed : scanFrom (LineIndex.of (before ++ cs)) (before ++ cs) fuel cs (byteLength before) =
      .error error) :
    ∃ front chars after, before ++ cs = front ++ chars ++ after ∧
      error.span = ⟨byteLength front, byteLength (front ++ chars)⟩ ∧
        error.position = Position.behind front := by
  induction fuel generalizing before cs with
  | zero => cases failed
  | succ fuel ih =>
    cases cs with
    | nil => cases failed
    | cons c rest =>
      have onward {gap rest : List Char} (failed : scanFrom (LineIndex.of (before ++ (gap ++ rest)))
          (before ++ (gap ++ rest)) fuel rest (byteLength before + byteLength gap) =
              .error error) :=
        @ih (before ++ gap) rest (by rw [List.append_assoc, byteLength_append]; exact failed)
      rw [scanFrom] at failed
      split at failed
      · have located := @onward [c] rest failed
        rwa [List.append_assoc] at located
      · split at failed
        · next kind length found =>
          have whole : (c :: rest).take length ++ (c :: rest).drop length = c :: rest :=
            List.take_append_drop _ _
          cases read : scanFrom (LineIndex.of (before ++ c :: rest)) (before ++ c :: rest) fuel
              ((c :: rest).drop length)
              (Piece.of (c :: rest) length (byteLength before)).span.stop with
          | ok tokens =>
            simp only [read] at failed
            cases failed
          | error other =>
            simp only [read] at failed
            cases failed
            have located := @onward ((c :: rest).take length) ((c :: rest).drop length)
              (by rw [whole]; exact read)
            rwa [List.append_assoc, whole] at located
        · next cause length found =>
          cases failed
          refine ⟨before, (c :: rest).take length, (c :: rest).drop length, ?_, ?_,
            LineIndex.position_behind before _⟩
          · rw [List.append_assoc, List.take_append_drop]
          · rw [byteLength_append]
            rfl

end Scan

theorem standsIn_of_scan {options : ScanOptions} {source : String} {error : ScanError}
    (failed : scan options source = .error error) :
    error.span.StandsIn error.position source.toList := by
  cases read : scanAll source with
  | ok tokens =>
    rw [scan, read] at failed
    cases failed
  | error other =>
    rw [scan, read] at failed
    cases failed
    exact Span.standsIn (@Scan.boundaries_of_scanFrom _ [] _ _ read)

/-- The tokens of a source stand in it, and the parser comes to no others. -/
theorem standsIn_of_mem_before {options : ScanOptions} {source : String} {tokens : List Token}
    {token : Token} (scanned : scan options source = .ok tokens)
    (among : token ∈ (Cursor.before tokens).last :: (Cursor.before tokens).ahead) :
    token ∈ tokens ∧ token.span.StandsIn token.position source.toList := by
  obtain ⟨all, read, same⟩ := Results.of_bind scanned
  have covers := Scan.covers_of_scanAll read
  obtain ⟨others, finish, rfl, isFinish, _⟩ := covers.ends
  have kept : tokens ⊆ others ++ [finish] := by
    cases same
    split
    · exact List.Subset.refl _
    · exact List.filter_sublist.subset
  obtain ⟨front, rfl⟩ : ∃ front, tokens = front ++ [finish] := by
    cases same
    split
    · exact ⟨others, rfl⟩
    · refine ⟨Token.visible others, ?_⟩
      rw [List.filter_append, List.filter_cons, isFinish]
      rfl
  have inside : token ∈ front ++ [finish] := by
    rw [Cursor.before_append front isFinish] at among
    rcases List.mem_cons.mp among with rfl | among
    · exact List.mem_append_right _ List.mem_cons_self
    · exact List.mem_append_left _ (Token.mem_of_visible among)
  obtain ⟨gap, chars, after, whole, stands⟩ := covers.stands (kept inside)
  exact ⟨inside, Span.standsIn ⟨gap, chars, after, whole, stands.span_eq, stands.position_eq⟩⟩

/-- Errors in a source are located. Where a source cannot be scanned, or is no program, the span of
the error lies in the source, between character boundaries, and its line and column are those of the
beginning of the span. A parsing error stands at one of the tokens of the source, the one at its end
included. -/
theorem syntax_errors_located (options : ScanOptions) (source : String) :
    (∀ error, scan options source = .error error →
      error.span.StandsIn error.position source.toList) ∧
    ∀ error, Program.parseWith options source = .error error →
      error.span.StandsIn error.position source.toList ∧
      ∀ parsing, error = .parsing parsing → ∃ tokens token, scan options source = .ok tokens ∧
        token ∈ tokens ∧ parsing.span = token.span ∧ parsing.position = token.position := by
  refine ⟨fun _ => standsIn_of_scan, fun error failed => ?_⟩
  unfold Program.parseWith at failed
  cases scanned : scan options source with
  | error other =>
    rw [scanned] at failed
    cases failed
    exact ⟨standsIn_of_scan scanned, nofun⟩
  | ok tokens =>
    rw [scanned] at failed
    change (Program.ofTokens tokens).mapError SyntaxError.parsing = .error error at failed
    cases parsed : Program.ofTokens tokens with
    | ok program =>
      rw [parsed] at failed
      cases failed
    | error parsing =>
      rw [parsed] at failed
      cases failed
      obtain ⟨_, token, among, same⟩ := Program.stands_of_ofTokens parsed
      obtain ⟨inside, stands⟩ := standsIn_of_mem_before scanned among
      have span : parsing.span = token.span := congrArg ParseError.span same
      have position : parsing.position = token.position := congrArg ParseError.position same
      refine ⟨?_, ?_⟩
      · change parsing.span.StandsIn parsing.position source.toList
        rwa [span, position]
      · rintro _ ⟨⟩
        exact ⟨tokens, token, rfl, inside, span, position⟩

end MicroBasic
