import MicroBasic.Proofs.Parsing.Sources

/-!
# Comments may be kept

A scanner can leave comments out as it meets them or keep them as tokens. It fails on the same
sources at the same places, and its tokens are the same but for the comments; the parser passes over
comments, so a program, its numbers and its pairs do not depend on them.
-/

namespace MicroBasic

namespace Scan

/-- Put a token before others, unless it is a comment that is not kept. -/
def keeping (options : ScanOptions) (token : Token) (tokens : List Token) : List Token :=
  if token.kind.isComment && !options.keepComments then tokens else token :: tokens

/-- The tokens of the characters from an offset on, where comments that are not kept are left out as
they are met. -/
def siftFrom (options : ScanOptions) (index : LineIndex) (source : List Char) :
    Nat → List Char → Nat → Except ScanError (List Token)
  | 0, _, _ => .ok []
  | _, [], offset =>
    .ok [{
      kind := .finish, lexeme := "", span := ⟨offset, offset⟩
      position := index.position source offset }]
  | fuel + 1, c :: rest, offset =>
    if isSpace c then siftFrom options index source fuel rest (offset + c.utf8Size)
    else
      match lexeme c rest with
      | .token kind length =>
        let piece := Piece.of (c :: rest) length offset
        (siftFrom options index source fuel ((c :: rest).drop length) piece.span.stop).map
          (keeping options
            ⟨kind, String.ofList piece.chars, piece.span, index.position source offset⟩)
      | .fault cause length =>
        .error ⟨cause, (Piece.of (c :: rest) length offset).span, index.position source offset⟩

/-- What is left of some tokens. -/
def sifted (options : ScanOptions) (tokens : List Token) : List Token :=
  if options.keepComments then tokens else Token.visible tokens

theorem sifted_nil (options : ScanOptions) : sifted options [] = [] :=
  ite_self _

theorem sifted_cons (options : ScanOptions) (token : Token) (tokens : List Token) :
    sifted options (token :: tokens) = keeping options token (sifted options tokens) := by
  unfold sifted keeping Token.visible
  rw [List.filter_cons]
  cases options.keepComments <;> cases token.kind.isComment <;> rfl

/-- Leaving comments out as they are met is the same as taking them out in the end. -/
theorem siftFrom_eq (options : ScanOptions) (index : LineIndex) (source : List Char) (fuel : Nat)
    (cs : List Char) (offset : Nat) : siftFrom options index source fuel cs offset =
      (scanFrom index source fuel cs offset).map (sifted options) := by
  induction fuel generalizing cs offset with
  | zero => exact congrArg Except.ok (sifted_nil options).symm
  | succ fuel ih =>
    cases cs with
    | nil =>
      refine congrArg Except.ok ?_
      rw [sifted_cons, sifted_nil]
      rfl
    | cons c rest =>
      cases space : isSpace c with
      | true => rw [siftFrom, scanFrom, if_pos space, if_pos space, ih]
      | false =>
        have notSpace := Bool.eq_false_iff.mp space
        cases found : lexeme c rest with
        | fault cause length =>
          rw [siftFrom, scanFrom, if_neg notSpace, if_neg notSpace, found]
          rfl
        | token kind length =>
          rw [siftFrom, scanFrom, if_neg notSpace, if_neg notSpace, found]
          dsimp only
          rw [ih]
          cases scanFrom index source fuel ((c :: rest).drop length)
              (Piece.of (c :: rest) length offset).span.stop with
          | error error => rfl
          | ok tokens => exact congrArg Except.ok (sifted_cons options _ tokens).symm

end Scan

theorem Program.ofTokens_sifted (options : ScanOptions) (tokens : List Token) :
    Program.ofTokens (Scan.sifted options tokens) = Program.ofTokens tokens := by
  unfold Scan.sifted
  split
  · rfl
  · exact ofTokens_visible tokens

/-- Comments that are kept change nothing. Whether they are kept or left out as they are met,
scanning fails with the same error, or the tokens are the same once comments are taken out; and then
the same program is read, with its numbers and pairs, or the same error is found. -/
theorem comments_change_nothing (source : String) :
    (∀ options, scan options source =
      Scan.siftFrom options (LineIndex.of source.toList) source.toList
        (source.toList.length + 1) source.toList 0) ∧
    ((∃ error, ∀ options, scan options source = .error error) ∨
      ∃ kept dropped, scan { keepComments := true } source = .ok kept ∧
        scan { keepComments := false } source = .ok dropped ∧
        kept.filter (fun token => !token.kind.isComment) = dropped ∧
        (∀ token ∈ dropped, token.kind.isComment = false) ∧
        Program.ofTokens kept = Program.ofTokens dropped) ∧
    ∀ options, Program.parseWith options source = Program.parse source := by
  have scanned (options : ScanOptions) :
      scan options source = (scanAll source).map (Scan.sifted options) := by
    cases read : scanAll source <;> rw [scan, read] <;> rfl
  refine ⟨fun options => ?_, ?_, fun options => ?_⟩
  · rw [scanned, Scan.siftFrom_eq]
    rfl
  · cases read : scanAll source with
    | error error => exact .inl ⟨error, fun options => by rw [scanned, read]; rfl⟩
    | ok tokens =>
      refine .inr
        ⟨tokens, Token.visible tokens, by rw [scanned, read]; rfl, by rw [scanned, read]; rfl, rfl,
        fun token among => ?_, (Program.ofTokens_visible tokens).symm⟩
      simpa using (List.mem_filter.mp among).2
  · unfold Program.parse Program.parseWith
    rw [scanned, scanned]
    cases scanAll source with
    | error error => rfl
    | ok tokens =>
      change (Program.ofTokens _).mapError _ = (Program.ofTokens _).mapError _
      rw [Program.ofTokens_sifted, Program.ofTokens_sifted]

end MicroBasic
