import MicroBasic.Proofs.Parsing.Sources

/-!
# Quoted texts

A text is written between quotes, with each quote within it doubled. The scanner reads it back: a
quote that is followed by another one stands for itself, and the first one that is not closes the
text. So what is read as a text is written exactly as its literal, and what begins with a quote but
is no literal is reported.
-/

namespace MicroBasic

namespace Text

/-- A text with each quote doubled. -/
def doubled (cs : List Char) : List Char :=
  cs.flatMap fun c => if c = '"' then ['"', '"'] else [c]

/-- How a text is written in a source. -/
def literal (value : String) : String :=
  String.ofList ('"' :: (doubled value.toList ++ ['"']))

theorem doubled_quote (cs : List Char) : doubled ('"' :: cs) = '"' :: '"' :: doubled cs := rfl

theorem doubled_cons {c : Char} (other : c ≠ '"') (cs : List Char) :
    doubled (c :: cs) = c :: doubled cs := by
  rw [doubled, List.flatMap_cons, if_neg other]
  rfl

end Text

namespace Scan

/-- The characters after an opening quote close the text with this value on its line, and others
follow it. -/
structure Closes (cs value others : List Char) : Prop where
  written : cs = Text.doubled value ++ '"' :: others
  within : '\n' ∉ value
  single : others.head? ≠ some '"'

variable {cs value others : List Char}

theorem quotedBody_of_closes (closes : Closes cs value others) :
    quotedBody cs = .ok (value, (Text.doubled value).length + 1) := by
  obtain ⟨rfl, within, single⟩ := closes
  induction value with
  | nil =>
    change quotedBody ('"' :: others) = _
    rw [quotedBody]
    · rfl
    · rintro more rfl
      exact single rfl
  | cons c value ih =>
    obtain ⟨notLine, within⟩ := not_or.mp (List.mem_cons.not.mp within)
    by_cases isQuote : c = '"'
    · rw [isQuote, Text.doubled_quote, List.cons_append, List.cons_append, quotedBody, ih within]
      rfl
    · rw [Text.doubled_cons isQuote, List.cons_append, quotedBody, ih within]
      · rfl
      · exact fun _ quote => (isQuote quote).elim
      · exact isQuote
      · exact Ne.symm notLine

theorem closes_of_quotedBody {length : Nat} (read : quotedBody cs = .ok (value, length)) :
    ∃ others, Closes cs value others := by
  fun_induction quotedBody cs generalizing value length with
  | case1 => cases read
  | case2 rest value length inner ih =>
    cases read
    obtain ⟨others, rfl, within, single⟩ := ih inner
    exact ⟨others, rfl, by simpa using within, single⟩
  | case3 => cases read
  | case4 rest single =>
    cases read
    refine ⟨rest, rfl, List.not_mem_nil, fun head => ?_⟩
    obtain ⟨more, rfl⟩ := List.head?_eq_some_iff.mp head
    exact single more rfl
  | case5 => cases read
  | case6 c rest _ notQuote notLine value length inner ih =>
    cases read
    obtain ⟨others, rfl, within, single⟩ := ih inner
    refine ⟨others, ?_, ?_, single⟩
    · rw [Text.doubled_cons notQuote]
      rfl
    · exact List.mem_cons.not.mpr (not_or.mpr ⟨Ne.symm notLine, within⟩)
  | case7 => cases read

theorem lexeme_of_closes (closes : Closes cs value others) :
    lexeme '"' cs = .token (.text (String.ofList value)) ((Text.doubled value).length + 1 + 1) := by
  change scanQuoted cs = _
  rw [scanQuoted, quotedBody_of_closes closes]

/-- The characters of a closed text are its literal. -/
theorem Closes.take (closes : Closes cs value others) :
    ('"' :: cs).take ((Text.doubled value).length + 1 + 1) = '"' :: (Text.doubled value ++ ['"']) ∧
      ('"' :: cs).drop ((Text.doubled value).length + 1 + 1) = others := by
  have size :
      ('"' :: (Text.doubled value ++ ['"'])).length = (Text.doubled value).length + 1 + 1 := by
    simp only [List.length_cons, List.length_append, List.length_nil, Nat.zero_add]
  have whole : '"' :: cs = '"' :: (Text.doubled value ++ ['"']) ++ others := by
    rw [closes.written, List.cons_append, List.append_assoc, List.singleton_append]
  rw [whole, ← size]
  exact ⟨List.take_left, List.drop_left⟩

theorem Cuts.literal {tokens : List Token} (cuts : Cuts cs tokens) :
    ∀ token ∈ tokens, ∀ value, token.kind = .text value → token.lexeme = Text.literal value ∧
      '\n' ∉ value.toList := by
  induction cuts with
  | done => exact nofun
  | space _ _ ih => exact ih
  | @token c rest kind length tokens _ found _ ih =>
    refine List.forall_mem_cons.mpr ⟨?_, ih⟩
    rintro value ⟨⟩
    cases takes_of_lexeme found with
    | @text value length isQuote read =>
      obtain ⟨others, closes⟩ := closes_of_quotedBody read
      have size := read.symm.trans (quotedBody_of_closes closes)
      cases size
      rw [isQuote, written, closes.take.1, Text.literal, String.toList_ofList]
      exact ⟨rfl, closes.within⟩

/-- The scanner, begun before some characters, comes to stand before the last of them. -/
inductive Arrives (last : List Char) : List Char → Prop
  | here : Arrives last last
  | space {c : Char} {rest : List Char} (isSpace : isSpace c = true) (arrives : Arrives last rest) :
      Arrives last (c :: rest)
  | token {c : Char} {rest : List Char} {kind : TokenKind} {length : Nat}
      (notSpace : isSpace c = false) (found : lexeme c rest = .token kind length)
      (arrives : Arrives last ((c :: rest).drop length)) :
      Arrives last (c :: rest)

section

variable {index : LineIndex} {source : List Char} {fuel offset : Nat}

theorem scanFrom_unclosed {rest : List Char} (arrives : Arrives ('"' :: rest) cs)
    (unclosed : ∀ value others, ¬ Closes rest value others) (enough : cs.length < fuel) :
    ∃ error, scanFrom index source fuel cs offset = .error error ∧ error.cause = .unclosedText := by
  induction arrives generalizing fuel offset with
  | here =>
    obtain ⟨fuel, rfl⟩ := Nat.exists_eq_add_one.mpr (Nat.zero_lt_of_lt enough)
    have found : ∃ length, lexeme '"' rest = .fault .unclosedText length := by
      change ∃ length, scanQuoted rest = _
      unfold scanQuoted
      split
      next read =>
        obtain ⟨others, closes⟩ := closes_of_quotedBody read
        exact absurd closes (unclosed _ others)
      next => exact ⟨_, rfl⟩
    obtain ⟨length, found⟩ := found
    rw [scanFrom, if_neg (by decide), found]
    exact ⟨_, rfl, rfl⟩
  | @space c _ isSpace _ ih =>
    obtain ⟨fuel, rfl⟩ := Nat.exists_eq_add_one.mpr (Nat.zero_lt_of_lt enough)
    rw [scanFrom, if_pos isSpace]
    exact ih (Nat.lt_of_succ_lt_succ enough)
  | @token c others kind length notSpace found _ ih =>
    obtain ⟨fuel, rfl⟩ := Nat.exists_eq_add_one.mpr (Nat.zero_lt_of_lt enough)
    obtain ⟨error, failed, cause⟩ :=
      @ih fuel (offset + byteLength ((c :: others).take length)) (length_drop_lt found enough)
    rw [scanFrom_token notSpace found, failed]
    exact ⟨error, rfl, cause⟩

theorem le_start_of_scanFrom {error : ScanError}
    (failed : scanFrom index source fuel cs offset = .error error) : offset ≤ error.span.start := by
  fun_induction scanFrom index source fuel cs offset with
  | case1 | case2 => cases failed
  | case3 _ c rest offset _ ih => exact Nat.le_trans (Nat.le_add_right _ _) (ih failed)
  | case4 fuel c rest offset _ kind length _ piece =>
    rename_i ih
    cases later : scanFrom index source fuel ((c :: rest).drop length) piece.span.stop with
    | ok tokens => rw [later] at failed; cases failed
    | error error =>
      rw [later] at failed
      cases failed
      exact Nat.le_trans (Nat.le_add_right _ _) (ih later)
  | case5 =>
    cases failed
    exact Nat.le_refl _

end

end Scan

/-- Quoted texts are read as they are written. A literal is the first token of a source that begins
with it, whatever follows, unless that is another quote: what may be wrong stands behind it. Each
token that is a text is written as the literal of its value. A quote where the scanner stands is
reported if no literal begins with it. -/
theorem literals_read_back (options : ScanOptions) :
    (∀ value others : String, '\n' ∉ value.toList → others.toList.head? ≠ some '"' →
      match scan options (Text.literal value ++ others) with
      | .ok tokens => ∃ first rest, tokens = first :: rest ∧ first.kind = .text value ∧
          first.lexeme = Text.literal value ∧
            first.span = ⟨0, byteLength (Text.literal value).toList⟩
      | .error error => byteLength (Text.literal value).toList ≤ error.span.start) ∧
    (∀ source tokens, scan options source = .ok tokens → ∀ token ∈ tokens, ∀ value,
      token.kind = .text value → token.lexeme = Text.literal value ∧ '\n' ∉ value.toList) ∧
    ∀ source rest, Scan.Arrives ('"' :: rest) source.toList →
      (∀ value others, ¬ Scan.Closes rest value others) →
      ∃ error, scan options source = .error error ∧
          error.cause.message = "unterminated string literal" := by
  refine ⟨?_, ?_, ?_⟩
  · intro value others within single
    have chars : (Text.literal value ++ others).toList =
        '"' :: (Text.doubled value.toList ++ '"' :: others.toList) := by
      rw [String.toList_append, Text.literal, String.toList_ofList, List.cons_append,
        List.append_assoc]
      rfl
    have closes : Scan.Closes
        (Text.doubled value.toList ++ '"' :: others.toList) value.toList others.toList :=
      ⟨rfl, within, single⟩
    have read := @Scan.scanFrom_token (LineIndex.of (Text.literal value ++ others).toList)
      (Text.literal value ++ others).toList
        (Text.literal value ++ others).toList.length 0 '"' _ _ _ rfl
      (Scan.lexeme_of_closes closes)
    have piece : byteLength ('"' :: (Text.doubled value.toList ++ ['"'])) =
        byteLength (Text.literal value).toList := by
      rw [Text.literal, String.toList_ofList]
    rw [closes.take.1, closes.take.2, piece, Nat.zero_add, String.ofList_toList, ← chars] at read
    rw [scan, scanAll, read]
    cases later : Scan.scanFrom (LineIndex.of (Text.literal value ++ others).toList)
      (Text.literal value ++ others).toList
        (Text.literal value ++ others).toList.length others.toList
      (byteLength (Text.literal value).toList) with
    | error error => exact Scan.le_start_of_scanFrom later
    | ok tokens =>
      have span : (Scan.Piece.of ('"' :: (Text.doubled value.toList ++ '"' :: others.toList))
          ((Text.doubled value.toList).length + 1 + 1) 0).span =
              ⟨0, byteLength (Text.literal value).toList⟩ := by
        rw [Scan.Piece.of, closes.take.1, piece, Nat.zero_add]
      rw [← chars] at span
      obtain ⟨keep⟩ := options
      cases keep
      · exact ⟨_, _, rfl, rfl, rfl, span⟩
      · exact ⟨_, _, rfl, rfl, rfl, span⟩
  · intro source tokens scanned token among value isText
    obtain ⟨bare, cuts⟩ := Program.cuts_of_scan scanned
    obtain ⟨all, finish, places, read⟩ := Program.scan_of_cuts cuts options
    have within : token ∈ all ++ [finish] := by
      cases scanned.symm.trans read
      split at among
      · exact among
      · exact Token.mem_of_visible among
    rcases List.mem_append.mp within with within | last
    · exact cuts.literal token.bare (places.bare_eq ▸ List.mem_map_of_mem within) value isText
    · cases List.mem_singleton.mp last
      cases isText.symm.trans places.finish_kind
  · intro source rest arrives unclosed
    obtain ⟨error, failed, cause⟩ := Scan.scanFrom_unclosed arrives unclosed (Nat.lt_succ_self _)
    refine ⟨error, ?_, by rw [cause]; rfl⟩
    rw [scan, scanAll, failed]
    rfl

end MicroBasic
