import MicroBasic.Proofs.Parsing.Sources

/-!
# Tokens cover their source

Scanning loses nothing: the tokens of a source stand in it one behind the other, each with the
characters of its span and the position where they begin, and what lies between them is blank.
`Token.StandsAt` says where a token stands by the characters before it, which fixes its offsets and
its position at once; `Scan.Covers` lays the tokens over the characters, one blank or one lexeme
after the other, and every fact about the spans is read off it by induction.
-/

namespace MicroBasic

/-- The position behind some characters: a line for every line break, and in the last line a column
for every character. -/
def Position.behind (before : List Char) : Position where
  line := before.count '\n' + 1
  column := (before.reverse.takeWhile (· ≠ '\n')).length + 1

theorem exists_last_line (before : List Char) : ∃ front last, before = front ++ last ∧ '\n' ∉ last ∧
    (front = [] ∨ ∃ lines, front = lines ++ ['\n']) := by
  induction before with
  | nil => exact ⟨[], [], rfl, nofun, .inl rfl⟩
  | cons c before ih =>
    obtain ⟨front, last, rfl, within, begins⟩ := ih
    rcases begins with rfl | ⟨lines, rfl⟩
    · by_cases line : c = '\n'
      · exact ⟨[c], last, rfl, within, .inr ⟨[], line ▸ rfl⟩⟩
      · refine ⟨[], c :: last, rfl, fun among => ?_, .inl rfl⟩
        rcases List.mem_cons.mp among with same | among
        · exact line same.symm
        · exact within among
    · exact ⟨c :: (lines ++ ['\n']), last, rfl, within, .inr ⟨c :: lines, rfl⟩⟩

theorem Position.behind_eq {last front : List Char} (within : '\n' ∉ last)
    (begins : front = [] ∨ ∃ lines, front = lines ++ ['\n']) :
    Position.behind (front ++ last) = ⟨front.count '\n' + 1, last.length + 1⟩ := by
  have inner : ∀ c ∈ last.reverse, decide (c ≠ '\n') = true := fun c among =>
    decide_eq_true fun line => within (line ▸ List.mem_reverse.mp among)
  have oneLine : last.count '\n' = 0 := List.count_eq_zero.mpr within
  have stops : front.reverse.takeWhile (· ≠ '\n') = [] := by
    rcases begins with rfl | ⟨lines, rfl⟩
    · rfl
    · rw [List.reverse_append]
      rfl
  unfold Position.behind
  rw [List.count_append, oneLine, List.reverse_append, List.takeWhile_append_of_pos inner, stops,
    List.append_nil, List.length_reverse, Nat.add_zero]

namespace LineIndex

theorem lt_of_mem_lineStartsFrom {offset : Nat} {cs : List Char} {start : Nat}
    (among : start ∈ lineStartsFrom offset cs) : offset < start := by
  induction cs generalizing offset with
  | nil => cases among
  | cons c rest ih =>
    have size := c.utf8Size_pos
    rw [lineStartsFrom] at among
    split at among
    · rcases List.mem_cons.mp among with rfl | among
      · omega
      · exact Nat.lt_trans (by omega) (ih among)
    · exact Nat.lt_trans (by omega) (ih among)

theorem lookup_of_lt {offset : Nat} {starts : List Nat} (later : ∀ start ∈ starts, offset < start)
    (line start : Nat) : lookup offset starts line start = (line, start) := by
  cases starts with
  | nil => rfl
  | cons next rest => rw [lookup, if_neg (Nat.not_le_of_lt (later next List.mem_cons_self))]

theorem lookup_past {offset target : Nat} {lines : List Char} (rest : List Char) (line start : Nat)
    (past : offset + byteLength (lines ++ ['\n']) ≤ target) :
    lookup target (lineStartsFrom offset (lines ++ '\n' :: rest)) line start =
      lookup target (lineStartsFrom (offset + byteLength (lines ++ ['\n'])) rest)
        (line + (lines ++ ['\n']).count '\n') (offset + byteLength (lines ++ ['\n'])) := by
  induction lines generalizing offset line start with
  | nil =>
    have next : offset + Char.utf8Size '\n' ≤ target := past
    rw [List.nil_append, lineStartsFrom, if_pos rfl, lookup, if_pos next]
    rfl
  | cons c lines ih =>
    have bytes : offset + byteLength (c :: lines ++ ['\n']) =
        offset + c.utf8Size + byteLength (lines ++ ['\n']) :=
      (Nat.add_assoc _ _ _).symm
    rw [bytes] at past ⊢
    rw [List.cons_append, lineStartsFrom]
    split
    · next isLine =>
      have next : offset + c.utf8Size ≤ target := Nat.le_trans (Nat.le_add_right _ _) past
      have counted :
          line + (c :: lines ++ ['\n']).count '\n' = line + 1 + (lines ++ ['\n']).count '\n' := by
        rw [List.cons_append, isLine, List.count_cons_self]
        omega
      rw [lookup, if_pos next, ih _ _ past, counted]
    · next notLine =>
      rw [ih _ _ past, List.cons_append, List.count_cons, if_neg (by simpa using notLine),
        Nat.add_zero]

theorem lookup_within {last : List Char} (within : '\n' ∉ last) (offset : Nat) (rest : List Char)
    (line start : Nat) :
    lookup (offset + byteLength last) (lineStartsFrom offset (last ++ rest)) line start =
      (line, start) := by
  induction last generalizing offset with
  | nil => exact lookup_of_lt (fun _ => lt_of_mem_lineStartsFrom) line start
  | cons c last ih =>
    obtain ⟨notLine, within⟩ := not_or.mp (List.mem_cons.not.mp within)
    rw [List.cons_append, lineStartsFrom, if_neg (Ne.symm notLine), byteLength, ← Nat.add_assoc]
    exact ih within _

theorem dropBytes_append (front rest : List Char) :
    dropBytes (front ++ rest) (byteLength front) = rest := by
  induction front with
  | nil => cases rest <;> rfl
  | cons c front ih =>
    obtain ⟨bytes, size⟩ : ∃ bytes, c.utf8Size + byteLength front = bytes + 1 :=
      Nat.exists_eq_add_one.mpr (Nat.add_pos_left c.utf8Size_pos _)
    rw [byteLength, size, List.cons_append, dropBytes, ← size, Nat.add_sub_cancel_left, ih]

theorem charsIn?_append (last rest : List Char) :
    charsIn? (last ++ rest) (byteLength last) = some last.length := by
  induction last with
  | nil => cases rest <;> rfl
  | cons c last ih =>
    obtain ⟨bytes, size⟩ : ∃ bytes, c.utf8Size + byteLength last = bytes + 1 :=
      Nat.exists_eq_add_one.mpr (Nat.add_pos_left c.utf8Size_pos _)
    rw [byteLength, size, List.cons_append, charsIn?, ← size, if_pos (Nat.le_add_right _ _),
      Nat.add_sub_cancel_left, ih]
    rfl

theorem position_behind (before rest : List Char) :
    (LineIndex.of (before ++ rest)).position (before ++ rest) (byteLength before) =
      Position.behind before := by
  obtain ⟨front, last, rfl, within, begins⟩ := exists_last_line before
  have found :
    lookup (byteLength (front ++ last)) (lineStartsFrom 0 (front ++ (last ++ rest))) 1 0 =
      (1 + front.count '\n', byteLength front) := by
    rw [byteLength_append]
    rcases begins with rfl | ⟨lines, rfl⟩
    · exact lookup_within within 0 rest 1 0
    · have past :=
        @lookup_past 0 (byteLength (lines ++ ['\n']) + byteLength last) lines (last ++ rest) 1 0
          (by omega)
      rw [Nat.zero_add] at past
      rw [List.append_assoc, List.singleton_append, past]
      exact lookup_within within _ rest _ _
  rw [Position.behind_eq within begins, position, LineIndex.of, List.tail_cons,
    List.append_assoc, found]
  dsimp only
  rw [byteLength_append, Nat.add_sub_cancel_left, dropBytes_append, charsIn?_append,
    Option.getD_some, Nat.add_comm 1]

end LineIndex

/-- Where a token stands: behind some characters, with the characters of its lexeme. -/
structure Token.StandsAt (token : Token) (before chars : List Char) : Prop where
  lexeme_eq : token.lexeme = String.ofList chars
  span_eq : token.span = ⟨byteLength before, byteLength (before ++ chars)⟩
  position_eq : token.position = Position.behind before

namespace Scan

theorem lexeme_line_free {c : Char} {rest : List Char} {kind : TokenKind} {length : Nat}
    (found : lexeme c rest = .token kind length) (other : c ≠ '\n') :
    '\n' ∉ (c :: rest).take length := by
  intro among
  obtain ⟨count, rfl⟩ := Nat.exists_eq_add_one.mpr (lexeme_bounds found).1
  rw [List.take_succ_cons] at among
  rcases List.mem_cons.mp among with line | among
  · exact other line.symm
  · obtain ⟨front, back, split⟩ := List.append_of_mem among
    have whole : rest = front ++ '\n' :: (back ++ rest.drop count) := by
      rw [← List.cons_append, ← List.append_assoc, ← split, List.take_append_drop]
    rw [whole, lexeme_line] at found
    have short := (lexeme_bounds found).2.1
    have taken := congrArg List.length split
    rw [List.length_take, List.length_append, List.length_cons] at taken
    rw [List.length_cons] at short
    omega

theorem lexeme_newline {c : Char} {rest : List Char} {length : Nat}
    (found : lexeme c rest = .token .newline length) : c = '\n' := by
  cases takes_of_lexeme found with
  | newline isLine => exact isLine

/-- Tokens laid over characters that stand behind others: blanks lie between them, and the last of
them stands at the end. -/
inductive Covers : List Char → List Char → List Token → Prop
  | finish {before : List Char} {finish : Token} (stands : finish.StandsAt before [])
    (isFinish : finish.kind = .finish) : Covers before [] [finish]
  | space {before rest : List Char} {c : Char} {tokens : List Token} (isSpace : isSpace c = true)
    (others : Covers (before ++ [c]) rest tokens) : Covers before (c :: rest) tokens
  | token {before chars rest : List Char} {token : Token} {tokens : List Token}
    (stands : token.StandsAt before chars) (written : chars ≠ []) (notFinish : token.kind ≠ .finish)
    (line : token.kind = .newline ∧ chars = ['\n'] ∨ token.kind ≠ .newline ∧ '\n' ∉ chars)
    (others : Covers (before ++ chars) rest tokens) :
    Covers before (chars ++ rest) (token :: tokens)

theorem covers_of_scanFrom {fuel : Nat} {before cs : List Char} {tokens : List Token}
    (enough : cs.length < fuel)
    (read : scanFrom (LineIndex.of (before ++ cs)) (before ++ cs) fuel cs (byteLength before) =
      .ok tokens) :
    Covers before cs tokens := by
  induction fuel generalizing before cs tokens with
  | zero => cases enough
  | succ fuel ih =>
    cases cs with
    | nil =>
      cases read
      exact .finish ⟨rfl, by rw [List.append_nil], LineIndex.position_behind before []⟩ rfl
    | cons c rest =>
      rw [scanFrom] at read
      split at read
      · next isSpace =>
        have bytes : byteLength (before ++ [c]) = byteLength before + c.utf8Size :=
          byteLength_append before [c]
        rw [← bytes, ← List.singleton_append, ← List.append_assoc] at read
        exact .space isSpace (ih (Nat.lt_of_succ_lt_succ enough) read)
      · split at read
        · next kind length found =>
          obtain ⟨others, rest_read, same⟩ := Results.of_bind read
          cases same
          obtain ⟨positive, short, notFinish⟩ := lexeme_bounds found
          have whole : (c :: rest).take length ++ (c :: rest).drop length = c :: rest :=
            List.take_append_drop _ _
          have bytes : byteLength (before ++ (c :: rest).take length) =
              (Piece.of (c :: rest) length (byteLength before)).span.stop :=
                byteLength_append before _
          have place := LineIndex.position_behind before (c :: rest)
          rw [← bytes, ← whole, ← List.append_assoc, whole] at rest_read
          have covers := ih (length_drop_lt found enough) rest_read
          have cover := @Covers.token before _ _ ⟨kind, String.ofList ((c :: rest).take length),
              (Piece.of (c :: rest) length (byteLength before)).span,
              (LineIndex.of (before ++ c :: rest)).position (before ++ c :: rest)
                (byteLength before)⟩ _
            ⟨rfl, by rw [bytes]; rfl, place⟩ ?_ notFinish ?_ covers
          · rw [whole] at cover
            exact cover
          · intro same
            have size := congrArg List.length same
            rw [List.length_take, List.length_nil] at size
            omega
          · by_cases line : c = '\n'
            · subst line
              cases found
              exact .inl ⟨rfl, rfl⟩
            · refine .inr ⟨?_, lexeme_line_free found line⟩
              rintro ⟨⟩
              exact line (lexeme_newline found)
        · cases read

variable {before cs : List Char} {tokens : List Token}

theorem Covers.stands (covers : Covers before cs tokens) {token : Token} (among : token ∈ tokens) :
    ∃ gap chars after, cs = gap ++ chars ++ after ∧ token.StandsAt (before ++ gap) chars := by
  induction covers with
  | finish stands _ =>
    cases List.mem_singleton.mp among
    exact ⟨[], [], [], rfl, by rwa [List.append_nil]⟩
  | @space before rest c tokens _ _ ih =>
    obtain ⟨gap, chars, after, rfl, stands⟩ := ih among
    exact ⟨c :: gap, chars, after, rfl, by rwa [List.append_assoc] at stands⟩
  | @token before chars rest first tokens stands _ _ _ _ ih =>
    rcases List.mem_cons.mp among with rfl | among
    · exact ⟨[], chars, rest, rfl, by rwa [List.append_nil]⟩
    · obtain ⟨gap, others, after, rfl, stands⟩ := ih among
      refine ⟨chars ++ gap, others, after, ?_, by rwa [List.append_assoc] at stands⟩
      simp only [List.append_assoc]

theorem Covers.start_le (covers : Covers before cs tokens) {token : Token}
    (among : token ∈ tokens) : byteLength before ≤ token.span.start := by
  obtain ⟨gap, chars, after, _, stands⟩ := covers.stands among
  rw [stands.span_eq, byteLength_append]
  exact Nat.le_add_right _ _

theorem byteLength_pos {chars : List Char} (written : chars ≠ []) : 0 < byteLength chars := by
  cases chars with
  | nil => exact absurd rfl written
  | cons c chars => exact Nat.add_pos_left c.utf8Size_pos _

theorem Covers.ordered (covers : Covers before cs tokens) : tokens.Pairwise fun token later =>
    token.span.start < token.span.stop ∧ token.span.stop ≤ later.span.start := by
  induction covers with
  | finish => exact List.pairwise_singleton _ _
  | space _ _ ih => exact ih
  | token stands written _ _ others ih =>
    refine .cons (fun later among => ?_) ih
    have nonempty := byteLength_pos written
    have start := others.start_le among
    rw [byteLength_append] at start
    rw [stands.span_eq]
    dsimp only
    rw [byteLength_append]
    omega

theorem Covers.ends (covers : Covers before cs tokens) :
    ∃ others finish, tokens = others ++ [finish] ∧
    finish.kind = .finish ∧ finish.StandsAt (before ++ cs) [] ∧
      ∀ token ∈ others, token.kind ≠ .finish := by
  induction covers with
  | @finish before finish stands isFinish =>
    exact ⟨[], finish, rfl, isFinish, by rwa [List.append_nil], nofun⟩
  | space _ _ ih =>
    obtain ⟨others, finish, rfl, isFinish, stands, notFinish⟩ := ih
    exact ⟨others, finish, rfl, isFinish, by rwa [List.append_assoc] at stands, notFinish⟩
  | token _ _ first _ _ ih =>
    obtain ⟨others, finish, rfl, isFinish, stands, notFinish⟩ := ih
    exact ⟨_ :: others, finish, rfl, isFinish, by rwa [List.append_assoc] at stands,
      List.forall_mem_cons.mpr ⟨first, notFinish⟩⟩

theorem Covers.isSpace_outside {gap : List Char} {c : Char} {after : List Char}
    (covers : Covers before cs tokens)
    (whole : cs = gap ++ c :: after) (outside : ∀ token ∈ tokens,
      ¬ (token.span.start ≤ byteLength (before ++ gap) ∧
        byteLength (before ++ gap) < token.span.stop)) :
    isSpace c = true := by
  induction covers generalizing gap with
  | finish => cases gap <;> cases whole
  | @space before rest d tokens isSpace _ ih =>
    cases gap with
    | nil =>
      cases whole
      exact isSpace
    | cons e gap =>
      cases whole
      refine ih rfl fun token among => ?_
      rw [List.append_assoc]
      exact outside token among
  | @token before chars rest first tokens stands _ _ _ _ ih =>
    -- The character lies in the lexeme or behind it.
    rcases List.append_eq_append_iff.mp whole with ⟨inner, rfl, behind⟩ | ⟨inner, lexeme, _⟩
    · refine ih behind fun token among => ?_
      rw [List.append_assoc]
      exact outside token (List.mem_cons_of_mem _ among)
    · cases inner with
      | nil =>
        rw [List.append_nil] at lexeme
        subst lexeme
        refine @ih [] ?_ fun token among => ?_
        · exact (List.append_cancel_left whole)
        · rw [List.append_nil]
          exact outside token (List.mem_cons_of_mem _ among)
      | cons d inner =>
        refine absurd ?_ (outside first List.mem_cons_self)
        rw [stands.span_eq, lexeme]
        simp only [byteLength_append, byteLength]
        have size := d.utf8Size_pos
        omega

theorem Covers.newline {gap after : List Char} (covers : Covers before cs tokens)
    (whole : cs = gap ++ '\n' :: after) :
    ∃ token ∈ tokens, token.kind = .newline ∧ token.StandsAt (before ++ gap) ['\n'] := by
  induction covers generalizing gap with
  | finish => cases gap <;> cases whole
  | @space before rest d tokens isSpace _ ih =>
    cases gap with
    | nil =>
      cases whole
      cases isSpace
    | cons e gap =>
      cases whole
      obtain ⟨token, among, isLine, stands⟩ := ih rfl
      exact ⟨token, among, isLine, by rwa [List.append_assoc] at stands⟩
  | @token before chars rest first tokens stands written _ line _ ih =>
    rcases List.append_eq_append_iff.mp whole with ⟨inner, rfl, behind⟩ | ⟨inner, lexeme, behind⟩
    · obtain ⟨token, among, isLine, stands⟩ := ih behind
      exact ⟨token, List.mem_cons_of_mem _ among, isLine, by rwa [List.append_assoc] at stands⟩
    · cases inner with
      | nil =>
        rw [List.append_nil] at lexeme
        subst lexeme
        obtain ⟨token, among, isLine, stands⟩ := @ih [] (List.append_cancel_left whole)
        exact ⟨token, List.mem_cons_of_mem _ among, isLine, by rwa [List.append_nil] at stands⟩
      | cons d inner =>
        cases behind
        rcases line with ⟨isLine, single⟩ | ⟨_, free⟩
        · rw [single] at lexeme stands
          cases gap with
          | nil => exact ⟨first, List.mem_cons_self, isLine, by rwa [List.append_nil]⟩
          | cons e gap => cases gap <;> cases lexeme
        · exact absurd (lexeme ▸ List.mem_append_right _ List.mem_cons_self) free

theorem isSpace_iff {c : Char} : isSpace c = true ↔ c = ' ' ∨ c = '\t' ∨ c = '\r' ∨ c = '\x0c' := by
  simp only [isSpace, Bool.or_eq_true, beq_iff_eq, or_assoc]

/-- What the tokens of a source keep of it. -/
structure Lossless (source : List Char) (tokens : List Token) : Prop where
  /-- The spans increase and do not overlap. -/
  ordered : tokens.Pairwise fun token later =>
    token.span.start < token.span.stop ∧ token.span.stop ≤ later.span.start
  /-- A token begins and ends at character boundaries; its lexeme is the text between them, and its
  position is that of the first of them. -/
  stands : ∀ token ∈ tokens, ∃ before chars after, source = before ++ chars ++ after ∧
    token.StandsAt before chars
  /-- What no span covers is a blank. -/
  blank : ∀ before c after, source = before ++ c :: after →
    (∀ token ∈ tokens,
      ¬ (token.span.start ≤ byteLength before ∧ byteLength before < token.span.stop)) →
    c = ' ' ∨ c = '\t' ∨ c = '\r' ∨ c = '\x0c'
  /-- A line break is a token of its own. -/
  newline : ∀ before after, source = before ++ '\n' :: after →
    ∃ token ∈ tokens, token.kind = .newline ∧ token.StandsAt before ['\n']
  /-- The last token, and only that one, is the end of the source. -/
  ends : ∃ others finish, tokens = others ++ [finish] ∧ finish.kind = .finish ∧
    finish.StandsAt source [] ∧ ∀ token ∈ others, token.kind ≠ .finish

end Scan

theorem Scan.covers_of_scanAll {source : String} {tokens : List Token}
    (scanned : scanAll source = .ok tokens) : Scan.Covers [] source.toList tokens :=
  Scan.covers_of_scanFrom (Nat.lt_succ_self _) scanned

/-- Scanning loses nothing of a source when the comments are kept. -/
theorem scan_lossless {source : String} {tokens : List Token}
    (scanned : scan ⟨true⟩ source = .ok tokens) : Scan.Lossless source.toList tokens := by
  have whole : scanAll source = .ok tokens := by
    obtain ⟨all, read, same⟩ := Results.of_bind scanned
    cases same
    exact read
  have covers := Scan.covers_of_scanAll whole
  exact {
    ordered := covers.ordered
    stands := fun _ => covers.stands
    blank := fun _ _ _ split outside => Scan.isSpace_iff.mp (covers.isSpace_outside split outside)
    newline := fun _ _ => covers.newline
    ends := covers.ends }

/-- Characters of several bytes, a doubled quote, a comment after `REM` and a blank line. -/
def remarkedSource : String :=
  "s$ = \"ä\"\"€\"\t' ü\r\nrem…\n\n\x0c"

theorem scan_lossless_remarked :
    ∃ tokens, scan ⟨true⟩ remarkedSource = .ok tokens ∧ tokens.length = 9 ∧
    Scan.Lossless remarkedSource.toList tokens :=
  ⟨_, rfl, by decide +kernel, scan_lossless rfl⟩

end MicroBasic
