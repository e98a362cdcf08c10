import MicroBasic.Console.Session
import MicroBasic.Proofs.Parsing.Scanning

/-!
# Sources line by line

The tokens of a source are those that its characters are cut into, each at its place, and one that
ends the source behind its last byte. The end of a line is always a token of its own, so a source
that is cut there has the tokens of its beginning and those of the rest.

Main statement: if a source is a program, then its beginning up to the end of any line is a program,
and so is the rest; or the beginning is no program, and further lines may mend it
(`Program.parseWith_cut`).
-/

namespace MicroBasic

theorem byteLength_append (first second : List Char) :
    byteLength (first ++ second) = byteLength first + byteLength second := by
  induction first with
  | nil => exact (Nat.zero_add _).symm
  | cons c first ih =>
    rw [List.cons_append, byteLength, byteLength, ih, Nat.add_assoc]

theorem utf8ByteSize_ofList (cs : List Char) : (String.ofList cs).utf8ByteSize = byteLength cs := by
  induction cs with
  | nil => rfl
  | cons c cs ih =>
    rw [String.ofList_cons, String.utf8ByteSize_append, String.utf8ByteSize_singleton, ih,
      byteLength]

theorem Text.utf8ByteSize_trimRight_le (source : String) :
    (Text.trimRight source).utf8ByteSize ≤ byteLength source.toList := by
  have trimmed : Text.dropBlanksRight source.toList <+: source.toList := by
    rw [← List.reverse_suffix, Text.dropBlanksRight, List.reverse_reverse]
    exact List.dropWhile_suffix _
  obtain ⟨blanks, whole⟩ := trimmed
  have size := byteLength_append (Text.dropBlanksRight source.toList) blanks
  rw [whole] at size
  rw [Text.trimRight, utf8ByteSize_ofList, size]
  exact Nat.le_add_right _ _

namespace Scan

/-- The tokens of characters that begin at an offset: they are those that the characters are cut
into, they stand one behind the other, and the last of all stands at the end. -/
structure Places (offset : Nat) (cs : List Char) (bare tokens : List Token) (finish : Token) :
    Prop where
  bare_eq : tokens.map Token.bare = bare
  finish_kind : finish.kind = .finish
  finish_lexeme : finish.lexeme = ""
  finish_start : finish.span.start = offset + byteLength cs
  behind : ∀ token ∈ tokens, offset ≤ token.span.start
  ordered : tokens.Pairwise fun token other => token.span.start < other.span.start

section

variable {cs : List Char} {tokens : List Token} {index : LineIndex} {source : List Char}
    {fuel offset : Nat}

theorem scanFrom_token {c : Char} {rest : List Char} {kind : TokenKind} {length : Nat}
    (notSpace : isSpace c = false) (found : lexeme c rest = .token kind length) :
    scanFrom index source (fuel + 1) (c :: rest) offset =
      (scanFrom index source fuel ((c :: rest).drop length)
        (offset + byteLength ((c :: rest).take length))).map
        (⟨kind, String.ofList ((c :: rest).take length), (Piece.of (c :: rest) length offset).span,
          index.position source offset⟩ :: ·) := by
  rw [scanFrom, if_neg (Bool.eq_false_iff.mp notSpace), found]
  rfl

theorem scanFrom_of_cuts (cuts : Cuts cs tokens) (enough : cs.length < fuel) (index : LineIndex)
    (source : List Char) (offset : Nat) : ∃ scanned finish,
      scanFrom index source fuel cs offset = .ok (scanned ++ [finish]) ∧
        Places offset cs tokens scanned finish := by
  induction cuts generalizing fuel offset with
  | done =>
    obtain ⟨fuel, rfl⟩ := Nat.exists_eq_add_one.mpr (Nat.zero_lt_of_lt enough)
    exact ⟨[], _, rfl, rfl, rfl, rfl, rfl, nofun, .nil⟩
  | @space c rest tokens isSpace others ih =>
    obtain ⟨fuel, rfl⟩ := Nat.exists_eq_add_one.mpr (Nat.zero_lt_of_lt enough)
    obtain ⟨scanned, finish, read, places⟩ :=
      ih (Nat.lt_of_succ_lt_succ enough) (offset + c.utf8Size)
    refine ⟨scanned, finish, ?_, places.bare_eq, places.finish_kind, places.finish_lexeme, ?_,
      fun token among => ?_, places.ordered⟩
    · rw [scanFrom, if_pos isSpace, read]
    · rw [places.finish_start, byteLength, Nat.add_assoc]
    · exact Nat.le_trans (Nat.le_add_right _ _) (places.behind token among)
  | @token c rest kind length tokens notSpace found others ih =>
    obtain ⟨fuel, rfl⟩ := Nat.exists_eq_add_one.mpr (Nat.zero_lt_of_lt enough)
    obtain ⟨scanned, finish, read, places⟩ :=
      ih (length_drop_lt found enough) (offset + byteLength ((c :: rest).take length))
    have later : ∀ token ∈ scanned, offset < token.span.start := fun token among => by
      have start := places.behind token among
      have bytes : 0 < byteLength ((c :: rest).take length) := by
        obtain ⟨count, rfl⟩ := Nat.exists_eq_add_one.mpr (lexeme_bounds found).1
        rw [List.take_succ_cons, byteLength]
        exact Nat.add_pos_left c.utf8Size_pos _
      omega
    refine ⟨⟨kind, String.ofList ((c :: rest).take length),
      (Piece.of (c :: rest) length offset).span, index.position source offset⟩ :: scanned, finish,
        ?_, ?_, places.finish_kind, places.finish_lexeme, ?_, ?_,
      .cons later places.ordered⟩
    · rw [scanFrom_token notSpace found, read]
      rfl
    · rw [List.map_cons, places.bare_eq]
      rfl
    · rw [places.finish_start, Nat.add_assoc, ← byteLength_append, List.take_append_drop]
    · exact List.forall_mem_cons.mpr
        ⟨Nat.le_refl _, fun token among => Nat.le_of_lt (later token among)⟩

theorem Places.not_finish {bare : List Token} {finish : Token}
    (places : Places offset cs bare tokens finish) (cuts : Cuts cs bare) :
    ∀ token ∈ tokens, token.kind ≠ .finish := fun token among =>
  cuts.not_finish token.bare (places.bare_eq ▸ List.mem_map_of_mem among)

theorem cuts_of_scanFrom (read : scanFrom index source fuel cs offset = .ok tokens)
    (enough : cs.length < fuel) : ∃ bare, Cuts cs bare := by
  fun_induction scanFrom index source fuel cs offset generalizing tokens with
  | case1 => cases enough
  | case2 => exact ⟨[], .done⟩
  | case3 _ _ _ _ isSpace ih =>
    obtain ⟨bare, cuts⟩ := ih read (Nat.lt_of_succ_lt_succ enough)
    exact ⟨bare, .space isSpace cuts⟩
  | case4 _ _ _ _ notSpace _ _ found =>
    rename_i ih
    obtain ⟨others, read, _⟩ := Results.of_bind read
    obtain ⟨bare, cuts⟩ := ih read (length_drop_lt found enough)
    exact ⟨_, .token (Bool.eq_false_iff.mpr notSpace) found cuts⟩
  | case5 => cases read

end

end Scan

/-- What the parser sees of some tokens: all but the comments. -/
def Token.visible (tokens : List Token) : List Token :=
  tokens.filter fun token => !token.kind.isComment

section

variable {tokens others : List Token} {finish : Token}

theorem Token.visible_line {ending : Token} (before behind : List Token)
    (ends : ending.kind = .newline) :
    Token.visible (before ++ ending :: behind) =
      Token.visible before ++ ending :: Token.visible behind := by
  unfold Token.visible
  rw [List.filter_append, List.filter_cons, ends]
  rfl

theorem Token.mem_of_visible {token : Token} (among : token ∈ Token.visible tokens) :
    token ∈ tokens :=
  List.mem_of_mem_filter among

theorem Token.alike_visible {moves : Moves}
    (same : tokens.map (Token.moved moves.first) = others.map (Token.moved moves.second)) :
    List.Forall₂ (Tree.Alike moves) (Token.visible tokens) (Token.visible others) := by
  induction tokens generalizing others with
  | nil =>
    cases others with
    | nil => exact .nil
    | cons => cases same
  | cons token tokens ih =>
    cases others with
    | nil => cases same
    | cons other others =>
      obtain ⟨first, rest⟩ := List.cons.inj same
      have kinds : other.kind = token.kind := (congrArg Token.kind first).symm
      unfold Token.visible
      rw [List.filter_cons, List.filter_cons, kinds]
      split
      · exact .cons first (ih rest)
      · exact ih rest

theorem Cursor.before_append (tokens : List Token) (isFinish : finish.kind = .finish) :
    Cursor.before (tokens ++ [finish]) = ⟨Token.visible tokens, finish, true⟩ := by
  have seen : (tokens ++ [finish]).filter (fun token => !token.kind.isComment) =
      Token.visible tokens ++ [finish] := by
    rw [List.filter_append, List.filter_cons, isFinish]
    rfl
  unfold Cursor.before
  rw [seen]
  simp only [List.getLast?_append, List.getLast?_singleton, Option.some_or, isFinish,
    List.dropLast_concat]
  rfl

theorem Program.ofTokens_visible (tokens : List Token) :
    Program.ofTokens (Token.visible tokens) = Program.ofTokens tokens := by
  have before : Cursor.before (Token.visible tokens) = Cursor.before tokens := by
    unfold Cursor.before Token.visible
    rw [List.filter_filter]
    simp only [Bool.and_self]
  rw [ofTokens_eq, ofTokens_eq, before]

end

namespace Program

open Scan

variable {options : ScanOptions} {source front back : String} {program : Program}
    {bare before behind : List Token}

theorem cuts_of_scan {tokens : List Token} (scanned : scan options source = .ok tokens) :
    ∃ bare, Cuts source.toList bare := by
  cases read : scanAll source with
  | error error =>
    rw [scan, read] at scanned
    cases scanned
  | ok all => exact cuts_of_scanFrom read (Nat.lt_succ_self _)

theorem scan_of_cuts (cuts : Cuts source.toList bare) (options : ScanOptions) : ∃ tokens finish,
    Places 0 source.toList bare tokens finish ∧ scan options source =
      .ok (if options.keepComments then tokens ++
        [finish] else Token.visible (tokens ++ [finish])) := by
  obtain ⟨tokens, finish, read, places⟩ :=
    scanFrom_of_cuts cuts (Nat.lt_succ_self _) (LineIndex.of source.toList) source.toList 0
  refine ⟨tokens, finish, places, ?_⟩
  rw [scan, show scanAll source = .ok (tokens ++ [finish]) from read]
  rfl

theorem cuts_of_parseWith (parsed : Program.parseWith options source = .ok program) :
    ∃ bare, Cuts source.toList bare := by
  obtain ⟨tokens, scanned, _⟩ := Results.of_bind parsed
  exact cuts_of_scan (Results.of_mapError scanned)

theorem parseWith_of_cuts (cuts : Cuts source.toList bare) (options : ScanOptions) :
    ∃ tokens finish, Places 0 source.toList bare tokens finish ∧
      Program.parseWith options source =
        (Program.ofTokens (tokens ++ [finish])).mapError SyntaxError.parsing := by
  obtain ⟨tokens, finish, places, scanned⟩ := scan_of_cuts cuts options
  refine ⟨tokens, finish, places, ?_⟩
  rw [Program.parseWith, scanned]
  change (Program.ofTokens _).mapError _ = _
  split
  · rfl
  · rw [ofTokens_visible]

theorem isMendable_at {finish : Token} (start : byteLength source.toList ≤ finish.span.start)
    (cause : ParseFault) :
    (SyntaxError.parsing (.at finish cause)).isMendable source = true := by
  have ends : decide ((Text.trimRight source).utf8ByteSize ≤ finish.span.start) = true :=
    decide_eq_true (Nat.le_trans (Text.utf8ByteSize_trimRight_le source) start)
  cases cause <;> first | exact ends | rfl

/-- If a source is a program, then its beginning up to the end of a line and the rest are programs,
or further lines may mend its beginning. -/
theorem parseWith_cut (parsed : Program.parseWith options (front ++ "\n" ++ back) = .ok program) :
    (∃ first, Program.parseWith options front = .ok first) ∧
      (∃ second, Program.parseWith options back = .ok second) ∨
      ∃ error, Program.parseWith options front = .error error ∧ error.isMendable front = true := by
  obtain ⟨bare, cuts⟩ := cuts_of_parseWith parsed
  have lines : (front ++ "\n" ++ back).toList = front.toList ++ '\n' :: back.toList := by
    rw [String.toList_append, String.toList_append, List.append_assoc]
    rfl
  obtain ⟨before, behind, cutsFront, cutsBack, whole⟩ := Cuts.of_lines (lines ▸ cuts)
  obtain ⟨tokens, finish, places, parses⟩ := parseWith_of_cuts cuts options
  obtain ⟨tokensFront, finishFront, placesFront, parsesFront⟩ := parseWith_of_cuts cutsFront options
  obtain ⟨tokensBack, finishBack, placesBack, parsesBack⟩ := parseWith_of_cuts cutsBack options
  have isProgram := Results.of_mapError (parses.symm.trans parsed)
  obtain ⟨first, second, rfl, bareFirst, bareSecond⟩ :=
    List.map_eq_append_iff.mp (places.bare_eq.trans whole)
  obtain ⟨ending, rest, rfl, bareEnding, bareRest⟩ := List.map_eq_cons_iff.mp bareSecond
  have ends : ending.kind = .newline := congrArg Token.kind bareEnding
  have start := Cursor.before_append (first ++ ending :: rest) places.finish_kind
  have startFront := Cursor.before_append tokensFront placesFront.finish_kind
  have startBack := Cursor.before_append tokensBack placesBack.finish_kind
  have step : (Course.cut ending (Token.visible rest) finishFront ends placesFront.finish_kind :
      Course .bare).InStep (Cursor.before (first ++ ending :: rest ++ [finish]))
      (Cursor.before (tokensFront ++ [finishFront])) := by
    rw [start, startFront, Token.visible_line first rest ends]
    exact ⟨⟨_, rfl, Token.alike_visible (bareFirst.trans placesFront.bare_eq.symm)⟩, rfl,
      places.finish_kind, placesFront.finish_kind, rfl⟩
  have inner :
      ∀ token ∈ (Cursor.before (tokensFront ++ [finishFront])).ahead, token.kind ≠ .finish := by
    rw [startFront]
    exact fun token among => placesFront.not_finish cutsFront token (Token.mem_of_visible among)
  have alike : List.Forall₂ (Tree.Alike .bare) (Token.visible rest)
      (Cursor.before (tokensBack ++ [finishBack])).ahead := by
    rw [startBack]
    exact Token.alike_visible (bareRest.trans placesBack.bare_eq.symm)
  have atEnd : byteLength front.toList ≤ finishFront.span.start :=
    placesFront.finish_start ▸ Nat.le_add_left _ _
  rw [parsesFront, parsesBack]
  rcases ofTokens_cut step inner alike
      (by rw [startBack]; exact placesBack.finish_kind) isProgram with
    ⟨cause, failed⟩ | ⟨token, var, lacks⟩ | ⟨⟨first, readFirst⟩, second, readSecond⟩
  · exact .inr ⟨_, by rw [failed]; rfl, isMendable_at atEnd cause⟩
  · exact .inr ⟨_, by rw [lacks]; rfl, rfl⟩
  · exact .inl ⟨⟨first, by rw [readFirst]; rfl⟩, second, by rw [readSecond]; rfl⟩

end Program

end MicroBasic
