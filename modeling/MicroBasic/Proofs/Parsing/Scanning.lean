import MicroBasic.Proofs.Parsing.Programs

/-!
# Scanning line by line

No lexeme goes over the end of a line, and none depends on what stands behind that end. A source is
therefore cut into the tokens of its lines, with a token between them for each end of a line. `Cuts`
says how characters are cut into tokens without saying where these stand.
-/

namespace MicroBasic

namespace Scan

/-- Characters that may follow a lexeme: none, or a blank or a line break first. -/
def Stops (tail : List Char) : Prop :=
  ∀ c ∈ tail.head?, c = ' ' ∨ c = '\n'

section Lines

variable {front back tail cs : List Char} {within : Char → Bool} {length : Nat}

theorem stops_line : Stops ('\n' :: back) :=
  fun _ head => .inr (Option.some.inj head).symm

theorem Stops.cases (stops : Stops tail) :
    tail = [] ∨ (∃ more, tail = ' ' :: more) ∨ ∃ more, tail = '\n' :: more := by
  cases tail with
  | nil => exact .inl rfl
  | cons d more =>
    rcases stops d rfl with rfl | rfl
    · exact .inr (.inl ⟨more, rfl⟩)
    · exact .inr (.inr ⟨more, rfl⟩)

theorem Stops.apart (stops : Stops tail) (space : within ' ' = false) (line : within '\n' = false) :
    ∀ c ∈ tail.head?, within c = false := by
  intro c head
  rcases stops c head with rfl | rfl
  · exact space
  · exact line

theorem takeWhile_append (ends : ∀ c ∈ tail.head?, within c = false) :
    (front ++ tail).takeWhile within = front.takeWhile within := by
  induction front with
  | nil =>
    cases tail with
    | nil => rfl
    | cons c tail => rw [List.nil_append, List.takeWhile_cons, ends c rfl]; rfl
  | cons c front ih =>
    rw [List.cons_append, List.takeWhile_cons, List.takeWhile_cons, ih]

theorem length_takeWhile_le (cs : List Char) : (cs.takeWhile within).length ≤ cs.length :=
  (List.takeWhile_sublist within).length_le

theorem takeWhile_take (enough : (cs.takeWhile within).length ≤ length) :
    (cs.take length).takeWhile within = cs.takeWhile within := by
  induction cs generalizing length with
  | nil => rw [List.take_nil]
  | cons c cs ih =>
    cases length with
    | zero => exact (List.eq_nil_of_length_eq_zero (Nat.le_zero.mp enough)).symm
    | succ length =>
      rw [List.takeWhile_cons] at enough
      rw [List.take_succ_cons, List.takeWhile_cons, List.takeWhile_cons]
      split at enough
      next inside => rw [if_pos inside, if_pos inside, ih (Nat.le_of_succ_le_succ enough)]
      next outside => rw [if_neg outside, if_neg outside]

theorem lineLength_line : lineLength (front ++ '\n' :: back) = lineLength front := by
  unfold lineLength
  rw [takeWhile_append fun c head => Option.some.inj head ▸ rfl]

theorem lineLength_le (cs : List Char) : lineLength cs ≤ cs.length :=
  length_takeWhile_le cs

theorem nameLength_cons (c : Char) (cs : List Char) : nameLength (c :: cs) =
    if continuesName c then nameLength cs + 1 else if Text.isTypeSuffix c then 1 else 0 := by
  unfold nameLength
  rw [List.takeWhile_cons]
  split
  · dsimp only
    rw [List.length_cons, List.drop_succ_cons]
    cases cs.drop (cs.takeWhile continuesName).length with
    | nil => rfl
    | cons d rest =>
      dsimp only
      split <;> rfl
  · rfl

theorem nameLength_append (stops : Stops tail) : nameLength (front ++ tail) = nameLength front := by
  induction front with
  | nil => rcases stops.cases with rfl | ⟨more, rfl⟩ | ⟨more, rfl⟩ <;> rfl
  | cons c front ih =>
    rw [List.cons_append, nameLength_cons, nameLength_cons, ih]

theorem nameLength_take (cs : List Char) :
    nameLength (cs.take (nameLength cs)) = nameLength cs := by
  induction cs with
  | nil => rfl
  | cons c cs ih =>
    rw [nameLength_cons]
    split
    next continues => rw [List.take_succ_cons, nameLength_cons, if_pos continues, ih]
    next stops =>
      split
      next suffix => rw [List.take_succ_cons, nameLength_cons, if_neg stops, if_pos suffix]
      next => rfl

theorem nameLength_le (cs : List Char) : nameLength cs ≤ cs.length := by
  induction cs with
  | nil => exact Nat.le_refl _
  | cons c cs ih =>
    rw [nameLength_cons, List.length_cons]
    split
    · omega
    · split <;> omega

/-- The token of a word that is no comment. -/
def wordKind (word : String) : TokenKind :=
  match Keyword.ofWord? word with
  | some keyword => .keyword keyword
  | none => .name word

theorem scanName_eq (cs : List Char) : scanName cs =
    if Text.sameName (String.ofList (cs.take (nameLength cs))) "REM" then
      .token (commentKind ((cs.drop (nameLength cs)).take (lineLength (cs.drop (nameLength cs)))))
        (nameLength cs + lineLength (cs.drop (nameLength cs)))
    else .token (wordKind (String.ofList (cs.take (nameLength cs)))) (nameLength cs) := by
  unfold scanName wordKind
  dsimp only
  cases Keyword.ofWord? (String.ofList (cs.take (nameLength cs))) <;> rfl

theorem scanName_line : scanName (front ++ '\n' :: back) = scanName front := by
  have size := nameLength_le front
  rw [scanName_eq, scanName_eq, nameLength_append stops_line, List.take_append_of_le_length size,
    List.drop_append_of_le_length size, lineLength_line,
      List.take_append_of_le_length (lineLength_le _)]

theorem quotedBody_line : quotedBody (front ++ '\n' :: back) = quotedBody front := by
  fun_induction quotedBody front with
  | case1 => rfl
  | case2 rest value length read ih =>
    rw [List.cons_append, List.cons_append, quotedBody, ih, read]
  | case3 rest length read ih =>
    rw [List.cons_append, List.cons_append, quotedBody, ih, read]
  | case4 rest single =>
    cases rest with
    | nil => rfl
    | cons c rest =>
      rw [List.cons_append, List.cons_append, quotedBody]
      intro more same
      cases same
      exact single _ rfl
  | case5 => rfl
  | case6 c rest _ notQuote notLine value length read ih =>
    rw [List.cons_append, quotedBody, ih, read]
    · exact fun _ quote => (notQuote quote).elim
    · exact notQuote
    · exact notLine
  | case7 c rest _ notQuote notLine length read ih =>
    rw [List.cons_append, quotedBody, ih, read]
    · exact fun _ quote => (notQuote quote).elim
    · exact notQuote
    · exact notLine

theorem scanQuoted_line : scanQuoted (front ++ '\n' :: back) = scanQuoted front := by
  unfold scanQuoted
  rw [quotedBody_line]

theorem fractionLength_cons (c : Char) (cs : List Char) : fractionLength (c :: cs) =
    if c = '.' ∧ (cs.takeWhile Char.isDigit).length ≠
      0 then (cs.takeWhile Char.isDigit).length + 1 else 0 := by
  by_cases isPoint : c = '.'
  · subst isPoint
    rw [fractionLength]
    cases (cs.takeWhile Char.isDigit).length <;> rfl
  · rw [if_neg fun found => isPoint found.1]
    unfold fractionLength
    split
    next same => exact absurd (List.cons.inj same).1 isPoint
    next => rfl

theorem fractionLength_append (stops : Stops tail) :
    fractionLength (front ++ tail) = fractionLength front := by
  cases front with
  | nil => rcases stops.cases with rfl | ⟨more, rfl⟩ | ⟨more, rfl⟩ <;> rfl
  | cons c front =>
    rw [List.cons_append, fractionLength_cons, fractionLength_cons,
      takeWhile_append (stops.apart rfl rfl)]

theorem fractionLength_take (enough : fractionLength cs ≤ length) :
    fractionLength (cs.take length) = fractionLength cs := by
  cases cs with
  | nil => rw [List.take_nil]
  | cons c cs =>
    cases length with
    | zero => exact (Nat.le_zero.mp enough).symm
    | succ length =>
      rw [fractionLength_cons] at enough
      rw [List.take_succ_cons, fractionLength_cons, fractionLength_cons]
      by_cases isPoint : c = '.'
      · have inside : (cs.takeWhile Char.isDigit).length ≤ length := by
          split at enough
          next => omega
          next ends => exact not_not.mp (not_and.mp ends isPoint) ▸ Nat.zero_le _
        rw [takeWhile_take inside]
      · rw [if_neg fun found => isPoint found.1, if_neg fun found => isPoint found.1]

theorem fractionLength_le (cs : List Char) : fractionLength cs ≤ cs.length := by
  cases cs with
  | nil => exact Nat.le_refl 0
  | cons c cs =>
    have size := @length_takeWhile_le Char.isDigit cs
    rw [fractionLength_cons, List.length_cons]
    split <;> omega

/-- The length of a sign at the head of a text. -/
def signLength (cs : List Char) : Nat :=
  if cs.head? = some '+' ∨ cs.head? = some '-' then 1 else 0

theorem signLength_append (stops : Stops tail) : signLength (front ++ tail) = signLength front := by
  cases front with
  | nil => rcases stops.cases with rfl | ⟨more, rfl⟩ | ⟨more, rfl⟩ <;> rfl
  | cons => rfl

theorem signLength_take (cs : List Char) : signLength (cs.take (length + 1)) = signLength cs := by
  cases cs <;> rfl

theorem signLength_le (cs : List Char) : signLength cs ≤ cs.length := by
  cases cs with
  | nil => exact Nat.le_refl 0
  | cons =>
    unfold signLength
    split <;> simp

theorem exponentLength_cons (mark : Char) (rest : List Char) : exponentLength (mark :: rest) =
    if mark == 'e' || mark == 'E' then
      some (1 + signLength rest + ((rest.drop (signLength rest)).takeWhile Char.isDigit).length,
        ((rest.drop (signLength rest)).takeWhile Char.isDigit).length != 0)
    else none := by
  unfold exponentLength
  dsimp only
  split
  · split
    next => rfl
    next => rfl
    next notPlus notMinus =>
      have unsigned : signLength rest = 0 := by
        cases rest with
        | nil => rfl
        | cons c rest =>
          refine if_neg ?_
          rintro (same | same)
          · exact notPlus rest (congrArg (· :: rest) (Option.some.inj same))
          · exact notMinus rest (congrArg (· :: rest) (Option.some.inj same))
      rw [unsigned]
  · rfl

theorem exponentLength_append (stops : Stops tail) :
    exponentLength (front ++ tail) = exponentLength front := by
  cases front with
  | nil => rcases stops.cases with rfl | ⟨more, rfl⟩ | ⟨more, rfl⟩ <;> rfl
  | cons mark front =>
    rw [List.cons_append, exponentLength_cons, exponentLength_cons, signLength_append stops,
      List.drop_append_of_le_length (signLength_le front), takeWhile_append (stops.apart rfl rfl)]

theorem exponentLength_take (found : exponentLength cs = some (length, true)) :
    exponentLength (cs.take length) = some (length, true) := by
  cases cs with
  | nil => cases found
  | cons mark rest =>
    rw [exponentLength_cons] at found
    split at found
    next marked =>
      obtain ⟨size, digits⟩ := Prod.mk.inj (Option.some.inj found)
      obtain ⟨more, count⟩ := Nat.exists_eq_succ_of_ne_zero (bne_iff_ne.mp digits)
      have long : length = signLength rest + more + 1 + 1 := by omega
      rw [long, List.take_succ_cons, exponentLength_cons, if_pos marked, signLength_take,
        List.drop_take, takeWhile_take (by omega), count]
      exact congrArg Option.some (Prod.ext (by omega) rfl)
    next => cases found

theorem exponentLength_le {complete : Bool} (found : exponentLength cs = some (length, complete)) :
    length ≤ cs.length := by
  cases cs with
  | nil => cases found
  | cons mark rest =>
    rw [exponentLength_cons] at found
    split at found
    · cases found
      have size := @length_takeWhile_le Char.isDigit (rest.drop (signLength rest))
      have sign := signLength_le rest
      rw [List.length_drop] at size
      rw [List.length_cons]
      omega
    · cases found

theorem numberOf_append (short : length ≤ front.length) :
    numberOf (front ++ tail) length = numberOf front length := by
  unfold numberOf
  rw [List.take_append_of_le_length short]

/-- The length of the digits at the head of a text and of the fraction after them. -/
def mantissaLength (cs : List Char) : Nat :=
  (cs.takeWhile Char.isDigit).length + fractionLength (cs.drop (cs.takeWhile Char.isDigit).length)

theorem mantissaLength_append (stops : Stops tail) :
    mantissaLength (front ++ tail) = mantissaLength front := by
  unfold mantissaLength
  rw [takeWhile_append (stops.apart rfl rfl),
    List.drop_append_of_le_length (length_takeWhile_le front), fractionLength_append stops]

theorem mantissaLength_take (enough : mantissaLength cs ≤ length) :
    mantissaLength (cs.take length) = mantissaLength cs := by
  unfold mantissaLength at enough ⊢
  rw [takeWhile_take (by omega), List.drop_take, fractionLength_take (by omega)]

theorem mantissaLength_le (cs : List Char) : mantissaLength cs ≤ cs.length := by
  have whole := @length_takeWhile_le Char.isDigit cs
  have fraction := fractionLength_le (cs.drop (cs.takeWhile Char.isDigit).length)
  rw [List.length_drop] at fraction
  unfold mantissaLength
  omega

theorem scanNumber_eq (cs : List Char) : scanNumber cs =
    match exponentLength (cs.drop (mantissaLength cs)) with
    | some (length, true) => numberOf cs (mantissaLength cs + length)
    | some (length, false) =>
      .fault (.malformedNumber (String.ofList (cs.take (mantissaLength cs + length))))
        (mantissaLength cs + length)
    | none => numberOf cs (mantissaLength cs) :=
  rfl

theorem scanNumber_append (stops : Stops tail) : scanNumber (front ++ tail) = scanNumber front := by
  have size := mantissaLength_le front
  rw [scanNumber_eq, scanNumber_eq, mantissaLength_append stops, List.drop_append_of_le_length size,
    exponentLength_append stops]
  cases found : exponentLength (front.drop (mantissaLength front)) with
  | none => exact numberOf_append size
  | some exponent =>
    obtain ⟨length, complete⟩ := exponent
    have bound := exponentLength_le found
    rw [List.length_drop] at bound
    have short : mantissaLength front + length ≤ front.length := by omega
    cases complete with
    | true => exact numberOf_append short
    | false =>
      dsimp only
      rw [List.take_append_of_le_length short]

/-- The lexeme of a number alone is read as that number. -/
theorem scanNumber_take {kind : TokenKind} (found : scanNumber cs = .token kind length) :
    scanNumber (cs.take length) = .token kind length ∧
      mantissaLength (cs.take length) = mantissaLength cs := by
  rw [scanNumber_eq] at found
  split at found
  next exponent read =>
    have mantissa := @mantissaLength_take cs _ (Nat.le_add_right (mantissaLength cs) exponent)
    cases found
    refine ⟨?_, mantissa⟩
    rw [scanNumber_eq, mantissa, List.drop_take, Nat.add_sub_cancel_left, exponentLength_take read]
    dsimp only
    rw [numberOf, List.take_take, Nat.min_self]
  next => cases found
  next =>
    have mantissa := @mantissaLength_take cs _ (Nat.le_refl (mantissaLength cs))
    cases found
    refine ⟨?_, mantissa⟩
    rw [scanNumber_eq, mantissa, List.drop_take, Nat.sub_self]
    change numberOf _ _ = _
    rw [numberOf, List.take_take, Nat.min_self]

variable {c : Char}

theorem startsNumber_of_ne (other : c ≠ '.') (rest : List Char) :
    startsNumber (c :: rest) = c.isDigit := by
  unfold startsNumber
  split
  · next same =>
    exact absurd (List.cons.inj same).1 other
  · next same =>
    cases same
    rfl
  · next same =>
    cases same

theorem startsNumber_iff (cs : List Char) : startsNumber cs = true ↔ 0 < mantissaLength cs := by
  unfold mantissaLength
  cases cs with
  | nil => exact iff_of_false nofun (Nat.not_lt_zero 0)
  | cons c rest =>
    by_cases isPoint : c = '.'
    · subst isPoint
      change _ ↔ 0 < 0 + fractionLength ('.' :: rest)
      rw [fractionLength_cons]
      cases rest with
      | nil => exact iff_of_false nofun (Nat.not_lt_zero 0)
      | cons d rest =>
        change d.isDigit = true ↔ _
        rw [List.takeWhile_cons]
        cases d.isDigit <;> simp
    · rw [startsNumber_of_ne isPoint, List.takeWhile_cons]
      cases c.isDigit with
      | true => exact iff_of_true rfl (Nat.add_pos_left (Nat.succ_pos _) _)
      | false => simp [fractionLength_cons, isPoint]

theorem startsNumber_append (stops : Stops tail) :
    startsNumber (front ++ tail) = startsNumber front := by
  rw [Bool.eq_iff_iff, startsNumber_iff, startsNumber_iff, mantissaLength_append stops]

/-- The characters that symbols consist of. -/
def marks : List Char :=
  ['<', '>', '.', '+', '-', '*', '/', '\\', '^', '&', '=', '(', ')', '[', ']', '\x7b', '\x7d', ',',
    ';', ':', '?']

theorem symbol?_of_not_mem (other : c ∉ marks) (rest : List Char) : symbol? (c :: rest) = none := by
  generalize whole : c :: rest = cs
  fun_cases symbol? cs <;> cases whole
  case case26 => rfl
  all_goals exact absurd (by decide) other

theorem symbol?_less {d : Char} (notGreater : d ≠ '>') (notEqual : d ≠ '=') (rest : List Char) :
    symbol? ('<' :: d :: rest) = some (.less, 1) := by
  generalize whole : '<' :: d :: rest = cs
  fun_cases symbol? cs <;> cases whole
  · exact absurd rfl notGreater
  · exact absurd rfl notEqual
  · rfl
  · next isLess _ _ _ _ _ _ _ _ _ _ _ _ =>
    exact (isLess _ rfl).elim

theorem symbol?_greater {d : Char} (notEqual : d ≠ '=') (rest : List Char) :
    symbol? ('>' :: d :: rest) = some (.greater, 1) := by
  generalize whole : '>' :: d :: rest = cs
  fun_cases symbol? cs <;> cases whole
  · exact absurd rfl notEqual
  · rfl
  · next isGreater _ _ _ _ _ _ _ _ _ _ _ =>
    exact (isGreater _ rfl).elim

theorem symbol?_dot {rest : List Char} (notThree : ∀ more, rest ≠ '.' :: '.' :: more) :
    symbol? ('.' :: rest) = some (.dot, 1) := by
  generalize whole : '.' :: rest = cs
  fun_cases symbol? cs <;> cases whole
  · exact absurd rfl (notThree _)
  · rfl
  · next isDot _ =>
    exact (isDot _ rfl).elim

theorem symbol?_line : symbol? (c :: (front ++ '\n' :: back)) = symbol? (c :: front) := by
  by_cases among : c ∈ marks
  · simp only [marks, List.mem_cons, List.not_mem_nil, or_false] at among
    rcases among with rfl | rfl | rfl | rfl | rfl | rfl | rfl | rfl | rfl | rfl | rfl | rfl | rfl | rfl | rfl | rfl |
      rfl | rfl | rfl | rfl | rfl
    · cases front with
      | nil => rfl
      | cons d front =>
        by_cases notGreater : d = '>'
        · subst notGreater; rfl
        · by_cases notEqual : d = '='
          · subst notEqual; rfl
          · rw [List.cons_append, symbol?_less notGreater notEqual,
              symbol?_less notGreater notEqual]
    · cases front with
      | nil => rfl
      | cons d front =>
        by_cases notEqual : d = '='
        · subst notEqual; rfl
        · rw [List.cons_append, symbol?_greater notEqual, symbol?_greater notEqual]
    · by_cases three : ∃ more, front = '.' :: '.' :: more
      · obtain ⟨more, rfl⟩ := three
        rfl
      · have apart (more : List Char) : front ≠ '.' :: '.' :: more := fun same => three ⟨more, same⟩
        rw [symbol?_dot apart, symbol?_dot]
        intro more same
        rcases front with _ | ⟨d, _ | ⟨e, front⟩⟩
        · cases same
        · cases same
        · cases same
          exact apart _ rfl
    all_goals rfl
  · rw [symbol?_of_not_mem among, symbol?_of_not_mem among]

theorem lexeme_line : lexeme c (front ++ '\n' :: back) = lexeme c front := by
  have starts : startsNumber (c :: (front ++ '\n' :: back)) = startsNumber (c :: front) :=
    @startsNumber_append (c :: front) _ stops_line
  have number : scanNumber (c :: (front ++ '\n' :: back)) = scanNumber (c :: front) :=
    @scanNumber_append (c :: front) _ stops_line
  have name : scanName (c :: (front ++ '\n' :: back)) = scanName (c :: front) :=
    @scanName_line (c :: front) back
  unfold lexeme
  dsimp only
  rw [lineLength_line, List.take_append_of_le_length (lineLength_le front), scanQuoted_line, starts,
    number, name, symbol?_line]

end Lines

section Lexemes

variable {c : Char} {rest : List Char} {kind : TokenKind} {length : Nat} {cs : List Char}

theorem quotedBody_le {value : List Char} (read : quotedBody cs = .ok (value, length)) :
    length ≤ cs.length := by
  fun_induction quotedBody cs generalizing value length with
  | case1 => cases read
  | case2 rest value' length' inner ih =>
    cases read
    have := ih inner
    simp only [List.length_cons]
    omega
  | case3 => cases read
  | case4 =>
    cases read
    simp
  | case5 => cases read
  | case6 c rest _ _ _ value' length' inner ih =>
    cases read
    have := ih inner
    simp only [List.length_cons]
    omega
  | case7 => cases read

theorem symbol?_bounds {mark : Symbol} (found : symbol? cs = some (mark, length)) :
    0 < length ∧ length ≤ cs.length := by
  revert found
  fun_cases symbol? cs <;> intro found <;> cases found <;> simp

theorem scanNumber_bounds (starts : startsNumber cs = true)
    (found : scanNumber cs = .token kind length) :
    0 < length ∧ length ≤ cs.length ∧ kind ≠ .finish := by
  have positive := (startsNumber_iff cs).mp starts
  have size := mantissaLength_le cs
  rw [scanNumber_eq] at found
  split at found
  · next exponent read =>
    have bound := exponentLength_le read
    rw [List.length_drop] at bound
    cases found
    exact ⟨by omega, by omega, nofun⟩
  · cases found
  · cases found
    exact ⟨positive, size, nofun⟩

theorem continuesName_of_startsName (starts : startsName c = true) : continuesName c = true := by
  unfold startsName at starts
  unfold continuesName Char.isAlphanum
  revert starts
  cases c.isAlpha <;> cases c.isDigit <;> simp

theorem nameLength_pos (starts : startsName c = true) : 0 < nameLength (c :: rest) := by
  rw [nameLength_cons, if_pos (continuesName_of_startsName starts)]
  exact Nat.succ_pos _

/-- What a lexeme may be, by its first character. -/
theorem lexeme_cases {motive : Lexeme → Prop} (newline : c = '\n' → motive (.token .newline 1))
    (comment : motive (.token (commentKind (rest.take (lineLength rest))) (lineLength rest + 1)))
    (text : c = '"' → motive (scanQuoted rest))
    (number : startsNumber (c :: rest) = true → motive (scanNumber (c :: rest)))
    (name : startsNumber (c :: rest) = false → startsName c = true → motive (scanName (c :: rest)))
    (symbol : ∀ mark length, symbol? (c :: rest) = some (mark, length) →
      motive (.token (.symbol mark) length))
    (stray : motive (.fault (.strayCharacter (String.singleton c)) 1)) :
    motive (lexeme c rest) := by
  unfold lexeme
  dsimp only
  split
  next isLine => exact newline (beq_iff_eq.mp isLine)
  split
  next => exact comment
  split
  next isQuote => exact text (beq_iff_eq.mp isQuote)
  split
  next starts => exact number starts
  next notNumber =>
    split
    next starts => exact name (Bool.eq_false_iff.mpr notNumber) starts
    split
    next found => exact symbol _ _ found
    next => exact stray

theorem lexeme_bounds (found : lexeme c rest = .token kind length) :
    0 < length ∧ length ≤ (c :: rest).length ∧ kind ≠ .finish := by
  revert found
  apply lexeme_cases (motive := fun found => found = .token kind length →
    0 < length ∧ length ≤ (c :: rest).length ∧ kind ≠ .finish)
  · rintro _ ⟨⟩
    exact ⟨Nat.one_pos, Nat.le_add_left 1 _, nofun⟩
  · rintro ⟨⟩
    exact ⟨Nat.succ_pos _, Nat.succ_le_succ (lineLength_le rest), nofun⟩
  · intro _ found
    unfold scanQuoted at found
    split at found <;> cases found
    next read => exact ⟨Nat.succ_pos _, Nat.succ_le_succ (quotedBody_le read), nofun⟩
  · exact scanNumber_bounds
  · intro _ starts found
    have positive := @nameLength_pos c rest starts
    have size := nameLength_le (c :: rest)
    have line := lineLength_le ((c :: rest).drop (nameLength (c :: rest)))
    rw [List.length_drop] at line
    rw [scanName_eq] at found
    split at found <;> cases found
    · exact ⟨by omega, by omega, nofun⟩
    · refine ⟨positive, size, ?_⟩
      unfold wordKind
      split <;> nofun
  · rintro mark _ found ⟨⟩
    obtain ⟨positive, size⟩ := symbol?_bounds found
    exact ⟨positive, size, nofun⟩
  · exact nofun

theorem length_drop_lt {fuel : Nat} (found : lexeme c rest = .token kind length)
    (enough : (c :: rest).length < fuel + 1) : ((c :: rest).drop length).length < fuel := by
  have bounds := lexeme_bounds found
  rw [List.length_drop]
  omega

/-- Characters begin with a word that is no comment. -/
structure BeginsWord (c : Char) (rest : List Char) (word : String) (length : Nat) : Prop where
  starts : startsName c = true
  notNumber : startsNumber (c :: rest) = false
  length_eq : length = nameLength (c :: rest)
  word_eq : word = String.ofList ((c :: rest).take length)
  visible : Text.sameName word "REM" = false

/-- What a lexeme was taken for, and why. -/
inductive Takes (c : Char) (rest : List Char) : TokenKind → Nat → Prop
  | newline (isLine : c = '\n') : Takes c rest .newline 1
  | comment (text : String) (length : Nat) : Takes c rest (.comment text) length
  | text {value : List Char} {length : Nat} (isQuote : c = '"')
    (read : quotedBody rest = .ok (value, length)) :
      Takes c rest (.text (String.ofList value)) (length + 1)
  | number {value : Float} {length : Nat} (starts : startsNumber (c :: rest) = true)
      (read : scanNumber (c :: rest) = .token (.number value) length) :
      Takes c rest (.number value) length
  | keyword {word : String} {keyword : Keyword} {length : Nat}
      (begins : BeginsWord c rest word length) (reserved : Keyword.ofWord? word = some keyword) :
      Takes c rest (.keyword keyword) length
  | name {word : String} {length : Nat} (begins : BeginsWord c rest word length)
      (free : Keyword.ofWord? word = none) : Takes c rest (.name word) length
  | symbol {mark : Symbol} {length : Nat} (found : symbol? (c :: rest) = some (mark, length)) :
      Takes c rest (.symbol mark) length

theorem takes_of_lexeme (found : lexeme c rest = .token kind length) :
    Takes c rest kind length := by
  revert found
  apply lexeme_cases (motive := fun found => found = .token kind length → Takes c rest kind length)
  · rintro isLine ⟨⟩
    exact .newline isLine
  · rintro ⟨⟩
    exact .comment _ _
  · intro isQuote found
    unfold scanQuoted at found
    split at found
    next read =>
      cases found
      exact .text isQuote read
    next => cases found
  · intro starts found
    obtain ⟨value, rfl⟩ : ∃ value, kind = .number value := by
      rw [scanNumber_eq] at found
      split at found <;> cases found
      · exact ⟨_, rfl⟩
      · exact ⟨_, rfl⟩
    exact .number starts found
  · intro notNumber starts found
    rw [scanName_eq] at found
    split at found
    next =>
      cases found
      exact .comment _ _
    next other =>
      have begins := BeginsWord.mk starts notNumber rfl rfl (Bool.eq_false_iff.mpr other)
      unfold wordKind at found
      split at found <;> cases found
      next reserved => exact .keyword begins reserved
      next free => exact .name begins free
  · rintro mark _ found ⟨⟩
    exact .symbol found
  · exact nofun

theorem ne_of_startsName {d : Char} (starts : startsName c = true) (other : startsName d = false) :
    c ≠ d := by
  rintro rfl
  rw [other] at starts
  cases starts

theorem lexeme_of_startsName (starts : startsName c = true) (notDigit : c.isDigit = false) :
    lexeme c rest = scanName (c :: rest) := by
  have line : (c == '\n') = false := beq_false_of_ne (ne_of_startsName starts rfl)
  have comment : (c == '\'') = false := beq_false_of_ne (ne_of_startsName starts rfl)
  have quote : (c == '"') = false := beq_false_of_ne (ne_of_startsName starts rfl)
  unfold lexeme
  dsimp only
  rw [line, comment, quote, startsNumber_of_ne (ne_of_startsName starts rfl), notDigit, starts]
  simp only [Bool.false_eq_true, if_false, if_true]

/-- A word is read again where it stands before a blank or an end. -/
theorem lexeme_word {tail : List Char} {word : String} (begins : BeginsWord c rest word length)
    (stops : Stops tail) :
    lexeme c (rest.take (length - 1) ++ tail) = .token (wordKind word) length := by
  obtain ⟨starts, notNumber, length_eq, word_eq, visible⟩ := begins
  have positive : 0 < length := length_eq ▸ nameLength_pos starts
  have whole : c :: (rest.take (length - 1) ++ tail) = (c :: rest).take length ++ tail := by
    rw [← List.cons_append, ← List.take_succ_cons, Nat.sub_add_cancel positive]
  have same : nameLength ((c :: rest).take length ++ tail) = length := by
    rw [length_eq, nameLength_append stops, nameLength_take]
  have size : ((c :: rest).take length).length = length :=
    List.length_take_of_le (length_eq ▸ nameLength_le _)
  rw [startsNumber_of_ne (ne_of_startsName starts rfl)] at notNumber
  have within := Nat.le_of_eq size.symm
  rw [lexeme_of_startsName starts notNumber, whole, scanName_eq, same,
    List.take_append_of_le_length within, List.take_take, Nat.min_self, ← word_eq, visible]
  rfl

end Lexemes

/-- A token as it is written, of a kind and with some characters. -/
def written (kind : TokenKind) (chars : List Char) : Token :=
  ⟨kind, String.ofList chars, ⟨0, 0⟩, ⟨0, 0⟩⟩

/-- How characters are cut into tokens, wherever these stand. -/
inductive Cuts : List Char → List Token → Prop
  | done : Cuts [] []
  | space {c : Char} {rest : List Char} {tokens : List Token} (isSpace : isSpace c = true)
    (others : Cuts rest tokens) : Cuts (c :: rest) tokens
  | token {c : Char} {rest : List Char} {kind : TokenKind} {length : Nat} {tokens : List Token}
    (notSpace : isSpace c = false) (found : lexeme c rest = .token kind length)
    (others : Cuts ((c :: rest).drop length) tokens) :
    Cuts (c :: rest) (written kind ((c :: rest).take length) :: tokens)

section Cutting

variable {cs front back : List Char} {tokens before behind : List Token}

theorem Cuts.not_finish (cuts : Cuts cs tokens) : ∀ token ∈ tokens, token.kind ≠ .finish := by
  induction cuts with
  | done => exact nofun
  | space _ _ ih => exact ih
  | token _ found _ ih =>
    exact List.forall_mem_cons.mpr ⟨(lexeme_bounds found).2.2, ih⟩

/-- A text that is read as one name. -/
def IsName (name : String) : Prop :=
  Cuts name.toList [written (.name name) name.toList]

theorem Cuts.isName (cuts : Cuts cs tokens) :
    ∀ token ∈ tokens, ∀ name, token.kind = .name name → IsName name := by
  induction cuts with
  | done => exact nofun
  | space _ _ ih => exact ih
  | @token c rest kind length tokens notSpace found others ih =>
    refine List.forall_mem_cons.mpr ⟨?_, ih⟩
    rintro name ⟨⟩
    cases takes_of_lexeme found with
    | name begins free =>
      have alone := @lexeme_word c rest length [] name begins nofun
      obtain ⟨count, rfl⟩ : ∃ count, length = count + 1 :=
        Nat.exists_eq_add_one.mpr (lexeme_bounds found).1
      have size : (c :: rest.take count).length ≤ count + 1 := by
        rw [List.length_cons, List.length_take]
        omega
      rw [wordKind, free, List.append_nil, Nat.add_sub_cancel] at alone
      have cut := @Cuts.token c (rest.take count) _ (count + 1) [] notSpace alone
      rw [List.drop_of_length_le size,
        List.take_of_length_le (l := c :: rest.take count) size] at cut
      have toList := congrArg String.toList begins.word_eq
      rw [String.toList_ofList, List.take_succ_cons] at toList
      rw [IsName, toList]
      exact cut .done

theorem Cuts.of_lines (cuts : Cuts (front ++ '\n' :: back) tokens) : ∃ before behind,
    Cuts front before ∧ Cuts back behind ∧
      tokens = before ++ written .newline ['\n'] :: behind := by
  generalize whole : front ++ '\n' :: back = cs at cuts
  induction cuts generalizing front with
  | done => cases front <;> cases whole
  | space isSpace others ih =>
    cases front with
    | nil =>
      cases whole
      cases isSpace
    | cons c front =>
      cases whole
      obtain ⟨before, behind, cutsFront, cutsBack, same⟩ := ih rfl
      exact ⟨before, behind, .space isSpace cutsFront, cutsBack, same⟩
  | token notSpace found others ih =>
    cases front with
    | nil =>
      cases whole
      cases found
      exact ⟨[], _, .done, others, rfl⟩
    | cons c front =>
      cases whole
      have found := lexeme_line.symm.trans found
      have size := (lexeme_bounds found).2.1
      obtain ⟨before, behind, cutsFront, cutsBack, same⟩ :=
        ih (List.drop_append_of_le_length size).symm
      refine ⟨_, behind, .token notSpace found cutsFront, cutsBack, ?_⟩
      exact congrArg₂ List.cons (congrArg (written _) (List.take_append_of_le_length size)) same

end Cutting

end Scan

end MicroBasic
