import MicroBasic.Host.Library

/-!
# Decimal texts

The reader of decimal texts takes parts off the front of a text: a sign, digits, a point with
digits, an exponent. It accepts what the grammar says, and takes it apart as the grammar does: the
parts that it takes off are those of the grammar, and put together they are the text. The number
that a text begins with is that of its longest beginning that is a decimal.
-/

namespace MicroBasic.Decimal

/-- All characters are digits. -/
def AreDigits (cs : List Char) : Prop :=
  ∀ c ∈ cs, c.isDigit = true

/-- An optional sign, and whether it is negative. -/
inductive SignText : List Char → Bool → Prop
  | none : SignText [] false
  | plus : SignText ['+'] false
  | minus : SignText ['-'] true

/-- Digits, a point with or without digits before or after it, but with at least one digit in all.
-/
inductive MantissaText : List Char → List Char → List Char → Prop
  | whole {whole : List Char} (given : whole ≠ []) : MantissaText whole whole []
  | point {whole fraction : List Char} (given : ¬ (whole = [] ∧ fraction = [])) :
      MantissaText (whole ++ '.' :: fraction) whole fraction

/-- An optional exponent: a mark, an optional sign and at least one digit. -/
inductive ExponentText : List Char → Bool → List Char → Prop
  | none : ExponentText [] false []
  | some {mark : Char} {sign digits : List Char} {negative : Bool}
      (isMark : mark = 'e' ∨ mark = 'E') (signed : SignText sign negative) (given : digits ≠ [])
      (areDigits : AreDigits digits) :
      ExponentText (mark :: (sign ++ digits)) negative digits

/-- The grammar of decimal texts, with the parts that a text has. -/
inductive DecimalText (w : Written) : List Char → Prop
  | mk {sign mantissa exponent : List Char} (signed : SignText sign w.negative)
      (whole : AreDigits w.whole) (fraction : AreDigits w.fraction)
      (mantissaText : MantissaText mantissa w.whole w.fraction)
      (exponentText : ExponentText exponent w.exponentNegative w.exponent) :
      DecimalText w (sign ++ (mantissa ++ exponent))

/-! ### Taking a text apart -/

variable {cs rest digits : List Char} {negative : Bool}

theorem takeSign_of_ne (other : ∀ c ∈ cs.head?, c ≠ '-' ∧ c ≠ '+') : takeSign cs = (false, cs) := by
  unfold takeSign
  split
  · exact absurd rfl (other _ rfl).1
  · exact absurd rfl (other _ rfl).2
  · rfl

theorem takeSign_append {sign : List Char} (signed : SignText sign negative)
    (other : ∀ c ∈ rest.head?, c ≠ '-' ∧ c ≠ '+') : takeSign (sign ++ rest) = (negative, rest) := by
  cases signed with
  | none => exact takeSign_of_ne other
  | plus | minus => rfl

theorem sign_of_takeSign (taken : takeSign cs = (negative, rest)) :
    ∃ sign, SignText sign negative ∧ cs = sign ++ rest := by
  unfold takeSign at taken
  split at taken <;> cases taken
  · exact ⟨_, .minus, rfl⟩
  · exact ⟨_, .plus, rfl⟩
  · exact ⟨_, .none, rfl⟩

theorem takeDigits_append (areDigits : AreDigits digits)
    (other : ∀ c ∈ rest.head?, c.isDigit = false) :
    takeDigits (digits ++ rest) = (digits, rest) := by
  have stops : rest.takeWhile Char.isDigit = [] ∧ rest.dropWhile Char.isDigit = rest := by
    cases rest with
    | nil => exact ⟨rfl, rfl⟩
    | cons c rest => rw [List.takeWhile_cons, List.dropWhile_cons, other c rfl]; exact ⟨rfl, rfl⟩
  rw [takeDigits, List.takeWhile_append_of_pos areDigits, List.dropWhile_append_of_pos areDigits,
    stops.1, stops.2, List.append_nil]

theorem digits_of_takeDigits (taken : takeDigits cs = (digits, rest)) :
    AreDigits digits ∧ cs = digits ++ rest := by
  cases taken
  exact ⟨List.all_eq_true.mp List.all_takeWhile, List.takeWhile_append_dropWhile.symm⟩

theorem fraction_of_takeFraction {fraction : List Char}
    (taken : takeFraction cs = (fraction, rest)) :
    AreDigits fraction ∧ (fraction = [] ∧ cs = rest ∨ cs = '.' :: (fraction ++ rest)) := by
  unfold takeFraction at taken
  split at taken
  · obtain ⟨areDigits, rfl⟩ := digits_of_takeDigits taken
    exact ⟨areDigits, .inr rfl⟩
  · cases taken
    exact ⟨nofun, .inl ⟨rfl, rfl⟩⟩

theorem readExponent_iff :
    readExponent cs = some (negative, digits) ↔ ExponentText cs negative digits := by
  constructor
  · intro read
    unfold readExponent at read
    split at read
    · cases read
      exact .none
    · next mark rest =>
      rcases taken : takeSign rest with ⟨signNegative, others⟩
      obtain ⟨sign, signed, rfl⟩ := sign_of_takeSign taken
      split at read
      next isMark =>
        rw [taken] at read
        dsimp only at read
        split at read <;> cases read
        next parts => exact .some isMark signed parts.1 (List.all_eq_true.mp parts.2)
      next => cases read
  · intro text
    cases text with
    | none => rfl
    | @some mark sign _ _ isMark signed given areDigits =>
      have other : ∀ c ∈ digits.head?, c ≠ '-' ∧ c ≠ '+' := by
        intro c head
        have digit := areDigits c (List.mem_of_mem_head? head)
        constructor <;> rintro rfl <;> cases digit
      rw [readExponent, if_pos isMark, takeSign_append signed other]
      exact if_pos ⟨given, List.all_eq_true.mpr areDigits⟩

theorem ExponentText.head {cs digits : List Char} {negative : Bool}
    (text : ExponentText cs negative digits) : ∀ c ∈ cs.head?, c.isDigit = false ∧ c ≠ '.' := by
  cases text with
  | none => exact nofun
  | some isMark _ _ _ =>
    rintro c ⟨⟩
    rcases isMark with rfl | rfl
    · exact ⟨rfl, by decide⟩
    · exact ⟨rfl, by decide⟩

theorem takeFraction_of_ne (other : ∀ c ∈ cs.head?, c.isDigit = false ∧ c ≠ '.') :
    takeFraction cs = ([], cs) := by
  unfold takeFraction
  split
  · exact absurd rfl (other _ rfl).2
  · rfl

theorem MantissaText.head {cs whole fraction rest : List Char}
    (text : MantissaText cs whole fraction) (areDigits : AreDigits whole) :
    ∀ c ∈ (cs ++ rest).head?, c ≠ '-' ∧ c ≠ '+' := by
  have digit {c : Char} {others : List Char} (head : c ∈ (whole ++ others).head?)
      (given : whole ≠ []) : c ≠ '-' ∧ c ≠ '+' := by
    obtain ⟨d, digits, rfl⟩ := List.exists_cons_of_ne_nil given
    cases head
    have digit := areDigits c List.mem_cons_self
    constructor <;> rintro rfl <;> cases digit
  intro c head
  cases text with
  | whole given => exact digit head given
  | @point _ fraction given =>
    rw [List.append_assoc] at head
    by_cases bare : whole = []
    · subst bare
      cases head
      decide
    · exact digit head bare

/-- The reader accepts what the grammar says, and takes it apart as the grammar does. -/
theorem readWritten_iff {w : Written} : readWritten cs = some w ↔ DecimalText w cs := by
  constructor
  · intro read
    rcases signTaken : takeSign cs with ⟨negative, unsigned⟩
    rcases wholeTaken : takeDigits unsigned with ⟨whole, afterWhole⟩
    rcases fractionTaken : takeFraction afterWhole with ⟨fraction, afterFraction⟩
    obtain ⟨sign, signed, rfl⟩ := sign_of_takeSign signTaken
    obtain ⟨areWhole, rfl⟩ := digits_of_takeDigits wholeTaken
    obtain ⟨areFraction, parts⟩ := fraction_of_takeFraction fractionTaken
    rw [readWritten, signTaken] at read
    dsimp only at read
    rw [wholeTaken] at read
    rw [fractionTaken] at read
    split at read
    next => cases read
    next given =>
      split at read <;> cases read
      next found =>
        have exponentText := readExponent_iff.mp found
        rcases parts with ⟨rfl, rfl⟩ | rfl
        · exact .mk signed areWhole areFraction (.whole fun bare => given ⟨bare, rfl⟩) exponentText
        · rw [← List.cons_append, ← List.append_assoc whole]
          exact .mk signed areWhole areFraction (.point given) exponentText
  · rintro @⟨sign, mantissa, exponent, signed, areWhole, areFraction, mantissaText, exponentText⟩
    have signTaken :=
      takeSign_append signed (@MantissaText.head _ _ _ exponent mantissaText areWhole)
    have read := readExponent_iff.mpr exponentText
    have apart := exponentText.head
    obtain ⟨negative, whole, fraction, exponentNegative, digits⟩ := w
    rw [readWritten, signTaken]
    cases mantissaText with
    | whole given =>
      dsimp only
      rw [takeDigits_append areWhole fun c head => (apart c head).1]
      rw [takeFraction_of_ne apart]
      rw [if_neg fun bare => given bare.1, read]
    | point given =>
      dsimp only
      rw [List.append_assoc, takeDigits_append areWhole (by rintro c ⟨⟩; rfl), List.cons_append,
        takeFraction, takeDigits_append areFraction fun c head => (apart c head).1]
      rw [if_neg given, read]

theorem read?_eq_some_iff {s : String} {x : Float} :
    read? s = some x ↔ ∃ w, DecimalText w s.toList ∧ w.value.isFinite = true ∧ x = w.value := by
  unfold read? readChars
  constructor
  · intro read
    split at read
    next w found =>
      split at read <;> cases read
      next finite => exact ⟨w, readWritten_iff.mp found, finite, rfl⟩
    next => cases read
  · rintro ⟨w, text, finite, rfl⟩
    rw [readWritten_iff.mpr text]
    exact if_pos finite

/-! ### The number that a text begins with -/

/-- A number is the value of the longest beginning of a text that is a decimal. -/
def Longest (cs : List Char) (x : Float) : Prop :=
  ∃ front, front <+: cs ∧ read? (String.ofList front) = some x ∧
    ∀ longer, longer <+: cs → front.length < longer.length → read? (String.ofList longer) = none

theorem readChars_eq (cs : List Char) : readChars cs = read? (String.ofList cs) := by
  rw [read?, String.toList_ofList]

/-- The beginnings of at most so many characters are tried from the longest one on. -/
theorem readLongest_spec (cs : List Char) (length : Nat)
    (longer : ∀ front, front <+: cs → length < front.length → read? (String.ofList front) = none) :
    match readLongest cs length with
    | some x => Longest cs x
    | none => ∀ front, front <+: cs → read? (String.ofList front) = none := by
  induction length with
  | zero =>
    intro front begins
    cases front with
    | nil => rfl
    | cons c front => exact longer _ begins (Nat.succ_pos _)
  | succ length ih =>
    rw [readLongest, readChars_eq]
    cases read : read? (String.ofList (cs.take (length + 1))) with
    | some x =>
      refine ⟨_, List.take_prefix _ _, read, fun front begins long => ?_⟩
      refine longer front begins ?_
      rw [List.length_take] at long
      have size := begins.length_le
      omega
    | none =>
      refine ih fun front begins long => ?_
      rcases Nat.lt_or_eq_of_le long with long | same
      · exact longer front begins long
      · rw [List.prefix_iff_eq_take.mp begins, ← same]
        exact read

theorem leadingValue_spec (cs : List Char) : Longest cs (leadingValue cs) ∨
    leadingValue cs = 0.0 ∧ ∀ front, front <+: cs → read? (String.ofList front) = none := by
  have spec := readLongest_spec cs cs.length fun front begins long =>
    absurd begins.length_le (Nat.not_le_of_lt long)
  unfold leadingValue
  cases found : readLongest cs cs.length with
  | some x =>
    rw [found] at spec
    exact .inl spec
  | none =>
    rw [found] at spec
    exact .inr ⟨rfl, spec⟩

/-- The reader of decimal texts accepts exactly the texts of its grammar that denote a finite
number, and what it takes off a text leaves an end of that text. The library function that reads the
number a text begins with gives the value of the longest beginning, without the blanks around the
text, that is accepted, or zero. -/
theorem decimals_read :
    (∀ s : String, (read? s).isSome = true ↔ ∃ w, DecimalText w s.toList ∧
      w.value.isFinite = true) ∧
    (∀ (s : String) (w : Written), DecimalText w s.toList → w.value.isFinite = true →
      read? s = some w.value) ∧
    (∀ cs, (takeSign cs).2 <:+ cs ∧ (takeDigits cs).2 <:+ cs ∧ (takeFraction cs).2 <:+ cs) ∧
    ∀ (s : String) (state : HostState), ∃ x, Library.val [.text s] state = .ok (.number x) state ∧
      (Longest (Text.trimChars s.toList) x ∨
        x = 0.0 ∧ ∀ front, front <+: Text.trimChars s.toList →
          read? (String.ofList front) = none) := by
  refine ⟨fun s => ?_, ?_, fun cs => ⟨?_, ?_, ?_⟩, ?_⟩
  · rw [Option.isSome_iff_exists]
    simp only [read?_eq_some_iff]
    constructor
    · rintro ⟨_, w, text, finite, _⟩
      exact ⟨w, text, finite⟩
    · rintro ⟨w, text, finite⟩
      exact ⟨_, w, text, finite, rfl⟩
  · intro s w text finite
    exact read?_eq_some_iff.mpr ⟨w, text, finite, rfl⟩
  · obtain ⟨sign, _, whole⟩ := sign_of_takeSign (@rfl _ (takeSign cs))
    exact ⟨sign, whole.symm⟩
  · exact ⟨_, (digits_of_takeDigits rfl).2.symm⟩
  · obtain ⟨_, absent | point⟩ := fraction_of_takeFraction (@rfl _ (takeFraction cs))
    · exact ⟨[], absent.2.symm⟩
    · exact ⟨'.' :: (takeFraction cs).1, point.symm⟩
  · intro s state
    exact ⟨_, rfl, leadingValue_spec _⟩

end MicroBasic.Decimal
