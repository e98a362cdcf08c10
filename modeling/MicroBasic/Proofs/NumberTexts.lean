import MicroBasic.Decimal.Layout
import MicroBasic.Proofs.Decimals
import MicroBasic.Proofs.Parsing.Sources
import MicroBasic.Proofs.WholeFloats

/-!
# Numbers that are written read back

A number is written with the digits of its shortest decimal, either with a point at its place or
with an exponent. Both are decimal texts that denote that decimal, and a text that begins with a
digit is one token.
-/

namespace MicroBasic.Decimal

open Float.Model (UnpackedFloat)

/-- The exponent of ten of the last digit of a text. -/
def Written.scale (w : Written) : ℤ :=
  (if w.exponentNegative then -(digitsValue w.exponent : ℤ) else digitsValue w.exponent) -
  w.fraction.length

/-- The decimal number that a text denotes. -/
def Written.decimal (w : Written) : ℚ :=
  (if w.negative then -1 else 1) * (digitsValue (w.whole ++ w.fraction) * 10 ^ w.scale)

/-- The decimal number that digits at a place denote, with a sign or without. -/
def Scaled.decimal (s : Scaled) (negative : Bool) : ℚ :=
  (if negative then -1 else 1) * (s.digits * 10 ^ s.place)

/-- The float nearest to the decimal number. -/
def Scaled.float (s : Scaled) (negative : Bool) : Float :=
  if negative then -nearestTo s.digits s.place else nearestTo s.digits s.place

/-- The shortest decimal digits of a number and their place. Zero has the digit zero. -/
def decimalDigits (n : Float) : Scaled :=
  match parts n with
  | .finite _ mantissa exponent _ => shortest mantissa exponent
  | _ => ⟨0, 0⟩

/-- Whether a number is below zero. -/
def isBelowZero (n : Float) : Bool :=
  match parts n with
  | .finite sign _ _ _ => sign == .negative
  | _ => false

/-- A number, but zero for the negative zero. -/
def unsignedZero (n : Float) : Float :=
  match parts n with
  | .zero _ => 0.0
  | _ => n

theorem digitsValue_append (front back : List Char) :
    digitsValue (front ++ back) = digitsValue front * 10 ^ back.length + digitsValue back := by
  induction back using List.reverseRecOn with
  | nil => simp [digitsValue]
  | append_singleton back c ih =>
    have snoc (cs : List Char) : digitsValue (cs ++ [c]) = digitsValue cs * 10 + digitValue c := by
      simp [digitsValue, List.foldl_append]
    rw [← List.append_assoc, snoc, snoc, ih, List.length_append, List.length_singleton,
      Nat.pow_succ]
    ring

theorem digitsValue_zeros (count : Nat) : digitsValue (List.replicate count '0') = 0 := by
  induction count with
  | zero => rfl
  | succ count ih =>
    rw [List.replicate_succ, ← List.singleton_append, digitsValue_append, ih]
    simp [digitsValue, digitValue]

theorem digitsValue_toDigits (n : Nat) : digitsValue (Nat.toDigits 10 n) = n := by
  have read := @Nat.ofDigitChars_toDigits 10 n (by decide) (by decide)
  simpa only [Nat.ofDigitChars, digitsValue, digitValue, Nat.mul_comm] using read

theorem areDigits_toDigits (n : Nat) : AreDigits (Nat.toDigits 10 n) :=
  fun _ => Nat.isDigit_of_mem_toDigits (by decide) (by decide)

theorem areDigits_zeros (count : Nat) : AreDigits (List.replicate count '0') := by
  intro c among
  rw [List.eq_of_mem_replicate among]
  rfl

theorem AreDigits.append {front back : List Char} (first : AreDigits front)
    (second : AreDigits back) : AreDigits (front ++ back) :=
  fun c among => (List.mem_append.mp among).elim (first c) (second c)

/-- A text without a sign that begins with a digit and has digits behind its point denotes a
decimal. The zeros behind the digits of a whole number may be written out. -/
structure Written.Shows (w : Written) (s : Scaled) (cs : List Char) : Prop where
  text : ∃ mantissa exponent, cs = mantissa ++ exponent ∧
    (mantissa = w.whole ∧ w.fraction = [] ∨ mantissa = w.whole ++ '.' :: w.fraction ∧
      w.fraction ≠ []) ∧
    ExponentText exponent w.exponentNegative w.exponent
  begins : w.whole ≠ []
  whole : AreDigits w.whole
  fraction : AreDigits w.fraction
  digits : ∃ zeros : Nat, digitsValue (w.whole ++ w.fraction) = s.digits * 10 ^ zeros ∧
    w.scale + zeros = s.place ∧
    (zeros = 0 ∨ w.scale = 0 ∧ s.digits * 10 ^ zeros < 10 ^ 16 ∧ zeros < 16)

section Texts

variable {s : Scaled} {lead : Int} {digits : List Char} (areDigits : AreDigits digits)
  (value : digitsValue digits = s.digits) (length : lead = s.place + digits.length - 1)

include areDigits value length

theorem shows_positional (some : digits ≠ []) (less : s.digits < 10 ^ digits.length)
    (bound : lead < 16) : ∃ w : Written, w.Shows s (positionalText printed digits lead) := by
  have size := List.length_pos_iff.mpr some
  unfold positionalText
  split
  next negative =>
    refine ⟨⟨false, ['0'], List.replicate (-lead - 1).toNat '0' ++ digits, false, []⟩,
      ⟨_, [], (List.append_nil _).symm, .inr ⟨rfl, by simp [some]⟩, .none⟩, by simp, by
        simp [AreDigits],
      (areDigits_zeros _).append areDigits, 0, ?_, ?_, .inl rfl⟩
    · rw [digitsValue_append, digitsValue_append, digitsValue_zeros, value]
      simp [digitsValue, digitValue]
    · simp [Written.scale, digitsValue]
      omega
  next positive =>
    dsimp only
    split
    next short =>
      obtain ⟨zeros, place⟩ : ∃ zeros : Nat, s.place = zeros := Int.eq_ofNat_of_zero_le (by omega)
      have count : lead.toNat + 1 - digits.length = zeros := by omega
      rw [count, show printed.keepsPoint = false from rfl, if_neg Bool.false_ne_true]
      refine ⟨⟨false, digits ++ List.replicate zeros '0', [], false, []⟩,
        ⟨_, [], rfl, .inl ⟨rfl, rfl⟩, .none⟩, by simp [some],
          areDigits.append (areDigits_zeros zeros), nofun, zeros, ?_, ?_, .inr ⟨rfl, ?_, by omega⟩⟩
      · rw [List.append_nil, digitsValue_append, digitsValue_zeros, value, List.length_replicate,
          Nat.add_zero]
      · simp [Written.scale, digitsValue, place]
      · calc s.digits * 10 ^ zeros < 10 ^ digits.length * 10 ^ zeros :=
              Nat.mul_lt_mul_of_pos_right less (Nat.pow_pos (by decide))
          _ = 10 ^ (digits.length + zeros) := (Nat.pow_add _ _ _).symm
          _ ≤ 10 ^ 16 := Nat.pow_le_pow_right (by decide) (by omega)
    next long =>
      refine ⟨⟨false, digits.take (lead.toNat + 1), digits.drop (lead.toNat + 1), false, []⟩,
        ⟨_, [], (List.append_nil _).symm, .inr ⟨rfl, ?_⟩, .none⟩, ?_,
        fun c among => areDigits c (List.mem_of_mem_take among),
        fun c among => areDigits c (List.mem_of_mem_drop among), 0, ?_, ?_, .inl rfl⟩
      · simp
        omega
      · simp [some]
      · rw [List.take_append_drop, value, Nat.pow_zero, Nat.mul_one]
      · simp [Written.scale, digitsValue]
        omega

theorem shows_scientific (some : digits ≠ []) :
    ∃ w : Written, w.Shows s (scientificText printed digits lead) := by
  obtain ⟨d, rest, rfl⟩ := List.exists_cons_of_ne_nil some
  have exponentText : ExponentText
      ('E' :: (if lead <
        0 then '-' :: Nat.toDigits 10 lead.natAbs else '+' :: Nat.toDigits 10 lead.natAbs))
      (lead < 0) (Nat.toDigits 10 lead.natAbs) := by
    split
    next negative =>
      rw [decide_eq_true negative]
      exact .some (.inr rfl) .minus Nat.toDigits_ne_nil (areDigits_toDigits _)
    next positive =>
      rw [decide_eq_false positive]
      exact .some (.inr rfl) .plus Nat.toDigits_ne_nil (areDigits_toDigits _)
  have text : ∃ mantissa, scientificText printed (d :: rest) lead = mantissa ++
      ('E' :: (if lead <
        0 then '-' :: Nat.toDigits 10 lead.natAbs else '+' :: Nat.toDigits 10 lead.natAbs)) ∧
      (mantissa = [d] ∧ rest = [] ∨ mantissa = [d] ++ '.' :: rest ∧ rest ≠ []) := by
    cases rest with
    | nil => exact ⟨[d], rfl, .inl ⟨rfl, rfl⟩⟩
    | cons e rest => exact ⟨_, List.append_assoc _ _ _, .inr ⟨rfl, List.cons_ne_nil _ _⟩⟩
  obtain ⟨mantissa, shown, form⟩ := text
  refine ⟨⟨false, [d], rest, lead < 0, Nat.toDigits 10 lead.natAbs⟩,
    ⟨mantissa, _, shown, form, exponentText⟩, by simp, fun c among =>
      areDigits c (List.mem_cons.mpr (.inl (List.mem_singleton.mp among))),
    fun c among => areDigits c (List.mem_cons_of_mem d among), 0, by simpa using value, ?_,
      .inl rfl⟩
  rw [List.length_cons] at length
  simp only [Written.scale, digitsValue_toDigits, decide_eq_true_eq]
  split <;> omega

end Texts

theorem shows_text (s : Scaled) : ∃ w : Written, w.Shows s (s.text printed) := by
  have less : s.digits < 10 ^ (Nat.toDigits 10 s.digits).length :=
    (Nat.length_toDigits_le_iff (by decide) Nat.length_toDigits_pos).mp (Nat.le_refl _)
  unfold Scaled.text
  dsimp only
  split
  next positional =>
    have bounds : _ ∧ _ := Bool.and_eq_true_iff.mp positional
    exact shows_positional (areDigits_toDigits _)
      (digitsValue_toDigits _) rfl Nat.toDigits_ne_nil less (of_decide_eq_true bounds.2)
  next =>
    exact shows_scientific (areDigits_toDigits _) (digitsValue_toDigits _) rfl Nat.toDigits_ne_nil

namespace Written.Shows

variable {w : Written} {s : Scaled} {cs : List Char}

theorem decimalText (shows : w.Shows s cs) {sign : List Char} {negative : Bool}
    (signed : SignText sign negative) : DecimalText { w with negative } (sign ++ cs) := by
  obtain ⟨mantissa, exponent, rfl, form, exponentText⟩ := shows.text
  refine .mk signed shows.whole shows.fraction ?_ exponentText
  rcases form with ⟨rfl, none⟩ | ⟨rfl, _⟩
  · rw [none]
    exact .whole shows.begins
  · exact .point fun none => shows.begins none.1

theorem value_eq (shows : w.Shows s cs) (negative : Bool) :
    Written.value { w with negative } = s.float negative := by
  have nearest :
      nearestTo (digitsValue (w.whole ++ w.fraction)) w.scale = nearestTo s.digits s.place := by
    obtain ⟨zeros, value, place, rfl | ⟨scale, small, bound⟩⟩ := shows.digits
    · rw [value, ← place, Nat.pow_zero, Nat.mul_one]
      exact congrArg _ (Int.add_zero _).symm
    · rw [value, scale, nearestTo_zeros bound small, ← place, scale, Int.zero_add]
  rw [Scaled.float, ← nearest]
  rfl

theorem decimal_eq (shows : w.Shows s cs) (negative : Bool) :
    Written.decimal { w with negative } = s.decimal negative := by
  have same :
      (digitsValue (w.whole ++ w.fraction) : ℚ) * 10 ^ w.scale = s.digits * 10 ^ s.place := by
    obtain ⟨zeros, value, place, _⟩ := shows.digits
    rw [value, ← place, zpow_add₀ (by norm_num), zpow_natCast]
    push_cast
    ring
  rw [Scaled.decimal, ← same]
  rfl

end Written.Shows

/-! ### Scanning a decimal text -/

theorem takeWhile_digits {digits rest : List Char} (areDigits : AreDigits digits)
    (other : ∀ c ∈ rest.head?, c.isDigit = false) :
    (digits ++ rest).takeWhile Char.isDigit = digits :=
  congrArg Prod.fst (takeDigits_append areDigits other)

theorem signLength_digits {digits : List Char} (areDigits : AreDigits digits) :
    Scan.signLength digits = 0 := by
  refine if_neg ?_
  rintro (plus | minus)
  · cases areDigits _ (List.mem_of_mem_head? plus)
  · cases areDigits _ (List.mem_of_mem_head? minus)

theorem exponentLength_of_text {cs digits : List Char} {negative : Bool}
    (text : ExponentText cs negative digits) :
    cs = [] ∨ Scan.exponentLength cs = some (cs.length, true) := by
  cases text with
  | none => exact .inl rfl
  | @some mark sign _ _ isMark signed some areDigits =>
    have size : Scan.signLength (sign ++ digits) = sign.length := by
      cases signed with
      | none => exact signLength_digits areDigits
      | plus => rfl
      | minus => rfl
    have mark : (mark == 'e' || mark == 'E') = true := by
      rcases isMark with rfl | rfl <;> rfl
    have taken : digits.takeWhile Char.isDigit = digits := List.takeWhile_eq_self_iff.mpr areDigits
    right
    rw [Scan.exponentLength_cons, if_pos mark, size, List.drop_left, taken, List.length_cons,
      List.length_append]
    simp only [bne_iff_ne, ne_eq, List.length_eq_zero_iff, some, not_false_eq_true,
      Option.some.injEq, Prod.mk.injEq, and_true]
    omega

namespace Written.Shows

variable {w : Written} {s : Scaled} {cs : List Char}

/-- The scanner takes the whole text for a number. -/
theorem scanNumber_eq (shows : w.Shows s cs) : Scan.scanNumber cs = Scan.numberOf cs cs.length := by
  obtain ⟨mantissa, exponent, rfl, form, exponentText⟩ := shows.text
  have ends := exponentText.head
  have size : Scan.mantissaLength (mantissa ++ exponent) = mantissa.length := by
    unfold Scan.mantissaLength
    rcases form with ⟨rfl, _⟩ | ⟨rfl, some⟩
    · rw [takeWhile_digits shows.whole fun c head => (ends c head).1, List.drop_left]
      cases exponent with
      | nil => rfl
      | cons c exponent =>
        rw [Scan.fractionLength_cons, if_neg fun found => (ends c rfl).2 found.1]
        rfl
    · rw [List.append_assoc, takeWhile_digits shows.whole (by rintro c ⟨⟩; rfl), List.drop_left,
        List.cons_append, Scan.fractionLength_cons, takeWhile_digits shows.fraction fun c head =>
          (ends c head).1,
        if_pos ⟨rfl, fun none => some (List.length_eq_zero_iff.mp none)⟩, List.length_append]
      rfl
  rw [Scan.scanNumber_eq, size, List.drop_left]
  rcases exponentLength_of_text exponentText with rfl | found
  · rw [List.append_nil]
    rfl
  · rw [found, List.length_append]

theorem cuts (shows : w.Shows s cs) :
    Scan.Cuts cs [Scan.written (.number (Scan.literalValue cs)) cs] := by
  obtain ⟨mantissa, exponent, whole, form, _⟩ := shows.text
  obtain ⟨d, others, begins⟩ := List.exists_cons_of_ne_nil shows.begins
  obtain ⟨rest, rfl⟩ : ∃ rest, cs = d :: rest := by
    rcases form with ⟨same, _⟩ | ⟨same, _⟩ <;> rw [whole, same, begins]
    · exact ⟨_, rfl⟩
    · exact ⟨_, rfl⟩
  have digit : d.isDigit = true := shows.whole d (begins ▸ List.mem_cons_self)
  have apart {c : Char} (other : c.isDigit = false) : d ≠ c := by
    rintro rfl
    rw [other] at digit
    cases digit
  have found :
      Scan.lexeme d rest = .token (.number (Scan.literalValue (d :: rest))) (d :: rest).length := by
    unfold Scan.lexeme
    dsimp only
    rw [beq_false_of_ne (apart rfl), beq_false_of_ne (apart rfl), beq_false_of_ne (apart rfl),
      Scan.startsNumber_of_ne (apart rfl), digit, shows.scanNumber_eq]
    simp only [Bool.false_eq_true, if_false, if_true, Scan.numberOf, List.take_length]
  have notSpace : Scan.isSpace d = false := by
    unfold Scan.isSpace
    rw [beq_false_of_ne (apart rfl), beq_false_of_ne (apart rfl), beq_false_of_ne (apart rfl),
      beq_false_of_ne (apart rfl)]
    rfl
  have cut := @Scan.Cuts.token d rest _ _ [] notSpace found
  rw [List.drop_length, List.take_length] at cut
  exact cut .done

end Written.Shows

/-! ### Texts of numbers -/

variable {n : Float}

/-- The text of a finite number is that of its digits behind its sign. -/
theorem numberText_shows (finite : n.isFinite = true) : ∃ (w : Written) (sign cs : List Char),
    w.Shows (decimalDigits n) cs ∧ SignText sign (isBelowZero n) ∧
      (numberText n).toList = sign ++ cs ∧ (isBelowZero n = false → sign = []) := by
  replace finite : (parts n).isFinite = true := finite
  rw [numberText, Layout.write, String.toList_ofList]
  unfold Layout.chars decimalDigits isBelowZero
  cases found : parts n with
  | notANumber =>
    rw [found] at finite
    cases finite
  | infinity =>
    rw [found] at finite
    cases finite
  | zero sign =>
    obtain ⟨w, shows⟩ := shows_text ⟨0, 0⟩
    exact ⟨w, [], ['0'], shows, .none, rfl, fun _ => rfl⟩
  | finite sign mantissa exponent positive =>
    obtain ⟨w, shows⟩ := shows_text (shortest mantissa exponent)
    cases sign with
    | positive => exact ⟨w, [], _, shows, .none, rfl, fun _ => rfl⟩
    | negative => exact ⟨w, ['-'], _, shows, .minus, rfl, nofun⟩

theorem isBelowZero_of_pos (positive : 0 < n) : isBelowZero n = false ∧ unsignedZero n = n := by
  have above : UnpackedFloat.compare (.zero .positive) (parts n) = some .lt :=
    eq_of_beq (of_decide_eq_true positive)
  unfold isBelowZero unsignedZero
  cases found : parts n with
  | notANumber | infinity => exact ⟨rfl, rfl⟩
  | zero sign =>
    rw [found] at above
    cases above
  | finite sign mantissa exponent some =>
    rw [found] at above
    cases sign with
    | positive => exact ⟨rfl, rfl⟩
    | negative => cases above

theorem isFinite_unsignedZero (finite : n.isFinite = true) : (unsignedZero n).isFinite = true := by
  unfold unsignedZero
  split
  · rfl
  · exact finite

theorem AreDigits.not_blank {cs : List Char} (areDigits : AreDigits cs) :
    ∀ c ∈ cs, Text.isBlank c = false := by
  intro c among
  have digit := areDigits c among
  have bounds : 48 ≤ c.toNat ∧ c.toNat ≤ 57 := by
    rw [Char.isDigit, Bool.and_eq_true, decide_eq_true_iff, decide_eq_true_iff] at digit
    exact ⟨UInt32.le_iff_toNat_le.mp digit.1, UInt32.le_iff_toNat_le.mp digit.2⟩
  simp only [Text.isBlank, Bool.or_eq_false_iff, Bool.and_eq_false_iff, decide_eq_false_iff_not,
    beq_eq_false_iff_ne]
  omega

theorem SignText.not_blank {cs : List Char} {negative : Bool} (signed : SignText cs negative) :
    ∀ c ∈ cs, Text.isBlank c = false := by
  cases signed with
  | none => exact nofun
  | plus | minus => exact List.forall_mem_singleton.mpr rfl

theorem MantissaText.not_blank {cs whole fraction : List Char}
    (text : MantissaText cs whole fraction) (areWhole : AreDigits whole)
    (areFraction : AreDigits fraction) : ∀ c ∈ cs, Text.isBlank c = false := by
  cases text with
  | whole => exact areWhole.not_blank
  | point =>
    exact List.forall_mem_append.mpr
      ⟨areWhole.not_blank, List.forall_mem_cons.mpr ⟨rfl, areFraction.not_blank⟩⟩

theorem ExponentText.not_blank {cs digits : List Char} {negative : Bool}
    (text : ExponentText cs negative digits) : ∀ c ∈ cs, Text.isBlank c = false := by
  cases text with
  | none => exact nofun
  | some isMark signed _ areDigits =>
    refine List.forall_mem_cons.mpr
      ⟨?_, List.forall_mem_append.mpr ⟨signed.not_blank, areDigits.not_blank⟩⟩
    rcases isMark with rfl | rfl <;> rfl

theorem trimChars_of_not_blank {cs : List Char} (visible : ∀ c ∈ cs, Text.isBlank c = false) :
    Text.trimChars cs = cs := by
  have dropWhile {cs : List Char} (visible : ∀ c ∈ cs, Text.isBlank c = false) :
      cs.dropWhile Text.isBlank = cs := by
    cases cs with
    | nil => rfl
    | cons c cs => rw [List.dropWhile_cons, visible c List.mem_cons_self, if_neg Bool.false_ne_true]
  rw [Text.trimChars, Text.dropBlanksRight, dropWhile visible,
    dropWhile fun c among => visible c (List.mem_reverse.mp among), List.reverse_reverse]

theorem trimChars_of_decimalText {w : Written} {cs : List Char} (text : DecimalText w cs) :
    Text.trimChars cs = cs := by
  cases text with
  | mk signed whole fraction mantissaText exponentText =>
    exact trimChars_of_not_blank (List.forall_mem_append.mpr ⟨signed.not_blank,
      List.forall_mem_append.mpr ⟨mantissaText.not_blank whole fraction, exponentText.not_blank⟩⟩)

theorem leadingValue_of_read {cs : List Char} {x : Float} (read : readChars cs = some x) :
    leadingValue cs = x := by
  unfold leadingValue
  cases cs with
  | nil => cases read
  | cons c rest =>
    rw [List.length_cons, readLongest, ← List.length_cons, List.take_length, read]
    rfl

/-- If the shortest decimal digits of a finite number denote it, then its text is read back. The
text is a decimal text of exactly those digits, with a point at their place or with an exponent, and
reading it gives the number, or zero for the negative zero; so do the library functions that give
the text and read it. The text of a number above zero is one token, which has the value of the
number. -/
theorem numbers_read_back (finite : n.isFinite = true)
    (denotes : (decimalDigits n).float (isBelowZero n) = unsignedZero n) :
    (∃ w, DecimalText w (numberText n).toList ∧
      w.decimal = (decimalDigits n).decimal (isBelowZero n)) ∧
    read? (numberText n) = some (unsignedZero n) ∧
    (∀ state, Library.str [.number n] state = .ok (.text (numberText n)) state ∧
      Library.val [.text (numberText n)] state = .ok (.number (unsignedZero n)) state) ∧
    (0 < n → ∀ options, ∃ token finish, scan options (numberText n) = .ok [token, finish] ∧
      token.kind = .number n ∧ token.lexeme = numberText n ∧ finish.kind = .finish) := by
  obtain ⟨w, sign, cs, shows, signed, shown, unsigned⟩ := numberText_shows finite
  have text := shows.decimalText signed
  have value := (shows.value_eq (isBelowZero n)).trans denotes
  have read : read? (numberText n) = some (unsignedZero n) := by
    rw [← value]
    refine read?_eq_some_iff.mpr ⟨_, shown ▸ text, ?_, rfl⟩
    rw [value]
    exact isFinite_unsignedZero finite
  refine ⟨⟨_, shown ▸ text, shows.decimal_eq _⟩, read, fun state => ⟨rfl, ?_⟩,
    fun positive options => ?_⟩
  · have leading : leadingValue (Text.trimChars (numberText n).toList) = unsignedZero n := by
      rw [shown, trimChars_of_decimalText text, ← shown]
      exact leadingValue_of_read read
    rw [← leading]
    rfl
  · obtain ⟨above, same⟩ := isBelowZero_of_pos positive
    obtain rfl := unsigned above
    have literal : Scan.literalValue (numberText n).toList = n := by
      rw [Scan.literalValue, readWritten_iff.mpr (shown ▸ text)]
      exact value.trans same
    have cuts := shows.cuts
    rw [← List.nil_append cs, ← shown, literal] at cuts
    obtain ⟨tokens, finish, places, scanned⟩ := Program.scan_of_cuts cuts options
    obtain ⟨token, rest, rfl, bare, none⟩ := List.map_eq_cons_iff.mp places.bare_eq
    obtain rfl := List.map_eq_nil_iff.mp none
    have kind : token.kind = .number n := congrArg Token.kind bare
    refine ⟨token, finish, ?_, kind, ?_, places.finish_kind⟩
    · rw [scanned, Token.visible]
      simp only [List.cons_append, List.nil_append, List.filter_cons, kind, places.finish_kind]
      exact congrArg _ (ite_self _)
    · exact (congrArg Token.lexeme bare).trans String.ofList_toList

/-- The text of a number with an exponent is read back. -/
theorem large_number_reads_back : numberText 1.5e21 = "1.5E+21" ∧
    ∀ options, ∃ token finish, scan options (numberText 1.5e21) = .ok [token, finish] ∧
      token.kind = .number 1.5e21 ∧ token.lexeme = numberText 1.5e21 ∧ finish.kind = .finish :=
  ⟨by decide +kernel,
    (numbers_read_back (by decide +kernel) (Float.toBits_inj.mp (by decide +kernel))).2.2.2
    (by decide +kernel)⟩

end MicroBasic.Decimal
