import Mathlib
import MicroBasic.Decimal.Reading

/-!
# Whole numbers as floats

The float nearest to a whole number is found by multiplying the float of its digits by a power of
ten, or from all its bits at once. Either way enough bits are rounded, so the float does not depend
on how the number is written.
-/

namespace MicroBasic.Decimal

open Float.Model (UnpackedFloat Format)
open Float.Model.UnpackedFloat

/-- Bits that were shifted in are shifted out again, and nothing is lost. -/
theorem shiftRight_exact (m j : Nat) :
    ExtendedMantissa.ofMantissaAndAccuracy (m <<< j) .exact >>> j =
    .ofMantissaAndAccuracy m .exact := by
  change j.repeat ExtendedMantissa.shiftRightOne _ = _
  induction j generalizing m with
  | zero => rfl
  | succ j ih =>
    have double : m <<< (j + 1) = (2 * m) <<< j := by rw [Nat.shiftLeft_succ_inside]
    rw [double, Nat.repeat, ih]
    simp [ExtendedMantissa.ofMantissaAndAccuracy, ExtendedMantissa.shiftRightOne]

theorem shiftRight_add (em : ExtendedMantissa) (a b : Nat) : em >>> (a + b) = em >>> a >>> b := by
  change (a + b).repeat ExtendedMantissa.shiftRightOne em = b.repeat _ (a.repeat _ em)
  induction b with
  | zero => rfl
  | succ b ih => exact congrArg ExtendedMantissa.shiftRightOne ih

theorem log2_shiftLeft {m : Nat} (positive : 0 < m) (j : Nat) : (m <<< j).log2 = m.log2 + j := by
  have power := Nat.two_pow_pos j
  obtain ⟨low, high⟩ := (Nat.log2_eq_iff (Nat.ne_of_gt positive)).mp rfl
  rw [Nat.shiftLeft_eq, Nat.log2_eq_iff (Nat.ne_of_gt (Nat.mul_pos positive power)),
    Nat.add_right_comm, Nat.pow_add, Nat.pow_add _ (m.log2 + 1)]
  exact ⟨Nat.mul_le_mul_right _ low, Nat.mul_lt_mul_of_pos_right high power⟩

theorem targetExponent_eq (m : Nat) (e : Int) :
    Format.binary64.targetExponent (Float.Model.totalExponent m e) =
    max (m.log2 + e - 52) (-1074) := by
  change max ((m.log2 : Int) + 1 + e - 53) (-1074) = _
  congr 1
  omega

/-- The float nearest to a positive whole number, from the fewest bits that are enough. -/
def nearestWhole (n : Nat) : UnpackedFloat :=
  roundWithAccuracy .binary64 .positive (n <<< (52 - n.log2)) (-((52 - n.log2 : Nat) : Int)) .exact

/-- A whole number is rounded in the same way from any bits that are enough. -/
theorem roundWithAccuracy_whole {n j : Nat} (positive : 0 < n) (enough : 52 - n.log2 ≤ j) :
    roundWithAccuracy .binary64 .positive (n <<< j) (-(j : Int)) .exact = nearestWhole n := by
  obtain ⟨more, rfl⟩ := Nat.exists_eq_add_of_le enough
  have same : shiftToTargetExponent .binary64 (n <<< (52 - n.log2 + more))
      (-((52 - n.log2 + more : Nat) : Int)) .exact =
      shiftToTargetExponent .binary64 (n <<< (52 - n.log2))
          (-((52 - n.log2 : Nat) : Int)) .exact := by
    unfold shiftToTargetExponent shiftToExponent
    rw [targetExponent_eq, targetExponent_eq, log2_shiftLeft positive, log2_shiftLeft positive,
      Nat.shiftLeft_add]
    generalize least : 52 - n.log2 = i
    have target : ((n.log2 + (i + more) : Nat) : Int) + -((i + more : Nat) : Int) - 52 =
        ((n.log2 + i : Nat) : Int) + -(i : Int) - 52 := by omega
    have amount :
      (max (((n.log2 + i : Nat) : Int) + -(i : Int) - 52)
        (-1074) - -((i + more : Nat) : Int)).toNat =
        more + (max (((n.log2 + i : Nat) : Int) + -(i : Int) - 52) (-1074) - -(i : Int)).toNat := by
          omega
    simp only [target, amount, shiftRight_add, shiftRight_exact]
    congr 1
    omega
  unfold nearestWhole roundWithAccuracy
  rw [same]

/-- A mantissa of 53 bits is not rounded. -/
theorem roundWithAccuracy_exact {m : Nat} {e : Int} (positive : 0 < m) (bits : m.log2 = 52)
    (least : -1074 ≤ e) :
    roundWithAccuracy .binary64 .positive m e .exact = .finite .positive m e positive := by
  have kept :
      shiftToTargetExponent .binary64 m e .exact = (.ofMantissaAndAccuracy m .exact, e) := by
    unfold shiftToTargetExponent shiftToExponent
    rw [targetExponent_eq, bits]
    have none : (max (((52 : Nat) : Int) + e - 52) (-1074) - e).toNat = 0 := by omega
    simp only [none]
    exact Prod.ext rfl (Int.add_zero e)
  have same : (ExtendedMantissa.ofMantissaAndAccuracy m .exact).roundedMantissa = m := rfl
  unfold roundWithAccuracy
  simp only [kept, same]
  exact dif_neg (Nat.ne_of_gt positive)

theorem nearestWhole_exact {n : Nat} (positive : 0 < n) (small : n < 2 ^ 53) : ∃ nonzero,
    nearestWhole n =
      .finite .positive (n <<< (52 - n.log2)) (-((52 - n.log2 : Nat) : Int)) nonzero := by
  have log : n.log2 < 53 := (Nat.log2_lt (Nat.ne_of_gt positive)).mpr small
  have nonzero : 0 < n <<< (52 - n.log2) := by
    rw [Nat.shiftLeft_eq]; exact Nat.mul_pos positive (Nat.two_pow_pos _)
  exact ⟨nonzero,
    roundWithAccuracy_exact nonzero (by rw [log2_shiftLeft positive]; omega) (by omega)⟩

theorem unpack_pack {m : Nat} {e : Int} (positive : 0 < m) (bits : m.log2 = 52) (least : -1074 ≤ e)
    (most : e ≤ 971) :
    unpack .binary64 (pack .binary64 (.finite .positive m e positive)) =
      .finite .positive m e positive := by
  obtain ⟨low, high⟩ := (Nat.log2_eq_iff (Nat.ne_of_gt positive)).mp bits
  obtain ⟨biased, shown⟩ : ∃ biased : Nat, e + 1075 = biased := Int.eq_ofNat_of_zero_le (by omega)
  have small : biased < 2047 := by omega
  have packed : pack .binary64 (.finite .positive m e positive) =
      packComponents .binary64 .positive (BitVec.ofNat 11 biased) (BitVec.ofNat 52 m) := by
    have sum : (e + (Format.binary64.exponentBias : Int) +
        (Format.binary64.mantissaBitsWithoutImplicit : Int)).toNat = biased := by
      change (e + 1023 + 52).toNat = biased
      omega
    unfold pack
    simp only [sum, bits]
    exact (if_neg (by change ¬ 2048 ≤ biased + 1; omega)).trans (if_pos rfl)
  have fits : (BitVec.ofNat 11 biased).toNat = biased := by
    rw [BitVec.toNat_ofNat, Nat.mod_eq_of_lt (by omega)]
  rw [packed]
  unfold unpack
  simp only [unpackMantissa_packComponents, unpackExponent_packComponents,
    unpackSign_packComponents, Sign.ofBitVec_toBitVec]
  have notOnes : BitVec.ofNat 11 biased ≠ -1#11 := fun same => by
    have ones := congrArg BitVec.toNat same
    rw [fits] at ones
    exact absurd ones (by change biased ≠ 2047; omega)
  have notZero : BitVec.ofNat 11 biased ≠ 0#11 := fun same => by
    have none := congrArg BitVec.toNat same
    rw [fits] at none
    exact absurd none (by change biased ≠ 0; omega)
  have mantissa : (1#1 ++ BitVec.ofNat 52 m).toNat = m := by
    rw [BitVec.toNat_append, ← Nat.shiftLeft_add_eq_or_of_lt (BitVec.isLt _), BitVec.toNat_ofNat]
    simp only [BitVec.toNat_ofNat, Nat.shiftLeft_eq]
    omega
  have exponent :
      ((BitVec.ofNat 11 biased).toNat : Int) - ((Format.binary64.exponentBias : Int) + 52) = e := by
    rw [fits]
    change (biased : Int) - (1023 + 52) = e
    omega
  rw [if_neg notOnes, if_neg notZero]
  simp only [mantissa]
  congr 1

/-- The numbers of at most 53 bits are floats. -/
theorem unpack_toFloat {n : Nat} (positive : 0 < n) (small : n < 2 ^ 53) :
    n.toUInt64.toFloat.toModel.unpack = nearestWhole n := by
  have log : n.log2 < 53 := (Nat.log2_lt (Nat.ne_of_gt positive)).mpr small
  obtain ⟨nonzero, form⟩ := nearestWhole_exact positive small
  have whole : UnpackedFloat.ofNat .binary64 n = nearestWhole n := by
    have sign : compare (n : Int) 0 = .gt := Int.compare_eq_gt.mpr (by omega)
    unfold UnpackedFloat.ofNat ofInt UnpackedFloat.normalize
    rw [sign]
    change UnpackedFloat.round .binary64 .positive n 0 = _
    unfold UnpackedFloat.round
    rw [targetExponent_eq]
    have amount : (0 - max ((n.log2 : Int) + 0 - 52) (-1074)).toNat = 52 - n.log2 := by omega
    simp only [decreaseExponent, amount]
    rw [Int.zero_sub]
    rfl
  have size : n.toUInt64.toNat = n := Nat.mod_eq_of_lt (by omega)
  change unpack .binary64 (pack .binary64 (UnpackedFloat.ofNat .binary64 n.toUInt64.toNat)) = _
  rw [size, whole, form]
  exact unpack_pack nonzero (by rw [log2_shiftLeft positive]; omega) (by omega) (by omega)

/-- The powers of ten that are multiplied with are the floats of these numbers. -/
theorem powersOfTen_eq :
    ∀ power : Fin 16, (Float.exactlyRepresentablePowersOfTen[power.val]).toBits =
    (10 ^ power.val).toUInt64.toFloat.toBits := by
  decide +kernel

theorem log2_mul_le {a b : Nat} (first : 0 < a) (second : 0 < b) :
    a.log2 + b.log2 ≤ (a * b).log2 := by
  rw [Nat.le_log2 (Nat.ne_of_gt (Nat.mul_pos first second)), Nat.pow_add]
  exact Nat.mul_le_mul (Nat.log2_self_le (Nat.ne_of_gt first))
    (Nat.log2_self_le (Nat.ne_of_gt second))

theorem mul_nearestWhole {a b : Nat} (first : 0 < a) (second : 0 < b) (small : a < 2 ^ 53)
    (other : b < 2 ^ 53) :
    UnpackedFloat.mul .binary64 (nearestWhole a) (nearestWhole b) = nearestWhole (a * b) := by
  obtain ⟨nonzero, form⟩ := nearestWhole_exact first small
  obtain ⟨nonzero', form'⟩ := nearestWhole_exact second other
  have log := log2_mul_le first second
  have log1 : a.log2 < 53 := (Nat.log2_lt (Nat.ne_of_gt first)).mpr small
  have log2 : b.log2 < 53 := (Nat.log2_lt (Nat.ne_of_gt second)).mpr other
  have shifts :
      a <<< (52 - a.log2) * b <<< (52 - b.log2) = (a * b) <<< (52 - a.log2 + (52 - b.log2)) := by
    simp only [Nat.shiftLeft_eq, Nat.pow_add]
    ring
  have exponents : -((52 - a.log2 : Nat) : Int) + -((52 - b.log2 : Nat) : Int) =
      -((52 - a.log2 + (52 - b.log2) : Nat) : Int) := by omega
  rw [form, form']
  change roundWithAccuracy .binary64 .positive (_ * _) (_ + _) .exact = _
  rw [shifts, exponents]
  exact roundWithAccuracy_whole (Nat.mul_pos first second) (by omega)

/-- The float nearest to a whole number that is written with few zeros as an exponent. -/
theorem nearestTo_whole {digits zeros : Nat} (positive : 0 < digits) (bound : zeros < 16)
    (small : digits < 2 ^ 53 ∨ zeros = 0) :
    (nearestTo digits zeros).toModel = .pack (nearestWhole (digits * 10 ^ zeros)) := by
  have shown : nearestTo digits zeros = Float.ofScientific digits false zeros := if_neg (by omega)
  rw [shown]
  unfold Float.ofScientific
  split
  next few =>
    have inside : zeros < Float.exactlyRepresentablePowersOfTen.size :=
      Nat.lt_of_lt_of_le bound (by decide)
    have power : Float.exactlyRepresentablePowersOfTen[zeros] = (10 ^ zeros).toUInt64.toFloat :=
      Float.toBits_inj.mp (powersOfTen_eq ⟨zeros, bound⟩)
    have less : 10 ^ zeros < 2 ^ 53 :=
      Nat.lt_of_le_of_lt (Nat.pow_le_pow_right (by decide) (Nat.le_of_lt_succ bound))
      (by decide)
    dsimp only
    rw [if_neg Bool.false_ne_true, power]
    change Float.Model.pack (UnpackedFloat.mul .binary64 (digits.toUInt64.toFloat.toModel.unpack)
      ((10 ^ zeros).toUInt64.toFloat.toModel.unpack)) = _
    rw [unpack_toFloat positive few.1, unpack_toFloat (Nat.pow_pos (by decide)) less,
      mul_nearestWhole positive (Nat.pow_pos (by decide)) few.1 less]
  next many =>
    obtain rfl : zeros = 0 := by omega
    change Float.Model.pack (UnpackedFloat.ofScientific .binary64 digits 0) = _
    unfold UnpackedFloat.ofScientific
    rw [dif_neg (Nat.ne_of_gt positive), if_neg (by decide),
      if_neg (by change ¬ (0 : Int) < -(2048 + _); omega), if_pos (by decide)]
    change Float.Model.pack
      (roundWithAccuracy .binary64 .positive (digits <<< 53 * 1) (-53 + 0) .exact) = _
    rw [Nat.mul_one, Nat.pow_zero, Nat.mul_one]
    exact congrArg _ (roundWithAccuracy_whole positive (by omega))

/-- Trailing zeros of a whole number may be written as an exponent. -/
theorem nearestTo_zeros {digits zeros : Nat} (bound : zeros < 16)
    (small : digits * 10 ^ zeros < 10 ^ 16) :
    nearestTo (digits * 10 ^ zeros) 0 = nearestTo digits zeros := by
  rcases Nat.eq_zero_or_pos digits with rfl | positive
  · have none : ∀ zeros : Fin 16, (nearestTo 0 0).toBits = (nearestTo 0 zeros.val).toBits := by
      decide +kernel
    rw [Nat.zero_mul]
    exact Float.toBits_inj.mp (none ⟨zeros, bound⟩)
  · have few : digits < 2 ^ 53 ∨ zeros = 0 := by
      cases zeros with
      | zero => exact .inr rfl
      | succ zeros =>
        have ten : 0 < 10 ^ zeros := Nat.pow_pos (by decide)
        rw [Nat.pow_succ] at small
        refine .inl ?_
        nlinarith
    have some : 0 < digits * 10 ^ zeros := Nat.mul_pos positive (Nat.pow_pos (by decide))
    have whole := @nearestTo_whole _ 0 some (by decide) (.inr rfl)
    rw [Nat.pow_zero, Nat.mul_one, ← nearestTo_whole positive bound few] at whole
    exact congrArg Float.ofModel whole

end MicroBasic.Decimal
