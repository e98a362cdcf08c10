/-!
# Numbers as mantissa and exponent

A number is a 64-bit float. Where exact arithmetic is needed a finite number is taken apart into a
sign, a whole mantissa and a power of two, and put together again.
-/

namespace MicroBasic.Decimal

open Float.Model (UnpackedFloat Format)

/-- The sign, mantissa and exponent of a number, or the kind of non-finite number it is. -/
def parts (n : Float) : UnpackedFloat :=
  UnpackedFloat.unpack Format.binary64 n.toBits.toBitVec

/-- The number with the given parts, rounded to the nearest. -/
def ofParts (sign : UnpackedFloat.Sign) (mantissa : Nat) (exponent : Int) : Float :=
  Float.ofBits (UInt64.ofBitVec
    (UnpackedFloat.pack Format.binary64
      (UnpackedFloat.round Format.binary64 sign mantissa exponent)))

/-- Whether the sign bit is set. -/
def isNegative (n : Float) : Bool :=
  n.toBits >>> 63 == 1

/-- The natural number that a number is, if it is one. Negative zero is zero. -/
def natural? (n : Float) : Option Nat :=
  match parts n with
  | .zero _ => some 0
  | .finite .positive mantissa exponent _ =>
    if 0 ≤ exponent then some (mantissa * Nat.pow 2 exponent.toNat)
    else
      let scale := Nat.pow 2 (-exponent).toNat
      if mantissa % scale = 0 then some (mantissa / scale) else none
  | _ => none

/-- The whole part of a number toward zero, as an integer kept between two bounds. Not-a-number
counts as zero. -/
def clampedWhole (low high : Int) (n : Float) : Int :=
  match parts n with
  | .infinity .positive => high
  | .infinity .negative => low
  | .notANumber => 0
  | .zero _ => 0
  | .finite sign mantissa exponent _ =>
    let magnitude : Nat :=
      if 0 ≤ exponent then mantissa * Nat.pow 2 exponent.toNat
      else mantissa / Nat.pow 2 (-exponent).toNat
    let whole : Int := match sign with
      | .positive => magnitude
      | .negative => -magnitude
    if whole < low then low else if high < whole then high else whole

/-- A quotient's remainder with the sign of the dividend. The result is exact. -/
def remainder (a b : Float) : Float :=
  match parts a, parts b with
  | .finite sign mantissa exponent _, .finite _ divisor divisorExponent _ =>
    let base := if exponent ≤ divisorExponent then exponent else divisorExponent
    let rest := (mantissa * Nat.pow 2 (exponent - base).toNat) %
      (divisor * Nat.pow 2 (divisorExponent - base).toNat)
    if rest = 0 then (match sign with | .positive => 0.0 | .negative => -0.0)
    else ofParts sign rest base
  | .zero _, .finite _ _ _ _ => a
  | .zero _, .infinity _ => a
  | .finite _ _ _ _, .infinity _ => a
  | _, _ => 0.0 / 0.0

/-- A base raised to a whole power by repeated squaring: `power` is multiplied by the current square
for every set bit of the exponent. -/
def powerBySquaring : Nat → Nat → Float → Float → Float
  | 0, _, _, power => power
  | fuel + 1, exponent, square, power =>
    let power := if exponent % 2 = 1 then power * square else power
    let rest := exponent / 2
    if rest = 0 then power else powerBySquaring fuel rest (square * square) power

/-- A power of ten with a whole exponent. A negative exponent takes the reciprocal at the end. -/
def powerOfTen (exponent : Int) : Float :=
  let power := powerBySquaring (exponent.natAbs + 1) exponent.natAbs 10.0 1.0
  if exponent < 0 then 1.0 / power else power

/-- The smaller of two numbers. Not-a-number loses, and the first wins a tie. -/
def lesser (a b : Float) : Float :=
  if a.isNaN then b else if b < a then b else a

/-- The larger of two numbers. Not-a-number loses, and the first wins a tie. -/
def greater (a b : Float) : Float :=
  if a.isNaN then b else if a < b then b else a

end MicroBasic.Decimal
