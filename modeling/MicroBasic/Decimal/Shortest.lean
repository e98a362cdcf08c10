import MicroBasic.Decimal.Binary

/-!
# The shortest decimal that reads back

A finite number stands for the interval of reals that round to it; the ends belong to the interval
when the mantissa is even. Its shortest decimal has the fewest significant digits among the decimals
in that interval, and of two with equally few digits it is the nearer one. On every decimal grid
only the two neighbours of the number itself can be nearest, so it is enough to test those two on
the grids of one, two, up to seventeen digits.

All comparisons are between natural numbers: a real `x · 2^scale` is compared with `d · 10^place` by
multiplying both with the powers that make them whole.
-/

namespace MicroBasic.Decimal

open Float.Model (UnpackedFloat)

/-- A positive decimal: `digits · 10^place`. -/
structure Scaled where
  digits : Nat
  place : Int
  deriving Repr, DecidableEq

/-- The interval of reals that round to a number, scaled by a power of two: the number is
`value · 2^scale`, and the interval reaches from `low` to `high` on the same scale. -/
structure Rounding where
  value : Nat
  low : Nat
  high : Nat
  scale : Int
  closed : Bool

/-- The interval around `mantissa · 2^exponent`. Below a power of two the gap to the next number is
half as wide, except at the smallest exponent. -/
def Rounding.of (mantissa : Nat) (exponent : Int) : Rounding where
  value := 4 * mantissa
  low := if mantissa = Nat.pow 2 52 ∧ -1074 < exponent then 4 * mantissa - 1 else 4 * mantissa - 2
  high := 4 * mantissa + 2
  scale := exponent - 2
  closed := mantissa % 2 = 0

/-- The factor that a power of two puts on the binary side of a comparison. -/
def up2 (e : Int) : Nat := Nat.pow 2 e.toNat

/-- The factor that a power of ten puts on the decimal side of a comparison. -/
def up10 (e : Int) : Nat := Nat.pow 10 e.toNat

def binarySide (x : Nat) (scale place : Int) : Nat :=
  x * up2 scale * up10 (-place)

/-- One step of the decimal grid on the decimal side of the comparison. -/
def gridStep (scale place : Int) : Nat :=
  up10 place * up2 (-scale)

def Rounding.holds (r : Rounding) (place : Int) (d : Nat) : Bool :=
  let x := d * gridStep r.scale place
  let low := binarySide r.low r.scale place
  let high := binarySide r.high r.scale place
  if r.closed then low ≤ x && x ≤ high else low < x && x < high

/-- The point of a decimal grid that stands for the number, if the grid has one: of the two
neighbours of the number, the one in the interval, the nearer if both are, and the upper one on a
tie. -/
def Rounding.onGrid? (r : Rounding) (place : Int) : Option Nat :=
  let step := gridStep r.scale place
  let value := binarySide r.value r.scale place
  let below := value / step
  match r.holds place below, r.holds place (below + 1) with
  | true, true => some (if 2 * (value % step) < step then below else below + 1)
  | true, false => some below
  | false, true => some (below + 1)
  | false, false => none

def Rounding.reaches (r : Rounding) (power : Int) : Bool :=
  gridStep r.scale power ≤ binarySide r.value r.scale power

/-- The first power of ten not above the number, going down from one that may be too large. -/
def Rounding.settle (r : Rounding) : Nat → Int → Int
  | 0, power => power
  | fuel + 1, power => if r.reaches power then power else r.settle fuel (power - 1)

/-- The largest power of ten not above the number. The binary logarithm gives it up to a few steps.
-/
def Rounding.magnitude (r : Rounding) : Int :=
  r.settle 8 (((r.value.log2 : Int) + r.scale) * 30103 / 100000 + 2)

/-- A decimal with at most `fuel` trailing zeros taken off. -/
def Scaled.strip : Nat → Scaled → Scaled
  | 0, s => s
  | fuel + 1, s =>
    if s.digits % 10 = 0 then Scaled.strip fuel ⟨s.digits / 10, s.place + 1⟩ else s

/-- A decimal without trailing zeros. -/
def Scaled.normal (s : Scaled) : Scaled :=
  Scaled.strip 20 s

/-- The first hit on the grids with `count` digits and more. -/
def Rounding.search (r : Rounding) (magnitude : Int) : Nat → Nat → Scaled
  | 0, count =>
    let place := magnitude - count + 1
    ⟨binarySide r.value r.scale place / gridStep r.scale place, place⟩
  | fuel + 1, count =>
    let place := magnitude - count + 1
    match r.onGrid? place with
    | some digits => Scaled.normal ⟨digits, place⟩
    | none => r.search magnitude fuel (count + 1)

/-- The shortest decimal that reads back as `mantissa · 2^exponent`. -/
def shortest (mantissa : Nat) (exponent : Int) : Scaled :=
  let r := Rounding.of mantissa exponent
  r.search r.magnitude 17 1

end MicroBasic.Decimal
