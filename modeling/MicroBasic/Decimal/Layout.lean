import MicroBasic.Decimal.Shortest

/-!
# Writing numbers

Every number is written with its shortest decimal digits. What differs from place to place is the
layout: which magnitudes are written without an exponent, whether a whole number keeps a point, how
an exponent is marked and how zero and the non-finite numbers are spelled. A `Layout` holds those
decisions.
-/

namespace MicroBasic.Decimal

open Float.Model (UnpackedFloat)

/-- The decisions of one way of writing numbers. -/
structure Layout where
  /-- Whether a number whose leading digit has this power of ten is written without an exponent. -/
  positional : Int → Bool
  /-- Whether a whole number is written with a point and a zero. -/
  keepsPoint : Bool
  /-- What stands before a negative exponent's sign and a positive exponent's digits. -/
  exponentMark : String
  /-- What stands between the mark and the digits of an exponent that is not negative. -/
  exponentPlus : String
  /-- The text of positive infinity. -/
  infinity : String
  /-- Whether zero shows its sign. -/
  signsZero : Bool

/-- Digits with a decimal point after the digit of power zero. The leading digit has the power
`lead`. -/
def positionalText (layout : Layout) (digits : List Char) (lead : Int) : List Char :=
  if lead < 0 then '0' :: '.' :: (List.replicate (-lead - 1).toNat '0' ++ digits)
  else
    let whole := lead.toNat + 1
    if digits.length ≤ whole then
      digits ++ List.replicate (whole - digits.length) '0' ++
        (if layout.keepsPoint then ['.', '0'] else [])
    else digits.take whole ++ '.' :: digits.drop whole

/-- Digits with an exponent; a point follows the first digit if there are more. -/
def scientificText (layout : Layout) (digits : List Char) (lead : Int) : List Char :=
  let mantissa := match digits with
    | [] => []
    | [d] => [d]
    | d :: rest => d :: '.' :: rest
  let exponent :=
    if lead < 0 then '-' :: Nat.toDigits 10 lead.natAbs
    else layout.exponentPlus.toList ++ Nat.toDigits 10 lead.natAbs
  mantissa ++ layout.exponentMark.toList ++ exponent

def Scaled.text (layout : Layout) (s : Scaled) : List Char :=
  let digits := Nat.toDigits 10 s.digits
  let lead := s.place + digits.length - 1
  if layout.positional lead then positionalText layout digits lead
  else scientificText layout digits lead

def signText : UnpackedFloat.Sign → List Char
  | .positive => []
  | .negative => ['-']

def Layout.chars (layout : Layout) (n : Float) : List Char :=
  match parts n with
  | .notANumber => ['N', 'a', 'N']
  | .infinity sign => signText sign ++ layout.infinity.toList
  | .zero sign =>
    (if layout.signsZero then signText sign else []) ++
      (if layout.keepsPoint then ['0', '.', '0'] else ['0'])
  | .finite sign mantissa exponent _ => signText sign ++ (shortest mantissa exponent).text layout

def Layout.write (layout : Layout) (n : Float) : String :=
  String.ofList (layout.chars n)

/-- Printed numbers: no exponent from `10^-7` up to `10^16`, a capital mark with a sign, and zero
without one. -/
def printed : Layout where
  positional lead := -7 ≤ lead && lead < 16
  keepsPoint := false
  exponentMark := "E"
  exponentPlus := "+"
  infinity := "Infinity"
  signsZero := false

/-- Numbers in diagnostics: never an exponent. -/
def plain : Layout where
  positional _ := true
  keepsPoint := false
  exponentMark := "e"
  exponentPlus := ""
  infinity := "inf"
  signsZero := true

/-- Numbers in token listings: a point always, and an exponent below `10^-4` and from `10^16`. -/
def listed : Layout where
  positional lead := -4 ≤ lead && lead < 16
  keepsPoint := true
  exponentMark := "e"
  exponentPlus := ""
  infinity := "inf"
  signsZero := true

/-- Numbers in tree listings: a point always, and an exponent below `10^-5` and from `10^16`. -/
def tree : Layout where
  positional lead := -5 ≤ lead && lead < 16
  keepsPoint := true
  exponentMark := "e"
  exponentPlus := ""
  infinity := "null"
  signsZero := true

/-- The text that `PRINT` and conversion to text give a number. -/
def numberText (n : Float) : String :=
  printed.write n

end MicroBasic.Decimal
