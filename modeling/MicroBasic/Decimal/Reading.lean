import MicroBasic.Decimal.Binary

/-!
# Reading numbers

A decimal text is an optional sign, digits with an optional fraction, and an optional exponent. At
least one digit stands before or after the point, and at least one follows the exponent mark. The
number it denotes is rounded to the nearest float; a text that denotes a number beyond the finite
ones is refused where a program converts text, while a literal of a program may be infinite.
-/

namespace MicroBasic.Decimal

def digitValue (c : Char) : Nat :=
  c.toNat - '0'.toNat

def digitsValue (digits : List Char) : Nat :=
  digits.foldl (fun value c => value * 10 + digitValue c) 0

/-- The leading digits of a text and what follows them. -/
def takeDigits (cs : List Char) : List Char × List Char :=
  (cs.takeWhile Char.isDigit, cs.dropWhile Char.isDigit)

def nearestTo (digits : Nat) (exponent : Int) : Float :=
  if exponent < 0 then Float.ofScientific digits true exponent.natAbs
  else Float.ofScientific digits false exponent.natAbs

/-- A decimal text taken apart. -/
structure Written where
  negative : Bool
  whole : List Char
  fraction : List Char
  exponentNegative : Bool
  exponent : List Char
  deriving Repr, DecidableEq

namespace Written

/-- The float that a decimal text denotes. -/
def value (w : Written) : Float :=
  let exponent : Int :=
    if w.exponentNegative then -(digitsValue w.exponent : Int) else digitsValue w.exponent
  let magnitude := nearestTo (digitsValue (w.whole ++ w.fraction)) (exponent - w.fraction.length)
  if w.negative then -magnitude else magnitude

end Written

/-- An optional sign: whether it is negative, and what follows it. -/
def takeSign : List Char → Bool × List Char
  | '-' :: rest => (true, rest)
  | '+' :: rest => (false, rest)
  | cs => (false, cs)

/-- The digits of a fraction after a point, and what follows. -/
def takeFraction : List Char → List Char × List Char
  | '.' :: rest => takeDigits rest
  | cs => ([], cs)

/-- The exponent that ends a decimal text: its sign and digits, none if the text has ended. -/
def readExponent : List Char → Option (Bool × List Char)
  | [] => some (false, [])
  | mark :: rest =>
    if mark = 'e' ∨ mark = 'E' then
      let (negative, digits) := takeSign rest
      if digits ≠ [] ∧ digits.all Char.isDigit then some (negative, digits) else none
    else none

/-- A decimal text taken apart, if the characters are one. -/
def readWritten (cs : List Char) : Option Written :=
  let (negative, unsigned) := takeSign cs
  let (whole, afterWhole) := takeDigits unsigned
  let (fraction, afterFraction) := takeFraction afterWhole
  if whole = [] ∧ fraction = [] then none
  else
    match readExponent afterFraction with
    | some (exponentNegative, exponent) =>
      some { negative, whole, fraction, exponentNegative, exponent }
    | none => none

/-- The finite number that a decimal text denotes, if the characters are one. -/
def readChars (cs : List Char) : Option Float :=
  match readWritten cs with
  | some w => if w.value.isFinite then some w.value else none
  | none => none

/-- The finite number that a decimal text denotes. -/
def read? (s : String) : Option Float :=
  readChars s.toList

/-- The value of the longest beginning of a text that is a decimal, among those of at most `length`
characters. -/
def readLongest (cs : List Char) : Nat → Option Float
  | 0 => none
  | length + 1 =>
    match readChars (cs.take (length + 1)) with
    | some n => some n
    | none => readLongest cs length

/-- The value of the longest beginning of a text that is a decimal, or zero. -/
def leadingValue (cs : List Char) : Float :=
  (readLongest cs cs.length).getD 0.0

end MicroBasic.Decimal
