import MicroBasic.Text.CharClass

/-!
# Texts

Names of functions, types, fields and host entries are compared without regard to the case of ASCII
letters. A variable is stored under its name without the one-character type suffix, so `a$` and `a`
are the same variable.

Texts are ordered character by character by code point, and a beginning comes before what it begins.
Trimming removes the ASCII blanks and line breaks, the next-line control, and the space and
separator characters of other scripts. Inside another value and in error messages a text stands
between double quotes, with the usual escapes, and with characters that cannot be seen written by
their code.
-/

namespace MicroBasic.Text

/-- A name with its ASCII letters in upper case, the form under which tables store it. -/
def foldName (name : String) : String :=
  String.ofList (name.toList.map Char.toUpper)

/-- Two names that differ at most in the case of ASCII letters. -/
def sameName (a b : String) : Bool :=
  foldName a == foldName b

/-- The characters that may end a name to mark its type and are not part of its storage key. -/
def isTypeSuffix (c : Char) : Bool :=
  c == '$' || c == '%' || c == '!' || c == '&'

/-- Characters without one trailing type suffix. -/
def dropSuffix (cs : List Char) : List Char :=
  match cs.getLast? with
  | some c => if isTypeSuffix c then cs.dropLast else cs
  | none => cs

/-- The storage key of a variable: its name without the type suffix. -/
def stripSuffix (name : String) : String :=
  String.ofList (dropSuffix name.toList)

/-- Texts put together with a separator between neighbours. -/
def join (separator : String) (parts : List String) : String :=
  String.intercalate separator parts

def compareChars : List Char → List Char → Ordering
  | [], [] => .eq
  | [], _ :: _ => .lt
  | _ :: _, [] => .gt
  | a :: as, b :: bs =>
    if a.toNat < b.toNat then .lt else if b.toNat < a.toNat then .gt else compareChars as bs

def order (a b : String) : Ordering :=
  compareChars a.toList b.toList

def sorted (texts : List String) : List String :=
  texts.mergeSort (fun a b => (order a b).isLE)

/-- White space in the sense of trimming. -/
def isBlank (c : Char) : Bool :=
  let code := c.toNat
  (0x9 ≤ code && code ≤ 0xd) || code == 0x20 || code == 0x85 || code == 0xa0 || code == 0x1680 ||
    (0x2000 ≤ code && code ≤ 0x200a) || code == 0x2028 || code == 0x2029 || code == 0x202f ||
    code == 0x205f || code == 0x3000

/-- Characters without their trailing blanks. -/
def dropBlanksRight (cs : List Char) : List Char :=
  (cs.reverse.dropWhile isBlank).reverse

/-- Characters without the blanks at either end. -/
def trimChars (cs : List Char) : List Char :=
  dropBlanksRight (cs.dropWhile isBlank)

/-- A text without the blanks at either end. -/
def trim (s : String) : String :=
  String.ofList (trimChars s.toList)

/-- A text without its trailing blanks. -/
def trimRight (s : String) : String :=
  String.ofList (dropBlanksRight s.toList)

/-- Lower-case hexadecimal digits of a number. -/
def hexadecimal (n : Nat) : String :=
  String.ofList (Nat.toDigits 16 n)

def quotedChar (c : Char) : String :=
  match c with
  | '\x00' => "\\0"
  | '\t' => "\\t"
  | '\r' => "\\r"
  | '\n' => "\\n"
  | '\\' => "\\\\"
  | '"' => "\\\""
  | _ =>
    if hidden.contains c then "\\u\x7b" ++ hexadecimal c.toNat ++ "\x7d"
    else String.singleton c

/-- A text between double quotes, escaped. -/
def quoted (s : String) : String :=
  "\"" ++ String.join (s.toList.map quotedChar) ++ "\""

end MicroBasic.Text
