import MicroBasic.Text.CaseTable
import MicroBasic.Text.CharClass

/-!
# Upper and lower case

Case mapping of whole texts. A character may become several, and the lower case of a capital sigma
is the final form at the end of a word.
-/

namespace MicroBasic.Text

/-- The other case of a code point by a list of special cases and a list of runs; a code point in
neither stays. -/
def mapCode (special : List (Nat × List Nat)) (runs : List CaseRun) (code : Nat) : List Nat :=
  match special.find? (fun entry => entry.1 == code) with
  | some (_, codes) => codes
  | none =>
    match runs.find? (fun run => run.covers code) with
    | some run => [run.target code]
    | none => [code]

def upperChar (c : Char) : List Char :=
  if c.toNat < 0x80 then [c.toUpper]
  else (mapCode upperSpecial upperRuns c.toNat).map Char.ofNat

/-- The lower-case form of one character, without regard to its neighbours. -/
def lowerChar (c : Char) : List Char :=
  if c.toNat < 0x80 then [c.toLower]
  else (mapCode lowerSpecial lowerRuns c.toNat).map Char.ofNat

def upper (s : String) : String :=
  String.ofList (s.toList.flatMap upperChar)

/-- Whether the first character that is not passed over has case. -/
def startsCased (cs : List Char) : Bool :=
  match cs.dropWhile caseIgnorable.contains with
  | c :: _ => cased.contains c
  | [] => false

/-- The lower case of a text, given the characters already passed, last first. -/
def lowerFrom : List Char → List Char → List Char
  | _, [] => []
  | passed, c :: rest =>
    if c.toNat == 0x3a3 then
      let final := startsCased passed && !startsCased rest
      (if final then Char.ofNat 0x3c2 else Char.ofNat 0x3c3) :: lowerFrom (c :: passed) rest
    else lowerChar c ++ lowerFrom (c :: passed) rest

def lower (s : String) : String :=
  String.ofList (lowerFrom [] s.toList)

end MicroBasic.Text
