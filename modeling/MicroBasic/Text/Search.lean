/-!
# Searching, splitting and replacing

A search finds the leftmost occurrence of a pattern and goes on after it, so occurrences do not
overlap. The functions walk a text character by character; a positive `skip` means that the walk is
still inside an occurrence that was found earlier.
-/

namespace MicroBasic.Text

def occurs (pattern : List Char) : List Char → Bool
  | [] => pattern.isEmpty
  | c :: rest => pattern.isPrefixOf (c :: rest) || occurs pattern rest

/-- Put a character in front of the first piece. -/
def consToHead (c : Char) : List (List Char) → List (List Char)
  | [] => [[c]]
  | piece :: pieces => (c :: piece) :: pieces

/-- The pieces of a text between occurrences of a separator that is not empty. -/
def splitFrom (separator : List Char) : Nat → List Char → List (List Char)
  | _, [] => [[]]
  | skip + 1, _ :: rest => splitFrom separator skip rest
  | 0, c :: rest =>
    if separator.isPrefixOf (c :: rest) then
      [] :: splitFrom separator (separator.length - 1) rest
    else consToHead c (splitFrom separator 0 rest)

/-- The pieces of a text between occurrences of a separator; an empty separator gives the characters
one by one. -/
def split (separator s : String) : List String :=
  if separator.isEmpty then s.toList.map String.singleton
  else (splitFrom separator.toList 0 s.toList).map String.ofList

/-- A text with every occurrence of a pattern that is not empty exchanged for another text. -/
def replaceFrom (pattern replacement : List Char) : Nat → List Char → List Char
  | _, [] => []
  | skip + 1, _ :: rest => replaceFrom pattern replacement skip rest
  | 0, c :: rest =>
    if pattern.isPrefixOf (c :: rest) then
      replacement ++ replaceFrom pattern replacement (pattern.length - 1) rest
    else c :: replaceFrom pattern replacement 0 rest

/-- A text with every occurrence of a pattern exchanged for another text. An empty pattern changes
nothing. -/
def replace (s pattern replacement : String) : String :=
  if pattern.isEmpty then s
  else String.ofList (replaceFrom pattern.toList replacement.toList 0 s.toList)

/-- Whether one text occurs in another. -/
def contains (s pattern : String) : Bool :=
  occurs pattern.toList s.toList

end MicroBasic.Text
