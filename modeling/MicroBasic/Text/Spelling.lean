import MicroBasic.Text.Basic

/-!
# Spelling suggestions

The distance between two names is the least number of single-character insertions, deletions and
replacements that turn one into the other, ignoring the case of ASCII letters. It is computed row by
row: row `i` holds the distances from the first `i` characters of one name to every beginning of the
other. A suggestion is the nearest candidate within a threshold, the first listed of several.
-/

namespace MicroBasic.Text

/-- The entries of the next row after its first. `left` is the entry just computed and `diagonal`
the entry of the previous row above it. -/
def rowTail (a : Char) : Nat → Nat → List Nat → List Char → List Nat
  | left, diagonal, above :: row, b :: bs =>
    let entry := Nat.min (Nat.min (above + 1) (left + 1)) (diagonal + if a = b then 0 else 1)
    entry :: rowTail a entry above row bs
  | _, _, _, _ => []

/-- The next row, for one more character of the first name. -/
def nextRow (a : Char) (row : List Nat) (bs : List Char) : List Nat :=
  match row with
  | [] => []
  | corner :: rest => (corner + 1) :: rowTail a (corner + 1) corner rest bs

def lastRow (as bs : List Char) : List Nat :=
  as.foldl (fun row a => nextRow a row bs) (List.range (bs.length + 1))

def charDistance (as bs : List Char) : Nat :=
  (lastRow as bs).getLastD 0

/-- The edit distance of two names, ignoring the case of ASCII letters. -/
def distance (a b : String) : Nat :=
  charDistance (a.toList.map Char.toUpper) (b.toList.map Char.toUpper)

/-- The better of the best candidate so far and one more. A candidate that is the name itself, up to
case, or that is too far away does not count, and an equal distance keeps the earlier candidate. -/
def nearer (name : String) (threshold : Nat) (best : Option (Nat × String)) (candidate : String) :
    Option (Nat × String) :=
  if sameName candidate name then best
  else
    let d := distance name candidate
    if threshold < d then best
    else
      match best with
      | some (least, _) => if d < least then some (d, candidate) else best
      | none => some (d, candidate)

def nearest? (name : String) (candidates : List String) (threshold : Nat) : Option String :=
  (candidates.foldl (nearer name threshold) none).map Prod.snd

/-- How far a suggested name may be from the one that was written. -/
def suggestionThreshold : Nat := 2

/-- The remark that proposes a suggested name, empty without one. -/
def suggestionHint : Option String → String
  | some name => s!" (did you mean '{name}'?)"
  | none => ""

end MicroBasic.Text
