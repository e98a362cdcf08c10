/-!
# Dates

The date and time of a clock reading in the calendar. Years are counted in eras of 400 years that
start in March, so that a leap day ends its year.
-/

namespace MicroBasic.Calendar

/-- A date: year, month and day of the month. -/
structure Date where
  year : Nat
  month : Nat
  day : Nat
  deriving Repr, DecidableEq

/-- The date of a number of days since the start of the year 1970. -/
def dateOfDays (days : Nat) : Date :=
  let sinceMarch := days + 719468
  let era := sinceMarch / 146097
  let dayOfEra := sinceMarch % 146097
  let yearOfEra :=
    (dayOfEra - dayOfEra / 1460 + dayOfEra / 36524 - dayOfEra / 146096) / 365
  let dayOfYear := dayOfEra - (365 * yearOfEra + yearOfEra / 4 - yearOfEra / 100)
  let shifted := (5 * dayOfYear + 2) / 153
  let month := if shifted < 10 then shifted + 3 else shifted - 9
  { year := era * 400 + yearOfEra + (if month ≤ 2 then 1 else 0)
    month
    day := dayOfYear - (153 * shifted + 2) / 5 + 1 }

/-- A number with at least so many digits. -/
def padded (width n : Nat) : String :=
  let digits := Nat.toDigits 10 n
  String.ofList (List.replicate (width - digits.length) '0' ++ digits)

/-- A clock reading as date and time of day. -/
def stamp (milliseconds : Nat) : String :=
  let seconds := milliseconds / 1000
  let date := dateOfDays (seconds / 86400)
  let rest := seconds % 86400
  s!"{padded 4 date.year}-{padded 2 date.month}-{padded 2 date.day} " ++
    s!"{padded 2 (rest / 3600)}:{padded 2 (rest / 60 % 60)}:{padded 2 (rest % 60)}"

end MicroBasic.Calendar
