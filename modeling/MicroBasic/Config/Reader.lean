import MicroBasic.Config.Document
import MicroBasic.Decimal.Reading

/-!
# Reading TOML

A document is read line by line: headers, entries, comments and blank lines. A reader takes
characters from the front of the text and may fail; a failed alternative takes nothing.
-/

namespace MicroBasic.Toml

abbrev Reader := StateT (List Char) Option

namespace Reader

def peek : Reader (Option Char) :=
  return (← get).head?

/-- Take a character if it comes next, and tell whether it did. -/
def accept (c : Char) : Reader Bool := do
  match ← get with
  | next :: rest => if next = c then set rest; return true else return false
  | [] => return false

/-- Take a character that has to come next. -/
def expect (c : Char) : Reader Unit := do
  if ← accept c then return else failure

/-- Take some characters if they come next, and tell whether they did. -/
def acceptAll (cs : List Char) : Reader Bool := do
  let ahead ← get
  if cs.isPrefixOf ahead then
    set (ahead.drop cs.length)
    return true
  else return false

def takeAll (inClass : Char → Bool) : Reader (List Char) := do
  let ahead ← get
  set (ahead.dropWhile inClass)
  return ahead.takeWhile inClass

/-- A bound on the rounds of a loop that takes a character in each. -/
def rounds : Reader Nat :=
  return (← get).length + 1

def isGap (c : Char) : Bool :=
  c == ' ' || c == '\t'

/-- Pass spaces and tabs. -/
def skipGap : Reader Unit :=
  discard (takeAll isGap)

/-- Characters that texts and comments may show as they are. -/
def isPlain (c : Char) : Bool :=
  c == '\t' || (0x20 ≤ c.toNat && c.toNat ≠ 0x7f)

/-- Take a line end if there is one, and tell whether there was. -/
def acceptNewline : Reader Bool := do
  if ← accept '\n' then return true else acceptAll ['\r', '\n']

def skipComment : Reader Unit := do
  if ← accept '#' then discard (takeAll isPlain) else return

/-- The rest of a line that holds nothing more. -/
def endLine : Reader Unit := do
  skipGap
  skipComment
  if ← acceptNewline then return
  else
    match ← peek with
    | none => return
    | some _ => failure

/-- Pass blanks, comments and line ends. -/
def skipBlankLines : Nat → Reader Unit
  | 0 => failure
  | fuel + 1 => do
    skipGap
    skipComment
    if ← acceptNewline then skipBlankLines fuel else return

def hexDigit (c : Char) : Option Nat :=
  if c.isDigit then some (c.toNat - '0'.toNat)
  else if 'a' ≤ c && c ≤ 'f' then some (c.toNat - 'a'.toNat + 10)
  else if 'A' ≤ c && c ≤ 'F' then some (c.toNat - 'A'.toNat + 10)
  else none

def valueInBase (base : Nat) (cs : List Char) : Option Nat :=
  cs.foldlM (fun value c => do
    let digit ← hexDigit c
    if digit < base then some (value * base + digit) else none) 0

/-- A character given by so many hexadecimal digits. -/
def codedChar (digits : Nat) : Reader Char := do
  let ahead ← get
  let cs := ahead.take digits
  if cs.length < digits then failure
  else
    match valueInBase 16 cs with
    | some code =>
      if code.isValidChar then
        set (ahead.drop digits)
        return Char.ofNat code
      else failure
    | none => failure

/-- The character that an escape stands for, behind the backslash. -/
def escaped : Reader Char := do
  match ← get with
  | [] => failure
  | c :: rest =>
    set rest
    match c with
    | 'b' => return '\x08'
    | 't' => return '\t'
    | 'n' => return '\n'
    | 'f' => return '\x0c'
    | 'r' => return '\r'
    | '"' => return '"'
    | '\\' => return '\\'
    | 'u' => codedChar 4
    | 'U' => codedChar 8
    | _ => failure

/-- The rest of a text between double quotes on one line. -/
def basicRest : Nat → Reader (List Char)
  | 0 => failure
  | fuel + 1 => do
    match ← get with
    | [] => failure
    | c :: rest =>
      set rest
      if c = '"' then return []
      else if c = '\\' then
        let first ← escaped
        return first :: (← basicRest fuel)
      else if isPlain c then return c :: (← basicRest fuel)
      else failure

/-- The rest of a text between single quotes on one line. -/
def literalRest : Reader (List Char) := do
  let cs ← takeAll (fun c => isPlain c && c ≠ '\'')
  expect '\''
  return cs

/-- Take the quotes that come next in a text over several lines. Three end it, and up to two more
before these belong to it; the flag tells whether it ended. -/
def takeQuotes (quote : Char) : Reader (List Char × Bool) := do
  let ahead ← get
  let count := (ahead.takeWhile (fun c => c == quote)).length
  if count < 3 then
    set (ahead.drop count)
    return (List.replicate count quote, false)
  else
    let extra := Nat.min (count - 3) 2
    set (ahead.drop (extra + 3))
    return (List.replicate extra quote, true)

/-- Whether a line ends here but for spaces and tabs, behind a backslash. -/
def isAtLineEnd (ahead : List Char) : Bool :=
  match ahead.dropWhile isGap with
  | '\n' :: _ => true
  | '\r' :: '\n' :: _ => true
  | _ => false

/-- Pass spaces, tabs and line ends. -/
def skipLines : Nat → Reader Unit
  | 0 => failure
  | fuel + 1 => do
    skipGap
    if ← acceptNewline then skipLines fuel else return

/-- The rest of a text over several lines. Escapes have a meaning between double quotes only. -/
def linesRest (quote : Char) : Nat → Reader (List Char)
  | 0 => failure
  | fuel + 1 => do
    if ← acceptNewline then return '\n' :: (← linesRest quote fuel)
    else
      match ← get with
      | [] => failure
      | c :: rest =>
        if c = quote then
          let (quotes, ended) ← takeQuotes quote
          if ended then return quotes else return quotes ++ (← linesRest quote fuel)
        else if c = '\\' && quote = '"' then
          set rest
          if isAtLineEnd rest then
            skipLines (← rounds)
            linesRest quote fuel
          else
            let first ← escaped
            return first :: (← linesRest quote fuel)
        else if isPlain c then
          set rest
          return c :: (← linesRest quote fuel)
        else failure

/-- A text over several lines, behind the opening quotes; a line end right there does not count. -/
def linesText (quote : Char) : Reader String := do
  discard acceptNewline
  return String.ofList (← linesRest quote (← rounds))

def lineText (quote : Char) : Reader String := do
  if quote = '"' then return String.ofList (← basicRest (← rounds))
  else return String.ofList (← literalRest)

def text (quote : Char) : Reader String := do
  if ← acceptAll [quote, quote, quote] then linesText quote
  else
    expect quote
    lineText quote

/-- Characters of a key without quotes. -/
def isBare (c : Char) : Bool :=
  c.isAlphanum || c == '_' || c == '-'

def keyPart : Reader String := do
  skipGap
  let part ← match ← peek with
    | some '"' => do
      expect '"'
      lineText '"'
    | some '\'' => do
      expect '\''
      lineText '\''
    | _ => do
      let cs ← takeAll isBare
      if cs.isEmpty then failure else pure (String.ofList cs)
  skipGap
  return part

def keyParts : Nat → Reader (List String)
  | 0 => failure
  | fuel + 1 => do
    let part ← keyPart
    if ← accept '.' then return part :: (← keyParts fuel) else return [part]

/-- The greatest number of parts of a key, and of arrays and tables within each other. -/
def maxNesting : Nat := 79

/-- A key: the path to a table, and the name there. -/
def key : Reader (List String × String) := do
  let parts ← keyParts maxNesting
  match parts.getLast? with
  | some last => return (parts.dropLast, last)
  | none => failure

/-- Exactly so many digits, as a number. -/
def digits (count : Nat) : Reader Nat := do
  let ahead ← get
  let cs := ahead.take count
  if cs.length = count && cs.all Char.isDigit then
    set (ahead.drop count)
    return Decimal.digitsValue cs
  else failure

/-- A number of digits between bounds. -/
def digitsWithin (count low high : Nat) : Reader Nat := do
  let value ← digits count
  if low ≤ value && value ≤ high then return value else failure

def daysOf (year month : Nat) : Nat :=
  if month = 2 then
    if year % 4 = 0 && (year % 100 ≠ 0 || year % 400 = 0) then 29 else 28
  else if month = 4 || month = 6 || month = 9 || month = 11 then 30
  else 31

def date : Reader Unit := do
  let year ← digits 4
  expect '-'
  let month ← digitsWithin 2 1 12
  expect '-'
  discard (digitsWithin 2 1 (daysOf year month))

def timeOfDay : Reader Unit := do
  discard (digitsWithin 2 0 23)
  expect ':'
  discard (digitsWithin 2 0 59)
  expect ':'
  discard (digitsWithin 2 0 60)
  if ← accept '.' then
    let fraction ← takeAll Char.isDigit
    if fraction.isEmpty then failure else return
  else return

/-- The distance of a time from universal time. -/
def offset : Reader Unit := do
  match ← get with
  | c :: rest =>
    set rest
    if c = 'Z' || c = 'z' then return
    else if c = '+' || c = '-' then
      discard (digitsWithin 2 0 23)
      expect ':'
      discard (digitsWithin 2 0 59)
    else failure
  | [] => failure

/-- Something that may be missing. -/
def optional (reader : Reader Unit) : Reader Unit :=
  reader <|> return

def timeAfterDate : Reader Unit := do
  match ← get with
  | c :: rest =>
    if c = 'T' || c = 't' || c = ' ' then
      set rest
      timeOfDay
      optional offset
    else failure
  | [] => failure

/-- A date, a time or both. -/
def moment : Reader Toml := do
  (do date; optional timeAfterDate) <|> timeOfDay
  return .moment

/-- Digits with single underscores between them, without the underscores. -/
def groupedDigits (inClass : Char → Bool) : Nat → Reader (List Char)
  | 0 => failure
  | fuel + 1 => do
    let cs ← takeAll inClass
    if cs.isEmpty then failure
    else if ← accept '_' then return cs ++ (← groupedDigits inClass fuel)
    else return cs

def sign : Reader (List Char) := do
  if ← accept '-' then return ['-']
  else if ← accept '+' then return ['+']
  else return []

/-- The digits of a whole number; a zero stands alone. -/
def wholeDigits : Reader (List Char) := do
  if ← accept '0' then return ['0'] else groupedDigits Char.isDigit (← rounds)

def fraction : Reader (List Char) := do
  expect '.'
  return '.' :: (← groupedDigits Char.isDigit (← rounds))

def exponent : Reader (List Char) := do
  if !(← accept 'e') then expect 'E'
  let signChars ← sign
  return 'e' :: (signChars ++ (← groupedDigits Char.isDigit (← rounds)))

def fractionOrExponent : Reader (List Char) :=
  (do
    let front ← fraction
    let back ← exponent <|> pure []
    return front ++ back) <|> exponent

/-- Infinity or not-a-number, by name. -/
def namedReal : Reader Toml := do
  if ← acceptAll ['i', 'n', 'f'] then return .real (1.0 / 0.0)
  else if ← acceptAll ['n', 'a', 'n'] then return .real (0.0 / 0.0)
  else failure

/-- A number with a fraction or an exponent. -/
def writtenReal (signChars : List Char) : Reader Toml := do
  let front ← wholeDigits
  let back ← fractionOrExponent
  match Decimal.readWritten (signChars ++ front ++ back) with
  | some written =>
    if written.value == 1.0 / 0.0 then failure else return .real written.value
  | none => failure

/-- A number that is not whole. -/
def real : Reader Toml := do
  let signChars ← sign
  writtenReal signChars <|> namedReal

/-- The least and the greatest whole number. -/
def fitsWhole (value : Int) : Bool :=
  -0x8000000000000000 ≤ value && value < 0x8000000000000000

/-- A whole number in another base, behind its mark. -/
def wholeInBase (base : Nat) : Reader Toml := do
  let cs ← groupedDigits (fun c => (valueInBase base [c]).isSome) (← rounds)
  match valueInBase base cs with
  | some value => if fitsWhole value then return .whole value else failure
  | none => failure

def decimalWhole : Reader Toml := do
  let signChars ← sign
  let magnitude : Int := Decimal.digitsValue (← wholeDigits)
  let value := if signChars = ['-'] then -magnitude else magnitude
  if fitsWhole value then return .whole value else failure

def whole : Reader Toml := do
  if ← acceptAll ['0', 'x'] then wholeInBase 16
  else if ← acceptAll ['0', 'o'] then wholeInBase 8
  else if ← acceptAll ['0', 'b'] then wholeInBase 2
  else decimalWhole

def flag : Reader Toml := do
  if ← acceptAll "true".toList then return .flag true
  else if ← acceptAll "false".toList then return .flag false
  else failure

/-- Values between commas up to the closing bracket. -/
def arrayItems (value : Reader Toml) : Nat → Reader (List Toml)
  | 0 => failure
  | fuel + 1 => do
    skipBlankLines (← rounds)
    if ← accept ']' then return []
    else
      let item ← value
      skipBlankLines (← rounds)
      if ← accept ',' then return item :: (← arrayItems value fuel)
      else
        expect ']'
        return [item]

/-- Entries between commas up to the closing brace, added to those read before. -/
def inlineEntries (value : Reader Toml) :
    Nat → List (String × Toml) → Reader (List (String × Toml))
  | 0, _ => failure
  | fuel + 1, fields => do
    let (path, name) ← key
    expect '='
    skipGap
    let item ← value
    skipGap
    match addEntry path name item .inline fields with
    | none => failure
    | some fields =>
      if ← accept ',' then inlineEntries value fuel fields
      else
        expect '\x7d'
        return fields

/-- A table between braces, behind the opening one. -/
def inlineTable (value : Reader Toml) : Reader Toml := do
  skipGap
  if ← accept '\x7d' then return .table .inline []
  else return .table .inline (← inlineEntries value (← rounds) [])

/-- A value, with a reader for the values within it if these may be nested any further. -/
def valueOver (inner : Option (Reader Toml)) : Reader Toml := do
  match ← peek, inner with
  | none, _ => failure
  | some '[', none => failure
  | some '[', some inner => do
    expect '['
    return .array (← arrayItems inner (← rounds))
  | some '\x7b', none => failure
  | some '\x7b', some inner => do
    expect '\x7b'
    inlineTable inner
  | some c, _ =>
    if c = '"' || c = '\'' then return .text (← text c)
    else if c = '+' || c = '-' || c.isDigit then moment <|> real <|> whole
    else if c = 'i' || c = 'n' then namedReal
    else flag

/-- A value with so many levels of arrays and tables left. -/
def value : Nat → Reader Toml
  | 0 => valueOver none
  | levels + 1 => valueOver (some (value levels))

/-- The document so far and the header of the current table. -/
structure Progress where
  fields : List (String × Toml)
  header : List String

def headerLine (progress : Progress) : Reader Progress := do
  if ← acceptAll ['[', '['] then
    let (path, name) ← key
    expect ']'
    expect ']'
    endLine
    match openItem path name progress.fields with
    | some fields => return { fields, header := path ++ [name] }
    | none => failure
  else
    expect '['
    let (path, name) ← key
    expect ']'
    endLine
    match openTable path name progress.fields with
    | some fields => return { fields, header := path ++ [name] }
    | none => failure

def entryLine (progress : Progress) : Reader Progress := do
  let (path, name) ← key
  expect '='
  skipGap
  let item ← value maxNesting
  endLine
  match within .implied (addEntry path name item) .header progress.header progress.fields with
  | some fields => return { progress with fields }
  | none => failure

def documentLines : Nat → Progress → Reader (List (String × Toml))
  | 0, _ => failure
  | fuel + 1, progress => do
    skipGap
    match ← peek with
    | none => return progress.fields
    | some c =>
      if c = '#' || c = '\n' || c = '\r' then
        endLine
        documentLines fuel progress
      else if c = '[' then
        let progress ← headerLine progress
        documentLines fuel progress
      else
        let progress ← entryLine progress
        documentLines fuel progress

end Reader

/-- The entries of a document. A mark of the byte order may come first. -/
def read? (source : String) : Option (List (String × Toml)) := do
  let cs := match source.toList with
    | '﻿' :: rest => rest
    | cs => cs
  let (fields, _) ← (Reader.documentLines (cs.length + 1) { fields := [], header := [] }).run cs
  return fields

end MicroBasic.Toml
