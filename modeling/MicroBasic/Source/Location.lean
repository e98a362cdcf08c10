/-!
# Locations in a source text

A span is a range of bytes of the UTF-8 form of a source text. A position is a line and a column,
both counted from one; columns count characters. The line index of a source holds the offset at
which every line starts and turns an offset into a position.
-/

namespace MicroBasic

/-- A range of bytes: from `start` up to and without `stop`. -/
structure Span where
  start : Nat
  stop : Nat
  deriving Repr, DecidableEq, Inhabited

/-- A line and a column, counted from one. -/
structure Position where
  line : Nat
  column : Nat
  deriving Repr, DecidableEq, Inhabited

def Position.text (p : Position) : String :=
  s!"{p.line}:{p.column}"

def byteLength : List Char → Nat
  | [] => 0
  | c :: rest => c.utf8Size + byteLength rest

/-- The offsets just after each line break, where the characters begin at `offset`. -/
def lineStartsFrom : Nat → List Char → List Nat
  | _, [] => []
  | offset, c :: rest =>
    let next := offset + c.utf8Size
    if c = '\n' then next :: lineStartsFrom next rest else lineStartsFrom next rest

/-- The offsets at which the lines of a source start. -/
structure LineIndex where
  starts : List Nat
  deriving Repr, DecidableEq

namespace LineIndex

/-- The line index of a source. The first line starts at zero. -/
def of (source : List Char) : LineIndex where
  starts := 0 :: lineStartsFrom 0 source

/-- The last line start at or before an offset, with its line number; `line` is the number of the
first start of the list. -/
def lookup (offset : Nat) : List Nat → Nat → Nat → Nat × Nat
  | [], line, start => (line, start)
  | next :: rest, line, start =>
    if next ≤ offset then lookup offset rest (line + 1) next else (line, start)

/-- The number of characters in the first `bytes` bytes of a text, if those end at a character
boundary within the text. -/
def charsIn? : List Char → Nat → Option Nat
  | _, 0 => some 0
  | [], _ + 1 => none
  | c :: rest, bytes + 1 =>
    if c.utf8Size ≤ bytes + 1 then (charsIn? rest (bytes + 1 - c.utf8Size)).map (· + 1) else none

/-- The characters that remain after the first `bytes` bytes of a text. -/
def dropBytes : List Char → Nat → List Char
  | cs, 0 => cs
  | [], _ + 1 => []
  | c :: rest, bytes + 1 => dropBytes rest (bytes + 1 - c.utf8Size)

/-- The position of an offset. An offset beyond the end or inside a character counts bytes instead
of characters. -/
def position (index : LineIndex) (source : List Char) (offset : Nat) : Position :=
  let (line, start) := lookup offset index.starts.tail 1 0
  let distance := offset - start
  { line, column := (charsIn? (dropBytes source start) distance).getD distance + 1 }

end LineIndex

end MicroBasic
