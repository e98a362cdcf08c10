import MicroBasic.Value.Basic

/-!
# The outside world

What a run sees of the world outside: lines of input, the clock, and a source of random numbers; and
what the world sees of a run: the lines and prompts that it shows. Everything a run may see is fixed
beforehand. Where that does not reach, the run stops and tells what it awaits, so that it can be
taken up again with more.
-/

namespace MicroBasic

/-- What an unfinished run needs. -/
inductive Awaited where
  /-- Another line of input. -/
  | line
  /-- Another reading of the clock. -/
  | clock
  /-- A larger bound on the work that may be done. -/
  | fuel
  deriving Repr, DecidableEq

/-- Where lines of input come from. -/
inductive Input where
  | absent
  /-- Some lines; `live` tells that there may be more than these. -/
  | lines (remaining : List String) (live : Bool)

/-- The clock, in milliseconds since the start of the year 1970. -/
structure Clock where
  /-- The next readings. -/
  readings : List Nat
  /-- The latest reading, at which a clock without further readings stands. -/
  latest : Nat
  /-- Whether there are more readings than these. -/
  live : Bool

/-- Something that is shown while a program runs. -/
inductive Event where
  | line (text : String)
  | prompt (text : String)
  deriving Repr, DecidableEq

/-- The world outside of a run. -/
structure World where
  input : Input
  clock : Clock
  /-- The state of the source of random numbers. -/
  seed : UInt64
  /-- What has been shown. -/
  shown : Array Event

namespace World

/-- A world without input in which no time passes. -/
def still : World where
  input := .absent
  clock := { readings := [], latest := 0, live := false }
  seed := 0
  shown := #[]

def record (world : World) (event : Event) : World :=
  { world with shown := world.shown.push event }

/-- Ask for a line of input. The prompt is shown wherever lines can come from. -/
def takeLine (world : World) (prompt : String) : Except Awaited (Option String) × World :=
  match world.input with
  | .absent => (.ok none, world)
  | .lines remaining live =>
    let world := world.record (.prompt prompt)
    match remaining with
    | line :: rest => (.ok (some line), { world with input := .lines rest live })
    | [] => (if live then .error .line else .ok none, world)

/-- The lines of input that have not been taken. -/
def linesAhead (world : World) : List String :=
  match world.input with
  | .absent => []
  | .lines remaining _ => remaining

/-- Add a line of input behind those that have not been taken. -/
def addLine (world : World) (line : String) : World :=
  match world.input with
  | .absent => world
  | .lines remaining live => { world with input := .lines (remaining ++ [line]) live }

/-- Let there be no more lines of input than those that have not been taken. -/
def closeInput (world : World) : World :=
  match world.input with
  | .absent => world
  | .lines remaining _ => { world with input := .lines remaining false }

/-- Add readings of the clock behind those that have not been made. -/
def addReadings (world : World) (readings : List Nat) : World :=
  { world with clock := { world.clock with readings := world.clock.readings ++ readings } }

def readClock (world : World) : Except Awaited Nat × World :=
  match world.clock.readings with
  | reading :: rest =>
    (.ok reading, { world with clock := { world.clock with readings := rest, latest := reading } })
  | [] => (if world.clock.live then .error .clock else .ok world.clock.latest, world)

def scramble (word : UInt64) : UInt64 :=
  let word := (word ^^^ (word >>> 30)) * 0xbf58476d1ce4e5b9
  let word := (word ^^^ (word >>> 27)) * 0x94d049bb133111eb
  word ^^^ (word >>> 31)

/-- A number from zero up to one: a multiple of `2^-53`. -/
def random (world : World) : Float × World :=
  let seed := world.seed + 0x9e3779b97f4a7c15
  let bits := scramble seed >>> 11
  (bits.toFloat / 9007199254740992, { world with seed })

end World

end MicroBasic
