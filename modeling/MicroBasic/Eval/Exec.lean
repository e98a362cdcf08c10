import MicroBasic.Host.Basic
import MicroBasic.Machine.Basic

/-!
# Execution

An execution changes the machine and gives a value, or it breaks off: with an error, or because the
program halted. It may also need something from outside that is not there yet; then nothing more
happens, no handler and no deferred block runs, and the whole run is unfinished. So it is when an
observer stops the run.
-/

namespace MicroBasic

/-- Limits of a run, and whether its lines are shown at once. -/
structure Settings where
  maxSteps : Option Nat := none
  maxCallDepth : Nat := 256
  streams : Bool := false
  deriving Repr, DecidableEq

/-- Why an execution has no result. -/
inductive Escape where
  | broken (cause : Break)
  | awaiting (what : Awaited)
  /-- An observer did not let the run go on. -/
  | stopped

abbrev Exec := EStateM Escape Machine

namespace Exec

/-- Fail at a place that is not known yet. -/
def fail {α : Type} (fault : Fault) : Exec α :=
  throw (.broken (.error (.unplaced fault)))

/-- The result of something that may fail. -/
def ofExcept {α : Type} : Except Fault α → Exec α
  | .ok value => return value
  | .error fault => fail fault

def ask {α : Type} (read : Machine → Except Fault α) : Exec α := do
  ofExcept (read (← get))

/-- Change the machine in a way that may fail. -/
def change (step : Machine → Except Fault Machine) : Exec Unit := do
  set (← ask step)

/-- Work that makes arrays and records. -/
def making {α : Type} (work : Making α) : Exec α := fun machine =>
  match work machine.heap with
  | .ok value heap => .ok value { machine with heap }
  | .error fault heap => .error (.broken (.error (.unplaced fault))) { machine with heap }

def hosting {α : Type} (function : HostRef) (work : HostAction α) : Exec α := fun machine =>
  match work { heap := machine.heap, world := machine.world } with
  | .ok value state => .ok value { machine with heap := state.heap, world := state.world }
  | .error (.fault cause) state =>
    .error (.broken (.error (.unplaced (.host function.name cause))))
      { machine with heap := state.heap, world := state.world }
  | .error (.awaiting what) state =>
    .error (.awaiting what) { machine with heap := state.heap, world := state.world }

/-- Give errors of some work the place of a token, unless they have one. -/
def placed {α : Type} (token : Token) (work : Exec α) : Exec α := fun machine =>
  match work machine with
  | .error (.broken (.error error)) machine =>
    .error (.broken (.error (error.placedAt token))) machine
  | result => result

/-- Do some work and go on even if it breaks off. -/
def attempt {α : Type} (work : Exec α) : Exec (Except Break α) := fun machine =>
  match work machine with
  | .ok value machine => .ok (.ok value) machine
  | .error (.broken cause) machine => .ok (.error cause) machine
  | .error (.awaiting what) machine => .error (.awaiting what) machine
  | .error .stopped machine => .error .stopped machine

/-- Do some work and tell whether the program halted in it. -/
def halting {α : Type} (work : Exec α) : Exec (Except HaltReason α) := fun machine =>
  match work machine with
  | .ok value machine => .ok (.ok value) machine
  | .error (.broken (.halt reason)) machine => .ok (.error reason) machine
  | .error escape machine => .error escape machine

/-- Go on with the outcome of earlier work. -/
def resume {α : Type} : Except Break α → Exec α
  | .ok value => return value
  | .error cause => throw (.broken cause)

/-- Need something from outside. -/
def await {α : Type} (what : Awaited) : Exec α :=
  throw (.awaiting what)

def heap : Exec Heap :=
  return (← get).heap

def newRecord (record : Record) : Exec Value :=
  making (Making.newRecord record)

def newArray (items : List Value) : Exec Value :=
  making (Making.newArray items.toArray)

def takeLine (prompt : String) : Exec String := fun machine =>
  let (answer, world) := machine.world.takeLine prompt
  let machine := { machine with world }
  match answer with
  | .ok (some line) => .ok line machine
  | .ok none => fail .noInput machine
  | .error what => await what machine

/-- The check that a value has the type declared for something. -/
def checkType (value : Value) (type : TypeSpec) (what : String) : Exec Unit :=
  ask (fun machine => value.checkType machine.heap type what)

end Exec

end MicroBasic
