import MicroBasic.Host.World
import MicroBasic.Overload.Table
import MicroBasic.Text.Basic
import MicroBasic.Types

/-!
# The state of a running program

Variables live in one flat scope. A call parks the scope of the caller and starts on a copy of it,
so that nothing a function writes reaches its caller, except through a place: a parameter passed by
reference names a slot of a parked scope, a field or an array element, and reads and writes go
there. Parked scopes are counted from the outermost, so a place stays valid while further calls come
and go.

What belongs to one call apart from its variables is its activation: the blocks to be run when it
ends, the values that its `WITH` blocks are about, the loops of its program and how deep it is. It
also keeps a journal of what became of the blocks to be run when it ends, which nothing in a run
depends on.

A statement ends with a signal that tells the block around it how to go on, or it breaks off: with
an error, or because the program halted.
-/

namespace MicroBasic

/-- Why an execution broke off. -/
inductive Break where
  | error (error : RuntimeError)
  | halt (reason : HaltReason)

/-- Whether a break ends the run whatever handlers there are. -/
def Break.isFatal : Break → Bool
  | error failure => failure.fault.isFatal
  | halt _ => false

/-- The error that tells of a break. -/
def Break.toError : Break → RuntimeError
  | error failure => failure
  | halt reason => .unplaced (.halted reason)

/-- How a statement ends. -/
inductive Signal where
  /-- The next statement follows. -/
  | done
  /-- The statement at a place of the same block follows. -/
  | jump (target : Nat)
  | halt (reason : HaltReason)
  | returned (value : Option Value)
  | exit (kind : ExitKind)
  | continued (kind : Option LoopKind)

/-- How the statements of a scope end. -/
abbrev Outcome := Except Break Signal

/-- Where a parameter passed by reference reads and writes. -/
inductive Place where
  /-- A variable of a parked scope. -/
  | slot (frame : Nat) (key : String)
  | field (record : RecordRef) (name : String)
  | element (array : ArrayRef) (index : Nat)
  deriving Repr, DecidableEq

/-- The variables of one call. A name with a place stands for that place. -/
structure Scope where
  vars : Table String Value
  places : Table String Place

def Scope.empty : Scope where
  vars := .empty
  places := .empty

def Scope.assign (scope : Scope) (key : String) (value : Value) : Scope :=
  { scope with vars := scope.vars.insert key value }

/-- A block that waits for the end of its call, with the loops of its program. -/
structure Deferred where
  body : Block
  loops : LoopsRef

/-- Something that happened to the waiting blocks of a call. -/
inductive DeferEvent where
  /-- A block was left to wait for the end of the call. -/
  | registered (block : Deferred)
  /-- A waiting block began to run. -/
  | begun (block : Deferred)
  /-- The block that began last came to its end. -/
  | ended (outcome : Outcome)

/-- What belongs to one call apart from its variables. -/
structure Activation where
  /-- The waiting blocks, latest first. -/
  deferred : List Deferred
  /-- What happened to the waiting blocks, latest first. -/
  journal : List DeferEvent
  /-- The values that the open `WITH` blocks are about, innermost first. -/
  targets : List Value
  loops : LoopsRef
  /-- The number of calls around this one. -/
  depth : Nat

/-- The activation of a program before it runs. -/
def Activation.initial : Activation where
  deferred := []
  journal := []
  targets := []
  loops := ⟨0⟩
  depth := 0

/-- Printed text. -/
structure Console where
  /-- The finished lines. -/
  lines : Array String
  /-- The beginning of a line that is not finished. -/
  pending : Option String
  /-- Whether finished lines are shown at once. -/
  echoes : Bool

/-- A console without any text. -/
def Console.empty : Console where
  lines := #[]
  pending := none
  echoes := false

/-- The state of a running program. -/
structure Machine where
  scope : Scope
  /-- The scopes of the calls around this one, outermost first. -/
  parked : List Scope
  activation : Activation
  functions : FunctionTable
  types : TypeTable
  properties : PropertyTable
  console : Console
  /-- The names of spawned routines. -/
  spawned : List String
  /-- The number of statements executed. -/
  steps : Nat
  /-- The declarations that were registered before the program started. -/
  hoisted : List Nat
  /-- The loop pairings of the programs that were begun, oldest first. -/
  pairings : List LoopBindings
  heap : Heap
  world : World

namespace Machine

def initial (world : World) : Machine where
  scope := .empty
  parked := []
  activation := .initial
  functions := .empty
  types := .empty
  properties := .empty
  console := .empty
  spawned := []
  steps := 0
  hoisted := []
  pairings := []
  heap := .empty
  world := world

/-- The pairing in force. -/
def bindings (machine : Machine) : LoopBindings :=
  machine.pairings[machine.activation.loops.index]?.getD .empty

/-- A machine with other open `WITH` blocks. -/
def withTargets (machine : Machine) (targets : List Value) : Machine :=
  { machine with activation := { machine.activation with targets } }

def readPlace (machine : Machine) : Place → Except Fault Value
  | .slot frame key =>
    match machine.parked[frame]?.bind (fun scope => scope.vars.get? key) with
    | some value => return value
    | none => throw (.unknownName key none)
  | .field record name =>
    match (machine.heap.record record).get? name with
    | some value => return value
    | none => throw (.lostField name)
  | .element array index =>
    let items := machine.heap.items array
    match items[index]? with
    | some value => return value
    | none => throw (.indexOutOfRange index.toFloat items.size)

def writePlace (machine : Machine) (place : Place) (value : Value) : Except Fault Machine :=
  match place with
  | .slot frame key =>
    if frame < machine.parked.length then
      return { machine with
        parked := machine.parked.modify frame (fun scope => scope.assign key value) }
    else throw (.unknownName key none)
  | .field record name =>
    return { machine with
      heap :=
        machine.heap.setRecord record ((machine.heap.record record).setReferenced name value) }
  | .element array index =>
    let length := (machine.heap.items array).size
    if index < length then
      return { machine with heap := machine.heap.setItem array index value }
    else throw (.indexOutOfRange index.toFloat length)

def readVariable (machine : Machine) (name : String) : Except Fault (Option Value) :=
  let key := Text.stripSuffix name
  match machine.scope.places.get? key with
  | some place => some <$> machine.readPlace place
  | none => return machine.scope.vars.get? key

def hasVariable (machine : Machine) (name : String) : Bool :=
  let key := Text.stripSuffix name
  machine.scope.places.contains key || machine.scope.vars.contains key

def setVariable (machine : Machine) (name : String) (value : Value) : Except Fault Machine :=
  let key := Text.stripSuffix name
  match machine.scope.places.get? key with
  | some place => machine.writePlace place value
  | none => return { machine with scope := machine.scope.assign key value }

/-- Give a name a value of its own in the current scope. -/
def bindLocal (machine : Machine) (name : String) (value : Value) : Machine :=
  let key := Text.stripSuffix name
  { machine with
    scope :=
      { vars := machine.scope.vars.insert key value, places := machine.scope.places.erase key } }

/-- Make a name stand for a place in the current scope. -/
def bindPlace (machine : Machine) (name : String) (place : Place) : Machine :=
  { machine with
    scope :=
      { machine.scope with places := machine.scope.places.insert (Text.stripSuffix name) place } }

/-- The place that a variable of the current scope will be at once this scope is parked. A name that
stands for a place gives that place. -/
def placeOf? (machine : Machine) (name : String) : Option Place :=
  let key := Text.stripSuffix name
  match machine.scope.places.get? key with
  | some place => some place
  | none =>
    if machine.scope.vars.contains key then some (.slot machine.parked.length key) else none

def variableNames (machine : Machine) : List String :=
  machine.scope.vars.keys ++ machine.scope.places.keys

/-- The variables of the outermost scope, in order of their names. -/
def globals (machine : Machine) : List (String × Value) :=
  let scope := machine.parked.headD machine.scope
  scope.vars.entries.mergeSort (fun a b => (Text.order a.1 b.1).isLE)

/-- The variables of the current scope with every place read. -/
def snapshot (machine : Machine) : Except Fault (Table String Value) :=
  machine.scope.places.entries.foldlM
    (fun vars entry => do return vars.insert entry.1 (← machine.readPlace entry.2))
    machine.scope.vars

/-- Park the current scope and go on with a copy of it. -/
def park (machine : Machine) : Except Fault Machine := do
  let vars ← machine.snapshot
  return { machine with
    scope := { vars, places := .empty }, parked := machine.parked ++ [machine.scope] }

/-- Go back to the scope that was parked last. -/
def unpark (machine : Machine) : Machine :=
  match machine.parked.getLast? with
  | some scope => { machine with scope, parked := machine.parked.dropLast }
  | none => machine

/-- Let a block wait for the end of the current call. -/
def defer (machine : Machine) (body : Block) : Machine :=
  let waiting : Deferred := { body, loops := machine.activation.loops }
  { machine with
    activation :=
      { machine.activation with
        deferred := waiting :: machine.activation.deferred
        journal := .registered waiting :: machine.activation.journal } }

/-- Add text to the line that is not finished. -/
def write (machine : Machine) (text : String) : Machine :=
  { machine with
    console := { machine.console with pending := some (machine.console.pending.getD "" ++ text) } }

def writeLine (machine : Machine) (text : String) : Machine :=
  let line := machine.console.pending.getD "" ++ text
  { machine with
    console := { machine.console with lines := machine.console.lines.push line, pending := none }
    world := if machine.console.echoes then machine.world.record (.line line) else machine.world }

/-- Finish the line that is not finished, if there is one. -/
def flush (machine : Machine) : Machine :=
  if machine.console.pending.isSome then machine.writeLine "" else machine

/-- Spawn a routine, unless it was spawned before. -/
def spawn (machine : Machine) (name : String) : Machine :=
  let key := Text.foldName name
  if machine.spawned.contains key then machine.writeLine s!"Routine {name} already running"
  else
    Machine.writeLine { machine with spawned := key :: machine.spawned } s!"Spawned routine {name}"

end Machine

end MicroBasic
