import MicroBasic.Eval.Block

/-!
# The interpreter

An interpreter runs one program after another on the same machine, so later programs see the
variables, functions and types of earlier ones. The declarations at the top level of a program are
registered before its first statement runs.
-/

namespace MicroBasic

/-- An interpreter: a host, limits, and the machine. -/
structure Interpreter where
  host : Host
  settings : Settings
  machine : Machine

/-- What a run that came to its end leaves. -/
structure Completion where
  /-- The lines printed by the run. -/
  outputs : List String
  /-- The global variables, by name. -/
  globals : List (String × Value)
  halt : Option HaltReason

/-- The result of a run. -/
inductive RunResult where
  | completed (completion : Completion)
  | failed (error : RuntimeError)
  /-- The run needs something from outside and has to be started again with it. -/
  | awaiting (what : Awaited)

namespace Run

/-- What a statement registers in the round for types or in the one for functions and properties. -/
def registration? (types : Bool) (stmt : Stmt) : Option (Exec Unit) :=
  match stmt.kind with
  | .type decl => if types then some (Evaluator.defineType decl) else none
  | .function decl => if types then none else some (Evaluator.defineFunction decl stmt.id)
  | .property decl => if types then none else some (Evaluator.defineProperty decl stmt.id)
  | _ => none

/-- Register what some statements declare in one of the two rounds. -/
def register (types : Bool) : List Stmt → Exec Unit
  | [] => return
  | stmt :: rest =>
    match registration? types stmt with
    | some define => do
      Exec.placed stmt.token define
      modify (fun machine => { machine with hoisted := stmt.id :: machine.hoisted })
      register types rest
    | none => register types rest

/-- Register the declarations among some statements: types first. -/
def hoist (statements : Block) : Exec Unit := do
  register true statements
  register false statements

/-- How a program ends whose statements end with a signal. -/
def haltOf : Signal → Except Fault (Option HaltReason)
  | .halt reason => return some reason
  | .exit (.loop kind) => throw (.strayControl (.exitOutsideLoop kind))
  | .continued _ => throw (.strayControl .continueOutsideLoop)
  | _ => return none

/-- Run the statements of a program and the blocks they deferred. -/
def statements (self : Evaluator) (block : Block) : Exec Outcome := do
  let outcome ← Exec.attempt (do
    hoist block
    self.exec block)
  self.finishScope outcome

def begin (settings : Settings) (program : Program) (machine : Machine) : Machine :=
  let loops : ProgramLoops :=
    { serial := machine.pairings.length, bindings := program.bindings }
  { machine with
    activation := { machine.activation with journal := [], loops, depth := 0 }
    pairings := machine.pairings ++ [loops.bindings]
    console := { machine.console with echoes := settings.streams }
    steps := 0
    hoisted := [] }

def finish (machine : Machine) : Machine :=
  let machine := machine.flush
  { machine with activation := { machine.activation with targets := [] } }

/-- The result of a program that ended with an outcome, where `before` lines had been printed before
it began. -/
def resultOf (before : Nat) (machine : Machine) : Outcome → RunResult
  | .error cause => .failed cause.toError
  | .ok signal =>
    match haltOf signal with
    | .ok halt => completed halt
    | .error fault => .failed (.unplaced fault)
where
  completed (halt : Option HaltReason) : RunResult :=
    .completed {
      outputs := machine.console.lines.toList.drop before
      globals := machine.globals
      halt }

end Run

namespace Interpreter

/-- An interpreter that has not run anything. -/
def new (host : Host) (settings : Settings) (world : World) : Interpreter where
  host := host
  settings := settings
  machine := .initial world

def runWithin (fuel : Nat) (interpreter : Interpreter) (program : Program) :
    RunResult × Interpreter :=
  let before := interpreter.machine.console.lines.size
  let self := evaluator interpreter.settings interpreter.host fuel
  match Run.statements self program.statements
      (Run.begin interpreter.settings program interpreter.machine) with
  | .ok outcome machine =>
    let machine := Run.finish machine
    (Run.resultOf before machine outcome, { interpreter with machine })
  | .error (.broken cause) machine =>
    let machine := Run.finish machine
    (Run.resultOf before machine (.error cause), { interpreter with machine })
  | .error (.awaiting what) machine => (.awaiting what, { interpreter with machine })
  -- Nobody observes the run who could stop it.
  | .error .stopped machine => (.awaiting .fuel, { interpreter with machine })

/-- A bound on the work that no run reaches. -/
def ample : Nat := Nat.pow 2 60

def run (interpreter : Interpreter) (program : Program) : RunResult × Interpreter :=
  interpreter.runWithin ample program

/-- The lines printed since they were last taken. -/
def outputs (interpreter : Interpreter) : List String :=
  interpreter.machine.console.lines.toList

/-- Take the printed lines away. -/
def takeOutputs (interpreter : Interpreter) : List String × Interpreter :=
  let machine := interpreter.machine
  (interpreter.outputs,
    { interpreter with
      machine := { machine with console := { machine.console with lines := #[] } } })

def globals (interpreter : Interpreter) : List (String × Value) :=
  interpreter.machine.globals

def hasVariable (interpreter : Interpreter) (name : String) : Bool :=
  interpreter.machine.hasVariable name

/-- Forget all variables, functions, types, properties and printed lines, and with them all arrays
and records. -/
def reset (interpreter : Interpreter) : Interpreter :=
  { interpreter with machine := .initial interpreter.machine.world }

def world (interpreter : Interpreter) : World :=
  interpreter.machine.world

def withWorld (interpreter : Interpreter) (world : World) : Interpreter :=
  { interpreter with machine := { interpreter.machine with world } }

/-- Change where lines of input come from. -/
def withInput (interpreter : Interpreter) (input : Input) : Interpreter :=
  interpreter.withWorld { interpreter.world with input }

/-- A line with the value of each global variable. -/
def variableLines (interpreter : Interpreter) : List String :=
  interpreter.globals.map (fun (name, value) =>
    name ++ " = " ++ value.display interpreter.machine.heap)

def withSettings (interpreter : Interpreter) (settings : Settings) : Interpreter :=
  { interpreter with settings }

/-- The prompts shown so far. -/
def prompts (interpreter : Interpreter) : List String :=
  interpreter.world.shown.toList.filterMap (fun event =>
    match event with
    | .prompt text => some text
    | .line _ => none)

end Interpreter

end MicroBasic
