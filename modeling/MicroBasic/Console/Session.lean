import MicroBasic.Config.Basic
import MicroBasic.Host.Library
import MicroBasic.Interpreter
import MicroBasic.Parse.Program
import MicroBasic.Text.Basic

/-!
# Sessions

A session takes a program line by line. Lines are gathered until they are a program, which then
runs, or until no further line can make them one. What earlier programs left stays for later ones. A
line that is only an expression is printed.
-/

namespace MicroBasic

/-- What can go wrong with an entered program. -/
inductive Failure where
  | rejected (error : SyntaxError)
  | failed (error : RuntimeError)

def Failure.report : Failure → String
  | rejected error => error.report
  | failed error => error.report

/-- A session: an interpreter and the lines gathered so far. -/
structure Session where
  interpreter : Interpreter
  options : ScanOptions
  gathered : String

/-- What came of a line. -/
inductive Feed where
  /-- The lines gathered so far are the beginning of a program. -/
  | incomplete
  /-- They ran, or cannot be part of any program. -/
  | ran (output : List String) (failure : Option Failure)
  /-- They need something from outside; the line has to be entered again with it. -/
  | awaiting (what : Awaited)

/-- Whether further lines may mend a syntax error: it stands at the very end of the source, or a
loop still waits for its `NEXT`. -/
def SyntaxError.isMendable (source : String) : SyntaxError → Bool
  | scanning _ => false
  | parsing error =>
    match error.cause with
    | .forWithoutNext _ => true
    | _ => (Text.trimRight source).utf8ByteSize ≤ error.span.start

namespace Session

/-- A session that nothing has been entered into. -/
def new (config : Config) (world : World) : Session where
  interpreter := .new .standard config.settings world
  options := config.scanOptions
  gathered := ""

/-- Whether lines wait to become a program. -/
def isGathering (session : Session) : Bool :=
  !session.gathered.isEmpty

def sourceWith (session : Session) (line : String) : String :=
  if session.isGathering then session.gathered ++ "\n" ++ line else line

def run (fuel : Nat) (session : Session) (program : Program) : Feed × Session :=
  let (result, interpreter) := session.interpreter.runWithin fuel program
  let (output, interpreter) := interpreter.takeOutputs
  let session := { session with interpreter }
  match result with
  | .completed _ => (.ran output none, session)
  | .failed error => (.ran output (some (.failed error)), session)
  | .awaiting what => (.awaiting what, session)

/-- The variable whose name is all that a program holds. Otherwise such a program is a call without
arguments. -/
def loneVariable? (session : Session) (program : Program) : Option String :=
  match program.statements with
  | [stmt] =>
    match stmt.kind with
    | .call (.call _ (.name _ name) []) =>
      if session.interpreter.hasVariable name then some name else none
    | _ => none
  | _ => none

def printing (expression : String) : String :=
  "PRINT " ++ expression

def runEntered (fuel : Nat) (session : Session) (program : Program) : Feed × Session :=
  match session.loneVariable? program with
  | none => session.run fuel program
  | some name =>
    match Program.parseWith session.options (printing name) with
    | .ok printer => session.run fuel printer
    | .error error => (.ran [] (some (.rejected error)), session)

/-- Print a source that is no program but may be an expression on one line. -/
def runRejected (fuel : Nat) (session : Session) (source : String) (error : SyntaxError) :
    Feed × Session :=
  match Program.parseWith session.options (printing source) with
  | .ok printer =>
    if source.contains '\n' then (.ran [] (some (.rejected error)), session)
    else session.run fuel printer
  | .error _ => (.ran [] (some (.rejected error)), session)

/-- Enter a line, with a bound on the work. -/
def feedWithin (fuel : Nat) (session : Session) (line : String) : Feed × Session :=
  let source := session.sourceWith line
  let cleared := { session with gathered := "" }
  match Program.parseWith session.options source with
  | .ok program => cleared.runEntered fuel program
  | .error error =>
    if error.isMendable source then (.incomplete, { session with gathered := source })
    else cleared.runRejected fuel source error

def feed (session : Session) (line : String) : Feed × Session :=
  session.feedWithin Interpreter.ample line

/-- Forget the lines gathered so far. -/
def cancel (session : Session) : Session :=
  { session with gathered := "" }

/-- Forget the lines gathered so far and all that earlier programs left. -/
def reset (session : Session) : Session :=
  { session with gathered := "", interpreter := session.interpreter.reset }

def variableLines (session : Session) : List String :=
  session.interpreter.variableLines

end Session

end MicroBasic
