import MicroBasic.Ast.Listing
import MicroBasic.Console.Command
import MicroBasic.Console.Conversation
import MicroBasic.Token.Listing

/-!
# Console jobs

What the commands do. A listing is shown at once. A program runs in one turn and shows its lines
while it runs. A conversation takes a turn for each line. The files of a job are read by the
function that is given, so a job depends on nothing else outside but its world.
-/

namespace MicroBasic

/-- What there is under the name of a file. -/
inductive FileState where
  | missing
  | unreadable
  | contents (text : String)

/-- Work on the console. -/
inductive Job where
  /-- Show something, with the success that this means. -/
  | listing (pieces : List Piece) (succeeded : Bool)
  | running (program : Program) (interpreter : Interpreter) (dumpVariables : Bool)
  | conversing (partner : Conversation) (begun : Bool)

def Job.status (succeeded : Bool) : Nat :=
  if succeeded then 0 else 1

/-- The exit status for a command line without a meaning. -/
def Invocation.misuseStatus : Nat := 2

namespace Job

def failing (message : String) : Job :=
  .listing [.message message] false

def withSource (files : String → FileState) (file : String) (job : String → Job) : Job :=
  match files file with
  | .contents source => job source
  | _ => failing ("Error: cannot read " ++ file)

def ofSource (config : Config) (options : RunOptions) (world : World) (source : String) : Job :=
  let config := config.override options
  match Program.parseWith config.scanOptions source with
  | .error error => failing error.report
  | .ok program =>
    .running program (.new .standard { config.settings with streams := true } world)
      options.dumpVariables

def listTree (source : String) : Job :=
  match Program.parse source with
  | .error error => failing error.report
  | .ok program => .listing [.line program.listing.indented] true

def listTokens (keepComments : Bool) (source : String) : Job :=
  match scan { keepComments } source with
  | .error error => failing (SyntaxError.scanning error).report
  | .ok tokens => .listing (tokens.map (fun token => .line token.listing)) true

def ofCommand (files : String → FileState) (config : Config) (world : World) : Command → Job
  | .run file options => withSource files file (ofSource config options world)
  | .parse file => withSource files file listTree
  | .tokens file keepComments => withSource files file (listTokens keepComments)
  | .converse => .conversing (.new config world) false

/-- The settings under the name of a settings file, which may be missing. -/
def configOf? (files : String → FileState) (file : String) : Option Config :=
  match files file with
  | .missing => some {}
  | .unreadable => none
  | .contents text => Config.parse? text

def ofInvocation (files : String → FileState) (world : World) (invocation : Invocation) : Job :=
  match configOf? files invocation.configFile with
  | some config => ofCommand files config world invocation.command
  | none => failing ("Config error: " ++ invocation.configFile)

/-- What a run showed, and at its end the variables and its error. -/
def turnOfRun (dumpVariables : Bool) (result : RunResult) (interpreter : Interpreter) : Turn Job :=
  let shown := interpreter.world.shown.toList.map Piece.ofEvent
  let dumped := if dumpVariables then interpreter.variableLines.map .line else []
  match result with
  | .completed _ => { pieces := shown ++ dumped, onward := .done true }
  | .failed error =>
    { pieces := shown ++ dumped ++ [.message error.report], onward := .done false }
  | .awaiting what => { pieces := shown, onward := .awaiting what }

/-- Take a turn, with a bound on the work. -/
def turn (fuel : Nat) : Job → Turn Job
  | listing pieces succeeded => { pieces, onward := .done succeeded }
  | running program interpreter dumpVariables =>
    let (result, interpreter) := interpreter.runWithin fuel program
    turnOfRun dumpVariables result interpreter
  | conversing partner false =>
    { pieces := Conversation.banner, onward := .more (.conversing partner true) }
  | conversing partner true => (partner.turn fuel).map (fun partner => .conversing partner true)

def mapWorld (change : World → World) : Job → Job
  | listing pieces succeeded => .listing pieces succeeded
  | running program interpreter dumpVariables =>
    .running program (interpreter.withWorld (change interpreter.world)) dumpVariables
  | conversing partner begun => .conversing (partner.withWorld (change partner.world)) begun

/-- The prompt for the next line, where someone enters lines by hand. -/
def prompt : Job → Option String
  | conversing partner true =>
    if partner.world.linesAhead.isEmpty then some partner.prompt else none
  | _ => none

/-- All turns of a job in a closed world, up to a number: what they show, and whether the job
succeeded. A job that needs something from outside has no success. -/
def complete : Nat → Job → List Piece × Option Bool
  | 0, _ => ([], none)
  | turns + 1, job =>
    let turn := job.turn Interpreter.ample
    match turn.onward with
    | .done succeeded => (turn.pieces, some succeeded)
    | .more job =>
      let (pieces, succeeded) := complete turns job
      (turn.pieces ++ pieces, succeeded)
    | .awaiting _ => (turn.pieces, none)

/-- What a command line shows in a closed world with some lines of input, and its exit status. -/
def perform (files : String → FileState) (lines : List String) (words : List String) :
    List Piece × Option Nat :=
  match Invocation.ofWords? words with
  | none => ([], some Invocation.misuseStatus)
  | some invocation =>
    let world := { World.still with input := .lines lines false }
    let (pieces, succeeded) := complete (lines.length + 2) (ofInvocation files world invocation)
    (pieces, succeeded.map status)

end Job

/-- The lines of input in a text. A line ends with a line break, and carriage returns before it do
not count. -/
def inputLines (text : String) : List String :=
  let pieces := text.splitOn "\n"
  let pieces := if pieces.getLast? = some "" then pieces.dropLast else pieces
  pieces.map (fun piece => String.ofList
    (piece.toList.reverse.dropWhile (fun c => c = '\r')).reverse)

end MicroBasic
