import MicroBasic.Console.Session
import MicroBasic.Console.Turn

/-!
# Conversations

A conversation reads lines of input one after another. A line that begins with a colon is a command
to the conversation itself, unless the session is gathering lines; blank lines are passed over then,
too. All other lines are entered into the session. The conversation ends with its input or by a
command.
-/

namespace MicroBasic

/-- An interactive session with someone who enters lines. -/
structure Conversation where
  session : Session
  /-- What is shown before each line that begins a program. -/
  freshPrompt : String

namespace Conversation

/-- A conversation that has not begun. -/
def new (config : Config) (world : World) : Conversation where
  session := .new config world
  freshPrompt := config.prompt

/-- What is shown at the beginning. -/
def banner : List Piece :=
  [.line "retrobasic 0.1.0", .line "Type :help for help, :quit to exit.", .line ""]

def help : List Piece :=
  [.line "Commands:",
    .line "  :help, :h, :?   Show this help",
    .line "  :quit, :q       Exit",
    .line "  :vars           List global variables",
    .line "  :reset          Forget variables, functions and types",
    .line "",
    .line "Statements run as they are entered. Blocks (FOR, SUB, TRY, ...)",
    .line "continue on the next line until closed. A bare expression is printed."]

/-- What is shown before a line where someone enters lines by hand. -/
def prompt (conversation : Conversation) : String :=
  if conversation.session.isGathering then "... " else conversation.freshPrompt

def world (conversation : Conversation) : World :=
  conversation.session.interpreter.world

def withWorld (conversation : Conversation) (world : World) : Conversation :=
  let session := conversation.session
  { conversation with
    session := { session with interpreter := session.interpreter.withWorld world } }

/-- A turn that shows some pieces and leaves the conversation as it is. -/
def saying (conversation : Conversation) (pieces : List Piece) : Turn Conversation where
  pieces := pieces
  onward := .more conversation

def command (conversation : Conversation) (name : String) : Turn Conversation :=
  if name = ":quit" || name = ":q" || name = ":exit" then { pieces := [], onward := .done true }
  else if name = ":help" || name = ":h" || name = ":?" then conversation.saying help
  else if name = ":vars" then conversation.saying (conversation.session.variableLines.map .line)
  else if name = ":reset" then
    { conversation with session := conversation.session.reset }.saying [.line "State cleared."]
  else conversation.saying [.line ("Unknown command: " ++ name), .line "Type :help for help."]

/-- Enter a line into the session. Prompts of the program are shown while it runs, its output and
its error afterwards. -/
def enter (fuel : Nat) (conversation : Conversation) (line : String) : Turn Conversation :=
  let (result, session) := conversation.session.feedWithin fuel line
  let prompts := session.interpreter.world.shown.toList.map Piece.ofEvent
  let conversation := { conversation with session }
  match result with
  | .incomplete => conversation.saying prompts
  | .ran output failure =>
    conversation.saying (prompts ++ output.map .line ++
      failure.toList.map (fun failure => .message failure.report))
  | .awaiting what => { pieces := prompts, onward := .awaiting what }

/-- Take up a line of input. -/
def hear (fuel : Nat) (conversation : Conversation) (line : String) : Turn Conversation :=
  if conversation.session.isGathering then conversation.enter fuel line
  else
    match Text.trimChars line.toList with
    | [] => conversation.saying []
    | ':' :: rest => conversation.command (String.ofList (':' :: rest))
    | _ => conversation.enter fuel line

/-- Read the next line of input and take it up. -/
def turn (fuel : Nat) (conversation : Conversation) : Turn Conversation :=
  match conversation.world.input with
  | .absent => { pieces := [], onward := .done true }
  | .lines [] live => { pieces := [], onward := if live then .awaiting .line else .done true }
  | .lines (line :: rest) live =>
    (conversation.withWorld
      { conversation.world with input := .lines rest live, shown := #[] }).hear fuel line

end Conversation

end MicroBasic
