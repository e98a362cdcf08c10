import MicroBasic.Config.Basic

/-!
# Command lines

A command line names what to do and with which file. Options may stand anywhere behind the command
they belong to, each at most once; the settings file may be named anywhere.
-/

namespace MicroBasic

/-- Limits given on the command line, which go before those of the settings file. -/
structure RunOptions where
  maxSteps : Option Nat := none
  maxCallDepth : Option Nat := none
  dumpVariables : Bool := false
  deriving Repr, DecidableEq

/-- What to do. -/
inductive Command where
  | run (file : String) (options : RunOptions)
  | parse (file : String)
  | tokens (file : String) (keepComments : Bool)
  | converse
  deriving Repr, DecidableEq

/-- The kinds of commands. -/
inductive CommandKind where
  | run
  | parse
  | tokens
  | converse
  deriving Repr, DecidableEq

/-- A whole command line. -/
structure Invocation where
  configFile : String
  command : Command
  deriving Repr, DecidableEq

namespace Command

/-- What has been read of a command line. -/
structure Draft where
  configFile : Option String := none
  kind : Option CommandKind := none
  file : Option String := none
  maxSteps : Option Nat := none
  maxCallDepth : Option Nat := none
  dumpVariables : Bool := false
  keepComments : Bool := false

/-- A count as it is given on a command line: up to 64 bits. -/
def count? (text : String) : Option Nat :=
  let digits := match text.toList with
    | '+' :: rest => rest
    | digits => digits
  if digits.isEmpty || !digits.all Char.isDigit then none
  else
    let value := Decimal.digitsValue digits
    if value < Nat.pow 2 64 then some value else none

/-- Something given for the first time. -/
def once {α : Type} (old : Option α) (new : Option α) : Option (Option α) :=
  match old, new with
  | none, some value => some (some value)
  | _, _ => none

def file? (text : String) : Option String :=
  if text.isEmpty then none else some text

def withValue (draft : Draft) (option value : String) : Option Draft :=
  match option, draft.kind with
  | "--config", _ => do return { draft with configFile := some (← file? value) }
  | "--max-steps", some .run => do
    return { draft with maxSteps := ← once draft.maxSteps (count? value) }
  | "--max-call-depth", some .run => do
    return { draft with maxCallDepth := ← once draft.maxCallDepth (count? value) }
  | _, _ => none

def withFlag (draft : Draft) (option : String) : Option Draft :=
  match option, draft.kind with
  | "--dump-vars", some .run =>
    if draft.dumpVariables then none else some { draft with dumpVariables := true }
  | "--keep-comments", some .tokens =>
    if draft.keepComments then none else some { draft with keepComments := true }
  | _, _ => none

def kind? : String → Option CommandKind
  | "run" => some .run
  | "parse" => some .parse
  | "tokens" => some .tokens
  | "repl" => some .converse
  | _ => none

/-- Take a word that is no option: the command first, then its file. -/
def withWord (draft : Draft) (word : String) : Option Draft :=
  match draft.kind with
  | none => do return { draft with kind := some (← kind? word) }
  | some .converse => none
  | some _ => do return { draft with file := ← once draft.file (file? word) }

def takesValue (option : String) : Bool :=
  option = "--config" || option = "--max-steps" || option = "--max-call-depth"

/-- Whether a word of a command line is an option. A lone dash is not. -/
def isOption (word : String) : Bool :=
  word ≠ "-" && word.toList.head? = some '-'

def splitValue? (word : String) : Option (String × String) :=
  let cs := word.toList
  let option := cs.takeWhile (fun c => c ≠ '=')
  match cs.drop option.length with
  | _ :: value => some (String.ofList option, String.ofList value)
  | [] => none

def readWords : Draft → List String → Option Draft
  | draft, [] => some draft
  | draft, word :: rest =>
    if isOption word then
      match splitValue? word with
      | some (option, value) => do readWords (← withValue draft option value) rest
      | none =>
        if takesValue word then
          match rest with
          | value :: rest => do
            if isOption value then none else readWords (← withValue draft word value) rest
          | [] => none
        else do readWords (← withFlag draft word) rest
    else do readWords (← withWord draft word) rest

def ofDraft (draft : Draft) : Option Command := do
  match ← draft.kind with
  | .run =>
    return .run (← draft.file)
      { maxSteps := draft.maxSteps
        maxCallDepth := draft.maxCallDepth
        dumpVariables := draft.dumpVariables }
  | .parse => return .parse (← draft.file)
  | .tokens => return .tokens (← draft.file) draft.keepComments
  | .converse => return .converse

end Command

/-- The meaning of the words of a command line, if they have one. -/
def Invocation.ofWords? (words : List String) : Option Invocation := do
  let draft ← Command.readWords {} words
  return {
    configFile := draft.configFile.getD Config.defaultFile
    command := ← Command.ofDraft draft }

/-- The files that a command line names. -/
def Invocation.files (invocation : Invocation) : List String :=
  invocation.configFile :: match invocation.command with
    | .run file _ => [file]
    | .parse file => [file]
    | .tokens file _ => [file]
    | .converse => []

/-- How the words of a command line are put together. -/
def Invocation.usage : String :=
  "Usage: retrobasic [--config FILE] COMMAND\n\n" ++
  "Commands:\n" ++
  "  run FILE [--max-steps N] [--max-call-depth N] [--dump-vars]   Run a program\n" ++
  "  parse FILE                       Parse and dump AST as JSON (debug)\n" ++
  "  tokens FILE [--keep-comments]    Tokenize and dump tokens (debug)\n" ++
  "  repl                             Start an interactive session"

/-- Settings with the limits of a command line. -/
def Config.override (config : Config) (options : RunOptions) : Config :=
  { config with
    maxSteps := options.maxSteps <|> config.maxSteps
    maxCallDepth := options.maxCallDepth.getD config.maxCallDepth }

end MicroBasic
