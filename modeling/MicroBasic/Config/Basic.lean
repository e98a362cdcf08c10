import MicroBasic.Config.Reader
import MicroBasic.Eval.Exec
import MicroBasic.Token.Scan

/-!
# Settings files

What a settings file can set, and how it is read from a TOML document. Every setting has a default,
settings that are not known are passed over, and a setting of the wrong kind makes the file
unusable.
-/

namespace MicroBasic

/-- All settings. -/
structure Config where
  maxSteps : Option Nat := none
  maxCallDepth : Nat := 256
  keepComments : Bool := false
  /-- What the interactive session shows before each line. -/
  prompt : String := "] "
  /-- The file in the home directory that keeps the lines of interactive sessions. -/
  historyFile : Option String := some ".retrobasic_history"
  deriving Repr, DecidableEq

namespace Config

/-- The settings file that is read if no other is given. -/
def defaultFile : String := "retrobasic.toml"

def count : Toml → Option Nat
  | .whole value => if 0 ≤ value then some value.toNat else none
  | _ => none

def text : Toml → Option String
  | .text value => some value
  | _ => none

def flag : Toml → Option Bool
  | .flag value => some value
  | _ => none

/-- A setting of a group by name, or its default. A group may also be a list of its settings in
order. -/
def setting {α : Type} (group : Option Toml) (place : Nat) (name : String) (read : Toml → Option α)
    (default : α) : Option α :=
  let found := match group with
    | some (.table _ fields) => fields.lookup name
    | some (.array items) => items[place]?
    | _ => none
  match found with
  | some value => read value
  | none => some default

/-- Whether a value can stand for a group of settings. A date stands for one without any. -/
def isGroup : Option Toml → Bool
  | none => true
  | some (.table _ _) => true
  | some (.array _) => true
  | some .moment => true
  | some _ => false

def ofDocument (fields : List (String × Toml)) : Option Config := do
  let limits := fields.lookup "limits"
  let scanner := fields.lookup "scanner"
  let repl := fields.lookup "repl"
  if isGroup limits && isGroup scanner && isGroup repl then
    let default : Config := {}
    return {
      maxSteps :=
        ← setting limits 0 "max_steps" (fun value => some <$> count value) default.maxSteps
      maxCallDepth := ← setting limits 1 "max_call_depth" count default.maxCallDepth
      keepComments := ← setting scanner 0 "keep_comments" flag default.keepComments
      prompt := ← setting repl 0 "prompt" text default.prompt
      historyFile :=
        ← setting repl 1 "history_file" (fun value => some <$> text value) default.historyFile }
  else none

/-- The settings in the text of a settings file. -/
def parse? (source : String) : Option Config := do
  ofDocument (← Toml.read? source)

def settings (config : Config) : Settings where
  maxSteps := config.maxSteps
  maxCallDepth := config.maxCallDepth

def scanOptions (config : Config) : ScanOptions where
  keepComments := config.keepComments

end Config

end MicroBasic
