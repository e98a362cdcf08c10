import MicroBasic.Table

/-!
# TOML documents

A document is a table of named values. A table comes about in one of several ways, and that decides
what may still be added to it: a table with a header of its own is complete once its section ends, a
table that only a longer header or a dotted key mentions can get further entries the same way, and a
table written inline is complete at once. No key is given twice.
-/

namespace MicroBasic

/-- How a table came about. -/
inductive TableForm where
  /-- It has a header of its own. -/
  | header
  /-- The header of an inner table mentions it. -/
  | implied
  /-- A dotted key mentions it. -/
  | dotted
  /-- It was written between braces. -/
  | inline
  deriving Repr, DecidableEq

/-- A value of a document. -/
inductive Toml where
  | text (value : String)
  | whole (value : Int)
  | real (value : Float)
  | flag (value : Bool)
  /-- A date, a time or both. -/
  | moment
  | array (items : List Toml)
  | table (form : TableForm) (fields : List (String × Toml))
  /-- Tables with the same header between double brackets. -/
  | tables (items : List (List (String × Toml)))

namespace Toml

/-- Do something with the table at a path, below a table that came about in the form `here`. Missing
tables on the way come about in the given form, and tables that are complete are not entered. -/
def within (form : TableForm)
    (act : TableForm → List (String × Toml) → Option (List (String × Toml))) :
    TableForm → List String → List (String × Toml) → Option (List (String × Toml))
  | here, [], fields => act here fields
  | _, key :: path, fields =>
    match fields.lookup key with
    | none => do
      let inner ← within form act form path []
      return Table.put key (.table form inner) fields
    | some (.table found inner) =>
      if found = .inline || (form = .dotted && found = .header) then none
      else do
        let inner ← within form act found path inner
        return Table.put key (.table found inner) fields
    | some (.tables items) =>
      match items.getLast? with
      | none => none
      | some inner => do
        let inner ← within form act .header path inner
        return Table.put key (.tables (items.dropLast ++ [inner])) fields
    | some _ => none

/-- Add an entry to a table, unless its key is taken. A dotted key adds to dotted tables only. -/
def addEntry (path : List String) (key : String) (value : Toml) :
    TableForm → List (String × Toml) → Option (List (String × Toml)) :=
  fun here fields => within .dotted
    (fun form fields =>
      if path.isEmpty == decide (form = .dotted) then none
      else if (fields.lookup key).isSome then none
      else some (Table.put key value fields))
    here path fields

/-- Begin a table with a header of its own. -/
def openTable (path : List String) (key : String) (fields : List (String × Toml)) :
    Option (List (String × Toml)) :=
  within .implied
    (fun _ fields =>
      match fields.lookup key with
      | none => some (Table.put key (.table .header []) fields)
      | some (.table .implied inner) => some (Table.put key (.table .header inner) fields)
      | some _ => none)
    .header path fields

/-- Begin one more of the tables with the same header. -/
def openItem (path : List String) (key : String) (fields : List (String × Toml)) :
    Option (List (String × Toml)) :=
  within .implied
    (fun _ fields =>
      match fields.lookup key with
      | none => some (Table.put key (.tables [[]]) fields)
      | some (.tables items) => some (Table.put key (.tables (items ++ [[]])) fields)
      | some _ => none)
    .header path fields

end Toml

end MicroBasic
