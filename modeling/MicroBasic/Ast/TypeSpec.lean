import MicroBasic.Text.Basic

/-!
# Declared types

The type that a declaration gives to a parameter, a field or a result: one of the built-in types, or
a record type by name. A name without a declaration may still fix a type by its last character.
-/

namespace MicroBasic

/-- A declared type. -/
inductive TypeSpec where
  | number
  | text
  | bool
  | array
  | function
  | any
  | named (name : String)
  deriving Repr, DecidableEq

namespace TypeSpec

/-- The type with a given name. A name that is not built in is a record type, spelled as written. -/
def ofName (name : String) : TypeSpec :=
  let folded := Text.foldName name
  if folded ∈ ["NUMBER", "INTEGER", "LONG", "SINGLE", "DOUBLE"] then number
  else if folded = "STRING" then text
  else if folded ∈ ["BOOL", "BOOLEAN"] then bool
  else if folded = "ARRAY" then array
  else if folded = "FUNCTION" then function
  else if folded = "ANY" then any
  else named name

/-- The type that the last character of a name fixes. -/
def ofSuffix (name : String) : TypeSpec :=
  match name.toList.getLast? with
  | some '$' => text
  | some '%' => number
  | some '!' => number
  | some '&' => number
  | some '#' => number
  | _ => any

def title : TypeSpec → String
  | number => "NUMBER"
  | text => "STRING"
  | bool => "BOOL"
  | array => "ARRAY"
  | function => "FUNCTION"
  | any => "ANY"
  | named name => name

end TypeSpec

end MicroBasic
