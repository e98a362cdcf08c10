import MicroBasic.Decimal.Layout
import MicroBasic.Text.Basic

/-!
# JSON documents

A document is a tree of objects, arrays and leaves, and is written either on one line or indented.
The fields of an object keep their order. Whole numbers are kept apart from measured ones: the
former are written as they are, the latter with a point or an exponent, and as `null` where they are
not finite.
-/

namespace MicroBasic

/-- A JSON document. -/
inductive Json where
  | null
  | bool (value : Bool)
  | whole (value : Nat)
  | number (value : Float)
  | text (value : String)
  | array (items : List Json)
  | object (fields : List (String × Json))

namespace Json

def escapedChar (c : Char) : String :=
  match c with
  | '"' => "\\\""
  | '\\' => "\\\\"
  | '\n' => "\\n"
  | '\r' => "\\r"
  | '\t' => "\\t"
  | _ =>
    if c = '\x08' then "\\b"
    else if c = '\x0c' then "\\f"
    else if c.toNat < 16 then "\\u000" ++ Text.hexadecimal c.toNat
    else if c.toNat < 32 then "\\u00" ++ Text.hexadecimal c.toNat
    else String.singleton c

def quotedText (s : String) : String :=
  "\"" ++ String.join (s.toList.map escapedChar) ++ "\""

/-- A number, or `null` if it is not finite. -/
def numberText (value : Float) : String :=
  if value.isFinite then Decimal.tree.write value else "null"

mutual

def compact : Json → String
  | null => "null"
  | bool true => "true"
  | bool false => "false"
  | whole value => toString value
  | number value => numberText value
  | text value => quotedText value
  | array items => "[" ++ Text.join "," (compactItems items) ++ "]"
  | object fields => "\x7b" ++ Text.join "," (compactFields fields) ++ "\x7d"

/-- Every item of an array on one line. -/
def compactItems : List Json → List String
  | [] => []
  | item :: rest => item.compact :: compactItems rest

/-- Every field of an object on one line. -/
def compactFields : List (String × Json) → List String
  | [] => []
  | (name, value) :: rest => (quotedText name ++ ":" ++ value.compact) :: compactFields rest

end

def indent (depth : Nat) : String :=
  String.ofList ('\n' :: List.replicate (2 * depth) ' ')

/-- Parts between brackets, each on a line of its own one step deeper than the brackets. -/
def bracketed (left right : String) (depth : Nat) (parts : List String) : String :=
  if parts.isEmpty then left ++ right
  else
    left ++ Text.join "," (parts.map (fun part => indent (depth + 1) ++ part)) ++
      indent depth ++ right

mutual

/-- A document over several lines, at a depth of indentation. -/
def indentedAt (depth : Nat) : Json → String
  | array items => bracketed "[" "]" depth (indentedItems (depth + 1) items)
  | object fields => bracketed "\x7b" "\x7d" depth (indentedFields (depth + 1) fields)
  | null => "null"
  | bool true => "true"
  | bool false => "false"
  | whole value => toString value
  | number value => numberText value
  | text value => quotedText value

def indentedItems (depth : Nat) : List Json → List String
  | [] => []
  | item :: rest => item.indentedAt depth :: indentedItems depth rest

def indentedFields (depth : Nat) : List (String × Json) → List String
  | [] => []
  | (name, value) :: rest =>
    (quotedText name ++ ": " ++ value.indentedAt depth) :: indentedFields depth rest

end

/-- A document over several lines. -/
def indented (document : Json) : String :=
  document.indentedAt 0

/-- A document for a value that may be missing. -/
def ofOption {α : Type} (write : α → Json) : Option α → Json
  | some value => write value
  | none => null

def variant (name : String) (held : Json) : Json :=
  object [(name, held)]

end Json

end MicroBasic
