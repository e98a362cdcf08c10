import MicroBasic.Json.Basic
import MicroBasic.Table
import MicroBasic.Value.Show

/-!
# Values as JSON

The document of a value. A record becomes an object with its type in a field of its own; of several
fields with the same name the last one counts. Functions and host entries become their texts, and
what is nested too deep becomes `null`.
-/

namespace MicroBasic.Value

/-- The document of a value, with some levels of nesting left to show. -/
def jsonWithin (heap : Heap) : Nat → Value → Json
  | 0, _ => .null
  | levels + 1, value =>
    match value with
    | number n => if n.isFinite then .number n else .null
    | text s => .text s
    | array ref => .array ((heap.items ref).toList.map (jsonWithin heap levels))
    | record ref =>
      let record := heap.record ref
      let start : Table String Json :=
        if record.isObject then .empty else Table.empty.insert "$type" (.text record.typeName)
      let fields := record.fields.foldl
        (fun fields field => fields.insert field.1 (jsonWithin heap levels field.2)) start
      .object fields.entries
    | _ => .text (value.display heap)

def toJson (heap : Heap) (value : Value) : Json :=
  jsonWithin heap shownLevels value

end MicroBasic.Value
