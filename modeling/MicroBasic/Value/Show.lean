import MicroBasic.Decimal.Layout
import MicroBasic.Text.Basic
import MicroBasic.Value.Basic

/-!
# Values as text

What printing and joining show of a value. A text shows itself, but stands between quotes inside an
array or a record. Arrays and records may contain themselves, so nesting is shown to a fixed depth.
-/

namespace MicroBasic.Value

/-- How many levels of nesting are shown. -/
def shownLevels : Nat := 17

def enclosed (left right : String) (parts : List String) : String :=
  left ++ Text.join ", " parts ++ right

/-- A value inside another, with some levels of nesting left to show. -/
def inner (heap : Heap) : Nat → Value → String
  | 0, _ => "..."
  | levels + 1, value =>
    match value with
    | number n => Decimal.numberText n
    | text s => Text.quoted s
    | array ref => enclosed "[" "]" ((heap.items ref).toList.map (inner heap levels))
    | record ref =>
      let record := heap.record ref
      let fields := record.fields.map (fun field => field.1 ++ ": " ++ inner heap levels field.2)
      (if record.isObject then "" else record.typeName) ++ enclosed "\x7b" "\x7d" fields
    | function name => s!"<FUNCTION {name}>"
    | boundFunction overload _ => s!"<FUNCTION {overload.name}>"
    | hostFunction ref => s!"<FUNCTION {ref.name}>"
    | boundHost ref _ => s!"<FUNCTION {ref.name}>"
    | hostGroup ref => s!"<NAMESPACE {ref.name}>"

def display (heap : Heap) (value : Value) : String :=
  match value with
  | text s => s
  | _ => inner heap shownLevels value

def inspect (heap : Heap) (value : Value) : String :=
  match value with
  | text s => "Str(" ++ Text.quoted s ++ ")"
  | number n => "Number(" ++ Decimal.plain.write n ++ ")"
  | _ => value.typeName heap ++ "(" ++ inner heap shownLevels value ++ ")"

end MicroBasic.Value
