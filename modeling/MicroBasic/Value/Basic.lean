import MicroBasic.Overload.Basic

/-!
# Values

A value is a number, a text, or something with an identity of its own: an array, a record, a
function, an entry of the host. Arrays and records are shared and can change, so a value only refers
to them; the heap holds what they contain. Truth values are the numbers -1 and 0.
-/

namespace MicroBasic

/-- The identity of an array. -/
structure ArrayRef where
  index : Nat
  deriving Repr, DecidableEq

/-- The identity of a record. -/
structure RecordRef where
  index : Nat
  deriving Repr, DecidableEq

/-- An entry of the host: its identity and the name it is shown with. -/
structure HostRef where
  id : Nat
  name : String
  deriving Repr, DecidableEq

/-- A value of a running program. -/
inductive Value where
  | number (value : Float)
  | text (value : String)
  | array (ref : ArrayRef)
  | record (ref : RecordRef)
  /-- All declared functions with a name. -/
  | function (name : String)
  /-- A declared function with its first argument. -/
  | boundFunction (overload : Overload) (receiver : Value)
  | hostFunction (ref : HostRef)
  /-- A host function with its first argument. -/
  | boundHost (ref : HostRef) (receiver : Value)
  | hostGroup (ref : HostRef)

/-- The contents of a record: the name of its type and its fields in order. Where the record comes
from and how its fields were written makes no difference to a run. -/
structure Record where
  typeName : String
  fields : List (String × Value)
  /-- The declaration that the record was made by, if it was made as one of a declared type. -/
  declared : Option TypeDecl := none
  /-- The indices of the fields whose latest values were written through a reference. -/
  referenced : List Nat := []

/-- The type of records that were written without one. -/
def objectType : String := "Object"

def errorType : String := "Error"

namespace Record

/-- The first field with a name, as it is spelled in the record. Case does not matter. -/
def field? (record : Record) (name : String) : Option (String × Value) :=
  record.fields.find? (fun field => Text.sameName field.1 name)

def get? (record : Record) (name : String) : Option Value :=
  (record.field? name).map Prod.snd

def has (record : Record) (name : String) : Bool :=
  (record.field? name).isSome

def putField (name : String) (value : Value) : List (String × Value) → List (String × Value)
  | [] => []
  | field :: rest =>
    if Text.sameName field.1 name then (field.1, value) :: rest
    else field :: putField name value rest

def indexOf (record : Record) (name : String) : Nat :=
  record.fields.findIdx (fun field => Text.sameName field.1 name)

/-- Change a field. Without such a field nothing changes. -/
def set (record : Record) (name : String) (value : Value) : Record :=
  { record with
    fields := putField name value record.fields
    referenced := record.referenced.filter (· != record.indexOf name) }

/-- Change a field through a reference to it. -/
def setReferenced (record : Record) (name : String) (value : Value) : Record :=
  let changed := record.set name value
  { changed with referenced := record.indexOf name :: changed.referenced }

/-- Change a field, or add it at the end. -/
def insert (record : Record) (name : String) (value : Value) : Record :=
  if record.has name then record.set name value
  else { record with fields := record.fields ++ [(name, value)] }

/-- Whether the record was written without a type. -/
def isObject (record : Record) : Bool :=
  record.typeName == objectType

end Record

/-- What arrays and records contain. -/
structure Heap where
  arrays : Array (Array Value)
  records : Array Record

namespace Heap

/-- A heap without arrays and records. -/
def empty : Heap where
  arrays := #[]
  records := #[]

def items (heap : Heap) (ref : ArrayRef) : Array Value :=
  heap.arrays.getD ref.index #[]

def setItems (heap : Heap) (ref : ArrayRef) (items : Array Value) : Heap :=
  { heap with arrays := heap.arrays.setIfInBounds ref.index items }

def setItem (heap : Heap) (ref : ArrayRef) (index : Nat) (value : Value) : Heap :=
  { heap with
    arrays := heap.arrays.modify ref.index (fun items => items.setIfInBounds index value) }

def newArray (heap : Heap) (items : Array Value) : ArrayRef × Heap :=
  (⟨heap.arrays.size⟩, { heap with arrays := heap.arrays.push items })

def record (heap : Heap) (ref : RecordRef) : Record :=
  heap.records.getD ref.index { typeName := objectType, fields := [] }

def record? (heap : Heap) (ref : RecordRef) : Option Record :=
  heap.records[ref.index]?

def setRecord (heap : Heap) (ref : RecordRef) (record : Record) : Heap :=
  { heap with records := heap.records.setIfInBounds ref.index record }

def newRecord (heap : Heap) (record : Record) : RecordRef × Heap :=
  (⟨heap.records.size⟩, { heap with records := heap.records.push record })

end Heap

namespace Value

def ofBool (holds : Bool) : Value :=
  if holds then number (-1) else number 0

/-- Whether a value counts as true: every number but zero, and every text or array that is not
empty, and everything else. -/
def isTruthy (heap : Heap) : Value → Bool
  | number value => value != 0
  | text value => !value.isEmpty
  | array ref => !(heap.items ref).isEmpty
  | _ => true

def typeName (heap : Heap) : Value → String
  | number _ => "NUMBER"
  | text _ => "STRING"
  | array _ => "ARRAY"
  | record ref => (heap.record ref).typeName
  | hostGroup _ => "NAMESPACE"
  | _ => "FUNCTION"

/-- Whether a value can be called with any arguments. -/
def isCallable : Value → Bool
  | function _ => true
  | boundFunction _ _ => true
  | hostFunction _ => true
  | boundHost _ _ => true
  | _ => false

def isArray : Value → Bool
  | array _ => true
  | _ => false

def isRecord : Value → Bool
  | record _ => true
  | _ => false

def hasType (heap : Heap) (value : Value) : TypeSpec → Bool
  | .any => true
  | .number => match value with
    | number _ => true
    | _ => false
  | .bool => match value with
    | number _ => true
    | _ => false
  | .text => match value with
    | text _ => true
    | _ => false
  | .array => value.isArray
  | .function => value.isCallable
  | .named name => match value with
    | record ref => (heap.record? ref).any (fun record => Text.sameName record.typeName name)
    | _ => false

end Value

end MicroBasic
