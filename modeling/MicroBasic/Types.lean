import MicroBasic.Fault
import MicroBasic.Table
import MicroBasic.Value.Basic

/-!
# Record types

The declared record types by name, the values that things of a type begin with, and the check that a
value has a declared type. A record type may have fields of record types; a type that contains
itself has no initial value, which shows in a bound on the depth of nesting.
-/

namespace MicroBasic

namespace TypeDecl

def field? (decl : TypeDecl) (name : String) : Option FieldDecl :=
  decl.fields.find? (fun field => Text.sameName field.name name)

def fieldType? (decl : TypeDecl) (name : String) : Option TypeSpec :=
  (decl.field? name).map FieldDecl.type

def spreadOrder (decl : TypeDecl) : List String :=
  decl.spread.getD (decl.fields.map FieldDecl.name)

def record (decl : TypeDecl) (fields : List (String × Value)) : Record :=
  { typeName := decl.name, fields, declared := some decl }

end TypeDecl

/-- The declared record types. -/
structure TypeTable where
  byName : Table String TypeDecl
  /-- Every type is held under its own name. -/
  named : ∀ {key decl}, (key, decl) ∈ byName.entries → key = Text.foldName decl.name

/-- Work that makes arrays and records and may fail. -/
abbrev Making := EStateM Fault Heap

namespace Making

def newArray (items : Array Value) : Making Value := fun heap =>
  let (ref, heap) := heap.newArray items
  .ok (.array ref) heap

def newRecord (record : Record) : Making Value := fun heap =>
  let (ref, heap) := heap.newRecord record
  .ok (.record ref) heap

end Making

namespace TypeTable

def empty : TypeTable where
  byName := .empty
  named := nofun

def get? (types : TypeTable) (name : String) : Option TypeDecl :=
  types.byName.get? (Text.foldName name)

def insert (types : TypeTable) (decl : TypeDecl) : TypeTable where
  byName := types.byName.insert (Text.foldName decl.name) decl
  named {key other} held := by
    rcases Table.mem_insert held with same | held
    · cases same
      rfl
    · exact types.named held

/-- A type is found under its own name. -/
theorem get?_name {types : TypeTable} {name : String} {decl : TypeDecl}
    (found : types.get? name = some decl) :
    Text.foldName name = Text.foldName decl.name ∧ types.get? decl.name = some decl := by
  have same : Text.foldName name = Text.foldName decl.name := types.named (Table.mem_of_get? found)
  refine ⟨same, ?_⟩
  unfold get? at found ⊢
  rw [← same]
  exact found

/-- Declare a type. A name can be declared once. -/
def define (types : TypeTable) (decl : TypeDecl) : Except Fault TypeTable :=
  if types.byName.contains (Text.foldName decl.name) then throw (.typeDefinedTwice decl.name)
  else return types.insert decl

def names (types : TypeTable) : List String :=
  types.byName.values.map TypeDecl.name

/-- How deep records inside records are made. -/
def maxInitialDepth : Nat := 32

/-- The initial value of a type, with some levels of nesting left. -/
def initialWithin (types : TypeTable) : Nat → TypeSpec → Making Value
  | _, .number => return .number 0
  | _, .bool => return .number 0
  | _, .any => return .number 0
  | _, .function => return .number 0
  | _, .text => return .text ""
  | _, .array => Making.newArray #[]
  | levels, .named name =>
    match types.get? name with
    | none => throw (.unknownType name)
    | some decl =>
      match levels with
      | 0 => throw (.typeNestsItself decl.name)
      | levels + 1 => do
        let fields ← decl.fields.mapM (fun field => do
          return (field.name, ← types.initialWithin levels field.type))
        Making.newRecord (decl.record fields)

def initial (types : TypeTable) (type : TypeSpec) : Making Value :=
  types.initialWithin maxInitialDepth type

end TypeTable

/-- The check that a value has the type declared for something. -/
def Value.checkType (heap : Heap) (value : Value) (type : TypeSpec) (what : String) :
    Except Fault Unit :=
  if value.hasType heap type then return
  else throw (.unfit what type (value.typeName heap))

end MicroBasic
