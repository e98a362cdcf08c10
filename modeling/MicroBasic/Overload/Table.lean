import MicroBasic.Overload.Basic
import MicroBasic.Types

/-!
# Tables of overloads

The declared functions by name and the declared property accessors by type and name. Which overload
a call means is decided by the arguments: exactly one has to accept them.
-/

namespace MicroBasic

namespace Overload

def acceptsAt (overload : Overload) (heap : Heap) (place : Nat) (value : Value) : Bool :=
  match overload.argumentType? place with
  | some type => value.hasType heap type
  | none => false

/-- Whether every argument fits, where the first of them stands at `place`. -/
def acceptsFrom (overload : Overload) (heap : Heap) : Nat → List Value → Bool
  | _, [] => true
  | place, value :: rest =>
    overload.acceptsAt heap place value && overload.acceptsFrom heap (place + 1) rest

/-- Whether the number of arguments and every argument fit. -/
def accepts (overload : Overload) (heap : Heap) (values : List Value) : Bool :=
  Nat.ble overload.minArity values.length &&
    (overload.isVariadic || Nat.ble values.length overload.fixedCount) &&
    overload.acceptsFrom heap 0 values

/-- Whether a value may be the first argument. -/
def acceptsReceiver (overload : Overload) (heap : Heap) (receiver : Value) : Bool :=
  !overload.params.isEmpty && overload.acceptsAt heap 0 receiver

end Overload

/-- All overloads with a name, in order of declaration. -/
structure OverloadSet where
  name : String
  overloads : List Overload

namespace OverloadSet

/-- The one overload that accepts some arguments. -/
def select (set : OverloadSet) (heap : Heap) (values : List Value) : Except Fault Overload :=
  let arguments := values.map (Value.typeName heap)
  match set.overloads.filter (fun overload => overload.accepts heap values) with
  | [only] => return only
  | [] => throw (.noOverload set.name arguments (set.overloads.map Overload.description))
  | several => throw (.ambiguousCall set.name arguments (several.map Overload.description))

/-- Add an overload. A parameter list can be declared once; meeting the same declaration again
changes nothing. -/
def define (set : OverloadSet) (overload : Overload) : Except Fault OverloadSet :=
  match set.overloads.find? (fun other => other.signature == overload.signature) with
  | some existing =>
    if existing.sameOrigin overload then return set
    else throw (.overloadDefinedTwice overload.description)
  | none => return { set with overloads := set.overloads ++ [overload] }

end OverloadSet

/-- The declared functions. -/
structure FunctionTable where
  byName : Table String OverloadSet

namespace FunctionTable

def empty : FunctionTable := ⟨.empty⟩

def get? (functions : FunctionTable) (name : String) : Option OverloadSet :=
  functions.byName.get? (Text.foldName name)

def define (functions : FunctionTable) (overload : Overload) : Except Fault FunctionTable := do
  let key := Text.foldName overload.name
  let set := (functions.byName.get? key).getD { name := overload.name, overloads := [] }
  return ⟨functions.byName.insert key (← set.define overload)⟩

/-- The overloads with a name that take a value as their first argument. -/
def receivers (functions : FunctionTable) (heap : Heap) (name : String) (receiver : Value) :
    List Overload :=
  match functions.get? name with
  | some set => set.overloads.filter (fun overload => overload.acceptsReceiver heap receiver)
  | none => []

def names (functions : FunctionTable) : List String :=
  functions.byName.values.map OverloadSet.name

end FunctionTable

/-- The accessors of one property. -/
structure PropertyEntry where
  getter : Option Overload
  setter : Option Overload

/-- The declared properties by type and name. -/
structure PropertyTable where
  byName : Table (String × String) PropertyEntry

def PropertyDecl.asFunction {β : Type} (decl : PropertyDecl β) : FunctionDecl β where
  name := s!"{decl.typeName}.{decl.name}"
  params := decl.params
  returnType := decl.returnType
  body := decl.body
  isSub := decl.accessor = .set

namespace PropertyTable

def empty : PropertyTable := ⟨.empty⟩

def key (typeName name : String) : String × String :=
  (Text.foldName typeName, Text.foldName name)

def entry (properties : PropertyTable) (typeName name : String) : PropertyEntry :=
  (properties.byName.get? (key typeName name)).getD { getter := none, setter := none }

def getter? (properties : PropertyTable) (typeName name : String) : Option Overload :=
  (properties.entry typeName name).getter

def setter? (properties : PropertyTable) (typeName name : String) : Option Overload :=
  (properties.entry typeName name).setter

/-- Declare an accessor. Each can be declared once; meeting the same declaration again changes
nothing. -/
def define (properties : PropertyTable) (decl : PropertyDecl Block) (origin : Nat)
    (loops : LoopsRef) : Except Fault PropertyTable :=
  let accessor : Overload := { decl := decl.asFunction, origin, loops }
  let entry := properties.entry decl.typeName decl.name
  let existing := match decl.accessor with
    | .get => entry.getter
    | .set => entry.setter
  match existing with
  | some other =>
    if other.sameOrigin accessor then return properties
    else throw (.propertyDefinedTwice decl.typeName decl.name decl.accessor)
  | none =>
    let entry := match decl.accessor with
      | .get => { entry with getter := some accessor }
      | .set => { entry with setter := some accessor }
    return ⟨properties.byName.insert (key decl.typeName decl.name) entry⟩

end PropertyTable

end MicroBasic
