import MicroBasic.Host.Basic
import MicroBasic.Overload.Table

/-!
# Members

What `receiver.name` means. A group of the host has its own members. A record has its fields, then
its properties. Any other meaning is a function that takes the receiver as its first argument: a
declared one, or for anything but a record one of the groups of the host that hold methods.
-/

namespace MicroBasic

/-- What a member is. -/
inductive Member where
  /-- A field with its value. -/
  | field (value : Value)
  /-- The accessor that reads a property. -/
  | property (getter : Overload)
  /-- A declared function that takes the receiver as its first argument. -/
  | method (overload : Overload)
  /-- An entry of the host; `binds` tells that it takes the receiver as its first argument. -/
  | hosted (entry : HostEntry) (binds : Bool)
  | missing (suggestion : Option String)

/-- The groups whose functions are methods of every value but records. -/
def methodGroups : List String := ["STR", "MATH", "ARR"]

/-- What a name is looked up in. -/
structure Lookup where
  functions : FunctionTable
  properties : PropertyTable
  host : Host
  heap : Heap

namespace Lookup

def hostMethod? (tables : Lookup) (name : String) : Option HostEntry :=
  methodGroups.findSome? (fun group =>
    (tables.host.group? group).bind (fun ref => tables.host.member? ref name))

/-- The names that a missing member may have been meant for. -/
def candidates (tables : Lookup) (receiver : Value) : List String :=
  let fields := match receiver with
    | .record ref => (tables.heap.record ref).fields.map Prod.fst
    | _ => []
  fields ++ tables.functions.names ++ methodGroups.flatMap (fun group =>
    match tables.host.group? group with
    | some ref => tables.host.memberNames ref
    | none => [])

/-- A function that takes the receiver as its first argument. -/
def method (tables : Lookup) (receiver : Value) (name : String) : Except Fault Member :=
  match tables.functions.receivers tables.heap name receiver with
  | [only] => return .method only
  | [] =>
    match if receiver.isRecord then none else tables.hostMethod? name with
    | some entry => return .hosted entry true
    | none =>
      return .missing (Text.nearest? name (tables.candidates receiver) Text.suggestionThreshold)
  | several =>
    throw (.ambiguousMethod name (receiver.typeName tables.heap) (several.map Overload.description))

def member (tables : Lookup) (receiver : Value) (name : String) : Except Fault Member :=
  match receiver with
  | .hostGroup ref =>
    match tables.host.member? ref name with
    | some entry => return .hosted entry false
    | none =>
      return .missing
        (Text.nearest? name (tables.host.memberNames ref) Text.suggestionThreshold)
  | .record ref =>
    let record := tables.heap.record ref
    match record.get? name with
    | some value => return .field value
    | none =>
      match tables.properties.getter? record.typeName name with
      | some getter => return .property getter
      | none => tables.method receiver name
  | _ => tables.method receiver name

end Lookup

end MicroBasic
