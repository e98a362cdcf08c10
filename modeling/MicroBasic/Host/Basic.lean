import MicroBasic.Fault
import MicroBasic.Host.World
import MicroBasic.Table
import MicroBasic.Text.Basic

/-!
# The host

The host offers functions to programs, alone or in named groups, which may hold further groups.
Names do not depend on case. A function of the host works on the heap and the outside world. It is
identified by the place where it was registered, so the same function registered under two names is
two functions.
-/

namespace MicroBasic

/-- What a function of the host works on. -/
structure HostState where
  heap : Heap
  world : World

/-- Why a function of the host gives no value. -/
inductive HostStop where
  | fault (cause : HostFault)
  | awaiting (what : Awaited)

abbrev HostAction := EStateM HostStop HostState

/-- A function of the host: what it does with its arguments. -/
abbrev HostBody := List Value → HostAction Value

/-- What a name means to the host. -/
inductive HostEntry where
  | function (ref : HostRef)
  | group (ref : HostRef)

def HostEntry.value : HostEntry → Value
  | function ref => .hostFunction ref
  | group ref => .hostGroup ref

/-- What can be registered in a group. -/
inductive HostMember where
  | function (body : HostBody)
  | group (name : String) (members : List (String × HostMember))

/-- Everything that a host offers. -/
structure Host where
  functions : Array HostBody
  groups : Array (Table String HostEntry)
  entries : Table String HostEntry

namespace Host

def empty : Host where
  functions := #[]
  groups := #[]
  entries := .empty

def addFunction (host : Host) (name : String) (body : HostBody) : HostEntry × Host :=
  (.function { id := host.functions.size, name },
    { host with functions := host.functions.push body })

def addGroup (host : Host) (name : String) (members : Table String HostEntry) : HostEntry × Host :=
  (.group { id := host.groups.size, name }, { host with groups := host.groups.push members })

mutual

def addMember (host : Host) (group name : String) : HostMember → HostEntry × Host
  | .function body => host.addFunction s!"{group}.{name}" body
  | .group inner members =>
    let (table, host) := host.addMembers inner .empty members
    host.addGroup inner table

/-- Add the members of a group to those already there. -/
def addMembers (host : Host) (group : String) (table : Table String HostEntry) :
    List (String × HostMember) → Table String HostEntry × Host
  | [] => (table, host)
  | (name, member) :: rest =>
    let (entry, host) := host.addMember group name member
    host.addMembers group (table.insert (Text.foldName name) entry) rest

end

def registerFunction (host : Host) (name : String) (body : HostBody) : Host :=
  let (entry, host) := host.addFunction name body
  { host with entries := host.entries.insert (Text.foldName name) entry }

def registerGroup (host : Host) (name : String) (members : List (String × HostMember)) : Host :=
  let (table, host) := host.addMembers name .empty members
  let (entry, host) := host.addGroup name table
  { host with entries := host.entries.insert (Text.foldName name) entry }

def entry? (host : Host) (name : String) : Option HostEntry :=
  host.entries.get? (Text.foldName name)

def group? (host : Host) (name : String) : Option HostRef :=
  match host.entry? name with
  | some (.group ref) => some ref
  | _ => none

def names (host : Host) : List String :=
  host.entries.keys

def members (host : Host) (group : HostRef) : Table String HostEntry :=
  host.groups.getD group.id .empty

def member? (host : Host) (group : HostRef) (name : String) : Option HostEntry :=
  (host.members group).get? (Text.foldName name)

def memberNames (host : Host) (group : HostRef) : List String :=
  Text.sorted (host.members group).keys

def invoke (host : Host) (function : HostRef) : HostBody :=
  host.functions.getD function.id (fun _ => throw (.fault (.custom "no such function")))

end Host

end MicroBasic
