import MicroBasic.Ast.Stmt

/-!
# Overloads

Several functions may have the same name if their parameter lists differ; each of them is an
overload. The statements of its body are numbered within the program that declared it, so an
overload keeps a reference to the loop pairing of that program, which also tells the programs of one
session apart.
-/

namespace MicroBasic

/-- A reference to the loop pairing of one of the programs that a session has run. -/
structure LoopsRef where
  index : Nat
  deriving Repr, DecidableEq

/-- The loop pairing of a program of a session, with the number of the program. -/
structure ProgramLoops where
  serial : Nat
  bindings : LoopBindings

instance : Coe ProgramLoops LoopsRef where
  coe loops := { index := loops.serial }

/-- A function or property accessor that can be called. -/
structure Overload where
  decl : FunctionDecl Block
  /-- The number of the declaring statement in its program. -/
  origin : Nat
  /-- The loops of the declaring program. -/
  loops : LoopsRef

namespace Overload

def name (overload : Overload) : String :=
  overload.decl.name

def params (overload : Overload) : List Param :=
  overload.decl.params

/-- The number of parameters that take one argument each. -/
def fixedCount (overload : Overload) : Nat :=
  (overload.params.filter (fun param => !param.variadic)).length

/-- Whether the last parameter collects the remaining arguments. -/
def isVariadic (overload : Overload) : Bool :=
  (overload.params.getLast?.map Param.variadic).getD false

/-- One more than the place of the last parameter that needs an argument, counted from `place`. -/
def neededFrom (place : Nat) : List Param → Nat
  | [] => 0
  | param :: rest =>
    let later := neededFrom (place + 1) rest
    if later ≠ 0 then later
    else if !param.variadic && param.default.isNone then place + 1
    else 0

/-- The least number of arguments; defaults at the end may be left out. -/
def minArity (overload : Overload) : Nat :=
  neededFrom 0 overload.params

/-- The type of each argument that a collecting parameter takes. -/
def elementType (overload : Overload) : TypeSpec :=
  match overload.params.getLast?.bind Param.type with
  | some .array => .any
  | none => .any
  | some type => type

def argumentType? (overload : Overload) (place : Nat) : Option TypeSpec :=
  if place < overload.fixedCount then overload.params[place]?.map Param.effectiveType
  else if overload.isVariadic then some overload.elementType
  else none

def describeParam (overload : Overload) (param : Param) : String :=
  if param.variadic then overload.elementType.title ++ "..." else param.effectiveType.title

/-- The name with the types of the parameters. -/
def description (overload : Overload) : String :=
  overload.name ++ "(" ++ Text.join ", " (overload.params.map overload.describeParam) ++ ")"

/-- The description up to case, which no two overloads share. -/
def signature (overload : Overload) : String :=
  Text.foldName overload.description

/-- Whether two overloads come from the same declaration. -/
def sameOrigin (a b : Overload) : Bool :=
  a.origin == b.origin && a.loops == b.loops

end Overload

end MicroBasic
