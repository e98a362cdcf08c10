import MicroBasic.Ast.Expr
import MicroBasic.Ast.TypeSpec

/-!
# Statements and programs

A statement is described over the type of its inner blocks, so that what a statement is made of can
be said once and the statement tree is the fixed point. Every statement has a number that identifies
it within one program, the token it begins with, and the line number or label that stood before it.

`FOR` and `NEXT` are separate statements of the same block. A program carries the table that pairs
them by their places in that block.
-/

namespace MicroBasic

/-- What follows a printed item. -/
inductive Separator where
  /-- Joins directly. -/
  | semicolon
  /-- Inserts a tab. -/
  | comma
  deriving Repr, DecidableEq

/-- An item of a `PRINT` statement. -/
structure PrintItem where
  expr : Expr
  separator : Option Separator

/-- A condition of a `DO` loop. -/
structure LoopCondition where
  untilTrue : Bool
  condition : Expr

/-- One test of a `CASE`. -/
inductive CaseTest where
  | value (expr : Expr)
  | range (low high : Expr)
  | compare (op : BinaryOp) (expr : Expr)

/-- The kinds of loops that `EXIT` and `CONTINUE` name. -/
inductive LoopKind where
  | forLoop | whileLoop | doLoop
  deriving Repr, DecidableEq

/-- What an `EXIT` leaves. -/
inductive ExitKind where
  | loop (kind : LoopKind)
  | sub
  | function
  deriving Repr, DecidableEq

/-- A parameter of a function. -/
structure Param where
  name : String
  byRef : Bool
  type : Option TypeSpec
  default : Option Expr
  /-- Collects the remaining arguments into an array. -/
  variadic : Bool

/-- The type of a parameter: the declared one, or what its form and name imply. -/
def Param.effectiveType (param : Param) : TypeSpec :=
  match param.type, param.variadic with
  | some type, _ => type
  | none, true => .array
  | none, false => TypeSpec.ofSuffix param.name

/-- A field of a record type. -/
structure FieldDecl where
  name : String
  type : TypeSpec
  deriving Repr, DecidableEq

/-- A record type, with the order in which its fields are spread if it is not that of declaration.
-/
structure TypeDecl where
  name : String
  fields : List FieldDecl
  spread : Option (List String)
  deriving Repr, DecidableEq

/-- The two accessors of a property. -/
inductive Accessor where
  | get | set
  deriving Repr, DecidableEq

/-- The number of parameters of an accessor: the record, and the new value to write. -/
def Accessor.arity : Accessor → Nat
  | get => 1
  | set => 2

/-- A branch of an `IF`, with a body of type `β`. -/
structure IfBranch (β : Type) where
  condition : Expr
  body : β

/-- The `CATCH` part of a `TRY`. -/
structure CatchClause (β : Type) where
  errorName : Option String
  body : β

/-- A `CASE` of a `SELECT`. -/
structure CaseClause (β : Type) where
  token : Token
  tests : List CaseTest
  body : β

/-- A function or subroutine. -/
structure FunctionDecl (β : Type) where
  name : String
  params : List Param
  returnType : Option TypeSpec
  body : β
  isSub : Bool

/-- An accessor of a property of a record type. -/
structure PropertyDecl (β : Type) where
  typeName : String
  name : String
  params : List Param
  returnType : Option TypeSpec
  accessor : Accessor
  body : β

/-- What a statement does, with inner blocks of type `β`. -/
inductive StmtKind (β : Type) where
  | assign (target value : Expr) (explicit : Bool)
  | print (items : List PrintItem) (newline : Bool)
  | input (prompt : Option String) (targets : List Expr)
  | branch (branches : List (IfBranch β)) (otherwise : Option β) (blockForm : Bool)
  | openFor (var : String) (start limit : Expr) (step : Option Expr)
  | next (var : Option String)
  | whileLoop (condition : Expr) (body : β)
  | doLoop (before after : Option LoopCondition) (body : β)
  | attempt (body : β) (handler : Option (CatchClause β)) (cleanup : Option β)
  | raise (message : Expr) (code : Option Expr)
  | defer (body : β)
  | function (decl : FunctionDecl β)
  | property (decl : PropertyDecl β)
  | withBlock (target : Expr) (body : β)
  | select (selector : Expr) (cases : List (CaseClause β)) (otherwise : Option β)
  | exit (kind : ExitKind)
  | continueLoop (kind : Option LoopKind)
  | type (decl : TypeDecl)
  | dim (name : String) (size : Option Expr) (type : Option TypeSpec)
  | spawn (name : String)
  | returnValue (value : Option Expr)
  | call (expr : Expr)
  | halt
  | stop

/-- The inner blocks of a statement, in source order. -/
def StmtKind.blocks {β : Type} : StmtKind β → List β
  | branch branches otherwise _ => branches.map IfBranch.body ++ otherwise.toList
  | whileLoop _ body => [body]
  | doLoop _ _ body => [body]
  | defer body => [body]
  | withBlock _ body => [body]
  | attempt body handler cleanup =>
    body :: ((handler.map CatchClause.body).toList ++ cleanup.toList)
  | function decl => [decl.body]
  | property decl => [decl.body]
  | select _ cases otherwise => cases.map CaseClause.body ++ otherwise.toList
  | _ => []

/-- Inner blocks are smaller than the statement that holds them. -/
theorem StmtKind.sizeOf_lt_of_mem_blocks {β : Type} [SizeOf β] {kind : StmtKind β} {block : β}
    (held : block ∈ kind.blocks) : sizeOf block < sizeOf kind := by
  have inOption {inner : Option β} (found : block ∈ inner.toList) :
      sizeOf block < sizeOf inner := by
    cases inner with
    | none => simp at found
    | some body =>
      simp only [Option.toList_some, List.mem_singleton] at found
      subst found
      simp only [Option.some.sizeOf_spec]
      omega
  cases kind <;> simp only [blocks, List.mem_append, List.mem_map, List.mem_cons, List.not_mem_nil,
    or_false] at held
  case branch branches otherwise blockForm =>
    simp only [branch.sizeOf_spec]
    rcases held with ⟨part, among, rfl⟩ | inElse
    · have := List.sizeOf_lt_of_mem among
      cases part
      simp only [IfBranch.mk.sizeOf_spec] at this
      simp only
      omega
    · have := inOption inElse
      omega
  case attempt body handler cleanup =>
    simp only [attempt.sizeOf_spec]
    rcases held with rfl | inHandler | inCleanup
    · omega
    · cases handler with
      | none => simp at inHandler
      | some clause =>
        cases clause
        simp only [Option.map_some, Option.toList_some, List.mem_singleton] at inHandler
        subst inHandler
        simp only [Option.some.sizeOf_spec, CatchClause.mk.sizeOf_spec]
        omega
    · have := inOption inCleanup
      omega
  case select selector cases otherwise =>
    simp only [select.sizeOf_spec]
    rcases held with ⟨part, among, rfl⟩ | inElse
    · have := List.sizeOf_lt_of_mem among
      cases part
      simp only [CaseClause.mk.sizeOf_spec] at this
      simp only
      omega
    · have := inOption inElse
      omega
  case function decl =>
    subst held
    cases decl
    simp only [function.sizeOf_spec, FunctionDecl.mk.sizeOf_spec]
    omega
  case property decl =>
    subst held
    cases decl
    simp only [property.sizeOf_spec, PropertyDecl.mk.sizeOf_spec]
    omega
  case whileLoop => subst held; simp only [whileLoop.sizeOf_spec]; omega
  case doLoop => subst held; simp only [doLoop.sizeOf_spec]; omega
  case defer => subst held; simp only [defer.sizeOf_spec]; omega
  case withBlock => subst held; simp only [withBlock.sizeOf_spec]; omega

/-- A statement of a program. -/
inductive Stmt where
  | mk (id : Nat) (token : Token) (lineNumber : Option Nat) (label : Option String)
      (kind : StmtKind (List Stmt))

abbrev Block := List Stmt

namespace Stmt

/-- The number of a statement within its program. -/
def id : Stmt → Nat
  | mk id _ _ _ _ => id

def token : Stmt → Token
  | mk _ token _ _ _ => token

/-- The line number that stood before a statement. -/
def lineNumber : Stmt → Option Nat
  | mk _ _ lineNumber _ _ => lineNumber

/-- The label that stood before a statement. -/
def label : Stmt → Option String
  | mk _ _ _ label _ => label

/-- What a statement does. -/
def kind : Stmt → StmtKind Block
  | mk _ _ _ _ kind => kind

/-- The inner blocks of a statement, in source order. -/
def blocks (stmt : Stmt) : List Block :=
  stmt.kind.blocks

/-- Inner blocks are smaller than the statement that holds them. -/
theorem sizeOf_lt_of_mem_blocks {stmt : Stmt} {block : Block} (held : block ∈ stmt.blocks) :
    sizeOf block < sizeOf stmt := by
  obtain ⟨id, token, lineNumber, label, kind⟩ := stmt
  have smaller : sizeOf block < sizeOf kind := StmtKind.sizeOf_lt_of_mem_blocks held
  simp only [mk.sizeOf_spec]
  omega

end Stmt

/-- A `FOR` and its `NEXT`, by their places in the block that holds both. -/
structure LoopBinding where
  forIndex : Nat
  nextIndex : Nat
  deriving Repr, DecidableEq

/-- The pairing of a whole program: the number of every `FOR` and `NEXT` statement with the pair
that it belongs to. -/
structure LoopBindings where
  entries : List (Nat × LoopBinding)
  deriving Repr, DecidableEq

namespace LoopBindings

def empty : LoopBindings := ⟨[]⟩

/-- The pair that a statement belongs to. -/
def get? (bindings : LoopBindings) (id : Nat) : Option LoopBinding :=
  bindings.entries.lookup id

/-- Enter one more statement. -/
def insert (bindings : LoopBindings) (id : Nat) (binding : LoopBinding) : LoopBindings :=
  ⟨(id, binding) :: bindings.entries⟩

/-- All entries by increasing statement number. -/
def sorted (bindings : LoopBindings) : List (Nat × LoopBinding) :=
  bindings.entries.mergeSort (fun a b => Nat.ble a.1 b.1)

end LoopBindings

/-- A program: its statements and the pairing of its loops. -/
structure Program where
  statements : Block
  bindings : LoopBindings

end MicroBasic
