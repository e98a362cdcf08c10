import Mathlib.Logic.Basic
import MicroBasic.Fault
import MicroBasic.Parse.Stmt

/-!
# Trees without their places

Two source texts may have the same tokens at different places. Their trees then differ in the places
of the tokens and in the numbers of the statements. The shape of a tree is what remains without the
numbers of statements, with every token moved to where it is compared: all to one place if places
are of no account, or the tokens of one source to their places in another. `Tree` gathers what a
parser can read, with the form by which two results are compared.
-/

namespace MicroBasic

/-- A token at another place. -/
def Token.moved (move : Token → Location) (token : Token) : Token :=
  { token with span := (move token).span, position := (move token).position }

/-- One place for all tokens. -/
def Location.nowhere (_ : Token) : Location :=
  ⟨⟨0, 0⟩, ⟨0, 0⟩⟩

/-- A token without its place. -/
def Token.bare (token : Token) : Token :=
  token.moved Location.nowhere

mutual

/-- An expression with its tokens at other places. -/
def Expr.moved (move : Token → Location) : Expr → Expr
  | .number token value => .number (token.moved move) value
  | .text token value => .text (token.moved move) value
  | .name token word => .name (token.moved move) word
  | .array token items => .array (token.moved move) (Expr.movedList move items)
  | .object token fields => .object (token.moved move) (Expr.movedFields move fields)
  | .record token typeName fields =>
    .record (token.moved move) typeName (Expr.movedFields move fields)
  | .withField token field => .withField (token.moved move) field
  | .unary token op operand => .unary (token.moved move) op (operand.moved move)
  | .binary token op left right =>
    .binary (token.moved move) op (left.moved move) (right.moved move)
  | .conditional token condition yes no =>
    .conditional (token.moved move) (condition.moved move) (yes.moved move) (no.moved move)
  | .call token callee args =>
    .call (token.moved move) (callee.moved move) (Expr.movedList move args)
  | .member token inner field => .member (token.moved move) (inner.moved move) field
  | .index token inner place => .index (token.moved move) (inner.moved move) (place.moved move)
  | .spread token inner => .spread (token.moved move) (inner.moved move)
  | .await token inner => .await (token.moved move) (inner.moved move)
  | .new token typeName args => .new (token.moved move) typeName (Expr.movedArgs move args)

/-- Expressions with their tokens at other places. -/
def Expr.movedList (move : Token → Location) : List Expr → List Expr
  | [] => []
  | expr :: rest => expr.moved move :: Expr.movedList move rest

/-- Fields with the tokens of their values at other places. -/
def Expr.movedFields (move : Token → Location) : List (String × Expr) → List (String × Expr)
  | [] => []
  | (field, expr) :: rest => (field, expr.moved move) :: Expr.movedFields move rest

/-- Arguments with their tokens at other places, where there are some. -/
def Expr.movedArgs (move : Token → Location) : Option (List Expr) → Option (List Expr)
  | none => none
  | some args => some (Expr.movedList move args)

end

/-- What a parser can read. -/
class Tree (α : Type) where
  /-- What two results are compared by. -/
  Form : Type
  form : (Token → Location) → α → Form

/-- Where the tokens of two results are moved to be compared. -/
structure Moves where
  first : Token → Location
  second : Token → Location

/-- Two trees are the same up to places. -/
def Tree.Alike {α : Type} [Tree α] (moves : Moves) (value other : α) : Prop :=
  form moves.first value = form moves.second other

/-- All places are left out on both sides. -/
def Moves.bare : Moves :=
  ⟨Location.nowhere, Location.nowhere⟩

variable {moves : Moves}

section Leaves

instance : Tree Token := ⟨Token, Token.moved⟩

instance : Tree Expr := ⟨Expr, Expr.moved⟩

instance : Tree String := ⟨String, fun _ => id⟩

instance : Tree Bool := ⟨Bool, fun _ => id⟩

end Leaves

section Compounds

variable {α β : Type} [Tree α] [Tree β]

instance : Tree (List α) :=
  ⟨List (Tree.Form α), fun move => List.map (Tree.form move)⟩

instance : Tree (Option α) :=
  ⟨Option (Tree.Form α), fun move => Option.map (Tree.form move)⟩

instance : Tree (α × β) :=
  ⟨Tree.Form α × Tree.Form β, fun move => Prod.map (Tree.form move) (Tree.form move)⟩

end Compounds

section Views

variable {α γ : Type} [Tree α]

theorem Tree.Alike.none : Tree.Alike moves (none : Option α) none :=
  rfl

theorem Tree.map_of_alike {values others : List α} (alike : Tree.Alike moves values others)
    {view : (Token → Location) → α → γ} (seen : Tree.Form α → γ)
    (through : ∀ move value, view move value = seen (form move value)) :
    values.map (view moves.first) = others.map (view moves.second) := by
  have same : values.map (form moves.first) = others.map (form moves.second) := alike
  have shown (move : Token → Location) (values : List α) :
      values.map (view move) = (values.map (form move)).map seen := by
    rw [List.map_map]
    exact List.map_congr_left fun value _ => through move value
  rw [shown, shown, same]

theorem Tree.alike_concat {values others : List α} {value other : α}
    (first : Tree.Alike moves values others) (last : Tree.Alike moves value other) :
    Tree.Alike moves (values ++ [value]) (others ++ [other]) := by
  have first : values.map (form moves.first) = others.map (form moves.second) := first
  have last : form moves.first value = form moves.second other := last
  change (values ++ [value]).map (form moves.first) = (others ++ [other]).map (form moves.second)
  simp only [List.map_append, first, List.map_cons, last, List.map_nil]

theorem Tree.toList_of_alike {value other : Option α} (alike : Tree.Alike moves value other) :
    Tree.Alike moves value.toList other.toList := by
  have same : value.map (form moves.first) = other.map (form moves.second) := alike
  change value.toList.map (form moves.first) = other.toList.map (form moves.second)
  rw [← Option.toList_map, ← Option.toList_map, same]

theorem Tree.option_of_alike {value other : Option α} (alike : Tree.Alike moves value other)
    {view : (Token → Location) → α → γ} (seen : Tree.Form α → γ)
    (through : ∀ move value, view move value = seen (form move value)) :
    value.map (view moves.first) = other.map (view moves.second) := by
  have same : value.map (form moves.first) = other.map (form moves.second) := alike
  have shown (move : Token → Location) (value : Option α) :
      value.map (view move) = (value.map (form move)).map seen := by
    cases value with
    | none => rfl
    | some value => exact congrArg some (through move value)
  rw [shown, shown, same]

end Views

/-- A printed item with its tokens at other places. -/
def PrintItem.moved (move : Token → Location) (item : PrintItem) : PrintItem :=
  { item with expr := item.expr.moved move }

instance : Tree PrintItem := ⟨PrintItem, PrintItem.moved⟩

/-- A condition of a `DO` loop with its tokens at other places. -/
def LoopCondition.moved (move : Token → Location) (loop : LoopCondition) : LoopCondition :=
  { loop with condition := loop.condition.moved move }

instance : Tree LoopCondition := ⟨LoopCondition, LoopCondition.moved⟩

/-- A case test with its tokens at other places. -/
def CaseTest.moved (move : Token → Location) : CaseTest → CaseTest
  | value expr => value (expr.moved move)
  | range low high => range (low.moved move) (high.moved move)
  | compare op expr => compare op (expr.moved move)

instance : Tree CaseTest := ⟨CaseTest, CaseTest.moved⟩

/-- A parameter with the tokens of its default at other places. -/
def Param.moved (move : Token → Location) (param : Param) : Param :=
  { param with default := param.default.map (Expr.moved move) }

instance : Tree Param := ⟨Param, Param.moved⟩

namespace StmtKind

/-- A statement with its tokens at other places and without its inner blocks. -/
def outline {β : Type} (move : Token → Location) : StmtKind β → StmtKind Unit
  | assign target value explicit => assign (target.moved move) (value.moved move) explicit
  | print items newline => print (Tree.form move items) newline
  | input prompt targets => input prompt (Tree.form move targets)
  | branch branches otherwise blockForm =>
    branch (branches.map fun part => ⟨part.condition.moved move, ()⟩)
      (otherwise.map fun _ => ()) blockForm
  | openFor var start limit step =>
    openFor var (start.moved move) (limit.moved move) (Tree.form move step)
  | next var => next var
  | whileLoop condition _ => whileLoop (condition.moved move) ()
  | doLoop before after _ => doLoop (Tree.form move before) (Tree.form move after) ()
  | attempt _ handler cleanup =>
    attempt () (handler.map fun clause => ⟨clause.errorName, ()⟩) (cleanup.map fun _ => ())
  | raise message code => raise (message.moved move) (Tree.form move code)
  | defer _ => defer ()
  | function decl => function { decl with params := Tree.form move decl.params, body := () }
  | property decl => property { decl with params := Tree.form move decl.params, body := () }
  | withBlock target _ => withBlock (target.moved move) ()
  | select selector cases otherwise =>
    select (selector.moved move)
      (cases.map fun clause => ⟨clause.token.moved move, Tree.form move clause.tests, ()⟩)
      (otherwise.map fun _ => ())
  | exit kind => exit kind
  | continueLoop kind => continueLoop kind
  | type decl => type decl
  | dim name size declared => dim name (Tree.form move size) declared
  | spawn name => spawn name
  | returnValue value => returnValue (Tree.form move value)
  | call expr => call (expr.moved move)
  | halt => halt
  | stop => stop

end StmtKind

/-- A statement without its number and those of the statements in it. -/
inductive Shape where
  | mk (token : Token) (line : Option Nat) (label : Option String) (outline : StmtKind Unit)
    (blocks : List (List Shape))

/-- The shape of a statement, with its tokens at other places. -/
def Stmt.shape (move : Token → Location) (stmt : Stmt) : Shape :=
  .mk (stmt.token.moved move) stmt.lineNumber stmt.label (stmt.kind.outline move)
    (stmt.blocks.attach.map fun inner => inner.val.attach.map fun part => part.val.shape move)
termination_by sizeOf stmt
decreasing_by
  have smaller := Stmt.sizeOf_lt_of_mem_blocks inner.property
  have among := List.sizeOf_lt_of_mem part.property
  omega

/-- The shapes of the statements of a block. -/
def Block.shape (move : Token → Location) (block : Block) : List Shape :=
  block.map (Stmt.shape move)

theorem Stmt.shape_eq (move : Token → Location) (stmt : Stmt) : stmt.shape move =
    .mk (stmt.token.moved move) stmt.lineNumber stmt.label (stmt.kind.outline move)
      (stmt.blocks.map (Block.shape move)) := by
  rw [Stmt.shape]
  congr 1
  calc stmt.blocks.attach.map (fun inner => inner.val.attach.map fun part => part.val.shape move)
      = stmt.blocks.attach.map (fun inner => Block.shape move inner.val) :=
        List.map_congr_left fun _ _ => List.attach_map_val
    _ = stmt.blocks.map (Block.shape move) := List.attach_map_val

instance : Tree Stmt := ⟨Shape, Stmt.shape⟩

instance : Tree Block := ⟨List Shape, Block.shape⟩

instance : Tree (IfBranch Block) :=
  ⟨Expr × List Shape, fun move part => (part.condition.moved move, part.body.shape move)⟩

instance : Tree (CatchClause Block) :=
  ⟨Option String × List Shape, fun move clause => (clause.errorName, clause.body.shape move)⟩

instance : Tree (CaseClause Block) :=
  ⟨Token × List CaseTest × List Shape,
    fun move clause =>
      (clause.token.moved move, Tree.form move clause.tests, clause.body.shape move)⟩

section Divided

variable {otherwise otherwise' : Option Block} (last : Tree.Alike moves otherwise otherwise')

include last

theorem Block.shapes_toList :
    otherwise.toList.map (Block.shape moves.first) =
      otherwise'.toList.map (Block.shape moves.second) :=
  Tree.map_of_alike (Tree.toList_of_alike last) id fun _ _ => rfl

theorem StmtKind.shapes_branch {blockForm : Bool} {parts others : List (IfBranch Block)}
    (first : Tree.Alike moves parts others) :
    (branch parts otherwise blockForm).blocks.map (Block.shape moves.first) =
      (branch others otherwise' blockForm).blocks.map (Block.shape moves.second) := by
  have bodies : parts.map (Block.shape moves.first ∘ IfBranch.body) =
      others.map (Block.shape moves.second ∘ IfBranch.body) :=
    @Tree.map_of_alike _ _ _ _ _ _ first (fun move => Block.shape move ∘ IfBranch.body) Prod.snd
      fun _ _ => rfl
  simp only [StmtKind.blocks, List.map_append, List.map_map, bodies, Block.shapes_toList last]

theorem StmtKind.shapes_select {selector selector' : Expr}
    {clauses others : List (CaseClause Block)} (first : Tree.Alike moves clauses others) :
    (select selector clauses otherwise).blocks.map (Block.shape moves.first) =
      (select selector' others otherwise').blocks.map (Block.shape moves.second) := by
  have bodies : clauses.map (Block.shape moves.first ∘ CaseClause.body) =
      others.map (Block.shape moves.second ∘ CaseClause.body) :=
    @Tree.map_of_alike _ _ _ _ _ _ first (fun move => Block.shape move ∘ CaseClause.body)
      (fun form => form.2.2) fun _ _ => rfl
  simp only [StmtKind.blocks, List.map_append, List.map_map, bodies, Block.shapes_toList last]

theorem StmtKind.shapes_attempt {body body' : Block} {handler handler' : Option (CatchClause Block)}
    (first : Tree.Alike moves body body') (handlers : Tree.Alike moves handler handler') :
    (attempt body handler otherwise).blocks.map (Block.shape moves.first) =
      (attempt body' handler' otherwise').blocks.map (Block.shape moves.second) := by
  have bodies : body.shape moves.first = body'.shape moves.second := first
  have handled : handler.toList.map (Block.shape moves.first ∘ CatchClause.body) =
      handler'.toList.map (Block.shape moves.second ∘ CatchClause.body) :=
    @Tree.map_of_alike _ _ _ _ _ _ (Tree.toList_of_alike handlers)
      (fun move => Block.shape move ∘ CatchClause.body) Prod.snd fun _ _ => rfl
  simp only [StmtKind.blocks, List.map_cons, List.map_append, Option.toList_map, List.map_map,
    bodies, handled, Block.shapes_toList last]

end Divided

theorem Expr.movedList_eq (move : Token → Location) (exprs : List Expr) :
    Expr.movedList move exprs = Tree.form move exprs := by
  induction exprs with
  | nil => rfl
  | cons expr rest ih => exact congrArg (expr.moved move :: ·) ih

theorem Expr.movedFields_eq (move : Token → Location) (fields : List (String × Expr)) :
    Expr.movedFields move fields = Tree.form move fields := by
  induction fields with
  | nil => rfl
  | cons field rest ih =>
    exact congrArg ((field.1, field.2.moved move) :: ·) ih

theorem Expr.movedArgs_eq (move : Token → Location) (args : Option (List Expr)) :
    Expr.movedArgs move args = Tree.form move args := by
  cases args with
  | none => rfl
  | some exprs => exact congrArg some (Expr.movedList_eq move exprs)

namespace Expr

variable {token other : Token} (tokens : Tree.Alike moves token other)

include tokens

theorem alike_array {items others : List Expr} (alike : Tree.Alike moves items others) :
    Tree.Alike moves (array token items) (array other others) := by
  change array _ (movedList _ items) = array _ (movedList _ others)
  rw [movedList_eq, movedList_eq]
  exact congrArg₂ array tokens alike

theorem alike_object {fields others : List (String × Expr)}
    (alike : Tree.Alike moves fields others) :
    Tree.Alike moves (object token fields) (object other others) := by
  change object _ (movedFields _ fields) = object _ (movedFields _ others)
  rw [movedFields_eq, movedFields_eq]
  exact congrArg₂ object tokens alike

theorem alike_record {name : String} {fields others : List (String × Expr)}
    (alike : Tree.Alike moves fields others) :
    Tree.Alike moves (record token name fields) (record other name others) := by
  change record _ name (movedFields _ fields) = record _ name (movedFields _ others)
  rw [movedFields_eq, movedFields_eq]
  exact congrArg₂ (record · name ·) tokens alike

theorem alike_call {callee callee' : Expr} {args others : List Expr}
    (callees : Tree.Alike moves callee callee') (alike : Tree.Alike moves args others) :
    Tree.Alike moves (call token callee args) (call other callee' others) := by
  change call _ _ (movedList _ args) = call _ _ (movedList _ others)
  rw [movedList_eq, movedList_eq]
  exact congr (congrArg₂ call tokens callees) alike

theorem alike_new {name : String} {args others : Option (List Expr)}
    (alike : Tree.Alike moves args others) :
    Tree.Alike moves (new token name args) (new other name others) := by
  change new _ name (movedArgs _ args) = new _ name (movedArgs _ others)
  rw [movedArgs_eq, movedArgs_eq]
  exact congrArg₂ (new · name ·) tokens alike

theorem alike_index {inner innerOther place place' : Expr}
    (inners : Tree.Alike moves inner innerOther) (places : Tree.Alike moves place place') :
    Tree.Alike moves (index token inner place) (index other innerOther place') := by
  change index _ _ _ = index _ _ _
  exact congr (congrArg₂ index tokens inners) places

theorem alike_binary {left left' right right' : Expr} {op : BinaryOp}
    (lefts : Tree.Alike moves left left') (rights : Tree.Alike moves right right') :
    Tree.Alike moves (binary token op left right) (binary other op left' right') := by
  change binary _ op _ _ = binary _ op _ _
  exact congr (congrArg₂ (binary · op ·) tokens lefts) rights

theorem alike_conditional {condition condition' yes yes' no no' : Expr}
    (conditions : Tree.Alike moves condition condition') (positives : Tree.Alike moves yes yes')
    (negatives : Tree.Alike moves no no') :
    Tree.Alike moves (conditional token condition yes no)
      (conditional other condition' yes' no') := by
  change conditional _ _ _ _ = conditional _ _ _ _
  exact congr (congr (congrArg₂ conditional tokens conditions) positives) negatives

end Expr

section Blind

theorem Tree.isSome_of_alike {α : Type} [Tree α] {value other : Option α}
    (alike : Tree.Alike moves value other) : other.isSome = value.isSome := by
  have same : value.map (form moves.first) = other.map (form moves.second) := alike
  simpa using (congrArg Option.isSome same).symm

theorem Expr.isPlace_moved (move : Token → Location) (expr : Expr) :
    (expr.moved move).isPlace = expr.isPlace := by
  cases expr with
  | call token callee args => cases callee <;> rcases args with _ | ⟨_, _ | ⟨_, _⟩⟩ <;> rfl
  | _ => rfl

theorem Expr.isPlace_of_alike {expr other : Expr} (alike : Tree.Alike moves expr other) :
    other.isPlace = expr.isPlace := by
  have same : expr.moved moves.first = other.moved moves.second := alike
  rw [← expr.isPlace_moved moves.first, ← other.isPlace_moved moves.second, same]

theorem Expr.constant?_moved (move : Token → Location) (expr : Expr) :
    (expr.moved move).constant? = expr.constant? := by
  fun_induction constant? expr with
  | case1 => rfl
  | case2 token operand ih => exact congrArg _ ih
  | case3 token operand ih => exact ih
  | case4 expr notNumber notNegative notPositive =>
    cases expr with
    | number => exact absurd rfl (notNumber _ _)
    | unary token op operand =>
      cases op with
      | negate => exact absurd rfl (notNegative _ _)
      | plus => exact absurd rfl (notPositive _ _)
      | not => rfl
    | _ => rfl

variable {token : Token} {stmt : Stmt} {params others : List Param}

theorem Expr.exists_of_alike_call {args : List Expr} {callee other : Expr}
    (alike : Tree.Alike moves (call token callee args) other) :
    ∃ token callee args, other = call token callee args := by
  cases other with
  | call => exact ⟨_, _, _, rfl⟩
  | _ => nomatch (alike : call _ _ _ = _)

theorem Expr.exists_of_alike_name {word : String} {other : Expr}
    (alike : Tree.Alike moves (name token word) other) :
    ∃ token', other = name token' word ∧ Tree.Alike moves token token' := by
  cases other with
  | name token' word' =>
    obtain ⟨tokens, rfl⟩ := name.inj
      (alike : name (token.moved moves.first) word = name (token'.moved moves.second) word')
    exact ⟨token', rfl, tokens⟩
  | _ => nomatch (alike : name _ _ = _)

theorem Expr.exists_of_alike_member {field : String} {inner other : Expr}
    (alike : Tree.Alike moves (member token inner field) other) :
    ∃ token' inner', other = member token' inner' field ∧ Tree.Alike moves token token' := by
  cases other with
  | member token' inner' field' =>
    obtain ⟨tokens, _, rfl⟩ :=
      member.inj (alike : member (token.moved moves.first) (inner.moved moves.first) field =
        member (token'.moved moves.second) (inner'.moved moves.second) field')
    exact ⟨token', inner', rfl, tokens⟩
  | _ => nomatch (alike : member _ _ _ = _)

theorem Stmt.outline_of_alike {other : Stmt} (alike : Tree.Alike moves stmt other) :
    stmt.kind.outline moves.first = other.kind.outline moves.second := by
  have same : stmt.shape moves.first = other.shape moves.second := alike
  rw [shape_eq, shape_eq] at same
  exact (Shape.mk.inj same).2.2.2.1

theorem Stmt.blocks_of_alike {other : Stmt} (alike : Tree.Alike moves stmt other) :
    stmt.blocks.map (Block.shape moves.first) = other.blocks.map (Block.shape moves.second) := by
  have same : stmt.shape moves.first = other.shape moves.second := alike
  rw [shape_eq, shape_eq] at same
  exact (Shape.mk.inj same).2.2.2.2

theorem Stmt.alike_relabel {number : Option Nat} {tokenOther : Token} {number' line : Option Nat}
    {id id' now now' : Nat} {name name' label : Option String}
    {kind kind' : StmtKind Block}
    (alike : Tree.Alike (α := Stmt) moves (.mk id token number name kind)
      (.mk id' tokenOther number' name' kind')) :
    Tree.Alike (α := Stmt) moves (.mk now token line label kind)
      (.mk now' tokenOther line label kind') := by
  have same : Stmt.shape _ _ = Stmt.shape _ _ := alike
  change Stmt.shape _ _ = Stmt.shape _ _
  rw [shape_eq, shape_eq] at same ⊢
  obtain ⟨tokens, _, _, outlines, blocks⟩ := Shape.mk.inj same
  exact congr (congr (congrArg (Shape.mk · line label) tokens) outlines) blocks

/-- The loops opened on a line after a statement of a kind. -/
def StmtKind.loopsAfter {β : Type} (openFors : Nat) : StmtKind β → Nat
  | openFor _ _ _ _ => openFors + 1
  | next _ => openFors - 1
  | _ => openFors

theorem Parse.countFor_of_alike {other : Stmt} (alike : Tree.Alike moves stmt other)
    (openFors : Nat) : countFor openFors other = countFor openFors stmt := by
  have shown (move : Token → Location) (stmt : Stmt) :
      countFor openFors stmt = (stmt.kind.outline move).loopsAfter openFors := by
    unfold countFor
    cases stmt.kind <;> rfl
  rw [shown moves.second, shown moves.first, Stmt.outline_of_alike alike]

theorem Param.any_of_alike (alike : Tree.Alike moves params others)
    (test : Param → Bool) (blind : ∀ move param, test (Tree.form move param) = test param) :
    others.any test = params.any test := by
  have shown (move : Token → Location) (params : List Param) :
      params.any test = (Tree.form move params : List Param).any test := by
    change _ = (params.map (Tree.form move)).any test
    rw [List.any_map]
    exact congrArg params.any (funext fun param => (blind move param).symm)
  have same : (Tree.form moves.first params : List Param) = Tree.form moves.second others := alike
  rw [shown moves.second others, shown moves.first params, same]

theorem Param.length_of_alike (alike : Tree.Alike moves params others) :
    others.length = params.length := by
  have same : params.map (Tree.form moves.first) = others.map (Tree.form moves.second) := alike
  simpa using (congrArg List.length same).symm

theorem Parse.receiverFits_of_alike (alike : Tree.Alike moves params others)
    (typeName : String) : receiverFits typeName others = receiverFits typeName params := by
  have shown (move : Token → Location) (params : List Param) :
      receiverFits typeName params =
          receiverFits typeName (Tree.form move params : List Param) := by
    rcases params with _ | ⟨⟨_, _, _ | type, _, _⟩, _⟩
    · rfl
    · rfl
    · cases type <;> rfl
  have same : (Tree.form moves.first params : List Param) = Tree.form moves.second others := alike
  rw [shown moves.second others, shown moves.first params, same]

end Blind

end MicroBasic
