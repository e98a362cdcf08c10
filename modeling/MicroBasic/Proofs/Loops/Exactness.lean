import Mathlib.Data.List.Forall2
import MicroBasic.Proofs.Loops.Pairing

/-!
# `FOR` and `NEXT` pair exactly like brackets

A block is balanced if it is a sequence of plain statements and of loops, each a `FOR`, a balanced
body and a `NEXT` that fits it. A program can be paired if and only if all its blocks are balanced,
the inner ones as well, whatever statement they stand in. The table of pairs then has an entry for
each `FOR` and each `NEXT` and no other, and the entries tell which of them belong together.

This is said without the functions that pair. The bodies of statements, the constant steps and the
balanced blocks are described on their own and then shown to be those that pairing goes by.
-/

namespace MicroBasic

/-- A block is a body of a statement: of a branch, of a loop, and so on for all statements that have
some. -/
inductive StmtKind.Holds {β : Type} : StmtKind β → β → Prop
  | branch {branches : List (IfBranch β)} {otherwise : Option β} {blockForm : Bool}
    {part : IfBranch β} (among : part ∈ branches) :
    Holds (.branch branches otherwise blockForm) part.body
  | otherwise {branches : List (IfBranch β)} {body : β} {blockForm : Bool} :
    Holds (.branch branches (some body) blockForm) body
  | whileLoop {condition : Expr} {body : β} : Holds (.whileLoop condition body) body
  | doLoop {before after : Option LoopCondition} {body : β} : Holds (.doLoop before after body) body
  | attempt {body : β} {handler : Option (CatchClause β)} {cleanup : Option β} :
    Holds (.attempt body handler cleanup) body
  | handler {body : β} {clause : CatchClause β} {cleanup : Option β} :
    Holds (.attempt body (some clause) cleanup) clause.body
  | cleanup {body last : β} {handler : Option (CatchClause β)} :
    Holds (.attempt body handler (some last)) last
  | defer {body : β} : Holds (.defer body) body
  | function {decl : FunctionDecl β} : Holds (.function decl) decl.body
  | property {decl : PropertyDecl β} : Holds (.property decl) decl.body
  | withBlock {target : Expr} {body : β} : Holds (.withBlock target body) body
  | case {selector : Expr} {cases : List (CaseClause β)} {otherwise : Option β}
    {clause : CaseClause β} (among : clause ∈ cases) :
    Holds (.select selector cases otherwise) clause.body
  | caseElse {selector : Expr} {cases : List (CaseClause β)} {body : β} :
    Holds (.select selector cases (some body)) body

theorem StmtKind.holds_iff {β : Type} {kind : StmtKind β} {body : β} :
    kind.Holds body ↔ body ∈ kind.blocks := by
  constructor
  · intro holds
    cases holds with
    | branch among => exact List.mem_append_left _ (List.mem_map_of_mem among)
    | otherwise => exact List.mem_append_right _ (List.mem_singleton_self _)
    | case among => exact List.mem_append_left _ (List.mem_map_of_mem among)
    | caseElse => exact List.mem_append_right _ (List.mem_singleton_self _)
    | handler => exact List.mem_cons_of_mem _ (List.mem_append_left _ (List.mem_singleton_self _))
    | cleanup => exact List.mem_cons_of_mem _ (List.mem_append_right _ (List.mem_singleton_self _))
    | attempt => exact List.mem_cons_self
    | _ => exact List.mem_singleton_self _
  · intro held
    cases kind <;>
      simp only [blocks, List.mem_append, List.mem_map, List.mem_cons, List.not_mem_nil,
      or_false, Option.mem_toList] at held
    case branch =>
      rcases held with ⟨part, among, rfl⟩ | rfl
      · exact .branch among
      · exact .otherwise
    case attempt =>
      rcases held with rfl | inHandler | rfl
      · exact .attempt
      · obtain ⟨clause, rfl, rfl⟩ := Option.map_eq_some_iff.mp inHandler
        exact .handler
      · exact .cleanup
    case select =>
      rcases held with ⟨clause, among, rfl⟩ | rfl
      · exact .case among
      · exact .caseElse
    case whileLoop => exact held ▸ .whileLoop
    case doLoop => exact held ▸ .doLoop
    case defer => exact held ▸ .defer
    case function => exact held ▸ .function
    case property => exact held ▸ .property
    case withBlock => exact held ▸ .withBlock

/-- One block is another, or stands in a body of one of its statements at any depth. -/
inductive Block.Inside : Block → Block → Prop
  | self {block : Block} : Inside block block
  | inner {block body outer : Block} {stmt : Stmt} (deeper : Inside block body)
    (held : stmt.kind.Holds body) (among : stmt ∈ outer) : Inside block outer

theorem Block.inside_iff {block outer : Block} : block.Inside outer ↔ block.Within outer := by
  constructor
  · intro inside
    induction inside with
    | self => exact .self
    | inner _ held among ih =>
      exact .inner ih (StmtKind.holds_iff.mp held) among
  · intro within
    induction within with
    | self => exact .self
    | inner _ held among ih =>
      exact .inner ih (StmtKind.holds_iff.mpr held) among

/-- An expression is a number under any signs, and this is its value. -/
inductive Expr.Constant : Expr → Float → Prop
  | number {token : Token} {value : Float} : Constant (.number token value) value
  | negative {token : Token} {operand : Expr} {value : Float} (inner : Constant operand value) :
    Constant (.unary token .negate operand) (-value)
  | positive {token : Token} {operand : Expr} {value : Float} (inner : Constant operand value) :
    Constant (.unary token .plus operand) value

theorem Expr.constant?_eq_some_iff {value : Float} {expr : Expr} :
    expr.constant? = some value ↔ expr.Constant value := by
  constructor
  · intro found
    fun_induction constant? expr generalizing value with
    | case1 => cases found; exact .number
    | case2 token operand ih =>
      obtain ⟨inner, known, rfl⟩ := Option.map_eq_some_iff.mp found
      exact .negative (ih known)
    | case3 token operand ih => exact .positive (ih found)
    | case4 => cases found
  · intro constant
    induction constant with
    | number => rfl
    | negative _ ih => simp [constant?, ih]
    | positive _ ih => exact ih

/-- The step of a loop is a constant zero. -/
def ZeroStep (step : Option Expr) : Prop :=
  ∃ expr value, step = some expr ∧ expr.Constant value ∧ (value == 0) = true

theorem Pairing.hasZeroStep_iff {step : Option Expr} : hasZeroStep step = true ↔ ZeroStep step := by
  unfold hasZeroStep ZeroStep
  cases step with
  | none => simp
  | some expr =>
    rw [Option.bind_some]
    cases found : expr.constant? with
    | none =>
      refine iff_of_false nofun ?_
      rintro ⟨_, value, same, constant, _⟩
      cases same
      cases found.symm.trans (Expr.constant?_eq_some_iff.mpr constant)
    | some value =>
      constructor
      · intro zero
        exact ⟨expr, value, rfl, Expr.constant?_eq_some_iff.mp found, zero⟩
      · rintro ⟨_, other, same, constant, zero⟩
        cases same
        cases found.symm.trans (Expr.constant?_eq_some_iff.mpr constant)
        exact zero

/-- A statement is a `FOR` with a variable, whose step is not the constant zero. -/
def Stmt.Begins (stmt : Stmt) (var : String) : Prop :=
  ∃ start limit step, stmt.kind = .openFor var start limit step ∧ ¬ ZeroStep step

/-- A statement is a `NEXT` without a name, or with that of a variable, type suffixes apart. -/
def Stmt.Ends (stmt : Stmt) (var : String) : Prop :=
  ∃ name, stmt.kind = .next name ∧ ∀ given, name = some given →
    Text.stripSuffix given = Text.stripSuffix var

/-- The `FOR`s and `NEXT`s of a block are balanced like brackets and fit each other. -/
inductive Block.Balanced : Block → Prop
  | nil : Balanced []
  | plain {stmt : Stmt} {rest : Block} (notFor : stmt.isFor = false) (notNext : stmt.isNext = false)
    (others : Balanced rest) : Balanced (stmt :: rest)
  | loop {opening closing : Stmt} {var : String} {body rest : Block} (begins : opening.Begins var)
    (inner : Balanced body) (ends : closing.Ends var) (others : Balanced rest) :
    Balanced (opening :: (body ++ closing :: rest))

namespace Pairing

/-- The rest of a block closes the loops with these variables, innermost first, one statement after
another. -/
inductive Closes : List String → Block → Prop
  | done : Closes [] []
  | plain {vars : List String} {stmt : Stmt} {rest : Block} (notFor : stmt.isFor = false)
    (notNext : stmt.isNext = false) (others : Closes vars rest) : Closes vars (stmt :: rest)
  | opening {vars : List String} {var : String} {stmt : Stmt} {rest : Block}
    (begins : stmt.Begins var) (others : Closes (var :: vars) rest) : Closes vars (stmt :: rest)
  | closing {vars : List String} {var : String} {stmt : Stmt} {rest : Block} (ends : stmt.Ends var)
    (others : Closes vars rest) : Closes (var :: vars) (stmt :: rest)

theorem Closes.append {vars : List String} {body rest : Block} (balanced : body.Balanced)
    (closes : Closes vars rest) : Closes vars (body ++ rest) := by
  induction balanced generalizing vars rest with
  | nil => exact closes
  | plain notFor notNext _ ih => exact .plain notFor notNext (ih closes)
  | loop begins _ ends _ inBody inRest =>
    rw [List.cons_append, List.append_assoc, List.cons_append]
    exact .opening begins (inBody (.closing ends (inRest closes)))

theorem Closes.split {vars : List String} {block : Block} (closes : Closes vars block) :
    ∃ body, Block.Balanced body ∧ (vars = [] ∧ block = body ∨
      ∃ var outer closing rest, vars = var :: outer ∧ block = body ++ closing :: rest ∧
        closing.Ends var ∧ Closes outer rest) := by
  -- Behind the end of an inner loop the argument is repeated, so the induction is on the length.
  induction size : block.length using Nat.strongRecOn generalizing vars block with
  | ind _ ih =>
    subst size
    cases closes with
    | done => exact ⟨[], .nil, .inl ⟨rfl, rfl⟩⟩
    | plain notFor notNext others =>
      obtain ⟨body, balanced, ended⟩ := ih _ (Nat.lt_succ_self _) others rfl
      refine ⟨_ :: body, .plain notFor notNext balanced, ended.imp ?_ ?_⟩
      · rintro ⟨closed, rfl⟩
        exact ⟨closed, rfl⟩
      · rintro ⟨var, outer, closing, rest, open_, rfl, ends, others⟩
        exact ⟨var, outer, closing, rest, open_, rfl, ends, others⟩
    | opening begins others =>
      obtain ⟨body, balanced, ⟨wrong, _⟩ | ⟨var, outer, closing, rest, same, rfl, ends, closes⟩⟩ :=
        ih _ (Nat.lt_succ_self _) others rfl
      · cases wrong
      · cases same
        obtain ⟨further, alsoBalanced, ended⟩ := ih rest.length (by
          simp only [List.length_cons, List.length_append]
          omega) closes rfl
        refine ⟨_, .loop begins balanced ends alsoBalanced, ended.imp ?_ ?_⟩
        · rintro ⟨closed, rfl⟩
          exact ⟨closed, rfl⟩
        · rintro ⟨var, outer, last, rest, open_, rfl, ends, others⟩
          exact ⟨var, outer, last, rest, open_, by simp, ends, others⟩
    | closing ends others => exact ⟨[], .nil, .inr ⟨_, _, _, _, rfl, rfl, ends, others⟩⟩

theorem closes_nil_iff {block : Block} : Closes [] block ↔ block.Balanced := by
  constructor
  · intro closes
    obtain ⟨body, balanced, ⟨_, rfl⟩ | ⟨_, _, _, _, same, _⟩⟩ := closes.split
    · exact balanced
    · cases same
  · intro balanced
    have closes := Closes.append balanced .done
    rwa [List.append_nil] at closes

variable {index : Nat} {opened : List OpenFor} {bindings : LoopBindings} {stmt : Stmt}
    {rest : Block}

/-- A block closes the loops that are open at it if and only if its first statement can be visited,
and the rest closes those that are open then. -/
theorem closes_cons_iff : Closes (opened.map OpenFor.var) (stmt :: rest) ↔
    ∃ opened' bindings', visit index stmt opened bindings = .ok (opened', bindings') ∧
      Closes (opened'.map OpenFor.var) rest := by
  constructor
  · intro closes
    generalize names : opened.map OpenFor.var = vars at closes
    unfold visit
    cases closes with
    | plain notFor notNext others =>
      subst names
      refine ⟨opened, bindings, ?_, others⟩
      unfold Stmt.isFor at notFor
      unfold Stmt.isNext at notNext
      split
      · next opens =>
        rw [opens] at notFor
        cases notFor
      · next closes =>
        rw [closes] at notNext
        cases notNext
      · rfl
    | opening begins others =>
      subst names
      obtain ⟨start, limit, step, opens, notZero⟩ := begins
      have nonzero : ¬ hasZeroStep step = true := fun zero => notZero (hasZeroStep_iff.mp zero)
      simp only [opens, if_neg nonzero]
      exact ⟨_, _, rfl, others⟩
    | closing ends others =>
      obtain ⟨name, closes, fits⟩ := ends
      cases opened with
      | nil => cases names
      | cons innermost outer =>
        cases names
        simp only [closes]
        cases name with
        | none => exact ⟨_, _, rfl, others⟩
        | some given =>
          have named : innermost.isNamed given = true := by
            simp [OpenFor.isNamed, fits given rfl]
          simp only [if_pos named]
          exact ⟨_, _, rfl, others⟩
  · rintro ⟨opened', bindings', visited, closes⟩
    unfold visit at visited
    split at visited
    · next opens =>
      split at visited
      · cases visited
      · next nonzero =>
        cases visited
        exact .opening ⟨_, _, _, opens, fun zero => nonzero (hasZeroStep_iff.mpr zero)⟩ closes
    · next name ends =>
      split at visited
      · cases visited
      · split at visited
        · split at visited
          · next named =>
            cases visited
            refine .closing ⟨_, ends, fun other same => ?_⟩ closes
            cases same
            exact (beq_iff_eq.mp named).symm
          · cases visited
        · cases visited
          exact .closing ⟨_, ends, nofun⟩ closes
    · next notFor notNext =>
      cases visited
      refine .plain ?_ ?_ closes
      · unfold Stmt.isFor
        split
        · next opens =>
          exact absurd opens (notFor _ _ _ _)
        · rfl
      · unfold Stmt.isNext
        split
        · next ends =>
          exact absurd ends (notNext _)
        · rfl

theorem forall_within_iff {block : Block} {Good : Block → Prop} :
    (∀ inner, inner.Within block → Good inner) ↔
      Good block ∧ ∀ stmt ∈ block, ∀ part ∈ stmt.blocks, ∀ inner, inner.Within part →
        Good inner := by
  constructor
  · intro all
    exact ⟨all block .self,
      fun stmt among part held inner within => all inner (.inner within held among)⟩
  · rintro ⟨own, inside⟩ inner within
    cases within with
    | self => exact own
    | inner deeper held among => exact inside _ among _ held inner deeper

/-- Blocks can be paired one after another if and only if each of them can, if this does not depend
on the pairs found before. -/
theorem foldlM_ok_iff {blocks : List Block} {Good : Block → Prop}
    (each : ∀ block ∈ blocks, ∀ bindings,
      (∃ result, pairFrom 0 [] bindings block = .ok result) ↔ Good block) :
    (∃ result, blocks.foldlM (pairFrom 0 []) bindings = .ok result) ↔
      ∀ block ∈ blocks, Good block := by
  induction blocks generalizing bindings with
  | nil => exact iff_of_true ⟨bindings, rfl⟩ nofun
  | cons block others ih =>
    obtain ⟨own, later⟩ := List.forall_mem_cons.mp each
    rw [List.forall_mem_cons, List.foldlM_cons]
    constructor
    · rintro ⟨result, paired⟩
      obtain ⟨between, ownPaired, paired⟩ := Results.of_bind paired
      exact ⟨(own bindings).mp ⟨between, ownPaired⟩, (ih later).mp ⟨result, paired⟩⟩
    · rintro ⟨good, others⟩
      obtain ⟨between, ownPaired⟩ := (own bindings).mpr good
      obtain ⟨result, paired⟩ := (@ih between later).mpr others
      refine ⟨result, ?_⟩
      rw [ownPaired]
      exact paired

/-- The rest of a block can be paired if and only if it closes the loops that are open at it and all
blocks inside it are balanced. -/
theorem pairFrom_ok_iff {block : Block} :
    (∃ result, pairFrom index opened bindings block = .ok result) ↔
      Closes (opened.map OpenFor.var) block ∧
        ∀ stmt ∈ block, ∀ part ∈ stmt.blocks, ∀ inner : Block, inner.Within part →
          inner.Balanced := by
  induction size : sizeOf block using Nat.strongRecOn generalizing index opened bindings block with
  | ind _ ih =>
    cases block with
    | nil =>
      rw [pairFrom]
      cases opened with
      | nil => exact iff_of_true ⟨bindings, rfl⟩ ⟨.done, List.forall_mem_nil _⟩
      | cons innermost outer =>
        rw [List.getLast?_cons]
        refine iff_of_false ?_ ?_
        · rintro ⟨result, paired⟩
          cases paired
        · rintro ⟨closes, _⟩
          cases closes
    | cons stmt rest =>
      have size : sizeOf (stmt :: rest) = 1 + sizeOf stmt + sizeOf rest := List.cons.sizeOf_spec _ _
      have blocks (bindings : LoopBindings) :
        (∃ result, stmt.blocks.foldlM (pairFrom 0 []) bindings = .ok result) ↔
            ∀ part ∈ stmt.blocks, ∀ inner : Block, inner.Within part → inner.Balanced := by
        refine foldlM_ok_iff fun part held bindings => ?_
        have smaller := Stmt.sizeOf_lt_of_mem_blocks held
        rw [ih (sizeOf part) (by omega) rfl, List.map_nil, closes_nil_iff,
          ← forall_within_iff]
      have others {opened : List OpenFor} {bindings : LoopBindings} :=
        @ih (sizeOf rest) (by omega) (index + 1) opened bindings rest rfl
      rw [pairFrom_cons, @closes_cons_iff index opened bindings, List.forall_mem_cons]
      constructor
      · rintro ⟨result, paired⟩
        obtain ⟨⟨opened', bindings'⟩, visited, paired⟩ := Results.of_bind paired
        obtain ⟨between, innerPaired, paired⟩ := Results.of_bind paired
        obtain ⟨closes, inside⟩ := others.mp ⟨result, paired⟩
        exact ⟨⟨opened', bindings', visited, closes⟩,
          (blocks bindings').mp ⟨between, innerPaired⟩, inside⟩
      · rintro ⟨⟨opened', bindings', visited, closes⟩, own, inside⟩
        obtain ⟨between, innerPaired⟩ := (blocks bindings').mpr own
        obtain ⟨result, paired⟩ := (@others opened' between).mpr ⟨closes, inside⟩
        refine ⟨result, ?_⟩
        simp only [visited, Bind.bind, Except.bind, innerPaired]
        exact paired

end Pairing

theorem Block.pairing_ok_iff {block : Block} : (∃ bindings, block.pairing = .ok bindings) ↔
      ∀ inner, Block.Inside inner block → inner.Balanced := by
  simp only [Block.inside_iff]
  rw [Block.pairing, Pairing.pairFrom_ok_iff, List.map_nil, Pairing.closes_nil_iff,
    ← Pairing.forall_within_iff]

/-- A pair is that of a `FOR` and the `NEXT` that fits it, by their places in a block, and both have
it for their entry. -/
def LoopBinding.Joins (pair : LoopBinding) (bindings : LoopBindings) (block : Block) : Prop :=
  pair.forIndex < pair.nextIndex ∧ ∃ opening closing var, block[pair.forIndex]? = some opening ∧
      opening.Begins var ∧ block[pair.nextIndex]? = some closing ∧ closing.Ends var ∧
      bindings.get? opening.id = some pair ∧ bindings.get? closing.id = some pair

/-- A table tells the pairs of a block. -/
structure LoopBindings.Tells (bindings : LoopBindings) (block : Block) : Prop where
  /-- Each `FOR` and each `NEXT` has its pair, in which it is the `FOR` or the `NEXT`. -/
  joined : ∀ place stmt, block[place]? = some stmt → stmt.isFor = true ∨ stmt.isNext = true →
    ∃ pair, bindings.get? stmt.id = some pair ∧ pair.Joins bindings block ∧
      (pair.forIndex = place ∨ pair.nextIndex = place)
  /-- Of two loops one lies within the other, or they lie apart. -/
  nested : ∀ first ∈ block, ∀ second ∈ block, ∀ pair other,
    first.isFor = true ∨ first.isNext = true → second.isFor = true ∨ second.isNext = true →
    bindings.get? first.id = some pair → bindings.get? second.id = some other →
    pair.forIndex < other.forIndex →
    pair.nextIndex < other.forIndex ∨ other.nextIndex < pair.nextIndex

theorem Plain.not_loop (plain : Plain) :
    ¬ (plain.stmt.isFor = true ∨ plain.stmt.isNext = true) := by
  unfold Stmt.isFor Stmt.isNext
  rintro (isFor | isNext)
  · split at isFor
    · exact plain.not_opens ‹_›
    · cases isFor
  · split at isNext
    · exact plain.not_closes ‹_›
    · cases isNext

namespace Folded

/-- Every loop of a tree ends with a `NEXT` that fits its `FOR`. -/
def Fits : Folded → Prop
  | done => True
  | plain _ rest => rest.Fits
  | loop opening body closing rest =>
    (∃ var, opening.stmt.Begins var ∧ closing.stmt.Ends var) ∧ body.Fits ∧ rest.Fits

variable {tree body rest : Folded} {opening : Opening} {closing : Closing} {bindings : LoopBindings}
  {start place : Nat} {stmt : Stmt} {pair other : LoopBinding}

theorem getElem?_body (found : body.statements[place]? = some stmt) :
    (loop opening body closing rest).statements[place + 1]? = some stmt := by
  have within : place < body.statements.length := (List.getElem?_eq_some_iff.mp found).1
  rw [statements, List.getElem?_cons_succ, List.getElem?_append_left within]
  exact found

theorem getElem?_rest : (loop opening body closing rest).statements[body.length + 2 + place]? =
    rest.statements[place]? := by
  have behind : body.length + 2 + place = body.statements.length + (place + 1) + 1 := by
    rw [length_statements]
    omega
  rw [statements, behind, List.getElem?_cons_succ,
    List.getElem?_append_right (Nat.le_add_right _ _), Nat.add_sub_cancel_left,
      List.getElem?_cons_succ]

theorem getElem?_closing :
    (loop opening body closing rest).statements[body.length + 1]? = some closing.stmt := by
  rw [statements, List.getElem?_cons_succ, ← length_statements body,
    List.getElem?_append_right (Nat.le_refl _), Nat.sub_self, List.getElem?_cons_zero]

theorem getElem?_cases (found : (loop opening body closing rest).statements[place]? = some stmt) :
    place = 0 ∧ stmt = opening.stmt ∨
      (∃ inner, place = inner + 1 ∧ body.statements[inner]? = some stmt) ∨
      place = body.length + 1 ∧ stmt = closing.stmt ∨
      ∃ later, place = body.length + 2 + later ∧ rest.statements[later]? = some stmt := by
  cases place with
  | zero =>
    cases found
    exact .inl ⟨rfl, rfl⟩
  | succ place =>
    rcases Nat.lt_trichotomy place body.length with inside | rfl | behind
    · rw [statements, List.getElem?_cons_succ,
        List.getElem?_append_left (by simpa using inside)] at found
      exact .inr (.inl ⟨place, rfl, found⟩)
    · rw [getElem?_closing] at found
      cases found
      exact .inr (.inr (.inl ⟨rfl, rfl⟩))
    · obtain ⟨later, rfl⟩ := Nat.exists_eq_add_of_lt behind
      have same : body.length + later + 1 + 1 = body.length + 2 + later := by omega
      rw [same, getElem?_rest] at found
      exact .inr (.inr (.inr ⟨later, same, found⟩))

theorem Paired.exists_mem_pairsFrom (paired : tree.Paired bindings start)
    (found : tree.statements[place]? = some stmt) (loops : stmt.isFor = true ∨ stmt.isNext = true) :
    ∃ pair ∈ tree.pairsFrom start, bindings.get? stmt.id = some pair ∧
      (pair.forIndex = start + place ∨ pair.nextIndex = start + place) := by
  induction tree generalizing start place with
  | done => cases found
  | plain plain rest ih =>
    cases place with
    | zero =>
      cases found
      exact absurd loops plain.not_loop
    | succ place =>
      obtain ⟨pair, among, entry, own⟩ := ih paired found
      exact ⟨pair, among, entry, by omega⟩
  | loop opening body closing rest inBody inRest =>
    obtain ⟨opens, closes, inner, after⟩ := paired
    rcases getElem?_cases
      found with ⟨rfl, rfl⟩ | ⟨place, rfl, deeper⟩ | ⟨rfl, rfl⟩ | ⟨place, rfl, later⟩
    · exact ⟨_, List.mem_cons_self, opens, .inl rfl⟩
    · obtain ⟨pair, among, entry, own⟩ := inBody inner deeper
      exact ⟨pair, List.mem_cons_of_mem _ (List.mem_append_left _ among), entry, by omega⟩
    · refine ⟨_, List.mem_cons_self, closes, .inr ?_⟩
      simp only [pairAt]
      omega
    · obtain ⟨pair, among, entry, own⟩ := inRest after later
      exact ⟨pair, List.mem_cons_of_mem _ (List.mem_append_right _ among), entry, by omega⟩

theorem Paired.joins (paired : tree.Paired bindings start) (fits : tree.Fits)
    (among : pair ∈ tree.pairsFrom start) :
    ∃ first last opening closing var, pair.forIndex = start + first ∧
      pair.nextIndex = start + last ∧ tree.statements[first]? = some opening ∧ opening.Begins var ∧
      tree.statements[last]? = some closing ∧ closing.Ends var ∧
      bindings.get? opening.id = some pair ∧ bindings.get? closing.id = some pair := by
  induction tree generalizing start with
  | done => cases among
  | plain plain rest ih =>
    obtain ⟨first, last, opening, closing, var, begun, ended, opens, begins, closes, ends,
        entries⟩ :=
      ih paired fits among
    exact ⟨first + 1, last + 1, opening, closing, var, by omega, by omega, opens, begins,
      closes, ends, entries⟩
  | loop opening body closing rest inBody inRest =>
    obtain ⟨opens, closes, inner, after⟩ := paired
    obtain ⟨⟨var, begins, ends⟩, fitsInside, fitsBehind⟩ := fits
    rcases List.mem_cons.mp among with rfl | among
    · refine ⟨0, body.length + 1, opening.stmt, closing.stmt, var, rfl, ?_, rfl, begins,
        getElem?_closing, ends, opens, closes⟩
      simp only [pairAt]
      omega
    · rcases List.mem_append.mp among with among | among
      · obtain ⟨first, last, opening, closing, var, begun, ended, opens, begins, closes, ends,
          entries⟩ := inBody inner fitsInside among
        exact ⟨first + 1, last + 1, opening, closing, var, by omega, by omega,
          getElem?_body opens, begins, getElem?_body closes, ends, entries⟩
      · obtain ⟨first, last, opening, closing, var, begun, ended, opens, begins, closes, ends,
          entries⟩ := inRest after fitsBehind among
        exact ⟨body.length + 2 + first, body.length + 2 + last, opening, closing,
          var, by omega, by omega, getElem?_rest.trans opens, begins, getElem?_rest.trans closes,
            ends, entries⟩

theorem forIndex_lt_of_mem_pairsFrom (among : pair ∈ tree.pairsFrom start) :
    pair.forIndex < pair.nextIndex := by
  induction tree generalizing start with
  | done => cases among
  | plain _ rest ih => exact ih among
  | loop _ body _ rest inBody inRest =>
    rcases List.mem_cons.mp among with rfl | among
    · simp only [pairAt]
      omega
    · rcases List.mem_append.mp among with among | among
      · exact inBody among
      · exact inRest among

theorem nested_of_mem_pairsFrom (among : pair ∈ tree.pairsFrom start)
    (also : other ∈ tree.pairsFrom start) (before : pair.forIndex < other.forIndex) :
    pair.nextIndex < other.forIndex ∨ other.nextIndex < pair.nextIndex := by
  induction tree generalizing start with
  | done => cases among
  | plain _ rest ih => exact ih among also
  | loop _ body _ rest inBody inRest =>
    -- The later of the two pairs is in the body or behind the loop; the loop itself begins first.
    rw [pairsFrom, List.mem_cons, List.mem_append] at among also
    rcases also with rfl | also | also
    · have bounds : start ≤ pair.forIndex := by
        rcases among with rfl | among | among
        · exact Nat.le_refl _
        · exact Nat.le_of_succ_le (bounds_of_mem_pairsFrom among).1
        · have bounds := bounds_of_mem_pairsFrom among
          omega
      exact absurd before (Nat.not_lt.mpr bounds)
    · have inside := bounds_of_mem_pairsFrom also
      rcases among with rfl | among | among
      · exact .inr inside.2
      · exact inBody among also
      · have behind := bounds_of_mem_pairsFrom among
        have ordered := forIndex_lt_of_mem_pairsFrom also
        omega
    · have behind := bounds_of_mem_pairsFrom also
      rcases among with rfl | among | among
      · simp only [pairAt]
        omega
      · have inside := bounds_of_mem_pairsFrom among
        omega
      · exact inRest among also

end Folded

namespace Part

variable {stmt : Stmt}

theorem exists_of_plain (notFor : stmt.isFor = false) (notNext : stmt.isNext = false) :
    ∃ other, Part.of stmt = plain other := by
  have own := Part.stmt_of stmt
  cases part : Part.of stmt <;> rw [part] at own <;> subst own
  case plain other => exact ⟨other, rfl⟩
  case opening opened => cases notFor.symm.trans opened.isFor
  case closing closed => cases notNext.symm.trans closed.isNext

theorem exists_of_begins {var : String} (begins : stmt.Begins var) :
    ∃ opened, Part.of stmt = opening opened ∧ opened.stmt.Begins var := by
  have own := Part.stmt_of stmt
  obtain ⟨_, _, _, opens, _⟩ := id begins
  cases part : Part.of stmt <;> rw [part] at own <;> subst own
  case plain other => exact absurd opens other.not_opens
  case opening opened => exact ⟨opened, rfl, begins⟩
  case closing closed => cases opens.symm.trans closed.closes

theorem exists_of_ends {var : String} (ends : stmt.Ends var) :
    ∃ closed, Part.of stmt = closing closed ∧ closed.stmt.Ends var := by
  have own := Part.stmt_of stmt
  obtain ⟨_, closes, _⟩ := id ends
  cases part : Part.of stmt <;> rw [part] at own <;> subst own
  case plain other => exact absurd closes other.not_closes
  case opening opened => cases closes.symm.trans opened.opens
  case closing closed => exact ⟨closed, rfl, ends⟩

end Part

theorem Pairing.Closes.folding {vars : List String} {block : Block} (closes : Closes vars block) :
    ∃ tree pending, block.folding = some (tree, pending) ∧ tree.Fits ∧
      List.Forall₂ (fun var loop => loop.closing.stmt.Ends var ∧ loop.rest.Fits) vars pending := by
  induction closes with
  | done => exact ⟨.done, [], rfl, trivial, .nil⟩
  | plain notFor notNext _ ih =>
    obtain ⟨tree, pending, folds, fits, pendingFits⟩ := ih
    obtain ⟨other, part⟩ := Part.exists_of_plain notFor notNext
    exact ⟨.plain other tree, pending, by rw [Block.folding, folds, part], fits, pendingFits⟩
  | opening begins _ ih =>
    obtain ⟨tree, pending, folds, fits, pendingFits⟩ := ih
    obtain ⟨opened, part, begins⟩ := Part.exists_of_begins begins
    -- The loop that is begun here is the first that the rest of the block closes.
    cases pendingFits with
    | @cons _ inner _ pending ends pendingFits =>
      exact ⟨.loop opened tree inner.closing inner.rest,
        pending, by rw [Block.folding, folds, part], ⟨⟨_, begins, ends.1⟩, fits, ends.2⟩,
          pendingFits⟩
  | closing ends _ ih =>
    obtain ⟨tree, pending, folds, fits, pendingFits⟩ := ih
    obtain ⟨closed, part, ends⟩ := Part.exists_of_ends ends
    exact ⟨.done,
      { closing := closed, rest := tree } :: pending, by rw [Block.folding, folds, part], trivial,
      .cons ⟨ends, fits⟩ pendingFits⟩

theorem Block.Balanced.fits {tree : Folded} {block : Block} (balanced : block.Balanced)
    (folds : block.fold = some tree) : tree.Fits := by
  obtain ⟨other, pending, folding, fits, pendingFits⟩ :=
    (Pairing.closes_nil_iff.mpr balanced).folding
  cases pendingFits
  simp only [fold, folding] at folds
  cases folds
  exact fits

theorem LoopBindings.Pairs.tells {block : Block} {bindings : LoopBindings}
    (pairs : bindings.Pairs block)
    (balanced : block.Balanced) : bindings.Tells block := by
  obtain ⟨tree, folds, paired⟩ := pairs
  have fits := balanced.fits folds
  cases Block.statements_fold folds
  have given {place : Nat} {stmt : Stmt} (found : tree.statements[place]? = some stmt)
      (loops : stmt.isFor = true ∨ stmt.isNext = true) {pair : LoopBinding}
      (entry : bindings.get? stmt.id = some pair) : pair ∈ tree.pairsFrom 0 := by
    obtain ⟨own, among, same, _⟩ := paired.exists_mem_pairsFrom found loops
    cases entry.symm.trans same
    exact among
  refine ⟨fun place stmt found loops => ?_,
    fun first among second also pair other loops alsoLoops entry alsoEntry before => ?_⟩
  · obtain ⟨pair, among, entry, own⟩ := paired.exists_mem_pairsFrom found loops
    obtain ⟨first, last, opening, closing, var, begun, ended, joins⟩ := paired.joins fits among
    rw [Nat.zero_add] at begun ended own
    rw [← begun, ← ended] at joins
    exact ⟨pair, entry,
      ⟨Folded.forIndex_lt_of_mem_pairsFrom among, opening, closing, var, joins⟩, own⟩
  · obtain ⟨place, found⟩ := List.getElem?_of_mem among
    obtain ⟨later, alsoFound⟩ := List.getElem?_of_mem also
    exact Folded.nested_of_mem_pairsFrom (given found loops entry)
      (given alsoFound alsoLoops alsoEntry) before

/-- If the statements of a program have different numbers, its `FOR`s and `NEXT`s can be paired if
and only if each of its blocks is balanced, at any depth. The table then has entries for them and
for no others, and it tells the pairs of each block: the two of a pair have the same entry, which
holds their places, and pairs are nested or lie apart. -/
theorem pairing_exact {block : Block} (different : block.ids.Nodup) :
    ((∃ bindings, block.pairing = .ok bindings) ↔
      ∀ inner, Block.Inside inner block → inner.Balanced) ∧
    ∀ bindings, block.pairing = .ok bindings →
      (∀ id, (bindings.get? id).isSome = true ↔
        ∃ inner stmt, Block.Inside inner block ∧ stmt ∈ inner ∧
          (stmt.isFor = true ∨ stmt.isNext = true) ∧ stmt.id = id) ∧
      ∀ inner, Block.Inside inner block → bindings.Tells inner := by
  refine ⟨Block.pairing_ok_iff, fun bindings paired => ?_⟩
  have achieved : Pairing.Achieved 0 [] .empty block bindings :=
    Pairing.achieved_of_pairFrom different List.nodup_nil nofun paired
  have tells (inner : Block) (inside : inner.Inside block) : bindings.Tells inner :=
    (achieved.pairs (Block.inside_iff.mp inside)).tells
      (Block.pairing_ok_iff.mp ⟨bindings, paired⟩ inner inside)
  refine ⟨fun id => ⟨fun known => ?_, ?_⟩, tells⟩
  · by_contra missed
    have unchanged := achieved.kept id (fun has => ?_) nofun
    · rw [unchanged] at known
      cases known
    · obtain ⟨inner, stmt, within, has⟩ := has
      exact missed ⟨inner, stmt, Block.inside_iff.mpr within, has⟩
  · rintro ⟨inner, stmt, inside, among, loops, rfl⟩
    obtain ⟨place, found⟩ := List.getElem?_of_mem among
    obtain ⟨pair, entry, _⟩ := (tells inner inside).joined place stmt found loops
    rw [entry, Option.isSome_some]

/-- Two loops within another, one of them in a body of its own. -/
def guardedLoops : Program :=
  .ofSource ("FOR I% = 1 TO 2\nTRY\nFOR K = 3 TO 1 STEP -1\nNEXT\nCATCH E\nEND TRY\n" ++
      "FOR J = 1 TO 2\nNEXT J\nNEXT I")

/-- All blocks of a program with a loop in a `TRY` are balanced, and its table tells the pairs. -/
theorem pairing_exact_guarded :
    guardedLoops.statements.ids.Nodup ∧ guardedLoops.statements.length = 5 ∧
      (∀ inner, Block.Inside inner guardedLoops.statements → inner.Balanced) ∧
      (∀ inner, Block.Inside inner guardedLoops.statements →
        guardedLoops.bindings.Tells inner) := by
  have parsed : guardedLoops.IsParsed := Program.isParsed_ofSource (by decide +kernel)
  obtain ⟨different, paired⟩ := parsed.pairing
  obtain ⟨balanced, tells⟩ := pairing_exact different
  exact ⟨different, by decide +kernel, balanced.mp ⟨_, paired⟩, (tells _ paired).2⟩

end MicroBasic
