import MicroBasic.Ast.Stmt

/-!
# Blocks as trees of loops

A block in which `FOR` and `NEXT` pair like brackets is a tree: a sequence of statements in which
each `FOR` stands together with the statements up to its `NEXT` as one loop. A place of the block is
a place in the tree, within the loops around it.
-/

namespace MicroBasic

/-- Whether a place lies within a loop: behind its `FOR`, and not behind its `NEXT`. -/
def LoopBinding.surrounds (pair : LoopBinding) (place : Nat) : Bool :=
  pair.forIndex < place && place ≤ pair.nextIndex

theorem LoopBinding.surrounds_iff {place : Nat} {pair : LoopBinding} :
    pair.surrounds place = true ↔ pair.forIndex < place ∧ place ≤ pair.nextIndex := by
  simp [surrounds]

/-- A statement that begins a loop. -/
structure Opening where
  stmt : Stmt
  var : String
  start : Expr
  limit : Expr
  step : Option Expr
  opens : stmt.kind = .openFor var start limit step

/-- A statement that ends the rounds of a loop. -/
structure Closing where
  stmt : Stmt
  name : Option String
  closes : stmt.kind = .next name

/-- The `FOR` that a statement is, if it is one. -/
def Stmt.opening? (stmt : Stmt) : Option Opening :=
  match opens : stmt.kind with
  | .openFor var start limit step => some { stmt, var, start, limit, step, opens }
  | _ => none

/-- The `NEXT` that a statement is, if it is one. -/
def Stmt.closing? (stmt : Stmt) : Option Closing :=
  match closes : stmt.kind with
  | .next name => some { stmt, name, closes }
  | _ => none

/-- A statement that neither begins a loop nor ends one. -/
structure Plain where
  stmt : Stmt
  opensNone : stmt.opening? = none
  closesNone : stmt.closing? = none

namespace Plain

theorem not_opens {var : String} {start limit : Expr} {step : Option Expr} (plain : Plain) :
    plain.stmt.kind ≠ .openFor var start limit step := by
  intro opens
  have keeps := plain.opensNone
  unfold Stmt.opening? at keeps
  split at keeps
  · cases keeps
  · next other =>
    exact other _ _ _ _ opens

theorem not_closes {name : Option String} (plain : Plain) : plain.stmt.kind ≠ .next name := by
  intro closes
  have keeps := plain.closesNone
  unfold Stmt.closing? at keeps
  split at keeps
  · cases keeps
  · next other =>
    exact other _ closes

end Plain

/-- What a statement is to the loops of its block. -/
inductive Part where
  | opening (opening : Opening)
  | closing (closing : Closing)
  | plain (stmt : Plain)

namespace Part

/-- Which part of a block a statement is. -/
def of (stmt : Stmt) : Part :=
  match opensNone : stmt.opening? with
  | some opened => opening opened
  | none =>
    match closesNone : stmt.closing? with
    | some closed => closing closed
    | none => plain { stmt, opensNone, closesNone }

/-- The statement that a part of a block is. -/
def stmt : Part → Stmt
  | opening opened => opened.stmt
  | closing closed => closed.stmt
  | plain stmt => stmt.stmt

end Part

namespace Stmt

theorem stmt_of_opening? {opened : Opening} {stmt : Stmt} (opens : stmt.opening? = some opened) :
    opened.stmt = stmt := by
  unfold opening? at opens
  split at opens
  · cases opens
    rfl
  · cases opens

theorem stmt_of_closing? {closed : Closing} {stmt : Stmt} (closes : stmt.closing? = some closed) :
    closed.stmt = stmt := by
  unfold closing? at closes
  split at closes
  · cases closes
    rfl
  · cases closes

end Stmt

@[simp] theorem Part.stmt_of (stmt : Stmt) : (Part.of stmt).stmt = stmt := by
  unfold of
  split
  · next opens =>
    exact Stmt.stmt_of_opening? opens
  · split
    · next closes =>
      exact Stmt.stmt_of_closing? closes
    · rfl

/-- A block as a tree of loops. -/
inductive Folded where
  | done
  | plain (stmt : Plain) (rest : Folded)
  | loop (opening : Opening) (body : Folded) (closing : Closing) (rest : Folded)

namespace Folded

/-- The statements of a tree, in the order of the block. -/
def statements : Folded → Block
  | done => []
  | plain stmt rest => stmt.stmt :: rest.statements
  | loop opening body closing rest =>
    opening.stmt :: (body.statements ++ closing.stmt :: rest.statements)

/-- The number of statements of a tree. -/
def length : Folded → Nat
  | done => 0
  | plain _ rest => rest.length + 1
  | loop _ body _ rest => body.length + rest.length + 2

@[simp] theorem length_statements (tree : Folded) : tree.statements.length = tree.length := by
  induction tree with
  | done => rfl
  | plain _ rest ih => simp [statements, length, ih]
  | loop _ body _ rest inBody inRest =>
    simp only [statements, length, List.length_cons, List.length_append, inBody, inRest]
    omega

/-- The pair of the loop with a body that begins at a place. -/
def pairAt (start : Nat) (body : Folded) : LoopBinding where
  forIndex := start
  nextIndex := start + 1 + body.length

/-- The pairs of the loops of a tree that begins at a place of its block, by where they begin. -/
def pairsFrom : Nat → Folded → List LoopBinding
  | _, done => []
  | start, plain _ rest => pairsFrom (start + 1) rest
  | start, loop _ body _ rest =>
    pairAt start body :: (pairsFrom (start + 1) body ++ pairsFrom (start + body.length + 2) rest)

theorem bounds_of_mem_pairsFrom {start : Nat} {pair : LoopBinding} {tree : Folded}
    (found : pair ∈ tree.pairsFrom start) :
    start ≤ pair.forIndex ∧ pair.nextIndex < start + tree.length := by
  induction tree generalizing start with
  | done => cases found
  | plain _ rest ih =>
    have bounds := ih found
    simp only [length]
    omega
  | loop _ body _ rest inBody inRest =>
    simp only [length]
    rcases List.mem_cons.mp found with rfl | inner
    · simp only [pairAt]
      omega
    · rcases List.mem_append.mp inner with inner | inner
      · have bounds := inBody inner
        omega
      · have bounds := inRest inner
        omega

theorem filter_of_before {place start : Nat} {tree : Folded} (before : place ≤ start) :
    (tree.pairsFrom start).filter (fun pair => pair.surrounds place) = [] := by
  rw [List.filter_eq_nil_iff]
  intro pair found
  have bounds := bounds_of_mem_pairsFrom found
  rw [LoopBinding.surrounds_iff]
  omega

theorem filter_of_behind {start place : Nat} {tree : Folded}
    (behind : start + tree.length ≤ place) :
    (tree.pairsFrom start).filter (fun pair => pair.surrounds place) = [] := by
  rw [List.filter_eq_nil_iff]
  intro pair found
  have bounds := bounds_of_mem_pairsFrom found
  rw [LoopBinding.surrounds_iff]
  omega

end Folded

/-- A loop that is left open to the right of where a block is folded: its end, and what follows. -/
structure Pending where
  closing : Closing
  rest : Folded

/-- The tree of the statements at the beginning of a block up to the first `NEXT` whose `FOR` is not
among them, and what follows that: one end of a loop after another. There is none if a `FOR` has no
`NEXT`. -/
def Block.folding : Block → Option (Folded × List Pending)
  | [] => some (.done, [])
  | stmt :: rest =>
    match folding rest, Part.of stmt with
    | none, _ => none
    | some (tree, pending), .plain stmt => some (.plain stmt tree, pending)
    | some (tree, pending), .closing closing => some (.done, { closing, rest := tree } :: pending)
    | some (tree, inner :: pending), .opening opening =>
      some (.loop opening tree inner.closing inner.rest, pending)
    | some (_, []), .opening _ => none

/-- The tree that a block is, if its loops pair. -/
def Block.fold (block : Block) : Option Folded :=
  match block.folding with
  | some (tree, []) => some tree
  | _ => none

/-- The statements from the ends of some open loops on. -/
def Pending.statements (pending : List Pending) : Block :=
  pending.flatMap (fun loop => loop.closing.stmt :: loop.rest.statements)

namespace Block

theorem statements_folding {tree : Folded} {pending : List Pending} {block : Block}
    (folds : block.folding = some (tree, pending)) :
    block = tree.statements ++ Pending.statements pending := by
  induction block generalizing tree pending with
  | nil =>
    cases folds
    rfl
  | cons stmt rest ih =>
    have own : (Part.of stmt).stmt = stmt := Part.stmt_of stmt
    unfold folding at folds
    split at folds
    · cases folds
    · next folded part =>
      cases folds
      rw [part] at own
      rw [ih folded, ← own]
      rfl
    · next folded part =>
      cases folds
      rw [part] at own
      rw [ih folded, ← own]
      rfl
    · next folded part =>
      cases folds
      rw [part] at own
      rw [ih folded, ← own]
      simp [Pending.statements, Part.stmt, Folded.statements]
    · cases folds

theorem statements_fold {tree : Folded} {block : Block} (folds : block.fold = some tree) :
    block = tree.statements := by
  unfold fold at folds
  split at folds
  · next folded =>
    cases folds
    simpa [Pending.statements] using statements_folding folded
  · cases folds

/-- The pairs of the loops of a block. -/
def pairs (block : Block) : List LoopBinding :=
  match block.fold with
  | some tree => tree.pairsFrom 0
  | none => []

/-- The pairs of the loops around a place of a block, outermost first. -/
def pairsAround (block : Block) (place : Nat) : List LoopBinding :=
  block.pairs.filter (fun pair => pair.surrounds place)

end Block

/-- A loop around a place: its pair, its body, its end, and what follows that. -/
structure Enclosing extends Pending where
  body : Folded
  binding : LoopBinding

/-- A tree stands at a place of the tree of a block, within some loops, innermost first. -/
inductive Folded.At (root : Folded) : Nat → Folded → List Enclosing → Prop
  | root : At root 0 root []
  | plain {place : Nat} {stmt : Plain} {rest : Folded} {around : List Enclosing}
    (found : At root place (.plain stmt rest) around) : At root (place + 1) rest around
  | body {place : Nat} {opening : Opening} {body : Folded} {closing : Closing} {rest : Folded}
    {around : List Enclosing} (found : At root place (.loop opening body closing rest) around) :
    At root (place + 1) body ({ closing, rest, body, binding := pairAt place body } :: around)
  | rest {place : Nat} {opening : Opening} {body : Folded} {closing : Closing} {rest : Folded}
    {around : List Enclosing} (found : At root place (.loop opening body closing rest) around) :
    At root (place + body.length + 2) rest around

namespace Folded.At

variable {root tree : Folded} {place : Nat} {around outer : List Enclosing} {loop : Enclosing}

section

variable (found : root.At place tree around)

include found

theorem drop_statements : root.statements.drop place =
      tree.statements ++ Pending.statements (around.map Enclosing.toPending) := by
  induction found with
  | root => simp [Pending.statements]
  | plain _ ih =>
    rw [← List.drop_drop, ih]
    rfl
  | body _ ih =>
    rw [← List.drop_drop, ih]
    simp [statements, Pending.statements]
  | @rest _ _ body _ _ _ _ ih =>
    have next : (body.statements.length + 2) = (body.statements.length + 1) + 1 := rfl
    rw [Nat.add_assoc, ← List.drop_drop, ih, ← body.length_statements, next]
    simp only [statements, List.cons_append, List.append_assoc, List.drop_succ_cons,
      List.drop_length_add_append, List.drop_zero]

theorem getElem?_statements : root.statements[place]? =
      (tree.statements ++ Pending.statements (around.map Enclosing.toPending)).head? := by
  rw [← found.drop_statements, List.head?_drop]

theorem last : root.At (place + tree.length) .done around := by
  induction tree generalizing place around with
  | done => exact found
  | plain stmt rest ih =>
    have after := ih found.plain
    rwa [Nat.add_assoc, Nat.add_comm 1] at after
  | loop opening body closing rest inBody inRest =>
    have after := inRest found.rest
    have same :
        place + body.length + 2 + rest.length = place + (body.length + rest.length + 2) := by
      omega
    rwa [same] at after

theorem forIndex_lt : ∀ loop ∈ around, loop.binding.forIndex < place := by
  induction found with
  | root => exact nofun
  | plain _ ih =>
    exact fun loop among => Nat.lt_succ_of_lt (ih loop among)
  | body _ ih =>
    intro loop among
    rcases List.mem_cons.mp among with rfl | among
    · exact Nat.lt_succ_self _
    · exact Nat.lt_succ_of_lt (ih loop among)
  | rest _ ih =>
    intro loop among
    have before := ih loop among
    omega

/-- The pairs of a block are those before a tree in it, those of the tree, and those behind it. Of
the former, the loops around the tree are those that surround a place of the tree; of the latter,
none do. -/
theorem split_pairs :
    ∃ before after, root.pairsFrom 0 = before ++ tree.pairsFrom place ++ after ∧
      ∀ within, place ≤ within → within ≤ place + tree.length →
        before.filter (fun pair => pair.surrounds within) =
            (around.map Enclosing.binding).reverse ∧
          after.filter (fun pair => pair.surrounds within) = [] := by
  induction found with
  | root => exact ⟨[], [], by simp, fun _ _ _ => ⟨rfl, rfl⟩⟩
  | plain _ ih =>
    obtain ⟨before, after, whole, spans⟩ := ih
    refine ⟨before, after, whole, fun within low high => spans within (by omega) ?_⟩
    simp only [length]
    omega
  | @body start _ body _ rest around _ ih =>
    obtain ⟨before, after, whole, spans⟩ := ih
    refine ⟨before ++ [pairAt start body], rest.pairsFrom (start + body.length + 2) ++ after, ?_,
      fun within low high => ?_⟩
    · rw [whole]
      simp [pairsFrom]
    · simp only [length] at spans
      obtain ⟨outside, behind⟩ := spans within (by omega) (by omega)
      have own : (pairAt start body).surrounds within = true := by
        rw [LoopBinding.surrounds_iff]
        simp only [pairAt]
        omega
      have later : (rest.pairsFrom (start + body.length + 2)).filter
          (fun pair => pair.surrounds within) = [] :=
        filter_of_before (by omega)
      simp [outside, behind, own, later]
  | @rest start _ body _ rest around _ ih =>
    obtain ⟨before, after, whole, spans⟩ := ih
    refine ⟨before ++ pairAt start body :: body.pairsFrom (start + 1), after, ?_,
      fun within low high => ?_⟩
    · rw [whole]
      simp [pairsFrom]
    · simp only [length] at spans
      obtain ⟨outside, behind⟩ := spans within (by omega) (by omega)
      have own : ¬ (pairAt start body).surrounds within = true := by
        rw [LoopBinding.surrounds_iff]
        simp only [pairAt]
        omega
      have earlier : (body.pairsFrom (start + 1)).filter (fun pair => pair.surrounds within) = [] :=
        filter_of_behind (by omega)
      simp [outside, behind, own, earlier]

theorem pairs_around :
    (root.pairsFrom 0).filter (fun pair => pair.surrounds place) =
      (around.map Enclosing.binding).reverse := by
  obtain ⟨before, after, whole, spans⟩ := found.split_pairs
  obtain ⟨outside, behind⟩ := spans place (Nat.le_refl _) (Nat.le_add_right _ _)
  have own : (tree.pairsFrom place).filter (fun pair => pair.surrounds place) = [] :=
    filter_of_before (Nat.le_refl _)
  simp [whole, outside, behind, own]

end

variable (found : root.At place tree (loop :: outer))

include found

theorem again :
    root.At (loop.binding.forIndex + 1) loop.body (loop :: outer) := by
  generalize within : loop :: outer = around at found
  induction found with
  | root => cases within
  | plain _ ih => exact ih within
  | body found _ =>
    cases within
    exact found.body
  | rest _ ih => exact ih within

theorem nextIndex_eq : loop.binding.nextIndex = place + tree.length := by
  generalize within : loop :: outer = around at found
  induction found with
  | root => cases within
  | plain _ ih =>
    rw [ih within]
    simp only [length]
    omega
  | body _ _ =>
    cases within
    rfl
  | rest _ ih =>
    rw [ih within]
    simp only [length]
    omega

theorem next : root.At loop.binding.nextIndex .done (loop :: outer) :=
  found.nextIndex_eq ▸ found.last

theorem leave : root.At (loop.binding.nextIndex + 1) loop.rest outer := by
  generalize within : loop :: outer = around at found
  induction found with
  | root => cases within
  | plain _ ih => exact ih within
  | @body place _ body _ _ _ found _ =>
    cases within
    have same : place + body.length + 2 = place + 1 + body.length + 1 := by omega
    exact same ▸ found.rest
  | rest _ ih => exact ih within

end Folded.At

end MicroBasic
