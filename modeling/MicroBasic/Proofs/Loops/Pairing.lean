import MicroBasic.Proofs.Loops.Folding
import MicroBasic.Proofs.Parsing.Constructs
import MicroBasic.Proofs.Results

/-!
# The pairs of a parsed program

The table of a program whose statements have different numbers holds, for every `FOR` and every
`NEXT` of every block in it, the pair of places that the tree of the block gives the loop. Because
numbers are not given twice, an entry that was made for one block is not lost to another. A parsed
program is of this kind.
-/

namespace MicroBasic

/-- One block is another, or lies in one of its statements at any depth. -/
inductive Block.Within : Block → Block → Prop
  | self {block : Block} : Within block block
  | inner {block part outer : Block} {stmt : Stmt} (deeper : Within block part)
    (held : part ∈ stmt.blocks) (among : stmt ∈ outer) : Within block outer

variable {block outer : Block} {stmt : Stmt} {bindings : LoopBindings} {first next : Nat}
    {program : Program}

theorem Block.Within.step {part : Block} (within : block.Within outer)
    (among : stmt ∈ block) (held : part ∈ stmt.blocks) : part.Within outer := by
  induction within with
  | self => exact .inner .self held among
  | inner _ inside around ih => exact .inner ih inside around

theorem LoopBindings.get?_insert {pair : LoopBinding} {id other : Nat} :
    (bindings.insert id pair).get? other = if other =
      id then some pair else bindings.get? other := by
  unfold insert get?
  rw [List.lookup_cons]
  by_cases same : other = id
  · simp [same]
  · simp [same, beq_false_of_ne same]

/-- A table holds the pairs of the loops of a tree that begins at a place of its block. -/
def Folded.Paired (bindings : LoopBindings) : Nat → Folded → Prop
  | _, done => True
  | start, plain _ rest => rest.Paired bindings (start + 1)
  | start, loop opening body closing rest =>
    bindings.get? opening.stmt.id = some (pairAt start body) ∧
    bindings.get? closing.stmt.id = some (pairAt start body) ∧
    body.Paired bindings (start + 1) ∧ rest.Paired bindings (start + body.length + 2)

/-- A table holds the pairs of the loops that are open at a place, innermost first: the next
statement is the end of the innermost. -/
def Pending.Paired (bindings : LoopBindings) : Nat → List Pairing.OpenFor → List Pending → Prop
  | _, [], [] => True
  | place, opened :: outer, pending :: others =>
    bindings.get? opened.id = some { forIndex := opened.index, nextIndex := place } ∧
    bindings.get? pending.closing.stmt.id = some { forIndex := opened.index, nextIndex := place } ∧
    pending.rest.Paired bindings (place + 1) ∧
    Pending.Paired bindings (place + 1 + pending.rest.length) outer others
  | _, _, _ => False

/-- A table pairs a block: the block is a tree whose loops have their pairs in it. -/
def LoopBindings.Pairs (bindings : LoopBindings) (block : Block) : Prop :=
  ∃ tree, block.fold = some tree ∧ tree.Paired bindings 0

theorem Folded.Paired.congr {start : Nat} {other : LoopBindings} {tree : Folded}
    (same : ∀ stmt ∈ tree.statements, other.get? stmt.id = bindings.get? stmt.id)
    (paired : tree.Paired bindings start) : tree.Paired other start := by
  induction tree generalizing start with
  | done => trivial
  | plain stmt rest ih =>
    exact ih (fun stmt among => same stmt (List.mem_cons_of_mem _ among)) paired
  | loop opening body closing rest inBody inRest =>
    obtain ⟨opens, closes, inner, after⟩ := paired
    simp only [statements, List.mem_cons, List.mem_append] at same
    refine ⟨?_, ?_, ?_, ?_⟩
    · rw [same opening.stmt (.inl rfl)]
      exact opens
    · rw [same closing.stmt (.inr (.inr (.inl rfl)))]
      exact closes
    · exact inBody (fun stmt among => same stmt (.inr (.inl among))) inner
    · exact inRest (fun stmt among => same stmt (.inr (.inr (.inr among)))) after

theorem Folded.Paired.at {place : Nat} {around : List Enclosing} {root tree : Folded}
    (paired : root.Paired bindings 0) (found : root.At place tree around) :
    tree.Paired bindings place ∧
      ∀ loop ∈ around, bindings.get? loop.closing.stmt.id = some loop.binding := by
  induction found with
  | root => exact ⟨paired, nofun⟩
  | plain _ ih => exact ih
  | body _ ih =>
    obtain ⟨⟨_, closes, inner, _⟩, outer⟩ := ih
    exact ⟨inner, List.forall_mem_cons.mpr ⟨closes, outer⟩⟩
  | rest _ ih =>
    obtain ⟨⟨_, _, _, after⟩, outer⟩ := ih
    exact ⟨after, outer⟩

theorem LoopBindings.Pairs.congr {other : LoopBindings}
    (same : ∀ stmt ∈ block, other.get? stmt.id = bindings.get? stmt.id)
    (pairs : bindings.Pairs block) : other.Pairs block := by
  obtain ⟨tree, folds, paired⟩ := pairs
  rw [Block.statements_fold folds] at same
  exact ⟨tree, folds, paired.congr same⟩

/-- The numbers of the statements of a block and of those inside them. -/
def Block.ids (block : Block) : List Nat :=
  match block with
  | [] => []
  | stmt :: rest =>
    stmt.id :: (stmt.blocks.attach.flatMap (fun inner =>
      have := Stmt.sizeOf_lt_of_mem_blocks inner.property
      Block.ids inner.val) ++ Block.ids rest)
termination_by sizeOf block

theorem Block.ids_cons (stmt : Stmt) (rest : Block) :
    Block.ids (stmt :: rest) = stmt.id :: (stmt.blocks.flatMap Block.ids ++ Block.ids rest) := by
  have attached : stmt.blocks.attach.flatMap (fun inner => Block.ids inner.val) =
      stmt.blocks.flatMap Block.ids := by
    rw [← List.flatMap_map, List.attach_map_subtype_val]
  rw [Block.ids, attached]

theorem Block.Within.mem_ids (within : block.Within outer) {id : Nat} (own : id ∈ block.ids) :
    id ∈ outer.ids := by
  induction within with
  | self => exact own
  | @inner part outer stmt deeper held among ih =>
    induction outer with
    | nil => cases among
    | cons head rest later =>
      rw [Block.ids_cons, List.mem_cons, List.mem_append, List.mem_flatMap]
      rcases List.mem_cons.mp among with rfl | among
      · exact .inr (.inl ⟨part, held, ih⟩)
      · exact .inr (.inr (later among))

theorem Block.id_mem_ids (among : stmt ∈ block) : stmt.id ∈ block.ids := by
  induction block with
  | nil => cases among
  | cons head rest ih =>
    rw [Block.ids_cons, List.mem_cons, List.mem_append]
    rcases List.mem_cons.mp among with rfl | among
    · exact .inl rfl
    · exact .inr (.inr (ih among))

theorem Numbered.ids {known : Token → Prop} {blocks : List Block}
    (numbered : Numbered known first blocks next) :
    (∀ id ∈ blocks.flatMap Block.ids, first ≤ id ∧ id < next) ∧
      (blocks.flatMap Block.ids).Nodup := by
  induction numbered with
  | nil => exact ⟨nofun, List.nodup_nil⟩
  | skip _ ih =>
    rw [List.flatMap_cons, Block.ids, List.nil_append]
    exact ih
  | @cons first next stmt rest blocks _ inner others inInner inOthers =>
    have low := inner.le
    have high := others.le
    rw [List.flatMap_cons] at inOthers
    rw [List.flatMap_cons, Block.ids_cons, List.cons_append, List.append_assoc]
    constructor
    · intro id among
      rcases List.mem_cons.mp among with rfl | among
      · omega
      · rcases List.mem_append.mp among with among | among
        · have bounds := inInner.1 id among
          omega
        · have bounds := inOthers.1 id among
          omega
    · refine List.nodup_cons.mpr
        ⟨fun among => ?_, List.nodup_append.mpr ⟨inInner.2, inOthers.2, ?_⟩⟩
      · rcases List.mem_append.mp among with among | among
        · exact Nat.lt_irrefl _ (inInner.1 _ among).2
        · exact Nat.not_succ_le_self _ (inOthers.1 _ among).1
      · intro id before other after same
        have below := (inInner.1 id before).2
        have above := (inOthers.1 other after).1
        omega

theorem Numbered.bounds {known : Token → Prop} {blocks : List Block}
    (numbered : Numbered known first blocks next) (among : outer ∈ blocks)
    (within : block.Within outer) (own : stmt ∈ block) : first ≤ stmt.id ∧ stmt.id < next :=
  numbered.ids.1 stmt.id
    (List.mem_flatMap.mpr ⟨outer, among, within.mem_ids (Block.id_mem_ids own)⟩)

theorem Numbered.sound {known : Token → Prop} {blocks : List Block}
    (numbered : Numbered known first blocks next) (among : outer ∈ blocks)
    (within : block.Within outer) (own : stmt ∈ block) : stmt.Sound known := by
  induction numbered generalizing outer block stmt with
  | nil => cases among
  | skip _ ih =>
    rcases List.mem_cons.mp among with rfl | among
    · cases within with
      | self => cases own
      | inner _ _ holds => cases holds
    · exact ih among within own
  | cons sound _ _ inInner inOthers =>
    rcases List.mem_cons.mp among with rfl | among
    · cases within with
      | self =>
        rcases List.mem_cons.mp own with rfl | own
        · exact sound
        · exact inOthers List.mem_cons_self .self own
      | inner deeper held holds =>
        rcases List.mem_cons.mp holds with rfl | holds
        · exact inInner held deeper own
        · exact inOthers List.mem_cons_self (.inner deeper held holds) own
    · exact inOthers (List.mem_cons_of_mem _ among) within own

/-- Whether a statement is a `FOR`. -/
def Stmt.isFor (stmt : Stmt) : Bool :=
  match stmt.kind with
  | .openFor _ _ _ _ => true
  | _ => false

/-- Whether a statement is a `NEXT`. -/
def Stmt.isNext (stmt : Stmt) : Bool :=
  match stmt.kind with
  | .next _ => true
  | _ => false

theorem Opening.isFor (opening : Opening) : opening.stmt.isFor = true := by
  unfold Stmt.isFor
  rw [opening.opens]

theorem Closing.isNext (closing : Closing) : closing.stmt.isNext = true := by
  unfold Stmt.isNext
  rw [closing.closes]

/-- A number is that of a `FOR` or a `NEXT` of a block or of one inside it. -/
def Block.HasLoop (block : Block) (id : Nat) : Prop :=
  ∃ inner stmt, Block.Within inner block ∧ stmt ∈ inner ∧ (stmt.isFor = true ∨ stmt.isNext = true) ∧
    stmt.id = id

namespace Block.HasLoop

variable {stmt : Stmt} {rest part : Block} {id : Nat}

theorem mem_ids (has : block.HasLoop id) : id ∈ block.ids := by
  obtain ⟨inner, stmt, within, own, _, rfl⟩ := has
  exact within.mem_ids (id_mem_ids own)

theorem head (loops : stmt.isFor = true ∨ stmt.isNext = true) :
    Block.HasLoop (stmt :: rest) stmt.id :=
  ⟨stmt :: rest, stmt, .self, List.mem_cons_self, loops, rfl⟩

theorem inner (held : part ∈ stmt.blocks) (has : part.HasLoop id) :
    Block.HasLoop (stmt :: rest) id := by
  obtain ⟨inner, other, within, own⟩ := has
  exact ⟨inner, other, .inner within held List.mem_cons_self, own⟩

theorem tail (has : rest.HasLoop id) : Block.HasLoop (stmt :: rest) id := by
  obtain ⟨inner, other, within, own, loops⟩ := has
  cases within with
  | self => exact ⟨stmt :: rest, other, .self, List.mem_cons_of_mem _ own, loops⟩
  | inner deeper held among =>
    exact ⟨inner, other, .inner deeper held (List.mem_cons_of_mem _ among), own, loops⟩

end Block.HasLoop

namespace Pairing

variable {first next index : Nat} {opened : List OpenFor} {bindings result : LoopBindings}
  {block : Block} {stmt : Stmt} {opened' : List OpenFor} {bindings' : LoopBindings}

section

variable {rest : Block} (visited : visit index stmt opened bindings = .ok (opened', bindings'))

include visited

theorem visit_cases :
    (∃ opening, Part.of stmt = .opening opening ∧ bindings' = bindings ∧
      opened' = { var := opening.var, index, id := stmt.id, token := stmt.token } :: opened) ∨
    (∃ closing innermost, Part.of stmt = .closing closing ∧ opened = innermost :: opened' ∧
      bindings' = bind bindings innermost stmt.id index) ∨
    (∃ plain, Part.of stmt = .plain plain ∧ opened' = opened ∧ bindings' = bindings) := by
  have own : (Part.of stmt).stmt = stmt := Part.stmt_of stmt
  unfold visit at visited
  cases part : Part.of stmt with
  | opening opening =>
    rw [part] at own
    have opens := opening.opens
    rw [show opening.stmt = stmt from own] at opens
    simp only [opens] at visited
    split at visited
    · cases visited
    · cases visited
      exact .inl ⟨opening, rfl, rfl, rfl⟩
  | closing closing =>
    rw [part] at own
    have closes := closing.closes
    rw [show closing.stmt = stmt from own] at closes
    simp only [closes] at visited
    split at visited
    · cases visited
    · split at visited
      · split at visited
        · cases visited
          exact .inr (.inl ⟨closing, _, rfl, rfl, rfl⟩)
        · cases visited
      · cases visited
        exact .inr (.inl ⟨closing, _, rfl, rfl, rfl⟩)
  | plain plain =>
    rw [part] at own
    have own : plain.stmt = stmt := own
    split at visited
    · next opens =>
      exact absurd (own ▸ opens) plain.not_opens
    · next closes =>
      exact absurd (own ▸ closes) plain.not_closes
    · cases visited
      exact .inr (.inr ⟨plain, rfl, rfl, rfl⟩)

/-- A statement opens no loop but its own. It makes entries for open loops and for itself only, and
only if it is a `FOR` or a `NEXT`. -/
theorem visit_kept :
    (∀ loop ∈ opened', loop.id = stmt.id ∧ stmt.isFor = true ∨ loop ∈ opened) ∧
      ∀ id, (stmt.isNext = true → id ≠ stmt.id) → (∀ loop ∈ opened, loop.id ≠ id) →
        bindings'.get? id = bindings.get? id := by
  have own : (Part.of stmt).stmt = stmt := Part.stmt_of stmt
  rcases visit_cases visited with ⟨opening, part, rfl, rfl⟩ | ⟨closing, innermost, part, rfl, rfl⟩ |
    ⟨plain, _, rfl, rfl⟩
  · refine ⟨fun loop among => ?_, fun _ _ _ => rfl⟩
    rcases List.mem_cons.mp among with rfl | among
    · rw [part] at own
      exact .inl ⟨rfl, own ▸ opening.isFor⟩
    · exact .inr among
  · refine ⟨fun loop among => .inr (List.mem_cons_of_mem _ among), fun id other apart => ?_⟩
    rw [part] at own
    have other := other (own ▸ closing.isNext)
    have apart := apart innermost List.mem_cons_self
    simp only [bind, LoopBindings.get?_insert, if_neg other, if_neg apart.symm]
  · exact ⟨fun loop among => .inr among, fun _ _ _ => rfl⟩

theorem visit_fresh (different : (Block.ids (stmt :: rest)).Nodup)
    (distinct : (opened.map OpenFor.id).Nodup)
    (fresh : ∀ loop ∈ opened, loop.id ∉ Block.ids (stmt :: rest)) :
    (opened'.map OpenFor.id).Nodup ∧ ∀ loop ∈ opened', loop.id ∉ rest.ids := by
  rw [Block.ids_cons] at different fresh
  have later (id : Nat) (among : id ∈ rest.ids) :
      id ∈ stmt.id :: (stmt.blocks.flatMap Block.ids ++ rest.ids) :=
    List.mem_cons_of_mem _ (List.mem_append_right _ among)
  constructor
  · rcases visit_cases
      visited with ⟨opening, _, _, rfl⟩ | ⟨closing, innermost, _, rfl, _⟩ | ⟨plain, _, rfl, _⟩
    · refine List.nodup_cons.mpr ⟨fun among => ?_, distinct⟩
      obtain ⟨loop, among, same⟩ := List.mem_map.mp among
      exact fresh loop among (same ▸ List.mem_cons_self)
    · exact (List.nodup_cons.mp distinct).2
    · exact distinct
  · intro loop among behind
    rcases (visit_kept visited).1 loop among with ⟨own, _⟩ | among
    · rw [own] at behind
      exact (List.nodup_cons.mp different).1 (List.mem_append_right _ behind)
    · exact fresh loop among (later _ behind)

theorem folds_cons
    (folds : ∃ tree pending, rest.folding = some (tree, pending) ∧ tree.Paired result (index + 1) ∧
      Pending.Paired result (index + 1 + tree.length) opened' pending)
    (closed : ∀ innermost outer, opened = innermost :: outer →
      bindings' = bind bindings innermost stmt.id index → opened' = outer →
      result.get? innermost.id = some { forIndex := innermost.index, nextIndex := index } ∧
        result.get? stmt.id = some { forIndex := innermost.index, nextIndex := index }) :
    ∃ tree pending, Block.folding (stmt :: rest) = some (tree, pending) ∧
      tree.Paired result index ∧ Pending.Paired result (index + tree.length) opened pending := by
  obtain ⟨tree, pending, folds, paired, others⟩ := folds
  have own : (Part.of stmt).stmt = stmt := Part.stmt_of stmt
  rcases visit_cases
    visited with ⟨opening, part, _, rfl⟩ | ⟨closing, innermost, part, rfl, entered⟩ |
    ⟨plain, part, rfl, _⟩
  · rw [part] at own
    have own : opening.stmt = stmt := own
    cases pending with
    | nil => exact others.elim
    | cons inner pending =>
      obtain ⟨opens, closes, after, others⟩ := others
      refine ⟨.loop opening tree inner.closing inner.rest, pending, ?_,
        ⟨?_, closes, paired, ?_⟩, ?_⟩
      · simp [Block.folding, folds, part]
      · rw [own]
        exact opens
      · have same : index + tree.length + 2 = index + 1 + tree.length + 1 := by omega
        exact same ▸ after
      · have same : index + (tree.length + inner.rest.length + 2) =
            index + 1 + tree.length + 1 + inner.rest.length := by omega
        simp only [Folded.length, same]
        exact others
  · rw [part] at own
    have own : closing.stmt = stmt := own
    obtain ⟨opens, closes⟩ := closed innermost opened' rfl entered rfl
    refine ⟨.done, { closing, rest := tree } :: pending, ?_, trivial, opens, ?_, paired, others⟩
    · simp [Block.folding, folds, part]
    · rw [own]
      exact closes
  · refine ⟨.plain plain tree, pending, ?_, paired, ?_⟩
    · simp [Block.folding, folds, part]
    · have same : index + (tree.length + 1) = index + 1 + tree.length := by omega
      simp only [Folded.length, same]
      exact others

end

theorem pairFrom_cons {rest : Block} :
    pairFrom index opened bindings (stmt :: rest) = (do
      let (opened, bindings) ← visit index stmt opened bindings
      let bindings ← stmt.blocks.foldlM (pairFrom 0 []) bindings
      pairFrom (index + 1) opened bindings rest) := by
  have attached (bindings : LoopBindings) : stmt.blocks.foldlM (pairFrom 0 []) bindings =
        stmt.blocks.attach.foldlM
            (fun bindings inner => pairFrom 0 [] bindings inner.val) bindings := by
    calc stmt.blocks.foldlM (pairFrom 0 []) bindings
      _ = (stmt.blocks.attach.map Subtype.val).foldlM (pairFrom 0 []) bindings := by
        rw [List.attach_map_subtype_val]
      _ = _ := List.foldlM_map
  rw [pairFrom]
  simp only [attached]

/-- What pairing a block from one of its places on achieves. -/
structure Achieved (index : Nat) (opened : List OpenFor) (bindings : LoopBindings) (block : Block)
    (result : LoopBindings) : Prop where
  /-- Entries change for the `FOR`s and `NEXT`s of the block, of the blocks inside it, and for the
  loops open at its beginning only. -/
  kept : ∀ id, ¬ block.HasLoop id → (∀ loop ∈ opened, loop.id ≠ id) →
    result.get? id = bindings.get? id
  folds : ∃ tree pending, block.folding = some (tree, pending) ∧ tree.Paired result index ∧
    Pending.Paired result (index + tree.length) opened pending
  inner : ∀ stmt ∈ block, ∀ part ∈ stmt.blocks, ∀ inner, inner.Within part → result.Pairs inner

namespace Achieved

theorem pairs {inner : Block} (achieved : Achieved 0 [] bindings block result)
    (within : inner.Within block) : result.Pairs inner := by
  cases within with
  | self =>
    obtain ⟨tree, pending, folds, paired, closed⟩ := achieved.folds
    cases pending with
    | nil => exact ⟨tree, by simp [Block.fold, folds], paired⟩
    | cons => exact closed.elim
  | inner deeper held among => exact achieved.inner _ among _ held _ deeper

theorem blocks {blocks : List Block}
    (each : ∀ block ∈ blocks, ∀ {bindings result}, block.ids.Nodup →
      pairFrom 0 [] bindings block = .ok result → Achieved 0 [] bindings block result)
    (different : (blocks.flatMap Block.ids).Nodup)
    (paired : blocks.foldlM (pairFrom 0 []) bindings = .ok result) :
    (∀ id, (∀ part ∈ blocks, ¬ part.HasLoop id) → result.get? id = bindings.get? id) ∧
      ∀ part ∈ blocks, ∀ inner, inner.Within part → result.Pairs inner := by
  induction blocks generalizing bindings with
  | nil =>
    cases paired
    exact ⟨fun _ _ => rfl, by simp⟩
  | cons block others ih =>
    rw [List.flatMap_cons, List.nodup_append] at different
    obtain ⟨own, later, apart⟩ := different
    rw [List.foldlM_cons] at paired
    obtain ⟨between, ownPaired, paired⟩ := Results.of_bind paired
    have achieved := each block List.mem_cons_self own ownPaired
    obtain ⟨kept, pairs⟩ :=
      ih (fun other among => each other (List.mem_cons_of_mem _ among)) later paired
    refine ⟨fun id outside => ?_, fun part among inner within => ?_⟩
    · obtain ⟨outside, others⟩ := List.forall_mem_cons.mp outside
      rw [kept id others, achieved.kept id outside nofun]
    · rcases List.mem_cons.mp among with rfl | among
      · refine (achieved.pairs within).congr fun stmt held => kept stmt.id fun other among has => ?_
        exact apart stmt.id (within.mem_ids (Block.id_mem_ids held)) stmt.id
          (List.mem_flatMap.mpr ⟨other, among, has.mem_ids⟩) rfl
      · exact pairs part among inner within

theorem cons {rest : Block} {opened' : List OpenFor} {bindings' between : LoopBindings}
    (different : (Block.ids (stmt :: rest)).Nodup) (distinct : (opened.map OpenFor.id).Nodup)
    (fresh : ∀ loop ∈ opened, loop.id ∉ Block.ids (stmt :: rest))
    (visited : visit index stmt opened bindings = .ok (opened', bindings'))
    (kept : ∀ id, (∀ part ∈ stmt.blocks, ¬ part.HasLoop id) → between.get? id = bindings'.get? id)
    (pairs : ∀ part ∈ stmt.blocks, ∀ inner, inner.Within part → between.Pairs inner)
    (achieved : Achieved (index + 1) opened' between rest result) :
    Achieved index opened bindings (stmt :: rest) result := by
  obtain ⟨still, entered⟩ := visit_kept visited
  obtain ⟨_, freshLater⟩ := visit_fresh visited different distinct fresh
  rw [Block.ids_cons] at different fresh
  obtain ⟨single, different⟩ := List.nodup_cons.mp different
  obtain ⟨_, _, apart⟩ := List.nodup_append.mp different
  have outside {id : Nat} (foreign : id ∉ stmt.blocks.flatMap Block.ids) :
      ∀ part ∈ stmt.blocks, ¬ part.HasLoop id :=
    fun part held has => foreign (List.mem_flatMap.mpr ⟨part, held, has.mem_ids⟩)
  refine { kept := fun id foreign apart => ?_, folds := ?_, inner := ?_ }
  · have later : ∀ loop ∈ opened', loop.id ≠ id := by
      intro loop among same
      rcases still loop among with ⟨own, opens⟩ | among
      · exact foreign (same ▸ own ▸ .head (.inl opens))
      · exact apart loop among same
    rw [achieved.kept id (fun has => foreign has.tail) later,
      kept id fun part held has => foreign (.inner held has)]
    refine entered id (fun closes same => ?_) apart
    exact foreign (same ▸ .head (.inr closes))
  · refine folds_cons visited achieved.folds ?_
    rintro innermost outer rfl rfl rfl
    have behind := fresh innermost List.mem_cons_self
    have other : innermost.id ≠ stmt.id := fun same => behind (same ▸ List.mem_cons_self)
    have inside := fun among => behind (List.mem_cons_of_mem _ (List.mem_append_left _ among))
    have after := fun among => behind (List.mem_cons_of_mem _ (List.mem_append_right _ among))
    refine ⟨?_, ?_⟩
    · rw [achieved.kept _ (fun has => after has.mem_ids), kept _ (outside inside)]
      · simp only [bind, LoopBindings.get?_insert, if_neg other, if_true]
      · intro loop among same
        exact (List.nodup_cons.mp distinct).1 (same ▸ List.mem_map_of_mem among)
    · rw [achieved.kept _ (fun has => single (List.mem_append_right _ has.mem_ids)),
        kept _ (outside fun among => single (List.mem_append_left _ among))]
      · simp only [bind, LoopBindings.get?_insert, if_true]
      · intro loop among same
        exact fresh loop (List.mem_cons_of_mem _ among) (same ▸ List.mem_cons_self)
  · intro other among part held inner within
    rcases List.mem_cons.mp among with rfl | among
    · refine (pairs part held inner within).congr fun stmt own => ?_
      have inside : stmt.id ∈ other.blocks.flatMap Block.ids :=
        List.mem_flatMap.mpr ⟨part, held, within.mem_ids (Block.id_mem_ids own)⟩
      refine achieved.kept stmt.id (fun has => apart _ inside _ has.mem_ids rfl)
        fun loop among same => ?_
      rcases still loop among with ⟨own, _⟩ | among
      · exact single (List.mem_append_left _ (own ▸ same ▸ inside))
      · exact fresh loop among (List.mem_cons_of_mem _ (List.mem_append_left _ (same ▸ inside)))
    · exact achieved.inner other among part held inner within

end Achieved

theorem achieved_of_pairFrom {index : Nat} {opened : List OpenFor} {bindings result : LoopBindings}
    {block : Block} (different : block.ids.Nodup) (distinct : (opened.map OpenFor.id).Nodup)
    (fresh : ∀ loop ∈ opened, loop.id ∉ block.ids)
    (paired : pairFrom index opened bindings block = .ok result) :
    Achieved index opened bindings block result := by
  -- A block is smaller than the statement it is in, so the induction is on the size of blocks.
  induction size :
      sizeOf block using Nat.strongRecOn generalizing index opened bindings result block with
  | ind _ ih =>
    cases block with
    | nil =>
      rw [pairFrom] at paired
      split at paired
      · cases paired
      · next last =>
        cases paired
        rw [List.getLast?_eq_none_iff] at last
        subst last
        exact {
          kept := fun _ _ _ => rfl
          folds := ⟨.done, [], rfl, trivial, trivial⟩
          inner := fun _ among => absurd among List.not_mem_nil }
    | cons stmt rest =>
      have size : sizeOf (stmt :: rest) = 1 + sizeOf stmt + sizeOf rest := List.cons.sizeOf_spec _ _
      have parts :=
        List.nodup_append.mp (List.nodup_cons.mp (Block.ids_cons stmt rest ▸ different)).2
      rw [pairFrom_cons] at paired
      obtain ⟨⟨opened', bindings'⟩, visited, paired⟩ := Results.of_bind paired
      obtain ⟨between, innerPaired, paired⟩ := Results.of_bind paired
      obtain ⟨kept, pairs⟩ :=
        Achieved.blocks (fun part held {bindings result} different paired => by
          have smaller := Stmt.sizeOf_lt_of_mem_blocks held
          exact ih (sizeOf part)
            (by omega) different List.nodup_nil (List.forall_mem_nil _) paired rfl)
        parts.1 innerPaired
      refine .cons different distinct fresh visited kept pairs ?_
      obtain ⟨distinct, fresh⟩ := visit_fresh visited different distinct fresh
      exact ih (sizeOf rest) (by omega) parts.2.1 distinct fresh paired rfl

end Pairing

/-- A program that some tokens parse to. -/
def Program.IsParsed (program : Program) : Prop :=
  ∃ tokens, Program.ofTokens tokens = .ok program

theorem Program.isParsed_of_parse {source : String} (parses : Program.parse source = .ok program) :
    program.IsParsed := by
  obtain ⟨tokens, _, parses⟩ := Results.of_bind parses
  refine ⟨tokens, ?_⟩
  cases parsed : Program.ofTokens tokens with
  | error error =>
    rw [parsed] at parses
    cases parses
  | ok other =>
    rw [parsed] at parses
    cases parses
    rfl

/-- A source without an error is parsed into its program. -/
theorem Program.parse_ofSource {source : String}
    (parses : (Program.parse source).toOption.isSome = true) :
    Program.parse source = .ok (.ofSource source) := by
  unfold ofSource
  cases parsed : Program.parse source with
  | error error =>
    rw [parsed] at parses
    cases parses
  | ok program => rfl

/-- The program of a source without an error is parsed. -/
theorem Program.isParsed_ofSource {source : String}
    (parses : (Program.parse source).toOption.isSome = true) : (Program.ofSource source).IsParsed :=
  isParsed_of_parse (parse_ofSource parses)

/-- What any statement of a parsed program declares is in order. -/
theorem Program.IsParsed.orderly (parsed : program.IsParsed)
    (within : block.Within program.statements) (own : stmt ∈ block) :
    stmt.kind.Orderly fun _ => True := by
  obtain ⟨tokens, parsed⟩ := parsed
  obtain ⟨⟨_, numbered⟩, _⟩ := Program.numbered parsed
  exact (numbered.sound List.mem_cons_self within own).2

theorem Program.IsParsed.pairing (parsed : program.IsParsed) :
    program.statements.ids.Nodup ∧ program.statements.pairing = .ok program.bindings := by
  obtain ⟨tokens, parsed⟩ := parsed
  obtain ⟨⟨count, numbered⟩, paired⟩ := Program.numbered parsed
  have different := numbered.ids.2
  rw [List.flatMap_singleton] at different
  exact ⟨different, paired⟩

/-- The statements of a program have different numbers, and its table is the one found by pairing.
-/
def Program.IsPaired (program : Program) : Prop :=
  program.statements.ids.Nodup ∧ program.statements.pairing = .ok program.bindings

theorem Program.IsPaired.pairs (isPaired : program.IsPaired)
    (within : block.Within program.statements) : program.bindings.Pairs block := by
  obtain ⟨different, paired⟩ := isPaired
  have achieved : Pairing.Achieved 0 [] .empty program.statements program.bindings :=
    Pairing.achieved_of_pairFrom different List.nodup_nil nofun paired
  exact achieved.pairs within

theorem Program.IsParsed.isPaired (parsed : program.IsParsed) : program.IsPaired :=
  parsed.pairing

end MicroBasic
