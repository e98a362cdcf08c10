import MicroBasic.Interpreter
import MicroBasic.Proofs.Discipline.Scopes
import MicroBasic.Proofs.Loops.Exactness

/-!
# Programs without their declarations

The declarations among the statements of a program are registered before the first statement runs,
and passed by when control comes to them. Two programs with the same declarations in the same order,
and with the same other statements in the same order, have the same tree once the declarations are
left out of it, and register the same. If the loops of one of them can be paired, then so can those
of the other.
-/

namespace MicroBasic

theorem Stmt.part_of_isDeclaration {stmt : Stmt} (declares : stmt.isDeclaration = true) :
    ∃ plain : Plain, Part.of stmt = .plain plain ∧ plain.stmt = stmt := by
  have own := Part.stmt_of stmt
  unfold isDeclaration at declares
  cases part : Part.of stmt with
  | plain plain =>
    rw [part] at own
    exact ⟨plain, rfl, own⟩
  | opening opening =>
    rw [part] at own
    rw [← own, Part.stmt, opening.opens] at declares
    cases declares
  | closing closing =>
    rw [part] at own
    rw [← own, Part.stmt, closing.closes] at declares
    cases declares

theorem Stmt.not_loop_of_isDeclaration {stmt : Stmt} (declares : stmt.isDeclaration = true) :
    stmt.isFor = false ∧ stmt.isNext = false := by
  unfold isDeclaration at declares
  unfold isFor isNext
  split at declares
  · next kind =>
    simp [kind]
  · next kind =>
    simp [kind]
  · next kind =>
    simp [kind]
  · cases declares

namespace Folded

/-- A tree without its declarations. -/
def pruned : Folded → Folded
  | done => done
  | plain stmt rest => if stmt.stmt.isDeclaration then rest.pruned else plain stmt rest.pruned
  | loop opening body closing rest => loop opening body.pruned closing rest.pruned

/-- The number of declarations in a tree. -/
def declarations : Folded → Nat
  | done => 0
  | plain stmt rest => if stmt.stmt.isDeclaration then rest.declarations + 1 else rest.declarations
  | loop _ body _ rest => body.declarations + rest.declarations

end Folded

/-- An open loop whose rest has no declarations. -/
def Pending.pruned (pending : Pending) : Pending :=
  { pending with rest := pending.rest.pruned }

namespace Block

/-- The declarations of a block. -/
def declarations (block : Block) : Block :=
  block.filter Stmt.isDeclaration

/-- The statements of a block that declare nothing. -/
def actions (block : Block) : Block :=
  block.filter (fun stmt => !stmt.isDeclaration)

/-- Two blocks have the same declarations in the same order, and the same other statements in the
same order. -/
def Rearranges (block other : Block) : Prop :=
  other.declarations = block.declarations ∧ other.actions = block.actions

/-- The statements of a block with the declarations before all others. -/
def gathered (block : Block) : Block :=
  block.declarations ++ block.actions

theorem rearranges_gathered (block : Block) : block.Rearranges block.gathered := by
  constructor <;> simp [gathered, declarations, actions, List.filter_filter]

theorem actions_cons_of_isDeclaration {stmt : Stmt} {rest : List Stmt}
    (declares : stmt.isDeclaration = true) :
    actions (stmt :: rest) = actions rest := by
  simp [actions, declares]

theorem actions_cons_of_not_isDeclaration {stmt : Stmt} {rest : List Stmt}
    (acts : stmt.isDeclaration = false) :
    actions (stmt :: rest) = stmt :: actions rest := by
  simp [actions, acts]

theorem isDeclaration_of_part {stmt : Stmt} (other : ∀ plain, Part.of stmt ≠ .plain plain) :
    stmt.isDeclaration = false := by
  cases declares : stmt.isDeclaration with
  | false => rfl
  | true =>
    obtain ⟨plain, part, _⟩ := Stmt.part_of_isDeclaration declares
    exact absurd part (other plain)

theorem folding_actions {tree : Folded} {pending : List Pending} {block : Block}
    (folds : block.folding = some (tree, pending)) :
    block.actions.folding = some (tree.pruned, pending.map Pending.pruned) := by
  induction block generalizing tree pending with
  | nil =>
    cases folds
    rfl
  | cons stmt rest ih =>
    unfold folding at folds
    split at folds
    · cases folds
    · next plain folded part =>
      cases folds
      have own : plain.stmt = stmt := by
        have own := Part.stmt_of stmt
        rwa [part] at own
      have later := ih folded
      cases declares : stmt.isDeclaration with
      | true =>
        rw [actions_cons_of_isDeclaration declares, later]
        simp [Folded.pruned, own, declares]
      | false =>
        rw [actions_cons_of_not_isDeclaration declares, folding, later, part]
        simp [Folded.pruned, own, declares]
    · next closing folded part =>
      cases folds
      have acts : stmt.isDeclaration = false := isDeclaration_of_part fun plain same => by
        cases part.symm.trans same
      rw [actions_cons_of_not_isDeclaration acts, folding, ih folded, part]
      rfl
    · next opening folded part =>
      cases folds
      have acts : stmt.isDeclaration = false := isDeclaration_of_part fun plain same => by
        cases part.symm.trans same
      rw [actions_cons_of_not_isDeclaration acts, folding, ih folded, part]
      rfl
    · cases folds

theorem fold_actions {tree : Folded} {block : Block} (folds : block.fold = some tree) :
    block.actions.fold = some tree.pruned := by
  unfold fold at folds
  split at folds
  · next folded =>
    cases folds
    unfold fold
    rw [folding_actions folded]
    rfl
  · cases folds

end Block

namespace Pairing

theorem closes_actions_iff {vars : List String} {block : Block} :
    Closes vars block.actions ↔ Closes vars block := by
  induction block generalizing vars with
  | nil => rfl
  | cons stmt rest ih =>
    cases declares : stmt.isDeclaration with
    | true =>
      obtain ⟨notFor, notNext⟩ := Stmt.not_loop_of_isDeclaration declares
      rw [Block.actions_cons_of_isDeclaration declares, ih]
      refine ⟨.plain notFor notNext, fun closes => ?_⟩
      cases closes with
      | plain _ _ others => exact others
      | opening begins _ =>
        obtain ⟨start, limit, step, kind, _⟩ := begins
        simp [Stmt.isFor, kind] at notFor
      | closing ends _ =>
        obtain ⟨name, kind, _⟩ := ends
        simp [Stmt.isNext, kind] at notNext
    | false =>
      rw [Block.actions_cons_of_not_isDeclaration declares]
      constructor
      · intro closes
        cases closes with
        | plain notFor notNext others => exact .plain notFor notNext (ih.mp others)
        | opening begins others => exact .opening begins (ih.mp others)
        | closing ends others => exact .closing ends (ih.mp others)
      · intro closes
        cases closes with
        | plain notFor notNext others => exact .plain notFor notNext (ih.mpr others)
        | opening begins others => exact .opening begins (ih.mpr others)
        | closing ends others => exact .closing ends (ih.mpr others)

end Pairing

namespace Block

theorem ids_eq_flatMap (block : Block) :
    block.ids = block.flatMap (fun stmt => stmt.id :: stmt.blocks.flatMap Block.ids) := by
  induction block with
  | nil =>
    rw [Block.ids]
    rfl
  | cons stmt rest ih =>
    rw [Block.ids_cons, ih]
    rfl

namespace Rearranges

variable {block other : Block}

theorem refl (block : Block) : block.Rearranges block :=
  ⟨rfl, rfl⟩

variable (rearranges : block.Rearranges other)

include rearranges

theorem symm : other.Rearranges block :=
  ⟨rearranges.1.symm, rearranges.2.symm⟩

theorem perm : other.Perm block := by
  have parts (block : Block) : (block.declarations ++ block.actions).Perm block :=
    List.filter_append_perm Stmt.isDeclaration block
  have same : other.declarations ++ other.actions = block.declarations ++ block.actions := by
    rw [rearranges.1, rearranges.2]
  exact (parts other).symm.trans (same ▸ parts block)

theorem pruned {tree tree' : Folded} (folds : block.fold = some tree)
    (folds' : other.fold = some tree') : tree'.pruned = tree.pruned := by
  have same := fold_actions folds'
  rw [rearranges.2, fold_actions folds] at same
  exact (Option.some.inj same).symm

theorem exists_pairing {bindings : LoopBindings} (paired : block.pairing = .ok bindings) :
    ∃ bindings', other.pairing = .ok bindings' := by
  obtain ⟨closes, inner⟩ := Pairing.pairFrom_ok_iff.mp ⟨bindings, paired⟩
  refine Pairing.pairFrom_ok_iff.mpr
    ⟨?_, fun stmt among => inner stmt (rearranges.perm.mem_iff.mp among)⟩
  rwa [← Pairing.closes_actions_iff, rearranges.2, Pairing.closes_actions_iff]

theorem nodup_ids (different : block.ids.Nodup) : other.ids.Nodup := by
  rw [ids_eq_flatMap] at different ⊢
  exact (rearranges.perm.flatMap_right _).nodup_iff.mpr different

end Rearranges

end Block

namespace Run

theorem register_declarations (types : Bool) (block : Block) :
    register types block.declarations = register types block := by
  induction block with
  | nil => rfl
  | cons stmt rest ih =>
    unfold Block.declarations at ih ⊢
    cases declares : stmt.isDeclaration with
    | true =>
      rw [List.filter_cons_of_pos declares]
      simp only [register, ih]
    | false =>
      rw [List.filter_cons_of_neg (by simp [declares]), ih]
      have registers := registers types stmt
      conv_rhs => unfold register
      generalize registration? types stmt = entry at registers ⊢
      cases registers with
      | none => rfl
      | _ => simp_all [Stmt.isDeclaration]

theorem hoist_of_rearranges {other block : Block} (rearranges : block.Rearranges other) :
    hoist other = hoist block := by
  have same (types : Bool) : register types other = register types block := by
    rw [← register_declarations, rearranges.1, register_declarations]
  rw [hoist, hoist, same, same]

end Run

end MicroBasic
