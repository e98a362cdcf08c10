import MicroBasic.Proofs.Concord.Observed
import MicroBasic.Proofs.Declarations
import MicroBasic.Proofs.Placement.Pruning
import MicroBasic.Proofs.Placement.Shifting

/-!
# A tree follows the tree without its declarations

A tree with declarations and the tree without them do the same, except that the first passes by its
declarations and counts them as executed. They use up what each of them may execute at different
rates, so one of the two must have enough to keep up with the other: the bare tree, if it may
execute as many statements as the full one, or the full one, if it may execute all its declarations
before each statement of the bare one.

The two are compared in step. The full tree is where the bare tree is, on the same machine but for
the pairings of loops and the statements counted, and what it has left is measured against what the
bare one has left.
-/

namespace MicroBasic

/-- Which of two works on a tree has enough to keep up with the other. -/
inductive Allowance where
  /-- The full one has enough for so many declarations before each statement of the bare one. -/
  | generous (most : Nat)
  /-- The bare one may execute as many statements as the full one. -/
  | equal

namespace Allowance

/-- An allowance is meant for so many declarations. -/
def Fits : Allowance → Nat → Prop
  | generous most, declarations => declarations ≤ most
  | equal, _ => True

/-- What the full and the bare work may still execute, if the full one needs some of it on top. -/
def Covers : Allowance → Nat → Nat → Nat → Prop
  | generous most, extra, full, bare => (most + 1) * bare + extra ≤ full
  | equal, _, full, bare => full ≤ bare

/-- The rounds that a loop of the full and of the bare work may still take. -/
def Limits : Allowance → Nat → Nat → Prop
  | generous _, full, bare => bare ≤ full
  | equal, full, bare => full ≤ bare

/-- The work that need not keep up with the other ran out of fuel. -/
def Exceeded {α : Type} :
    Allowance → EStateM.Result Escape Machine α → EStateM.Result Escape Machine α → Prop
  | generous _, _, bare => ∃ final, bare = .error (.awaiting .fuel) final
  | equal, full, _ => ∃ final, full = .error (.awaiting .fuel) final

variable {A : Allowance} {extra more full bare : Nat}

theorem Fits.fewer (fits : A.Fits more) (fewer : extra ≤ more) : A.Fits extra := by
  cases A with
  | generous most => exact Nat.le_trans fewer fits
  | equal => trivial

theorem Covers.fewer (covers : A.Covers more full bare) (fewer : extra ≤ more) :
    A.Covers extra full bare := by
  cases A with
  | generous most => exact Nat.le_trans (Nat.add_le_add_left fewer _) covers
  | equal => exact covers

theorem Covers.declared (covers : A.Covers (extra + 1) (full + 1) bare) :
    A.Covers extra full bare := by
  cases A with
  | generous most => exact Nat.le_of_succ_le_succ covers
  | equal => exact Nat.le_of_succ_le covers

theorem Covers.stepped (covers : A.Covers extra (full + 1) (bare + 1)) (fits : A.Fits more) :
    A.Covers (extra + more) full bare := by
  cases A with
  | generous most =>
    have room : (most + 1) * (bare + 1) + extra ≤ full + 1 := covers
    have few : more ≤ most := fits
    rw [Nat.mul_succ] at room
    show (most + 1) * bare + (extra + more) ≤ full
    omega
  | equal => exact Nat.le_of_succ_le_succ covers

theorem Covers.limits (covers : A.Covers extra full bare) : A.Limits full bare := by
  cases A with
  | generous most =>
    have least : bare ≤ (most + 1) * bare := Nat.le_mul_of_pos_left bare (Nat.succ_pos most)
    exact Nat.le_trans (Nat.le_trans least (Nat.le_add_right _ _)) covers
  | equal => exact covers

theorem Limits.stepped (limits : A.Limits (full + 1) (bare + 1)) : A.Limits full bare := by
  cases A with
  | generous most | equal => exact Nat.le_of_succ_le_succ limits

theorem Limits.exceeded {α : Type} {left right : Machine} {fullWork bareWork : Nat → Exec α}
    (limits : A.Limits full bare) (spent : full = 0 ∨ bare = 0)
    (first : fullWork 0 = Exec.await .fuel) (second : bareWork 0 = Exec.await .fuel) :
    A.Exceeded (fullWork full left) (bareWork bare right) := by
  cases A with
  | generous most =>
    have zero : bare = 0 := spent.elim (fun zero => Nat.le_zero.mp (zero ▸ limits)) id
    rw [zero, second]
    exact ⟨right, rfl⟩
  | equal =>
    have zero : full = 0 := spent.elim id fun zero => Nat.le_zero.mp (zero ▸ limits)
    rw [zero, first]
    exact ⟨left, rfl⟩

theorem Exceeded.bind {α β : Type} {left right : Machine} {fullWork bareWork : Exec α}
    {fullRest bareRest : α → Exec β} (exceeded : A.Exceeded (fullWork left) (bareWork right)) :
    A.Exceeded ((fullWork >>= fullRest) left) ((bareWork >>= bareRest) right) := by
  cases A with
  | generous _ | equal =>
    obtain ⟨final, spent⟩ := exceeded
    exact ⟨final, by simp only [Bind.bind, EStateM.bind, spent]⟩

theorem Exceeded.attempt {α : Type} {fullWork bareWork : Exec α} {left right : Machine}
    (exceeded : A.Exceeded (fullWork left) (bareWork right)) :
    A.Exceeded (Exec.attempt fullWork left) (Exec.attempt bareWork right) := by
  cases A with
  | generous _ | equal =>
    obtain ⟨final, spent⟩ := exceeded
    exact ⟨final, by simp only [Exec.attempt, spent]⟩

end Allowance

/-- What it takes to compare the statements of a block with and without its declarations: nothing
depends on the pairings of loops, each statement leads from a good machine to good ones, and on good
machines the declarations are registered. -/
structure Attuned (worker : Evaluator) (block : Block) (Ready : Machine → Prop) : Prop where
  evaluates : ∀ s : Shift, s.Evaluates worker
  noted : ∀ {m stmt}, Ready m → stmt ∈ block → stmt.isDeclaration = true → stmt.id ∈ m.hoisted
  plain : ∀ {m stmt result next}, Ready m → stmt ∈ block →
    worker.perform stmt (worker.plainStmt stmt) m = .ok result next → Ready next
  opening : ∀ {m stmt var start limit step result next}, Ready m →
    worker.perform stmt (worker.beginCounter var start limit step) m = .ok result next → Ready next
  closing : ∀ {m stmt counter result next}, Ready m →
    worker.perform stmt (Evaluator.advanceCounter counter) m = .ok result next → Ready next

/-- A full work on a machine with other pairings of loops and some statements counted ahead follows
the bare work on the machine itself, and is left with enough. -/
def Follows (A : Allowance) (pairings : List LoopBindings) (Ready : Machine → Prop)
    (extra ahead : Nat) (m : Machine) (full bare : Exec (Signal × Nat)) : Prop :=
  A.Exceeded (full ((Shift.mk pairings ahead).machine m)) (bare m) ∨ ∃ later left,
      full ((Shift.mk pairings ahead).machine m) =
        (Shift.mk pairings later).result (((·.1, left) <$> bare) m) ∧
      ∀ ended final, bare m = .ok ended final → Ready final ∧ A.Covers extra left ended.2

namespace Follows

variable {A : Allowance} {pairings : List LoopBindings} {Ready : Machine → Prop}
    {extra less ahead full bare : Nat}
  {m : Machine}

/-- There is nothing to compare where one of the two may execute nothing. -/
theorem stepping {fullWork bareWork : Nat → Exec (Signal × Nat)} (limits : A.Limits full bare)
    (first : fullWork 0 = Exec.await .fuel) (second : bareWork 0 = Exec.await .fuel)
    (steps : ∀ fewer least, full = fewer + 1 → bare = least + 1 →
      Follows A pairings Ready extra ahead m (fullWork full) (bareWork bare)) :
    Follows A pairings Ready extra ahead m (fullWork full) (bareWork bare) := by
  cases full with
  | zero => exact .inl (limits.exceeded (.inl rfl) first second)
  | succ fewer =>
    cases bare with
    | zero => exact .inl (limits.exceeded (.inr rfl) first second)
    | succ least => exact steps fewer least rfl rfl

theorem pure {signal : Signal} (ready : Ready m) (covers : A.Covers extra full bare) :
    Follows A pairings Ready extra ahead m (Pure.pure (signal, full)) (Pure.pure (signal, bare)) :=
  .inr ⟨ahead, full, rfl, fun _ _ done => by cases done; exact ⟨ready, covers⟩⟩

theorem bind {fullWork bareWork : Exec (Signal × Nat)}
    {fullRest bareRest : Signal × Nat → Exec (Signal × Nat)}
    (first : Follows A pairings Ready extra ahead m fullWork bareWork)
    (second : ∀ {later signal full bare next}, Ready next → A.Covers extra full bare →
      Follows A pairings Ready less later next (fullRest (signal, full))
        (bareRest (signal, bare))) :
    Follows A pairings Ready less ahead m (fullWork >>= fullRest) (bareWork >>= bareRest) := by
  rcases first with exceeded | ⟨later, left, same, kept⟩
  · exact .inl exceeded.bind
  · unfold Follows
    simp only [Bind.bind, EStateM.bind, same, Functor.map, EStateM.map]
    cases done : bareWork m with
    | ok ended next =>
      obtain ⟨ready, covers⟩ := kept _ _ done
      exact second ready covers
    | error escape next => exact .inr ⟨later, left, rfl, nofun⟩

theorem after {α : Type} {fullRest bareRest : α → Exec (Signal × Nat)} {work : Exec α}
    (keeps : (Shift.mk pairings ahead).Keeps work)
    (second : ∀ {value next}, work m = .ok value next →
      Follows A pairings Ready less ahead next (fullRest value) (bareRest value)) :
    Follows A pairings Ready less ahead m (work >>= fullRest) (work >>= bareRest) := by
  unfold Follows
  simp only [Bind.bind, EStateM.bind, keeps m, Functor.map, EStateM.map]
  cases done : work m with
  | ok value next => exact second done
  | error escape next => exact .inr ⟨ahead, 0, rfl, nofun⟩

end Follows

namespace Attuned

variable {worker : Evaluator} {block : Block} {Ready : Machine → Prop} {A : Allowance}
    {pairings : List LoopBindings}
  {extra ahead full bare : Nat} {m : Machine}

theorem runTree_declaration {stmt : Plain} {rest : Folded} (attuned : Attuned worker block Ready)
    (among : stmt.stmt ∈ block) (declares : stmt.stmt.isDeclaration = true) (ready : Ready m) :
    worker.runTree (.plain stmt rest) (full + 1) ((Shift.mk pairings ahead).machine m) =
      worker.runTree rest full ((Shift.mk pairings (ahead + 1)).machine m) := by
  have affords : worker.settings.Affords ((Shift.mk pairings ahead).machine m) := by
    intro limit limited
    rw [(attuned.evaluates (Shift.mk pairings 0)).unlimited] at limited
    cases limited
  have counted : ((Shift.mk pairings ahead).machine m).counted =
      (Shift.mk pairings (ahead + 1)).machine m := rfl
  have noted := attuned.noted ready among declares
  have passed : worker.plainStmt stmt.stmt ((Shift.mk pairings (ahead + 1)).machine m) =
      .ok .done ((Shift.mk pairings (ahead + 1)).machine m) :=
    worker.plainStmt_passes declares (noted : stmt.stmt.id ∈ m.hoisted)
  simp only [Evaluator.runTree, Evaluator.perform, Bind.bind, EStateM.bind, Exec.placed,
    Exec.halting, Evaluator.tick_afforded affords, counted,
      (attuned.evaluates (Shift.mk pairings 0)).silent, passed]
  rfl

variable {closing : Closing} {counter : Counter} {more : Nat}

section

variable (attuned : Attuned worker block Ready) (fits : A.Fits more) (ready : Ready m)
  (covers : A.Covers extra full bare) {fullAgain bareAgain : Nat → Exec (Signal × Nat)}
  (again : ∀ {full bare next}, Ready next → A.Covers (extra + more) full bare →
    Follows A pairings Ready extra ahead next (fullAgain full) (bareAgain bare))

include attuned fits ready covers again

theorem runNext :
    Follows A pairings Ready extra ahead m (worker.runNext closing counter fullAgain full)
      (worker.runNext closing counter bareAgain bare) := by
  refine .stepping covers.limits rfl rfl ?_
  rintro full bare rfl rfl
  have stepped := covers.stepped fits
  have ended := stepped.fewer (Nat.le_add_right extra more)
  refine .after ((attuned.evaluates _).perform
    ((Shift.mk pairings ahead).congruence.advanceCounter counter)) fun {result next} done => ?_
  have ready := attuned.closing ready done
  rcases result with reason | _ | _
  · exact .pure ready ended
  · exact .pure ready ended
  · exact again ready stepped

theorem endRound {signal : Signal} :
    Follows A pairings Ready extra ahead m
      (worker.endRound closing counter fullAgain (signal, full))
      (worker.endRound closing counter bareAgain (signal, bare)) := by
  match signal with
  | .done | .continued none | .continued (some .forLoop) =>
    exact attuned.runNext fits ready covers again
  | .exit (.loop .forLoop) | .exit (.loop .whileLoop) | .exit
      (.loop .doLoop) | .exit .sub | .exit .function =>
    exact .pure ready covers
  | .jump _ | .halt _ | .returned _ | .continued (some .whileLoop) | .continued (some .doLoop) =>
    exact .pure ready covers

end

theorem runRounds {fullLimit bareLimit : Nat} {fullBody bareBody : Nat → Exec (Signal × Nat)}
    (attuned : Attuned worker block Ready) (fits : A.Fits more)
    (limits : A.Limits fullLimit bareLimit) (ready : Ready m)
    (covers : A.Covers (extra + more) full bare)
    (round : ∀ {ahead full bare next}, Ready next → A.Covers (extra + more) full bare →
      Follows A pairings Ready extra ahead next (fullBody full) (bareBody bare)) :
    Follows A pairings Ready extra ahead m
      (worker.runRounds fullBody closing counter fullLimit full)
      (worker.runRounds bareBody closing counter bareLimit bare) := by
  have exceeded {ahead full bare fullLimit bareLimit : Nat} {m : Machine}
      (limits : A.Limits fullLimit bareLimit) (spent : fullLimit = 0 ∨ bareLimit = 0) :
      Follows A pairings Ready extra ahead m
        (worker.runRounds fullBody closing counter fullLimit full)
        (worker.runRounds bareBody closing counter bareLimit bare) :=
    .inl (@Allowance.Limits.exceeded A _ _ _ _ _
      (fun limit => worker.runRounds fullBody closing counter limit full)
      (fun limit => worker.runRounds bareBody closing counter limit bare) limits spent rfl rfl)
  induction fullLimit generalizing bareLimit ahead full bare m with
  | zero => exact exceeded limits (.inl rfl)
  | succ fullLimit ih =>
    cases bareLimit with
    | zero => exact exceeded limits (.inr rfl)
    | succ bareLimit =>
      exact (round ready covers).bind fun ready covers =>
        attuned.endRound fits ready covers fun ready covers => ih limits.stepped ready covers

theorem followedBy {fullRest bareRest : Nat → Exec (Signal × Nat)} {signal : Signal}
    (ready : Ready m) (covers : A.Covers (extra + more) full bare)
    (rest : Follows A pairings Ready extra ahead m (fullRest full) (bareRest bare)) :
    Follows A pairings Ready extra ahead m
      (Evaluator.followedBy fullRest (signal, full))
      (Evaluator.followedBy bareRest (signal, bare)) := by
  have covers := covers.fewer (Nat.le_add_right extra more)
  match signal with
  | .done => exact rest
  | .jump _ | .halt _ | .returned _ | .exit _ | .continued _ => exact .pure ready covers

theorem runTree {tree : Folded} (attuned : Attuned worker block Ready)
    (within : ∀ stmt ∈ tree.statements, stmt ∈ block) (fits : A.Fits tree.declarations)
    (ready : Ready m) (covers : A.Covers (extra + tree.declarations) full bare) :
    Follows A pairings Ready extra ahead m (worker.runTree tree full)
      (worker.runTree tree.pruned bare) := by
  -- The induction is on the full tree.
  induction tree generalizing extra ahead full bare m with
  | done =>
    refine .stepping covers.limits rfl rfl ?_
    rintro full bare rfl rfl
    exact .pure ready covers
  | plain stmt rest ih =>
    obtain ⟨own, others⟩ := List.forall_mem_cons.mp within
    cases declares : stmt.stmt.isDeclaration with
    | true =>
      have count : (Folded.plain stmt rest).declarations = rest.declarations + 1 := by
        simp [Folded.declarations, declares]
      have lean : (Folded.plain stmt rest).pruned = rest.pruned := by simp [Folded.pruned, declares]
      rw [count] at fits covers
      rw [lean]
      cases full with
      | zero => exact .inl (covers.limits.exceeded (.inl rfl) rfl (worker.runTree_zero _))
      | succ full =>
        have onward :=
          @ih extra (ahead + 1) full bare m others
            (fits.fewer (Nat.le_succ _)) ready covers.declared
        unfold Follows at onward ⊢
        rw [attuned.runTree_declaration own declares ready]
        exact onward
    | false =>
      have count : (Folded.plain stmt rest).declarations = rest.declarations := by
        simp [Folded.declarations, declares]
      have lean : (Folded.plain stmt rest).pruned = .plain stmt rest.pruned := by
        simp [Folded.pruned, declares]
      rw [count] at fits covers
      rw [lean]
      refine .stepping covers.limits (worker.runTree_zero _) (worker.runTree_zero _) ?_
      rintro full bare rfl rfl
      have stepped := (covers.stepped (fits.fewer (Nat.zero_le _)) : A.Covers _ full bare)
      have E := attuned.evaluates (Shift.mk pairings ahead)
      refine .after (E.perform (E.plainStmt stmt.stmt)) fun {result next} done => ?_
      have ready := attuned.plain ready own done
      cases result with
      | error reason => exact .pure ready (stepped.fewer (Nat.le_add_right _ _))
      | ok signal => exact followedBy ready stepped (ih others fits ready stepped)
  | loop opening body closing rest inBody inRest =>
    have inBodyBlock : ∀ stmt ∈ body.statements, stmt ∈ block := fun stmt among =>
      within stmt (List.mem_cons_of_mem _ (List.mem_append_left _ among))
    have inRestBlock : ∀ stmt ∈ rest.statements, stmt ∈ block := fun stmt among =>
      within stmt (List.mem_cons_of_mem _ (List.mem_append_right _ (List.mem_cons_of_mem _ among)))
    have count : (Folded.loop opening body closing rest).declarations =
        body.declarations + rest.declarations := rfl
    rw [count] at fits covers
    have bodyFits := fits.fewer (Nat.le_add_right body.declarations rest.declarations)
    have restFits := fits.fewer (Nat.le_add_left rest.declarations body.declarations)
    refine .stepping covers.limits (worker.runTree_zero _) (worker.runTree_zero _) ?_
    rintro full bare rfl rfl
    have stepped := (covers.stepped (fits.fewer (Nat.zero_le _)) : A.Covers _ full bare)
    have E := attuned.evaluates (Shift.mk pairings ahead)
    refine .after (E.perform (E.joinsCalls.beginCounter _ _ _ _)) fun {result next} done => ?_
    have ready := attuned.opening ready done
    rcases result with reason | ⟨counter, _ | _⟩
    · exact .pure ready (stepped.fewer (by omega))
    · exact inRest inRestBlock restFits ready (stepped.fewer (by omega))
    · have begun : A.Covers (extra + rest.declarations + body.declarations) full bare :=
        stepped.fewer (by omega)
      refine (attuned.runRounds bodyFits begun.limits ready begun fun ready covers =>
        inBody inBodyBlock bodyFits ready covers).bind fun ready covers => ?_
      exact followedBy ready covers (inRest inRestBlock restFits ready covers)

end Attuned

end MicroBasic
