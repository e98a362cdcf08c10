import MicroBasic.Proofs.Runs

/-!
# Isolation of scopes

A function runs on a copy of its caller's variables. What it writes reaches a scope around it only
through a place that one of its parameters was made to stand for by its call. The argument rests on
where such places point: to variables that exist in a scope that is parked, and only to those that
the call made reachable. This is true on every path, since every way of ending a call goes back to
the scope that was parked last.
-/

namespace MicroBasic

/-- A scope keeps its places, its variables and their values, except for the values at some places.
The scope is the one with the given number, counted from the outermost. -/
structure Scope.Kept (reach : List Place) (frame : Nat) (before after : Scope) : Prop where
  places : after.places = before.places
  keys : after.vars.keys = before.vars.keys
  values : ∀ key, Place.slot frame key ∉ reach → after.vars.get? key = before.vars.get? key

/-- Scopes, outermost first, are kept except for the values at some places. -/
structure ScopesKept (reach : List Place) (before after : List Scope) : Prop where
  length : after.length = before.length
  kept : ∀ {frame : Nat} {old new : Scope}, before[frame]? = some old → after[frame]? = some new →
    old.Kept reach frame new

/-- The scopes of all open calls, outermost first. -/
def Machine.scopes (m : Machine) : List Scope :=
  m.parked ++ [m.scope]

/-- A scope has a variable. -/
def HasSlot (scopes : List Scope) (frame : Nat) (key : String) : Prop :=
  ∃ scope, scopes[frame]? = some scope ∧ key ∈ scope.vars.keys

/-- A machine has the variable that a place names, if it names one. -/
def Machine.Has (m : Machine) (place : Place) : Prop :=
  ∀ frame key, place = .slot frame key → HasSlot m.scopes frame key

namespace ScopesKept

variable {reach fewer : List Place} {first second third : List Scope} {frame : Nat} {key : String}

theorem refl (scopes : List Scope) : ScopesKept reach scopes scopes where
  length := rfl
  kept {frame old new} before after := by
    rw [before] at after
    cases after
    exact ⟨rfl, rfl, fun _ _ => rfl⟩

theorem exists_kept {old : Scope} (kept : ScopesKept reach first second)
    (found : first[frame]? = some old) :
    ∃ new, second[frame]? = some new ∧ old.Kept reach frame new := by
  have inside : frame < second.length := by
    rw [kept.length]
    exact (List.getElem?_eq_some_iff.mp found).1
  exact ⟨second[frame], List.getElem?_eq_getElem inside,
    kept.kept found (List.getElem?_eq_getElem inside)⟩

theorem trans (before : ScopesKept reach first second) (after : ScopesKept reach second third) :
    ScopesKept reach first third where
  length := after.length.trans before.length
  kept {frame old new} found arrived := by
    obtain ⟨middle, there, kept⟩ := before.exists_kept found
    have later := after.kept there arrived
    exact ⟨later.places.trans kept.places, later.keys.trans kept.keys, fun key outside =>
      (later.values key outside).trans (kept.values key outside)⟩

theorem hasSlot (kept : ScopesKept reach first second) (has : HasSlot first frame key) :
    HasSlot second frame key := by
  obtain ⟨old, found, known⟩ := has
  obtain ⟨new, there, same⟩ := kept.exists_kept found
  exact ⟨new, there, by rw [same.keys]; exact known⟩

theorem outer {last final : Scope} (kept : ScopesKept reach (first ++ [last]) (second ++ [final]))
    (covered : ∀ frame key, frame < first.length → Place.slot frame key ∈ reach →
      Place.slot frame key ∈ fewer) : ScopesKept fewer first second where
  length := by
    have length := kept.length
    simp only [List.length_append, List.length_singleton] at length
    omega
  kept {frame old new} found arrived := by
    have inside := (List.getElem?_eq_some_iff.mp found).1
    have inSecond := (List.getElem?_eq_some_iff.mp arrived).1
    rw [← List.getElem?_append_left inside] at found
    rw [← List.getElem?_append_left inSecond] at arrived
    have same := kept.kept found arrived
    refine ⟨same.places, same.keys, fun key outside => same.values key fun within => ?_⟩
    exact outside (covered frame key inside within)

theorem assign {scopes : List Scope} {value : Value} (reachable : Place.slot frame key ∈ reach)
    (has : HasSlot scopes frame key) :
    ScopesKept reach scopes (scopes.modify frame (fun scope => scope.assign key value)) where
  length := List.length_modify _ _ _
  kept {number old new} found arrived := by
    obtain ⟨scope, there, known⟩ := has
    rw [List.getElem?_modify, found] at arrived
    cases arrived
    by_cases same : frame = number
    · subst same
      rw [found] at there
      cases there
      simp only [if_true]
      refine ⟨rfl, Table.keys_insert known, fun other outside => ?_⟩
      have different : other ≠ key := by
        rintro rfl
        exact outside reachable
      exact Table.get?_insert.trans (if_neg different)
    · simp only [if_neg same]
      exact ⟨rfl, rfl, fun _ _ => rfl⟩

end ScopesKept

theorem Machine.hasSlot_scopes_iff {frame : Nat} {key : String} {m : Machine} :
    HasSlot m.scopes frame key ↔
      HasSlot m.parked frame key ∨ (frame = m.parked.length ∧ key ∈ m.scope.vars.keys) := by
  unfold HasSlot Machine.scopes
  constructor
  · rintro ⟨scope, found, known⟩
    rw [List.getElem?_append] at found
    split at found
    · exact .inl ⟨scope, found, known⟩
    · have last : frame - m.parked.length = 0 := by
        have inside := (List.getElem?_eq_some_iff.mp found).1
        simp only [List.length_singleton] at inside
        omega
      rw [last] at found
      cases found
      exact .inr ⟨by omega, known⟩
  · rintro (⟨scope, found, known⟩ | ⟨rfl, known⟩)
    · have inside := (List.getElem?_eq_some_iff.mp found).1
      exact ⟨scope, by rw [List.getElem?_append_left inside]; exact found, known⟩
    · exact ⟨m.scope, by simp, known⟩

/-- The places that names of the current scope stand for: those that are variables can be reached,
and exist in a parked scope. -/
structure Machine.Aimed (reach : List Place) (m : Machine) : Prop where
  distinct : m.scope.places.keys.Nodup
  aimed : ∀ {name frame key}, (name, Place.slot frame key) ∈ m.scope.places.entries →
    Place.slot frame key ∈ reach ∧ HasSlot m.parked frame key

namespace Machine.Aimed

variable {reach other : List Place} {m next : Machine}

theorem after (inv : m.Aimed reach) (same : next.scope.places = m.scope.places)
    (kept : ScopesKept other m.parked next.parked) : next.Aimed reach where
  distinct := by
    rw [same]
    exact inv.distinct
  aimed held := by
    rw [same] at held
    exact ⟨(inv.aimed held).1, kept.hasSlot (inv.aimed held).2⟩

theorem of_get? {name : String} {frame : Nat} {key : String} (inv : m.Aimed reach)
    (found : m.scope.places.get? name = some (.slot frame key)) :
    Place.slot frame key ∈ reach ∧ HasSlot m.parked frame key :=
  inv.aimed (Table.mem_of_get? found)

end Machine.Aimed

theorem Machine.park_scopes {m parked : Machine} (done : m.park = .ok parked) :
    parked.parked = m.scopes ∧ parked.scope.places = .empty ∧ parked.heap = m.heap := by
  obtain ⟨vars, _, done⟩ := Results.of_bind done
  cases done
  exact ⟨rfl, rfl, rfl⟩

theorem Machine.scopes_leaving {final : Machine} {caller : Activation}
    (parked : final.parked ≠ []) : (final.leaving caller).scopes = final.parked := by
  unfold leaving unpark scopes
  rw [List.getLast?_eq_some_getLast parked]
  exact List.dropLast_concat_getLast parked

namespace Discipline

/-- Work may write to parked scopes only at places that can be reached. -/
def isolation (reach : List Place) : Discipline where
  Inv := Machine.Aimed reach
  Step before after :=
    ScopesKept reach before.parked after.parked ∧
      ∀ key ∈ before.scope.vars.keys, key ∈ after.scope.vars.keys
  Spot m place :=
    ∀ frame key, place = .slot frame key → HasSlot m.scopes frame key ∧
      (frame < m.parked.length → place ∈ reach)
  step_refl m := ⟨.refl _, fun _ known => known⟩
  step_trans first second :=
    ⟨first.1.trans second.1, fun key known => second.2 key (first.2 key known)⟩
  spot_step {first second place} step spot frame key same := by
    obtain ⟨has, reachable⟩ := spot frame key same
    rw [step.1.length]
    refine ⟨?_, reachable⟩
    rw [Machine.hasSlot_scopes_iff] at has ⊢
    rw [step.1.length]
    exact has.imp step.1.hasSlot fun own => ⟨own.1, step.2 key own.2⟩

/-- Work leaves all scopes alone, except for the values at some places. -/
def sparing (places : List Place) : Discipline where
  Inv _ := True
  Step before after := ScopesKept places before.scopes after.scopes
  step_refl _ := .refl _
  step_trans first second := first.trans second

variable {reach : List Place} {m : Machine} {name : String}

theorem isolation_same {next : Machine} (inv : m.Aimed reach) (same : m.SameScopes next) :
    (isolation reach).Keeps m next := by
  obtain ⟨scope, parked⟩ := same
  have kept : ScopesKept reach m.parked next.parked := by
    rw [parked]
    exact .refl _
  refine ⟨Machine.Aimed.after inv (by rw [scope]) kept, kept, fun key known => ?_⟩
  rw [scope]
  exact known

theorem isolation_shallow (reach : List Place) : (isolation reach).Shallow where
  same same _ inv := isolation_same inv same
  val _ := trivial
  code _ _ := trivial
  callable _ := trivial
  cause _ _ := trivial

theorem sparing_shallow (places : List Place) : (sparing places).Shallow where
  same {m next} same _ _ := by
    obtain ⟨scope, parked⟩ := same
    refine ⟨trivial, ?_⟩
    show ScopesKept places (m.parked ++ [m.scope]) (next.parked ++ [next.scope])
    rw [scope, parked]
    exact .refl _
  val _ := trivial
  code _ _ := trivial
  callable _ := trivial
  cause _ _ := trivial

theorem isolation_spot {place : Place} (inv : m.Aimed reach)
    (found : m.placeOf? name = some place) :
    (isolation reach).Spot m place := by
  rintro frame key rfl
  unfold Machine.placeOf? at found
  dsimp only at found
  split at found
  · next aimed =>
    cases found
    obtain ⟨reachable, has⟩ := inv.of_get? aimed
    exact ⟨Machine.hasSlot_scopes_iff.mpr (.inl has), fun _ => reachable⟩
  · split at found
    · next known =>
      cases found
      refine ⟨Machine.hasSlot_scopes_iff.mpr (.inr ⟨rfl, Table.contains_iff.mp known⟩),
        fun below => ?_⟩
      exact absurd below (Nat.lt_irrefl _)
    · cases found

theorem isolation_setVariable {value : Value} {next : Machine} (inv : m.Aimed reach)
    (assigned : m.setVariable name value = .ok next) :
    (isolation reach).Keeps m next := by
  cases Machine.assigns_of_setVariable assigned with
  | own =>
    refine ⟨inv.after rfl (.refl _ : ScopesKept reach _ _), .refl _, fun key known => ?_⟩
    exact Table.mem_keys_insert.mpr (.inr known)
  | @slot frame key aimed =>
    obtain ⟨reachable, has⟩ := inv.of_get? aimed
    have kept :
        ScopesKept reach m.parked (m.parked.modify frame (fun scope => scope.assign key value)) :=
      .assign reachable has
    exact ⟨inv.after rfl kept, kept, fun key known => known⟩
  | field | element => exact isolation_same inv ⟨rfl, rfl⟩

theorem isolation_laws (reach : List Place) (host : Host) : (isolation reach).Laws host :=
  (isolation_shallow reach).laws isolation_spot (fun _ _ same => nomatch same)
    (fun _ _ same => nomatch same) isolation_setVariable

theorem isolation_scoping (reach : List Place) : (isolation reach).Scoping :=
  (isolation_shallow reach).scoping

theorem isolation_bindLocal {value : Value} (inv : m.Aimed reach) :
    (isolation reach).Keeps m (m.bindLocal name value) := by
  refine ⟨⟨Table.nodup_erase inv.distinct, fun held => inv.aimed (Table.mem_erase held)⟩,
    .refl _, ?_⟩
  exact fun key known => Table.mem_keys_insert.mpr (.inr known)

theorem isolation_bindPlace {place : Place} (inv : m.Aimed reach) (reachable : place ∈ reach)
    (has : ∀ frame key, place = .slot frame key → HasSlot m.parked frame key) :
    (isolation reach).Inv (m.bindPlace name place) ∧
      (isolation reach).Step m (m.bindPlace name place) := by
  refine ⟨⟨Table.nodup_insert inv.distinct, fun held => ?_⟩, .refl _, fun key known => known⟩
  rcases Table.mem_insert held with same | held
  · cases same
    exact ⟨reachable, has _ _ rfl⟩
  · exact inv.aimed held

/-- The body of a function is isolated by the places that its parameters stand for, and coming back
from it leaves all scopes alone except there. -/
theorem isolation_entry {D : Discipline} {args : List Arg} {self : Evaluator} {parked : Machine}
    {overload : Overload} (nested : Nested D (isolation (boundPlaces m.heap overload.params args)))
    (hooks : (isolation (boundPlaces m.heap overload.params args)).Hooks self self)
    (has : ∀ place ∈ boundPlaces m.heap overload.params args, m.Has place)
    (done : m.park = .ok parked)
    (left : ∀ {next}, ScopesKept (boundPlaces m.heap overload.params args) m.scopes next.scopes →
        D.Inv next ∧ D.Step m next) :
    Entry D (isolation (boundPlaces m.heap overload.params args)) self self m parked overload
      args := by
  obtain ⟨scopes, places, heap⟩ := Machine.park_scopes done
  have scopes : (parked.entering overload).parked = m.scopes := scopes
  refine
    { nested
      hooks
      draining := (isolation_scoping _).toDraining
      entered := ⟨?_, ?_⟩
      code := trivial
      values := fun _ _ => trivial
      bindLocal := fun inv _ => isolation_bindLocal inv
      bindPlace := fun inv step bound =>
        isolation_bindPlace inv (heap ▸ bound) fun frame key same => ?_
      left := fun {final} _ step => left ?_ }
  · show parked.scope.places.keys.Nodup
    rw [places]
    exact List.nodup_nil
  · intro name frame key held
    have held : (name, Place.slot frame key) ∈ parked.scope.places.entries := held
    rw [places] at held
    cases held
  · have exists_ := has _ (heap ▸ bound) frame key same
    rw [← scopes] at exists_
    exact step.1.hasSlot exists_
  · have kept := step.1
    rw [scopes] at kept
    have inhabited : final.parked ≠ [] := by
      intro empty
      have length := kept.length
      rw [empty] at length
      simp [Machine.scopes] at length
    rw [Machine.scopes_leaving inhabited]
    exact kept

/-- A call under isolation: the places of its arguments can be reached if they are those of a scope
that is parked already. -/
theorem isolation_call {args : List Arg} {self : Evaluator} {parked : Machine} {overload : Overload}
    (hooks : (isolation (boundPlaces m.heap overload.params args)).Hooks self self)
    (inv : m.Aimed reach) (good : (isolation reach).GoodArgs args m) (done : m.park = .ok parked) :
    ∃ E, Entry (isolation reach) E self self m parked overload args := by
  have spot {place : Place} (bound : place ∈ boundPlaces m.heap overload.params args) :
      (isolation reach).Spot m place := by
    obtain ⟨arg, among, taken⟩ := mem_of_mem_boundPlaces bound
    exact (good arg among).2 place taken
  refine ⟨_, isolation_entry ⟨id, id, id, id⟩ hooks (fun place bound frame key same => ?_) done
    fun {next} kept => ?_⟩
  · exact (spot bound frame key same).1
  · have outer : ScopesKept reach m.parked next.parked := by
      refine kept.outer fun frame key below bound => ?_
      exact (spot bound frame key rfl).2 below
    have own : m.scope.Kept
        (boundPlaces m.heap overload.params args) m.parked.length next.scope := by
      refine kept.kept (by simp [Machine.scopes]) ?_
      rw [← outer.length]
      simp [Machine.scopes]
    refine ⟨inv.after own.places outer, outer, fun key known => ?_⟩
    rw [own.keys]
    exact known

end Discipline

end MicroBasic
