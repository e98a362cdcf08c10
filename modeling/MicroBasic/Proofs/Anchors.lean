import Mathlib.Data.List.Forall2
import MicroBasic.Proofs.Balance
import MicroBasic.Proofs.Isolation.Scopes
import MicroBasic.Proofs.Typing

/-!
# Places are always there

A parameter passed by reference stands for a place: a variable of a scope further out, a field of a
record or an element of an array. At every moment of every run the variable or field is there. A
variable that a name stands for is in a scope outside the one of the name, and is a variable of its
own there, not a name that stands for a place in turn. So reading and writing a variable or a field
through a parameter never fails, and a call cannot fail to copy the variables of its caller but for
an array that has become too short.

The number of a scope is known before the scope is parked, while further arguments are still
evaluated. What carries the argument over is that the evaluation of an argument leaves the current
scope with the names that stand for places, and takes no variable away. This is not so while the
parameters of a function are bound, but then no place in its scope has been taken yet. There is
therefore a discipline for every table of the places that the names of a scope stand for, and
binding is under one that does not say which they are.
-/

namespace MicroBasic

/-- A place is there, seen from a scope inside some others: as a variable of its own in one of
these, or as a field of a record. -/
def Place.IsIn (heap : Heap) (scopes : List Scope) : Place → Prop
  | .slot frame key =>
    ∃ scope, scopes[frame]? = some scope ∧ key ∈ scope.vars.keys ∧ key ∉ scope.places.keys
  | .field ref name => (heap.record ref).has name = true
  | .element _ _ => True

/-- Whatever place a name of one of some scopes stands for is there, seen from that scope. -/
def ScopesAnchored (heap : Heap) (scopes : List Scope) : Prop :=
  ∀ (depth : Nat) (scope : Scope), scopes[depth]? = some scope →
    ∀ (name : String) (place : Place), (name, place) ∈ scope.places.entries →
      place.IsIn heap (scopes.take depth)

/-- Whatever place a name of any scope stands for is there, seen from that scope. -/
def Machine.Anchored (m : Machine) : Prop :=
  ScopesAnchored m.heap m.scopes

theorem scopesAnchored_concat {heap : Heap} {scopes : List Scope} {scope : Scope} :
    ScopesAnchored heap (scopes ++ [scope]) ↔ ScopesAnchored heap scopes ∧
      ∀ name place, (name, place) ∈ scope.places.entries → place.IsIn heap scopes := by
  constructor
  · intro anchored
    refine ⟨fun depth other found name place among => ?_, fun name place among => ?_⟩
    · have inside := (List.getElem?_eq_some_iff.mp found).1
      have there :=
        anchored depth other (by rw [List.getElem?_append_left inside, found]) name place among
      rw [List.take_append_of_le_length (Nat.le_of_lt inside)] at there
      exact there
    · have there := anchored scopes.length scope List.getElem?_concat_length name place among
      rw [List.take_left' rfl] at there
      exact there
  · rintro ⟨outer, own⟩ depth other found name place among
    have inside := (List.getElem?_eq_some_iff.mp found).1
    rw [List.length_append, List.length_singleton] at inside
    rcases Nat.lt_succ_iff_lt_or_eq.mp inside with inside | rfl
    · rw [List.getElem?_append_left inside] at found
      rw [List.take_append_of_le_length (Nat.le_of_lt inside)]
      exact outer depth other found name place among
    · rw [List.getElem?_concat_length] at found
      cases found
      rw [List.take_left' rfl]
      exact own name place among

/-- A scope has the names that stand for places which it had, and no variable was taken away. -/
structure Scope.Retains (before after : Scope) : Prop where
  places : after.places = before.places
  vars : ∀ key ∈ before.vars.keys, key ∈ after.vars.keys

theorem Scope.Retains.refl (scope : Scope) : scope.Retains scope :=
  ⟨rfl, fun _ known => known⟩

theorem Scope.Retains.trans {first second third : Scope} (before : first.Retains second)
    (after : second.Retains third) : first.Retains third :=
  ⟨after.places.trans before.places, fun key known => after.vars key (before.vars key known)⟩

/-- No record loses a field. -/
def Heap.Retains (before after : Heap) : Prop :=
  ∀ ref name, (before.record ref).has name = true → (after.record ref).has name = true

namespace Heap.Retains

variable {heap : Heap}

theorem of_records {next : Heap} (same : next.records = heap.records) : heap.Retains next := by
  intro ref name has
  unfold Heap.record
  rw [same]
  exact has

theorem of_record? {next : Heap}
    (kept : ∀ ref record, heap.record? ref = some record → next.record? ref = some record) :
    heap.Retains next := by
  intro ref name has
  cases found : heap.record? ref with
  | none =>
    unfold Heap.record? at found
    unfold Heap.record at has
    rw [Array.getD_eq_getD_getElem?, found] at has
    cases has
  | some record =>
    have later := kept ref record found
    unfold Heap.record? at found later
    unfold Heap.record at has ⊢
    rw [Array.getD_eq_getD_getElem?, found] at has
    rw [Array.getD_eq_getD_getElem?, later]
    exact has

theorem setRecord {ref : RecordRef} {changed : Record}
    (kept : ∀ name, (heap.record ref).has name = true → changed.has name = true) :
    heap.Retains (heap.setRecord ref changed) := by
  intro other name has
  unfold Heap.record Heap.setRecord
  rw [Array.getD_eq_getD_getElem?, Array.getElem?_setIfInBounds]
  split
  · next same =>
    have equal : ref = other := by
      cases ref
      cases other
      exact congrArg RecordRef.mk same
    subst equal
    split
    · exact kept name has
    · next outside =>
      unfold Heap.record at has
      rw [Array.getD_eq_getD_getElem?, Array.getElem?_eq_none (Nat.le_of_not_lt outside)] at has
      cases has
  · unfold Heap.record at has
    rw [Array.getD_eq_getD_getElem?] at has
    exact has

theorem grown {Known : TypeDecl → Prop} {Val : Value → Prop} {next : Heap}
    (grows : heap.Grows Known Val next) : heap.Retains next := by
  have pushed (heap : Heap) (record : Record) : heap.Retains (heap.newRecord record).2 := by
    refine of_record? fun ref other found => ?_
    have inside : ref.index < heap.records.size := (Array.getElem?_eq_some_iff.mp found).1
    unfold record? Heap.newRecord at *
    rw [Array.getElem?_push_lt inside, ← found, Array.getElem?_eq_getElem inside]
  induction grows with
  | none => exact fun _ _ has => has
  | array _ _ kept => exact kept
  | untyped _ _ _ kept | typed _ _ _ _ kept =>
    exact fun ref name has => pushed _ _ ref name (kept ref name has)

end Heap.Retains

/-- The functions of a host take no field from a record. -/
def Host.RetainsFields (host : Host) : Prop :=
  ∀ ref args state,
    match host.invoke ref args state with
    | .ok _ next => state.heap.Retains next.heap
    | .error (.fault _) next => state.heap.Retains next.heap
    | .error (.awaiting _) _ => True

theorem Host.SparesRecords.retainsFields {host : Host} (spares : host.SparesRecords) :
    host.RetainsFields := by
  intro ref args state
  have spared := spares ref args state
  match host.invoke ref args state, spared with
  | .ok _ _, spared | .error (.fault _) _, spared => exact .of_record? spared.kept
  | .error (.awaiting _) _, _ => trivial

theorem Place.IsIn.mono {before after : List Scope} {heap next : Heap} {place : Place}
    (there : place.IsIn heap before) (fields : heap.Retains next)
    (scopes : List.Forall₂ Scope.Retains before after) : place.IsIn next after := by
  cases place with
  | slot frame key =>
    obtain ⟨scope, found, known, free⟩ := there
    have inside := (List.getElem?_eq_some_iff.mp found).1
    have within : frame < after.length := scopes.length_eq ▸ inside
    have retains : scope.Retains after[frame] := by
      have pointwise := scopes.get inside within
      rw [List.get_eq_getElem, List.get_eq_getElem] at pointwise
      rw [List.getElem?_eq_getElem inside] at found
      cases found
      exact pointwise
    refine ⟨after[frame], List.getElem?_eq_getElem within, retains.vars key known, ?_⟩
    rw [retains.places]
    exact free
  | field ref name => exact fields ref name there
  | element array index => trivial

theorem Place.IsIn.append {heap : Heap} {scopes others : List Scope} {place : Place}
    (there : place.IsIn heap scopes) : place.IsIn heap (scopes ++ others) := by
  cases place with
  | slot frame key =>
    obtain ⟨scope, found, known, free⟩ := there
    have inside := (List.getElem?_eq_some_iff.mp found).1
    exact ⟨scope, by rw [List.getElem?_append_left inside]; exact found, known, free⟩
  | field ref name => exact there
  | element array index => trivial

/-- Two machines of which the second retains what is in the scopes and records of the first. -/
structure Machine.Retains (before after : Machine) : Prop where
  fields : before.heap.Retains after.heap
  parked : List.Forall₂ Scope.Retains before.parked after.parked
  own : before.scope.Retains after.scope

namespace Machine

variable {m next : Machine}

theorem forall₂_retains_refl (scopes : List Scope) : List.Forall₂ Scope.Retains scopes scopes :=
  List.forall₂_same.mpr fun scope _ => .refl scope

theorem forall₂_retains_trans {first second third : List Scope}
    (before : List.Forall₂ Scope.Retains first second)
    (after : List.Forall₂ Scope.Retains second third) : List.Forall₂ Scope.Retains first third := by
  induction before generalizing third with
  | nil => exact after
  | cons retains _ ih =>
    cases after with
    | cons later others => exact .cons (retains.trans later) (ih others)

theorem Retains.of_fields (fields : m.heap.Retains next.heap) (same : m.SameScopes next) :
    m.Retains next where
  fields := fields
  parked := same.2 ▸ forall₂_retains_refl m.parked
  own := same.1 ▸ .refl m.scope

theorem Retains.of_same (same : m.SameScopes next) (records : next.heap.records = m.heap.records) :
    m.Retains next :=
  .of_fields (.of_records records) same

theorem Retains.scopes (retains : m.Retains next) :
    List.Forall₂ Scope.Retains m.scopes next.scopes :=
  List.rel_append retains.parked (.cons retains.own .nil)

theorem Retains.of_scopes (fields : m.heap.Retains next.heap)
    (scopes : List.Forall₂ Scope.Retains m.scopes next.scopes) : m.Retains next := by
  have inward := List.rel_reverse scopes
  unfold Machine.scopes at inward
  rw [List.reverse_concat, List.reverse_concat] at inward
  cases inward with
  | cons own parked =>
    have parked := List.rel_reverse parked
    rw [List.reverse_reverse, List.reverse_reverse] at parked
    exact ⟨fields, parked, own⟩

theorem Anchored.after (anchored : m.Anchored) (retains : m.Retains next) : next.Anchored := by
  intro depth scope found name place among
  have inside := (List.getElem?_eq_some_iff.mp found).1
  have before : depth < m.scopes.length := by
    rw [retains.scopes.length_eq]
    exact inside
  have kept := retains.scopes.get before inside
  rw [List.get_eq_getElem, List.get_eq_getElem] at kept
  rw [List.getElem?_eq_getElem inside] at found
  cases found
  rw [kept.places] at among
  exact (anchored depth _ (List.getElem?_eq_getElem before) name place among).mono retains.fields
    (List.forall₂_take depth retains.scopes)

theorem Anchored.own {name : String} {place : Place} (anchored : m.Anchored)
    (among : (name, place) ∈ m.scope.places.entries) :
    place.IsIn m.heap m.parked :=
  (scopesAnchored_concat.mp anchored).2 name place among

theorem Anchored.rebound (anchored : m.Anchored) {scope : Scope}
    (own : ∀ name place, (name, place) ∈ scope.places.entries →
      place.IsIn m.heap m.parked) : Machine.Anchored { m with scope } :=
  scopesAnchored_concat.mpr ⟨(scopesAnchored_concat.mp anchored).1, own⟩

end Machine

namespace Discipline

/-- All places are there. Where the places of the current scope are fixed, evaluation leaves them as
they are and takes no variable away, so that the places of arguments stay there as well. -/
def anchoring (fixed : Option (Table String Place)) : Discipline where
  Inv m := m.Anchored ∧ ∀ places, fixed = some places → m.scope.places = places
  Step before after :=
    before.heap.Retains after.heap ∧ List.Forall₂ Scope.Retains before.parked after.parked ∧
      (fixed.isSome → before.scope.Retains after.scope)
  Spot m place := fixed.isSome → place.IsIn m.heap m.scopes
  step_refl m :=
    ⟨fun _ _ has => has, Machine.forall₂_retains_refl m.parked, fun _ => .refl m.scope⟩
  step_trans first second :=
    ⟨fun ref name has => second.1 ref name (first.1 ref name has),
      Machine.forall₂_retains_trans first.2.1 second.2.1, fun known =>
        (first.2.2 known).trans (second.2.2 known)⟩
  spot_step step spot known :=
    (spot known).mono step.1 (List.rel_append step.2.1 (.cons (step.2.2 known) .nil))

variable {fixed : Option (Table String Place)} {m next : Machine} {host : Host}
  {settings : Settings} {observe : Moment → Exec Unit}

theorem anchoring_united (fixed : Option (Table String Place)) : (anchoring fixed).United :=
  ⟨fun _ _ _ _ parted => parted, fun _ _ strayed => strayed⟩

theorem anchoring_retains (inv : (anchoring fixed).Inv m) (retains : m.Retains next) :
    (anchoring fixed).Keeps m next := by
  refine ⟨⟨inv.1.after retains, fun places known => ?_⟩, retains.fields, retains.parked,
    fun _ => retains.own⟩
  exact retains.own.places.trans (inv.2 places known)

theorem anchoring_same (inv : (anchoring fixed).Inv m) (same : m.SameScopes next)
    (records : next.heap.records = m.heap.records) :
    (anchoring fixed).Keeps m next :=
  anchoring_retains inv (.of_same same records)

theorem anchoring_spot {name : String} {place : Place} (inv : (anchoring fixed).Inv m)
    (found : m.placeOf? name = some place) : (anchoring fixed).Spot m place := by
  intro _
  unfold Machine.placeOf? at found
  dsimp only at found
  split at found
  · next stands =>
    cases found
    exact (inv.1.own (Table.mem_of_get? stands)).append
  · next absent =>
    split at found
    · next known =>
      cases found
      refine ⟨m.scope, by simp [Machine.scopes], Table.contains_iff.mp known, fun placed => ?_⟩
      have contained := Table.contains_iff.mpr placed
      rw [Table.contains, absent] at contained
      cases contained
    · cases found

theorem anchoring_setVariable {name : String} {value : Value} (inv : (anchoring fixed).Inv m)
    (assigned : m.setVariable name value = .ok next) :
    (anchoring fixed).Keeps m next := by
  have assigns (scope : Scope) (key : String) : scope.Retains (scope.assign key value) :=
    ⟨rfl, fun _ known => Table.mem_keys_insert.mpr (.inr known)⟩
  have unchanged : m.heap.Retains m.heap := fun _ _ has => has
  cases Machine.assigns_of_setVariable assigned with
  | own => exact anchoring_retains inv ⟨unchanged, Machine.forall₂_retains_refl _, assigns _ _⟩
  | @slot frame key =>
    refine anchoring_retains inv ⟨unchanged, ?_, .refl _⟩
    rw [List.forall₂_iff_get]
    refine ⟨(List.length_modify ..).symm, fun index before after => ?_⟩
    rw [List.get_eq_getElem, List.get_eq_getElem, List.getElem_modify]
    split
    · exact assigns _ _
    · exact .refl _
  | field =>
    refine anchoring_retains inv (.of_fields (.setRecord fun _ has => ?_) ⟨rfl, rfl⟩)
    exact Record.has_set has
  | element => exact anchoring_same inv ⟨rfl, rfl⟩ rfl

theorem anchoring_laws (fixed : Option (Table String Place)) (retains : host.RetainsFields) :
    (anchoring fixed).Laws host where
  grown inv grows := anchoring_retains inv (.of_fields (.grown grows) ⟨rfl, rfl⟩)
  spot_name := anchoring_spot
  spot_field {m ref name field} _ found _ :=
    Record.has_iff.mpr
      ⟨field.1, List.mem_map_of_mem (List.mem_of_find?_eq_some found), beq_self_eq_true _⟩
  spot_element _ _ _ := trivial
  outside inv := anchoring_same inv ⟨rfl, rfl⟩ rfl
  invoke {m ref args} inv _ := by
    have retained := retains ref args { heap := m.heap, world := m.world }
    split
    · next done =>
      rw [done] at retained
      exact ⟨trivial, anchoring_retains inv (.of_fields retained ⟨rfl, rfl⟩)⟩
    · next done =>
      rw [done] at retained
      exact anchoring_retains inv (.of_fields retained ⟨rfl, rfl⟩)
    · trivial
  setVariable inv _ assigned := anchoring_setVariable inv assigned
  setField inv _ _ :=
    anchoring_retains inv (.of_fields (.setRecord fun _ => Record.has_set) ⟨rfl, rfl⟩)
  insertField inv _ _ :=
    anchoring_retains inv (.of_fields (.setRecord fun _ => Record.has_insert) ⟨rfl, rfl⟩)
  setItem inv _ := anchoring_same inv ⟨rfl, rfl⟩ rfl
  defineFunction inv _ _ _ := anchoring_same inv ⟨rfl, rfl⟩ rfl
  defineProperty inv _ _ _ := anchoring_same inv ⟨rfl, rfl⟩ rfl
  defineType inv _ := anchoring_same inv ⟨rfl, rfl⟩ rfl
  deferBlock inv _ := anchoring_same inv ⟨rfl, rfl⟩ rfl

theorem anchoring_scoping (fixed : Option (Table String Place)) : (anchoring fixed).Scoping where
  counted inv := anchoring_same inv ⟨rfl, rfl⟩ rfl
  hoisted inv := anchoring_same inv ⟨rfl, rfl⟩ rfl
  targeted _ inv _ := anchoring_same inv ⟨rfl, rfl⟩ rfl
  emptied inv := anchoring_same inv ⟨rfl, rfl⟩ rfl
  started inv _ := ⟨(anchoring_same inv ⟨rfl, rfl⟩ rfl).1, trivial⟩
  ended {m block others final} result _ _ kept step := by
    obtain ⟨kept, last⟩ :=
      @anchoring_same fixed final (final.concluding result m.activation.loops) kept ⟨rfl, rfl⟩ rfl
    exact ⟨kept, (anchoring fixed).step_trans step last⟩

theorem Agree.coarsen {E D : Discipline} {α : Type} {Good Weak : α → Machine → Prop}
    {left right : EStateM.Result Escape Machine α} (nested : Nested E D)
    (inv : ∀ {final}, D.Inv final → E.Inv final)
    (step : ∀ {final}, D.Step m final → E.Step m final)
    (good : ∀ {value final}, Good value final → Weak value final)
    (agree : D.Agree m Good left right) : E.Agree m Weak left right := by
  cases agree with
  | value kept later held => exact .value (inv kept) (step later) (good held)
  | error kept later allowed => exact .error (inv kept) (step later) (nested.allows allowed)
  | halt kept later => exact .halt (inv kept) (step later)
  | awaiting => exact .awaiting
  | parted parted => exact .parted (nested.parted parted)
  | strayed strayed => exact .strayed (nested.strayed strayed)

theorem anchoring_unfixed {self : Evaluator} (retains : self.host.RetainsFields)
    (hooks : ∀ places, (anchoring (some places)).Hooks self self) :
    (anchoring none).Hooks self self := by
  have nested (places : Table String Place) : Nested (anchoring none) (anchoring (some places)) :=
    ⟨id, id, id, id⟩
  have inv {places : Table String Place} {final : Machine}
      (kept : (anchoring (some places)).Inv final) : (anchoring none).Inv final := ⟨kept.1, nofun⟩
  have step {places : Table String Place} {m final : Machine}
      (step : (anchoring (some places)).Step m final) : (anchoring none).Step m final :=
    ⟨step.1, step.2.1, nofun⟩
  have at_own {m : Machine} (anchored : m.Anchored) : (anchoring (some m.scope.places)).Inv m :=
    ⟨anchored, fun _ same => Option.some.inj same⟩
  exact {
    laws := anchoring_laws none retains
    host := rfl
    settings := rfl
    fuel := rfl
    eval := fun fine kept => ((hooks _).eval fine (at_own kept.1)).coarsen (nested _) inv step id
    exec := fun kept _ => ((hooks _).exec (at_own kept.1) trivial).coarsen (nested _) inv step
      fun good => (nested _).goodSignal good }

/-- While the body of a function runs, its places are those of the arguments, which are in the
scopes of its callers. -/
theorem anchoring_entry {self : Evaluator} {places : Table String Place} {args : List Arg}
    {parked : Machine} {overload : Overload} (hooks : (anchoring none).Hooks self self)
    (inv : (anchoring (some places)).Inv m)
    (good : (anchoring (some places)).GoodArgs args m) (done : m.park = .ok parked) :
    Entry (anchoring (some places)) (anchoring none) self self m parked overload args := by
  obtain ⟨scopes, placeless, heap⟩ := Machine.park_scopes done
  refine
    { nested := ⟨id, id, id, id⟩
      hooks
      draining := (anchoring_scoping none).toDraining
      entered := ⟨?_, nofun⟩
      code := trivial
      values := fun _ _ => trivial
      bindLocal := fun {next name value} kept _ => ?_
      bindPlace := fun {next name place} kept step bound => ?_
      left := fun {final} kept step => ?_ }
  · show ScopesAnchored parked.heap (parked.parked ++ [parked.scope])
    rw [scopes, heap, scopesAnchored_concat, placeless]
    exact ⟨inv.1, nofun⟩
  · refine ⟨⟨kept.1.rebound fun other place among => kept.1.own (Table.mem_erase among), nofun⟩, ?_⟩
    exact ⟨fun _ _ has => has, Machine.forall₂_retains_refl _, nofun⟩
  · have there : place.IsIn next.heap next.parked := by
      obtain ⟨arg, among, taken⟩ := mem_of_mem_boundPlaces bound
      have given := (good arg among).2 place taken rfl
      rw [← scopes, ← heap] at given
      exact given.mono step.1 step.2.1
    refine ⟨⟨kept.1.rebound fun other held among => ?_, nofun⟩, ?_⟩
    · rcases Table.mem_insert among with same | among
      · cases same
        exact there
      · exact kept.1.own among
    · exact ⟨fun _ _ has => has, Machine.forall₂_retains_refl _, nofun⟩
  · have outer : List.Forall₂ Scope.Retains m.scopes final.parked := scopes ▸ step.2.1
    have inhabited : final.parked ≠ [] := by
      intro empty
      rw [empty] at outer
      have length := outer.length_eq
      simp [Machine.scopes] at length
    have back := @Machine.scopes_leaving final parked.activation inhabited
    have unchanged : (final.leaving parked.activation).heap = final.heap := by
      obtain ⟨_, _, unparked⟩ := final.unpark_eq
      rw [Machine.leaving, unparked]
    have retains : m.Retains (final.leaving parked.activation) :=
      .of_scopes (by rw [unchanged, ← heap]; exact step.1) (by rw [back]; exact outer)
    exact anchoring_retains inv retains

/-- Nested evaluation keeps places where they are, under an observer that lets machines with such
places pass. -/
theorem anchoring_hooks (retains : host.RetainsFields)
    (passes : ∀ {places moment m}, (anchoring (some places)).Inv m →
      (anchoring (some places)).Arises moment m → observe moment m = .ok () m)
    (bound : Nat) (places : Table String Place) :
    (anchoring (some places)).Hooks (observedEvaluator observe settings host bound)
      (observedEvaluator observe settings host bound) := by
  refine Hooks.passing (fun places => anchoring_laws (some places) retains)
    (fun places => (anchoring_scoping (some places)).toSteady)
    (fun places => anchoring_united (some places)) (fun _ => .of_all fun _ _ => trivial)
    (fun _ => trivial) passes (fun hooks inv _ good done => ?_) bound places
  refine ⟨_, anchoring_entry (anchoring_unfixed ?_ hooks) inv good done⟩
  rw [observedEvaluator_host]
  exact retains

/-- The statements of a program keep places where they are, under an observer that lets machines
with such places pass. -/
theorem anchoring_statements {places : Table String Place} {block : Block}
    (retains : host.RetainsFields) (passes : ∀ {places moment m}, (anchoring (some places)).Inv m →
      (anchoring (some places)).Arises moment m → observe moment m = .ok () m)
    (bound : Nat) (inv : (anchoring (some places)).Inv m) :
    (anchoring (some places)).Ends m
      ((anchoring (some places)).GoodEnd (anchoring (some places)).GoodSignal)
      (Run.statements (observedEvaluator observe settings host bound) block m) :=
  Agree.ends (anchoring_united _) <|
    (anchoring_hooks retains passes bound places).statements_sound (anchoring_united _).1
      (anchoring_scoping _).toDraining ((anchoring_scoping _).registering block) inv trivial
      fun _ _ _ _ => trivial

end Discipline

namespace Machine

variable {m : Machine} {place : Place}

theorem readPlace_of_isIn (there : place.IsIn m.heap m.parked)
    (direct : ∀ array index, place ≠ .element array index) :
    ∃ value, m.readPlace place = .ok value := by
  cases place with
  | slot frame key =>
    obtain ⟨scope, found, known, _⟩ := there
    obtain ⟨value, held⟩ := Option.isSome_iff_exists.mp (Table.contains_iff.mpr known)
    refine ⟨value, ?_⟩
    simp only [readPlace, found, Option.bind_some]
    rw [show scope.vars.get? key = some value from held]
    rfl
  | field ref name =>
    obtain ⟨field, held⟩ := Option.isSome_iff_exists.mp there
    refine ⟨field.2, ?_⟩
    simp only [readPlace, Record.get?, held, Option.map_some]
    rfl
  | element array index => exact absurd rfl (direct array index)

theorem writePlace_of_isIn (there : place.IsIn m.heap m.parked)
    (direct : ∀ array index, place ≠ .element array index) (value : Value) :
    ∃ next, m.writePlace place value = .ok next := by
  cases place with
  | slot frame key =>
    obtain ⟨scope, found, _⟩ := there
    have inside := (List.getElem?_eq_some_iff.mp found).1
    exact ⟨_, if_pos inside⟩
  | field ref name => exact ⟨_, rfl⟩
  | element array index => exact absurd rfl (direct array index)

theorem snapshot_error {fault : Fault} {read : Place → Except Fault Value}
    {entries : List (String × Place)}
    {start : Table String Value}
    (failed : entries.foldlM
      (fun vars entry => do return vars.insert entry.1 (← read entry.2)) start = .error fault) :
    ∃ name place, (name, place) ∈ entries ∧ read place = .error fault := by
  induction entries generalizing start with
  | nil => cases failed
  | cons entry rest ih =>
    rw [List.foldlM_cons] at failed
    cases first : read entry.2 with
    | error other =>
      rw [first] at failed
      cases failed
      exact ⟨entry.1, entry.2, List.mem_cons_self, first⟩
    | ok value =>
      rw [first] at failed
      obtain ⟨name, place, among, lost⟩ := ih failed
      exact ⟨name, place, List.mem_cons_of_mem entry among, lost⟩

end Machine

/-- Places are there at a moment of a run, and what follows from it. -/
structure PlacesThere (moment : Moment) (m : Machine) : Prop where
  /-- A name of any scope that stands for a variable stands for one of a scope further out, which is
  not itself a name that stands for a place. -/
  slots : ∀ (depth : Nat) (scope : Scope), m.scopes[depth]? = some scope →
    ∀ name frame key, (name, Place.slot frame key) ∈ scope.places.entries →
      frame < depth ∧ ∃ owner, m.scopes[frame]? = some owner ∧ key ∈ owner.vars.keys ∧
        key ∉ owner.places.keys
  /-- A name of any scope that stands for a field stands for one that its record has. -/
  fields : ∀ (depth : Nat) (scope : Scope), m.scopes[depth]? = some scope →
    ∀ name ref field, (name, Place.field ref field) ∈ scope.places.entries →
      (m.heap.record ref).has field = true
  /-- The places of the arguments of a call are there before its scope begins. -/
  offered : ∀ overload args, moment = .call overload args → ∀ arg ∈ args, ∀ place,
    arg.place = some place → place.IsIn m.heap m.scopes
  /-- A name that stands for a variable or a field has a value. -/
  read : ∀ name place, m.scope.places.get? (Text.stripSuffix name) = some place →
    (∀ array index, place ≠ .element array index) → ∃ value, m.readVariable name = .ok (some value)
  /-- A name that stands for a variable or a field may be given a value. -/
  written : ∀ name place value, m.scope.places.get? (Text.stripSuffix name) = some place →
    (∀ array index, place ≠ .element array index) → ∃ next, m.setVariable name value = .ok next
  /-- A scope fails to be parked only where a name stands for an element that its array no longer
  has. -/
  parked : ∀ fault, m.park = .error fault → ∃ name array index,
    (name, Place.element array index) ∈ m.scope.places.entries ∧ (m.heap.items array).size ≤ index ∧
      fault = .indexOutOfRange index.toFloat (m.heap.items array).size

theorem Machine.Anchored.placesThere {m : Machine} {moment : Moment} (anchored : m.Anchored)
    (offered : ∀ overload args, moment = .call overload args → ∀ arg ∈ args, ∀ place,
      arg.place = some place → place.IsIn m.heap m.scopes) :
    PlacesThere moment m where
  slots depth scope found name frame key among := by
    obtain ⟨owner, there, known, free⟩ := anchored depth scope found name _ among
    have inside := (List.getElem?_eq_some_iff.mp there).1
    have below : frame < depth := Nat.lt_of_lt_of_le inside (List.length_take_le ..)
    rw [List.getElem?_take_of_lt below] at there
    exact ⟨below, owner, there, known, free⟩
  fields depth scope found name ref field among := anchored depth scope found name _ among
  offered := offered
  read name place stands direct := by
    obtain ⟨value, held⟩ := readPlace_of_isIn (anchored.own (Table.mem_of_get? stands)) direct
    refine ⟨value, ?_⟩
    simp only [readVariable, stands, held]
    rfl
  written name place value stands direct := by
    obtain ⟨next, done⟩ := writePlace_of_isIn (anchored.own (Table.mem_of_get? stands)) direct value
    refine ⟨next, ?_⟩
    simp only [setVariable, stands, done]
  parked fault failed := by
    have lost : m.snapshot = .error fault := by
      unfold park at failed
      cases taken : m.snapshot with
      | ok vars =>
        rw [taken] at failed
        cases failed
      | error other =>
        rw [taken] at failed
        cases failed
        rfl
    obtain ⟨name, place, among, lost⟩ := snapshot_error lost
    by_cases element : ∃ array index, place = .element array index
    · obtain ⟨array, index, rfl⟩ := element
      refine ⟨name, array, index, among, ?_⟩
      simp only [readPlace] at lost
      cases found : (m.heap.items array)[index]? with
      | some value =>
        rw [found] at lost
        cases lost
      | none =>
        rw [found] at lost
        cases lost
        exact ⟨Array.getElem?_eq_none_iff.mp found, rfl⟩
    · obtain ⟨value, held⟩ := readPlace_of_isIn (anchored.own among) fun array index same =>
        element ⟨array, index, same⟩
      rw [held] at lost
      cases lost

theorem Machine.Rested.anchored {m : Machine} (rested : m.Rested) : m.Anchored := by
  unfold Anchored scopes
  rw [scopesAnchored_concat, rested.parked, rested.places]
  exact ⟨nofun, nofun⟩

theorem Reached.always_anchored {history : List Program} {interpreter : Interpreter}
    {asserted : Moment → Machine → Prop} (reached : Reached history interpreter)
    (retains : interpreter.host.RetainsFields)
    (holds : ∀ {places moment m}, (Discipline.anchoring (some places)).Inv m →
      (Discipline.anchoring (some places)).Arises moment m → asserted moment m)
        (program : Program) :
    interpreter.Always program asserted := by
  intro bound final stopped
  have begun : (Discipline.anchoring (some .empty)).Inv
      (Run.begin interpreter.settings program interpreter.machine) := by
    refine ⟨reached.rested.anchored, ?_⟩
    rintro _ ⟨⟩
    exact reached.rested.places
  have ends := @Discipline.anchoring_statements _ _ interpreter.settings (assertion asserted) .empty
    program.statements retains (fun inv arises => assertion_holds (holds inv arises)) bound begun
  have stopped : Run.statements _ program.statements _ = .error .stopped final := stopped
  rw [stopped] at ends
  exact ends

/-- In every session, between runs and at every moment of every run, the places that names stand for
are there. -/
theorem places_never_dangle {history : List Program} {interpreter : Interpreter}
    (reached : Reached history interpreter) (retains : interpreter.host.RetainsFields)
    (program : Program) :
    interpreter.machine.Anchored ∧ interpreter.Always program PlacesThere := by
  refine ⟨reached.rested.anchored, reached.always_anchored retains (fun inv arises => ?_) program⟩
  refine inv.1.placesThere ?_
  rintro overload args rfl arg among place taken
  exact (arises.2 arg among).2 place taken rfl

/-- A program that passes a variable and a field on through two subroutines. -/
def passingOn : Program :=
  .ofSource ("SUB Inner(REF b)\nb = b + 1\nEND SUB\nSUB Outer(REF a)\nCALL Inner(a)\nEND SUB\n" ++
      "x = 1\nr = \x7bn: 1\x7d\nCALL Outer(x)\nCALL Outer(r.n)\nPRINT x + r.n")

/-- The run of that program. -/
def passingOnRun : RunResult × Interpreter :=
  (Interpreter.new .standard {} .still).runWithin 60 passingOn

/-- The program writes through its parameters, and in a second run of it all places are there again.
-/
theorem places_never_dangle_passed_on :
    passingOnRun.2.outputs = ["4"] ∧ passingOnRun.1.isAwaiting = false ∧
      passingOnRun.2.machine.Anchored ∧ passingOnRun.2.Always passingOn PlacesThere := by
  have ended : passingOnRun.2.outputs = ["4"] ∧ passingOnRun.1.isAwaiting = false := by
    decide +kernel
  have ran : (Interpreter.new .standard {} .still).runWithin 60 passingOn =
      (passingOnRun.1, passingOnRun.2) := (Prod.eta passingOnRun).symm
  have finished := ended.2
  refine ⟨ended.1, finished, ?_⟩
  -- What the run computes does not matter any more, and is long to unfold.
  generalize passingOnRun.2 = next at ran ⊢
  have reached : Reached [passingOn] next := .run (.new .standard {} .still) ran finished
  have retains : next.host.RetainsFields := by
    rw [Interpreter.host_runWithin ran]
    exact Host.standard_sparesRecords.retainsFields
  exact places_never_dangle reached retains passingOn

end MicroBasic
