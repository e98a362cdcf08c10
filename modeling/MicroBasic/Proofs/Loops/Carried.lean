import MicroBasic.Eval.Exec
import MicroBasic.Proofs.Results

/-!
# The functions that values carry

A value may carry functions of programs: a function bound to its first argument is one, and what it
is bound to may carry others. Values lie in variables, arrays and records, and the functions and
properties that were declared lie in tables. If all functions in a machine have some property, so do
those of every value that is read off it, and a change of the machine by such values keeps that.
-/

namespace MicroBasic

/-- All functions that a value carries have a property. -/
def Value.Carries (good : Overload → Prop) : Value → Prop
  | boundFunction overload receiver => good overload ∧ receiver.Carries good
  | boundHost _ receiver => receiver.Carries good
  | _ => True

theorem Value.Carries.mono {good other : Overload → Prop}
    (implies : ∀ overload, good overload → other overload) {value : Value}
    (carries : value.Carries good) : value.Carries other := by
  induction value with
  | boundFunction overload receiver ih =>
    exact ⟨implies overload carries.1, ih carries.2⟩
  | boundHost ref receiver ih => exact ih carries
  | _ => trivial

/-- All functions in the arrays and records of a heap have a property. -/
structure Heap.Carries (good : Overload → Prop) (heap : Heap) : Prop where
  arrays : ∀ items ∈ heap.arrays, ∀ value ∈ items, value.Carries good
  records : ∀ record ∈ heap.records, ∀ field ∈ record.fields, field.2.Carries good

namespace Heap.Carries

variable {good : Overload → Prop} {heap : Heap}

theorem empty : Heap.empty.Carries good where
  arrays _ among := nomatch among
  records _ among := nomatch among

section

variable (carries : heap.Carries good)

include carries

variable {ref : ArrayRef}

theorem items {value : Value} (among : value ∈ heap.items ref) : value.Carries good := by
  unfold Heap.items at among
  rw [Array.getD_eq_getD_getElem?] at among
  cases found : heap.arrays[ref.index]? with
  | none =>
    rw [found] at among
    cases among with | mk among => cases among
  | some items =>
    rw [found] at among
    exact carries.arrays items (Array.mem_of_getElem? found) value among

theorem fields {ref : RecordRef} {field : String × Value}
    (among : field ∈ (heap.record ref).fields) : field.2.Carries good := by
  unfold Heap.record at among
  rw [Array.getD_eq_getD_getElem?] at among
  cases found : heap.records[ref.index]? with
  | none =>
    rw [found] at among
    cases among
  | some record =>
    rw [found] at among
    exact carries.records record (Array.mem_of_getElem? found) field among

theorem newArray {items : Array Value}
    (carried : ∀ value ∈ items, value.Carries good) : (heap.newArray items).2.Carries good where
  arrays others among := by
    rcases Array.mem_push.mp among with among | rfl
    · exact carries.arrays others among
    · exact carried
  records := carries.records

theorem setItems {items : Array Value}
    (carried : ∀ value ∈ items, value.Carries good) : (heap.setItems ref items).Carries good where
  arrays others among := by
    rcases Array.mem_or_eq_of_mem_setIfInBounds among with among | rfl
    · exact carries.arrays others among
    · exact carried
  records := carries.records

theorem setRecord {ref : RecordRef} {record : Record}
    (carried : ∀ field ∈ record.fields, field.2.Carries good) :
    (heap.setRecord ref record).Carries good where
  arrays := carries.arrays
  records other among := by
    rcases Array.mem_or_eq_of_mem_setIfInBounds among with among | rfl
    · exact carries.records other among
    · exact carried

theorem newRecord {record : Record} (carried : ∀ field ∈ record.fields, field.2.Carries good) :
    (heap.newRecord record).2.Carries good where
  arrays := carries.arrays
  records other among := by
    rcases Array.mem_push.mp among with among | rfl
    · exact carries.records other among
    · exact carried

theorem setItem {index : Nat} {value : Value}
    (carried : value.Carries good) : (heap.setItem ref index value).Carries good where
  arrays others among other held := by
    obtain ⟨place, found⟩ := Array.mem_iff_getElem?.mp among
    simp only [Heap.setItem, Array.getElem?_modify] at found
    split at found
    · obtain ⟨items, there, rfl⟩ := Option.map_eq_some_iff.mp found
      rcases Array.mem_or_eq_of_mem_setIfInBounds held with held | rfl
      · exact carries.arrays items (Array.mem_of_getElem? there) other held
      · exact carried
    · exact carries.arrays others (Array.mem_of_getElem? found) other held
  records := carries.records

end

end Heap.Carries

namespace Record

variable {good : Overload → Prop} {record : Record} {name : String} {value : Value}

theorem carries_putField {fields : List (String × Value)} (carried : value.Carries good)
    (carries : ∀ field ∈ fields, field.2.Carries good) :
    ∀ field ∈ putField name value fields, field.2.Carries good := by
  induction fields with
  | nil => simp [putField]
  | cons field rest ih =>
    obtain ⟨first, others⟩ := List.forall_mem_cons.mp carries
    unfold putField
    split
    · exact List.forall_mem_cons.mpr ⟨carried, others⟩
    · exact List.forall_mem_cons.mpr ⟨first, ih others⟩

theorem carries_set (carried : value.Carries good)
    (carries : ∀ field ∈ record.fields, field.2.Carries good) :
    ∀ field ∈ (record.set name value).fields, field.2.Carries good :=
  carries_putField carried carries

theorem carries_insert (carried : value.Carries good)
    (carries : ∀ field ∈ record.fields, field.2.Carries good) :
    ∀ field ∈ (record.insert name value).fields, field.2.Carries good := by
  unfold insert
  split
  · exact carries_set carried carries
  · exact List.forall_mem_append.mpr ⟨carries, List.forall_mem_singleton.mpr carried⟩

end Record

/-- All functions in the variables of a scope have a property. -/
def Scope.Carries (good : Overload → Prop) (scope : Scope) : Prop :=
  ∀ entry ∈ scope.vars.entries, entry.2.Carries good

/-- All functions in a machine have a property. -/
structure Machine.Carries (good : Overload → Prop) (m : Machine) : Prop where
  scope : m.scope.Carries good
  parked : ∀ scope ∈ m.parked, scope.Carries good
  heap : m.heap.Carries good
  targets : ∀ value ∈ m.activation.targets, value.Carries good
  functions : ∀ entry ∈ m.functions.byName.entries, ∀ overload ∈ entry.2.overloads, good overload
  getters : ∀ entry ∈ m.properties.byName.entries, ∀ overload, entry.2.getter = some overload →
    good overload
  setters : ∀ entry ∈ m.properties.byName.entries, ∀ overload, entry.2.setter = some overload →
    good overload

theorem Machine.Carries.mono {good other : Overload → Prop}
    (implies : ∀ overload, good overload → other overload) {m : Machine}
    (carries : m.Carries good) : m.Carries other where
  scope entry held := (carries.scope entry held).mono implies
  parked scope among entry held := (carries.parked scope among entry held).mono implies
  heap :=
    { arrays := fun items among value held =>
      (carries.heap.arrays items among value held).mono implies
      records := fun record among field held =>
        (carries.heap.records record among field held).mono implies }
  targets value among := (carries.targets value among).mono implies
  functions entry held overload among :=
    implies overload (carries.functions entry held overload among)
  getters entry held overload same := implies overload (carries.getters entry held overload same)
  setters entry held overload same := implies overload (carries.setters entry held overload same)

theorem Scope.Carries.assign {good : Overload → Prop} {scope : Scope} {key : String} {value : Value}
    (carries : scope.Carries good) (carried : value.Carries good) :
    (scope.assign key value).Carries good := by
  intro entry held
  rcases Table.mem_insert held with rfl | held
  · exact carried
  · exact carries entry held

namespace Machine.Carries

variable {good : Overload → Prop} {m next : Machine} {value : Value} {name : String}

theorem initial (world : World) : (Machine.initial world).Carries good where
  scope _ among := nomatch among
  parked _ among := nomatch among
  heap := .empty
  targets _ among := nomatch among
  functions _ among := nomatch among
  getters _ among := nomatch among
  setters _ among := nomatch among

section

variable (carries : m.Carries good)

include carries

theorem same (alike : next.scope = m.scope ∧ next.parked = m.parked ∧ next.heap = m.heap ∧
      next.activation.targets = m.activation.targets ∧
      next.functions = m.functions ∧ next.properties = m.properties) :
    next.Carries good := by
  obtain ⟨scope, parked, heap, targets, functions, properties⟩ := alike
  constructor
  · rw [scope]
    exact carries.scope
  · rw [parked]
    exact carries.parked
  · rw [heap]
    exact carries.heap
  · rw [targets]
    exact carries.targets
  · rw [functions]
    exact carries.functions
  · rw [properties]
    exact carries.getters
  · rw [properties]
    exact carries.setters

theorem withHeap {heap : Heap} (carried : heap.Carries good) :
    Machine.Carries good { m with heap } :=
  { carries with heap := carried }

variable {place : Place} {overload : Overload}

theorem readPlace (read : m.readPlace place = .ok value) : value.Carries good := by
  unfold Machine.readPlace at read
  split at read
  · split at read
    · next found =>
      cases read
      obtain ⟨scope, there, held⟩ := Option.bind_eq_some_iff.mp found
      exact carries.parked scope (List.mem_of_getElem? there) _ (Table.mem_of_get? held)
    · cases read
  · split at read
    · next found =>
      cases read
      obtain ⟨field, held, rfl⟩ := Option.map_eq_some_iff.mp found
      exact carries.heap.fields (List.mem_of_find?_eq_some held)
    · cases read
  · dsimp only at read
    split at read
    · next found =>
      cases read
      exact carries.heap.items (Array.mem_of_getElem? found)
    · cases read

theorem readVariable (read : m.readVariable name = .ok (some value)) : value.Carries good := by
  unfold Machine.readVariable at read
  dsimp only at read
  split at read
  · next place _ =>
    cases found : m.readPlace place with
    | error fault =>
      rw [found] at read
      cases read
    | ok value =>
      rw [found] at read
      cases read
      exact carries.readPlace found
  · have found := Except.ok.inj read
    exact carries.scope _ (Table.mem_of_get? found)

theorem writePlace (carried : value.Carries good)
    (written : m.writePlace place value = .ok next) : next.Carries good := by
  unfold Machine.writePlace at written
  split at written
  · split at written
    · cases written
      refine { carries with parked := fun scope among => ?_ }
      obtain ⟨frame, found⟩ := List.mem_iff_getElem?.mp among
      rw [List.getElem?_modify] at found
      obtain ⟨old, there, rfl⟩ := Option.map_eq_some_iff.mp found
      have kept := carries.parked old (List.mem_of_getElem? there)
      split
      · exact kept.assign carried
      · exact kept
    · cases written
  · cases written
    exact carries.withHeap
      (carries.heap.setRecord (Record.carries_set carried fun field => carries.heap.fields))
  · dsimp only at written
    split at written
    · cases written
      exact carries.withHeap (carries.heap.setItem carried)
    · cases written

theorem setVariable (carried : value.Carries good)
    (assigned : m.setVariable name value = .ok next) : next.Carries good := by
  unfold Machine.setVariable at assigned
  dsimp only at assigned
  split at assigned
  · exact carries.writePlace carried assigned
  · cases assigned
    exact { carries with scope := carries.scope.assign carried }

theorem bindLocal (carried : value.Carries good) : (m.bindLocal name value).Carries good :=
  { carries with scope := carries.scope.assign carried }

theorem bindPlace : (m.bindPlace name place).Carries good :=
  { carries with scope := carries.scope }

theorem snapshot {vars : Table String Value} (read : m.snapshot = .ok vars) :
    ∀ entry ∈ vars.entries, entry.2.Carries good := by
  unfold Machine.snapshot at read
  have start := carries.scope
  unfold Scope.Carries at start
  revert read start
  generalize m.scope.places.entries = places
  generalize m.scope.vars = vars'
  intro read start
  induction places generalizing vars' with
  | nil =>
    cases read
    exact start
  | cons place rest ih =>
    rw [List.foldlM_cons] at read
    obtain ⟨middle, first, read⟩ := Results.of_bind read
    obtain ⟨value, found, first⟩ := Results.of_bind first
    cases first
    refine ih _ read fun entry held => ?_
    rcases Table.mem_insert held with rfl | held
    · exact carries.readPlace found
    · exact start entry held

theorem park (done : m.park = .ok next) : next.Carries good := by
  obtain ⟨vars, read, done⟩ := Results.of_bind done
  cases done
  refine { carries with scope := carries.snapshot read, parked := ?_ }
  exact List.forall_mem_append.mpr ⟨carries.parked, List.forall_mem_singleton.mpr carries.scope⟩

theorem unpark : m.unpark.Carries good := by
  unfold Machine.unpark
  split
  · next scope last =>
    refine { carries with scope := ?_, parked := fun scope among => ?_ }
    · exact carries.parked scope (List.mem_of_getLast? last)
    · exact carries.parked scope (List.dropLast_subset _ among)
  · exact carries

theorem withActivation {activation : Activation}
    (carried : ∀ value ∈ activation.targets, value.Carries good) :
    Machine.Carries good { m with activation } :=
  { carries with targets := carried }

theorem overloads {set : OverloadSet} (found : m.functions.get? name = some set)
    (among : overload ∈ set.overloads) : good overload :=
  carries.functions _ (Table.mem_of_get? found) overload among

theorem accessors {typeName : String}
    (found : (m.properties.entry typeName name).getter = some overload ∨
      (m.properties.entry typeName name).setter = some overload) : good overload := by
  unfold PropertyTable.entry at found
  cases known : m.properties.byName.get? (PropertyTable.key typeName name) with
  | none =>
    rw [known] at found
    rcases found with found | found
    · cases found
    · cases found
  | some entry =>
    rw [known] at found
    rcases found with found | found
    · exact carries.getters _ (Table.mem_of_get? known) overload found
    · exact carries.setters _ (Table.mem_of_get? known) overload found

theorem defineFunction {functions : FunctionTable} (known : good overload)
    (defined : m.functions.define overload = .ok functions) :
    Machine.Carries good { m with functions } := by
  obtain ⟨set, entered, defined⟩ := Results.of_bind defined
  cases defined
  refine { carries with functions := fun entry held other among => ?_ }
  rcases Table.mem_insert held with rfl | held
  · have old : ∀ other ∈ ((m.functions.byName.get? (Text.foldName overload.name)).getD
        { name := overload.name, overloads := [] }).overloads, good other := by
      intro other among
      cases there : m.functions.byName.get? (Text.foldName overload.name) with
      | none =>
        rw [there] at among
        cases among
      | some set =>
        rw [there] at among
        exact carries.functions _ (Table.mem_of_get? there) other among
    unfold OverloadSet.define at entered
    split at entered
    · split at entered
      · cases entered
        exact old other among
      · cases entered
    · cases entered
      exact List.forall_mem_append.mpr ⟨old, List.forall_mem_singleton.mpr known⟩ other among
  · exact carries.functions entry held other among

theorem defineProperty {origin : Nat} {loops : LoopsRef} {decl : PropertyDecl Block}
    {properties : PropertyTable} (known : good { decl := decl.asFunction, origin, loops })
    (defined : m.properties.define decl origin loops = .ok properties) :
    Machine.Carries good { m with properties } := by
  unfold PropertyTable.define at defined
  dsimp only at defined
  split at defined
  · split at defined
    · cases defined
      exact carries
    · cases defined
  · cases defined
    refine { carries with
      getters := fun entry held overload found => ?_, setters :=
        fun entry held overload found => ?_ }
    · rcases Table.mem_insert held with rfl | held
      · cases which : decl.accessor with
        | get =>
          simp only [which] at found
          cases found
          exact known
        | set =>
          simp only [which] at found
          exact carries.accessors (.inl found)
      · exact carries.getters entry held overload found
    · rcases Table.mem_insert held with rfl | held
      · cases which : decl.accessor with
        | get =>
          simp only [which] at found
          exact carries.accessors (.inr found)
        | set =>
          simp only [which] at found
          cases found
          exact known
      · exact carries.setters entry held overload found

end

end Machine.Carries

end MicroBasic
