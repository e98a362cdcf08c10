import MicroBasic.Proofs.Anchors

/-!
# Stores read back

Values are kept in cells: the variables of the current scope and of those further out, the elements
of arrays and the fields of records. An assignment to a variable, to an element or to a field writes
one cell. What was assigned is read back by the same name, whether the name has a variable of its
own or stands for a cell elsewhere, and every other cell is as it was. A field that an untyped
record did not have gets a cell behind the others.

Fields are counted here, not named: of two fields whose names differ in case only, one is read and
written, and the other one must be left alone as well.
-/

namespace MicroBasic

/-- Where a value is kept. Scopes are counted from the outermost. -/
inductive Cell where
  | slot (scope : Nat) (key : String)
  | item (array : ArrayRef) (index : Nat)
  | field (record : RecordRef) (index : Nat)
  deriving DecidableEq

/-- The cell that a place is about. -/
def Place.cell (heap : Heap) : Place → Cell
  | .slot frame key => .slot frame key
  | .element array index => .item array index
  | .field record name => .field record ((heap.record record).indexOf name)

/-- A record is one that a heap holds. -/
def Heap.Holds (heap : Heap) : Value → Prop
  | .record ref => (heap.record? ref).isSome = true
  | _ => True

namespace Machine

/-- The value in a cell, if there is such a cell. -/
def cell? (m : Machine) : Cell → Option Value
  | .slot scope key => m.scopes[scope]?.bind fun scope => scope.vars.get? key
  | .item array index => (m.heap.items array)[index]?
  | .field record index => (m.heap.record record).fields[index]?.map Prod.snd

/-- The cell that a variable is kept in, or stands for. -/
def cellOf (m : Machine) (name : String) : Cell :=
  match m.scope.places.get? (Text.stripSuffix name) with
  | some place => place.cell m.heap
  | none => .slot m.parked.length (Text.stripSuffix name)

/-- The cell that an index of an array or a record is about. -/
def cellAt? (m : Machine) (object index : Value) : Option Cell :=
  match object, index with
  | .array ref, _ => (index.asIndex m.heap (m.heap.items ref).size).toOption.map (.item ref)
  | .record ref, .text name => some (.field ref ((m.heap.record ref).indexOf name))
  | _, _ => none

/-- Whether a member of a value is left to an accessor when it is given a value. -/
def setsThrough (m : Machine) (object : Value) (name : String) : Bool :=
  match object with
  | .record ref =>
    !(m.heap.record ref).has name && (m.properties.setter? (m.heap.record ref).typeName name).isSome
  | _ => false

/-- One cell gets a value. Arrays keep their lengths, records their fields, and names stand for what
they stood for. -/
structure Stores (m : Machine) (cell : Cell) (value : Value) (next : Machine) : Prop where
  written : next.cell? cell = some value
  others : ∀ other, other ≠ cell → next.cell? other = m.cell? other
  lengths : ∀ array, (next.heap.items array).size = (m.heap.items array).size
  fields : ∀ ref,
    (m.heap.record ref).fields.map Prod.fst <+: (next.heap.record ref).fields.map Prod.fst
  places : next.scopes.map Scope.places = m.scopes.map Scope.places

end Machine

namespace Heap

variable {heap : Heap} {value : Value}

theorem items_setItem (array other : ArrayRef) (index : Nat) :
    (heap.setItem array index value).items other =
      if other = array then (heap.items array).setIfInBounds index value else heap.items other := by
  unfold items setItem
  simp only [Array.getD_eq_getD_getElem?, Array.getElem?_modify]
  by_cases same : other = array
  · subst same
    rw [if_pos rfl, if_pos rfl]
    cases heap.arrays[other.index]? with
    | none => simp
    | some items => rfl
  · have apart : array.index ≠ other.index := fun equal => same (congrArg ArrayRef.mk equal.symm)
    rw [if_neg same, if_neg apart]

theorem held_of_has {ref : RecordRef} {name : String} (has : (heap.record ref).has name = true) :
    (heap.record? ref).isSome = true := by
  cases found : heap.record? ref with
  | some record => rfl
  | none =>
    unfold record? at found
    rw [record, Array.getD_eq_getD_getElem?, found] at has
    cases has

theorem record_setRecord {ref : RecordRef} {changed : Record} {other : RecordRef}
    (held : (heap.record? ref).isSome = true) :
    (heap.setRecord ref changed).record other = if other =
      ref then changed else heap.record other := by
  unfold record setRecord
  simp only [Array.getD_eq_getD_getElem?, Array.getElem?_setIfInBounds]
  by_cases same : other = ref
  · subst same
    have inside : other.index < heap.records.size := by
      simpa [record?] using held
    rw [if_pos rfl, if_pos rfl, if_pos inside]
    rfl
  · have apart : ref.index ≠ other.index := fun equal => same (congrArg RecordRef.mk equal.symm)
    rw [if_neg same, if_neg apart]

end Heap

namespace Record

variable {record changed : Record} {name : String} {value : Value}

theorem get?_eq : record.get? name = record.fields[record.indexOf name]?.map Prod.snd := by
  rw [get?, field?, List.find?_eq_getElem?_findIdx]
  rfl

/-- One field of a record gets a value, or is added behind the others. -/
structure Puts (record : Record) (name : String) (value : Value) (changed : Record) : Prop where
  written : changed.fields[record.indexOf name]?.map Prod.snd = some value
  others : ∀ index, index ≠ record.indexOf name → changed.fields[index]? = record.fields[index]?
  names : record.fields.map Prod.fst <+: changed.fields.map Prod.fst
  found : changed.indexOf name = record.indexOf name

theorem indexOf_lt (has : record.has name = true) : record.indexOf name < record.fields.length := by
  obtain ⟨other, among, same⟩ := has_iff.mp has
  obtain ⟨field, held, rfl⟩ := List.mem_map.mp among
  exact List.findIdx_lt_length_of_exists ⟨field, held, same⟩

theorem puts_set (has : record.has name = true) :
    record.Puts name value (record.set name value) where
  written := by
    rw [getElem?_set, if_pos rfl, List.getElem?_eq_getElem (indexOf_lt has)]
    rfl
  others index other := by
    rw [getElem?_set, if_neg other]
  names := by
    have same : (record.set name value).fields.map Prod.fst = record.fields.map Prod.fst :=
      names_putField ..
    exact same ▸ List.prefix_refl _
  found := by
    have names := congrArg (List.findIdx fun other => Text.sameName other name)
      (names_putField name value record.fields)
    rwa [List.findIdx_map, List.findIdx_map] at names

theorem puts_insert (new : record.has name = false) :
    record.Puts name value (record.insert name value) := by
  have fields : (record.insert name value).fields = record.fields ++ [(name, value)] := by
    rw [insert, new]
    rfl
  have absent : ∀ field ∈ record.fields, Text.sameName field.1 name = false := by
    intro field among
    rw [Bool.eq_false_iff]
    intro same
    rw [has_iff.mpr ⟨field.1, List.mem_map_of_mem among, same⟩] at new
    cases new
  have last : record.indexOf name = record.fields.length := List.findIdx_eq_length.mpr absent
  constructor
  · rw [fields, last, List.getElem?_concat_length]
    rfl
  · intro index other
    rw [last] at other
    rw [fields]
    rcases Nat.lt_or_gt_of_ne other with inside | outside
    · exact List.getElem?_append_left inside
    · rw [List.getElem?_eq_none (by rw [List.length_append]; exact outside),
        List.getElem?_eq_none (Nat.le_of_lt outside)]
  · rw [fields, List.map_append]
    exact List.prefix_append _ _
  · have own : Text.sameName name name = true := beq_self_eq_true _
    rw [indexOf, fields, List.findIdx_append, show record.fields.findIdx _ = _ from
      last, if_neg (Nat.lt_irrefl _)]
    simp [own, last]

end Record

namespace Machine

variable {m : Machine} {value : Value}

theorem stores_slot {frame : Nat} {key : String} {next : Machine} (inside : frame < m.scopes.length)
    (scopes : ∀ depth, next.scopes[depth]? =
      if depth = frame then m.scopes[depth]?.map (·.assign key value) else m.scopes[depth]?)
    (heap : next.heap = m.heap) : m.Stores (.slot frame key) value next where
  written := by
    rw [cell?, scopes, if_pos rfl, List.getElem?_eq_getElem inside]
    exact Table.get?_insert.trans (if_pos rfl)
  others other apart := by
    cases other with
    | item array index | field record index => rw [cell?, heap, cell?]
    | slot depth other =>
      rw [cell?, scopes, cell?]
      split
      · next same =>
        subst same
        have keys : other ≠ key := fun same => apart (by rw [same])
        cases m.scopes[depth]? with
        | none => rfl
        | some scope => exact Table.get?_insert.trans (if_neg keys)
      · rfl
  lengths array := by rw [heap]
  fields ref := heap ▸ List.prefix_refl _
  places := by
    apply List.ext_getElem?
    intro depth
    rw [List.getElem?_map, List.getElem?_map, scopes]
    split
    · rw [Option.map_map]
      rfl
    · rfl

theorem stores_item {array : ArrayRef} {index : Nat} (inside : index < (m.heap.items array).size) :
    m.Stores (.item array index) value { m with heap := m.heap.setItem array index value } where
  written := by
    simp only [cell?, Heap.items_setItem, if_pos]
    exact Array.getElem?_setIfInBounds_self_of_lt inside
  others other apart := by
    cases other with
    | slot scope key | field record index => rfl
    | item ref place =>
      simp only [cell?, Heap.items_setItem]
      split
      · next same =>
        subst same
        have places : index ≠ place := fun same => apart (by rw [same])
        exact Array.getElem?_setIfInBounds_ne places
      · rfl
  lengths ref := by
    simp only [Heap.items_setItem]
    split
    · next same =>
      rw [same, Array.size_setIfInBounds]
    · rfl
  fields ref := List.prefix_refl _
  places := rfl

theorem stores_field {ref : RecordRef} {name : String} {changed : Record}
    (held : (m.heap.record? ref).isSome = true)
    (puts : (m.heap.record ref).Puts name value changed) :
    m.Stores (.field ref ((m.heap.record ref).indexOf name)) value
      { m with heap := m.heap.setRecord ref changed } where
  written := by
    simp only [cell?, Heap.record_setRecord held, if_pos]
    exact puts.written
  others other apart := by
    cases other with
    | slot scope key | item array index => rfl
    | field record place =>
      simp only [cell?, Heap.record_setRecord held]
      split
      · next same =>
        subst same
        rw [puts.others place fun same => apart (by rw [same])]
      · rfl
  lengths array := rfl
  fields record := by
    simp only [Heap.record_setRecord held]
    split
    · next same =>
      rw [same]
      exact puts.names
    · exact List.prefix_refl _
  places := rfl

theorem cellOf_of_place {name : String} {place : Place}
    (stands : m.scope.places.get? (Text.stripSuffix name) = some place) :
    m.cellOf name = place.cell m.heap := by
  rw [cellOf, stands]

theorem readPlace_of_cell {place : Place} (held : m.cell? (place.cell m.heap) = some value)
    (outer : ∀ frame key, place = .slot frame key → frame < m.parked.length) :
    m.readPlace place = .ok value := by
  unfold readPlace
  cases place with
  | slot frame key =>
    have held : (m.scopes[frame]?.bind fun scope => scope.vars.get? key) = some value := held
    rw [scopes, List.getElem?_append_left (outer frame key rfl)] at held
    simp only [held]
    rfl
  | field ref field =>
    have held : (m.heap.record ref).get? field = some value := Record.get?_eq.trans held
    simp only [held]
    rfl
  | element array index =>
    have held : (m.heap.items array)[index]? = some value := held
    simp only [held]
    rfl

theorem readVariable_of_cell {name : String} (held : m.cell? (m.cellOf name) = some value)
    (outer : ∀ frame key, m.scope.places.get? (Text.stripSuffix name) = some (.slot frame key) →
      frame < m.parked.length) : m.readVariable name = .ok (some value) := by
  unfold readVariable
  dsimp only
  split
  · next place stands =>
    rw [cellOf_of_place stands] at held
    rw [readPlace_of_cell held fun frame key slot => outer frame key (slot ▸ stands)]
    rfl
  · next free =>
    rw [cellOf, free, cell?, scopes, List.getElem?_concat_length] at held
    exact congrArg Except.ok held

theorem stores_setVariable {name : String} {next : Machine} (anchored : m.Anchored)
    (assigned : m.setVariable name value = .ok next) :
    m.Stores (m.cellOf name) value next ∧ next.readVariable name = .ok (some value) := by
  suffices m.Stores (m.cellOf name) value next ∧ next.cellOf name = m.cellOf name ∧
      next.scope.places = m.scope.places ∧ next.parked.length = m.parked.length by
    obtain ⟨stores, same, places, length⟩ := this
    refine ⟨stores, readVariable_of_cell (same ▸ stores.written) fun frame key stands => ?_⟩
    rw [places] at stands
    obtain ⟨scope, found, _⟩ := anchored.own (Table.mem_of_get? stands)
    rw [length]
    exact (List.getElem?_eq_some_iff.mp found).1
  cases assigns_of_setVariable assigned with
  | own free =>
    refine ⟨?_, rfl, rfl, rfl⟩
    rw [cellOf, free]
    refine stores_slot (by simp [scopes]) (fun depth => ?_) rfl
    simp only [scopes]
    grind
  | slot stands inside =>
    rw [cellOf_of_place stands]
    refine ⟨?_, cellOf_of_place stands, rfl, List.length_modify ..⟩
    refine stores_slot (by simp [scopes]; omega) (fun depth => ?_) rfl
    simp only [scopes]
    grind
  | @field ref field stands =>
    have has : (m.heap.record ref).has field = true := anchored.own (Table.mem_of_get? stands)
    have held := Heap.held_of_has has
    have put := @Record.puts_set _ _ value has
    have put : (m.heap.record ref).Puts field value
        ((m.heap.record ref).setReferenced field value) :=
      ⟨put.written, put.others, put.names, put.found⟩
    have same : (Place.field ref field).cell
      (m.heap.setRecord ref ((m.heap.record ref).setReferenced field value)) =
          (Place.field ref field).cell m.heap := by
      rw [Place.cell, Heap.record_setRecord held, if_pos rfl, put.found]
      rfl
    rw [cellOf_of_place stands]
    refine ⟨stores_field held put, ?_, rfl, rfl⟩
    rw [← same]
    exact cellOf_of_place stands
  | element stands inside =>
    rw [cellOf_of_place stands]
    exact ⟨stores_item inside, cellOf_of_place stands, rfl, rfl⟩

end Machine

namespace Evaluator

variable {self : Evaluator} {m next : Machine} {object index value : Value} {name : String}

/-- What is assigned to a field that is not left to an accessor is read by the name of the field and
by its text. -/
theorem stores_setMember (held : m.heap.Holds object) (own : m.setsThrough object name = false)
    (done : self.setMember object name value m = .ok () next) :
    (∃ cell, m.cellAt? object (.text name) = some cell ∧ m.Stores cell value next) ∧
      (∀ reader : Evaluator, reader.memberValue object name next = .ok value next) ∧
      Value.indexed next.heap object (.text name) = .ok value := by
  cases object with
  | record ref =>
    obtain ⟨changed, put, rfl⟩ : ∃ changed, (m.heap.record ref).Puts name value changed ∧
        next = { m with heap := m.heap.setRecord ref changed } := by
      change (if (m.heap.record ref).has name then _ else _ : Exec Unit) m = _ at done
      split at done
      · next has =>
        obtain ⟨_, checked, fits, done⟩ := Exec.of_bind done
        cases eq_of_checkField fits
        cases done
        exact ⟨_, Record.puts_set has, rfl⟩
      · next new =>
        have new := Bool.eq_false_iff.mpr new
        have free : m.properties.setter? (m.heap.record ref).typeName name = none := by
          simpa [Machine.setsThrough, new] using own
        simp only [Exec.get_bind, free] at done
        split at done
        · cases done
          exact ⟨_, Record.puts_insert new, rfl⟩
        · cases done
    have get : (changed.get? name) = some value := by
      rw [Record.get?_eq, put.found]
      exact put.written
    have read : ((m.heap.setRecord ref changed).record ref).get? name = some value := by
      rw [Heap.record_setRecord held, if_pos rfl, get]
    refine ⟨⟨_, rfl, Machine.stores_field held put⟩, fun reader => ?_, ?_⟩
    · have found :
        reader.memberOf (.record ref) name { m with heap := m.heap.setRecord ref changed } =
          .ok (.field value) { m with heap := m.heap.setRecord ref changed } := by
        change Exec.ofExcept (Lookup.member _ (.record ref) name) _ = _
        rw [Lookup.member, read]
        rfl
      rw [memberValue, Exec.bind_of_ok found]
      rfl
    · rw [Value.indexed, read]
      rfl
  | _ => cases done

theorem stores_setIndex (held : m.heap.Holds object)
    (own : ∀ name, index = .text name → m.setsThrough object name = false)
    (done : self.setIndex object index value m = .ok () next) :
    (∃ cell, m.cellAt? object index = some cell ∧ m.Stores cell value next) ∧
      Value.indexed next.heap object index = .ok value := by
  match object, index with
  | .array ref, index =>
    obtain ⟨_, _, looked, done⟩ := Exec.of_bind done
    cases looked
    obtain ⟨place, _, counted, done⟩ := Exec.of_bind done
    cases found : index.asIndex m.heap (m.heap.items ref).size with
    | error fault =>
      rw [found] at counted
      cases counted
    | ok other =>
      rw [found] at counted
      cases counted
      cases done
      obtain ⟨number, taken, _⟩ := Results.of_bind found
      have stores := @Machine.stores_item m value ref place (Value.asIndex_lt found)
      refine ⟨⟨.item ref place, ?_, stores⟩, ?_⟩
      · rw [Machine.cellAt?, found]
        rfl
      · have again : index.asIndex (m.heap.setItem ref place value)
            ((m.heap.setItem ref place value).items ref).size = .ok place := by
          rw [stores.lengths ref]
          cases index with
          | number _ | text _ => exact found
          | _ => cases taken
        exact Value.indexed_of_asIndex again stores.written
  | .record ref, .text name =>
    obtain ⟨stores, _, read⟩ := stores_setMember held (own name rfl) done
    exact ⟨stores, read⟩

end Evaluator

/-- At a moment of a run, what is assigned is read back, and one cell is written. -/
structure StoresReadBack (settings : Settings) (host : Host) (m : Machine) : Prop where
  names : ∀ name value next, m.setVariable name value = .ok next →
    next.readVariable name = .ok (some value) ∧ m.Stores (m.cellOf name) value next
  indices : ∀ bound object index value next, m.heap.Holds object →
    (∀ name, index = .text name → m.setsThrough object name = false) →
    (evaluator settings host bound).setIndex object index value m = .ok () next →
      Value.indexed next.heap object index = .ok value ∧
        ∃ cell, m.cellAt? object index = some cell ∧ m.Stores cell value next
  members : ∀ bound object name value next, m.heap.Holds object →
    m.setsThrough object name = false →
    (evaluator settings host bound).setMember object name value m = .ok () next →
      (evaluator settings host bound).memberValue object name next = .ok value next ∧
        ∃ cell, m.cellAt? object (.text name) = some cell ∧ m.Stores cell value next

theorem Machine.Anchored.storesReadBack {m : Machine} (anchored : m.Anchored) (settings : Settings)
    (host : Host) : StoresReadBack settings host m where
  names _ _ _ assigned := (stores_setVariable anchored assigned).symm
  indices _ _ _ _ _ held own done := (Evaluator.stores_setIndex held own done).symm
  members _ _ _ _ _ held own done := by
    obtain ⟨stores, read, _⟩ := Evaluator.stores_setMember held own done
    exact ⟨read _, stores⟩

/-- In every session, between runs and at every moment of every run, stores read back and touch
nothing else. -/
theorem stores_read_back {history : List Program} {interpreter : Interpreter}
    (reached : Reached history interpreter) (retains : interpreter.host.RetainsFields)
    (program : Program) : StoresReadBack interpreter.settings interpreter.host interpreter.machine ∧
      interpreter.Always program fun _ m =>
        StoresReadBack interpreter.settings interpreter.host m := by
  refine ⟨reached.rested.anchored.storesReadBack _ _,
    reached.always_anchored retains (fun inv _ => ?_) program⟩
  exact inv.1.storesReadBack _ _

/-- After the run that passed a variable and a field on, the variable is given another value and has
it. Wherever a second run is, stores read back. -/
theorem stores_read_back_passed_on :
    ∃ next, passingOnRun.2.machine.setVariable "x" (.text "seven") = .ok next ∧
      next.readVariable "x" = .ok (some (.text "seven")) ∧
      passingOnRun.2.machine.Stores (passingOnRun.2.machine.cellOf "x") (.text "seven") next ∧
      passingOnRun.2.Always passingOn fun _ m =>
        StoresReadBack passingOnRun.2.settings passingOnRun.2.host m := by
  have finished : passingOnRun.1.isAwaiting = false := by decide +kernel
  have ran : (Interpreter.new .standard {} .still).runWithin 60 passingOn =
      (passingOnRun.1, passingOnRun.2) := (Prod.eta passingOnRun).symm
  generalize passingOnRun.2 = next at ran ⊢
  have reached : Reached [passingOn] next := .run (.new .standard {} .still) ran finished
  have retains : next.host.RetainsFields := by
    rw [Interpreter.host_runWithin ran]
    exact Host.standard_sparesRecords.retainsFields
  obtain ⟨now, always⟩ := stores_read_back reached retains passingOn
  have free : next.machine.scope.places.get? (Text.stripSuffix "x") = none := by
    rw [reached.rested.places]
    rfl
  obtain ⟨after, assigned⟩ : ∃ after, next.machine.setVariable "x" (.text "seven") = .ok after := by
    rw [Machine.setVariable, free]
    exact ⟨_, rfl⟩
  obtain ⟨read, stores⟩ := now.names _ _ _ assigned
  exact ⟨after, assigned, read, stores, always⟩

end MicroBasic
