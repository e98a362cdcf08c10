import MicroBasic.Parse.Program
import MicroBasic.Proofs.Library
import MicroBasic.Proofs.Runs

/-!
# Records of declared types

A record that is written with a type, made by `NEW` or begun with as an initial value is one of a
declared type. It has the fields of that type in order, and each of them has a value of its declared
type: what the record is made with is checked or made to fit, and so is every value that a field is
given by an assignment.

One way to a field goes past the check. A parameter passed by reference may stand for a field, and a
value that is assigned to the parameter is written to the field as it is. Such a field is as it may
be until it is given a value by an assignment again. This is all that can happen to it, in any run
of a session.
-/

namespace MicroBasic

/-- A record follows a declaration: it has the declared fields in order, with values of their types,
but for those whose latest values were written through a reference. A record without a type may get
any field. -/
structure Record.Follows (record : Record) (decl : TypeDecl) (heap : Heap) : Prop where
  typeName : record.typeName = decl.name
  fit : decl.name ≠ objectType → FieldDecl.Fit decl.fields heap record.referenced record.fields

/-- Every record of a heap that was made as one of a declared type follows a declaration that is
known. -/
def Heap.Typed (Known : TypeDecl → Prop) (heap : Heap) : Prop :=
  ∀ ref record decl, heap.record? ref = some record → record.declared = some decl →
    Known decl ∧ record.Follows decl heap

/-- Every record that was made as one of a declared type follows its declaration. -/
def Machine.WellTyped (m : Machine) : Prop :=
  m.heap.Typed fun decl => m.types.get? decl.name = some decl

/-- A record follows a declaration and has every field that is declared, whatever fields it got
besides. -/
structure Record.Meets (record : Record) (decl : TypeDecl) (heap : Heap) : Prop
    extends record.Follows decl heap where
  complete : ∀ field ∈ decl.fields, record.has field.name = true

/-- Every record of a declared type meets its declaration, which is known. -/
def Heap.Complies (Known : TypeDecl → Prop) (heap : Heap) : Prop :=
  ∀ ref record decl, heap.record? ref = some record → record.declared = some decl → Known decl ∧
    record.Meets decl heap

/-- Every record of a declared type meets the declaration that the machine has. -/
def Machine.Complies (m : Machine) : Prop :=
  m.heap.Complies fun decl => m.types.get? decl.name = some decl

variable {m : Machine}

theorem Machine.Complies.wellTyped (complies : m.Complies) : m.WellTyped := by
  intro ref record decl found declared
  obtain ⟨known, meets⟩ := complies ref record decl found declared
  exact ⟨known, meets.toFollows⟩

/-- A heap has the records that another one has, and any others were not made as ones of a declared
type. -/
structure Heap.Spares (before after : Heap) : Prop where
  kept : ∀ ref record, before.record? ref = some record → after.record? ref = some record
  added : ∀ ref record, after.record? ref = some record → before.record? ref = some record ∨
    record.declared = none

/-- The functions of a host leave all records as they are, and make none of a declared type. -/
def Host.SparesRecords (host : Host) : Prop :=
  ∀ ref args state,
    match host.invoke ref args state with
    | .ok _ next => state.heap.Spares next.heap
    | .error (.fault _) next => state.heap.Spares next.heap
    | .error (.awaiting _) _ => True

/-- All records stay as they were, and none of a declared type is added. -/
def HeapRule.sparing (start : Heap) : HeapRule where
  Inv := start.Spares
  Val _ := True
  number := trivial
  text := trivial
  array := trivial
  items _ _ := trivial
  setItems spares _ := ⟨spares.kept, spares.added⟩
  newArray spares _ := ⟨spares.kept, spares.added⟩
  Outside _ := True
  Needs _ := True
  random _ := trivial
  clock := @HeapRule.free.clock

theorem Host.standard_sparesRecords : standard.SparesRecords := by
  intro ref args state
  have obeys := standard_serves (.sparing state.heap) ref args (fun _ _ => trivial)
    state ⟨⟨fun _ _ => id, fun _ _ => .inl⟩, trivial⟩
  match standard.invoke ref args state, obeys with
  | .ok _ _, obeys => exact obeys.2.1
  | .error (.fault _) _, obeys => exact obeys.1
  | .error (.awaiting _) _, _ => trivial

namespace Record

variable {record : Record} {decl : TypeDecl} {heap next : Heap} {name : String} {value : Value}

theorem getElem?_putField (name : String) (value : Value) (fields : List (String × Value))
    (index : Nat) : (putField name value fields)[index]? =
      if index = fields.findIdx (fun field => Text.sameName field.1 name)
      then fields[index]?.map fun field => (field.1, value)
      else fields[index]? := by
  induction fields generalizing index with
  | nil => simp [putField]
  | cons field rest ih =>
    unfold putField
    by_cases same : Text.sameName field.1 name = true
    · rw [if_pos same]
      cases index <;> simp [List.findIdx_cons, same]
    · rw [if_neg same]
      cases index with
      | zero => simp [List.findIdx_cons, same]
      | succ index => simp [List.findIdx_cons, same, ih]

theorem getElem?_set (record : Record) (name : String) (value : Value) (index : Nat) :
    (record.set name value).fields[index]? =
      if index = record.indexOf name then record.fields[index]?.map fun field => (field.1, value)
      else record.fields[index]? :=
  getElem?_putField name value record.fields index

theorem names_putField (name : String) (value : Value) (fields : List (String × Value)) :
    (putField name value fields).map Prod.fst = fields.map Prod.fst := by
  induction fields with
  | nil => rfl
  | cons field rest ih =>
    unfold putField
    split
    · rfl
    · rw [List.map_cons, List.map_cons, ih]

theorem fieldType?_of_getElem? {field : FieldDecl}
    (names : record.fields.map Prod.fst = decl.fields.map FieldDecl.name)
    (declared : decl.fields[record.indexOf name]? = some field) :
    decl.fieldType? name = some field.type := by
  have same :
      record.indexOf name = decl.fields.findIdx (fun field => Text.sameName field.name name) := by
    have mapped := congrArg (List.findIdx fun other => Text.sameName other name) names
    rw [List.findIdx_map, List.findIdx_map] at mapped
    exact mapped
  unfold TypeDecl.fieldType? TypeDecl.field?
  rw [List.find?_eq_getElem?_findIdx, ← same, declared]
  rfl

theorem has_iff : record.has name = true ↔
    ∃ other ∈ record.fields.map Prod.fst, Text.sameName other name = true := by
  unfold has field?
  rw [List.find?_isSome]
  constructor
  · rintro ⟨field, among, same⟩
    exact ⟨field.1, List.mem_map_of_mem among, same⟩
  · rintro ⟨other, among, same⟩
    obtain ⟨field, held, rfl⟩ := List.mem_map.mp among
    exact ⟨field, held, same⟩

theorem has_set {field : String} (has : record.has name = true) :
    (record.set field value).has name = true := by
  rw [has_iff] at has ⊢
  rw [show (record.set field value).fields.map Prod.fst = record.fields.map Prod.fst from
    names_putField field value record.fields]
  exact has

theorem has_insert {field : String} (has : record.has name = true) :
    (record.insert field value).has name = true := by
  unfold insert
  split
  · exact has_set has
  · rw [has_iff] at has ⊢
    obtain ⟨other, among, same⟩ := has
    refine ⟨other, ?_, same⟩
    rw [List.map_append]
    exact List.mem_append_left _ among

theorem Meets.setReferenced (meets : record.Meets decl heap) (extended : heap.Extends next) :
    (record.setReferenced name value).Meets decl next where
  typeName := meets.typeName
  complete field among := has_set (meets.complete field among)
  fit named := by
    have fit := (meets.fit named).mono extended
    refine ⟨(names_putField ..).trans fit.names, ?_⟩
    intro index field entry declared held typed checked
    rw [Record.setReferenced, List.mem_cons, not_or] at checked
    have held : (record.set name value).fields[index]? = some entry := held
    rw [getElem?_set, if_neg checked.1] at held
    refine fit.values index field entry declared held typed fun marked => checked.2 ?_
    exact List.mem_filter.mpr ⟨marked, bne_iff_ne.mpr checked.1⟩

theorem Meets.set (meets : record.Meets decl heap) (extended : heap.Extends next)
    (allowed : ∀ type, decl.fieldType? name = some type → value.hasType heap type = true) :
    (record.set name value).Meets decl next where
  typeName := meets.typeName
  complete field among := has_set (meets.complete field among)
  fit named := by
    have fit := meets.fit named
    refine ⟨(names_putField ..).trans fit.names, ?_⟩
    intro index field entry declared held typed checked
    rw [getElem?_set] at held
    by_cases same : index = record.indexOf name
    · rw [if_pos same] at held
      obtain ⟨before, _, rfl⟩ := Option.map_eq_some_iff.mp held
      rw [same] at declared
      exact extended.hasType (allowed _ (fieldType?_of_getElem? fit.names declared))
    · rw [if_neg same] at held
      refine extended.hasType (fit.values index field entry declared held typed fun marked => ?_)
      exact checked (List.mem_filter.mpr ⟨marked, bne_iff_ne.mpr same⟩)

theorem Meets.mono (meets : record.Meets decl heap) (extended : heap.Extends next) :
    record.Meets decl next :=
  ⟨⟨meets.typeName, fun named => (meets.fit named).mono extended⟩, meets.complete⟩

end Record

namespace Heap

variable {Known Other : TypeDecl → Prop} {Val : Value → Prop} {heap next : Heap}

theorem record?_setRecord {ref other : RecordRef} {changed record : Record}
    (found : (heap.setRecord ref changed).record? other = some record) :
    (other ≠ ref ∧ heap.record? other = some record) ∨
      (other = ref ∧ record = changed ∧ heap.record? ref = some (heap.record ref)) := by
  unfold setRecord record? at found
  rw [Array.getElem?_setIfInBounds] at found
  split at found
  · next same =>
    split at found
    · next inside =>
      cases found
      refine .inr ⟨congrArg RecordRef.mk same.symm, rfl, ?_⟩
      unfold record? Heap.record
      rw [Array.getD_eq_getD_getElem?, Array.getElem?_eq_getElem inside]
      rfl
    · cases found
  · next different =>
    exact .inl ⟨fun same => different (congrArg RecordRef.index same.symm), found⟩

theorem Extends.setRecord {ref : RecordRef} {changed : Record}
    (same : changed.typeName = (heap.record ref).typeName) :
    heap.Extends (heap.setRecord ref changed) := by
  intro other record found
  have inside : other.index < heap.records.size := (Array.getElem?_eq_some_iff.mp found).1
  by_cases equal : ref.index = other.index
  · have own : heap.record ref = record := by
      unfold record? at found
      rw [Heap.record, Array.getD_eq_getD_getElem?, equal, found]
      rfl
    refine ⟨changed, ?_, by rw [same, own]⟩
    unfold record? Heap.setRecord
    rw [Array.getElem?_setIfInBounds, if_pos equal, equal, if_pos inside]
  · refine ⟨record, ?_, rfl⟩
    unfold record? Heap.setRecord
    rw [Array.getElem?_setIfInBounds, if_neg equal]
    exact found

/-- The latest value of a field was written through a reference. -/
def IsReferenced (heap : Heap) (ref : RecordRef) (index : Nat) : Prop :=
  ∃ record, heap.record? ref = some record ∧ index ∈ record.referenced

theorem isReferenced_setRecord {ref : RecordRef} {changed : Record} {other : RecordRef}
    {index : Nat} (referenced : (heap.setRecord ref changed).IsReferenced other index) :
    (other ≠ ref ∧ heap.IsReferenced other index) ∨
      (other = ref ∧ index ∈ changed.referenced ∧ heap.record? ref = some (heap.record ref)) := by
  obtain ⟨record, found, marked⟩ := referenced
  rcases record?_setRecord found with ⟨different, before⟩ | ⟨same, rfl, there⟩
  · exact .inl ⟨different, record, before, marked⟩
  · exact .inr ⟨same, marked, there⟩

namespace Complies

theorem after (complies : heap.Complies Known) (extended : heap.Extends next)
    (others : ∀ ref record decl, next.record? ref = some record → record.declared = some decl →
      heap.record? ref = some record ∨ Known decl ∧ record.Meets decl next) :
    next.Complies Known := by
  intro ref record decl found declared
  rcases others ref record decl found declared with before | made
  · obtain ⟨known, meets⟩ := complies ref record decl before declared
    exact ⟨known, meets.mono extended⟩
  · exact made

theorem weaken (complies : heap.Complies Known) (implies : ∀ decl, Known decl → Other decl) :
    heap.Complies Other := by
  intro ref record decl found declared
  obtain ⟨known, meets⟩ := complies ref record decl found declared
  exact ⟨implies decl known, meets⟩

theorem newRecord (complies : heap.Complies Known) {record : Record}
    (made : ∀ decl, record.declared = some decl →
      Known decl ∧ record.Meets decl (heap.newRecord record).2) :
    (heap.newRecord record).2.Complies Known := by
  refine complies.after (.newRecord heap record) fun ref other decl found declared => ?_
  have found : (heap.records.push record)[ref.index]? = some other := found
  rw [Array.getElem?_push] at found
  split at found
  · cases found
    exact .inr (made decl declared)
  · exact .inl found

theorem grown (complies : heap.Complies Known) (grows : heap.Grows Known Val next) :
    next.Complies Known := by
  induction grows with
  | none => exact complies
  | array _ _ kept => exact kept.after (.newArray _ _) fun _ _ _ found _ => .inl found
  | untyped _ _ undeclared kept =>
    refine kept.newRecord fun decl declared => ?_
    rw [undeclared] at declared
    cases declared
  | typed _ _ known fit kept =>
    refine kept.newRecord fun decl declared => ?_
    cases declared
    refine ⟨known, ⟨rfl, fun _ => fit.mono (.newRecord _ _)⟩,
      fun field among => Record.has_iff.mpr ?_⟩
    refine ⟨field.name, ?_, beq_self_eq_true _⟩
    exact fit.names ▸ List.mem_map_of_mem among

theorem setRecord (complies : heap.Complies Known) {ref : RecordRef} {changed : Record}
    (extended : heap.Extends (heap.setRecord ref changed))
    (declared : changed.declared = (heap.record ref).declared)
    (meets : ∀ decl, Known decl → (heap.record ref).Meets decl heap →
      changed.Meets decl (heap.setRecord ref changed)) :
    (heap.setRecord ref changed).Complies Known := by
  refine complies.after extended fun other record decl found made => ?_
  rcases record?_setRecord found with ⟨_, before⟩ | ⟨rfl, rfl, there⟩
  · exact .inl before
  · obtain ⟨known, followed⟩ := complies other _ decl there (declared.symm.trans made)
    exact .inr ⟨known, meets decl known followed⟩

theorem spared (complies : heap.Complies Known) (spares : heap.Spares next) :
    next.Complies Known := by
  refine complies.after (fun ref record found => ⟨record, spares.kept ref record found, rfl⟩)
    fun ref record decl found declared => ?_
  rcases spares.added ref record found with before | undeclared
  · exact .inl before
  · rw [undeclared] at declared
    cases declared

end Complies

end Heap

namespace Discipline

/-- All records of declared types follow their declarations, and no declaration is lost. -/
def typing : Discipline where
  Inv := Machine.Complies
  Step before after :=
    ∀ name decl, before.types.get? name = some decl → after.types.get? name = some decl
  Declared m decl := m.types.get? decl.name = some decl
  step_refl _ _ _ := id
  step_trans first second name decl found := second name decl (first name decl found)
  declared_step step := step _ _

variable {m next : Machine} {host : Host} {settings : Settings} {observe : Moment → Exec Unit}

theorem typing_united : typing.United :=
  ⟨fun _ _ _ _ parted => parted, fun _ _ strayed => strayed⟩

theorem typing_heap {heap : Heap}
    (complies : heap.Complies fun decl => m.types.get? decl.name = some decl)
    (types : next.types = m.types) (same : next.heap = heap) : typing.Keeps m next := by
  constructor
  · show next.heap.Complies fun decl => next.types.get? decl.name = some decl
    rw [types, same]
    exact complies
  · intro name decl found
    rw [types]
    exact found

theorem typing_same (inv : m.Complies) (types : next.types = m.types)
    (records : next.heap.records = m.heap.records) : typing.Keeps m next := by
  have same (ref : RecordRef) : next.heap.record? ref = m.heap.record? ref :=
    congrArg (fun records : Array Record => records[ref.index]?) records
  refine typing_heap ?_ types rfl
  refine Heap.Complies.after inv (fun ref record found => ⟨record, (same ref).trans found, rfl⟩) ?_
  exact fun ref record _ found _ => .inl ((same ref).symm.trans found)

variable {name : String} {value : Value}

theorem typing_setVariable (inv : m.Complies) (assigned : m.setVariable name value = .ok next) :
    typing.Keeps m next := by
  cases Machine.assigns_of_setVariable assigned with
  | own | slot => exact typing_same inv rfl rfl
  | @field ref field =>
    have extended :=
      @Heap.Extends.setRecord m.heap ref ((m.heap.record ref).setReferenced field value) rfl
    refine typing_heap (Heap.Complies.setRecord inv extended rfl ?_) rfl rfl
    exact fun decl _ meets => meets.setReferenced extended
  | element => exact typing_same inv rfl rfl

theorem typing_setField {ref : RecordRef} (inv : m.Complies)
    (allowed : m.Allows (m.heap.record ref).typeName name value) :
    typing.Keeps m
      { m with heap := m.heap.setRecord ref ((m.heap.record ref).set name value) } := by
  have extended := @Heap.Extends.setRecord m.heap ref ((m.heap.record ref).set name value) rfl
  refine typing_heap (Heap.Complies.setRecord inv extended rfl fun decl known meets => ?_) rfl rfl
  refine meets.set extended fun type declared => allowed decl type ?_ declared
  rw [meets.typeName]
  exact known

theorem typing_insertField {ref : RecordRef} (inv : m.Complies)
    (untyped : (m.heap.record ref).isObject = true) :
    typing.Keeps m
      { m with heap := m.heap.setRecord ref ((m.heap.record ref).insert name value) } := by
  have named : ((m.heap.record ref).insert name value).typeName = (m.heap.record ref).typeName := by
    unfold Record.insert
    split <;> rfl
  have extended := @Heap.Extends.setRecord m.heap ref _ named
  refine typing_heap (Heap.Complies.setRecord inv extended (Respects.insert_declared ..)
    fun decl _ meets => ⟨⟨named.trans meets.typeName, fun other => absurd ?_ other⟩,
      fun field among => Record.has_insert (meets.complete field among)⟩) rfl rfl
  rw [← meets.typeName]
  exact beq_iff_eq.mp untyped

theorem typing_laws (spares : host.SparesRecords) : typing.Laws host where
  declared _ found := (TypeTable.get?_name found).2
  grown inv grows := typing_heap (Heap.Complies.grown inv grows) rfl rfl
  outside inv := typing_same inv rfl rfl
  invoke {m ref args} inv _ := by
    have spared := spares ref args { heap := m.heap, world := m.world }
    split
    · next done =>
      rw [done] at spared
      exact ⟨trivial, typing_heap (Heap.Complies.spared inv spared) rfl rfl⟩
    · next done =>
      rw [done] at spared
      exact typing_heap (Heap.Complies.spared inv spared) rfl rfl
    · trivial
  setVariable inv _ assigned := typing_setVariable inv assigned
  setField inv _ allowed := typing_setField inv allowed
  insertField inv _ untyped := typing_insertField inv untyped
  setItem inv _ := typing_same inv rfl rfl
  defineFunction inv _ _ _ := typing_same inv rfl rfl
  defineProperty inv _ _ _ := typing_same inv rfl rfl
  defineType inv defined :=
    ⟨Heap.Complies.weaken inv fun _ => TypeTable.get?_define defined,
      fun _ _ => TypeTable.get?_define defined⟩
  deferBlock inv _ := typing_same inv rfl rfl

theorem typing_scoping : typing.Scoping where
  counted inv := typing_same inv rfl rfl
  hoisted inv := typing_same inv rfl rfl
  targeted _ inv _ := typing_same inv rfl rfl
  emptied inv := typing_same inv rfl rfl
  started inv _ := ⟨(typing_same inv rfl rfl).1, trivial⟩
  ended {m block others final} result _ _ kept step := by
    obtain ⟨kept, last⟩ :=
      @typing_same final (final.concluding result m.activation.loops) kept rfl rfl
    exact ⟨kept, typing.step_trans step last⟩

theorem typing_entry {self : Evaluator} {parked : Machine} {overload : Overload} {args : List Arg}
    (hooks : typing.Hooks self self) (inv : m.Complies) (done : m.park = .ok parked) :
    Entry typing typing self self m parked overload args := by
  obtain ⟨vars, _, done⟩ := Results.of_bind done
  cases done
  exact {
    nested := .refl _
    hooks
    draining := typing_scoping.toDraining
    entered := (typing_same inv rfl rfl).1
    code := trivial
    values := fun _ _ => trivial
    bindLocal := fun inv _ => typing_same inv rfl rfl
    bindPlace := fun inv _ _ => typing_same inv rfl rfl
    left := fun {final} kept step => by
      obtain ⟨_, _, unparked⟩ := final.unpark_eq
      obtain ⟨kept, last⟩ := @typing_same final (final.leaving m.activation) kept
        (by rw [Machine.leaving, unparked]) (by rw [Machine.leaving, unparked])
      exact ⟨kept, typing.step_trans step last⟩ }

theorem typing_hooks (spares : host.SparesRecords)
    (passes : ∀ {moment m}, m.Complies → observe moment m = .ok () m) (bound : Nat) :
    typing.Hooks (observedEvaluator observe settings host bound)
      (observedEvaluator observe settings host bound) := by
  refine @Hooks.passing Unit (fun _ => typing) _ _ _ (fun _ => typing_laws spares)
    (fun _ => typing_scoping.toSteady) (fun _ => typing_united)
    (fun _ => .of_all fun _ _ => trivial)
    (fun _ => trivial) (fun inv _ => passes inv) (fun hooks inv _ _ done => ?_) bound ()
  exact ⟨typing, typing_entry (hooks ()) inv done⟩

/-- The statements of a program keep the types of records, under an observer that lets typed
machines pass. -/
theorem typing_statements {block : Block} (spares : host.SparesRecords)
    (passes : ∀ {moment m}, m.Complies → observe moment m = .ok () m)
    (bound : Nat) (inv : m.Complies) :
    typing.Ends m (typing.GoodEnd typing.GoodSignal)
      (Run.statements (observedEvaluator observe settings host bound) block m) :=
  Agree.ends typing_united <|
    (typing_hooks spares passes bound).statements_sound typing_united.1 typing_scoping.toDraining
      (typing_scoping.registering block) inv trivial fun _ _ _ _ => trivial

end Discipline

theorem Reached.complies {history : List Program} {interpreter : Interpreter}
    (reached : Reached history interpreter) (spares : interpreter.host.SparesRecords) :
    interpreter.machine.Complies := by
  induction reached with
  | new host settings world =>
    intro ref record decl found
    cases found
  | @run history interpreter next bound program result earlier ran finished ih =>
    obtain ⟨final, rfl, ended⟩ := Interpreter.runWithin_finished ran finished
    have begun : (Run.begin interpreter.settings program interpreter.machine).Complies :=
      (Discipline.typing_same (ih spares) rfl rfl).1
    have ends : Discipline.typing.Ends _ _ (interpreter.work bound program) :=
      Discipline.typing_statements spares (fun _ => rfl) bound begun
    have flushed :
        final.flush.types = final.types ∧ final.flush.heap.records = final.heap.records := by
      unfold Machine.flush
      split <;> exact ⟨rfl, rfl⟩
    exact (Discipline.typing_same (ends.kept ended).1 flushed.1 flushed.2).1
  | taken earlier ih =>
    exact (Discipline.typing_same (ih spares) rfl rfl).1
  | limited settings earlier ih => exact ih spares
  | moved world earlier ih =>
    exact (Discipline.typing_same (ih spares) rfl rfl).1
  | reset earlier ih =>
    intro ref record decl found
    cases found

theorem Reached.always_complies {history : List Program} {interpreter : Interpreter}
    {asserted : Moment → Machine → Prop} (reached : Reached history interpreter)
    (spares : interpreter.host.SparesRecords) (holds : ∀ {moment m}, m.Complies → asserted moment m)
    (program : Program) : interpreter.Always program asserted := by
  intro bound final stopped
  have begun : (Run.begin interpreter.settings program interpreter.machine).Complies :=
    (Discipline.typing_same (reached.complies spares) rfl rfl).1
  have ends :=
    @Discipline.typing_statements _ _ interpreter.settings
      (assertion asserted) program.statements spares
    (fun complies => assertion_holds (holds complies)) bound begun
  have stopped : Run.statements _ program.statements _ = .error .stopped final := stopped
  rw [stopped] at ends
  exact ends

/-- A value is a record that was made as one of the type that a machine knows by a name, with
nothing written through a reference. -/
def Value.IsMadeAs (value : Value) (m : Machine) (typeName : String) (final : Machine) : Prop :=
  ∃ ref record decl, value = .record ref ∧ final.heap.record? ref = some record ∧
    m.types.get? typeName = some decl ∧ record.declared = some decl ∧ record.referenced = []

namespace Evaluator

variable {self : Evaluator} {m final : Machine} {typeName : String} {value : Value}

theorem isMadeAs_newRecord {decl : TypeDecl} {fields : List (String × Value)} {next : Machine}
    (known : m.types.get? typeName = some decl)
    (made : Exec.newRecord (decl.record fields) next = .ok value final) :
    value.IsMadeAs m typeName final := by
  cases made
  exact ⟨_, decl.record fields, decl, rfl, Array.getElem?_push_size, known, rfl, rfl⟩

theorem get?_of_typeNamed {decl : TypeDecl} {next : Machine}
    (found : typeNamed typeName m = .ok decl next) :
    m.types.get? typeName = some decl := by
  unfold typeNamed at found
  rw [Exec.get_bind] at found
  cases known : m.types.get? typeName with
  | some other =>
    rw [known] at found
    cases found
    rfl
  | none =>
    rw [known] at found
    cases found

theorem isMadeAs_recordOf {fields : List (String × Expr)}
    (made : self.recordOf typeName fields m = .ok value final) :
    value.IsMadeAs m typeName final := by
  obtain ⟨decl, next, found, made⟩ := Exec.of_bind made
  obtain ⟨given, next, _, made⟩ := Exec.of_bind made
  obtain ⟨fields, next, _, made⟩ := Exec.of_bind made
  exact isMadeAs_newRecord (get?_of_typeNamed found) made

theorem isMadeAs_newOf {exprs : List Expr} (made : self.newOf typeName exprs m = .ok value final) :
    value.IsMadeAs m typeName final := by
  obtain ⟨decl, next, found, made⟩ := Exec.of_bind made
  obtain ⟨values, next, _, made⟩ := Exec.of_bind made
  split at made
  · cases made
  · obtain ⟨fields, next, _, made⟩ := Exec.of_bind made
    exact isMadeAs_newRecord (get?_of_typeNamed found) made

theorem isMadeAs_initialOf (made : initialOf (.named typeName) m = .ok value final) :
    value.IsMadeAs m typeName final := by
  unfold initialOf TypeTable.initial TypeTable.maxInitialDepth at made
  rw [Exec.get_bind] at made
  simp only [TypeTable.initialWithin] at made
  split at made
  · cases made
  · next decl known =>
    rw [Exec.making_bind] at made
    obtain ⟨fields, next, _, made⟩ := Exec.of_bind made
    exact isMadeAs_newRecord known made

theorem eq_of_checkField {name : String} {next : Machine}
    (checked : checkField typeName name value m = .ok () next) : next = m := by
  unfold checkField at checked
  rw [Exec.get_bind] at checked
  cases declared : (m.types.get? typeName).bind (fun decl => decl.fieldType? name) with
  | none =>
    rw [declared] at checked
    cases checked
    rfl
  | some type =>
    rw [declared] at checked
    simp only [Exec.checkType, Exec.ask, Exec.get_bind] at checked
    generalize value.checkType m.heap type _ = result at checked
    cases result with
    | ok _ =>
      cases checked
      rfl
    | error _ => cases checked

/-- A field that is assigned to is no longer one whose value was written through a reference, and no
other field becomes one. -/
theorem isReferenced_of_setMember {ref : RecordRef} {name : String} {other : RecordRef}
    {index : Nat} (has : (m.heap.record ref).has name = true)
    (assigned : self.setMember (.record ref) name value m = .ok () final)
    (referenced : final.heap.IsReferenced other index) :
    m.heap.IsReferenced other index ∧ (other = ref → index ≠ (m.heap.record ref).indexOf name) := by
  obtain ⟨heap, next, looked, assigned⟩ := Exec.of_bind assigned
  cases looked
  rw [if_pos has] at assigned
  obtain ⟨_, next, checked, assigned⟩ := Exec.of_bind assigned
  cases eq_of_checkField checked
  cases assigned
  rcases Heap.isReferenced_setRecord referenced with ⟨different, before⟩ | ⟨rfl, marked, there⟩
  · exact ⟨before, fun same => absurd same different⟩
  · obtain ⟨marked, other⟩ := List.mem_filter.mp marked
    exact ⟨⟨_, there, marked⟩, fun _ => bne_iff_ne.mp other⟩

end Evaluator

theorem Machine.isReferenced_of_setVariable {name : String} {value : Value} {final : Machine}
    {ref : RecordRef} {index : Nat} (assigned : m.setVariable name value = .ok final)
    (referenced : final.heap.IsReferenced ref index) :
    m.heap.IsReferenced ref index ∨
      ∃ field, m.scope.places.get? (Text.stripSuffix name) = some (.field ref field) ∧
        index = (m.heap.record ref).indexOf field := by
  cases assigns_of_setVariable assigned with
  | own | slot => exact .inl referenced
  | @field _ field stands =>
    rcases Heap.isReferenced_setRecord referenced with ⟨_, before⟩ | ⟨rfl, marked, there⟩
    · exact .inl before
    · rcases List.mem_cons.mp marked with same | marked
      · exact .inr ⟨field, stands, same⟩
      · exact .inl ⟨_, there, (List.mem_filter.mp marked).1⟩
  | element => exact .inl referenced

/-- At a moment of a run all records of declared types follow their declarations, and whatever makes
a record of a declared type makes one that is known as such. -/
structure RecordsTyped (settings : Settings) (host : Host) (m : Machine) : Prop where
  typed : m.WellTyped
  written : ∀ bound typeName fields value final,
    (evaluator settings host bound).recordOf typeName fields m = .ok value final →
      value.IsMadeAs m typeName final
  made : ∀ bound typeName exprs value final,
    (evaluator settings host bound).newOf typeName exprs m = .ok value final →
      value.IsMadeAs m typeName final
  begun : ∀ typeName value final, Evaluator.initialOf (.named typeName) m = .ok value final →
    value.IsMadeAs m typeName final
  /-- A field that is assigned to has a value again that was not written through a reference. -/
  assigned : ∀ bound ref name value final other index, (m.heap.record ref).has name = true →
    (evaluator settings host bound).setMember (.record ref) name value m = .ok () final →
      final.heap.IsReferenced other index → m.heap.IsReferenced other index ∧
        (other = ref → index ≠ (m.heap.record ref).indexOf name)
  /-- Only a variable that stands for a field writes to it past the check. -/
  passed : ∀ name value final ref index, m.setVariable name value = .ok final →
    final.heap.IsReferenced ref index → m.heap.IsReferenced ref index ∨
      ∃ field, m.scope.places.get? (Text.stripSuffix name) = some (.field ref field) ∧
        index = (m.heap.record ref).indexOf field

theorem Machine.WellTyped.recordsTyped (typed : m.WellTyped)
    (settings : Settings) (host : Host) : RecordsTyped settings host m where
  typed := typed
  written _ _ _ _ _ := Evaluator.isMadeAs_recordOf
  made _ _ _ _ _ := Evaluator.isMadeAs_newOf
  begun _ _ _ := Evaluator.isMadeAs_initialOf
  assigned _ _ _ _ _ _ _ := Evaluator.isReferenced_of_setMember
  passed _ _ _ _ _ := Machine.isReferenced_of_setVariable

/-- In every session, between runs and at every moment of every run, records of declared types
follow their declarations. -/
theorem records_follow_declarations {history : List Program} {interpreter : Interpreter}
    (reached : Reached history interpreter) (spares : interpreter.host.SparesRecords)
    (program : Program) :
    RecordsTyped interpreter.settings interpreter.host interpreter.machine ∧
      interpreter.Always program fun _ machine =>
        RecordsTyped interpreter.settings interpreter.host machine := by
  refine ⟨(reached.complies spares).wellTyped.recordsTyped _ _,
    reached.always_complies spares ?_ program⟩
  exact fun complies => complies.wellTyped.recordsTyped _ _

/-- A program that assigns a text to a parameter which stands for a field that is declared as a
number. -/
def referencedField : Program :=
  .ofSource ("TYPE P\nx AS NUMBER\nEND TYPE\nSUB S(REF a)\na = \"oops\"\nEND SUB\np = NEW P\nTRY\n" ++
      "CALL S(p.x)\nCATCH\nEND TRY\nPRINT p")

/-- The run of that program. -/
def referencedFieldRun : RunResult × Interpreter :=
  (Interpreter.new .standard {} .still).runWithin 40 referencedField

/-- After a run of that program, and at every moment of another one, records follow their
declarations. -/
theorem records_follow_after_reference :
    referencedFieldRun.2.machine.heap.records.size = 1 ∧ referencedFieldRun.1.isAwaiting = false ∧
      RecordsTyped referencedFieldRun.2.settings referencedFieldRun.2.host
        referencedFieldRun.2.machine ∧
      referencedFieldRun.2.Always referencedField fun _ machine =>
        RecordsTyped referencedFieldRun.2.settings referencedFieldRun.2.host machine := by
  have ended : referencedFieldRun.2.machine.heap.records.size = 1 ∧
      referencedFieldRun.1.isAwaiting = false := by decide +kernel
  have ran : (Interpreter.new .standard {} .still).runWithin 40 referencedField =
      (referencedFieldRun.1, referencedFieldRun.2) := (Prod.eta referencedFieldRun).symm
  have finished := ended.2
  refine ⟨ended.1, finished, ?_⟩
  -- From here on only what is known of the run matters, not what it computes.
  generalize referencedFieldRun.2 = next at ran ⊢
  have reached : Reached [referencedField] next := .run (.new .standard {} .still) ran finished
  have spares : next.host.SparesRecords := by
    rw [Interpreter.host_runWithin ran]
    exact Host.standard_sparesRecords
  exact records_follow_declarations reached spares referencedField

/-- Whether the values of a record have the types that its declaration gives them. -/
def Record.hasTypes (record : Record) (heap : Heap) : Bool :=
  record.declared.any fun decl =>
    (decl.fields.zip record.fields).all fun pair => pair.2.2.hasType heap pair.1.type

/-- A value that is written through a reference need not have the type of the field: the record of
that program is left with a text for a number. -/
theorem referenced_field_has_other_type :
    referencedFieldRun.1.isAwaiting = false ∧
      referencedFieldRun.2.machine.heap.records.toList.map
        (·.hasTypes referencedFieldRun.2.machine.heap) = [false] := by
  decide +kernel

end MicroBasic
