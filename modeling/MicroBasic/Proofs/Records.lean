import MicroBasic.Proofs.Parameters

/-!
# Fields can be addressed

A field of a record is found by its name without regard to case, and the first one with the name is
taken. A type whose field names differ in more than their case has therefore a field for each name:
it is read and assigned alone. The declaration of a type is only refused if two fields are spelled
alike, so the second of two fields whose names differ in case can be given a value, but cannot be
reached.
-/

namespace MicroBasic

namespace Text

theorem sameName_iff {name other : String} :
    sameName name other = true ↔ foldName name = foldName other :=
  beq_iff_eq

/-- Of items with names that differ in more than their case, the one with a name is found. -/
theorem find?_sameName {name : String} {α : Type} {items : List α} {key : α → String} {item : α}
    (apart : (items.map fun item => foldName (key item)).Nodup) (held : item ∈ items)
    (same : sameName (key item) name = true) :
    items.find? (fun other => sameName (key other) name) = some item := by
  induction items with
  | nil => cases held
  | cons first items ih =>
    rw [List.map_cons, List.nodup_cons] at apart
    rw [List.find?_cons]
    rcases List.mem_cons.mp held with rfl | held
    · rw [same]
    · have other : sameName (key first) name = false := by
        refine Bool.eq_false_iff.mpr fun also => apart.1 ?_
        rw [sameName_iff.mp also, ← sameName_iff.mp same]
        exact List.mem_map_of_mem held
      rw [other]
      exact ih apart.2 held

end Text

/-- No two fields have names that differ in their case only. -/
def TypeDecl.Apart (decl : TypeDecl) : Prop :=
  ∀ field ∈ decl.fields, ∀ other ∈ decl.fields, Text.sameName field.name other.name = true →
    field.name = other.name

namespace TypeDecl

variable {decl : TypeDecl} {field : FieldDecl} {values : List Value} {name : String} {value : Value}
    {index : Nat}

/-- The fields of a record that has some values. -/
def filled (decl : TypeDecl) (values : List Value) : List (String × Value) :=
  (decl.fields.map FieldDecl.name).zip values

theorem Apart.nodup (apart : decl.Apart) (distinct : (decl.fields.map FieldDecl.name).Nodup) :
    (decl.fields.map fun field => Text.foldName field.name).Nodup := by
  have names : ∀ name ∈ decl.fields.map FieldDecl.name, ∀ other ∈ decl.fields.map FieldDecl.name,
      Text.foldName name = Text.foldName other → name = other := by
    simp only [List.forall_mem_map]
    exact fun field held other among same =>
      apart field held other among (Text.sameName_iff.mpr same)
  have folded := distinct.map_on names
  rwa [List.map_map] at folded

theorem fieldType?_of_mem (apart : (decl.fields.map fun field => Text.foldName field.name).Nodup)
    (held : field ∈ decl.fields) (same : Text.sameName field.name name = true) :
    decl.fieldType? name = some field.type := by
  rw [fieldType?, field?, Text.find?_sameName apart held same]
  rfl

end TypeDecl

namespace Record

variable {names : List String} {values : List Value} {name own : String} {value : Value}
    {index : Nat}

theorem putField_zip (apart : (names.map Text.foldName).Nodup) (held : names[index]? = some own)
    (same : Text.sameName own name = true) :
    putField name value (names.zip values) = names.zip (values.set index value) := by
  induction names generalizing values index with
  | nil => cases held
  | cons first names ih =>
    rw [List.map_cons, List.nodup_cons] at apart
    cases values with
    | nil => rfl
    | cons head values =>
      cases index with
      | zero =>
        cases held
        simp [putField, same]
      | succ index =>
        have other : Text.sameName first name = false := by
          refine Bool.eq_false_iff.mpr fun also => apart.1 ?_
          rw [Text.sameName_iff.mp also, ← Text.sameName_iff.mp same]
          exact List.mem_map_of_mem (List.mem_of_getElem? held)
        simp [putField, other, ih apart.2 held]

end Record

namespace TypeDecl

section Fields

variable {decl : TypeDecl} {field : FieldDecl} {values : List Value} {name : String} {value : Value}
    {index : Nat}
  {marks : List Nat} (apart : (decl.fields.map fun field => Text.foldName field.name).Nodup)
  (held : decl.fields[index]? = some field) (same : Text.sameName field.name name = true)

include apart held same

theorem field?_filled (complete : values.length = decl.fields.length)
    (given : values[index]? = some value) :
    (decl.filled values).find? (fun entry => Text.sameName entry.1 name) =
      some (field.name, value) := by
  have among : (field.name, value) ∈ decl.filled values := by
    apply List.mem_of_getElem? (i := index)
    simp [filled, List.getElem?_zip_eq_some, held, given]
  have names : (decl.filled values).map Prod.fst = decl.fields.map FieldDecl.name :=
    List.map_fst_zip (by simp [complete])
  have different : ((decl.filled values).map fun entry => Text.foldName entry.1).Nodup := by
    have folded := congrArg (List.map Text.foldName) names
    rw [List.map_map, List.map_map] at folded
    exact folded ▸ apart
  exact Text.find?_sameName different among same

theorem putField_filled :
    Record.putField name value (decl.filled values) = decl.filled (values.set index value) := by
  refine @Record.putField_zip _ _ _ field.name _ _ ?_ ?_ same
  · rwa [List.map_map]
  · rw [List.getElem?_map, held]
    rfl

end Fields

end TypeDecl

/-- A machine knows a type and has a record of it with a value for each of its fields. -/
structure Machine.HoldsRecord (m : Machine) (ref : RecordRef) (decl : TypeDecl)
    (values : List Value) : Prop where
  declared : m.types.get? decl.name = some decl
  complete : values.length = decl.fields.length
  record : ∃ marks, m.heap.record? ref =
    some { decl.record (decl.filled values) with referenced := marks }

namespace Evaluator

variable {self : Evaluator} {m next : Machine} {decl : TypeDecl} {field : FieldDecl}
    {values : List Value}
  {name typeName : String} {value other : Value} {index : Nat} {ref : RecordRef}

theorem filledFields_given {fields : List FieldDecl}
    (fit : List.Forall₂ (fun field value => value.hasType m.heap field.type = true) fields values) :
    filledFields decl fields values m = .ok ((fields.map FieldDecl.name).zip values) m := by
  induction fit with
  | nil => rfl
  | @cons field value fields values fits _ ih =>
    rw [filledFields, List.head?_cons, List.tail_cons]
    have first : fieldValue decl field (some value) m = .ok (field.name, value) m :=
      Exec.bind_of_ok (Exec.checkType_of_hasType fits)
    rw [Exec.bind_of_ok first, Exec.bind_of_ok ih]
    rfl

theorem newOf_given {exprs : List Expr} (known : m.types.get? typeName = some decl)
    (given : self.values exprs m = .ok values next)
    (fit : List.Forall₂
      (fun field value => value.hasType next.heap field.type = true) decl.fields values) :
    self.newOf typeName exprs m = .ok (.record ⟨next.heap.records.size⟩)
        { next with heap := (next.heap.newRecord (decl.record (decl.filled values))).2 } := by
  have found : typeNamed typeName m = .ok decl m := by
    rw [typeNamed, Exec.get_bind, known]
    rfl
  have enough : ¬ decl.fields.length < values.length := by
    rw [fit.length_eq]
    exact Nat.lt_irrefl _
  rw [newOf, Exec.bind_of_ok found, Exec.bind_of_ok given, if_neg enough,
    Exec.bind_of_ok (filledFields_given fit)]
  rfl

theorem fieldsNamed_eq_ok {names : List String} {record : Record}
    (each : List.Forall₂ (fun name value => record.get? name = some value) names values) :
    Value.fieldsNamed record names = .ok values := by
  induction each with
  | nil => rfl
  | @cons name value names values found _ ih =>
    rw [Value.fieldsNamed] at ih ⊢
    rw [List.mapM_cons, ih, found]
    rfl

section Held

variable (holds : m.HoldsRecord ref decl values)
    (apart : (decl.fields.map fun field => Text.foldName field.name).Nodup)

include holds

theorem record_held :
    ∃ marks, m.heap.record ref = { decl.record (decl.filled values) with referenced := marks } := by
  obtain ⟨marks, stored⟩ := holds.record
  refine ⟨marks, ?_⟩
  unfold Heap.record? at stored
  rw [Heap.record, Array.getD_eq_getD_getElem?, stored]
  rfl

include apart

section

variable (held : decl.fields[index]? = some field) (same : Text.sameName field.name name = true)

include held same

section

variable (given : values[index]? = some value)

include given

theorem get?_held : (m.heap.record ref).get? name = some value := by
  obtain ⟨marks, record⟩ := record_held holds
  rw [record, Record.get?]
  change Option.map Prod.snd ((decl.filled values).find? fun entry => Text.sameName entry.1 name) =
    _
  rw [TypeDecl.field?_filled apart held same holds.complete given]
  rfl

theorem memberValue_held : self.memberValue (.record ref) name m = .ok value m := by
  have found : self.memberOf (.record ref) name m = .ok (.field value) m := by
    change Exec.ofExcept (Lookup.member _ (.record ref) name) m = _
    rw [Lookup.member, get?_held holds apart held same given]
    rfl
  rw [memberValue, Exec.bind_of_ok found]
  rfl

theorem indexed_held : Value.indexed m.heap (.record ref) (.text name) = .ok value := by
  rw [Value.indexed, get?_held holds apart held same given]
  rfl

end

/-- Assigning to a field changes the value of this field and nothing else. -/
theorem setMember_held (fits : other.hasType m.heap field.type = true) :
    ∃ changed : Record,
      self.setMember (.record ref) name other m =
        .ok () { m with heap := m.heap.setRecord ref changed } ∧
        Machine.HoldsRecord { m with heap := m.heap.setRecord ref changed } ref decl
          (values.set index other) := by
  obtain ⟨value, given⟩ : ∃ value, values[index]? = some value := by
    obtain ⟨inside, _⟩ := List.getElem?_eq_some_iff.mp held
    exact ⟨_, List.getElem?_eq_getElem (holds.complete ▸ inside)⟩
  have has : (m.heap.record ref).has name = true := by
    have found := get?_held holds apart held same given
    rw [Record.get?] at found
    rw [Record.has, ← Option.isSome_map, found]
    rfl
  obtain ⟨marks, record⟩ := record_held holds
  have checked : checkField (m.heap.record ref).typeName name other m = .ok () m := by
    have type :
      (m.types.get? (m.heap.record ref).typeName).bind (fun decl => decl.fieldType? name) =
        some field.type := by
      rw [record]
      change (m.types.get? decl.name).bind _ = _
      rw [holds.declared]
      exact TypeDecl.fieldType?_of_mem apart (List.mem_of_getElem? held) same
    rw [checkField, Exec.get_bind, type]
    exact Exec.checkType_of_hasType fits
  refine ⟨(m.heap.record ref).set name other, ?_, holds.declared, by simp [holds.complete], ?_⟩
  · change (if (m.heap.record ref).has name then _ else _ : Exec Unit) m = _
    rw [if_pos has, Exec.bind_of_ok checked]
    rfl
  · obtain ⟨_, stored⟩ := holds.record
    obtain ⟨inside, _⟩ := Array.getElem?_eq_some_iff.mp stored
    refine ⟨((m.heap.record ref).set name other).referenced,
      (Array.getElem?_setIfInBounds_self_of_lt inside).trans ?_⟩
    have fields :
        ((m.heap.record ref).set name other).fields = decl.filled (values.set index other) := by
      rw [record]
      exact TypeDecl.putField_filled apart held same
    rw [← fields, record]
    rfl

end

theorem partsOf_held (plain : decl.spread = none) : partsOf (.record ref) m = .ok values m := by
  have each : List.Forall₂ (fun name value => (m.heap.record ref).get? name = some value)
      (decl.fields.map FieldDecl.name) values := by
    refine List.forall₂_iff_get.mpr ⟨by simp [holds.complete], fun index inside within => ?_⟩
    rw [List.length_map] at inside
    refine get?_held holds apart (List.getElem?_eq_getElem inside) ?_
      (List.getElem?_eq_getElem within)
    simp [Text.sameName_iff]
  obtain ⟨marks, record⟩ := record_held holds
  have parts : Value.parts m.types m.heap (.record ref) = .ok values := by
    have declared : m.types.get? (m.heap.record ref).typeName = some decl := by
      rw [record]
      exact holds.declared
    have order : decl.spreadOrder = decl.fields.map FieldDecl.name := by
      simp [TypeDecl.spreadOrder, plain]
    rw [Value.parts, declared]
    dsimp only
    rw [order]
    exact fieldsNamed_eq_ok each
  change Exec.ofExcept (Value.parts m.types m.heap (.record ref)) m = _
  rw [parts]
  rfl

end Held

end Evaluator

/-- Types stay declared while expressions are evaluated. -/
theorem Evaluator.types_of_values {decl : TypeDecl} {bound : Nat} {exprs : List Expr}
    {m next : Machine} {name : String} {settings : Settings} {host : Host} {values : List Value}
    (known : m.types.get? name = some decl)
    (given : (evaluator settings host bound).values exprs m = .ok values next) :
    next.types.get? name = some decl := by
  have sound : Discipline.unrestricted.Sound m _ ((evaluator settings host bound).values exprs) _ :=
    (Discipline.unrestricted_silent bound).values (fun _ _ _ _ => trivial) trivial
  have ends := Discipline.Agree.ends Discipline.unrestricted_united sound
  rw [given] at ends
  exact ends.2.1 known

/-- In a type whose field names differ in more than their case, fields are addressed one by one. A
new record has the given values in order. As long as it has some values, a field is read by its name
and by a text, whatever the case, and assigned alone, and the fields are spread in order. -/
theorem fields_are_addressable {program : Program} {block : Block} {stmt : Stmt} {decl : TypeDecl}
    (parsed : program.IsParsed) (within : block.Within program.statements) (own : stmt ∈ block)
    (declares : stmt.kind = .type decl) (apart : decl.Apart) (settings : Settings) (host : Host)
    (bound : Nat) :
    (∀ {m next : Machine} {typeName : String} {exprs : List Expr} {values : List Value},
      m.types.get? typeName = some decl →
        (evaluator settings host bound).values exprs m = .ok values next →
      List.Forall₂
        (fun field value => value.hasType next.heap field.type = true) decl.fields values →
      ∃ (ref : RecordRef) (record : Record),
        (evaluator settings host bound).newOf typeName exprs m =
          .ok (.record ref) { next with heap := (next.heap.newRecord record).2 } ∧
        Machine.HoldsRecord { next with heap := (next.heap.newRecord record).2 } ref decl values) ∧
    ∀ {m : Machine} {ref : RecordRef} {values : List Value}, m.HoldsRecord ref decl values →
      (decl.spread = none → Evaluator.partsOf (.record ref) m = .ok values m) ∧
      ∀ {index : Nat} {field : FieldDecl} {name : String}, decl.fields[index]? = some field →
        Text.sameName field.name name = true →
        (∀ {value : Value}, values[index]? = some value →
          (evaluator settings host bound).memberValue (.record ref) name m = .ok value m ∧
          Value.indexed m.heap (.record ref) (.text name) = .ok value) ∧
        ∀ {other : Value}, other.hasType m.heap field.type = true →
          ∃ changed : Record,
            (evaluator settings host bound).setMember (.record ref) name other m =
              .ok () { m with heap := m.heap.setRecord ref changed } ∧
            (evaluator settings host bound).setIndex (.record ref) (.text name) other m =
              .ok () { m with heap := m.heap.setRecord ref changed } ∧
            Machine.HoldsRecord { m with heap := m.heap.setRecord ref changed } ref decl
              (values.set index other) := by
  have distinct : (decl.fields.map FieldDecl.name).Nodup := by
    have orderly := parsed.orderly within own
    rw [declares] at orderly
    exact orderly.1
  have apart := apart.nodup distinct
  constructor
  · intro m next typeName exprs values known given fit
    refine ⟨_, _, Evaluator.newOf_given known given fit, ?_, fit.length_eq.symm, [],
      Array.getElem?_push_size⟩
    exact (TypeTable.get?_name (Evaluator.types_of_values known given)).2
  · intro m ref values holds
    refine ⟨Evaluator.partsOf_held holds apart, fun held same => ⟨fun given => ?_, fun fits => ?_⟩⟩
    · exact ⟨Evaluator.memberValue_held holds apart held same given,
        Evaluator.indexed_held holds apart held same given⟩
    · obtain ⟨changed, assigned, after⟩ := Evaluator.setMember_held holds apart held same fits
      exact ⟨changed, assigned, assigned, after⟩

/-- A type with two fields, as it is declared and as it is parsed. -/
def shapeType : TypeDecl where
  name := "Shape"
  fields := [⟨"label", .text⟩, ⟨"note", .text⟩]
  spread := none

/-- Whether a statement declares the type. -/
def declaresShape : StmtKind Block → Bool
  | .type decl => decl == shapeType
  | _ => false

/-- A program that declares the type. -/
def shapeProgram : Program :=
  .ofSource "TYPE Shape\nlabel AS STRING\nnote AS STRING\nEND TYPE"

/-- A machine that knows the type. -/
def shapeMachine : Machine :=
  { (Interpreter.new .empty {} .still).machine with types := TypeTable.empty.insert shapeType }

/-- Values for both fields. -/
def squareTexts : List Expr :=
  [.text ⟨.newline, "", ⟨0, 0⟩, ⟨1, 1⟩⟩ "square", .text ⟨.newline, "", ⟨0, 0⟩, ⟨1, 1⟩⟩ "even"]

theorem fields_are_addressable_of_shape :
    ∃ ref made, (evaluator {} .empty 3).newOf "SHAPE" squareTexts shapeMachine =
      .ok (.record ref) made ∧
      Evaluator.partsOf (.record ref) made = .ok [.text "square", .text "even"] made ∧
      (evaluator {} .empty 3).memberValue (.record ref) "Note" made = .ok (.text "even") made ∧
      ∃ changed, (evaluator {} .empty 3).setMember (.record ref) "LABEL" (.text "cube") made =
        .ok () changed ∧
        Evaluator.partsOf (.record ref) changed = .ok [.text "cube", .text "even"] changed := by
  have parsed : shapeProgram.IsParsed := Program.isParsed_ofSource (by decide +kernel)
  have declared : shapeProgram.statements.any (fun stmt => declaresShape stmt.kind) = true := by
    decide +kernel
  obtain ⟨stmt, own, declares⟩ := List.any_eq_true.mp declared
  have declares : stmt.kind = .type shapeType := by
    unfold declaresShape at declares
    split at declares
    · next is =>
      rw [is, beq_iff_eq.mp declares]
    · cases declares
  have apart : shapeType.Apart := by
    have first : Text.sameName "label" "note" = false := by decide +kernel
    have second : Text.sameName "note" "label" = false := by decide +kernel
    simp [TypeDecl.Apart, shapeType, first, second]
  obtain ⟨made, held⟩ := fields_are_addressable parsed .self own declares apart {} .empty 3
  obtain ⟨ref, record, new, holds⟩ :=
    @made shapeMachine _ "SHAPE" squareTexts _ (by decide +kernel) rfl
    (.cons rfl (.cons rfl .nil))
  obtain ⟨spread, fields⟩ := held holds
  obtain ⟨read, _⟩ := @fields 1 _ "Note" rfl (by decide +kernel)
  obtain ⟨_, assign⟩ := @fields 0 _ "LABEL" rfl (by decide +kernel)
  obtain ⟨changed, assigned, _, after⟩ := @assign (.text "cube") rfl
  exact ⟨ref, _, new, spread rfl, (read rfl).1, _, assigned, (held after).1 rfl⟩

/-- A type with two fields whose names differ in case. -/
def doubledField : Program :=
  .ofSource "TYPE T\nx AS STRING\nX AS STRING\nEND TYPE\nr = NEW T(\"a\", \"b\")\nPRINT r.X"

/-- The second of two fields with names that differ in case only is not read. -/
theorem second_field_unread :
    ((Interpreter.new .empty {} .still).runWithin 40 doubledField).2.outputs = ["a"] := by
  decide +kernel

end MicroBasic
