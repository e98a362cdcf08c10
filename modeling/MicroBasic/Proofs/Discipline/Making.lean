import MicroBasic.Proofs.Discipline.Basic
import MicroBasic.Proofs.Discipline.Ordinary

/-!
# Making arrays and records

Some work does nothing to a machine but to make arrays and records. What it may make is said here
once: an array, a record without a declared type, or a record of a declared type whose fields are
those of the type, in order, with values that their types allow. The rules for such work follow the
operations it is put together from.
-/

namespace MicroBasic

/-- Entries are those for some declared fields, in order, each with a value that its type allows,
but for some indices. What a function is begun with is no function, so nothing is said of such a
field. -/
structure FieldDecl.Fit (fields : List FieldDecl) (heap : Heap) (exempt : List Nat)
    (entries : List (String × Value)) : Prop where
  names : entries.map Prod.fst = fields.map FieldDecl.name
  values : ∀ index field entry, fields[index]? = some field → entries[index]? = some entry →
    field.type ≠ .function → index ∉ exempt → entry.2.hasType heap field.type = true

namespace Heap

/-- Every record of a heap is still one of another heap, with the same type name. -/
def Extends (before after : Heap) : Prop :=
  ∀ ref record, before.record? ref = some record →
    ∃ next, after.record? ref = some next ∧ next.typeName = record.typeName

namespace Extends

variable {first second third : Heap}

theorem refl (heap : Heap) : heap.Extends heap :=
  fun _ record found => ⟨record, found, rfl⟩

theorem trans (before : first.Extends second) (after : second.Extends third) :
    first.Extends third := by
  intro ref record found
  obtain ⟨next, found, same⟩ := before ref record found
  obtain ⟨last, found, again⟩ := after ref next found
  exact ⟨last, found, again.trans same⟩

theorem hasType {type : TypeSpec} (extends_ : first.Extends second) {value : Value}
    (has : value.hasType first type = true) : value.hasType second type = true := by
  cases type with
  | any | number | bool | text | array | function => exact has
  | named name =>
    cases value with
    | record ref =>
      obtain ⟨record, found, same⟩ := (Option.any_eq_true _ _).mp has
      obtain ⟨next, found, alike⟩ := extends_ ref record found
      refine (Option.any_eq_true _ _).mpr ⟨next, found, ?_⟩
      rw [alike]
      exact same
    | number | text | array | function | boundFunction | hostFunction | boundHost | hostGroup =>
      cases has

theorem newArray (heap : Heap) (items : Array Value) : heap.Extends (heap.newArray items).2 :=
  fun _ record found => ⟨record, found, rfl⟩

theorem newRecord (heap : Heap) (record : Record) : heap.Extends (heap.newRecord record).2 := by
  intro ref other found
  have inside : ref.index < heap.records.size := (Array.getElem?_eq_some_iff.mp found).1
  refine ⟨other, ?_, rfl⟩
  unfold record? Heap.newRecord
  rw [Array.getElem?_push_lt inside]
  unfold record? at found
  rw [Array.getElem?_eq_getElem inside] at found
  exact found

end Extends

end Heap

namespace FieldDecl.Fit

variable {heap next : Heap} {field : FieldDecl} {fields : List FieldDecl} {entry : String × Value}
  {entries : List (String × Value)}

theorem nil : Fit [] heap [] [] where
  names := rfl
  values := nofun

theorem cons (name : entry.1 = field.name)
    (value : field.type ≠ .function → entry.2.hasType heap field.type = true)
    (fit : Fit fields heap [] entries) : Fit (field :: fields) heap [] (entry :: entries) where
  names := by rw [List.map_cons, List.map_cons, name, fit.names]
  values := by
    intro index declared given first second typed _
    cases index with
    | zero =>
      cases first
      cases second
      exact value typed
    | succ index => exact fit.values index declared given first second typed List.not_mem_nil

theorem mono {exempt : List Nat} (fit : Fit fields heap exempt entries)
    (extends_ : heap.Extends next) : Fit fields next exempt entries where
  names := fit.names
  values index declared given first second typed checked :=
    extends_.hasType (fit.values index declared given first second typed checked)

end FieldDecl.Fit

namespace Heap

/-- A heap grows by arrays and records that are made from some values and as some types declare. -/
inductive Grows (Known : TypeDecl → Prop) (Val : Value → Prop) (before : Heap) : Heap → Prop
  | none : Grows Known Val before before
  | array {heap : Heap} {items : Array Value} (earlier : Grows Known Val before heap)
      (good : ∀ item ∈ items, Val item) : Grows Known Val before (heap.newArray items).2
  | untyped {heap : Heap} {record : Record} (earlier : Grows Known Val before heap)
      (good : ∀ field ∈ record.fields, Val field.2) (undeclared : record.declared = .none) :
      Grows Known Val before (heap.newRecord record).2
  | typed {heap : Heap} {decl : TypeDecl} {fields : List (String × Value)}
      (earlier : Grows Known Val before heap) (good : ∀ field ∈ fields, Val field.2)
      (known : Known decl) (fit : FieldDecl.Fit decl.fields heap [] fields) :
      Grows Known Val before (heap.newRecord (decl.record fields)).2

namespace Grows

variable {Known : TypeDecl → Prop} {Val : Value → Prop} {first second third : Heap}

theorem trans (before : first.Grows Known Val second) (after : second.Grows Known Val third) :
    first.Grows Known Val third := by
  induction after with
  | none => exact before
  | array _ good grown => exact .array grown good
  | untyped _ good undeclared grown => exact .untyped grown good undeclared
  | typed _ good known fit grown => exact .typed grown good known fit

theorem extends_ (grows : first.Grows Known Val second) : first.Extends second := by
  induction grows with
  | none => exact .refl first
  | array _ _ kept => exact kept.trans (.newArray _ _)
  | untyped _ _ _ kept | typed _ _ _ _ kept => exact kept.trans (.newRecord _ _)

end Grows

end Heap

namespace Exec

theorem making_bind {α β : Type} (work : Making α) (rest : α → Making β) :
    making (work >>= rest) = making work >>= fun value => making (rest value) := by
  funext m
  simp only [making, Bind.bind, EStateM.bind]
  cases work m.heap <;> rfl

theorem making_pure {α : Type} (value : α) : making (pure value) = pure value := rfl

/-- How work ends that only makes arrays and records from some values. -/
inductive Built {α : Type} (Known : TypeDecl → Prop) (Val : Value → Prop) (Good : α → Heap → Prop)
    (m : Machine) :
    EStateM.Result Escape Machine α → Prop
  | value {value : α} {heap : Heap} (grows : m.heap.Grows Known Val heap)
      (good : Good value heap) : Built Known Val Good m (.ok value { m with heap })
  | error {fault : Fault} {heap : Heap} (grows : m.heap.Grows Known Val heap)
      (ordinary : fault.isOrdinary = true) :
      Built Known Val Good m (.error (.broken (.error (.unplaced fault))) { m with heap })

/-- Work on a machine only makes arrays and records, from some values and as some types declare, and
fails for ordinary causes. -/
def Builds {α : Type} (Known : TypeDecl → Prop) (Val : Value → Prop) (Good : α → Heap → Prop)
    (m : Machine) (work : Exec α) : Prop :=
  Built Known Val Good m (work m)

namespace Builds

variable {α β : Type} {Known : TypeDecl → Prop} {Val : Value → Prop} {m : Machine}

theorem pure {γ : Type} {Good : γ → Heap → Prop} {value : γ} (good : Good value m.heap) :
    Builds Known Val Good m (Pure.pure value) :=
  .value .none good

theorem fail {γ : Type} {Good : γ → Heap → Prop} {fault : Fault}
    (ordinary : fault.isOrdinary = true) : Builds Known Val Good m (Exec.fail fault) :=
  .error .none ordinary

theorem bind {Middle : α → Heap → Prop} {Last : β → Heap → Prop} {first : Exec α}
    {rest : α → Exec β} (builds : Builds Known Val Middle m first)
    (onward : ∀ value heap, m.heap.Grows Known Val heap → Middle value heap →
      Builds Known Val Last { m with heap } (rest value)) :
    Builds Known Val Last m (first >>= rest) := by
  unfold Builds at builds ⊢
  simp only [Bind.bind, EStateM.bind]
  revert builds
  generalize first m = result
  intro builds
  cases builds with
  | error grows ordinary => exact .error grows ordinary
  | @value value heap grows good =>
    have later := onward value heap grows good
    unfold Builds at later
    revert later
    dsimp only
    generalize rest value { m with heap } = last
    intro later
    cases later with
    | value more good => exact .value (grows.trans more) good
    | error more ordinary => exact .error (grows.trans more) ordinary

theorem weaken {γ : Type} {Good : γ → Heap → Prop} {work : Exec γ} {Weak : γ → Heap → Prop}
    (builds : Builds Known Val Good m work)
    (implies : ∀ value heap, m.heap.Grows Known Val heap → Good value heap →
      Weak value heap) : Builds Known Val Weak m work := by
  unfold Builds at builds ⊢
  revert builds
  generalize work m = result
  intro builds
  cases builds with
  | value grows good => exact .value grows (implies _ _ grows good)
  | error grows ordinary => exact .error grows ordinary

theorem checkType {value : Value} {type : TypeSpec} {what : String} :
    Builds Known Val (fun _ heap => value.hasType heap type = true) m
      (Exec.checkType value type what) := by
  unfold Builds Exec.checkType Exec.ask
  simp only [Exec.get_bind, Value.checkType]
  cases has : value.hasType m.heap type with
  | true => exact .value .none has
  | false => exact .error .none rfl

theorem newArray {items : Array Value} (good : ∀ item ∈ items, Val item) :
    Builds Known Val (fun value _ => ∃ ref, value = .array ref) m
      (Exec.making (Making.newArray items)) :=
  .value (.array .none good) ⟨_, rfl⟩

theorem newRecord {record : Record} (good : ∀ field ∈ record.fields, Val field.2)
    (undeclared : record.declared = none) :
    Builds Known Val (fun value _ => ∃ ref, value = .record ref) m
      (Exec.making (Making.newRecord record)) :=
  .value (.untyped .none good undeclared) ⟨_, rfl⟩

theorem newTyped {decl : TypeDecl} {fields : List (String × Value)}
    (good : ∀ field ∈ fields, Val field.2) (known : Known decl)
    (fit : FieldDecl.Fit decl.fields m.heap [] fields) : Builds Known Val (fun value heap =>
        ∃ ref, value = .record ref ∧ heap.record? ref = some (decl.record fields)) m
      (Exec.making (Making.newRecord (decl.record fields))) := by
  refine .value (.typed .none good known fit) ⟨_, rfl, ?_⟩
  exact Array.getElem?_push_size

end Builds

end Exec

theorem Value.hasType_of_checkType {heap : Heap} {type : TypeSpec} {what : String} {value : Value}
    (passed : value.checkType heap type what = .ok ()) : value.hasType heap type = true := by
  unfold Value.checkType at passed
  split at passed
  · assumption
  · cases passed

/-- Numbers, texts, arrays and records are among some values. -/
structure Value.Plain (Val : Value → Prop) : Prop where
  number : ∀ {value}, Val (.number value) := by exact trivial
  text : ∀ {value}, Val (.text value) := by exact trivial
  array : ∀ {ref}, Val (.array ref) := by exact trivial
  record : ∀ {ref}, Val (.record ref) := by exact trivial

namespace Evaluator

variable {Known : TypeDecl → Prop} {Val : Value → Prop} {m : Machine}

/-- What is made for some declared fields: good values that fit. -/
def FilledFields (Val : Value → Prop) (fields : List FieldDecl) (entries : List (String × Value))
    (heap : Heap) : Prop :=
  FieldDecl.Fit fields heap [] entries ∧ ∀ entry ∈ entries, Val entry.2

theorem FilledFields.cons {field : FieldDecl} {fields : List FieldDecl} {entry : String × Value}
    {entries : List (String × Value)} {heap next : Heap} (name : entry.1 = field.name)
    (value : field.type ≠ .function → entry.2.hasType heap field.type = true) (good : Val entry.2)
    (extends_ : heap.Extends next) (filled : FilledFields Val fields entries next) :
    FilledFields Val (field :: fields) (entry :: entries) next :=
  ⟨.cons name (fun typed => extends_.hasType (value typed)) filled.1,
    List.forall_mem_cons.mpr ⟨good, filled.2⟩⟩

theorem initialWithin_builds {type : TypeSpec} {levels : Nat} (plain : Value.Plain Val)
    {types : TypeTable}
    (known : ∀ {name decl}, types.get? name = some decl → Known decl) :
    Exec.Builds Known Val
      (fun value heap => Val value ∧ (type ≠ .function → value.hasType heap type = true)) m
      (Exec.making (types.initialWithin levels type)) := by
  induction levels generalizing m type with
  | zero =>
    cases type with
    | number | bool | any => exact .pure ⟨plain.number, fun _ => rfl⟩
    | function => exact .pure ⟨plain.number, fun typed => absurd rfl typed⟩
    | text => exact .pure ⟨plain.text, fun _ => rfl⟩
    | array =>
      refine (Exec.Builds.newArray (by simp)).weaken ?_
      rintro _ heap _ ⟨ref, rfl⟩
      exact ⟨plain.array, fun _ => rfl⟩
    | named name =>
      simp only [TypeTable.initialWithin]
      split
      · exact .fail rfl
      · exact .fail rfl
  | succ levels ih =>
    cases type with
    | number | bool | any => exact .pure ⟨plain.number, fun _ => rfl⟩
    | function => exact .pure ⟨plain.number, fun typed => absurd rfl typed⟩
    | text => exact .pure ⟨plain.text, fun _ => rfl⟩
    | array =>
      refine (Exec.Builds.newArray (by simp)).weaken ?_
      rintro _ heap _ ⟨ref, rfl⟩
      exact ⟨plain.array, fun _ => rfl⟩
    | named name =>
      simp only [TypeTable.initialWithin]
      split
      · exact .fail rfl
      · next decl found =>
        -- The fields of a record are made one after another, each a level deeper.
        have made (fields : List FieldDecl) (m : Machine) :
          Exec.Builds Known Val (FilledFields Val fields) m
              (Exec.making (fields.mapM (fun field => do
                return (field.name, ← types.initialWithin levels field.type)))) := by
          induction fields generalizing m with
          | nil => exact .pure ⟨.nil, by simp⟩
          | cons field rest restMade =>
            rw [List.mapM_cons, Exec.making_bind]
            simp only [Exec.making_bind, Exec.making_pure, bind_assoc, pure_bind]
            refine ih.bind fun value heap _ good => ?_
            refine (restMade _).bind fun others next grows filled => ?_
            exact .pure (.cons rfl good.2 good.1 grows.extends_ filled)
        rw [Exec.making_bind]
        refine (made decl.fields m).bind fun fields heap _ filled => ?_
        refine (Exec.Builds.newTyped filled.2 (known found) filled.1).weaken ?_
        rintro _ next _ ⟨ref, rfl, held⟩
        refine ⟨plain.record, fun _ => (Option.any_eq_true _ _).mpr ⟨_, held, ?_⟩⟩
        have same := (TypeTable.get?_name found).1
        simp [TypeDecl.record, Text.sameName, same]

variable (plain : Value.Plain Val)
    (known : ∀ {name decl}, m.types.get? name = some decl → Known decl)

include plain known

theorem initialOf_builds {type : TypeSpec} :
    Exec.Builds Known Val (fun value _ => Val value) m (initialOf type) :=
  (initialWithin_builds plain known).weaken fun _ _ _ good => good.1

theorem fieldValue_builds {given : Option Value} {decl : TypeDecl} {field : FieldDecl}
    (good : ∀ value, given = some value → Val value) :
    Exec.Builds Known Val (fun entry heap => entry.1 = field.name ∧ Val entry.2 ∧
        entry.2.hasType heap field.type = true) m (fieldValue decl field given) := by
  have checked {value : Value} {m : Machine} (good : Val value) :
      Exec.Builds Known Val (fun entry heap => entry.1 = field.name ∧ Val entry.2 ∧
          entry.2.hasType heap field.type = true) m
        (do
          Exec.checkType value field.type s!"field {decl.name}.{field.name}"
          return (field.name, value)) :=
    Exec.Builds.checkType.bind fun _ _ _ has => .pure ⟨rfl, good, has⟩
  cases given with
  | some value => exact checked (good value rfl)
  | none => exact (initialOf_builds plain known).bind fun value heap _ good => checked good

omit plain known in
theorem givenTo_good {given : List (String × Value)} {field : FieldDecl}
    (good : ∀ entry ∈ given, Val entry.2) (value : Value)
    (found : givenTo field given = some value) :
    Val value := by
  obtain ⟨entry, first, rfl⟩ := Option.map_eq_some_iff.mp found
  exact good entry (List.mem_reverse.mp (List.mem_of_find?_eq_some first))

theorem givenTo_builds {given : List (String × Value)} {fields : List FieldDecl} {decl : TypeDecl}
    (good : ∀ entry ∈ given, Val entry.2) : Exec.Builds Known Val (FilledFields Val fields) m
      (fields.mapM (fun field => fieldValue decl field (givenTo field given))) := by
  induction fields generalizing m with
  | nil => exact .pure ⟨.nil, by simp⟩
  | cons field rest ih =>
    rw [List.mapM_cons]
    refine (fieldValue_builds plain known (givenTo_good good)).bind fun entry heap _ made => ?_
    refine (@ih { m with heap } known).bind fun others next grows filled => ?_
    exact .pure (.cons made.1 (fun _ => made.2.2) made.2.1 grows.extends_ filled)

theorem filledFields_builds {fields : List FieldDecl} {decl : TypeDecl} {values : List Value}
    (good : ∀ value ∈ values, Val value) :
    Exec.Builds Known Val (FilledFields Val fields) m (filledFields decl fields values) := by
  induction fields generalizing m values with
  | nil => exact .pure ⟨.nil, by simp⟩
  | cons field rest ih =>
    have first : ∀ value, values.head? = some value → Val value :=
      fun value found => good value (List.mem_of_head? found)
    have others : ∀ value ∈ values.tail, Val value :=
      fun value among => good value (List.mem_of_mem_tail among)
    refine (fieldValue_builds plain known first).bind fun entry heap _ made => ?_
    refine (@ih { m with heap } known _ others).bind fun others next grows filled => ?_
    exact .pure (.cons made.1 (fun _ => made.2.2) made.2.1 grows.extends_ filled)

end Evaluator

end MicroBasic
