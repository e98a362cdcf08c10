import Mathlib.Data.List.Chain
import MicroBasic.Types

/-!
# Initial values

A record type is begun with a record that holds the initial values of its fields, and these may be
records again. The types that are met on the way down form chains. Initial values are made up to a
bound on the depth of nesting, so a type has one if and only if all chains of types that begin with
it are of declared types and are no longer than the bound.
-/

namespace MicroBasic

namespace TypeTable

variable {types : TypeTable}

/-- A declared type has a field of a record type. -/
def Nests (types : TypeTable) (outer inner : String) : Prop :=
  ∃ decl, types.get? outer = some decl ∧ ∃ field ∈ decl.fields, field.type = .named inner

/-- Every chain of types, each of them that of a field of the one before, is of declared types and
has at most so many members. -/
def Ends (types : TypeTable) (levels : Nat) (name : String) : Prop :=
  ∀ others, List.IsChain types.Nests (name :: others) →
    (∀ member ∈ name :: others, (types.get? member).isSome = true) ∧
      (name :: others).length ≤ levels

/-- The chains from the type that has a given annotation; other types begin none. -/
def EndsAt (types : TypeTable) (levels : Nat) (type : TypeSpec) : Prop :=
  ∀ name, type = .named name → types.Ends levels name

theorem not_ends_zero {name : String} : ¬ types.Ends 0 name :=
  fun ends => nomatch (ends [] (.singleton name)).2

theorem ends_succ_iff {levels : Nat} {name : String} : types.Ends (levels + 1) name ↔
    ∃ decl, types.get? name = some decl ∧
      ∀ field ∈ decl.fields, types.EndsAt levels field.type := by
  constructor
  · intro ends
    obtain ⟨decl, known⟩ :=
      Option.isSome_iff_exists.mp ((ends [] (.singleton name)).1 name List.mem_cons_self)
    refine ⟨decl, known, fun field among inner typed others chain => ?_⟩
    obtain ⟨declared, short⟩ :=
      ends (inner :: others) (.cons_cons ⟨decl, known, field, among, typed⟩ chain)
    exact ⟨fun member within => declared member (List.mem_cons_of_mem _ within),
      Nat.le_of_succ_le_succ short⟩
  · rintro ⟨decl, known, inner⟩ others chain
    have declared : (types.get? name).isSome = true := by rw [known]; rfl
    cases chain with
    | singleton => exact ⟨by simpa using declared, Nat.succ_le_succ (Nat.zero_le _)⟩
    | cons_cons nests chain =>
      obtain ⟨_, same, field, among, typed⟩ := nests
      cases known.symm.trans same
      obtain ⟨rest, short⟩ := inner field among _ typed _ chain
      exact ⟨List.forall_mem_cons.mpr ⟨declared, rest⟩, Nat.succ_le_succ short⟩

theorem not_ends_of_cycle {name : String} {levels : Nat}
    (cycle : Relation.TransGen types.Nests name name) : ¬ types.Ends levels name := by
  induction levels generalizing name with
  | zero => exact not_ends_zero
  | succ levels ih =>
    intro ends
    obtain ⟨decl, known, inner⟩ := ends_succ_iff.mp ends
    obtain ⟨next, nests, back⟩ := Relation.TransGen.head'_iff.mp cycle
    have ⟨_, same, field, among, typed⟩ := nests
    cases known.symm.trans same
    exact ih (Relation.TransGen.tail' back nests) (inner field among next typed)

end TypeTable

/-- Everything in a heap is still there in another one. -/
structure Heap.Kept (before after : Heap) : Prop where
  arrays : ∀ {index : Nat} {items}, before.arrays[index]? = some items →
    after.arrays[index]? = some items
  records : ∀ {index : Nat} {record}, before.records[index]? = some record →
    after.records[index]? = some record

namespace Heap.Kept

variable {heap next last : Heap}

theorem trans (before : heap.Kept next) (after : next.Kept last) : heap.Kept last :=
  ⟨fun found => after.arrays (before.arrays found),
    fun found => after.records (before.records found)⟩

theorem push {α : Type} {xs : Array α} {index : Nat} {x y : α} (found : xs[index]? = some x) :
    (xs.push y)[index]? = some x := by
  have inside := (Array.getElem?_eq_some_iff.mp found).1
  rw [Array.getElem?_push_lt inside, ← found, Array.getElem?_eq_getElem inside]

theorem newArray {items : Array Value} : heap.Kept (heap.newArray items).2 :=
  ⟨push, id⟩

theorem newRecord {record : Record} : heap.Kept (heap.newRecord record).2 :=
  ⟨id, push⟩

end Heap.Kept

/-- What a value of a type is begun with, for the types that a table declares. A function is begun
with zero. -/
inductive Value.IsInitial (types : TypeTable) (heap : Heap) : TypeSpec → Value → Prop
  | zero {type : TypeSpec}
    (simple : type = .number ∨ type = .bool ∨ type = .any ∨ type = .function) :
    IsInitial types heap type (.number 0)
  | text : IsInitial types heap .text (.text "")
  | array {ref : ArrayRef} (empty : heap.arrays[ref.index]? = some #[]) :
    IsInitial types heap .array (.array ref)
  | record {name : String} {decl : TypeDecl} {ref : RecordRef} {fields : List (String × Value)}
    (known : types.get? name = some decl)
    (held : heap.records[ref.index]? = some (decl.record fields))
    (names : fields.map Prod.fst = decl.fields.map FieldDecl.name)
    (values : ∀ (index : Nat) field entry, decl.fields[index]? = some field →
      fields[index]? = some entry →
      IsInitial types heap field.type entry.2) : IsInitial types heap (.named name) (.record ref)

namespace TypeTable

open Value (IsInitial)

variable {types : TypeTable} {heap next : Heap} {type : TypeSpec} {value : Value}

theorem isInitial_kept (initial : IsInitial types heap type value) (kept : heap.Kept next) :
    IsInitial types next type value := by
  induction initial with
  | zero simple => exact .zero simple
  | text => exact .text
  | array empty => exact .array (kept.arrays empty)
  | record known held names _ ih => exact .record known (kept.records held) names ih

/-- An initial value has its type, unless that is the type of functions. -/
theorem hasType_of_isInitial (initial : IsInitial types heap type value) :
    value.hasType heap type = true ∨ type = .function ∧ value = .number 0 := by
  cases initial with
  | zero simple =>
    rcases simple with rfl | rfl | rfl | rfl
    iterate 3 · exact .inl rfl
    · exact .inr ⟨rfl, rfl⟩
  | text | array => exact .inl rfl
  | record known held =>
    refine .inl ((Option.any_eq_true _ _).mpr ⟨_, held, ?_⟩)
    exact beq_iff_eq.mpr (get?_name known).1.symm

/-- A part of a value: the value itself, or a part of a field of it. Each part comes with the type
declared for it. -/
inductive Part (types : TypeTable) (heap : Heap) : TypeSpec → Value → TypeSpec → Value → Prop
  | self {type : TypeSpec} {value : Value} : Part types heap type value type value
  | field {name : String} {decl : TypeDecl} {ref : RecordRef} {record : Record} {index : Nat}
    {field : FieldDecl} {entry : String × Value} {type : TypeSpec} {value : Value}
    (known : types.get? name = some decl)
    (held : heap.records[ref.index]? = some record) (declared : decl.fields[index]? = some field)
    (given : record.fields[index]? = some entry)
    (inner : Part types heap field.type entry.2 type value) :
    Part types heap (.named name) (.record ref) type value

theorem isInitial_part {part : Value} {inner : TypeSpec}
    (within : types.Part heap type value inner part)
    (initial : IsInitial types heap type value) : IsInitial types heap inner part := by
  induction within with
  | self => exact initial
  | field known held declared given _ ih =>
    cases initial with
    | record same there names values =>
      cases known.symm.trans same
      cases held.symm.trans there
      exact ih (values _ _ _ declared given)

end TypeTable

/-- Work on a heap keeps what is there and gives a good value, if that is possible; otherwise it
fails. -/
def Making.Gives {α : Type} (work : Making α) (heap : Heap) (Good : Heap → α → Prop)
    (possible : Prop) : Prop :=
  match work heap with
  | .ok value next => heap.Kept next ∧ Good next value ∧ possible
  | .error _ _ => ¬ possible

namespace Making.Gives

variable {α β : Type} {heap : Heap} {Good : Heap → α → Prop} {Last : Heap → β → Prop}
    {possible further : Prop}

theorem pure {value : α} (good : Good heap value) : Gives (Pure.pure value) heap Good True :=
  ⟨⟨id, id⟩, good, trivial⟩

theorem throw {fault : Fault} (impossible : ¬ possible) : Gives (throw fault) heap Good possible :=
  impossible

theorem imp {work : Making α} (gives : work.Gives heap Good possible) (same : possible ↔ further) :
    work.Gives heap Good further := by
  rwa [← same]

theorem bind {work : Making α} {rest : α → Making β} (first : work.Gives heap Good possible)
    (later : ∀ value next, heap.Kept next → Good next value →
      (rest value).Gives next Last further) :
    (work >>= rest).Gives heap Last (possible ∧ further) := by
  unfold Gives at first ⊢
  simp only [Bind.bind, EStateM.bind]
  cases done : work heap with
  | error fault next =>
    rw [done] at first
    exact fun both => first both.1
  | ok value next =>
    rw [done] at first
    have second := later value next first.1 first.2.1
    unfold Gives at second
    dsimp only
    split at second
    · exact ⟨first.1.trans second.1, second.2.1, first.2.2, second.2.2⟩
    · exact fun both => second both.2

end Making.Gives

namespace TypeTable

open Value (IsInitial)

variable {types : TypeTable}

/-- Entries hold the initial values of some fields, in order. -/
structure AreInitial (types : TypeTable) (fields : List FieldDecl) (heap : Heap)
    (entries : List (String × Value)) : Prop where
  names : entries.map Prod.fst = fields.map FieldDecl.name
  values : ∀ (index : Nat) field entry, fields[index]? = some field → entries[index]? = some entry →
    IsInitial types heap field.type entry.2

theorem fields_give {levels : Nat} (each : ∀ type heap, (types.initialWithin levels type).Gives heap
      (fun heap => IsInitial types heap type) (types.EndsAt levels type)) (fields : List FieldDecl)
        (heap : Heap) :
    Making.Gives (fields.mapM
      fun field : FieldDecl => do return (field.name, ← types.initialWithin levels field.type))
      heap (types.AreInitial fields) (∀ field ∈ fields, types.EndsAt levels field.type) := by
  induction fields generalizing heap with
  | nil => exact .imp (.pure ⟨rfl, nofun⟩) ⟨fun _ => nofun, fun _ => trivial⟩
  | cons field fields ih =>
    have first : Making.Gives (do return (field.name, ← types.initialWithin levels field.type)) heap
        (fun heap entry => entry.1 = field.name ∧ IsInitial types heap field.type entry.2) _ :=
      .bind (each field.type heap) fun _ _ _ initial => .pure ⟨rfl, initial⟩
    rw [List.mapM_cons]
    refine .imp (first.bind fun entry next _ initial => .bind (ih next) fun entries last kept all =>
      .pure ?_) (by simp)
    refine ⟨by simp only [List.map_cons, initial.1, all.names],
      fun index declared given first second => ?_⟩
    cases index with
    | zero =>
      cases first
      cases second
      exact isInitial_kept initial.2 kept
    | succ index => exact all.values index declared given first second

theorem initialWithin_gives (levels : Nat) (type : TypeSpec) (heap : Heap) :
    (types.initialWithin levels type).Gives heap (fun heap => IsInitial types heap type)
      (types.EndsAt levels type) := by
  unfold initialWithin
  cases type with
  | number | bool | any | function => exact ⟨⟨id, id⟩, .zero (by simp), nofun⟩
  | text => exact ⟨⟨id, id⟩, .text, nofun⟩
  | array => exact ⟨.newArray, .array (by simp), nofun⟩
  | named name =>
    dsimp only
    cases known : types.get? name with
    | none =>
      refine .throw fun ends => ?_
      have declared := (ends name rfl [] (.singleton name)).1 name List.mem_cons_self
      rw [known] at declared
      cases declared
    | some decl =>
      cases levels with
      | zero => exact .throw fun ends => not_ends_zero (ends name rfl)
      | succ levels =>
        have fields := fields_give (initialWithin_gives levels) decl.fields heap
        refine .imp (@Making.Gives.bind _ _ _ _ _ _ True _ _ fields fun entries next _ all => ?_) ?_
        · refine ⟨.newRecord,
            .record known (by simp) all.names fun index field entry declared given => ?_, trivial⟩
          exact isInitial_kept (all.values index field entry declared given) .newRecord
        · rw [and_true]
          constructor
          · rintro inner _ ⟨⟩
            exact ends_succ_iff.mpr ⟨decl, known, inner⟩
          · intro ends
            obtain ⟨_, same, inner⟩ := ends_succ_iff.mp (ends name rfl)
            cases known.symm.trans same
            exact inner

end TypeTable

/-- A record type has an initial value if and only if every chain of types, each of them that of a
field of the one before, is of declared types and has at most 32 members; a type that contains
itself has none. The value is a new record named as the type was declared, with the fields of the
type in order and their initial values, and all that it holds at any depth has the type declared for
it, except that zero stands for a function. -/
theorem initial_values (types : TypeTable) (name : String) (heap : Heap) :
    ((∃ value next, types.initial (.named name) heap = .ok value next) ↔
      ∀ others, List.IsChain types.Nests (name :: others) →
        (∀ member ∈ name :: others, (types.get? member).isSome = true) ∧
          (name :: others).length ≤ 32) ∧
    (Relation.TransGen types.Nests name name →
      ∀ value next, types.initial (.named name) heap ≠ .ok value next) ∧
    ∀ value next, types.initial (.named name) heap = .ok value next → ∃ decl ref fields,
      types.get? name = some decl ∧ value = .record ref ∧
        next.record? ref = some (decl.record fields) ∧
      types.AreInitial decl.fields next fields ∧
      ∀ type part, types.Part next (.named name) value type part →
        part.hasType next type = true ∨ type = .function ∧ part = .number 0 := by
  have gives : (types.initial (.named name)).Gives heap _ _ :=
    types.initialWithin_gives 32 (.named name) heap
  unfold Making.Gives at gives
  cases made : types.initial (.named name) heap with
  | ok value next =>
    rw [made] at gives
    obtain ⟨_, initial, ends⟩ := gives
    refine ⟨⟨fun _ => ends name rfl, fun _ => ⟨value, next, rfl⟩⟩,
      fun cycle _ _ _ => TypeTable.not_ends_of_cycle cycle (ends name rfl), ?_⟩
    rintro _ _ ⟨⟩
    have parts (type part) (within : types.Part next (.named name) value type part) :=
      TypeTable.hasType_of_isInitial (TypeTable.isInitial_part within initial)
    cases initial with
    | zero simple => simp at simple
    | record known held names values => exact ⟨_, _, _, known, rfl, held, ⟨names, values⟩, parts⟩
  | error fault next =>
    rw [made] at gives
    refine ⟨⟨nofun, fun ends => absurd ?_ gives⟩, fun _ => nofun, nofun⟩
    rintro _ ⟨⟩
    exact ends

end MicroBasic
