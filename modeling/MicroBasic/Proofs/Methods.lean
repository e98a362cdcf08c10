import Mathlib.Data.List.Nodup
import MicroBasic.Member
import MicroBasic.Proofs.Results
import MicroBasic.Table

/-!
# Methods are calls

A declared function is called with all its arguments, or as a method of the first one. The method is
looked for by the receiver alone, the direct call by everything that is passed. Both mean the same
function: one that accepts all arguments accepts the receiver, and no two overloads of a name have
the same parameter list, so a receiver that only one of them takes leaves the direct call nothing
else to select.
-/

namespace MicroBasic

namespace Text

theorem infix_join {parts : List String} {part separator : String} (held : part ∈ parts) :
    part.toList <:+: (join separator parts).toList := by
  rw [join, String.toList_intercalate]
  induction parts with
  | nil => cases held
  | cons first rest ih =>
    cases rest with
    | nil =>
      obtain rfl := List.mem_singleton.mp held
      simp
    | cons second rest =>
      simp only [List.map_cons, List.intercalate_cons_cons] at ih ⊢
      rcases List.mem_cons.mp held with rfl | held
      · rw [List.append_assoc]
        exact (List.prefix_append _ _).isInfix
      · exact (ih held).trans (List.suffix_append _ _).isInfix

end Text

theorem Fault.candidate_infix {candidates : List String} {candidate name type : String}
    (held : candidate ∈ candidates) :
    candidate.toList <:+: (ambiguousMethod name type candidates).message.toList := by
  obtain ⟨heading, shown⟩ : ∃ heading,
      (ambiguousMethod name type candidates).message = heading ++ Text.join ", " candidates :=
        ⟨_, rfl⟩
  rw [shown, String.toList_append]
  exact (Text.infix_join held).trans (List.suffix_append _ _).isInfix

namespace Overload

variable {overload : Overload} {heap : Heap} {receiver : Value} {arguments : List Value}

theorem params_ne_nil_of_accepts (accepted : overload.accepts heap (receiver :: arguments) = true) :
    overload.params ≠ [] := by
  intro bare
  simp [accepts, isVariadic, fixedCount, bare] at accepted

/-- An overload that accepts some arguments takes the first of them as its receiver. -/
theorem acceptsReceiver_of_accepts
    (accepted : overload.accepts heap (receiver :: arguments) = true) :
    overload.acceptsReceiver heap receiver = true := by
  have nonempty := params_ne_nil_of_accepts accepted
  obtain ⟨_, all⟩ := Bool.and_eq_true_iff.mp accepted
  obtain ⟨first, _⟩ := Bool.and_eq_true_iff.mp all
  simp [acceptsReceiver, nonempty, first]

end Overload

/-- No two overloads of a set have the same parameter list. -/
def OverloadSet.Distinct (set : OverloadSet) : Prop :=
  (set.overloads.map Overload.signature).Nodup

theorem OverloadSet.Distinct.define {overload : Overload} {set next : OverloadSet}
    (distinct : set.Distinct)
    (done : set.define overload = .ok next) : next.Distinct := by
  unfold OverloadSet.define at done
  cases found : set.overloads.find? (fun other => other.signature == overload.signature) with
  | some existing =>
    rw [found] at done
    dsimp only at done
    split at done
    · cases done
      exact distinct
    · cases done
  | none =>
    rw [found] at done
    cases done
    have fresh : overload.signature ∉ set.overloads.map Overload.signature := by
      rw [List.find?_eq_none] at found
      intro held
      obtain ⟨other, among, same⟩ := List.mem_map.mp held
      exact found other among (beq_iff_eq.mpr same)
    unfold Distinct at distinct ⊢
    rw [List.map_append, List.map_singleton, ← List.concat_eq_append]
    exact distinct.concat fresh

namespace FunctionTable

/-- The table after some declarations. One that is refused leaves it as it was. -/
def declared (overloads : List Overload) : FunctionTable :=
  overloads.foldl
    (fun functions overload => (functions.define overload).toOption.getD functions) empty

/-- The overloads with a name. -/
def named (functions : FunctionTable) (name : String) : List Overload :=
  ((functions.get? name).map OverloadSet.overloads).getD []

/-- The functions of each name differ in their parameters. -/
def Distinct (functions : FunctionTable) : Prop :=
  ∀ key set, functions.byName.get? key = some set → set.Distinct

variable {functions next : FunctionTable} {heap : Heap} {name : String} {receiver : Value}
    {overload : Overload}

theorem Distinct.define (distinct : functions.Distinct)
    (done : functions.define overload = .ok next) : next.Distinct := by
  obtain ⟨entered, inserted, done⟩ := Results.of_bind done
  cases done
  have before :
      ((functions.byName.get? (Text.foldName overload.name)).getD
          ⟨overload.name, []⟩).Distinct := by
    cases found : functions.byName.get? (Text.foldName overload.name) with
    | none => exact List.nodup_nil
    | some set => exact distinct _ set found
  intro key set held
  rw [Table.get?_insert] at held
  split at held
  · cases held
    exact before.define inserted
  · exact distinct key set held

/-- What holds of the empty table and is kept by every declaration holds after some declarations. -/
theorem declared_of_define {Holds : FunctionTable → Prop} (overloads : List Overload)
    (begins : Holds empty)
    (step : ∀ {functions next overload}, overload ∈ overloads → Holds functions →
      functions.define overload = .ok next → Holds next) : Holds (declared overloads) := by
  refine List.foldlRecOn overloads _ begins fun functions held overload among => ?_
  cases done : functions.define overload with
  | error => exact held
  | ok next => exact step among held done

theorem distinct_declared (overloads : List Overload) : (declared overloads).Distinct :=
  declared_of_define overloads (fun _ _ held => nomatch held) fun _ => Distinct.define

theorem receivers_eq : functions.receivers heap name receiver =
      (functions.named name).filter fun overload => overload.acceptsReceiver heap receiver := by
  unfold receivers named
  cases functions.get? name <;> rfl

/-- An overload of a name that can be called as a method of a value. -/
def Takes (functions : FunctionTable) (heap : Heap) (name : String) (receiver : Value)
    (overload : Overload) : Prop :=
  overload ∈ functions.named name ∧ overload.acceptsReceiver heap receiver = true

theorem mem_receivers :
    overload ∈ functions.receivers heap name receiver ↔
      functions.Takes heap name receiver overload := by
  rw [receivers_eq, List.mem_filter, Takes]

theorem nodup_receivers (distinct : functions.Distinct) :
    (functions.receivers heap name receiver).Nodup := by
  rw [receivers_eq]
  apply List.Nodup.filter
  unfold named get?
  cases found : functions.byName.get? (Text.foldName name) with
  | none => exact List.nodup_nil
  | some set => exact List.Nodup.of_map _ (distinct _ set found)

theorem receivers_eq_singleton_iff (distinct : functions.Distinct) :
    functions.receivers heap name receiver = [overload] ↔
      functions.Takes heap name receiver overload ∧
        ∀ other, functions.Takes heap name receiver other → other = overload := by
  have once := @nodup_receivers _ heap name receiver distinct
  simp only [← mem_receivers]
  constructor
  · intro only
    simp [only]
  · rintro ⟨held, alone⟩
    generalize functions.receivers heap name receiver = candidates at once held alone ⊢
    match candidates, held with
    | [first], held => rw [List.mem_singleton.mp held]
    | first :: second :: rest, _ =>
      have same : first = second := (alone first (by simp)).trans (alone second (by simp)).symm
      simp [same] at once

theorem two_le_length_receivers_iff (distinct : functions.Distinct) :
    2 ≤ (functions.receivers heap name receiver).length ↔ ∃ first second,
      functions.Takes heap name receiver first ∧ functions.Takes heap name receiver second ∧
        first ≠ second := by
  have once := @nodup_receivers _ heap name receiver distinct
  simp only [← mem_receivers]
  generalize functions.receivers heap name receiver = candidates at once ⊢
  constructor
  · intro many
    match candidates, many with
    | first :: second :: rest, _ =>
      have differ : first ≠ second := by
        rintro rfl
        simp at once
      exact ⟨first, second, by simp, by simp, differ⟩
  · rintro ⟨first, second, held, held', differ⟩
    match candidates, held, held' with
    | [only], held, held' =>
      exact absurd ((List.mem_singleton.mp held).trans (List.mem_singleton.mp held').symm) differ
    | _ :: _ :: _, _, _ => simp

end FunctionTable

/-- If only one overload of a set takes a receiver, then no other one can be selected for a call
with it. -/
theorem OverloadSet.select_of_receivers {heap : Heap} {receiver : Value} {overload : Overload}
    {set : OverloadSet}
    (only : set.overloads.filter (fun other => other.acceptsReceiver heap receiver) = [overload])
    (arguments : List Value) : set.select heap (receiver :: arguments) =
      if overload.accepts heap (receiver :: arguments) then .ok overload
      else .error (.noOverload set.name ((receiver :: arguments).map (Value.typeName heap))
        (set.overloads.map Overload.description)) := by
  have narrower : set.overloads.filter (fun other => other.accepts heap (receiver :: arguments)) =
      [overload].filter fun other => other.accepts heap (receiver :: arguments) := by
    rw [← only, List.filter_filter]
    congr 1
    funext other
    cases accepted : other.accepts heap (receiver :: arguments) with
    | false => rfl
    | true => rw [Overload.acceptsReceiver_of_accepts accepted]; rfl
  simp only [select, narrower]
  cases accepted : overload.accepts heap (receiver :: arguments) with
  | false =>
    rw [List.filter_cons_of_neg (by simp [accepted])]
    rfl
  | true =>
    rw [List.filter_cons_of_pos (by simp [accepted])]
    rfl

namespace Lookup

variable {tables : Lookup} {receiver : Value} {name : String} {overload : Overload} {fault : Fault}

/-- A name is a member of neither the host nor the receiver itself. -/
def Leaves (tables : Lookup) (receiver : Value) (name : String) : Prop :=
  match receiver with
  | .hostGroup _ => False
  | .record ref => (tables.heap.record ref).get? name = none ∧
    tables.properties.getter? (tables.heap.record ref).typeName name = none
  | _ => True

theorem member_of_leaves (leaves : tables.Leaves receiver name) :
    tables.member receiver name = tables.method receiver name := by
  cases receiver with
  | hostGroup => exact leaves.elim
  | record ref =>
    obtain ⟨noField, noGetter⟩ := leaves
    simp [member, noField, noGetter]
  | _ => rfl

theorem method_eq_ok_iff : tables.method receiver name = .ok (.method overload) ↔
    tables.functions.receivers tables.heap name receiver = [overload] := by
  unfold method
  generalize tables.functions.receivers tables.heap name receiver = candidates
  match candidates with
  | [] =>
    dsimp only
    constructor
    · intro found
      split at found <;> cases found
    · nofun
  | [only] => simp [pure, Except.pure]
  | _ :: _ :: _ => simp [throw, throwThe, MonadExceptOf.throw]

theorem method_eq_error_iff : tables.method receiver name = .error fault ↔
    2 ≤ (tables.functions.receivers tables.heap name receiver).length ∧
      fault = .ambiguousMethod name (receiver.typeName tables.heap)
        ((tables.functions.receivers tables.heap name receiver).map Overload.description) := by
  unfold method
  generalize tables.functions.receivers tables.heap name receiver = candidates
  match candidates with
  | [] =>
    dsimp only
    constructor
    · intro failed
      split at failed <;> cases failed
    · rintro ⟨many, _⟩
      cases many
  | [only] => simp [pure, Except.pure]
  | _ :: _ :: _ => simp [throw, throwThe, MonadExceptOf.throw, eq_comm]

/-- A method of a receiver is the only function of its name that takes the receiver, and a direct
call with the receiver in front selects no other one. -/
theorem methods_are_direct_calls (overloads : List Overload) (properties : PropertyTable)
    (host : Host) (heap : Heap) (receiver : Value) (name : String) (arguments : List Value)
    (leaves : Leaves ⟨.declared overloads, properties, host, heap⟩ receiver name) :
    let functions := FunctionTable.declared overloads
    let tables : Lookup := ⟨functions, properties, host, heap⟩
    let takes := functions.Takes heap name receiver
    (∀ overload, tables.member receiver name = .ok (.method overload) ↔
      takes overload ∧ ∀ other, takes other → other = overload) ∧
    ((∃ fault, tables.member receiver name = .error fault) ↔
      ∃ first second, takes first ∧ takes second ∧ first ≠ second) ∧
    (∀ fault, tables.member receiver name = .error fault → fault.code = "AMBIGUOUS_METHOD" ∧
      ∀ other, takes other → other.description.toList <:+: fault.message.toList) ∧
    ∀ overload, tables.member receiver name = .ok (.method overload) →
      ∃ set, functions.get? name = some set ∧
        (overload.accepts heap (receiver :: arguments) = true →
          set.select heap (receiver :: arguments) = .ok overload) ∧
        (overload.accepts heap (receiver :: arguments) = false → ∃ fault,
          set.select heap (receiver :: arguments) = .error fault ∧ fault.code = "NO_OVERLOAD") := by
  intro functions tables takes
  have distinct : functions.Distinct := FunctionTable.distinct_declared overloads
  have asMethod : tables.member receiver name = tables.method receiver name :=
    member_of_leaves leaves
  rw [asMethod]
  refine ⟨fun overload => ?_, ?_, fun fault failed => ?_, fun overload found => ?_⟩
  · rw [method_eq_ok_iff, FunctionTable.receivers_eq_singleton_iff distinct]
  · rw [← FunctionTable.two_le_length_receivers_iff distinct]
    constructor
    · intro ⟨fault, failed⟩
      exact (method_eq_error_iff.mp failed).1
    · intro many
      exact ⟨_, (@method_eq_error_iff tables receiver name _).mpr ⟨many, rfl⟩⟩
  · obtain ⟨_, rfl⟩ := method_eq_error_iff.mp failed
    refine ⟨rfl, fun other taken => Fault.candidate_infix ?_⟩
    exact List.mem_map_of_mem (FunctionTable.mem_receivers.mpr taken)
  · rw [method_eq_ok_iff] at found
    change functions.receivers heap name receiver = [overload] at found
    rw [FunctionTable.receivers] at found
    cases known : functions.get? name with
    | none =>
      rw [known] at found
      cases found
    | some set =>
      rw [known] at found
      have selected := OverloadSet.select_of_receivers found arguments
      refine ⟨set, rfl, fun accepted => ?_, fun refused => ?_⟩
      · rw [selected, if_pos accepted]
      · rw [selected, if_neg (by simp [refused])]
        exact ⟨_, rfl, rfl⟩

/-- A function of one argument. -/
def areaOf (type : TypeSpec) (origin : Nat) : Overload :=
  ⟨⟨"AREA", [⟨"S", false, some type, none, false⟩], none, [], false⟩, origin, ⟨0⟩⟩

/-- Two functions of one name, for a shape and for a number. -/
def areas : List Overload :=
  [areaOf (.named "SHAPE") 0, areaOf .number 1]

/-- A heap with one record, a shape. -/
def oneShape : Heap :=
  ⟨#[], #[{ typeName := "SHAPE", fields := [("SIDE", .text "2")] }]⟩

theorem named_areas : (FunctionTable.declared areas).named "AREA" = areas := by
  rfl

/-- Of two functions with a name that is no member of a record, one takes records of its type. -/
theorem methods_are_direct_calls_of_record :
    Leaves ⟨.declared areas, .empty, ⟨#[], #[], .empty⟩, oneShape⟩ (.record ⟨0⟩) "AREA" ∧
      member ⟨.declared areas, .empty, ⟨#[], #[], .empty⟩, oneShape⟩ (.record ⟨0⟩) "AREA" =
        .ok (.method (areaOf (.named "SHAPE") 0)) := by
  have leaves :
      Leaves ⟨.declared areas, .empty, ⟨#[], #[], .empty⟩, oneShape⟩ (.record ⟨0⟩) "AREA" :=
    ⟨by decide +kernel, by decide +kernel⟩
  have accepted : (areaOf (.named "SHAPE") 0).acceptsReceiver oneShape (.record ⟨0⟩) = true := by
    decide +kernel
  have refused : (areaOf .number 1).acceptsReceiver oneShape (.record ⟨0⟩) = false := by
    decide +kernel
  have only :
    (FunctionTable.declared areas).Takes oneShape "AREA" (.record ⟨0⟩) (areaOf (.named "SHAPE") 0) ∧
      ∀ other, (FunctionTable.declared areas).Takes oneShape "AREA" (.record ⟨0⟩) other →
        other = areaOf (.named "SHAPE") 0 := by
    simp only [FunctionTable.Takes, named_areas]
    simp only [areas, List.mem_cons, List.not_mem_nil, or_false]
    refine ⟨⟨.inl trivial, accepted⟩, fun other took => took.1.resolve_right fun same => ?_⟩
    have wanted := took.2
    rw [same, refused] at wanted
    cases wanted
  exact ⟨leaves, ((methods_are_direct_calls _ _ _ _ _ _ [] leaves).1 _).mpr only⟩

end Lookup

end MicroBasic
