import Mathlib
import MicroBasic.Value.Equality

/-!
# Equality as bisimilarity

Arrays may contain themselves, so which values are equal cannot be told by a recursion over values.
It is told by a bisimulation instead: a relation in which any two related values match, where the
elements of arrays match when they are related again. The comparison of values decides the greatest
such relation.

A comparison under way takes the pairs of arrays on its path for equal. So what it finds is a
bisimulation but for these pairs, and a pair is excused no longer once its own elements have been
compared. That the comparison ends is part of its definition: it compares elements only of pairs
that it has not met, and these run out. The laws of floats are reached only through the whole of the
library.
-/

namespace MicroBasic.Value

/-- What makes two values equal, where `related` tells which elements of two arrays are. -/
inductive Matches (heap : Heap) (folds : Bool) (related : Value → Value → Prop) :
    Value → Value → Prop
  | number {a b : Float} (same : (a == b) = true) : Matches heap folds related (number a) (number b)
  | text {a b : String} (same : if folds then Text.lower a = Text.lower b else a = b) :
    Matches heap folds related (text a) (text b)
  | itself {a : ArrayRef} : Matches heap folds related (array a) (array a)
  | array {a b : ArrayRef}
    (elements : List.Forall₂ related (heap.items a).toList (heap.items b).toList) :
    Matches heap folds related (array a) (array b)
  | record {a : RecordRef} : Matches heap folds related (record a) (record a)
  | function {a b : String} (same : Text.sameName a b = true) :
    Matches heap folds related (function a) (function b)
  | hostFunction {a b : HostRef} (same : a.id = b.id) :
    Matches heap folds related (hostFunction a) (hostFunction b)
  | hostGroup {a b : HostRef} (same : a.id = b.id) :
    Matches heap folds related (hostGroup a) (hostGroup b)

variable {heap : Heap} {folds : Bool}

namespace Matches

variable {related others : Value → Value → Prop} {v w x : Value}

theorem mono (implies : ∀ v w, related v w → others v w) (found : Matches heap folds related v w) :
    Matches heap folds others v w := by
  cases found with
  | number same => exact .number same
  | text same => exact .text same
  | itself => exact .itself
  | array elements => exact .array (elements.imp implies)
  | record => exact .record
  | function same => exact .function same
  | hostFunction same => exact .hostFunction same
  | hostGroup same => exact .hostGroup same

theorem symm (found : Matches heap folds related v w) :
    Matches heap folds (fun v w => related w v) w v := by
  cases found with
  | number same => exact .number (BEq.symm same)
  | text same => exact .text (by cases folds <;> exact Eq.symm same)
  | itself => exact .itself
  | array elements => exact .array elements.flip
  | record => exact .record
  | function same => exact .function (beq_iff_eq.mpr (beq_iff_eq.mp same).symm)
  | hostFunction same => exact .hostFunction same.symm
  | hostGroup same => exact .hostGroup same.symm

theorem trans (found : Matches heap folds related v w) (further : Matches heap folds related w x) :
    Matches heap folds (fun v x => related v x ∨ ∃ w, related v w ∧ related w x) v x := by
  have zip {l r s : List Value} (first : List.Forall₂ related l r)
    (second : List.Forall₂ related r s) :
      List.Forall₂ (fun v x => related v x ∨ ∃ w, related v w ∧ related w x) l s := by
    induction first generalizing s with
    | nil => cases second; exact .nil
    | cons same _ ih =>
      cases second with
      | cons next rest => exact .cons (.inr ⟨_, same, next⟩) (ih rest)
  cases found with
  | itself => exact further.mono fun _ _ => .inl
  | array elements =>
    cases further with
    | itself => exact .array (elements.imp fun _ _ => .inl)
    | array more => exact .array (zip elements more)
  | record => exact further.mono fun _ _ => .inl
  | number same =>
    cases further with
    | number next => exact .number (BEq.trans same next)
  | text same =>
    cases further with
    | text next => exact .text (by cases folds <;> exact Eq.trans same next)
  | function same =>
    cases further with
    | function next =>
      exact .function (beq_iff_eq.mpr ((beq_iff_eq.mp same).trans (beq_iff_eq.mp next)))
  | hostFunction same =>
    cases further with
    | hostFunction next => exact .hostFunction (same.trans next)
  | hostGroup same =>
    cases further with
    | hostGroup next => exact .hostGroup (same.trans next)

theorem folded (found : Matches heap false related v w) : Matches heap true related v w := by
  cases found with
  | number same => exact .number same
  | text same => exact .text (congrArg Text.lower same)
  | itself => exact .itself
  | array elements => exact .array elements
  | record => exact .record
  | function same => exact .function same
  | hostFunction same => exact .hostFunction same
  | hostGroup same => exact .hostGroup same

end Matches

/-- Values are related by some relation in which they match, but for pairs of arrays that are
excused. -/
def Related (heap : Heap) (folds : Bool) (excused : List (ArrayRef × ArrayRef)) (v w : Value) :
    Prop :=
  ∃ related : Value → Value → Prop, (∀ v w, related v w → Matches heap folds related v w ∨
      ∃ pair ∈ excused, v = array pair.1 ∧ w = array pair.2) ∧ related v w

namespace Related

variable {excused : List (ArrayRef × ArrayRef)} {v w x : Value}

theorem unfold (found : Related heap folds excused v w) :
    Matches heap folds (Related heap folds excused) v w ∨
      ∃ pair ∈ excused, v = array pair.1 ∧ w = array pair.2 := by
  obtain ⟨related, closed, holds⟩ := found
  exact (closed v w holds).imp_left (.mono fun _ _ holds => ⟨related, closed, holds⟩)

theorem matched (found : Related heap folds [] v w) :
    Matches heap folds (Related heap folds []) v w :=
  found.unfold.resolve_right (by simp)

theorem of_closed {related : Value → Value → Prop}
    (closed : ∀ v w, related v w → Matches heap folds related v w) (holds : related v w) :
    Related heap folds [] v w :=
  ⟨related, fun v w holds => .inl (closed v w holds), holds⟩

theorem symm (found : Related heap folds [] v w) : Related heap folds [] w v :=
  ⟨fun v w => Related heap folds [] w v, fun _ _ holds => .inl holds.matched.symm, found⟩

theorem trans (found : Related heap folds [] v w) (further : Related heap folds [] w x) :
    Related heap folds [] v x := by
  refine ⟨fun v x => Related heap folds [] v x ∨
    ∃ w, Related heap folds [] v w ∧ Related heap folds [] w x, ?_, .inr ⟨w, found, further⟩⟩
  rintro v x (holds | ⟨w, first, second⟩)
  · exact .inl (holds.matched.mono fun _ _ => .inl)
  · exact .inl (first.matched.trans second.matched)

theorem folded (found : Related heap false [] v w) : Related heap true [] v w :=
  of_closed (fun _ _ holds => holds.matched.folded) found

theorem discharge {a b : ArrayRef}
    (elements : List.Forall₂ (Related heap folds ((a, b) :: excused))
      (heap.items a).toList (heap.items b).toList) :
    Related heap folds excused (array a) (array b) := by
  refine ⟨fun v w => (v = array a ∧ w = array b) ∨
    Related heap folds ((a, b) :: excused) v w, ?_, .inl ⟨rfl, rfl⟩⟩
  have compared : Matches heap folds
      (fun v w => (v = array a ∧ w = array b) ∨ Related heap folds ((a, b) :: excused) v w)
      (array a) (array b) :=
    .array (elements.imp fun _ _ => .inr)
  rintro v w (⟨rfl, rfl⟩ | found)
  · exact .inl compared
  · obtain found | ⟨pair, among, rfl, rfl⟩ := found.unfold
    · exact .inl (found.mono fun _ _ => .inr)
    · obtain rfl | among := List.mem_cons.mp among
      · exact .inl compared
      · exact .inr ⟨pair, among, rfl, rfl⟩

end Related

variable {under : List (ArrayRef × ArrayRef)} {a b : ArrayRef} {v w : Value}

/-- Two arrays are equal if they are the same or are being compared already, or else by their
elements. -/
theorem equalUnder_array : equalUnder heap folds under (array a) (array b) = true ↔
      (a = b ∨ (a, b) ∈ under) ∨ List.Forall₂ (equalUnder heap folds ((a, b) :: under) · · = true)
          (heap.items a).toList (heap.items b).toList := by
  rw [List.forall₂_iff_zip]
  by_cases met : a = b ∨ (a, b) ∈ under
  · simp [equalUnder, met]
  · simp [equalUnder_arrays met, met]

/-- Values that are not both arrays are equal if they match, whatever is known of elements. -/
theorem equalUnder_flat {related : Value → Value → Prop} (flat : ∀ a b, v = array a → w ≠ array b) :
    equalUnder heap folds under v w = true ↔ Matches heap folds related v w := by
  constructor
  · intro equal
    unfold equalUnder at equal
    split at equal
    · exact absurd rfl (flat _ _ rfl)
    · exact .number equal
    · exact .text (by split at equal <;> simp_all)
    · cases of_decide_eq_true equal
      exact .record
    · exact .function equal
    · exact .hostFunction (by simpa using equal)
    · exact .hostGroup (by simpa using equal)
    · cases equal
  · intro found
    cases found with
    | itself | array _ => exact absurd rfl (flat _ _ rfl)
    | text same => cases folds <;> simpa [equalUnder] using same
    | number same => simpa [equalUnder] using same
    | record => simp [equalUnder]
    | function same | hostFunction same | hostGroup same => simpa [equalUnder] using same

/-- What is found equal is a bisimulation, but for the pairs of arrays that are being compared. -/
theorem related_of_equalUnder (equal : equalUnder heap folds under v w = true) :
    Related heap folds under v w := by
  -- Elements are compared with one pair less that has not been met.
  induction left : unmet heap under using Nat.strongRecOn generalizing under v w with
  | ind _ ih =>
    by_cases arrays : ∃ a b, v = array a ∧ w = array b
    · obtain ⟨a, b, rfl, rfl⟩ := arrays
      by_cases met : a = b ∨ (a, b) ∈ under
      · refine ⟨fun v w => v = array a ∧ w = array b, ?_, rfl, rfl⟩
        rintro _ _ ⟨rfl, rfl⟩
        obtain rfl | met := met
        · exact .inl .itself
        · exact .inr ⟨_, met, rfl, rfl⟩
      · have elements := (equalUnder_array.mp equal).resolve_left met
        refine .discharge ?_
        rw [List.forall₂_iff_zip] at elements ⊢
        refine ⟨elements.1, fun among => ih _ ?_ (elements.2 among) rfl⟩
        exact left ▸ unmet_cons_lt (fun old => met (.inr old)) (mem_pairs among)
    · have flat : ∀ a b, v = array a → w ≠ array b :=
        fun a b left right => arrays ⟨a, b, left, right⟩
      refine ⟨Matches heap folds (fun _ _ => False), fun v w holds => .inl ?_,
        (equalUnder_flat flat).mp equal⟩
      exact holds.mono fun _ _ => False.elim

/-- Values that are bisimilar are found equal, whatever is being compared. -/
theorem equalUnder_of_related (found : Related heap folds [] v w) :
    equalUnder heap folds under v w = true := by
  induction left : unmet heap under using Nat.strongRecOn generalizing under v w with
  | ind _ ih =>
    by_cases arrays : ∃ a b, v = array a ∧ w = array b
    · obtain ⟨a, b, rfl, rfl⟩ := arrays
      refine equalUnder_array.mpr (Classical.or_iff_not_imp_left.mpr fun unseen => ?_)
      cases found.matched with
      | itself => exact absurd (.inl rfl) unseen
      | array elements =>
        rw [List.forall₂_iff_zip] at elements ⊢
        refine ⟨elements.1, fun among => ih _ ?_ (elements.2 among) rfl⟩
        exact left ▸ unmet_cons_lt (fun old => unseen (.inr old)) (mem_pairs among)
    · exact (equalUnder_flat fun a b left right => arrays ⟨a, b, left, right⟩).mpr found.matched

theorem equalUnder_iff_related : equalUnder heap folds [] v w = true ↔ Related heap folds [] v w :=
  ⟨related_of_equalUnder, equalUnder_of_related⟩

theorem isGreatest_related : IsGreatest
    {related : Value → Value → Prop | ∀ v w, related v w ↔ Matches heap folds related v w}
    (Related heap folds []) := by
  refine ⟨fun v w => ⟨Related.matched, fun found => ?_⟩, fun related exact v w holds => ?_⟩
  · exact .of_closed (fun _ _ found => found.mono fun _ _ => Related.matched) found
  · exact .of_closed (fun v w holds => (exact v w).mp holds) holds

/-- On every heap, strict and loose equality are the greatest relations in which values match, texts
as they are or in lower case. Both are symmetric and transitive, and what is strictly equal is
loosely equal. -/
theorem equality_is_bisimilarity (heap : Heap) :
    IsGreatest {related : Value → Value → Prop | ∀ v w, related v w ↔
      Matches heap false related v w} (fun v w => strictlyEqual heap v w = true) ∧
    IsGreatest {related : Value → Value → Prop | ∀ v w, related v w ↔ Matches heap true related v w}
      (fun v w => looselyEqual heap v w = true) ∧
    (∀ v w, strictlyEqual heap v w = strictlyEqual heap w v) ∧
    (∀ v w, looselyEqual heap v w = looselyEqual heap w v) ∧
    (∀ v w x, strictlyEqual heap v w = true → strictlyEqual heap w x = true →
      strictlyEqual heap v x = true) ∧
    (∀ v w x, looselyEqual heap v w = true → looselyEqual heap w x = true →
      looselyEqual heap v x = true) ∧
    ∀ v w, strictlyEqual heap v w = true → looselyEqual heap v w = true := by
  have strict : (fun v w => strictlyEqual heap v w = true) = Related heap false [] :=
    funext₂ fun _ _ => propext equalUnder_iff_related
  have loose : (fun v w => looselyEqual heap v w = true) = Related heap true [] :=
    funext₂ fun _ _ => propext equalUnder_iff_related
  rw [strict, loose]
  have symmetric (folds : Bool) (v w : Value) :
      equalUnder heap folds [] v w = equalUnder heap folds [] w v := by
    rw [Bool.eq_iff_iff, equalUnder_iff_related, equalUnder_iff_related]
    exact ⟨.symm, .symm⟩
  have transitive (folds : Bool) (v w x : Value)
      (first : equalUnder heap folds [] v w = true) (second : equalUnder heap folds [] w x = true) :
      equalUnder heap folds [] v x = true :=
    equalUnder_iff_related.mpr
      ((equalUnder_iff_related.mp first).trans (equalUnder_iff_related.mp second))
  exact ⟨isGreatest_related, isGreatest_related, symmetric false, symmetric true, transitive false,
    transitive true, fun v w equal =>
      equalUnder_iff_related.mpr (equalUnder_iff_related.mp equal).folded⟩

end MicroBasic.Value
