import MicroBasic.Text.Case
import MicroBasic.Value.Basic

/-!
# Equality of values

Numbers, texts and function names are equal by what they are, arrays by their elements, and records
and host entries only to themselves. An array may contain itself: two arrays that are already being
compared count as equal when they are met again. So the comparison always ends, since there are only
so many pairs of arrays on a heap, and with each comparison of elements one more of them has been
met.
-/

namespace MicroBasic.Value

/-- The pairs of arrays on a heap. -/
def pairs (heap : Heap) : List (ArrayRef × ArrayRef) :=
  (List.range heap.arrays.size).flatMap fun a =>
    (List.range heap.arrays.size).map fun b => (⟨a⟩, ⟨b⟩)

/-- The number of pairs of arrays that are not among some. -/
def unmet (heap : Heap) (under : List (ArrayRef × ArrayRef)) : Nat :=
  (pairs heap).countP fun pair => !under.contains pair

/-- Two arrays that have elements to compare are on the heap. -/
theorem mem_pairs {heap : Heap} {a b : ArrayRef} {pair : Value × Value}
    (among : pair ∈ (heap.items a).toList.zip (heap.items b).toList) : (a, b) ∈ pairs heap := by
  have known {c : ArrayRef} (full : (heap.items c).toList ≠ []) : c.index < heap.arrays.size := by
    refine Decidable.byContradiction fun outside => full ?_
    simp [Heap.items, Array.getD, outside]
  obtain ⟨left, right⟩ := List.of_mem_zip among
  refine List.mem_flatMap.mpr ⟨a.index, List.mem_range.mpr (known (List.ne_nil_of_mem left)), ?_⟩
  exact List.mem_map.mpr ⟨b.index, List.mem_range.mpr (known (List.ne_nil_of_mem right)), rfl⟩

/-- With a pair that had not been met, fewer are left. -/
theorem unmet_cons_lt {heap : Heap} {under : List (ArrayRef × ArrayRef)}
    {met : ArrayRef × ArrayRef} (fresh : met ∉ under) (among : met ∈ pairs heap) :
    unmet heap (met :: under) < unmet heap under := by
  have fewer (rest : List (ArrayRef × ArrayRef)) :
      rest.countP (fun pair => !(met :: under).contains pair) ≤
        rest.countP fun pair => !under.contains pair :=
    List.countP_mono_left fun pair _ left => by simp_all
  obtain ⟨before, behind, split⟩ := List.append_of_mem among
  have first := fewer before
  have last := fewer behind
  unfold unmet
  rw [split, List.countP_append, List.countP_append, List.countP_cons_of_neg (by simp),
    List.countP_cons_of_pos (by simpa using fresh)]
  omega

/-- Whether two values are equal, with texts compared in lower case if `folds` holds. The pairs of
arrays in `under` are being compared already. -/
def equalUnder (heap : Heap) (folds : Bool) (under : List (ArrayRef × ArrayRef)) (v w : Value) :
    Bool :=
  match v, w with
  | array a, array b =>
    if _met : a = b ∨ (a, b) ∈ under then true
    else
      let left := (heap.items a).toList
      let right := (heap.items b).toList
      left.length == right.length && (left.zip right).attach.all fun pair =>
        equalUnder heap folds ((a, b) :: under) pair.val.1 pair.val.2
  | number a, number b => a == b
  | text a, text b => if folds then Text.lower a == Text.lower b else a == b
  | record a, record b => a = b
  | function a, function b => Text.sameName a b
  | hostFunction a, hostFunction b => a.id == b.id
  | hostGroup a, hostGroup b => a.id == b.id
  | _, _ => false
termination_by unmet heap under
decreasing_by exact unmet_cons_lt (fun old => _met (.inr old)) (mem_pairs pair.property)

/-- Arrays that are different and not being compared already are equal by their elements. -/
theorem equalUnder_arrays {heap : Heap} {folds : Bool} {under : List (ArrayRef × ArrayRef)}
    {a b : ArrayRef} (fresh : ¬ (a = b ∨ (a, b) ∈ under)) :
    equalUnder heap folds under (array a) (array b) =
      ((heap.items a).toList.length == (heap.items b).toList.length &&
        ((heap.items a).toList.zip (heap.items b).toList).all fun pair =>
          equalUnder heap folds ((a, b) :: under) pair.1 pair.2) := by
  rw [equalUnder, dif_neg fresh]
  simp only [List.all_subtype, List.unattach_attach]

/-- The equality of comparison operators: texts are equal if they are the same. -/
def strictlyEqual (heap : Heap) (a b : Value) : Bool :=
  equalUnder heap false [] a b

/-- The equality of case selection: texts are equal in any case. -/
def looselyEqual (heap : Heap) (a b : Value) : Bool :=
  equalUnder heap true [] a b

end MicroBasic.Value
