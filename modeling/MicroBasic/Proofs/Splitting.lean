import MicroBasic.Host.Library

/-!
# Splitting, joining and replacing

A text is split at the leftmost occurrence of a separator, and again behind it. To exchange a
pattern for another text is to split at the pattern and to join the pieces by that text; with the
pattern itself in its place, nothing is changed. A piece holds no further occurrence: if one began
in it, the text would have been split there.
-/

namespace MicroBasic

namespace Text

variable {separator : List Char}

theorem splitFrom_ne_nil (skip : Nat) (cs : List Char) : splitFrom separator skip cs ≠ [] := by
  fun_induction splitFrom separator skip cs with
  | case1 => exact List.cons_ne_nil _ _
  | case2 _ _ _ ih => exact ih
  | case3 => exact List.cons_ne_nil _ _
  | case4 c rest _ ih =>
    unfold consToHead
    split <;> exact List.cons_ne_nil _ _

theorem intercalate_consToHead {pieces : List (List Char)} (c : Char) (nonempty : pieces ≠ []) :
    separator.intercalate (consToHead c pieces) = c :: separator.intercalate pieces := by
  obtain ⟨piece, others, rfl⟩ := List.exists_cons_of_ne_nil nonempty
  cases others with
  | nil => simp [consToHead]
  | cons next others => rw [consToHead, List.intercalate_cons_cons, List.intercalate_cons_cons]; rfl

/-- To replace is to join the pieces by the replacement. -/
theorem replaceFrom_eq (replacement : List Char) (skip : Nat) (cs : List Char) :
    replaceFrom separator replacement skip cs =
      replacement.intercalate (splitFrom separator skip cs) := by
  fun_induction splitFrom separator skip cs with
  | case1 => simp [replaceFrom]
  | case2 skip c rest ih => exact ih
  | case3 c rest found ih =>
    rw [replaceFrom, if_pos found, List.intercalate_cons_of_ne_nil (splitFrom_ne_nil _ _), ih]; rfl
  | case4 c rest absent ih =>
    rw [replaceFrom, if_neg absent, intercalate_consToHead c (splitFrom_ne_nil _ _), ih]

theorem replaceFrom_self (nonempty : separator ≠ []) (skip : Nat) (cs : List Char) :
    replaceFrom separator separator skip cs = cs.drop skip := by
  fun_induction replaceFrom separator separator skip cs with
  | case1 => rw [List.drop_nil]
  | case2 skip c rest ih => exact ih
  | case3 c rest found ih =>
    obtain ⟨behind, whole⟩ := List.isPrefixOf_iff_prefix.mp found
    have size := List.length_pos_iff.mpr nonempty
    have rest_eq : rest.drop (separator.length - 1) = behind := by
      rw [← List.drop_succ_cons (a := c), Nat.sub_add_cancel size, ← whole, List.drop_left]
    rw [ih, rest_eq, List.drop_zero, whole]
  | case4 c rest _ ih => rw [ih]; rfl

/-- Joined by the separator, the pieces are the text again. -/
theorem intercalate_splitFrom (nonempty : separator ≠ []) (skip : Nat) (cs : List Char) :
    separator.intercalate (splitFrom separator skip cs) = cs.drop skip :=
  (replaceFrom_eq separator skip cs).symm.trans (replaceFrom_self nonempty skip cs)

/-- The first piece of a text is a beginning of it. -/
theorem prefix_of_splitFrom {cs piece : List Char} {pieces : List (List Char)}
    (nonempty : separator ≠ [])
    (split : splitFrom separator 0 cs = piece :: pieces) : piece <+: cs := by
  have whole := intercalate_splitFrom nonempty 0 cs
  rw [split, List.drop_zero] at whole
  cases pieces with
  | nil => exact ⟨[], by simpa using whole⟩
  | cons next pieces => exact ⟨_, by rwa [List.intercalate_cons_cons, List.append_assoc] at whole⟩

theorem not_infix_of_mem_splitFrom (nonempty : separator ≠ []) (skip : Nat) (cs : List Char) :
    ∀ piece ∈ splitFrom separator skip cs, ¬ separator <:+: piece := by
  have nothing : ¬ separator <:+: [] := fun within => nonempty (List.infix_nil.mp within)
  fun_induction splitFrom separator skip cs with
  | case1 => simpa using nothing
  | case2 _ _ _ ih => exact ih
  | case3 _ _ _ ih => exact List.forall_mem_cons.mpr ⟨nothing, ih⟩
  | case4 c rest absent ih =>
    obtain ⟨piece, pieces, split⟩ := List.exists_cons_of_ne_nil (@splitFrom_ne_nil separator 0 rest)
    rw [split] at ih ⊢
    refine List.forall_mem_cons.mpr ⟨fun within => ?_, (List.forall_mem_cons.mp ih).2⟩
    rcases List.infix_cons_iff.mp within with begins | within
    · -- An occurrence at the front of the piece is one at the front of the text.
      have front : c :: piece <+: c :: rest :=
        List.cons_prefix_cons.mpr ⟨rfl, prefix_of_splitFrom nonempty split⟩
      exact absent (List.isPrefixOf_iff_prefix.mpr (begins.trans front))
    · exact (List.forall_mem_cons.mp ih).1 within

theorem toList_join (separator : String) (pieces : List String) :
    (join separator pieces).toList = separator.toList.intercalate (pieces.map String.toList) :=
  String.toList_intercalate

theorem toList_split {separator : String} (nonempty : separator ≠ "") (s : String) :
    (split separator s).map String.toList = splitFrom separator.toList 0 s.toList := by
  rw [split, if_neg (by simpa using nonempty), List.map_map]
  exact (List.map_congr_left fun _ _ => String.toList_ofList).trans (List.map_id _)

theorem join_split (separator s : String) : join separator (split separator s) = s := by
  rw [← String.toList_inj, toList_join]
  by_cases blank : separator = ""
  · subst blank
    rw [show split "" s = s.toList.map String.singleton from if_pos rfl]
    induction s.toList with
    | nil => rfl
    | cons c rest ih =>
      cases rest with
      | nil => simp
      | cons d rest => simpa using ih
  · rw [toList_split blank, intercalate_splitFrom (by simpa using blank), List.drop_zero]

theorem replace_eq {separator : String} (nonempty : separator ≠ "") (s replacement : String) :
    replace s separator replacement = join replacement (split separator s) := by
  rw [← String.toList_inj, toList_join, toList_split nonempty, replace,
    if_neg (by simpa using nonempty), String.toList_ofList, replaceFrom_eq]

end Text

namespace Library

theorem join_texts {ref : ArrayRef} {state : HostState} {pieces : List String} (separator : String)
    (held : state.heap.items ref = (pieces.map Value.text).toArray) :
    join [.array ref, .text separator] state = .ok (.text (Text.join separator pieces)) state := by
  have shown : (state.heap.items ref).toList.map (Value.display state.heap) = pieces := by
    rw [held, List.map_map]
    exact List.map_id _
  change EStateM.Result.ok
    (Value.text (Text.join separator ((state.heap.items ref).toList.map _))) state = _
  rw [shown]

end Library

/-- Splitting a text and joining the pieces by the same separator gives the text back, also for the
empty separator. For another one, no piece contains it, and joining the pieces by any text is what
replacing the separator by that text gives; replacing the empty text changes nothing. -/
theorem split_join_replace (s separator replacement : String) (state : HostState) : ∃ ref next,
    Library.split [.text s, .text separator] state = .ok (.array ref) next ∧
    Library.join [.array ref, .text separator] next = .ok (.text s) next ∧
    (separator ≠ "" →
      (∀ value ∈ next.heap.items ref, ∃ piece, value = .text piece ∧
        ¬ separator.toList <:+: piece.toList) ∧
      ∃ replaced, Library.replace [.text s, .text separator, .text replacement] state =
        .ok (.text replaced) state ∧
        Library.join [.array ref, .text replacement] next = .ok (.text replaced) next) ∧
    (separator = "" →
      Library.replace [.text s, .text separator, .text replacement] state =
        .ok (.text s) state) := by
  let pieces := Text.split separator s
  let made := state.heap.newArray (pieces.map Value.text).toArray
  have held : made.2.items made.1 = (pieces.map Value.text).toArray := by
    simp [made, Heap.newArray, Heap.items]
  refine ⟨made.1, { state with heap := made.2 }, rfl, ?_,
    fun nonempty => ⟨fun value among => ?_, _, rfl, ?_⟩, ?_⟩
  · rw [Library.join_texts separator held, Text.join_split]
  · rw [show made.2.items made.1 = _ from held, List.mem_toArray] at among
    obtain ⟨piece, isPiece, rfl⟩ := List.mem_map.mp among
    refine ⟨piece, rfl, Text.not_infix_of_mem_splitFrom (by simpa using nonempty) 0 s.toList _ ?_⟩
    rw [← Text.toList_split nonempty]
    exact List.mem_map_of_mem isPiece
  · rw [Library.join_texts replacement held, Text.replace_eq nonempty]
  · rintro rfl
    rfl

end MicroBasic
