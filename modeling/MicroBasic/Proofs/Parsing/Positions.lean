import MicroBasic.Proofs.Parsing.Coverage

/-!
# Positions by line starts

The line of an offset is found among the offsets at which lines start. These increase from zero on,
so there is a last one that is not beyond the offset; the characters behind it are those of the
line, and a search that goes by halves comes to it as well, whether it hits the offset or only the
gap where the offset would have to stand.
-/

namespace MicroBasic.LineIndex

/-- What a search by halves for an offset tells: the index where it stands, or else the one where it
would have to. -/
inductive Searched (starts : List Nat) (offset : Nat) : Except Nat Nat → Prop
  | hit {index : Nat} (held : starts[index]? = some offset) : Searched starts offset (.ok index)
  | miss {index : Nat} (fits : index ≤ starts.length)
    (before : ∀ start ∈ starts.take index, start < offset)
    (behind : ∀ start ∈ starts.drop index, offset < start) : Searched starts offset (.error index)

/-- The index of the last start that is not beyond an offset, by the result of a search for the
offset. A gap before the first start has none. -/
def lineOf? : Except Nat Nat → Option Nat
  | .ok index => some index
  | .error 0 => none
  | .error (before + 1) => some before

/-- An entry that is not beyond an offset, while all later ones are. -/
structure Last (starts : List Nat) (offset index start : Nat) : Prop where
  held : starts[index]? = some start
  reached : start ≤ offset
  later : ∀ other ∈ starts.drop (index + 1), offset < other

theorem pairwise_lineStartsFrom (offset : Nat) (cs : List Char) :
    (lineStartsFrom offset cs).Pairwise (· < ·) := by
  induction cs generalizing offset with
  | nil => exact .nil
  | cons c rest ih =>
    rw [lineStartsFrom]
    split
    · exact .cons (fun _ => lt_of_mem_lineStartsFrom) (ih _)
    · exact ih _

theorem pairwise_starts (cs : List Char) : (LineIndex.of cs).starts.Pairwise (· < ·) :=
  .cons (fun _ => lt_of_mem_lineStartsFrom) (pairwise_lineStartsFrom 0 cs)

theorem last_lookup {offset start line : Nat} {starts : List Nat}
    (increasing : (start :: starts).Pairwise (· < ·)) (reached : start ≤ offset) :
    ∃ index, (lookup offset starts line start).1 = line + index ∧
      Last (start :: starts) offset index (lookup offset starts line start).2 := by
  induction starts generalizing line start with
  | nil => exact ⟨0, rfl, rfl, reached, nofun⟩
  | cons next rest ih =>
    rw [lookup]
    split
    next further =>
      obtain ⟨index, counted, held, reached, later⟩ := ih increasing.tail further
      exact ⟨index + 1, by rw [counted]; omega, held, reached, later⟩
    next beyond =>
      refine ⟨0, rfl, rfl, reached,
        List.forall_mem_cons.mpr ⟨Nat.lt_of_not_le beyond, fun other among => ?_⟩⟩
      exact Nat.lt_trans (Nat.lt_of_not_le beyond) (List.rel_of_pairwise_cons increasing.tail among)

/-- Every search leads to the last start that is not beyond the offset. -/
theorem Last.lineOf?_eq {starts : List Nat} {offset index start : Nat}
    (last : Last starts offset index start) (increasing : starts.Pairwise (· < ·))
    {result : Except Nat Nat} (searched : Searched starts offset result) :
    lineOf? result = some index := by
  obtain ⟨short, rfl⟩ := List.getElem?_eq_some_iff.mp last.held
  have beyond {other : Nat} (behind : index < other) (fits : other < starts.length) :
      offset < starts[other] :=
    last.later _ (List.mem_drop_iff_getElem.mpr ⟨other - (index + 1), by omega, by congr 1; omega⟩)
  cases searched with
  | @hit place held =>
    obtain ⟨fits, same⟩ := List.getElem?_eq_some_iff.mp held
    refine congrArg some
      (Nat.le_antisymm (Nat.le_of_not_lt fun behind => ?_) (Nat.le_of_not_lt fun before => ?_))
    · exact Nat.lt_irrefl _ (same ▸ beyond behind fits)
    · have less := List.pairwise_iff_getElem.mp increasing place index fits short before
      have reached := last.reached
      omega
  | @miss place fits before behind =>
    have after : index < place := by
      refine Nat.lt_of_not_le fun early => Nat.not_lt_of_le last.reached (behind _ ?_)
      exact List.mem_drop_iff_getElem.mpr ⟨index - place, by omega, by congr 1; omega⟩
    obtain ⟨gap, rfl⟩ := Nat.exists_eq_add_one.mpr (Nat.zero_lt_of_lt after)
    refine congrArg some
      (Nat.le_antisymm (Nat.le_of_not_lt fun late => ?_) (Nat.le_of_lt_succ after))
    have less := before _ (List.mem_take_iff_getElem.mpr ⟨gap, by omega, rfl⟩)
    exact Nat.lt_asymm less (beyond late fits)

theorem Last.exists_searched {starts : List Nat} {offset index start : Nat}
    (last : Last starts offset index start) (increasing : starts.Pairwise (· < ·)) :
    ∃ result, Searched starts offset result := by
  obtain ⟨short, rfl⟩ := List.getElem?_eq_some_iff.mp last.held
  rcases Nat.eq_or_lt_of_le last.reached with same | less
  · exact ⟨.ok index, .hit (same ▸ last.held)⟩
  · refine ⟨.error (index + 1), .miss short (fun other among => ?_) last.later⟩
    obtain ⟨place, fits, rfl⟩ := List.mem_take_iff_getElem.mp among
    rcases Nat.eq_or_lt_of_le (show place ≤ index by omega) with rfl | before
    · exact less
    · exact Nat.lt_trans
        (List.pairwise_iff_getElem.mp increasing place index (by omega) short before) less

/-- An offset between two characters of a source is in the line that its line breaks count, and its
column counts the characters behind the last of them. The line is that of the last start not beyond
the offset, and a search by halves among the starts always comes to it. -/
theorem position_counts (before rest : List Char) :
    (∃ lines last, before = lines ++ last ∧ '\n' ∉ last ∧
      (lines = [] ∨ lines.getLast? = some '\n') ∧
      (LineIndex.of (before ++ rest)).position (before ++ rest) (byteLength before) =
        ⟨1 + before.count '\n', 1 + last.length⟩) ∧
    ∃ index start, index + 1 =
      ((LineIndex.of (before ++ rest)).position (before ++ rest) (byteLength before)).line ∧
      Last (LineIndex.of (before ++ rest)).starts (byteLength before) index start ∧
      (∃ result, Searched (LineIndex.of (before ++ rest)).starts (byteLength before) result) ∧
      ∀ result, Searched (LineIndex.of (before ++ rest)).starts (byteLength before) result →
        lineOf? result = some index := by
  constructor
  · obtain ⟨lines, last, rfl, within, begins⟩ := exists_last_line before
    refine ⟨lines, last, rfl, within, ?_, ?_⟩
    · exact begins.imp_right fun ⟨front, same⟩ => by rw [same, List.getLast?_concat]
    · rw [position_behind, Position.behind_eq within begins, List.count_append,
        List.count_eq_zero.mpr within, Nat.add_zero (lines.count _), Nat.add_comm _ 1,
          Nat.add_comm _ 1]
  · have increasing := pairwise_starts (before ++ rest)
    obtain ⟨index, counted, last⟩ :=
      @last_lookup (byteLength before) 0 1 _ increasing (Nat.zero_le _)
    refine ⟨index, _, ?_, last, last.exists_searched increasing,
      fun _ => last.lineOf?_eq increasing⟩
    exact (Nat.add_comm _ _).trans counted.symm

end MicroBasic.LineIndex
