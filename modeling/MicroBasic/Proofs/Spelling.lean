import Mathlib.Order.Bounds.Basic
import Mathlib.Order.MinMax
import MicroBasic.Text.Spelling

/-!
# The distance of two names counts edits

The table of distances is filled row by row, and each entry depends on three earlier ones. Read
backwards from its last characters, a name and another one have the recursive distance of
Levenshtein, and that is what the entries are. The recursive distance is the least number of edits,
and edits do not mind the direction in which a name is read.

A suggestion for a name is looked for among candidates one after the other. The best so far is the
first of the nearest ones seen, and one more candidate takes its place only if it is nearer.
-/

namespace MicroBasic.Text

/-- One character is put in, taken out or replaced. -/
inductive Edit : List Char → List Char → Prop
  | insert (front back : List Char) (c : Char) : Edit (front ++ back) (front ++ c :: back)
  | delete (front back : List Char) (c : Char) : Edit (front ++ c :: back) (front ++ back)
  | replace (front back : List Char) (c d : Char) : Edit (front ++ c :: back) (front ++ d :: back)

/-- So many edits turn one text into the other. -/
inductive Edits : Nat → List Char → List Char → Prop
  | none (text : List Char) : Edits 0 text text
  | next {count : Nat} {first second last : List Char} (edit : Edit first second)
      (edits : Edits count second last) : Edits (count + 1) first last

/-- The recursive distance. -/
def levenshtein : List Char → List Char → Nat
  | [], bs => bs.length
  | as, [] => as.length
  | a :: as, b :: bs =>
    min (min (levenshtein as (b :: bs) + 1) (levenshtein (a :: as) bs + 1))
      (levenshtein as bs + if a = b then 0 else 1)

@[simp]
theorem levenshtein_nil (as : List Char) : levenshtein as [] = as.length := by
  cases as <;> simp [levenshtein]

theorem levenshtein_cons (a b : Char) (as bs : List Char) : levenshtein (a :: as) (b :: bs) =
      min (min (levenshtein as (b :: bs) + 1) (levenshtein (a :: as) bs + 1))
        (levenshtein as bs + if a = b then 0 else 1) := by
  rw [levenshtein]

/-! ### The recursive distance is the least number of edits -/

namespace Edit

variable {as bs : List Char}

theorem behind (c : Char) (edit : Edit as bs) : Edit (c :: as) (c :: bs) := by
  cases edit with
  | insert front back d => exact .insert (c :: front) back d
  | delete front back d => exact .delete (c :: front) back d
  | replace front back d e => exact .replace (c :: front) back d e

theorem reverse (edit : Edit as bs) : Edit as.reverse bs.reverse := by
  cases edit with
  | insert front back c => simpa using Edit.insert back.reverse front.reverse c
  | delete front back c => simpa using Edit.delete back.reverse front.reverse c
  | replace front back c d => simpa using Edit.replace back.reverse front.reverse c d

end Edit

namespace Edits

variable {count : Nat} {as bs : List Char}

theorem behind (c : Char) (edits : Edits count as bs) : Edits count (c :: as) (c :: bs) := by
  induction edits with
  | none text => exact .none (c :: text)
  | next edit _ ih => exact .next (edit.behind c) ih

theorem reverse (edits : Edits count as bs) : Edits count as.reverse bs.reverse := by
  induction edits with
  | none text => exact .none text.reverse
  | next edit _ ih => exact .next edit.reverse ih

theorem reverse_iff : Edits count as.reverse bs.reverse ↔ Edits count as bs := by
  constructor
  · intro edits
    simpa using edits.reverse
  · exact reverse

theorem inserting_all (bs : List Char) : Edits bs.length [] bs := by
  induction bs with
  | nil => exact .none []
  | cons b bs ih => exact .next (.insert [] [] b) (ih.behind b)

theorem deleting_all (as : List Char) : Edits as.length as [] := by
  induction as with
  | nil => exact .none []
  | cons a as ih => exact .next (.delete [] as a) ih

/-- The recursive distance is the number of some edits: those of the distance it was computed from,
and one more unless two characters agree. -/
theorem of_levenshtein (as bs : List Char) : Edits (levenshtein as bs) as bs := by
  fun_induction levenshtein as bs with
  | case1 bs => exact inserting_all bs
  | case2 as _ => exact deleting_all as
  | case3 a as b bs delete insert keep =>
    have deleting := Edits.next (.delete [] as a) delete
    have inserting := Edits.next (.insert [] (a :: as) b) (insert.behind b)
    have keeping : Edits (levenshtein as bs + if a = b then 0 else 1) (a :: as) (b :: bs) := by
      split
      next same => exact same ▸ keep.behind a
      next => exact .next (.replace [] as a b) (keep.behind b)
    let Enough (count : Nat) : Prop := Edits count (a :: as) (b :: bs)
    exact min_rec' Enough (min_rec' Enough deleting inserting) keeping

end Edits

/-- How far an edit can change the distance to any text. -/
def Near (as bs : List Char) : Prop :=
  ∀ text, levenshtein as text ≤ levenshtein bs text + 1

theorem levenshtein_le_insert (as bs : List Char) (b : Char) :
    levenshtein as (b :: bs) ≤ levenshtein as bs + 1 := by
  cases as with
  | nil => simp [levenshtein]
  | cons a as =>
    rw [levenshtein_cons]
    omega

theorem near_delete (a : Char) (as : List Char) : Near (a :: as) as := by
  intro text
  cases text with
  | nil => simp
  | cons b bs =>
    rw [levenshtein_cons]
    omega

theorem near_insert (a : Char) (as : List Char) : Near as (a :: as) := by
  intro text
  induction text with
  | nil =>
    rw [levenshtein_nil, levenshtein_nil, List.length_cons]
    omega
  | cons b bs ih =>
    have longer := levenshtein_le_insert as bs b
    rw [levenshtein_cons]
    omega

theorem near_replace (a d : Char) (as : List Char) : Near (a :: as) (d :: as) := by
  intro text
  induction text with
  | nil => simp
  | cons b bs ih =>
    rw [levenshtein_cons, levenshtein_cons]
    split <;> split <;> omega

theorem Near.behind {as bs : List Char} (near : Near as bs) (c : Char) : Near (c :: as)
    (c :: bs) := by
  intro text
  induction text with
  | nil =>
    have shorter := near []
    rw [levenshtein_nil, levenshtein_nil] at shorter ⊢
    exact Nat.succ_le_succ shorter
  | cons b text ih =>
    have whole := near (b :: text)
    have rest := near text
    rw [levenshtein_cons, levenshtein_cons]
    omega

theorem Near.of_edit {as bs : List Char} (edit : Edit as bs) : Near as bs := by
  have behind {as bs : List Char} (near : Near as bs) (front : List Char) :
      Near (front ++ as) (front ++ bs) := by
    induction front with
    | nil => exact near
    | cons c front ih => exact ih.behind c
  cases edit with
  | insert front back c => exact behind (near_insert c back) front
  | delete front back c => exact behind (near_delete c back) front
  | replace front back c d => exact behind (near_replace c d back) front

theorem levenshtein_self (as : List Char) : levenshtein as as = 0 := by
  induction as with
  | nil => simp
  | cons a as ih => simp [levenshtein_cons, ih]

theorem Edits.levenshtein_le {count : Nat} {as bs : List Char} (edits : Edits count as bs) :
    levenshtein as bs ≤ count := by
  induction edits with
  | none text => exact Nat.le_of_eq (levenshtein_self text)
  | @next count first second last edit _ ih =>
    have near := Near.of_edit edit last
    omega

theorem levenshtein_least (as bs : List Char) :
    IsLeast {count | Edits count as bs} (levenshtein as bs) := by
  constructor
  · exact Edits.of_levenshtein as bs
  · intro count edits
    exact edits.levenshtein_le

/-! ### The rows of the table -/

/-- The entries of a row after its first: the distances from `seen` to `done` with more and more
characters of a text before it. Both are read backwards. -/
def entries (seen : List Char) : List Char → List Char → List Nat
  | _, [] => []
  | done, b :: bs => levenshtein seen (b :: done) :: entries seen (b :: done) bs

/-- The row of the characters that were seen, last one first. -/
def row (seen bs : List Char) : List Nat :=
  seen.length :: entries seen [] bs

theorem rowTail_entries (a : Char) (seen done bs : List Char) :
    rowTail a (levenshtein (a :: seen) done) (levenshtein seen done) (entries seen done bs) bs =
      entries (a :: seen) done bs := by
  induction bs generalizing done with
  | nil => rfl
  | cons b bs ih =>
    have rest := ih (b :: done)
    rw [levenshtein_cons] at rest
    rw [entries, entries, levenshtein_cons]
    exact congrArg (List.cons _) rest

theorem nextRow_row (a : Char) (seen bs : List Char) :
    nextRow a (row seen bs) bs = row (a :: seen) bs := by
  have tail := rowTail_entries a seen [] bs
  rw [levenshtein_nil, levenshtein_nil] at tail
  exact congrArg (List.cons _) tail

theorem row_nil (bs : List Char) : row [] bs = List.range (bs.length + 1) := by
  have counted (done : List Char) :
      entries [] done bs = List.range' (done.length + 1) bs.length := by
    induction bs generalizing done with
    | nil => rfl
    | cons b bs ih =>
      rw [entries, ih, List.length_cons, List.length_cons, List.range'_succ, levenshtein,
        List.length_cons]
  rw [row, counted, List.range_eq_range', List.range'_succ]
  rfl

theorem foldl_row (as seen bs : List Char) :
    as.foldl (fun row a => nextRow a row bs) (row seen bs) = row (as.reverse ++ seen) bs := by
  induction as generalizing seen with
  | nil => rfl
  | cons a as ih =>
    rw [List.foldl_cons, nextRow_row, ih]
    simp

theorem getLastD_entries (seen done bs : List Char) (default : Nat) :
    (levenshtein seen done :: entries seen done bs).getLastD default =
      levenshtein seen (bs.reverse ++ done) := by
  induction bs generalizing done default with
  | nil => rfl
  | cons b bs ih =>
    rw [entries, List.getLastD_cons, ih]
    simp

theorem charDistance_reverse (as bs : List Char) :
    charDistance as bs = levenshtein as.reverse bs.reverse := by
  have last := getLastD_entries as.reverse [] bs 0
  rw [List.append_nil, levenshtein_nil] at last
  rw [charDistance, lastRow, ← row_nil, foldl_row, List.append_nil]
  exact last

theorem charDistance_least (as bs : List Char) :
    IsLeast {count | Edits count as bs} (charDistance as bs) := by
  have least := levenshtein_least as.reverse bs.reverse
  simp only [Edits.reverse_iff] at least
  rwa [charDistance_reverse]

/-- The distance of two names is the least number of edits that turn one into the other when the
case of their letters is ignored, and it is their recursive distance. -/
theorem distance_least (a b : String) :
    IsLeast {count | Edits count (a.toList.map Char.toUpper) (b.toList.map Char.toUpper)}
      (distance a b) ∧
      distance a b = levenshtein (a.toList.map Char.toUpper) (b.toList.map Char.toUpper) := by
  have least := charDistance_least (a.toList.map Char.toUpper) (b.toList.map Char.toUpper)
  exact ⟨least, least.unique (levenshtein_least _ _)⟩

/-! ### Suggestions -/

/-- A candidate does not count: it is the name itself, up to case, or too far away. -/
def Excluded (name : String) (threshold : Nat) (candidate : String) : Prop :=
  sameName candidate name = true ∨ threshold < distance name candidate

/-- The first of the nearest candidates among those that count. -/
structure Suggested (name : String) (threshold : Nat) (candidates : List String) (found : String) :
    Prop where
  other : sameName found name = false
  within : distance name found ≤ threshold
  first : ∃ before behind, candidates = before ++ found :: behind ∧
    (∀ c ∈ before, sameName c name = true ∨ distance name found < distance name c) ∧
    ∀ c ∈ behind, sameName c name = true ∨ distance name found ≤ distance name c

/-- What the best candidate so far tells of the candidates seen. -/
def Best (name : String) (threshold : Nat) (seen : List String) : Option (Nat × String) → Prop
  | none => ∀ c ∈ seen, Excluded name threshold c
  | some (least, found) => least = distance name found ∧ Suggested name threshold seen found

theorem distance_pos {name candidate : String} (other : sameName candidate name = false) :
    1 ≤ distance name candidate := by
  refine Nat.pos_of_ne_zero fun zero => ?_
  have edits :=
    (charDistance_least (name.toList.map Char.toUpper) (candidate.toList.map Char.toUpper)).1
  rw [show charDistance _ _ = 0 from zero] at edits
  generalize same : name.toList.map Char.toUpper = text at edits
  cases edits
  rw [sameName, foldName, foldName, same, beq_self_eq_true] at other
  cases other

section

variable {name candidate found : String} {threshold : Nat} {seen : List String}
    {best : Option (Nat × String)}

theorem Suggested.least (suggested : Suggested name threshold seen found) :
    ∀ c ∈ seen, sameName c name = true ∨ distance name found ≤ distance name c := by
  obtain ⟨_, _, before, behind, rfl, nearer, near⟩ := suggested
  refine List.forall_mem_append.mpr
    ⟨fun c among => ?_, List.forall_mem_cons.mpr ⟨.inr (Nat.le_refl _), near⟩⟩
  exact (nearer c among).imp_right Nat.le_of_lt

theorem Suggested.concat (suggested : Suggested name threshold seen found)
    (further : sameName candidate name = true ∨ distance name found ≤ distance name candidate) :
    Suggested name threshold (seen ++ [candidate]) found := by
  obtain ⟨other, within, before, behind, rfl, nearer, near⟩ := suggested
  refine ⟨other, within, before, behind ++ [candidate], List.append_assoc _ _ _, nearer, ?_⟩
  exact List.forall_mem_append.mpr ⟨near, List.forall_mem_singleton.mpr further⟩

theorem Best.skip (holds : Best name threshold seen best)
    (excluded : Excluded name threshold candidate) :
    Best name threshold (seen ++ [candidate]) best := by
  match best, holds with
  | none, holds => exact List.forall_mem_append.mpr ⟨holds, List.forall_mem_singleton.mpr excluded⟩
  | some (_, _), ⟨rfl, suggested⟩ =>
    refine ⟨rfl, suggested.concat (excluded.imp_right fun far => ?_)⟩
    exact Nat.le_of_lt (Nat.lt_of_le_of_lt suggested.within far)

theorem Best.nearer (holds : Best name threshold seen best) :
    Best name threshold (seen ++ [candidate]) (nearer name threshold best candidate) := by
  unfold Text.nearer
  split
  next same => exact holds.skip (.inl same)
  next other =>
    dsimp only
    split
    next far => exact holds.skip (.inr far)
    next within =>
      have chosen
        (nearest : ∀ c ∈ seen, sameName c name = true ∨ distance name candidate < distance name c) :
          Best name threshold (seen ++ [candidate]) (some (distance name candidate, candidate)) :=
        ⟨rfl, Bool.eq_false_iff.mpr other, Nat.le_of_not_lt within, seen, [], rfl, nearest, nofun⟩
      match best, holds with
      | none, holds =>
        refine chosen fun c among => (holds c among).imp_right fun far => ?_
        exact Nat.lt_of_le_of_lt (Nat.le_of_not_lt within) far
      | some (_, _), ⟨rfl, suggested⟩ =>
        dsimp only
        split
        next closer =>
          exact chosen fun c among =>
            (suggested.least c among).imp_right (Nat.lt_of_lt_of_le closer)
        next further => exact ⟨rfl, suggested.concat (.inr (Nat.le_of_not_lt further))⟩

theorem Best.foldl (holds : Best name threshold seen best) (candidates : List String) :
    Best name threshold (seen ++ candidates)
      (candidates.foldl (Text.nearer name threshold) best) := by
  induction candidates generalizing seen best with
  | nil => rwa [List.append_nil]
  | cons candidate rest ih =>
    rw [List.append_cons]
    exact ih holds.nearer

end

/-- There is no suggestion exactly if no candidate counts. Otherwise the suggestion is the first of
the nearest candidates that count, and it is at least one edit away and no further than the
threshold. -/
theorem suggestion_nearest (name : String) (candidates : List String) (threshold : Nat) :
    (∀ c : String,
      IsLeast {count | Edits count (name.toList.map Char.toUpper) (c.toList.map Char.toUpper)}
      (distance name c)) ∧
    (nearest? name candidates threshold = none ↔ ∀ c ∈ candidates, Excluded name threshold c) ∧
      ∀ found, nearest? name candidates threshold = some found →
        Suggested name threshold candidates found ∧ 1 ≤ distance name found ∧
          distance name found ≤ threshold := by
  refine ⟨fun c => charDistance_least _ _, ?_⟩
  have start : Best name threshold [] none := nofun
  have best := start.foldl candidates
  rw [List.nil_append] at best
  unfold nearest?
  match candidates.foldl (nearer name threshold) .none, best with
  | .none, excluded => exact ⟨⟨fun _ => excluded, fun _ => rfl⟩, nofun⟩
  | some (_, found), ⟨_, suggested⟩ =>
    refine ⟨⟨nofun, fun excluded => ?_⟩, ?_⟩
    · obtain ⟨other, within, before, behind, rfl, _⟩ := suggested
      rcases excluded found (List.mem_append_right _ List.mem_cons_self) with same | far
      · exact absurd same (Bool.eq_false_iff.mp other)
      · exact absurd far (Nat.not_lt_of_le within)
    · rintro _ ⟨⟩
      exact ⟨suggested, distance_pos suggested.other, suggested.within⟩

end MicroBasic.Text
