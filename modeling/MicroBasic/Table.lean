/-!
# Tables

A table holds one value for each of some keys. Keys keep the order in which they were first entered:
making an entry under a key that is there already changes neither the keys nor their order. In a few
places the order of a table is a choice that could be another one: which of several names that are
equally near is suggested, and in which order the variables of a scope are copied.
-/

namespace MicroBasic

/-- A table from keys to values. -/
structure Table (κ α : Type) where
  entries : List (κ × α)

namespace Table

variable {κ α : Type}

def empty : Table κ α := ⟨[]⟩

def keys (table : Table κ α) : List κ :=
  table.entries.map Prod.fst

/-- The values in the order of their keys. -/
def values (table : Table κ α) : List α :=
  table.entries.map Prod.snd

variable [DecidableEq κ]

def get? (table : Table κ α) (key : κ) : Option α :=
  table.entries.lookup key

def contains (table : Table κ α) (key : κ) : Bool :=
  (table.get? key).isSome

/-- Entries with a new value for a key, which goes to the end if it is new. -/
def put (key : κ) (value : α) : List (κ × α) → List (κ × α)
  | [] => [(key, value)]
  | entry :: rest => if entry.1 = key then (key, value) :: rest else entry :: put key value rest

def insert (table : Table κ α) (key : κ) (value : α) : Table κ α :=
  ⟨put key value table.entries⟩

/-- Take a key's value away. -/
def erase (table : Table κ α) (key : κ) : Table κ α :=
  ⟨table.entries.filter (fun entry => entry.1 ≠ key)⟩

section Entries

variable {entries : List (κ × α)} {key other : κ} {value : α}

theorem lookup_entry :
    (entry :: entries).lookup key = if key = entry.1 then some entry.2 else entries.lookup key := by
  rw [List.lookup_cons]
  by_cases same : key = entry.1
  · simp [same]
  · have different : (key == entry.1) = false := by simpa using same
    simp only [different, if_neg same]

theorem mem_of_lookup (found : entries.lookup key = some value) : (key, value) ∈ entries := by
  induction entries with
  | nil => cases found
  | cons entry rest ih =>
    rw [lookup_entry] at found
    split at found
    · next same =>
      cases found
      subst same
      exact List.mem_cons_self
    · exact List.mem_cons_of_mem entry (ih found)

theorem lookup_isSome_iff : (entries.lookup key).isSome = true ↔ key ∈ entries.map Prod.fst := by
  induction entries with
  | nil => simp
  | cons entry rest ih =>
    rw [lookup_entry, List.map_cons, List.mem_cons]
    by_cases same : key = entry.1
    · simp [same]
    · rw [if_neg same, ih]
      simp [same]

theorem lookup_put :
    (put key value entries).lookup other = if other =
      key then some value else entries.lookup other := by
  induction entries with
  | nil => rw [put, lookup_entry]
  | cons entry rest ih =>
    unfold put
    by_cases same : entry.1 = key
    · subst same
      rw [if_pos rfl, lookup_entry, lookup_entry]
      by_cases asked : other = entry.1
      · simp [asked]
      · simp [asked]
    · rw [if_neg same, lookup_entry, lookup_entry, ih]
      by_cases asked : other = key
      · subst asked
        simp [Ne.symm same]
      · simp [asked]

theorem keys_put (known : key ∈ entries.map Prod.fst) :
    (put key value entries).map Prod.fst = entries.map Prod.fst := by
  induction entries with
  | nil => cases known
  | cons entry rest ih =>
    unfold put
    by_cases same : entry.1 = key
    · simp [same]
    · rcases List.mem_cons.mp known with here | later
      · exact absurd here.symm same
      · simp only [if_neg same, List.map_cons, ih later]

theorem mem_put (held : entry ∈ put key value entries) :
    entry = (key, value) ∨ entry ∈ entries := by
  induction entries with
  | nil => exact .inl (List.mem_singleton.mp held)
  | cons first rest ih =>
    unfold put at held
    split at held
    · rcases List.mem_cons.mp held with rfl | held
      · exact .inl rfl
      · exact .inr (List.mem_cons_of_mem first held)
    · rcases List.mem_cons.mp held with rfl | held
      · exact .inr List.mem_cons_self
      · exact (ih held).imp_right (List.mem_cons_of_mem first)

theorem mem_keys_put :
    other ∈ (put key value entries).map Prod.fst ↔ other = key ∨ other ∈ entries.map Prod.fst := by
  induction entries with
  | nil => simp [put]
  | cons entry rest ih =>
    unfold put
    by_cases same : entry.1 = key
    · simp [same]
    · rw [if_neg same, List.map_cons, List.mem_cons, ih, List.map_cons, List.mem_cons]
      exact or_left_comm

theorem nodup_put (distinct : (entries.map Prod.fst).Nodup) :
    ((put key value entries).map Prod.fst).Nodup := by
  induction entries with
  | nil => simp [put]
  | cons entry rest ih =>
    rw [List.map_cons, List.nodup_cons] at distinct
    unfold put
    by_cases same : entry.1 = key
    · rw [if_pos same, List.map_cons, List.nodup_cons]
      exact ⟨same ▸ distinct.1, distinct.2⟩
    · rw [if_neg same, List.map_cons, List.nodup_cons, mem_keys_put]
      exact ⟨not_or.mpr ⟨same, distinct.1⟩, ih distinct.2⟩

end Entries

variable {table : Table κ α} {key other : κ} {value : α}

theorem mem_of_get? (found : table.get? key = some value) : (key, value) ∈ table.entries :=
  mem_of_lookup found

theorem contains_iff : table.contains key = true ↔ key ∈ table.keys :=
  lookup_isSome_iff

theorem get?_insert :
    (table.insert key value).get? other = if other = key then some value else table.get? other :=
  lookup_put

theorem insert_of_get? (found : table.get? key = some value) : table.insert key value = table := by
  obtain ⟨entries⟩ := table
  refine congrArg Table.mk ?_
  change entries.lookup key = some value at found
  induction entries with
  | nil => cases found
  | cons entry rest ih =>
    rw [lookup_entry] at found
    unfold put
    by_cases same : entry.1 = key
    · rw [if_pos same.symm] at found
      cases found
      rw [if_pos same, ← same]
    · rw [if_neg (Ne.symm same)] at found
      rw [if_neg same, ih found]

theorem keys_insert (known : key ∈ table.keys) : (table.insert key value).keys = table.keys :=
  keys_put known

theorem mem_keys_insert :
    other ∈ (table.insert key value).keys ↔ other = key ∨ other ∈ table.keys :=
  mem_keys_put

theorem mem_insert (held : entry ∈ (table.insert key value).entries) :
    entry = (key, value) ∨ entry ∈ table.entries :=
  mem_put held

theorem nodup_insert (distinct : table.keys.Nodup) : (table.insert key value).keys.Nodup :=
  nodup_put distinct

theorem nodup_erase (distinct : table.keys.Nodup) : (table.erase key).keys.Nodup :=
  distinct.sublist (List.filter_sublist.map Prod.fst)

theorem get?_erase :
    (table.erase key).get? other = if other = key then none else table.get? other := by
  obtain ⟨entries⟩ := table
  unfold erase get?
  induction entries with
  | nil => exact (ite_self none).symm
  | cons entry rest ih =>
    rw [lookup_entry, List.filter_cons]
    by_cases erased : entry.1 = key
    · rw [if_neg (by simp [erased]), ih]
      by_cases same : other = key
      · rw [if_pos same, if_pos same]
      · rw [if_neg same, if_neg same, if_neg fun here => same (here.trans erased)]
    · rw [if_pos (by simp [erased]), lookup_entry, ih]
      by_cases here : other = entry.1
      · rw [if_pos here, if_pos here, if_neg fun same => erased (here.symm.trans same)]
      · rw [if_neg here, if_neg here]

theorem mem_erase (held : entry ∈ (table.erase key).entries) : entry ∈ table.entries :=
  (List.mem_filter.mp held).1

end Table

end MicroBasic
