import MappingForms.Table
import Mathlib.Data.List.Nodup

/-!
Contract: the look-ups of tables.

Owns: what a table answers after each operation, the correspondence between its
look-ups, its entries and its keys, and the part of a table under some keys.

Keys are compared by a lawful order, so equal keys and keys that compare equal are
the same thing.
-/

set_option autoImplicit false

namespace MappingForms

namespace Table

variable {κ α : Type} [Ord κ]

@[simp]
theorem get?_empty (key : κ) : (∅ : Table κ α).get? key = none := rfl

/-- A change of all values changes what is found under each key. -/
theorem get?_mapValues {β : Type} (table : Table κ α) (change : α → β) (sought : κ) :
    (table.mapValues change).get? sought = (table.get? sought).map change := by
  unfold get? mapValues
  rw [List.find?_map, Option.map_map, Option.map_map]
  rfl

theorem contains_eq_true_iff (table : Table κ α) (key : κ) :
    table.contains key = true ↔ ∃ value, table.get? key = some value := by
  rw [contains, Option.isSome_iff_exists]

theorem contains_eq_false_iff (table : Table κ α) (key : κ) :
    table.contains key = false ↔ table.get? key = none := by
  rw [contains, Option.isSome_eq_false_iff, Option.isNone_iff_eq_none]

theorem mem_keys_iff (table : Table κ α) (key : κ) :
    key ∈ table.keys ↔ ∃ value, (key, value) ∈ table.entries := by
  simp [keys]

variable [Std.LawfulEqOrd κ]

/-! ## Entries -/

/-- Keys are strictly increasing, so no key is listed twice. -/
theorem nodup_keys (table : Table κ α) : table.keys.Nodup := by
  refine List.pairwise_map.2 (table.ordered.imp ?_)
  intro earlier later below same
  rw [same, Std.ReflOrd.compare_self] at below
  cases below

/-- A table finds exactly the entries that it lists. -/
theorem get?_eq_some_iff (table : Table κ α) (key : κ) (value : α) :
    table.get? key = some value ↔ (key, value) ∈ table.entries := by
  constructor
  · intro found
    obtain ⟨entry, foundEntry, rfl⟩ := Option.map_eq_some_iff.1 found
    have sameKey : key = entry.1 := by
      simpa using List.find?_some foundEntry
    rw [sameKey]
    exact List.mem_of_find?_eq_some foundEntry
  · intro member
    have present : (table.entries.find? fun entry => compare key entry.1 == .eq).isSome := by
      rw [List.find?_isSome]
      exact ⟨(key, value), member, by simp⟩
    obtain ⟨entry, foundEntry⟩ := Option.isSome_iff_exists.1 present
    have sameKey : key = entry.1 := by
      simpa using List.find?_some foundEntry
    have sameEntry : entry = (key, value) :=
      List.inj_on_of_nodup_map table.nodup_keys
        (List.mem_of_find?_eq_some foundEntry) member sameKey.symm
    rw [get?, foundEntry, sameEntry]
    rfl

theorem mem_keys_iff_contains (table : Table κ α) (key : κ) :
    key ∈ table.keys ↔ table.contains key = true := by
  rw [mem_keys_iff, contains_eq_true_iff]
  exact exists_congr fun value => (table.get?_eq_some_iff key value).symm

theorem mem_values_iff (table : Table κ α) (value : α) :
    value ∈ table.values ↔ ∃ key, table.get? key = some value := by
  simp [values, get?_eq_some_iff]

/-- The values under the keys that pass a test. -/
def restrict (table : Table κ α) (within : κ → Bool) : Table κ α :=
  ⟨table.entries.filter fun entry => within entry.1, table.ordered.filter _⟩

/-- A restricted table finds what the table finds under the keys within the set. -/
theorem get?_restrict (table : Table κ α) (within : κ → Bool) (key : κ) :
    (table.restrict within).get? key = if within key then table.get? key else none := by
  apply Option.ext
  intro value
  have listed : (key, value) ∈ (table.restrict within).entries ↔
      (key, value) ∈ table.entries ∧ within key = true := List.mem_filter
  rw [get?_eq_some_iff, listed, ← get?_eq_some_iff]
  by_cases inside : within key = true
  · simp [inside]
  · simp [inside]

/-! ## Equality -/

/-- A sorted list without repetitions is strictly increasing. -/
theorem increasing_of_sorted {keys : List κ}
    (sorted : keys.Pairwise fun earlier later => (compare earlier later).isLE = true)
    (distinct : keys.Nodup) :
    keys.Pairwise fun earlier later => compare earlier later = .lt := by
  refine (sorted.and distinct).imp ?_
  intro earlier later ⟨below, different⟩
  cases order : compare earlier later with
  | lt => rfl
  | eq => exact absurd (Std.LawfulEqOrd.compare_eq_iff_eq.1 order) different
  | gt =>
    rw [order] at below
    cases below

section Increasing

variable [Std.TransOrd κ]

/-- Lists with increasing keys are equal if they have the same members. -/
theorem eq_of_increasing {β : Type} (key : β → κ) {left right : List β}
    (leftOrdered : left.Pairwise fun earlier later => compare (key earlier) (key later) = .lt)
    (rightOrdered : right.Pairwise fun earlier later => compare (key earlier) (key later) = .lt)
    (same : ∀ item, item ∈ left ↔ item ∈ right) : left = right := by
  have distinct : ∀ {list : List β},
      (list.Pairwise fun earlier later => compare (key earlier) (key later) = .lt) →
        list.Nodup := by
    intro list ordered
    apply ordered.imp
    rintro earlier later below rfl
    rw [Std.ReflOrd.compare_self] at below
    cases below
  have permuted : left.Perm right :=
    (List.perm_ext_iff_of_nodup (distinct leftOrdered) (distinct rightOrdered)).2 same
  apply List.Perm.eq_of_pairwise _ leftOrdered rightOrdered permuted
  intro first second _ _ below above
  have contradictory := Std.TransCmp.lt_trans below above
  rw [Std.ReflOrd.compare_self] at contradictory
  cases contradictory

/-- Tables with the same look-ups are equal. -/
theorem ext_get? {left right : Table κ α} (same : ∀ key, left.get? key = right.get? key) :
    left = right := by
  have entriesEq : left.entries = right.entries := by
    apply eq_of_increasing Prod.fst left.ordered right.ordered
    rintro ⟨key, value⟩
    rw [← get?_eq_some_iff, ← get?_eq_some_iff, same]
  cases left
  cases right
  cases entriesEq
  rfl

end Increasing

/-! ## Operations -/

variable [DecidableEq κ]

private theorem find?_place (entries : List (κ × α)) (key : κ) (value : α) (sought : κ) :
    (place key value entries).find? (fun entry => compare sought entry.1 == .eq) =
      if sought = key then some (key, value)
      else entries.find? fun entry => compare sought entry.1 == .eq := by
  induction entries with
  | nil =>
    by_cases same : sought = key
    · simp [place, same]
    · simp [place, same]
  | cons first rest inductionHypothesis =>
    unfold place
    split
    · by_cases same : sought = key
      · simp [same]
      · simp [same]
    · rename_i keyEq
      have firstEq : key = first.1 := Std.LawfulEqOrd.compare_eq_iff_eq.1 keyEq
      by_cases same : sought = key
      · simp [same]
      · simp [same, ← firstEq]
    · rename_i above
      rw [List.find?_cons, List.find?_cons, inductionHypothesis]
      by_cases atFirst : sought = first.1
      · have different : sought ≠ key := by
          intro same
          rw [← same, atFirst, Std.ReflOrd.compare_self] at above
          cases above
        have hit : (compare sought first.1 == .eq) = true := by simp [atFirst]
        simp only [hit, if_neg different]
      · have miss : (compare sought first.1 == .eq) = false := by simp [atFirst]
        simp only [miss]

variable [Std.TransOrd κ]

/-- The value that was stored last is found under its key. -/
theorem get?_insert (table : Table κ α) (key : κ) (value : α) (sought : κ) :
    (table.insert key value).get? sought =
      if sought = key then some value else table.get? sought := by
  show ((place key value table.entries).find? _).map _ = _
  rw [find?_place]
  by_cases same : sought = key
  · rw [if_pos same, if_pos same]
    rfl
  · rw [if_neg same, if_neg same]
    rfl

/-- A value is stored only where there is none. -/
theorem get?_insertIfNew (table : Table κ α) (key : κ) (value : α) (sought : κ) :
    (table.insertIfNew key value).get? sought =
      if sought = key then some ((table.get? key).getD value) else table.get? sought := by
  unfold insertIfNew
  by_cases present : table.contains key = true
  · rw [if_pos present]
    obtain ⟨found, look⟩ := (table.contains_eq_true_iff key).1 present
    by_cases same : sought = key
    · rw [if_pos same, same, look]
      rfl
    · rw [if_neg same]
  · rw [if_neg present, get?_insert]
    have absent := (table.contains_eq_false_iff key).1 (Bool.eq_false_iff.2 present)
    rw [absent]
    rfl

/-- A change starts from the value that is there, or from the default. -/
theorem get?_update (table : Table κ α) (key : κ) (start : α) (change : α → α) (sought : κ) :
    (table.update key start change).get? sought =
      if sought = key then some (change ((table.get? key).getD start))
      else table.get? sought :=
  table.get?_insert key _ sought

/-- Of several values that are inserted under one key the last stays. -/
theorem get?_foldl_insert {β : Type} (key : β → κ) (value : β → α) (items : List β)
    (table : Table κ α) (sought : κ) :
    (items.foldl (fun table item => table.insert (key item) (value item)) table).get? sought =
      ((items.reverse.find? (key · = sought)).map value).or (table.get? sought) := by
  induction items generalizing table with
  | nil => simp
  | cons first rest inductionHypothesis =>
    rw [List.foldl_cons, inductionHypothesis, get?_insert, List.reverse_cons, List.find?_append]
    cases rest.reverse.find? (key · = sought) with
    | some item => simp
    | none =>
      by_cases same : sought = key first
      · simp [same]
      · have different : ¬key first = sought := fun equal => same equal.symm
        simp [same, different]

end Table

end MappingForms
