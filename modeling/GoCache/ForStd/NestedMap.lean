import Mathlib.Data.Finmap

/-!
# Finite maps of finite maps

A finite map whose values are finite maps again, as a map from pairs of keys. Its
rows appear with their first entry and go with their last.

## Key results

- `lookup_insert`, `lookup_erase`: entries through both operations
- `NoEmptyRow.insert`, `NoEmptyRow.erase`: no row is left empty
-/

namespace Finmap

variable {κ β : Type} [DecidableEq κ]

theorem lookup_insert_eq_ite (m : Finmap fun _ : κ => β) (k k' : κ) (b : β) :
    (m.insert k b).lookup k' = if k' = k then some b else m.lookup k' := by
  by_cases h : k' = k
  · subst h
    rw [if_pos rfl, Finmap.lookup_insert]
  · rw [if_neg h, Finmap.lookup_insert_of_ne _ h]

theorem lookup_erase_eq_ite (m : Finmap fun _ : κ => β) (k k' : κ) :
    (m.erase k).lookup k' = if k' = k then none else m.lookup k' := by
  by_cases h : k' = k
  · subst h
    rw [if_pos rfl, Finmap.lookup_erase]
  · rw [if_neg h, Finmap.lookup_erase_ne h]

theorem keys_nonempty_of_lookup {m : Finmap fun _ : κ => β} {k : κ} {b : β}
    (h : m.lookup k = some b) : m.keys.Nonempty :=
  ⟨k, Finmap.mem_keys.mpr (Finmap.mem_of_lookup_eq_some h)⟩

end Finmap

namespace NestedMap

variable {κ ι β : Type} [DecidableEq κ] [DecidableEq ι]
  (m : Finmap fun _ : κ => Finmap fun _ : ι => β) (k k' : κ) (i i' : ι)

/-- The entry of a row. -/
def lookup : Option β := (m.lookup k).bind fun row => row.lookup i

/-- Set an entry, in a new row if need be. -/
def insert (b : β) : Finmap fun _ : κ => Finmap fun _ : ι => β :=
  m.insert k (((m.lookup k).getD ∅).insert i b)

/-- Remove an entry, and its row if that was the last. -/
def erase : Finmap fun _ : κ => Finmap fun _ : ι => β :=
  match m.lookup k with
  | none => m
  | some row =>
    if (row.erase i).keys = ∅ then m.erase k else m.insert k (row.erase i)

theorem lookup_insert (b : β) :
    lookup (insert m k i b) k' i' = if k' = k ∧ i' = i then some b else lookup m k' i' := by
  unfold lookup insert
  rw [Finmap.lookup_insert_eq_ite]
  by_cases hk : k' = k
  · subst hk
    rw [if_pos rfl, Option.bind_some, Finmap.lookup_insert_eq_ite]
    cases m.lookup k' <;> simp
  · simp [hk]

theorem lookup_erase :
    lookup (erase m k i) k' i' = if k' = k ∧ i' = i then none else lookup m k' i' := by
  unfold lookup erase
  cases hrow : m.lookup k with
  | none =>
    by_cases hk : k' = k
    · subst hk
      rw [hrow]
      simp
    · simp [hk]
  | some row =>
    dsimp only
    by_cases hk : k' = k
    · subst hk
      rw [hrow, Option.bind_some]
      have herase := Finmap.lookup_erase_eq_ite row i i'
      split
      · -- nothing is left in the row
        next hempty =>
        have hnone : (row.erase i).lookup i' = none := by
          rw [Finmap.lookup_eq_none, ← Finmap.mem_keys, hempty]
          exact Finset.notMem_empty i'
        rw [hnone] at herase
        rw [Finmap.lookup_erase, Option.bind_none]
        simpa using herase
      · rw [Finmap.lookup_insert, Option.bind_some, herase]
        simp
    · split
      · rw [Finmap.lookup_erase_ne hk]
        simp [hk]
      · rw [Finmap.lookup_insert_of_ne _ hk]
        simp [hk]

/-- Every row has an entry. -/
def NoEmptyRow : Prop := ∀ k row, m.lookup k = some row → row.keys.Nonempty

variable {m}

theorem NoEmptyRow.insert (h : NoEmptyRow m) (b : β) : NoEmptyRow (insert m k i b) := by
  intro k' row hrow
  rw [NestedMap.insert, Finmap.lookup_insert_eq_ite] at hrow
  split at hrow
  · cases hrow
    exact Finmap.keys_nonempty_of_lookup (Finmap.lookup_insert _)
  · exact h k' row hrow

theorem NoEmptyRow.erase (h : NoEmptyRow m) : NoEmptyRow (erase m k i) := by
  intro k' row' hrow'
  unfold NestedMap.erase at hrow'
  split at hrow'
  · exact h k' row' hrow'
  · split at hrow'
    · rw [Finmap.lookup_erase_eq_ite] at hrow'
      split at hrow'
      · exact nomatch hrow'
      · exact h k' row' hrow'
    · next hne =>
      rw [Finmap.lookup_insert_eq_ite] at hrow'
      split at hrow'
      · cases hrow'
        exact Finset.nonempty_iff_ne_empty.mpr hne
      · exact h k' row' hrow'

end NestedMap
