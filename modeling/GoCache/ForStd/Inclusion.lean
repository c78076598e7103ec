import GoCache.ForStd.Recency

/-!
# Recency lists of two capacities

A list of the larger capacity keeps the entries of a list of the smaller one, in the
same order, whatever is done to both. Entries of its own it has no more than the
capacities differ, so that it drops an entry only when the smaller list is full too.

## Key results

- `Within.put`, `Within.promote`, `Within.filter`: each operation keeps the inclusion
- `Within.find?`: what the smaller list finds the larger finds
-/

namespace Recency

variable {K P : Type*} {k : K} {p : P} {es fs : List (K × P)} {cap extra : Nat}

/-- The first list is part of the second, which has at most `extra` entries more. -/
structure Within (extra : Nat) (es fs : List (K × P)) : Prop where
  sublist : es.Sublist fs
  length_le : fs.length ≤ es.length + extra

theorem within_nil (extra : Nat) : Within extra ([] : List (K × P)) [] :=
  ⟨List.Sublist.refl _, Nat.zero_le _⟩

/-- A filter drops from the longer list what it drops from its part. -/
private theorem length_filter_of_sublist {α : Type*} {xs ys : List α} (h : xs.Sublist ys)
    (q : α → Bool) : (ys.filter q).length + xs.length ≤ (xs.filter q).length + ys.length := by
  induction h with
  | slnil => exact Nat.le_refl _
  | cons y h ih =>
    simp only [List.filter_cons]
    split <;> simp only [List.length_cons] <;> omega
  | cons_cons y h ih =>
    simp only [List.filter_cons]
    split <;> simp only [List.length_cons] <;> omega

theorem Within.filter (h : Within extra es fs) (q : K × P → Bool) :
    Within extra (es.filter q) (fs.filter q) := by
  refine ⟨h.sublist.filter q, ?_⟩
  have hlen := length_filter_of_sublist h.sublist q
  have := h.length_le
  omega

/-- A longer beginning of the longer list has the beginning of its part. -/
private theorem take_sublist_take {α : Type*} {xs ys : List α} (h : xs.Sublist ys) {n extra : Nat}
    (hlen : ys.length ≤ xs.length + extra) : (xs.take n).Sublist (ys.take (n + extra)) := by
  induction h generalizing n extra with
  | slnil => simp
  | cons y h ih =>
    -- an entry of its own uses up one of the extra places
    obtain ⟨extra, rfl⟩ : ∃ e, extra = e + 1 := by
      have := h.length_le
      simp only [List.length_cons] at hlen
      exact ⟨extra - 1, by omega⟩
    rw [← Nat.add_assoc, List.take_succ_cons]
    apply List.Sublist.cons
    apply ih
    simp only [List.length_cons] at hlen
    omega
  | cons_cons y h ih =>
    cases n with
    | zero => simp
    | succ n =>
      rw [Nat.succ_add, List.take_succ_cons, List.take_succ_cons]
      apply List.Sublist.cons_cons
      apply ih
      simp only [List.length_cons] at hlen
      omega

section DecidableEq

variable [DecidableEq K]

theorem Within.find? (h : Within extra es fs) (hnd : (keys fs).Nodup)
    (hk : find? k es = some p) : Recency.find? k fs = some p := by
  have hnd' : (keys es).Nodup := hnd.sublist (keys_sublist h.sublist)
  exact (find?_eq_some_iff hnd).mpr (h.sublist.subset ((find?_eq_some_iff hnd').mp hk))

theorem Within.put (h : Within extra es fs) (hcap : 0 < cap) (k : K) (p : P) :
    Within extra (put cap k p es) (put (cap + extra) k p fs) := by
  have herase : Within extra (erase k es) (erase k fs) := h.filter _
  have hsum : cap + extra - 1 = cap - 1 + extra := by omega
  unfold Recency.put
  rw [hsum]
  refine ⟨(take_sublist_take herase.sublist herase.length_le).cons_cons _, ?_⟩
  have := herase.length_le
  simp only [List.length_cons, List.length_take]
  omega

/-- Moving an entry to the front of both lists, or of the longer list only if the
    other does not have it. -/
theorem Within.promote (h : Within extra es fs) (hnd : (keys fs).Nodup) (k : K) :
    Within extra (promote k es) (promote k fs) := by
  have herase : Within extra (erase k es) (erase k fs) := h.filter _
  cases hes : Recency.find? k es with
  | some p =>
    have hfs := h.find? hnd hes
    simp only [Recency.promote, hes, hfs]
    refine ⟨herase.sublist.cons_cons _, ?_⟩
    have := herase.length_le
    simp only [List.length_cons]
    omega
  | none =>
    cases hfs : Recency.find? k fs with
    | none => simpa only [Recency.promote, hes, hfs] using h
    | some p =>
      simp only [Recency.promote, hes, hfs]
      have hes' : erase k es = es := erase_of_notMem (find?_eq_none_iff.mp hes)
      have hmem : k ∈ keys fs := by
        by_contra hmem
        rw [find?_eq_none_iff.mpr hmem] at hfs
        cases hfs
      have hlen := length_erase_of_mem hnd hmem
      rw [hes'] at herase
      refine ⟨herase.sublist.cons _, ?_⟩
      have := h.length_le
      simp only [List.length_cons]
      omega

end DecidableEq

end Recency
