import GoCache.Spec.Migration

/-!
# The arcs of the ring

The positions of a ring cut it into arcs, from each position to the next one. Every hash
lies on exactly one of them, so the keys of a cache are divided among the arcs.

## Key results

- `countP_hashInRange`: the arcs a hash lies on
- `arcs_partition_keys`: the keys of a cache, arc by arc
-/

namespace GoCache.Spec

open GoCache.Native Circle

/-- Every hash lies on one arc. -/
theorem countP_hashInRange {positions : List UInt32} (hsorted : positions.Pairwise (· < ·))
    (hne : positions ≠ []) (hash : UInt32) :
    (arcs positions).countP (fun a => hashInRange hash a.1 a.2) = 1 := by
  rw [← countP_arcs hsorted hne hash]
  apply List.countP_congr
  intro a _
  rw [hashInRange_iff, decide_eq_true_eq]

/-- On a ring with one position there is one arc, all the way around. -/
example : arcs [(7 : UInt32)] = [(7, 7)] := by decide

private theorem count_flatMap_eq_countP {α β : Type} [BEq β] [LawfulBEq β] {l : List α}
    {f : α → List β} {p : α → Bool} {b : β}
    (h : ∀ a ∈ l, (f a).count b = if p a then 1 else 0) : (l.flatMap f).count b = l.countP p := by
  induction l with
  | nil => rfl
  | cons a l ih =>
    have htail := ih fun a' ha' => h a' (List.mem_cons_of_mem _ ha')
    rw [List.flatMap_cons, List.count_append, htail, h a List.mem_cons_self, List.countP_cons,
      Nat.add_comm]

/-- A key of the range is returned once, and no other key is. -/
private theorem count_getKeysInHashRange {c : Cache} {order : List GoString}
    (horder : c.Enumerates order) (start stop : UInt32) (hash : Bytes → UInt32) (k : GoString) :
    (c.getKeysInHashRange order start stop hash).count k =
      if k ∈ c.data ∧ hashInRange (hash k.bytes) start stop = true then 1 else 0 := by
  have hmem : k ∈ order ↔ k ∈ c.data := by
    rw [← List.mem_toFinset, horder.2, Finmap.mem_keys]
  have hin : k ∈ c.getKeysInHashRange order start stop hash ↔
      k ∈ c.data ∧ hashInRange (hash k.bytes) start stop = true := by
    rw [Cache.getKeysInHashRange, List.mem_filter, hmem, Bool.and_eq_true, decide_eq_true_eq,
      ← and_assoc, and_self]
  split
  · next h => exact List.count_eq_one_of_mem (horder.1.filter _) (hin.mpr h)
  · next h => exact List.count_eq_zero_of_not_mem fun hk => h (hin.mp hk)

/-- For every list of positions in ascending order: every hash lies on exactly one of the
    arcs, for the cache and for the ring, and the keys that `GetKeysInHashRange` returns for
    the arcs, in whatever order, are disjoint and together those of the cache. -/
theorem arcs_partition_keys (positions : List UInt32) (hsorted : positions.Pairwise (· < ·))
    (hne : positions ≠ []) :
    (∀ h, (arcs positions).countP (fun a => hashInRange h a.1 a.2) = 1) ∧
    (∀ (hr : HashRing) h, (arcs positions).countP (fun a => hr.hashInRange h a.1 a.2) = 1) ∧
    ∀ (c : Cache) (hash : Bytes → UInt32) (order : UInt32 × UInt32 → List GoString),
      (∀ a, c.Enumerates (order a)) →
      ((arcs positions).Pairwise fun a b =>
        (c.getKeysInHashRange (order a) a.1 a.2 hash).Disjoint
          (c.getKeysInHashRange (order b) b.1 b.2 hash)) ∧
      ∀ k, ((arcs positions).flatMap fun a =>
        c.getKeysInHashRange (order a) a.1 a.2 hash).count k = if k ∈ c.data then 1 else 0 := by
  refine ⟨countP_hashInRange hsorted hne, fun _ => countP_hashInRange hsorted hne,
    fun c hash order horder => ?_⟩
  have hcount (k : GoString) : ((arcs positions).flatMap fun a =>
      c.getKeysInHashRange (order a) a.1 a.2 hash).count k = if k ∈ c.data then 1 else 0 := by
    by_cases hk : k ∈ c.data
    · rw [if_pos hk, ← countP_hashInRange hsorted hne (hash k.bytes)]
      apply count_flatMap_eq_countP
      intro a _
      rw [count_getKeysInHashRange (horder a)]
      simp only [hk, true_and]
    · rw [if_neg hk, List.count_eq_zero, List.mem_flatMap]
      rintro ⟨a, _, ha⟩
      rw [← List.count_pos_iff, count_getKeysInHashRange (horder a)] at ha
      simp only [hk, false_and, if_false, Nat.lt_irrefl] at ha
  have hnodup : ((arcs positions).flatMap fun a =>
      c.getKeysInHashRange (order a) a.1 a.2 hash).Nodup := by
    rw [List.nodup_iff_count_le_one]
    intro k
    rw [hcount]
    split <;> omega
  exact ⟨(List.nodup_flatMap.mp hnodup).2, hcount⟩

/-- Three keys, of one, three and six bytes. -/
private def threeKeys : WfCache :=
  (((WfCache.new 10).set (lit "k") (lit "v") 0 7).set (lit "key") (lit "v") 0 7).set
    (lit "longer") (lit "v") 0 7

private def keyOrder : List GoString := [lit "longer", lit "k", lit "key"]

private def lengthHash (bytes : Bytes) : UInt32 := bytes.length.toUInt32

/-- Three positions: the hash 7 lies on the arc from 5 to 9, and 9 begins another. With the
    length for a hash, each arc has one of the keys. -/
theorem arcs_partition_keys_three :
    (arcs [(2 : UInt32), 5, 9]).filter (fun a => hashInRange 7 a.1 a.2) = [(5, 9)] ∧
    (arcs [(2 : UInt32), 5, 9]).filter (fun a => hashInRange 9 a.1 a.2) = [(9, 2)] ∧
    (arcs [(2 : UInt32), 5, 9]).countP (fun a => hashInRange 0 a.1 a.2) = 1 ∧
    (arcs [(2 : UInt32), 5, 9]).map (fun a =>
      threeKeys.cache.getKeysInHashRange keyOrder a.1 a.2 lengthHash) =
        [[lit "key"], [lit "longer"], [lit "k"]] ∧
    ∀ k, ((arcs [(2 : UInt32), 5, 9]).flatMap fun a =>
      threeKeys.cache.getKeysInHashRange keyOrder a.1 a.2 lengthHash).count k =
        if k ∈ threeKeys.cache.data then 1 else 0 := by
  have h := arcs_partition_keys [2, 5, 9] (by decide) (by decide)
  have henumerates : threeKeys.cache.Enumerates keyOrder := by decide +kernel
  exact ⟨by decide, by decide, h.1 0, by decide +kernel,
    (h.2.2 threeKeys.cache lengthHash (fun _ => keyOrder) fun _ => henumerates).2⟩

end GoCache.Spec
