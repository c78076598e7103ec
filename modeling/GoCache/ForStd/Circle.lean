import GoCache.ForStd.BinarySearch
import Mathlib.Data.List.Rotate
import Mathlib.Data.Set.Insert
import Mathlib.Order.Basic

/-!
# Positions on a circle

A linear order closed to a circle, with a set of positions on it. A walk that
begins at some point meets the positions behind that point in ascending order,
and then, from the least one on, the others. `First` is the position it meets
first. Where the walk begins is given by a predicate `after`, which is true from
some point on: `(h ≤ ·)` for a walk from `h` on, `(h < ·)` for one from behind `h`.

## Key results

- `First.unique`, `First.of_subset`, `exists_first_union_iff`, `First.next`: how
  the first position depends on the set
- `inArc_iff`: the arc between a position and the one before it
- `first_getElem`, `prev_getElem`: both by binary search in a sorted list
- `countP_arcs`: the arcs of a sorted list divide the circle
-/

namespace Circle

open BinarySearch

variable {α : Type} [LinearOrder α]

/-- The walk meets `p` no later than `q`. -/
def Ahead (after : α → Prop) (p q : α) : Prop :=
  (after p ∧ ¬ after q) ∨ ((after p ↔ after q) ∧ p ≤ q)

/-- `p` is the position of `s` that the walk meets first. -/
structure First (after : α → Prop) (s : Set α) (p : α) : Prop where
  mem : p ∈ s
  ahead : ∀ q ∈ s, Ahead after p q

section First

variable {after : α → Prop} {s t : Set α} {h p q : α}

theorem ahead_antisymm (hpq : Ahead after p q) (hqp : Ahead after q p) : p = q := by
  rcases hpq with ⟨hp, hq⟩ | ⟨hiff, hle⟩
  · rcases hqp with ⟨hq', _⟩ | ⟨hiff, _⟩
    · exact absurd hq' hq
    · exact absurd (hiff.mpr hp) hq
  · rcases hqp with ⟨hq, hp⟩ | ⟨_, hle'⟩
    · exact absurd (hiff.mpr hq) hp
    · exact le_antisymm hle hle'

theorem First.unique (hp : First after s p) (hq : First after s q) : p = q :=
  ahead_antisymm (hp.ahead q hq.mem) (hq.ahead p hp.mem)

/-- The first position from `h` on is the least one that is not below `h`, or the
    least of all if every position is below `h`. -/
theorem first_le_iff : First (h ≤ ·) s p ↔
    p ∈ s ∧ ((h ≤ p ∧ ∀ q ∈ s, h ≤ q → p ≤ q) ∨ ((∀ q ∈ s, q < h) ∧ ∀ q ∈ s, p ≤ q)) := by
  constructor
  · intro hp
    refine ⟨hp.mem, ?_⟩
    by_cases hle : h ≤ p
    · refine .inl ⟨hle, fun q hq hhq => ?_⟩
      rcases hp.ahead q hq with ⟨_, hnot⟩ | ⟨_, hpq⟩
      · exact absurd hhq hnot
      · exact hpq
    · have hiff : ∀ q ∈ s, ¬ h ≤ q ∧ p ≤ q := by
        intro q hq
        rcases hp.ahead q hq with ⟨hhp, _⟩ | ⟨hiff, hpq⟩
        · exact absurd hhp hle
        · exact ⟨fun hhq => hle (hiff.mpr hhq), hpq⟩
      exact .inr ⟨fun q hq => not_le.mp (hiff q hq).1, fun q hq => (hiff q hq).2⟩
  · rintro ⟨hmem, ⟨hle, hleast⟩ | ⟨hbelow, hleast⟩⟩
    · refine ⟨hmem, fun q hq => ?_⟩
      by_cases hhq : h ≤ q
      · exact .inr ⟨by simp only [hle, hhq], hleast q hq hhq⟩
      · exact .inl ⟨hle, hhq⟩
    · refine ⟨hmem, fun q hq => .inr ⟨?_, hleast q hq⟩⟩
      simp only [not_le.mpr (hbelow p hmem), not_le.mpr (hbelow q hq)]

/-- Positions that are not met first can go. -/
theorem First.of_subset (hp : First after t p) (hst : s ⊆ t) (hmem : p ∈ s) : First after s p :=
  ⟨hmem, fun q hq => hp.ahead q (hst hq)⟩

/-- Among positions added to a set, one is met first of all if and only if one
    would be met first if it were added alone. -/
theorem exists_first_union_iff (hp : First after (s ∪ t) p) :
    (∃ v ∈ t, First after (insert v s) v) ↔ p ∈ t := by
  constructor
  · rintro ⟨v, hv, hfirst⟩
    rcases hp.mem with hmem | hmem
    · -- `p` and `v` are each met before the other
      have hpv := hp.ahead v (.inr hv)
      have hvp := hfirst.ahead p (Set.mem_insert_of_mem v hmem)
      exact ahead_antisymm hpv hvp ▸ hv
    · exact hmem
  · intro hmem
    refine ⟨p, hmem, hp.of_subset ?_ (Set.mem_insert p s)⟩
    rintro q (rfl | hq)
    · exact .inr hmem
    · exact .inl hq

/-- Behind the first position comes the one that a walk from there meets first. -/
theorem First.next {q' : α} (hq : First (h < ·) s q) (hq' : First (q < ·) s q') (hne : q' ≠ q) :
    First (h < ·) (s \ {q}) q' where
  mem := ⟨hq'.mem, hne⟩
  ahead x hx := by
    obtain ⟨hxs, hxq⟩ := hx
    have hxq : x ≠ q := hxq
    rcases hq.ahead x hxs with ⟨hhq, hhx⟩ | ⟨hiff, hle⟩
    · -- the walk meets `x` only after it has passed the end
      by_cases hhq' : h < q'
      · exact .inl ⟨hhq', hhx⟩
      · have hqq' : ¬ q < q' := fun hlt => hhq' (hhq.trans hlt)
        rcases hq'.ahead x hxs with ⟨hlt, _⟩ | ⟨_, hle'⟩
        · exact absurd hlt hqq'
        · exact .inr ⟨by simp only [hhq', hhx], hle'⟩
    · have hqx : q < x := lt_of_le_of_ne hle (Ne.symm hxq)
      rcases hq'.ahead x hxs with ⟨_, hnot⟩ | ⟨hiff', hle'⟩
      · exact absurd hqx hnot
      · have hqq' : q < q' := hiff'.mpr hqx
        right
        refine ⟨⟨fun hhq' => hhq'.trans_le hle', fun hhx => ?_⟩, hle'⟩
        exact (hiff.mpr hhx).trans hqq'

/-- A walk from a position on meets that position first. -/
theorem first_self (hmem : h ∈ s) : First (h ≤ ·) s h where
  mem := hmem
  ahead q _ := by
    by_cases hq : h ≤ q
    · exact .inr ⟨by simp [hq], hq⟩
    · exact .inl ⟨le_rfl, hq⟩

/-- Where there is no position, it makes no difference whether the walk begins
    at the point or behind it. -/
theorem first_lt_iff (hmem : h ∉ s) : First (h < ·) s p ↔ First (h ≤ ·) s p := by
  have hiff : ∀ q ∈ s, (h < q ↔ h ≤ q) := by
    intro q hq
    refine ⟨le_of_lt, fun hle => lt_of_le_of_ne hle ?_⟩
    rintro rfl
    exact hmem hq
  constructor
  · intro hp
    refine ⟨hp.mem, fun q hq => ?_⟩
    simpa only [Ahead, hiff p hp.mem, hiff q hq] using hp.ahead q hq
  · intro hp
    refine ⟨hp.mem, fun q hq => ?_⟩
    simpa only [Ahead, hiff p hp.mem, hiff q hq] using hp.ahead q hq

end First

/-! ## Arcs -/

/-- `p` is the position of `s` that a walk in the other direction, from before
    `v`, meets first. -/
structure Prev (v : α) (s : Set α) (p : α) : Prop where
  mem : p ∈ s
  below : ∀ q ∈ s, q < v → p < v ∧ q ≤ p
  wrap : ∀ q ∈ s, ¬ q < v → p < v ∨ q ≤ p

theorem Prev.unique {v : α} {s : Set α} {p q : α} (hp : Prev v s p) (hq : Prev v s q) : p = q := by
  by_cases hpv : p < v
  · have hqv := hq.below p hp.mem hpv
    exact le_antisymm hqv.2 (hp.below q hq.mem hqv.1).2
  · have hqv : ¬ q < v := fun hqv => hpv (hp.below q hq.mem hqv).1
    exact le_antisymm ((hq.wrap p hp.mem hpv).resolve_left hqv)
      ((hp.wrap q hq.mem hqv).resolve_left hpv)

/-- The arc from `p`, which belongs to it, to `v`, which does not. -/
def InArc (p v h : α) : Prop := if p < v then p ≤ h ∧ h < v else p ≤ h ∨ h < v

instance (p v h : α) : Decidable (InArc p v h) := by unfold InArc; infer_instance

/-- An arc begins with its first point. -/
theorem inArc_left (p v : α) : InArc p v p := by
  unfold InArc
  split
  · next hlt => exact ⟨le_rfl, hlt⟩
  · exact .inl le_rfl

/-- The arc between a position and the one before it holds the points behind
    which that position comes first. -/
theorem inArc_iff {s : Set α} {p v h : α} (hp : Prev v s p) :
    InArc p v h ↔ First (h < ·) (insert v s) v := by
  unfold InArc
  constructor
  · intro harc
    refine ⟨Set.mem_insert v s, fun q hq => ?_⟩
    rcases hq with rfl | hq
    · exact .inr ⟨Iff.rfl, le_rfl⟩
    unfold Ahead
    by_cases hpv : p < v
    · rw [if_pos hpv] at harc
      by_cases hhq : h < q
      · -- a position between `h` and `v` would lie behind `p`
        have hvq : v ≤ q := by
          by_contra hqv
          exact absurd ((hp.below q hq (not_le.mp hqv)).2.trans harc.1) (not_le.mpr hhq)
        exact .inr ⟨by simp [harc.2, hhq], hvq⟩
      · exact .inl ⟨harc.2, hhq⟩
    · rw [if_neg hpv] at harc
      have hvq : v ≤ q := by
        by_contra hqv
        exact hpv (hp.below q hq (not_le.mp hqv)).1
      rcases harc with hph | hhv
      · have hqp : q ≤ p := (hp.wrap q hq (not_lt.mpr hvq)).resolve_left hpv
        have hhq : ¬ h < q := not_lt.mpr (hqp.trans hph)
        by_cases hhv : h < v
        · exact .inl ⟨hhv, hhq⟩
        · exact .inr ⟨by simp [hhv, hhq], hvq⟩
      · by_cases hhq : h < q
        · exact .inr ⟨by simp [hhv, hhq], hvq⟩
        · exact .inl ⟨hhv, hhq⟩
  · intro hv
    have hvp := hv.ahead p (Set.mem_insert_of_mem v hp.mem)
    by_cases hpv : p < v
    · rw [if_pos hpv]
      rcases hvp with ⟨hhv, hhp⟩ | ⟨_, hle⟩
      · exact ⟨not_lt.mp hhp, hhv⟩
      · exact absurd hle (not_le.mpr hpv)
    · rw [if_neg hpv]
      rcases hvp with ⟨hhv, _⟩ | ⟨hiff, _⟩
      · exact .inr hhv
      · by_cases hhv : h < v
        · exact .inr hhv
        · exact .inl (not_lt.mp fun hhp => hhv (hiff.mpr hhp))

/-! ## Sorted lists -/

section Lists

variable {l : List α} {after : α → Prop} {j k : Nat}

/-- In a sorted list in which `after` is true from the index `j` on, the walk
    begins at `j`, or at the front if that is the end of the list. -/
theorem first_of_threshold (hl : l.Pairwise (· ≤ ·)) (hk : k < l.length)
    (hj : ∀ i (hi : i < l.length), after l[i] ↔ j ≤ i)
    (hidx : k = j ∨ (l.length ≤ j ∧ k = 0)) : First after {x | x ∈ l} l[k] where
  mem := List.getElem_mem hk
  ahead q hq := by
    obtain ⟨i, hi, rfl⟩ := List.mem_iff_getElem.mp hq
    have hle : k ≤ i → l[k] ≤ l[i] := by
      intro hki
      rcases Nat.lt_or_eq_of_le hki with hlt | rfl
      · exact List.pairwise_iff_getElem.mp hl k i hk hi hlt
      · exact le_rfl
    unfold Ahead
    rw [hj k hk, hj i hi]
    rcases hidx with rfl | ⟨hend, rfl⟩
    · by_cases hki : k ≤ i
      · exact .inr ⟨by simp [hki], hle hki⟩
      · exact .inl ⟨Nat.le_refl k, hki⟩
    · exact .inr ⟨by omega, hle (Nat.zero_le i)⟩

/-- The first position by binary search. -/
theorem first_getElem [DecidablePred after] (hl : l.Pairwise (· ≤ ·)) (hk : k < l.length)
    (hafter : ∀ a b, a ≤ b → after a → after b)
    (hidx : k = lowerBound l (decide <| after ·) ∨
      (l.length ≤ lowerBound l (decide <| after ·) ∧ k = 0)) :
    First after {x | x ∈ l} l[k] := by
  apply first_of_threshold hl hk _ hidx
  intro i hi
  have hmono : ∀ a b, a ≤ b → decide (after a) = true → decide (after b) = true := by
    simpa using hafter
  have h := lowerBound_iff hl hmono hi
  simpa using h

/-- There is a first position unless there is none at all. -/
theorem exists_first [DecidablePred after] (hl : l.Pairwise (· ≤ ·)) (hne : 0 < l.length)
    (hafter : ∀ a b, a ≤ b → after a → after b) : ∃ p, First after {x | x ∈ l} p := by
  by_cases hlt : lowerBound l (decide <| after ·) < l.length
  · exact ⟨_, first_getElem hl hlt hafter (.inl rfl)⟩
  · exact ⟨_, first_getElem hl hne hafter (.inr ⟨by omega, rfl⟩)⟩

/-- Binary search finds a position of the list at its index. -/
theorem lowerBound_getElem (hl : l.Pairwise (· < ·)) (hj : j < l.length) :
    lowerBound l (decide <| l[j] ≤ ·) = j := by
  have hmono : ∀ a b, a ≤ b → decide (l[j] ≤ a) = true → decide (l[j] ≤ b) = true := by
    intro a b hab ha
    simp only [decide_eq_true_eq] at *
    exact ha.trans hab
  have hle : lowerBound l (decide <| l[j] ≤ ·) ≤ j := by
    rw [← lowerBound_iff (hl.imp le_of_lt) hmono hj]
    simp
  by_contra hne
  have hlt : lowerBound l (decide <| l[j] ≤ ·) < j := by omega
  have hat := (lowerBound_iff (hl.imp le_of_lt) hmono (hlt.trans hj)).mpr le_rfl
  simp only [decide_eq_true_eq] at hat
  exact absurd hat (not_le.mpr (List.pairwise_iff_getElem.mp hl _ j (hlt.trans hj) hj hlt))

/-- The first position behind one of the list is the next one in the list. -/
theorem first_lt_getElem (hl : l.Pairwise (· < ·)) (hj : j < l.length) (hk : k < l.length)
    (hidx : k = (j + 1) % l.length) : First (l[j] < ·) {x | x ∈ l} l[k] := by
  apply first_of_threshold (hl.imp le_of_lt) hk (j := j + 1)
  · intro i hi
    constructor
    · intro hlt
      by_contra hij
      rcases Nat.lt_or_eq_of_le (show i ≤ j by omega) with hij | rfl
      · exact lt_asymm hlt (List.pairwise_iff_getElem.mp hl i j hi hj hij)
      · exact lt_irrefl _ hlt
    · intro hji
      exact List.pairwise_iff_getElem.mp hl j i hj hi (by omega)
  · by_cases hlast : j + 1 < l.length
    · left
      rw [hidx, Nat.mod_eq_of_lt hlast]
    · right
      have hend : j + 1 = l.length := by omega
      rw [hidx, hend, Nat.mod_self]
      exact ⟨le_rfl, rfl⟩

/-- The position before a point, by binary search: the last one if the search
    returns the front. -/
theorem prev_getElem {v : α} (hl : l.Pairwise (· ≤ ·)) (hk : k < l.length)
    (hidx : (lowerBound l (decide <| v ≤ ·) = 0 ∧ k = l.length - 1) ∨
      k + 1 = lowerBound l (decide <| v ≤ ·)) : Prev v {x | x ∈ l} l[k] := by
  have hmono : ∀ a b, a ≤ b → decide (v ≤ a) = true → decide (v ≤ b) = true := by
    intro a b hab hva
    simp only [decide_eq_true_eq] at *
    exact hva.trans hab
  have hbound : ∀ i (hi : i < l.length), l[i] < v ↔ i < lowerBound l (decide <| v ≤ ·) := by
    intro i hi
    have h := lowerBound_iff hl hmono hi
    simp only [decide_eq_true_eq] at h
    rw [← not_le, h, not_le]
  have hle : ∀ i (hi : i < l.length), i ≤ k → l[i] ≤ l[k] := by
    intro i hi hik
    rcases Nat.lt_or_eq_of_le hik with hlt | rfl
    · exact List.pairwise_iff_getElem.mp hl i k hi hk hlt
    · exact le_rfl
  refine ⟨List.getElem_mem hk, ?_, ?_⟩
  · intro q hq hqv
    obtain ⟨i, hi, rfl⟩ := List.mem_iff_getElem.mp hq
    have hlt := (hbound i hi).mp hqv
    exact ⟨(hbound k hk).mpr (by omega), hle i hi (by omega)⟩
  · intro q hq hqv
    obtain ⟨i, hi, rfl⟩ := List.mem_iff_getElem.mp hq
    rcases hidx with ⟨hzero, hlast⟩ | hsucc
    · exact .inr (hle i hi (by omega))
    · exact .inl ((hbound k hk).mpr (by omega))

/-! ## The arcs of a list -/

/-- The pairs of a position and the next one, around the circle. -/
def arcs (l : List α) : List (α × α) := l.zip (l.rotate 1)

omit [LinearOrder α] in
theorem mem_arcs_iff {a : α × α} : a ∈ arcs l ↔
    ∃ j, ∃ (hj : j < l.length), ∃ (hk : (j + 1) % l.length < l.length),
      a = (l[j], l[(j + 1) % l.length]) := by
  unfold arcs
  rw [List.mem_iff_getElem]
  constructor
  · rintro ⟨j, hj, rfl⟩
    have hj : j < l.length := by simpa using hj
    refine ⟨j, hj, Nat.mod_lt _ (by omega), ?_⟩
    rw [List.getElem_zip, List.getElem_rotate]
  · rintro ⟨j, hj, hk, rfl⟩
    refine ⟨j, by simpa using hj, ?_⟩
    rw [List.getElem_zip, List.getElem_rotate]

/-- An arc leads to a position from the one before it. -/
theorem prev_of_mem_arcs {a : α × α} (hl : l.Pairwise (· < ·)) (ha : a ∈ arcs l) :
    Prev a.2 {x | x ∈ l} a.1 := by
  obtain ⟨j, hj, hk, rfl⟩ := mem_arcs_iff.mp ha
  have hlt : ∀ i i' (hi : i < l.length) (hi' : i' < l.length), l[i] < l[i'] ↔ i < i' := by
    intro i i' hi hi'
    refine ⟨fun h => ?_, List.pairwise_iff_getElem.mp hl i i' hi hi'⟩
    by_contra hnot
    rcases Nat.lt_or_eq_of_le (Nat.not_lt.mp hnot) with hlt | rfl
    · exact lt_asymm h (List.pairwise_iff_getElem.mp hl i' i hi' hi hlt)
    · exact lt_irrefl _ h
  have hmod : j + 1 < l.length ∧ (j + 1) % l.length = j + 1 ∨
      j + 1 = l.length ∧ (j + 1) % l.length = 0 := by
    rcases Nat.lt_or_eq_of_le hj with hlast | hlast
    · exact .inl ⟨hlast, Nat.mod_eq_of_lt hlast⟩
    · exact .inr ⟨hlast, hlast ▸ Nat.mod_self _⟩
  refine ⟨List.getElem_mem hj, fun q hq hqv => ?_, fun q hq hqv => ?_⟩
  · obtain ⟨i, hi, rfl⟩ := List.mem_iff_getElem.mp hq
    rw [hlt] at hqv
    rw [hlt, ← not_lt, hlt]
    omega
  · obtain ⟨i, hi, rfl⟩ := List.mem_iff_getElem.mp hq
    rw [hlt] at hqv
    rw [hlt, ← not_lt, hlt]
    omega

/-- Every point lies on exactly one of the arcs. -/
theorem countP_arcs (hl : l.Pairwise (· < ·)) (hne : l ≠ []) (h : α) :
    (arcs l).countP (fun a => decide (InArc a.1 a.2 h)) = 1 := by
  obtain ⟨p, hp⟩ : ∃ p, First (h < ·) {x | x ∈ l} p :=
    exists_first (hl.imp le_of_lt) (List.length_pos_iff.mpr hne) fun a b hab ha => ha.trans_le hab
  -- it is the arc that leads to the position which a walk from the point meets first
  have harc : ∀ a ∈ arcs l, (decide (InArc a.1 a.2 h) = true ↔ (a.2 == p) = true) := by
    intro a ha
    have hprev := prev_of_mem_arcs hl ha
    have hmem : a.2 ∈ {x | x ∈ l} := by
      obtain ⟨j, hj, hk, rfl⟩ := mem_arcs_iff.mp ha
      exact List.getElem_mem hk
    rw [decide_eq_true_eq, inArc_iff hprev, Set.insert_eq_of_mem hmem, beq_iff_eq]
    constructor
    · exact fun hfirst => hfirst.unique hp
    · rintro rfl
      exact hp
  have hnodup : l.Nodup := hl.imp ne_of_lt
  have hsnd : (arcs l).map Prod.snd = l.rotate 1 := by
    rw [arcs, List.map_snd_zip]
    rw [List.length_rotate]
  calc (arcs l).countP (fun a => decide (InArc a.1 a.2 h))
      = (arcs l).countP (fun a => a.2 == p) := List.countP_congr harc
    _ = ((arcs l).map Prod.snd).count p := by
        rw [List.count, List.countP_map]
        rfl
    _ = 1 := by
        rw [hsnd]
        exact List.count_eq_one_of_mem (List.nodup_rotate.mpr hnodup)
          (List.mem_rotate.mpr hp.mem)

end Lists

end Circle
