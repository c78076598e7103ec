import Mathlib.Data.List.Basic
import Mathlib.Logic.Function.Basic

/-!
# Sequences of writes to a map

A write stores a value under a key, or removes the key. What a sequence of
writes leaves under a key depends only on the writes to that key and on their
order, so two logs that agree key by key leave the same map.

The entries of a log are of any type with a key, so that two writes of the same
value to the same key can still be told apart.

## Key results

- `SameByKey.applyAll_eq`: logs that agree key by key
- `SameByKey.emit`: the oldest write to its key may overtake writes to others
- `Brings.applyAll_eq`: a log that repeats the end of what a base already holds
-/

namespace WriteLog

/-- A write: the value to store under the key, or none to remove it. -/
structure Write (K V : Type*) where
  key : K
  val : Option V

variable {K V α : Type*} [DecidableEq K]

/-- The map after a write. -/
def apply (m : K → Option V) (w : Write K V) : K → Option V := Function.update m w.key w.val

/-- The map after a sequence of writes. -/
def applyAll (m : K → Option V) (ws : List (Write K V)) : K → Option V := ws.foldl apply m

@[simp] theorem applyAll_nil (m : K → Option V) : applyAll m ([] : List (Write K V)) = m := rfl

@[simp] theorem applyAll_cons (m : K → Option V) (w : Write K V) (ws : List (Write K V)) :
    applyAll m (w :: ws) = applyAll (apply m w) ws := rfl

theorem applyAll_append (m : K → Option V) (ws us : List (Write K V)) :
    applyAll m (ws ++ us) = applyAll (applyAll m ws) us := List.foldl_append

/-- What stood under other keys does not matter. -/
theorem applyAll_congr {m₁ m₂ : K → Option V} {k : K} (hm : m₁ k = m₂ k)
    (ws : List (Write K V)) : applyAll m₁ ws k = applyAll m₂ ws k := by
  induction ws generalizing m₁ m₂ with
  | nil => exact hm
  | cons w ws ih =>
    rw [applyAll_cons, applyAll_cons]
    refine ih ?_
    by_cases hk : k = w.key
    · rw [apply, apply, hk, Function.update_self, Function.update_self]
    · rw [apply, apply, Function.update_of_ne hk, Function.update_of_ne hk, hm]

/-- Writes that leave a value under a key leave it there if it was there before. -/
theorem applyAll_stable {m₁ m₂ : K → Option V} {k : K} {ws : List (Write K V)}
    (h : applyAll m₁ ws k = m₂ k) : applyAll m₂ ws k = m₂ k := by
  induction ws generalizing m₁ with
  | nil => rfl
  | cons w ws ih =>
    rw [applyAll_cons] at h ⊢
    by_cases hk : k = w.key
    · rw [← h]
      exact applyAll_congr (by rw [apply, apply, hk, Function.update_self, Function.update_self]) ws
    · have hsame : apply m₂ w k = m₂ k := Function.update_of_ne hk _ _
      exact (applyAll_congr hsame ws).trans (ih h)

/-- Writes to one key, made twice. -/
theorem applyAll_twice {k : K} {ws : List (Write K V)} (hws : ∀ w ∈ ws, w.key = k)
    (m : K → Option V) : applyAll (applyAll m ws) ws k = applyAll m ws k := by
  rcases List.eq_nil_or_concat' ws with rfl | ⟨ws, w, rfl⟩
  · rfl
  · have hk : w.key = k := hws w (by simp)
    -- the last of the writes decides
    have hlast : ∀ m' : K → Option V, applyAll m' (ws ++ [w]) k = w.val := by
      intro m'
      rw [applyAll_append, applyAll_cons, applyAll_nil, apply, hk, Function.update_self]
    rw [hlast, hlast]

/-- Writes to other keys change nothing. -/
theorem applyAll_of_forall_ne {k : K} {ws : List (Write K V)} (h : ∀ w ∈ ws, w.key ≠ k)
    (m : K → Option V) : applyAll m ws k = m k := by
  induction ws generalizing m with
  | nil => rfl
  | cons w ws ih =>
    rw [applyAll_cons, ih fun u hu => h u (List.mem_cons_of_mem _ hu), apply,
      Function.update_of_ne (Ne.symm (h w List.mem_cons_self))]

/-- A key that is written does not depend on what was there before. -/
theorem applyAll_of_written {k : K} {ws : List (Write K V)} (h : ∃ w ∈ ws, w.key = k)
    (m₁ m₂ : K → Option V) : applyAll m₁ ws k = applyAll m₂ ws k := by
  obtain ⟨w, hw, rfl⟩ := h
  obtain ⟨pre, post, rfl⟩ := List.append_of_mem hw
  rw [applyAll_append, applyAll_append, applyAll_cons, applyAll_cons]
  apply applyAll_congr
  rw [apply, apply, Function.update_self, Function.update_self]

/-- Two maps are alike behind the same writes if these decide every key on which the
    maps differ. -/
theorem applyAll_eq_iff (m₁ m₂ : K → Option V) (ws : List (Write K V)) :
    applyAll m₁ ws = applyAll m₂ ws ↔ ∀ k, m₁ k ≠ m₂ k → ∃ w ∈ ws, w.key = k := by
  constructor
  · intro h k hne
    by_contra hnone
    have hws : ∀ w ∈ ws, w.key ≠ k := fun w hw heq => hnone ⟨w, hw, heq⟩
    have hk := congrFun h k
    rw [applyAll_of_forall_ne hws, applyAll_of_forall_ne hws] at hk
    exact hne hk
  · intro h
    funext k
    by_cases hk : m₁ k = m₂ k
    · exact applyAll_congr hk ws
    · exact applyAll_of_written (h k hk) m₁ m₂

/-- The only write to its key decides. -/
theorem applyAll_of_mem {w : Write K V} {ws : List (Write K V)}
    (hnodup : (ws.map Write.key).Nodup) (hw : w ∈ ws) (m : K → Option V) :
    applyAll m ws w.key = w.val := by
  obtain ⟨pre, post, rfl⟩ := List.append_of_mem hw
  have hpost : ∀ u ∈ post, u.key ≠ w.key := by
    intro u hu heq
    rw [List.map_append, List.map_cons] at hnodup
    have hmem : u.key ∈ post.map Write.key := List.mem_map_of_mem hu
    exact (List.nodup_cons.mp (List.nodup_append.mp hnodup).2.1).1 (heq ▸ hmem)
  rw [applyAll_append, applyAll_cons, applyAll_of_forall_ne hpost, apply, Function.update_self]

/-! ## Key by key

`write` is the write an entry of a log stands for. -/

section OnKey

variable (write : α → Write K V) (k : K)

/-- The entries of a log that concern one key. -/
def onKey (as : List α) : List α := as.filter fun a => (write a).key = k

@[simp] theorem onKey_nil : onKey write k [] = [] := rfl

@[simp] theorem onKey_append (as bs : List α) :
    onKey write k (as ++ bs) = onKey write k as ++ onKey write k bs := List.filter_append _ _

variable {write k} {a : α} {as : List α}

theorem onKey_cons_self (h : (write a).key = k) :
    onKey write k (a :: as) = a :: onKey write k as := List.filter_cons_of_pos (by simp [h])

theorem onKey_cons_of_ne (h : (write a).key ≠ k) : onKey write k (a :: as) = onKey write k as :=
  List.filter_cons_of_neg (by simp [h])

theorem onKey_eq_nil (h : ∀ a ∈ as, (write a).key ≠ k) : onKey write k as = [] :=
  List.filter_eq_nil_iff.mpr fun a ha => by simp [h a ha]

theorem key_of_mem_onKey (h : a ∈ onKey write k as) : (write a).key = k := by
  simpa using (List.mem_filter.mp h).2

/-- What stands under a key is decided by the writes to it. -/
theorem applyAll_onKey (m : K → Option V) (as : List α) :
    applyAll m ((onKey write k as).map write) k = applyAll m (as.map write) k := by
  induction as generalizing m with
  | nil => rfl
  | cons a as ih =>
    by_cases hk : (write a).key = k
    · rw [onKey_cons_self hk, List.map_cons, List.map_cons, applyAll_cons, applyAll_cons, ih]
    · rw [onKey_cons_of_ne hk, List.map_cons, applyAll_cons, ih]
      exact applyAll_congr (by rw [apply, Function.update_of_ne (Ne.symm hk)]) _

/-- The last write to a key decides. -/
theorem applyAll_of_last (h : [a] <:+ onKey write k as) (m : K → Option V) :
    applyAll m (as.map write) k = (write a).val := by
  obtain ⟨bs, hbs⟩ := h
  have hk : (write a).key = k := key_of_mem_onKey (hbs ▸ List.mem_append_right _ List.mem_cons_self)
  rw [← applyAll_onKey, ← hbs, List.map_append, applyAll_append, ← hk]
  exact Function.update_self ..

end OnKey

/-! ## Logs that agree key by key -/

section SameByKey

variable {write : α → Write K V} {as bs pre post : List α} {a : α}

/-- The two logs agree on every key. -/
def SameByKey (write : α → Write K V) (as bs : List α) : Prop :=
  ∀ k, onKey write k as = onKey write k bs

/-- Logs that agree key by key leave the same map. -/
theorem SameByKey.applyAll_eq (h : SameByKey write as bs) (m : K → Option V) :
    applyAll m (as.map write) = applyAll m (bs.map write) := by
  funext k
  rw [← applyAll_onKey m as, ← applyAll_onKey m bs, h k]

/-- New writes behind both logs. -/
theorem SameByKey.append_right (h : SameByKey write as bs) (cs : List α) :
    SameByKey write (as ++ cs) (bs ++ cs) := by
  intro k
  rw [onKey_append, onKey_append, h k]

/-- No entry of a log is on the key of `a`. -/
def NotOnKeyOf (write : α → Write K V) (a : α) (as : List α) : Prop :=
  ∀ b ∈ as, (write b).key ≠ (write a).key

/-- The first write to its key among those still to come may come at once. -/
theorem SameByKey.emit (h : SameByKey write (as ++ (pre ++ a :: post)) bs)
    (hfirst : NotOnKeyOf write a pre) : SameByKey write (as ++ [a] ++ (pre ++ post)) bs := by
  intro k
  rw [← h k]
  simp only [onKey_append, List.append_assoc]
  by_cases hk : (write a).key = k
  · have hpre : onKey write k pre = [] := onKey_eq_nil fun b hb => hk ▸ hfirst b hb
    rw [hpre, onKey_cons_self hk, onKey_cons_self hk]
    simp
  · rw [onKey_cons_of_ne hk, onKey_cons_of_ne hk]
    simp

/-- Leaving out the first write to its key leaves the last ones on every key. -/
theorem onKey_suffix_of_remove (hfirst : NotOnKeyOf write a pre) (k : K) :
    onKey write k (pre ++ post) <:+ onKey write k (pre ++ a :: post) := by
  rw [onKey_append, onKey_append]
  by_cases hk : (write a).key = k
  · have hpre : onKey write k pre = [] := onKey_eq_nil fun b hb => hk ▸ hfirst b hb
    rw [hpre, onKey_cons_self hk]
    exact List.suffix_cons _ _
  · exact (onKey_cons_of_ne hk).symm ▸ List.suffix_refl _

end SameByKey

/-! ## Logs on top of a base -/

section Brings

variable {write : α → Write K V} {t : Nat} {us as pre post : List α} {a : α}

/-- On every key, the log `as` holds all writes of `us` since the first `t`, and
    in front of them at most the last writes before. -/
structure Brings (write : α → Write K V) (t : Nat) (us as : List α) : Prop where
  le : t ≤ us.length
  since : ∀ k, onKey write k (us.drop t) <:+ onKey write k as
  suffix : ∀ k, onKey write k as <:+ onKey write k us

/-- On top of a base that holds the first `t` writes already, the log brings the
    rest: repeating the last writes of the base to a key changes nothing. -/
theorem Brings.applyAll_eq (h : Brings write t us as) (m : K → Option V) :
    applyAll (applyAll m ((us.take t).map write)) (as.map write) = applyAll m (us.map write) := by
  funext k
  obtain ⟨ts, hts⟩ := h.since k
  obtain ⟨rs, hrs⟩ := h.suffix k
  -- the writes of the base to the key, those that the log repeats last
  have hbase : onKey write k (us.take t) = rs ++ ts := by
    have hall : onKey write k us = onKey write k (us.take t) ++ onKey write k (us.drop t) := by
      rw [← onKey_append, List.take_append_drop]
    rw [← hrs, ← hts, ← List.append_assoc] at hall
    exact (List.append_cancel_right hall).symm
  have hkeys : ∀ w ∈ ts.map write, w.key = k := by
    intro w hw
    obtain ⟨a, ha, rfl⟩ := List.mem_map.mp hw
    exact key_of_mem_onKey (show a ∈ onKey write k as from hts ▸ List.mem_append_left _ ha)
  calc applyAll (applyAll m ((us.take t).map write)) (as.map write) k
      = applyAll (applyAll m ((us.take t).map write))
          ((ts ++ onKey write k (us.drop t)).map write) k := by
        rw [← applyAll_onKey, hts]
    _ = applyAll (applyAll m ((rs ++ ts).map write))
          ((ts ++ onKey write k (us.drop t)).map write) k :=
        applyAll_congr (by rw [← applyAll_onKey m (us.take t), hbase]) _
    _ = applyAll (applyAll m ((rs ++ ts).map write)) ((onKey write k (us.drop t)).map write) k := by
        simp only [List.map_append, applyAll_append]
        exact applyAll_congr (applyAll_twice hkeys _) _
    _ = applyAll m (us.map write) k := by
        rw [← applyAll_onKey m us, ← hrs, ← hts, ← List.append_assoc]
        simp only [List.map_append, applyAll_append]

/-- A key that the log does not mention is as in the base. -/
theorem Brings.applyAll_of_onKey_eq_nil (h : Brings write t us as) {k : K}
    (hk : onKey write k as = []) (m : K → Option V) :
    applyAll m (us.map write) k = applyAll m ((us.take t).map write) k := by
  rw [← h.applyAll_eq m, ← applyAll_onKey, hk]
  rfl

/-- A log of all writes, on top of nothing. -/
theorem brings_of_sameByKey (h : SameByKey write as us) : Brings write 0 us as where
  le := Nat.zero_le _
  since := fun k => (h k).symm ▸ List.suffix_refl _
  suffix := fun k => (h k).symm ▸ List.suffix_refl _

/-- A log of last writes, on top of a base that holds them all. -/
theorem brings_of_suffix (h : ∀ k, onKey write k as <:+ onKey write k us) :
    Brings write us.length us as where
  le := Nat.le_refl _
  since := fun k => by rw [List.drop_length]; exact List.nil_suffix
  suffix := h

/-- New writes behind the log. -/
theorem suffix_append_right (h : ∀ k, onKey write k as <:+ onKey write k us) (a : α) (k : K) :
    onKey write k (as ++ [a]) <:+ onKey write k (us ++ [a]) := by
  rw [onKey_append, onKey_append]
  exact List.suffix_append_self_iff.mpr (h k)

/-- A new write, made and put behind the log. -/
theorem Brings.append_right (h : Brings write t us as) (a : α) :
    Brings write t (us ++ [a]) (as ++ [a]) where
  le := by
    have hle := h.le
    rw [List.length_append]
    omega
  since := by
    rw [List.drop_append_of_le_length h.le]
    exact suffix_append_right h.since a
  suffix := suffix_append_right h.suffix a

/-- The first write to its key may be left out of the log, if it is in the base. -/
theorem Brings.remove (h : Brings write t us (pre ++ a :: post))
    (hfirst : NotOnKeyOf write a pre) (ha : a ∉ us.drop t) : Brings write t us (pre ++ post) where
  le := h.le
  since := by
    intro k
    have hsince := h.since k
    rw [onKey_append] at hsince ⊢
    by_cases hk : (write a).key = k
    · have hpre : onKey write k pre = [] := onKey_eq_nil fun b hb => hk ▸ hfirst b hb
      rw [hpre, onKey_cons_self hk, List.nil_append] at hsince
      rw [hpre, List.nil_append]
      -- `a` is the first of its key, so what is missing starts behind it or with it
      cases List.suffix_cons_iff.mp hsince with
      | inl heq =>
        have hmem : a ∈ onKey write k (us.drop t) := heq ▸ List.mem_cons_self
        exact absurd (List.mem_filter.mp hmem).1 ha
      | inr hsuffix => exact hsuffix
    · rw [onKey_cons_of_ne hk] at hsince
      exact hsince
  suffix := fun k => (onKey_suffix_of_remove hfirst k).trans (h.suffix k)

/-- The order of writes to different keys does not matter. -/
theorem Brings.congr {bs : List α} (h : Brings write t us as) (hsame : SameByKey write bs as) :
    Brings write t us bs where
  le := h.le
  since := fun k => by rw [hsame k]; exact h.since k
  suffix := fun k => by rw [hsame k]; exact h.suffix k

end Brings

end WriteLog
