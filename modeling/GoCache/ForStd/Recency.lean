import Mathlib.Data.List.Basic
import Mathlib.Data.List.Nodup
import Mathlib.Data.Finset.Card

/-!
# Recency lists

Association lists kept in order of use, most recent first, over arbitrary keys
and payloads: what a least-recently-used store of bounded capacity computes,
with no pointers in sight. `put` is the only operation that drops an entry it
was not asked to drop.

## Key results

- `find?_put_self` / `find?_put_of_length_lt`: what `put` stores and keeps
- `Sorted`: the list is in order of last use, and stays so (`Sorted.cons_sublist`)
- `Sorted.length_lt_card`: an entry dropped for a new key has seen as many
  distinct other keys used since its own last use as the list holds
- `Sorted.put_agree_iff`: when two lists that hold the same entries in different
  orders still do so after a `put`
-/

namespace Recency

variable {K P : Type*} {k k' : K} {p : P} {es fs : List (K × P)} {cap : Nat}

/-- The keys, in order. -/
def keys (es : List (K × P)) : List K := es.map Prod.fst

@[simp] theorem keys_nil : keys ([] : List (K × P)) = [] := rfl

@[simp] theorem keys_cons (e : K × P) (es : List (K × P)) : keys (e :: es) = e.1 :: keys es := rfl

@[simp] theorem keys_append (es fs : List (K × P)) : keys (es ++ fs) = keys es ++ keys fs :=
  List.map_append

@[simp] theorem length_keys (es : List (K × P)) : (keys es).length = es.length :=
  List.length_map _

theorem mem_keys_of_mem {e : K × P} (he : e ∈ es) : e.1 ∈ keys es := List.mem_map_of_mem he

theorem keys_sublist (h : es.Sublist fs) : (keys es).Sublist (keys fs) := h.map _

/-- A function that keeps keys leaves them in order. -/
theorem keys_filterMap_sublist {α : Type*} {f : α → Option (K × P)} {key : α → K}
    (h : ∀ a e, f a = some e → e.1 = key a) (as : List α) :
    (keys (as.filterMap f)).Sublist (as.map key) := by
  induction as with
  | nil => exact List.Sublist.refl _
  | cons a as ih =>
    cases ha : f a with
    | none =>
      rw [List.filterMap_cons_none ha]
      exact ih.cons _
    | some e =>
      rw [List.filterMap_cons_some ha, keys_cons, h a e ha, List.map_cons]
      exact ih.cons_cons _

/-! ## Operations -/

variable [DecidableEq K]

/-- Drop the entry of a key. -/
def erase (k : K) (es : List (K × P)) : List (K × P) := es.filter fun e => e.1 ≠ k

/-- The payload stored under a key. -/
def find? (k : K) (es : List (K × P)) : Option P := (es.find? fun e => e.1 = k).map Prod.snd

/-- Store a payload under a key, in front. At most `cap` entries remain, the
    ones used longest ago going first. -/
def put (cap : Nat) (k : K) (p : P) (es : List (K × P)) : List (K × P) :=
  (k, p) :: (erase k es).take (cap - 1)

/-- Move the entry of a key to the front. -/
def promote (k : K) (es : List (K × P)) : List (K × P) :=
  match find? k es with
  | some p => (k, p) :: erase k es
  | none => es

/-! ## Erasing -/

theorem mem_erase {e : K × P} : e ∈ erase k es ↔ e ∈ es ∧ e.1 ≠ k := by
  simp [erase]

theorem erase_sublist (k : K) (es : List (K × P)) : (erase k es).Sublist es :=
  List.filter_sublist

theorem notMem_keys_erase (k : K) (es : List (K × P)) : k ∉ keys (erase k es) := by
  intro hmem
  obtain ⟨e, he, hk⟩ := List.mem_map.mp hmem
  exact (mem_erase.mp he).2 hk

theorem erase_of_notMem (h : k ∉ keys es) : erase k es = es := by
  refine List.filter_eq_self.mpr fun e he => ?_
  exact decide_eq_true fun heq => h (heq ▸ mem_keys_of_mem he)

/-- Erasing from a split list whose keys are distinct. -/
theorem erase_append_cons (hnd : (keys (es ++ (k, p) :: fs)).Nodup) :
    erase k (es ++ (k, p) :: fs) = es ++ fs := by
  rw [keys_append, keys_cons] at hnd
  have hk : k ∉ keys es ++ keys fs := (List.nodup_cons.mp (List.nodup_middle.mp hnd)).1
  rw [List.mem_append, not_or] at hk
  have hself : erase k ((k, p) :: fs) = erase k fs := by simp [erase]
  have happ : erase k (es ++ (k, p) :: fs) = erase k es ++ erase k ((k, p) :: fs) :=
    List.filter_append ..
  rw [happ, hself, erase_of_notMem hk.1, erase_of_notMem hk.2]

/-- Erasing the last entry of a list whose keys are distinct. -/
theorem erase_concat (hnd : (keys (es ++ [(k, p)])).Nodup) : erase k (es ++ [(k, p)]) = es := by
  rw [erase_append_cons hnd, List.append_nil]

/-! ## Looking up -/

theorem find?_cons (e : K × P) (es : List (K × P)) :
    find? k (e :: es) = if e.1 = k then some e.2 else find? k es := by
  by_cases h : e.1 = k <;> simp [find?, h]

/-- With distinct keys, a lookup finds exactly the entries of the list. -/
theorem find?_eq_some_iff (hnd : (keys es).Nodup) : find? k es = some p ↔ (k, p) ∈ es := by
  induction es with
  | nil => simp [find?]
  | cons e es ih =>
    obtain ⟨hnot, hnd⟩ := List.nodup_cons.mp hnd
    rw [find?_cons]
    by_cases h : e.1 = k
    · have hes : (k, p) ∉ es := fun hmem => hnot (h ▸ mem_keys_of_mem hmem)
      subst h
      simp [hes, Prod.ext_iff, eq_comm]
    · have hne : (k, p) ≠ e := fun heq => h (heq ▸ rfl)
      simp [h, ih hnd, hne]

theorem find?_eq_none_iff : find? k es = none ↔ k ∉ keys es := by
  induction es with
  | nil => simp [find?]
  | cons e es ih =>
    rw [find?_cons]
    by_cases h : e.1 = k
    · simp [h]
    · simp [h, ih, Ne.symm h]

theorem find?_erase_self (k : K) (es : List (K × P)) : find? k (erase k es) = none :=
  find?_eq_none_iff.mpr (notMem_keys_erase k es)

theorem find?_erase_of_ne (h : k' ≠ k) : find? k' (erase k es) = find? k' es := by
  induction es with
  | nil => rfl
  | cons e es ih =>
    by_cases he : e.1 = k
    · have hne : e.1 ≠ k' := fun heq => h (heq ▸ he)
      have hcons : erase k (e :: es) = erase k es := by simp [erase, he]
      rw [hcons, ih, find?_cons, if_neg hne]
    · have hcons : erase k (e :: es) = e :: erase k es := by simp [erase, he]
      rw [hcons, find?_cons, find?_cons, ih]

@[simp] theorem find?_put_self (cap : Nat) (k : K) (p : P) (es : List (K × P)) :
    find? k (put cap k p es) = some p := by
  rw [put, find?_cons, if_pos rfl]

/-- `put` keeps every other entry as long as there is room. -/
theorem find?_put_of_length_lt (h : k' ≠ k) (hroom : (erase k es).length < cap) :
    find? k' (put cap k p es) = find? k' es := by
  have htake : (erase k es).take (cap - 1) = erase k es := List.take_of_length_le (by omega)
  rw [put, find?_cons, if_neg (Ne.symm h), htake, find?_erase_of_ne h]

theorem find?_promote (k k' : K) (es : List (K × P)) : find? k' (promote k es) = find? k' es := by
  cases hk : find? k es with
  | none => simp only [promote, hk]
  | some p =>
    simp only [promote, hk, find?_cons]
    split
    · next heq => rw [← heq, hk]
    · next hne => exact find?_erase_of_ne (Ne.symm hne)

theorem mem_keys_iff_of_find?_eq (h : ∀ k, find? k es = find? k fs) (k : K) :
    k ∈ keys es ↔ k ∈ keys fs := by
  rw [← not_iff_not, ← find?_eq_none_iff, ← find?_eq_none_iff, h k]

/-- Dropping entries by a test on them. -/
theorem find?_filter (hnd : (keys es).Nodup) (q : K × P → Bool) :
    find? k (es.filter q) = (find? k es).filter fun p => q (k, p) := by
  have hnd' : (keys (es.filter q)).Nodup := hnd.sublist (keys_sublist List.filter_sublist)
  cases hk : find? k es with
  | none =>
    refine find?_eq_none_iff.mpr fun hmem => find?_eq_none_iff.mp hk ?_
    exact (keys_sublist List.filter_sublist).subset hmem
  | some p =>
    have hmem := (find?_eq_some_iff hnd).mp hk
    rw [Option.filter_some]
    by_cases hq : q (k, p) = true
    · rw [if_pos hq]
      exact (find?_eq_some_iff hnd').mpr (List.mem_filter.mpr ⟨hmem, hq⟩)
    · rw [if_neg hq]
      refine Option.eq_none_iff_forall_ne_some.mpr fun p' hp' => ?_
      obtain ⟨hmem', hq'⟩ := List.mem_filter.mp ((find?_eq_some_iff hnd').mp hp')
      rw [(find?_eq_some_iff hnd).mpr hmem'] at hk
      exact hq (Option.some.inj hk ▸ hq')

/-! ## Lengths -/

theorem length_erase_of_mem (hnd : (keys es).Nodup) (hk : k ∈ keys es) :
    (erase k es).length + 1 = es.length := by
  obtain ⟨⟨k₀, p⟩, hmem, rfl⟩ := List.mem_map.mp hk
  obtain ⟨xs, ys, rfl⟩ := List.append_of_mem hmem
  rw [erase_append_cons hnd]
  simp only [List.length_append, List.length_cons]
  omega

/-- A `put` either has room for every other entry, or is of a new key and drops
    the last entry of a full list. -/
theorem put_cases (hcap : 0 < cap) (hlen : es.length ≤ cap) (k : K) (p : P) :
    put cap k p es = (k, p) :: erase k es ∨
    ∃ xs e, es = xs ++ [e] ∧ k ∉ keys es ∧ xs.length + 1 = cap ∧ put cap k p es = (k, p) :: xs := by
  by_cases hroom : (erase k es).length < cap
  · left
    rw [put, List.take_of_length_le (by omega)]
  · right
    have hle := (erase_sublist k es).length_le
    -- no room although `k` is erased: `k` was not there, and the list is full
    have hsame : erase k es = es := (erase_sublist k es).eq_of_length (by omega)
    have hk : k ∉ keys es := hsame ▸ notMem_keys_erase k es
    rcases List.eq_nil_or_concat' es with rfl | ⟨xs, e, rfl⟩
    · simp only [hsame, List.length_nil] at hroom
      omega
    · have hxs : xs.length + 1 = cap := by
        rw [hsame] at hroom
        simp only [List.length_append, List.length_singleton] at hroom hlen
        omega
      refine ⟨xs, e, rfl, hk, hxs, ?_⟩
      rw [put, hsame, List.take_append_of_le_length (by omega), List.take_of_length_le (by omega)]

/-- Store a sequence of entries, one after the other. -/
def putAll (cap : Nat) (es rs : List (K × P)) : List (K × P) :=
  rs.foldl (fun es r => put cap r.1 r.2 es) es

/-- The entries of keys outside a list. -/
def outside (ks : List K) (es : List (K × P)) : List (K × P) :=
  es.filter fun e => !decide (e.1 ∈ ks)

/-- Storing at most `cap` entries with distinct keys keeps them all, and behind
    them the most recent of the other entries: all of these, or as many as there
    is room for. -/
theorem putAll_spec (hcap : 0 < cap) (hnd : (keys es).Nodup) (hlen : es.length ≤ cap)
    {rs : List (K × P)} (hrs : (keys rs).Nodup) (hrlen : rs.length ≤ cap) :
    ∃ us, putAll cap es rs = rs.reverse ++ us ∧ us <+: outside (keys rs) es ∧
      rs.length + us.length ≤ cap ∧
      (us = outside (keys rs) es ∨ rs.length + us.length = cap) := by
  induction rs using List.reverseRecOn with
  | nil =>
    have hall : outside (keys ([] : List (K × P))) es = es := by simp [outside]
    exact ⟨es, rfl, by rw [hall], by simpa using hlen, Or.inl hall.symm⟩
  | append_singleton rs r ih =>
    rw [keys_append, List.nodup_append] at hrs
    rw [List.length_append, List.length_singleton] at hrlen
    obtain ⟨us, hput, hpre, hle, hfull⟩ := ih hrs.1 (by omega)
    have hr : r.1 ∉ keys rs := fun hmem => hrs.2.2 _ hmem _ (by simp [keys]) rfl
    have hus : (keys us).Nodup :=
      hnd.sublist (keys_sublist (hpre.sublist.trans List.filter_sublist))
    -- storing the next key takes it out of what was kept behind
    have hstep : putAll cap es (rs ++ [r]) =
        (rs ++ [r]).reverse ++ (erase r.1 us).take (cap - 1 - rs.length) := by
      have hrev : erase r.1 rs.reverse = rs.reverse := by
        apply erase_of_notMem
        rw [keys, List.map_reverse, List.mem_reverse]
        exact hr
      rw [putAll, List.foldl_append, List.foldl_cons, List.foldl_nil]
      show put cap r.1 r.2 (putAll cap es rs) = _
      rw [hput, put, erase, List.filter_append]
      show (r.1, r.2) :: (erase r.1 rs.reverse ++ erase r.1 us).take (cap - 1) = _
      rw [hrev, List.take_append, List.take_of_length_le (by rw [List.length_reverse]; omega)]
      simp
    have hout : erase r.1 (outside (keys rs) es) = outside (keys (rs ++ [r])) es := by
      rw [erase, outside, outside, List.filter_filter]
      refine List.filter_congr fun e _ => ?_
      rw [Bool.eq_iff_iff]
      simp [and_comm]
    have hpre' : erase r.1 us <+: outside (keys (rs ++ [r])) es := hout ▸ hpre.filter _
    refine ⟨_, hstep, (List.take_prefix _ _).trans hpre', ?_, ?_⟩
    · rw [List.length_append, List.length_singleton, List.length_take]
      omega
    · rw [List.length_append, List.length_singleton, List.length_take]
      by_cases hroom : (erase r.1 us).length < cap - 1 - rs.length
      · left
        rw [List.take_of_length_le (by omega), ← hout]
        cases hfull with
        | inl hall => rw [hall]
        | inr hcut =>
          by_cases hmem : r.1 ∈ keys us
          · have := length_erase_of_mem hus hmem
            omega
          · rw [erase_of_notMem hmem] at hroom
            omega
      · right
        omega

/-! ## Changing payloads -/

/-- Apply a function to every payload. -/
def mapPayload {Q : Type*} (f : P → Q) (es : List (K × P)) : List (K × Q) :=
  es.map fun e => (e.1, f e.2)

section MapPayload

variable {Q : Type*} (f : P → Q)

omit [DecidableEq K] in
@[simp] theorem keys_mapPayload (es : List (K × P)) : keys (mapPayload f es) = keys es := by
  simp [keys, mapPayload]

omit [DecidableEq K] in
@[simp] theorem length_mapPayload (es : List (K × P)) : (mapPayload f es).length = es.length :=
  List.length_map _

theorem erase_mapPayload (k : K) (es : List (K × P)) :
    erase k (mapPayload f es) = mapPayload f (erase k es) := by
  simp only [erase, mapPayload, List.filter_map]
  rfl

theorem find?_mapPayload (k : K) (es : List (K × P)) :
    find? k (mapPayload f es) = (find? k es).map f := by
  induction es with
  | nil => rfl
  | cons e es ih =>
    have hcons : mapPayload f (e :: es) = (e.1, f e.2) :: mapPayload f es := rfl
    rw [hcons, find?_cons, find?_cons, ih]
    split <;> rfl

theorem put_mapPayload (cap : Nat) (k : K) (p : P) (es : List (K × P)) :
    put cap k (f p) (mapPayload f es) = mapPayload f (put cap k p es) := by
  rw [put, erase_mapPayload]
  simp only [put, mapPayload, List.map_cons, List.map_take]

theorem promote_mapPayload (k : K) (es : List (K × P)) :
    promote k (mapPayload f es) = mapPayload f (promote k es) := by
  cases hk : find? k es with
  | none => simp only [promote, find?_mapPayload, hk, Option.map_none]
  | some p =>
    simp only [promote, find?_mapPayload, hk, Option.map_some, erase_mapPayload]
    rfl

end MapPayload

/-! ## Order of use

`rs` is the sequence of uses, most recent first, so a key used more recently
has the smaller index in it. -/

/-- The list is in order of last use. -/
structure Sorted (rs : List K) (es : List (K × P)) : Prop where
  pairwise : es.Pairwise fun e f => rs.idxOf e.1 < rs.idxOf f.1
  used : ∀ e ∈ es, e.1 ∈ rs

variable {rs : List K}

theorem sorted_nil (rs : List K) : Sorted rs ([] : List (K × P)) :=
  ⟨List.Pairwise.nil, fun _ he => nomatch he⟩

theorem Sorted.sublist (hs : Sorted rs es) (h : fs.Sublist es) : Sorted rs fs :=
  ⟨hs.pairwise.sublist h, fun e he => hs.used e (h.subset he)⟩

/-- Using a key now puts it in front of whatever else is kept. -/
theorem Sorted.cons_sublist (hs : Sorted rs es) (h : fs.Sublist (erase k es)) (p : P) :
    Sorted (k :: rs) ((k, p) :: fs) := by
  have hfs : ∀ e ∈ fs, e.1 ≠ k := fun e he => (mem_erase.mp (h.subset he)).2
  have hsorted := hs.sublist (h.trans (erase_sublist k es))
  have hidx : ∀ e ∈ fs, (k :: rs).idxOf e.1 = rs.idxOf e.1 + 1 :=
    fun e he => List.idxOf_cons_ne _ (Ne.symm (hfs e he))
  refine ⟨List.pairwise_cons.mpr ⟨fun e he => ?_, ?_⟩, ?_⟩
  · rw [hidx e he, List.idxOf_cons_self]
    omega
  · refine hsorted.pairwise.imp_of_mem fun {e f} he hf hlt => ?_
    rw [hidx e he, hidx f hf]
    omega
  · intro e he
    cases List.mem_cons.mp he with
    | inl heq => rw [heq]; exact List.mem_cons_self
    | inr hmem => exact List.mem_cons_of_mem _ (hsorted.used e hmem)

/-- The keys used since the last use of `k`. -/
def touchedSince (rs : List K) (k : K) : Finset K := (rs.takeWhile fun r => r ≠ k).toFinset

theorem touchedSince_cons_of_ne (h : k' ≠ k) :
    touchedSince (k' :: rs) k = insert k' (touchedSince rs k) := by
  simp [touchedSince, h]

theorem mem_touchedSince_of_idxOf_lt (h : rs.idxOf k' < rs.idxOf k) : k' ∈ touchedSince rs k := by
  induction rs with
  | nil => simp at h
  | cons r rs ih =>
    have hk : r ≠ k := by
      intro heq
      subst heq
      simp at h
    rw [touchedSince_cons_of_ne hk, Finset.mem_insert]
    by_cases hk' : r = k'
    · exact Or.inl hk'.symm
    · rw [List.idxOf_cons_ne _ hk, List.idxOf_cons_ne _ hk'] at h
      exact Or.inr (ih (by omega))

/-- When the last entry is `k`'s, using a key the list does not hold makes the
    keys used since `k` at least as many as the list has entries. -/
theorem Sorted.length_lt_card (hs : Sorted rs (es ++ [(k, p)])) (hnd : (keys es).Nodup)
    (hk' : k' ∉ keys es) : es.length < (insert k' (touchedSince rs k)).card := by
  have hlt := (List.pairwise_append.mp hs.pairwise).2.2
  have hsub : insert k' (keys es).toFinset ⊆ insert k' (touchedSince rs k) := by
    refine Finset.insert_subset_insert k' fun r hr => ?_
    obtain ⟨e, he, rfl⟩ := List.mem_map.mp (List.mem_toFinset.mp hr)
    exact mem_touchedSince_of_idxOf_lt (hlt e he _ List.mem_cons_self)
  have hcard := Finset.card_le_card hsub
  have hnot : k' ∉ (keys es).toFinset := fun hmem => hk' (List.mem_toFinset.mp hmem)
  rw [Finset.card_insert_of_notMem hnot, List.toFinset_card_of_nodup hnd, length_keys] at hcard
  omega

/-- A `put` of another key keeps the entry of `k`, or drops it after at least
    `cap` other keys have been used since `k`. -/
theorem Sorted.find?_put (hs : Sorted rs es) (hnd : (keys es).Nodup) (hcap : 0 < cap)
    (hlen : es.length ≤ cap) (h : k' ≠ k) (p : P) :
    find? k (put cap k' p es) = find? k es ∨
    k ∉ keys (put cap k' p es) ∧ cap ≤ (insert k' (touchedSince rs k)).card := by
  obtain hput | ⟨xs, ⟨k₁, p₁⟩, rfl, hk', hxs, hput⟩ := put_cases hcap hlen k' p
  · left
    rw [hput, find?_cons, if_neg h, find?_erase_of_ne (Ne.symm h)]
  · by_cases hk : k₁ = k
    · -- the dropped entry is `k`'s: everything in front of it was used since
      subst hk
      right
      rw [keys_append, List.nodup_append] at hnd
      rw [keys_append, List.mem_append, not_or] at hk'
      have hcard := hs.length_lt_card hnd.1 hk'.1
      refine ⟨?_, by omega⟩
      rw [hput, keys_cons, List.mem_cons, not_or]
      exact ⟨Ne.symm h, fun hmem => hnd.2.2 _ hmem _ List.mem_cons_self rfl⟩
    · left
      rw [hput, find?_cons, if_neg h]
      conv_lhs => rw [← erase_concat hnd]
      rw [find?_erase_of_ne (Ne.symm hk)]

/-- The key a `put` drops is the one used longest ago. -/
theorem Sorted.idxOf_lt_of_notMem_put (hs : Sorted rs es) (hcap : 0 < cap)
    (hlen : es.length ≤ cap) (hk : k ∈ keys es) (hdrop : k ∉ keys (put cap k' p es))
    {r : K} (hr : r ∈ keys es) (hne : r ≠ k) : rs.idxOf r < rs.idxOf k := by
  obtain hput | ⟨xs, ⟨k₁, p₁⟩, rfl, hk', hxs, hput⟩ := put_cases hcap hlen k' p
  · -- nothing but the old entry of the stored key can be gone
    rw [hput, keys_cons, List.mem_cons, not_or] at hdrop
    obtain ⟨e, he, rfl⟩ := List.mem_map.mp hk
    exact absurd (mem_keys_of_mem (mem_erase.mpr ⟨he, hdrop.1⟩)) hdrop.2
  · rw [hput, keys_cons, List.mem_cons, not_or] at hdrop
    rw [keys_append, List.mem_append] at hk hr
    have hlast : k = k₁ := by
      cases hk with
      | inl hmem => exact absurd hmem hdrop.2
      | inr hmem => simpa [keys] using hmem
    have hr : r ∈ keys xs := by
      cases hr with
      | inl hmem => exact hmem
      | inr hmem => exact absurd (by simpa [keys] using hmem) (hlast ▸ hne)
    obtain ⟨e, he, rfl⟩ := List.mem_map.mp hr
    rw [hlast]
    exact (List.pairwise_append.mp hs.pairwise).2.2 e he (k₁, p₁) List.mem_cons_self

/-! ## Two orders of the same entries -/

omit [DecidableEq K] in
/-- The key used longest ago. -/
def oldest? (es : List (K × P)) : Option K := (keys es).getLast?

omit [DecidableEq K] in
@[simp] theorem oldest?_concat (es : List (K × P)) (e : K × P) :
    oldest? (es ++ [e]) = some e.1 := by
  simp [oldest?, keys]

/-- Lists that hold the same entries are as long. -/
theorem length_eq_of_find?_eq (hes : (keys es).Nodup) (hfs : (keys fs).Nodup)
    (h : ∀ k, find? k es = find? k fs) : es.length = fs.length := by
  have hperm : (keys es).Perm (keys fs) :=
    (List.perm_ext_iff_of_nodup hes hfs).mpr (mem_keys_iff_of_find?_eq h)
  rw [← length_keys es, hperm.length_eq, length_keys]

theorem Sorted.oldest?_eq_some_iff (hs : Sorted rs es) (hk : k ∈ keys es) :
    oldest? es = some k ↔ ∀ k' ∈ keys es, k' ≠ k → rs.idxOf k' < rs.idxOf k := by
  rcases List.eq_nil_or_concat' es with rfl | ⟨xs, e, rfl⟩
  · cases hk
  rw [oldest?_concat, Option.some.injEq]
  -- the last entry comes behind all others in the order of use
  have hlast : ∀ x ∈ xs, rs.idxOf x.1 < rs.idxOf e.1 := fun x hx =>
    (List.pairwise_append.mp hs.pairwise).2.2 x hx e List.mem_cons_self
  have hmem : ∀ {r}, r ∈ keys (xs ++ [e]) → r ∈ keys xs ∨ r = e.1 := by
    intro r hr
    rw [keys_append, List.mem_append] at hr
    exact hr.imp id List.mem_singleton.mp
  constructor
  · rintro rfl k' hk' hne
    obtain ⟨x, hx, rfl⟩ := List.mem_map.mp ((hmem hk').resolve_right hne)
    exact hlast x hx
  · intro hall
    by_contra hne
    obtain ⟨x, hx, rfl⟩ := List.mem_map.mp ((hmem hk).resolve_right (Ne.symm hne))
    have hlt := hall e.1 (by simp [keys]) hne
    have := hlast x hx
    omega

/-- A `put` of a new key into a full list drops the oldest entry. -/
theorem find?_put_of_full (hnd : (keys es).Nodup) (hlen : es.length = cap) (hk : k ∉ keys es)
    {x : K} (hx : oldest? es = some x) (h : k' ≠ k) (p : P) :
    find? k' (put cap k p es) = if k' = x then none else find? k' es := by
  rcases List.eq_nil_or_concat' es with rfl | ⟨xs, ⟨y, py⟩, rfl⟩
  · cases hx
  rw [oldest?_concat, Option.some.injEq] at hx
  subst hx
  have hkept : put cap k p (xs ++ [(y, py)]) = (k, p) :: xs := by
    rw [List.length_append, List.length_singleton] at hlen
    rw [put, erase_of_notMem hk, List.take_append_of_le_length (by omega),
      List.take_of_length_le (by omega)]
  have hxs : xs = erase y (xs ++ [(y, py)]) := (erase_concat hnd).symm
  rw [hkept, find?_cons, if_neg (Ne.symm h), hxs]
  split
  · next heq => rw [heq, find?_erase_self]
  · next hne => rw [find?_erase_of_ne hne, ← hxs]

omit [DecidableEq K] in
theorem exists_oldest? (h : 0 < es.length) : ∃ x ∈ keys es, oldest? es = some x := by
  rcases List.eq_nil_or_concat' es with rfl | ⟨xs, e, rfl⟩
  · exact absurd h (Nat.lt_irrefl 0)
  · exact ⟨e.1, by simp [keys], oldest?_concat xs e⟩

/-- A `put` of the same entry keeps two lists alike if it has room in them, or drops
    the same key of both. -/
theorem put_agree_iff (hcap : 0 < cap) (hes : (keys es).Nodup) (hfs : (keys fs).Nodup)
    (hlen : es.length ≤ cap) (hsame : ∀ k, find? k es = find? k fs) (k : K) (p : P) :
    (∀ k', find? k' (put cap k p es) = find? k' (put cap k p fs)) ↔
      (k ∉ keys es → es.length = cap → oldest? es = oldest? fs) := by
  have hlen' := length_eq_of_find?_eq hes hfs hsame
  have hmem := mem_keys_iff_of_find?_eq hsame
  by_cases hfull : k ∉ keys es ∧ es.length = cap
  · obtain ⟨hk, hfull⟩ := hfull
    have hk' : k ∉ keys fs := fun h => hk ((hmem k).mpr h)
    -- the lists are full, so there is an oldest entry of each
    obtain ⟨x, hxmem, hx⟩ := exists_oldest? (show 0 < es.length by omega)
    obtain ⟨y, _, hy⟩ := exists_oldest? (show 0 < fs.length by omega)
    rw [hx, hy, Option.some.injEq]
    constructor
    · intro h _ _
      -- the key that the first list drops is in neither afterwards
      have hxk : x ≠ k := fun heq => hk (heq ▸ hxmem)
      have hdrop := h x
      rw [find?_put_of_full hes hfull hk hx hxk, if_pos rfl,
        find?_put_of_full hfs (hlen' ▸ hfull) hk' hy hxk] at hdrop
      by_contra hne
      rw [if_neg hne] at hdrop
      exact find?_eq_none_iff.mp hdrop.symm ((hmem x).mp hxmem)
    · intro h k'
      have hxy : x = y := h hk hfull
      by_cases hkk : k' = k
      · rw [hkk, find?_put_self, find?_put_self]
      · rw [find?_put_of_full hes hfull hk hx hkk,
          find?_put_of_full hfs (hlen' ▸ hfull) hk' hy hkk, hxy, hsame]
  · have hroom : ∀ {gs : List (K × P)}, (keys gs).Nodup → gs.length = es.length →
        (k ∈ keys es → k ∈ keys gs) → (erase k gs).length < cap := by
      intro gs hgs hgslen hgsmem
      by_cases hk : k ∈ keys es
      · have := length_erase_of_mem hgs (hgsmem hk)
        omega
      · have := (erase_sublist k gs).length_le
        have : es.length ≠ cap := fun heq => hfull ⟨hk, heq⟩
        omega
    refine ⟨fun _ hk heq => absurd ⟨hk, heq⟩ hfull, fun _ k' => ?_⟩
    by_cases hkk : k' = k
    · rw [hkk, find?_put_self, find?_put_self]
    · rw [find?_put_of_length_lt hkk (hroom hes rfl id),
        find?_put_of_length_lt hkk (hroom hfs hlen'.symm (hmem k).mp), hsame]

/-- The same, for a second list in order of use: the first drops the key that comes
    last in this order. -/
theorem Sorted.put_agree_iff (hs : Sorted rs fs) (hcap : 0 < cap) (hes : (keys es).Nodup)
    (hfs : (keys fs).Nodup) (hlen : es.length ≤ cap) (hsame : ∀ k, find? k es = find? k fs)
    (k : K) (p : P) :
    (∀ k', find? k' (put cap k p es) = find? k' (put cap k p fs)) ↔
      (k ∉ keys es → es.length = cap → ∀ x, oldest? es = some x →
        ∀ k' ∈ keys es, k' ≠ x → rs.idxOf k' < rs.idxOf x) := by
  rw [Recency.put_agree_iff hcap hes hfs hlen hsame]
  refine forall₂_congr fun _ hfull => ?_
  have hmem := mem_keys_iff_of_find?_eq hsame
  obtain ⟨x, hxmem, hx⟩ := exists_oldest? (show 0 < es.length by omega)
  have hiff := hs.oldest?_eq_some_iff ((hmem x).mp hxmem)
  simp only [← hmem] at hiff
  rw [hx, eq_comm, hiff]
  constructor
  · rintro h _ ⟨⟩
    exact h
  · intro h
    exact h x rfl

end Recency
