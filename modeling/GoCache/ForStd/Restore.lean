import GoCache.ForStd.Recency

/-!
# Restoring a dump over older entries

A dump of a list of entries is stored again, one entry after the other, over an
older list of the same capacity. Keys that only the older list holds stay in it
unless there is no room left for them.

## Key results

- `restore_iff`: when the result holds the dumped entries and nothing else
-/

namespace Recency

variable {K P : Type*} [DecidableEq K] {cap : Nat} {es cs rs : List (K × P)}

/-- Two lists with distinct keys hold the same entries if the first is part of
    the second and not shorter. -/
private theorem find?_eq_of_subset (hes : (keys es).Nodup) (hcs : (keys cs).Nodup)
    (hsub : es ⊆ cs) (hlen : cs.length ≤ es.length) (k : K) : find? k es = find? k cs := by
  have hperm : es.Perm cs :=
    (List.subperm_of_subset hes.of_map hsub).perm_of_length_le hlen
  cases hk : find? k es with
  | none =>
    rw [find?_eq_none_iff] at hk
    exact (find?_eq_none_iff.mpr fun hmem => hk ((hperm.map Prod.fst).mem_iff.mpr hmem)).symm
  | some p => exact ((find?_eq_some_iff hcs).mpr (hsub ((find?_eq_some_iff hes).mp hk))).symm

private theorem mem_keys_outside {ks : List K} {k : K} :
    k ∈ keys (outside ks es) ↔ k ∈ keys es ∧ k ∉ ks := by
  constructor
  · intro h
    obtain ⟨e, he, rfl⟩ := List.mem_map.mp h
    rw [outside, List.mem_filter] at he
    exact ⟨mem_keys_of_mem he.1, by simpa using he.2⟩
  · rintro ⟨h, hk⟩
    obtain ⟨e, he, rfl⟩ := List.mem_map.mp h
    refine mem_keys_of_mem ?_
    rw [outside, List.mem_filter]
    exact ⟨he, by simpa using hk⟩

omit [DecidableEq K] in
/-- Of two keys of a list, one before the other, an initial part that holds the
    second holds the first. -/
private theorem mem_of_pair_sublist {us ts : List K} (hnd : (us ++ ts).Nodup) {e x : K}
    (hpair : [e, x].Sublist (us ++ ts)) (hx : x ∈ us) : e ∈ us := by
  obtain ⟨l₁, l₂, heq, h₁, h₂⟩ := List.sublist_append_iff.mp hpair
  have hxt : x ∉ ts := fun hmem => (List.nodup_append.mp hnd).2.2 x hx x hmem rfl
  cases l₁ with
  | nil =>
    rw [List.nil_append] at heq
    exact absurd (h₂.subset (heq ▸ by simp)) hxt
  | cons a l₁ =>
    obtain ⟨rfl, _⟩ := List.cons.inj heq
    exact h₁.subset List.mem_cons_self

/-- `rs` is a dump of `cs` that leaves out only entries `es` still holds. -/
structure Dumps (es cs rs : List (K × P)) : Prop where
  nodup : (keys rs).Nodup
  subset : rs ⊆ cs
  left_out : ∀ e ∈ cs, e.1 ∉ keys rs → e ∈ es

/-- For every key of `es` that `cs` no longer holds: the list `cs` is full, and
    the entries left out of the dump are all more recent in `es` than it. -/
def Displaced (cap : Nat) (es cs rs : List (K × P)) : Prop :=
  ∀ x ∈ keys es, x ∉ keys cs →
    cap ≤ cs.length ∧ ∀ e ∈ keys cs, e ∉ keys rs → [e, x].Sublist (keys es)

section Restore

variable (hcap : 0 < cap) (hes : (keys es).Nodup) (hcs : (keys cs).Nodup)
  (heslen : es.length ≤ cap) (hcslen : cs.length ≤ cap) (hd : Dumps es cs rs)
include hcap hes hcs heslen hcslen hd

omit hcs in
/-- The restored list: the dump, and behind it a first part of what else `es`
    holds, either all of it or up to the capacity. -/
private theorem restore_spec : ∃ us ts, putAll cap es rs = rs.reverse ++ us ∧
    outside (keys rs) es = us ++ ts ∧ rs.length + us.length ≤ cap ∧
    (ts = [] ∨ rs.length + us.length = cap) ∧ (keys (rs.reverse ++ us)).Nodup := by
  have hrlen : rs.length ≤ cs.length := by
    have hsub := List.subperm_of_subset hd.nodup.of_map hd.subset
    exact hsub.length_le
  obtain ⟨us, hput, ⟨ts, hts⟩, hle, hfull⟩ :=
    putAll_spec hcap hes heslen hd.nodup (hrlen.trans hcslen)
  refine ⟨us, ts, hput, hts.symm, hle, ?_, ?_⟩
  · cases hfull with
    | inl hall => exact Or.inl (List.append_right_eq_self.mp (hts.trans hall.symm))
    | inr hcut => exact Or.inr hcut
  · have hout : (keys (us ++ ts)).Nodup :=
      hts ▸ hes.sublist (keys_sublist List.filter_sublist)
    rw [keys_append] at hout ⊢
    refine List.nodup_append.mpr ⟨?_, (List.nodup_append.mp hout).1, ?_⟩
    · rw [keys, List.map_reverse, List.nodup_reverse]
      exact hd.nodup
    · rintro a ha b hb rfl
      rw [keys, List.map_reverse, List.mem_reverse] at ha
      have hmem : a ∈ keys (outside (keys rs) es) := by
        rw [← hts, keys_append]
        exact List.mem_append_left _ hb
      exact (mem_keys_outside.mp hmem).2 ha

omit hcs in
private theorem displaced_of_restore (h : ∀ k, find? k (putAll cap es rs) = find? k cs) :
    Displaced cap es cs rs := by
  obtain ⟨us, ts, hput, hout, hle, hfull, hnd⟩ := restore_spec hcap hes heslen hcslen hd
  rw [hput] at h
  have hmem := mem_keys_iff_of_find?_eq h
  intro x hx hxcs
  have hxrs : x ∉ keys rs := fun hmem' => hxcs (List.map_subset Prod.fst hd.subset hmem')
  have hxout : x ∈ keys (us ++ ts) := hout ▸ mem_keys_outside.mpr ⟨hx, hxrs⟩
  -- `x` is not among the keys of `cs`, so it was cut off
  have hxts : x ∈ keys ts := by
    rw [keys_append, List.mem_append] at hxout
    refine hxout.resolve_left fun hxus => hxcs ((hmem x).mp ?_)
    rw [keys_append]
    exact List.mem_append_right _ hxus
  constructor
  · -- an entry was cut off, so the restored list is full, and it has the keys of `cs`
    have hcut : rs.length + us.length = cap := by
      refine hfull.resolve_left ?_
      rintro rfl
      exact absurd hxts (by simp)
    have hsub : keys (rs.reverse ++ us) ⊆ keys cs := fun k hk => (hmem k).mp hk
    have hlen := (List.subperm_of_subset hnd hsub).length_le
    rw [length_keys, length_keys, List.length_append, List.length_reverse] at hlen
    omega
  · -- an entry left out of the dump is still there, so it is in front of `x`
    intro e he hers
    have heus : e ∈ keys us := by
      have hall := (hmem e).mpr he
      rw [keys_append, List.mem_append, keys, List.map_reverse, List.mem_reverse] at hall
      exact hall.resolve_left hers
    have hpair : [e, x].Sublist (keys us ++ keys ts) :=
      (List.singleton_sublist.mpr heus).append (List.singleton_sublist.mpr hxts)
    rw [← keys_append, ← hout] at hpair
    exact hpair.trans (keys_sublist List.filter_sublist)

private theorem restore_of_displaced (h : Displaced cap es cs rs) (k : K) :
    find? k (putAll cap es rs) = find? k cs := by
  obtain ⟨us, ts, hput, hout, hle, hfull, hnd⟩ := restore_spec hcap hes heslen hcslen hd
  have houtnd : (keys us ++ keys ts).Nodup := by
    rw [← keys_append, ← hout]
    exact hes.sublist (keys_sublist List.filter_sublist)
  -- the dumped keys, and those left out, are all the keys of `cs`
  have hcount :
      cs.length ≤ rs.length + ((keys cs).filter fun k => !decide (k ∈ keys rs)).length := by
    have hsub : keys cs ⊆ keys rs ++ (keys cs).filter fun k => !decide (k ∈ keys rs) := by
      intro k hk
      by_cases hkrs : k ∈ keys rs
      · exact List.mem_append_left _ hkrs
      · exact List.mem_append_right _ (List.mem_filter.mpr ⟨hk, by simpa using hkrs⟩)
    have hlen := (List.subperm_of_subset hcs hsub).length_le
    rwa [List.length_append, length_keys, length_keys] at hlen
  -- nothing that `cs` no longer holds survives behind the dump
  have hkeys : ∀ x ∈ keys us, x ∈ keys cs := by
    intro x hx
    by_contra hxcs
    have hxes : x ∈ keys es := by
      have hmem : x ∈ keys (outside (keys rs) es) := by
        rw [hout, keys_append]
        exact List.mem_append_left _ hx
      exact (mem_keys_outside.mp hmem).1
    obtain ⟨hcapcs, hrecent⟩ := h x hxes hxcs
    have hsub : x :: ((keys cs).filter fun k => !decide (k ∈ keys rs)) ⊆ keys us := by
      refine List.cons_subset.mpr ⟨hx, fun e he => ?_⟩
      obtain ⟨hecs, hers⟩ := List.mem_filter.mp he
      have hers : e ∉ keys rs := by simpa using hers
      have hxrs : x ∉ keys rs := fun hmem' => hxcs (List.map_subset Prod.fst hd.subset hmem')
      have hpair := (hrecent e hecs hers).filter fun k => !decide (k ∈ keys rs)
      rw [List.filter_eq_self.mpr (by simp [hers, hxrs])] at hpair
      have hfilter : (keys es).filter (fun k => !decide (k ∈ keys rs)) = keys us ++ keys ts := by
        rw [← keys_append, ← hout, keys, keys, outside, List.filter_map]
        rfl
      exact mem_of_pair_sublist houtnd (hfilter ▸ hpair) hx
    have hnodup : (x :: ((keys cs).filter fun k => !decide (k ∈ keys rs))).Nodup :=
      List.nodup_cons.mpr ⟨fun hmem => hxcs (List.mem_filter.mp hmem).1, hcs.filter _⟩
    have hlen := (List.subperm_of_subset hnodup hsub).length_le
    rw [List.length_cons, length_keys] at hlen
    omega
  have hsubset : rs.reverse ++ us ⊆ cs := by
    intro e he
    cases List.mem_append.mp he with
    | inl hmem => exact hd.subset (List.mem_reverse.mp hmem)
    | inr hmem =>
      have hers : e.1 ∉ keys rs ∧ e ∈ es := by
        have hmem' : e ∈ outside (keys rs) es := hout ▸ List.mem_append_left _ hmem
        rw [outside, List.mem_filter] at hmem'
        exact ⟨by simpa using hmem'.2, hmem'.1⟩
      obtain ⟨e', he', hkey⟩ := List.mem_map.mp (hkeys e.1 (mem_keys_of_mem hmem))
      have he'es : e' ∈ es := hd.left_out e' he' (hkey ▸ hers.1)
      have heq : e' = e := List.inj_on_of_nodup_map hes he'es hers.2 hkey
      exact heq ▸ he'
  rw [hput]
  refine find?_eq_of_subset hnd hcs hsubset ?_ k
  rw [List.length_append, List.length_reverse]
  obtain rfl | hcut := hfull
  · -- nothing was cut off: the keys left out of the dump are behind it
    have hsub : ((keys cs).filter fun k => !decide (k ∈ keys rs)) ⊆ keys us := by
      intro e he
      obtain ⟨hecs, hers⟩ := List.mem_filter.mp he
      have hers : e ∉ keys rs := by simpa using hers
      obtain ⟨e', he', rfl⟩ := List.mem_map.mp hecs
      have hmem := mem_keys_outside.mpr ⟨mem_keys_of_mem (hd.left_out e' he' hers), hers⟩
      rwa [hout, List.append_nil] at hmem
    have hlen := (List.subperm_of_subset (hcs.filter _) hsub).length_le
    rw [length_keys] at hlen
    omega
  · omega

/-- When restoring a dump over older entries gives the dumped entries again. -/
theorem restore_iff : (∀ k, find? k (putAll cap es rs) = find? k cs) ↔ Displaced cap es cs rs :=
  ⟨displaced_of_restore hcap hes heslen hcslen hd,
    restore_of_displaced hcap hes hcs heslen hcslen hd⟩

end Restore

end Recency
