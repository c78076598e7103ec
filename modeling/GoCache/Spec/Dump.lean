import GoCache.Spec.Recovery

/-!
# Writing the cache out

`rewriteAOF`, `CreateSnapshot` and `handleFollower` write a `SET` for every
entry of a snapshot of the cache, except for those that have expired. A cache
without deadlines is written out as a whole.

## Key results

- `mem_snapshot`: the snapshot of a cache, whatever the order of its keys
- `NoDeadlines.set`, `NoDeadlines.delete`: writes without a TTL add no deadline
- `applyAll_snapshot`: the writes of a snapshot, on top of a map
-/

namespace GoCache.Spec

open GoCache.Native Recency WriteLog

section Entry

variable {now : GoString → Time} {e : GoString × SnapshotEntry}

/-- What is written for an entry sets its key to its value. -/
theorem dumpEntry_eq_some {r : Record} (h : dumpEntry now e = some r) :
    ∃ ttlSeconds, r = .set e.1 e.2.value ttlSeconds := by
  unfold dumpEntry at h
  split at h
  · exact ⟨0, (Option.some.inj h).symm⟩
  · split at h
    · exact nomatch h
    · exact ⟨_, (Option.some.inj h).symm⟩

/-- Only an entry with a deadline is left out. -/
theorem deadline_of_dumpEntry_eq_none (h : dumpEntry now e = none) :
    e.2.expiresAt ≠ 0 := by
  intro hzero
  rw [dumpEntry, hzero] at h
  exact nomatch h

end Entry

section Snapshot

variable {c : WfCache} {order : List GoString}

theorem mem_snapshot (horder : c.cache.Enumerates order) {k : GoString}
    {entry : SnapshotEntry} :
    (k, entry) ∈ c.cache.snapshot order ↔ find? k c.entries = some entry := by
  rw [← c.lookup_eq, Cache.snapshot, List.mem_filterMap]
  constructor
  · rintro ⟨k', _, h⟩
    obtain ⟨item, hitem, heq⟩ := Option.map_eq_some_iff.mp h
    obtain ⟨rfl, rfl⟩ := Prod.mk.inj heq
    exact Option.map_eq_some_iff.mpr ⟨item, hitem, rfl⟩
  · intro h
    obtain ⟨item, hitem, heq⟩ := Option.map_eq_some_iff.mp h
    refine ⟨k, ?_, by rw [hitem, ← heq]; rfl⟩
    have hmem : k ∈ order.toFinset := by
      rw [horder.2]
      exact Finmap.mem_keys.mpr (Finmap.mem_of_lookup_eq_some hitem)
    exact List.mem_toFinset.mp hmem

theorem nodup_keys_snapshot (horder : c.cache.Enumerates order) :
    (keys (c.cache.snapshot order)).Nodup := by
  have hkeys : (keys (c.cache.snapshot order)).Sublist (order.map id) := by
    refine keys_filterMap_sublist (fun k e he => ?_) _
    obtain ⟨_, _, rfl⟩ := Option.map_eq_some_iff.mp he
    rfl
  rw [List.map_id] at hkeys
  exact horder.1.sublist hkeys

end Snapshot

namespace WfCache

variable {c : WfCache} {k : GoString} {e : SnapshotEntry}

/-- A `Set` of another key leaves an entry as it is, or drops it. -/
theorem find?_of_set {key value : GoString} {ttl : Duration} {now : Time} (hk : k ≠ key)
    (he : find? k (c.set key value ttl now).entries = some e) : find? k c.entries = some e := by
  rw [find?_eq_some_iff (nodup_entries _), entries_set, put] at he
  rw [find?_eq_some_iff c.nodup_entries]
  cases List.mem_cons.mp he with
  | inl heq => exact absurd (congrArg Prod.fst heq) hk
  | inr hmem => exact (erase_sublist _ _).subset (List.mem_of_mem_take hmem)

/-- No entry of the cache has a deadline. -/
def NoDeadlines (c : WfCache) : Prop := ∀ k e, find? k c.entries = some e → e.expiresAt = 0

theorem NoDeadlines.set (h : c.NoDeadlines) (key value : GoString) (now : Time) :
    (c.set key value 0 now).NoDeadlines := by
  intro k e he
  by_cases hk : k = key
  · rw [hk, entries_set, find?_put_self] at he
    exact Option.some.inj he ▸ rfl
  · exact h k e (find?_of_set hk he)

theorem NoDeadlines.delete (h : c.NoDeadlines) (key : GoString) : (c.delete key).NoDeadlines := by
  intro k e he
  rw [entries_delete] at he
  by_cases hk : k = key
  · rw [hk, find?_erase_self] at he
    exact nomatch he
  · rw [find?_erase_of_ne hk] at he
    exact h k e he

end WfCache

/-! ## A snapshot without deadlines -/

/-- The record an entry without a deadline is written as. -/
def entryRecord (e : GoString × SnapshotEntry) : Record := .set e.1 e.2.value 0

variable {c : WfCache} {order : List GoString}

theorem expiresAt_of_mem_snapshot (h : c.NoDeadlines) (horder : c.cache.Enumerates order) :
    ∀ e ∈ c.cache.snapshot order, e.2.expiresAt = 0 :=
  fun e he => h e.1 e.2 ((mem_snapshot horder).mp he)

theorem dumpEntry_of_expiresAt {e : GoString × SnapshotEntry} (h : e.2.expiresAt = 0)
    (now : GoString → Time) : dumpEntry now e = some (entryRecord e) := by
  rw [dumpEntry, h]
  rfl

theorem filterMap_dumpEntry {es : List (GoString × SnapshotEntry)}
    (h : ∀ e ∈ es, e.2.expiresAt = 0) (now : GoString → Time) :
    es.filterMap (dumpEntry now) = es.map entryRecord := by
  rw [← List.filterMap_eq_map]
  exact List.filterMap_congr fun e he => dumpEntry_of_expiresAt (h e he) now

/-- The writes of a snapshot put the contents of the cache on top of a map. -/
theorem applyAll_snapshot (horder : c.cache.Enumerates order) (m : GoString → Option GoString)
    (k : GoString) :
    applyAll m (((c.cache.snapshot order).map entryRecord).map recordWrite) k =
      (c.contents k).or (m k) := by
  have hcontents := c.contents_eq k
  cases hfind : find? k c.entries with
  | none =>
    rw [hfind] at hcontents
    rw [hcontents]
    refine applyAll_of_forall_ne (fun w hw => ?_) m
    rw [List.map_map] at hw
    obtain ⟨⟨k', e⟩, he, rfl⟩ := List.mem_map.mp hw
    rintro rfl
    exact nomatch hfind.symm.trans ((mem_snapshot horder).mp he)
  | some e =>
    rw [hfind] at hcontents
    rw [hcontents]
    have hmem : recordWrite (entryRecord (k, e)) ∈
        ((c.cache.snapshot order).map entryRecord).map recordWrite :=
      List.mem_map_of_mem (List.mem_map_of_mem ((mem_snapshot horder).mpr hfind))
    have hnodup : ((((c.cache.snapshot order).map entryRecord).map recordWrite).map
        Write.key).Nodup := by
      rw [List.map_map, List.map_map]
      exact nodup_keys_snapshot horder
    exact applyAll_of_mem hnodup hmem m

end GoCache.Spec
