import GoCache.ForStd.Restore
import GoCache.Spec.Dump

/-!
# Compacting the AOF

`rewriteAOF` replaces the log by one `SET` for every entry of the cache, but the
snapshot file stays, and recovery loads it first. A key of the snapshot file
that has been deleted since is not deleted by the new log: it comes back, unless
the restored entries fill the cache and push it out again.

## Key results

- `compaction_iff`: when recovery from the compacted log gives the same map
-/

namespace GoCache.Spec

open GoCache.Native Recency

/-- The record carries no TTL. -/
def NoTTL : Record → Prop
  | .set _ _ ttlSeconds => ttlSeconds = 0
  | .del _ => True

namespace WfCache

/-! ## Entries with a deadline -/

section Deadline

variable {clock : Nat → Time} {i : Nat} {c : WfCache} {log : List Record}
  {k : GoString} {e : SnapshotEntry}

/-- A log without TTLs leaves no new entry with a deadline. -/
theorem find?_mutateAll_of_deadline (hlog : ∀ r ∈ log, NoTTL r)
    (he : find? k (mutateAll clock i c (log.map recordMutation)).2.entries = some e)
    (hdeadline : e.expiresAt ≠ 0) : find? k c.entries = some e := by
  induction log generalizing i c with
  | nil => exact he
  | cons r log ih =>
    have htail : ∀ r ∈ log, NoTTL r := fun r hr => hlog r (List.mem_cons_of_mem _ hr)
    cases r with
    | set key value ttlSeconds =>
      have hzero : ttlSeconds = 0 := hlog _ List.mem_cons_self
      subst hzero
      have hput := ih htail he
      -- a record without TTL stores no deadline
      by_cases hk : k = key
      · rw [hk, entries_set, find?_put_self] at hput
        obtain rfl := Option.some.inj hput
        exact absurd rfl hdeadline
      · exact find?_of_set hk hput
    | del key =>
      have herase := ih htail he
      rw [entries_delete] at herase
      by_cases hk : k = key
      · rw [hk, find?_erase_self] at herase
        exact nomatch herase
      · rwa [find?_erase_of_ne hk] at herase

end Deadline

/-! ## Keys and values -/

/-- The keys with their values, most recently used first. -/
def pairs (c : WfCache) : List (GoString × GoString) := mapPayload SnapshotEntry.value c.entries

variable (c : WfCache)

theorem contents_eq_pairs (k : GoString) : c.contents k = find? k c.pairs := by
  rw [contents_eq, pairs, find?_mapPayload]

theorem keys_pairs : keys c.pairs = keys c.entries := keys_mapPayload _ _

theorem length_pairs_le : c.pairs.length ≤ c.capacity :=
  (length_mapPayload _ _).le.trans c.length_entries_le

theorem nodup_pairs : (keys c.pairs).Nodup := c.keys_pairs ▸ c.nodup_entries

theorem pairs_set (key value : GoString) (ttl : Duration) (now : Time) :
    (c.set key value ttl now).pairs = put c.capacity key value c.pairs := by
  rw [pairs, entries_set, pairs, ← put_mapPayload]

theorem pairs_delete (key : GoString) : (c.delete key).pairs = erase key c.pairs := by
  rw [pairs, entries_delete, pairs, erase_mapPayload]

/-- The keys and values do not depend on when the mutations are made. -/
theorem pairs_mutateAll_congr {c c' : WfCache} (hpairs : c.pairs = c'.pairs)
    (hcap : c.capacity = c'.capacity) (clock clock' : Nat → Time) (i i' : Nat)
    (ms : List Mutation) :
    (mutateAll clock i c ms).2.pairs = (mutateAll clock' i' c' ms).2.pairs := by
  induction ms generalizing i i' c c' with
  | nil => exact hpairs
  | cons m ms ih =>
    cases m with
    | set key value ttl =>
      exact ih (by rw [pairs_set, pairs_set, hpairs, hcap])
        (by rw [capacity_set, capacity_set, hcap]) _ _
    | del key =>
      exact ih (by rw [pairs_delete, pairs_delete, hpairs])
        (by rw [capacity_delete, capacity_delete, hcap]) _ _

end WfCache

/-! ## The dump -/

section Dump

variable {now : GoString → Time} {e : GoString × SnapshotEntry}

/-- The key and value of an entry that `rewriteAOF` writes out. -/
def dumpedPair (now : GoString → Time) (e : GoString × SnapshotEntry) :
    Option (GoString × GoString) :=
  (dumpEntry now e).map fun _ => (e.1, e.2.value)

/-- Replaying a dump stores its keys and values, one after the other. -/
theorem pairs_mutateAll_dump (clock : Nat → Time) (i : Nat) (c : WfCache)
    (snapshot : List (GoString × SnapshotEntry)) :
    (WfCache.mutateAll clock i c
      ((snapshot.filterMap (dumpEntry now)).map recordMutation)).2.pairs =
      putAll c.capacity c.pairs (snapshot.filterMap (dumpedPair now)) := by
  induction snapshot generalizing i c with
  | nil => rfl
  | cons e snapshot ih =>
    cases hdump : dumpEntry now e with
    | none =>
      have hpair : dumpedPair now e = none := by rw [dumpedPair, hdump]; rfl
      rw [List.filterMap_cons_none hdump, List.filterMap_cons_none hpair]
      exact ih i c
    | some r =>
      obtain ⟨ttlSeconds, rfl⟩ := dumpEntry_eq_some hdump
      have hpair : dumpedPair now e = some (e.1, e.2.value) := by rw [dumpedPair, hdump]; rfl
      rw [List.filterMap_cons_some hdump, List.filterMap_cons_some hpair, List.map_cons]
      refine (ih (i + 1) (c.set e.1 e.2.value (ttlSeconds * second) (clock i))).trans ?_
      rw [WfCache.capacity_set, WfCache.pairs_set]
      rfl

variable {c : WfCache} {order : List GoString}

/-- The keys and values of the dump of a cache. -/
def dumped (c : Cache) (now : GoString → Time) (order : List GoString) :
    List (GoString × GoString) :=
  (c.snapshot order).filterMap (dumpedPair now)

private theorem mem_dumped (horder : c.cache.Enumerates order) {k v : GoString} :
    (k, v) ∈ dumped c.cache now order ↔
      ∃ entry, find? k c.entries = some entry ∧ entry.value = v ∧
        dumpEntry now (k, entry) ≠ none := by
  rw [dumped, List.mem_filterMap]
  constructor
  · rintro ⟨⟨k', entry⟩, hmem, h⟩
    obtain ⟨r, hr, heq⟩ := Option.map_eq_some_iff.mp h
    obtain ⟨rfl, rfl⟩ := Prod.mk.inj heq
    exact ⟨entry, (mem_snapshot horder).mp hmem, rfl, by rw [hr]; exact fun h => nomatch h⟩
  · rintro ⟨entry, hfind, rfl, hdump⟩
    obtain ⟨r, hr⟩ := Option.ne_none_iff_exists'.mp hdump
    refine ⟨(k, entry), (mem_snapshot horder).mpr hfind, ?_⟩
    rw [dumpedPair, hr]
    rfl

private theorem nodup_dumped (horder : c.cache.Enumerates order) :
    (keys (dumped c.cache now order)).Nodup := by
  have hpairs : (keys (dumped c.cache now order)).Sublist (keys (c.cache.snapshot order)) := by
    refine keys_filterMap_sublist (fun e p hp => ?_) _
    obtain ⟨_, _, rfl⟩ := Option.map_eq_some_iff.mp hp
    rfl
  exact (nodup_keys_snapshot horder).sublist hpairs

/-- A dump of a cache, over older entries that still hold what it leaves out. -/
private theorem dumps_dumped {m : WfCache} (horder : c.cache.Enumerates order)
    (hleft : ∀ k entry, find? k c.entries = some entry → dumpEntry now (k, entry) = none →
      find? k m.entries = some entry) :
    Dumps m.pairs c.pairs (dumped c.cache now order) where
  nodup := nodup_dumped horder
  subset := by
    rintro ⟨k, v⟩ hmem
    obtain ⟨entry, hfind, rfl, _⟩ := (mem_dumped horder).mp hmem
    exact List.mem_map.mpr ⟨(k, entry), (find?_eq_some_iff c.nodup_entries).mp hfind, rfl⟩
  left_out := by
    rintro ⟨k, v⟩ hmem hout
    obtain ⟨⟨k', entry⟩, hentry, heq⟩ := List.mem_map.mp hmem
    obtain ⟨rfl, rfl⟩ := Prod.mk.inj heq
    have hfind := (find?_eq_some_iff c.nodup_entries).mpr hentry
    have hnone : dumpEntry now (k', entry) = none := by
      by_contra hdump
      exact hout (mem_keys_of_mem ((mem_dumped horder).mpr ⟨entry, hfind, rfl, hdump⟩))
    have hold := hleft k' entry hfind hnone
    exact List.mem_map.mpr ⟨(k', entry), (find?_eq_some_iff m.nodup_entries).mp hold, rfl⟩

private theorem mem_keys_left_out (horder : c.cache.Enumerates order) {k : GoString} :
    (k ∈ keys c.pairs ∧ k ∉ keys (dumped c.cache now order)) ↔
      ∃ item, c.cache.data.lookup k = some item ∧ dumpEntry now (k, item.entry) = none := by
  have hlookup := c.lookup_eq k
  constructor
  · rintro ⟨hmem, hout⟩
    rw [c.keys_pairs, ← c.mem_data_iff] at hmem
    obtain ⟨item, hitem⟩ := Finmap.mem_iff.mp hmem
    rw [hitem] at hlookup
    refine ⟨item, hitem, ?_⟩
    by_contra hdump
    exact hout (mem_keys_of_mem ((mem_dumped horder).mpr ⟨_, hlookup.symm, rfl, hdump⟩))
  · rintro ⟨item, hitem, hdump⟩
    rw [hitem] at hlookup
    constructor
    · rw [c.keys_pairs, ← c.mem_data_iff]
      exact Finmap.mem_of_lookup_eq_some hitem
    · intro hmem
      obtain ⟨⟨k', v⟩, hkv, rfl⟩ := List.mem_map.mp hmem
      obtain ⟨entry, hfind, _, hne⟩ := (mem_dumped horder).mp hkv
      rw [hfind] at hlookup
      exact hne (Option.some.inj hlookup ▸ hdump)

end Dump

/-- No key of the snapshot file comes back: every key it loads is still in the
    cache, or else the cache is full, and every entry that the dump leaves out
    was loaded after that key, so that the key is pushed out first. -/
def SnapshotKeysKept (maxSize : Int) (now : GoString → Time) (loaded c : Cache) : Prop :=
  ∀ x ∈ keys loaded.entries, x ∉ c.data →
    max 1 maxSize ≤ c.len ∧
    ∀ k item, c.data.lookup k = some item → dumpEntry now (k, item.entry) = none →
      [k, x].Sublist (keys loaded.entries)

private theorem displaced_iff {maxSize : Int} {now : GoString → Time} {order : List GoString}
    {m c : WfCache} (hcap : c.capacity = (max 1 maxSize).toNat)
    (horder : c.cache.Enumerates order) :
    Displaced c.capacity m.pairs c.pairs (dumped c.cache now order) ↔
      SnapshotKeysKept maxSize now m.cache c.cache := by
  have hfull : c.capacity ≤ c.pairs.length ↔ max 1 maxSize ≤ c.cache.len := by
    rw [c.len_eq, WfCache.pairs, length_mapPayload, hcap]
    omega
  have hkeys : keys m.pairs = keys m.cache.entries := m.keys_pairs
  unfold Displaced SnapshotKeysKept
  rw [hkeys, c.keys_pairs, hfull]
  refine forall₂_congr fun x _ => ?_
  rw [c.mem_data_iff]
  refine imp_congr_right fun _ => and_congr_right fun _ => ?_
  constructor
  · intro h k item hitem hdump
    obtain ⟨hmem, hout⟩ := (mem_keys_left_out horder).mpr ⟨item, hitem, hdump⟩
    exact h k (c.keys_pairs ▸ hmem) hout
  · intro h k hmem hout
    obtain ⟨item, hitem, hdump⟩ := (mem_keys_left_out horder).mp ⟨c.keys_pairs ▸ hmem, hout⟩
    exact h k item hitem hdump

/-- A dump of a cache is restored over older entries that still hold what it leaves
    out. -/
theorem contents_restored_iff {maxSize : Int} {now : GoString → Time} {order : List GoString}
    {m c c' : WfCache} (hcap : c.capacity = m.capacity)
    (hmax : c.capacity = (max 1 maxSize).toNat)
    (hpairs : c'.pairs = putAll c.capacity m.pairs (dumped c.cache now order))
    (horder : c.cache.Enumerates order)
    (hleft : ∀ k entry, find? k c.entries = some entry → dumpEntry now (k, entry) = none →
      find? k m.entries = some entry) :
    c'.contents = c.contents ↔ SnapshotKeysKept maxSize now m.cache c.cache := by
  have hrestore := restore_iff c.capacity_pos m.nodup_pairs c.nodup_pairs
    (hcap ▸ m.length_pairs_le) c.length_pairs_le (dumps_dumped horder hleft)
  rw [← displaced_iff hmax horder, ← hrestore, funext_iff]
  simp only [WfCache.contents_eq_pairs, hpairs]

/-- The caches of the two recoveries, from the log and from its compaction. -/
private theorem contents_restore_iff {maxSize : Int} {now : GoString → Time}
    {order : List GoString} {log : List Record} (hlog : ∀ r ∈ log, NoTTL r) (ms : List Mutation)
    (clock clock' : Nat → Time) {m c c' : WfCache}
    (hm : m = (WfCache.mutateAll clock 0 (WfCache.new maxSize) ms).2)
    (hc : c = (WfCache.mutateAll clock (WfCache.mutateAll clock 0 (WfCache.new maxSize) ms).1 m
      (log.map recordMutation)).2)
    (hc' : c' = (WfCache.mutateAll clock' 0 (WfCache.new maxSize)
      (ms ++ ((c.cache.snapshot order).filterMap (dumpEntry now)).map recordMutation)).2)
    (horder : c.cache.Enumerates order) :
    c'.contents = c.contents ↔ SnapshotKeysKept maxSize now m.cache c.cache := by
  have hcapm : m.capacity = (max 1 maxSize).toNat := by
    rw [hm, WfCache.capacity_mutateAll]
    rfl
  have hcap : c.capacity = m.capacity := by rw [hc, WfCache.capacity_mutateAll]
  -- loading the snapshot file again gives the same keys and values
  have hload : (WfCache.mutateAll clock' 0 (WfCache.new maxSize) ms).2.pairs = m.pairs := by
    rw [hm]
    exact WfCache.pairs_mutateAll_congr rfl rfl _ _ _ _ _
  have hpairs : c'.pairs = putAll c.capacity m.pairs (dumped c.cache now order) := by
    rw [hc', WfCache.mutateAll_append, pairs_mutateAll_dump, hload, WfCache.capacity_mutateAll,
      hcap, hm, WfCache.capacity_mutateAll]
    rfl
  refine contents_restored_iff hcap (hcap.trans hcapm) hpairs horder fun k entry hfind hnone => ?_
  -- it was left out for its deadline, and the log sets none: it is from the snapshot file
  rw [hc] at hfind
  exact WfCache.find?_mutateAll_of_deadline hlog hfind (deadline_of_dumpEntry_eq_none hnone)

/-- Recovery from the snapshot file and the compacted log gives the same map as
    from the log before exactly if no key of the snapshot file comes back. -/
theorem compaction_iff (maxSize : Int) (snapshot : Option Bytes) (log : List Record)
    (hlog : ∀ r ∈ log, NoTTL r) (clock clock' : Nat → Time) (now : GoString → Time)
    (order : List GoString) {n : Nat} {loaded c : Cache}
    (hloaded : recoverSnapshot clock (Cache.new maxSize) snapshot = .ok (n, loaded))
    (hc : recoverAOF clock (Cache.new maxSize) snapshot (some (encodeLog log)) = .ok c)
    (horder : c.Enumerates order) :
    ∃ c', recoverAOF clock' (Cache.new maxSize) snapshot (some (dump now (c.snapshot order))) =
        .ok c' ∧
      (c'.contents = c.contents ↔ SnapshotKeysKept maxSize now loaded c) := by
  let start := WfCache.new maxSize
  have hstart : start.cache = Cache.new maxSize := rfl
  rw [← hstart] at hloaded hc ⊢
  rw [recoverSnapshot_eq] at hloaded
  rw [recoverAOF_eq, recoveryMutations_encodeLog] at hc
  have hdump : dump now (c.snapshot order) =
    encodeLog ((c.snapshot order).filterMap (dumpEntry now)) := rfl
  rw [recoverAOF_eq, hdump, recoveryMutations_encodeLog]
  cases hms : snapshotFileMutations snapshot with
  | error p =>
    -- the snapshot file does load
    rw [hms] at hc
    exact nomatch hc
  | ok ms =>
    rw [hms] at hc hloaded
    obtain ⟨rfl, rfl⟩ := Prod.mk.inj (Except.ok.inj hloaded)
    have hc : (WfCache.mutateAll clock 0 start (ms ++ log.map recordMutation)).2.cache = c :=
      Except.ok.inj hc
    rw [WfCache.mutateAll_append] at hc
    subst hc
    refine ⟨_, rfl, ?_⟩
    exact contents_restore_iff hlog ms clock clock' rfl rfl rfl horder

/-- A snapshot file and a log with a key each, none deleted. -/
theorem compaction_iff_kept :
    ∃ c c', recoverAOF (fun _ => 0) (Cache.new 10) (some (encodeLog [.set (lit "a") (lit "1") 0]))
        (some (encodeLog [.set (lit "b") (lit "2") 0])) = .ok c ∧
      recoverAOF (fun _ => 0) (Cache.new 10) (some (encodeLog [.set (lit "a") (lit "1") 0]))
        (some (dump (fun _ => 0) (c.snapshot [lit "a", lit "b"]))) = .ok c' ∧
      c'.contents = c.contents := by
  obtain ⟨c', hc', hiff⟩ := compaction_iff 10 (some (encodeLog [.set (lit "a") (lit "1") 0]))
    [.set (lit "b") (lit "2") 0] (by simp [NoTTL]) (fun _ => 0) (fun _ => 0) (fun _ => 0)
    [lit "a", lit "b"] rfl rfl (by decide)
  refine ⟨_, c', rfl, hc', hiff.mpr ?_⟩
  intro x hx hgone
  obtain rfl : x = lit "a" := List.mem_singleton.mp hx
  exact absurd (by decide) hgone

/-- A deleted key of the snapshot file comes back: the file holds one key, the
    log deletes it, and the compacted log is empty. -/
theorem compaction_resurrects :
    ∃ c c', recoverAOF (fun _ => 0) (Cache.new 10)
        (some (encodeLog [.set (lit "k") (lit "v") 0]))
        (some (encodeLog [.del (lit "k")])) = .ok c ∧
      c.metrics.evictionsTotal = 0 ∧ c.Enumerates [] ∧
      recoverAOF (fun _ => 0) (Cache.new 10)
        (some (encodeLog [.set (lit "k") (lit "v") 0])) (some (dump (fun _ => 0) (c.snapshot []))) =
          .ok c' ∧
      c.contents (lit "k") = none ∧ c'.contents (lit "k") = some (lit "v") := by
  refine ⟨_, _, rfl, rfl, ?_, rfl, rfl, rfl⟩
  decide

end GoCache.Spec
