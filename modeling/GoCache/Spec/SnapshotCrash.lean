import GoCache.Spec.Compaction
import GoCache.Spec.Node

/-!
# Crashes while a snapshot is made

`CreateSnapshot` writes the cache to a temp file, renames it to the snapshot file
and then truncates the AOF. A crash leaves the files as they are between two of
these calls, or in the middle of a write. Between the renaming and the truncation
the whole AOF is replayed on top of a snapshot that holds its result already.

## Key results

- `evictions_mutateAll_of_card`: mutations of few keys evict nothing
- `crashed_cases`: the files a crash can leave
- `snapshot_crash_recovers`: each of them recovers the same map
-/

namespace GoCache.Spec

open GoCache.Native Recency WriteLog

/-- The files when the process dies: some of the calls have been made, and a write
    that was interrupted has left a first part of its bytes. -/
inductive Crashed : List FileOp → Files → Files → Prop where
  | stop (ops : List FileOp) (files : Files) : Crashed ops files files
  | torn {bytes part : Bytes} (hpart : part <+: bytes) (ops : List FileOp) (files : Files) :
      Crashed (.writeTemp bytes :: ops) files (files.apply (.writeTemp part))
  | next {op : FileOp} {ops : List FileOp} {files files' : Files}
      (h : Crashed ops (files.apply op) files') : Crashed (op :: ops) files files'

/-! ## The files a crash can leave -/

section Cases

variable {snapshot aof : Option Bytes} {temp content : Bytes} {files : Files}

/-- While the temp file is written, the other two stay as they are. -/
private theorem crashed_writes (rs : List Record) {ops : List FileOp}
    (h : Crashed (rs.map (fun r => .writeTemp r.encode) ++ ops) ⟨snapshot, some temp, aof⟩ files) :
    (files.snapshot = snapshot ∧ files.aof = aof) ∨
      Crashed ops ⟨snapshot, some (temp ++ rs.flatMap Record.encode), aof⟩ files := by
  induction rs generalizing temp with
  | nil =>
    right
    rw [List.flatMap_nil, List.append_nil]
    exact h
  | cons r rs ih =>
    cases h with
    | stop | torn => exact .inl ⟨rfl, rfl⟩
    | next h =>
      rw [List.flatMap_cons, ← List.append_assoc]
      exact ih h

/-- From the renaming on, the snapshot file is the new one, and the AOF is there or
    empty. -/
private theorem crashed_swap {log : Bytes}
    (h : Crashed [.renameTemp, .truncateAOF, .openAOF] ⟨snapshot, some content, some log⟩ files) :
    (files.snapshot = snapshot ∧ files.aof = some log) ∨
      files.snapshot = some content ∧ (files.aof = some log ∨ files.aof = some []) := by
  cases h with
  | stop => exact .inl ⟨rfl, rfl⟩
  | next h =>
    right
    cases h with
    | stop => exact ⟨rfl, .inl rfl⟩
    | next h =>
      cases h with
      | stop => exact ⟨rfl, .inr rfl⟩
      | next h =>
        cases h with
        | stop => exact ⟨rfl, .inr rfl⟩

/-- The files are the old ones, or the new snapshot file with the AOF or without. -/
theorem crashed_cases {log : Bytes} {temp : Option Bytes} {now : GoString → Time}
    {es : List (GoString × SnapshotEntry)}
    (h : Crashed (createSnapshot now es) ⟨snapshot, temp, some log⟩ files) :
    (files.snapshot = snapshot ∧ files.aof = some log) ∨
      files.snapshot = some (dump now es) ∧ (files.aof = some log ∨ files.aof = some []) := by
  cases h with
  | stop => exact .inl ⟨rfl, rfl⟩
  | next h =>
    rcases crashed_writes _ h with hold | h
    · exact .inl hold
    · exact crashed_swap h

end Cases

/-! ## Few keys -/

/-- The key a mutation is about. -/
def Mutation.key (m : Mutation) : GoString := m.write.key

namespace WfCache

variable {clock : Nat → Time} {i : Nat} {c : WfCache} {ms : List Mutation} {K : Finset GoString}

/-- A `Set` within a set of keys that fits into the cache evicts nothing. -/
private theorem evictions_set_of_card (hcard : K.card ≤ c.capacity)
    (hkeys : ∀ k ∈ keys c.entries, k ∈ K) {key : GoString} (hkey : key ∈ K) (value : GoString)
    (ttl : Duration) (now : Time) : (c.set key value ttl now).evictions = c.evictions := by
  rw [evictions_set]
  by_cases hmem : key ∈ keys c.entries
  · rw [if_pos (.inl hmem), Nat.add_zero]
  · -- the keys of the cache are distinct members of the set other than this one
    have hlt : (keys c.entries).toFinset.card < K.card := by
      apply Finset.card_lt_card
      refine (Finset.ssubset_iff_of_subset fun k hk => hkeys k (List.mem_toFinset.mp hk)).mpr ?_
      exact ⟨key, hkey, fun hk => hmem (List.mem_toFinset.mp hk)⟩
    rw [List.toFinset_card_of_nodup c.nodup_entries, length_keys] at hlt
    rw [if_pos (.inr (by omega)), Nat.add_zero]

private theorem mem_keys_of_set {key value k : GoString} {ttl : Duration} {now : Time}
    (hk : k ∈ keys (c.set key value ttl now).entries) : k = key ∨ k ∈ keys c.entries := by
  by_cases heq : k = key
  · exact .inl heq
  · obtain ⟨⟨_, e⟩, he, rfl⟩ := List.mem_map.mp hk
    have hfind := find?_of_set heq ((find?_eq_some_iff (nodup_entries _)).mpr he)
    exact .inr (mem_keys_of_mem ((find?_eq_some_iff c.nodup_entries).mp hfind))

/-- Mutations within a set of keys that fits into the cache evict nothing, and stay
    within the set. -/
theorem evictions_mutateAll_of_card (hcard : K.card ≤ c.capacity)
    (hkeys : ∀ k ∈ keys c.entries, k ∈ K) (hms : ∀ m ∈ ms, m.key ∈ K) :
    (mutateAll clock i c ms).2.evictions = c.evictions ∧
      ∀ k ∈ keys (mutateAll clock i c ms).2.entries, k ∈ K := by
  induction ms generalizing i c with
  | nil => exact ⟨rfl, hkeys⟩
  | cons m ms ih =>
    have htail : ∀ m ∈ ms, m.key ∈ K := fun m hm => hms m (List.mem_cons_of_mem _ hm)
    cases m with
    | set key value ttl =>
      have hkey : key ∈ K := hms _ List.mem_cons_self
      have hset := evictions_set_of_card hcard hkeys hkey value ttl (clock i)
      have hin : ∀ k ∈ keys (c.set key value ttl (clock i)).entries, k ∈ K := by
        intro k hk
        rcases mem_keys_of_set hk with rfl | hk
        · exact hkey
        · exact hkeys k hk
      rw [← hset]
      exact ih ((capacity_set ..).symm ▸ hcard) hin htail
    | del key =>
      have hin : ∀ k ∈ keys (c.delete key).entries, k ∈ K := by
        intro k hk
        rw [entries_delete] at hk
        exact hkeys k ((keys_sublist (erase_sublist _ _)).subset hk)
      rw [← evictions_delete c key]
      exact ih ((capacity_delete ..).symm ▸ hcard) hin htail

/-- The map they leave is that of the writes. -/
theorem contents_mutateAll_of_card (hcard : K.card ≤ c.capacity)
    (hkeys : ∀ k ∈ keys c.entries, k ∈ K) (hms : ∀ m ∈ ms, m.key ∈ K) :
    (mutateAll clock i c ms).2.contents = applyAll c.contents (ms.map Mutation.write) :=
  contents_mutateAll (evictions_mutateAll_of_card hcard hkeys hms).1

end WfCache

/-! ## Recovery -/

section Recover

variable {c : WfCache} {order : List GoString} {now : GoString → Time}

/-- The writes of a dump that leaves nothing out put the contents of the cache on top
    of a map. -/
private theorem applyAll_dump (horder : c.cache.Enumerates order)
    (hall : ∀ e ∈ c.cache.snapshot order, dumpEntry now e ≠ none)
    (m : GoString → Option GoString) (k : GoString) :
    applyAll m (((c.cache.snapshot order).filterMap (dumpEntry now)).map recordWrite) k =
      (c.contents k).or (m k) := by
  have hwrites : ∀ es : List (GoString × SnapshotEntry), (∀ e ∈ es, dumpEntry now e ≠ none) →
      (es.filterMap (dumpEntry now)).map recordWrite = (es.map entryRecord).map recordWrite := by
    intro es hes
    induction es with
    | nil => rfl
    | cons e es ih =>
      obtain ⟨r, hr⟩ := Option.ne_none_iff_exists'.mp (hes e List.mem_cons_self)
      obtain ⟨ttlSeconds, rfl⟩ := dumpEntry_eq_some hr
      rw [List.filterMap_cons_some hr]
      exact congrArg (List.cons (Write.mk e.1 (some e.2.value)))
        (ih fun e he => hes e (List.mem_cons_of_mem _ he))
  rw [hwrites _ hall]
  exact applyAll_snapshot horder m k

variable {ms : List Mutation} {log : List Record} {K : Finset GoString} {maxSize : Int}
  {clock : Nat → Time}

/-- What the files after the renaming recover: the log brings nothing that the new
    snapshot does not hold already. -/
private theorem applyAll_dump_log (horder : c.cache.Enumerates order)
    (hall : ∀ e ∈ c.cache.snapshot order, dumpEntry now e ≠ none)
    {m : GoString → Option GoString} (hc : c.contents = applyAll m (log.map recordWrite)) :
    applyAll (applyAll (fun _ => none)
        (((c.cache.snapshot order).filterMap (dumpEntry now)).map recordWrite))
      (log.map recordWrite) = c.contents := by
  have hdump : applyAll (fun _ => none)
      (((c.cache.snapshot order).filterMap (dumpEntry now)).map recordWrite) = c.contents := by
    funext k
    rw [applyAll_dump horder hall, Option.or_none]
  rw [hdump]
  funext k
  exact applyAll_stable (congrFun hc k).symm

private theorem isSetRecord_dump (es : List (GoString × SnapshotEntry)) :
    (es.filterMap (dumpEntry now)).filter isSetRecord = es.filterMap (dumpEntry now) := by
  apply List.filter_eq_self.mpr
  intro r hr
  obtain ⟨e, -, he⟩ := List.mem_filterMap.mp hr
  obtain ⟨ttlSeconds, rfl⟩ := dumpEntry_eq_some he
  rfl

/-- The mutations of the new snapshot file are on keys of the cache. -/
private theorem key_of_mem_dump (horder : c.cache.Enumerates order) {m : Mutation}
    (hm : m ∈ ((c.cache.snapshot order).filterMap (dumpEntry now)).map recordMutation) :
    m.key ∈ keys c.entries := by
  obtain ⟨r, hr, rfl⟩ := List.mem_map.mp hm
  obtain ⟨⟨k, e⟩, he, hdump⟩ := List.mem_filterMap.mp hr
  obtain ⟨ttlSeconds, rfl⟩ := dumpEntry_eq_some hdump
  have hfind := (mem_snapshot horder).mp he
  exact mem_keys_of_mem ((find?_eq_some_iff c.nodup_entries).mp hfind)

/-- A crash loses nothing, for any snapshot file whose keys fit into the cache with
    those of the log, as long as no entry has expired when it is written. -/
theorem crash_recovers_of_dumped {snapshot : Option Bytes}
    (hms : snapshotFileMutations snapshot = .ok ms)
    (hcard : ((ms ++ log.map recordMutation).map Mutation.key).toFinset.card ≤
      (WfCache.new maxSize).capacity)
    (hc : c = (WfCache.mutateAll clock 0 (WfCache.new maxSize)
      (ms ++ log.map recordMutation)).2)
    (horder : c.cache.Enumerates order)
    (hall : ∀ e ∈ c.cache.snapshot order, dumpEntry now e ≠ none) {temp : Option Bytes}
    {files : Files}
    (hcrash : Crashed (createSnapshot now (c.cache.snapshot order))
      ⟨snapshot, temp, some (encodeLog log)⟩ files) (clock' : Nat → Time) :
    ∃ c', recoverAOF clock' (Cache.new maxSize) files.snapshot files.aof = .ok c' ∧
      c'.contents = c.contents := by
  let start := WfCache.new maxSize
  have hmem : ∀ m ∈ ms ++ log.map recordMutation,
      m.key ∈ ((ms ++ log.map recordMutation).map Mutation.key).toFinset :=
    fun m hm => List.mem_toFinset.mpr (List.mem_map_of_mem hm)
  have hstart : ∀ k ∈ keys start.entries,
      k ∈ ((ms ++ log.map recordMutation).map Mutation.key).toFinset := by
    intro k hk
    rw [WfCache.entries_new] at hk
    exact absurd hk List.not_mem_nil
  -- mutations on these keys are writes to the empty map
  have hwrites : ∀ clock ms', (∀ m ∈ ms',
      m.key ∈ ((ms ++ log.map recordMutation).map Mutation.key).toFinset) →
      (WfCache.mutateAll clock 0 start ms').2.contents =
        applyAll (fun _ => none) (ms'.map Mutation.write) := by
    intro clock ms' hms'
    rw [WfCache.contents_mutateAll_of_card hcard hstart hms', WfCache.contents_new]
  have hkeys : ∀ k ∈ keys c.entries,
      k ∈ ((ms ++ log.map recordMutation).map Mutation.key).toFinset := by
    rw [hc]
    exact (WfCache.evictions_mutateAll_of_card hcard hstart hmem).2
  have hcontents := hwrites clock _ hmem
  rw [← hc, List.map_append, applyAll_append, List.map_map] at hcontents
  have hdump : ∀ m ∈ ((c.cache.snapshot order).filterMap (dumpEntry now)).map recordMutation,
      m.key ∈ ((ms ++ log.map recordMutation).map Mutation.key).toFinset :=
    fun m hm => hkeys _ (key_of_mem_dump horder hm)
  have hload : snapshotFileMutations (some (dump now (c.cache.snapshot order))) =
      .ok (((c.cache.snapshot order).filterMap (dumpEntry now)).map recordMutation) := by
    have h := snapshotMutations_encodeLog ((c.cache.snapshot order).filterMap (dumpEntry now))
    rw [isSetRecord_dump] at h
    exact h
  rcases crashed_cases hcrash with ⟨hsnap, haof⟩ | ⟨hsnap, haof | haof⟩
  · -- the old files
    rw [hsnap, haof]
    refine ⟨_, (recoverAOF_eq clock' start _ _).trans (by
      rw [recoveryMutations_encodeLog, hms]; rfl), ?_⟩
    have h := hwrites clock' _ hmem
    rw [List.map_append, applyAll_append, List.map_map] at h
    exact h.trans hcontents.symm
  · -- the new snapshot file with the whole log
    rw [hsnap, haof]
    refine ⟨_, (recoverAOF_eq clock' start _ _).trans (by
      rw [recoveryMutations_encodeLog, hload]; rfl), ?_⟩
    have h := hwrites clock' _ fun m hm => (List.mem_append.mp hm).elim (hdump m) fun hm =>
      hmem m (List.mem_append_right _ hm)
    rw [List.map_append, applyAll_append, List.map_map, List.map_map] at h
    exact h.trans (applyAll_dump_log horder hall hcontents)
  · -- the new snapshot file alone
    rw [hsnap, haof]
    refine ⟨_, (recoverAOF_eq clock' start _ (some (encodeLog []))).trans (by
      rw [recoveryMutations_encodeLog, hload]; rfl), ?_⟩
    have h := hwrites clock' _ hdump
    rw [List.map_map] at h
    show (WfCache.mutateAll clock' 0 start (_ ++ [])).2.contents = _
    rw [List.append_nil]
    refine h.trans (funext fun k => ?_)
    exact (applyAll_dump horder hall _ k).trans (Option.or_none)

end Recover

/-! ## Files without TTLs -/

/-- No `SET` has a TTL. -/
def WithoutTTL (ms : List Mutation) : Prop :=
  ∀ key value ttl, Mutation.set key value ttl ∈ ms → ttl = 0

/-- Then none leaves a deadline. -/
private theorem noDeadlines_mutateAll {clock : Nat → Time} {i : Nat} {c : WfCache}
    {ms : List Mutation} (hc : c.NoDeadlines) (h : WithoutTTL ms) :
    (WfCache.mutateAll clock i c ms).2.NoDeadlines := by
  induction ms generalizing i c with
  | nil => exact hc
  | cons m ms ih =>
    have htail : WithoutTTL ms := fun key value ttl hm =>
      h key value ttl (List.mem_cons_of_mem _ hm)
    cases m with
    | set key value ttl =>
      obtain rfl := h key value ttl List.mem_cons_self
      exact ih (hc.set key value (clock i)) htail
    | del key => exact ih (hc.delete key) htail

/-- Wherever `CreateSnapshot` is interrupted, the files that are left recover the map of
    the cache: for every snapshot file that can be loaded and every log whose keys fit into
    the cache together, without TTLs, or with TTLs none of which has run out when its key is
    written. -/
theorem snapshot_crash_recovers (maxSize : Int) (snapshot : Option Bytes) {ms : List Mutation}
    (hms : snapshotFileMutations snapshot = .ok ms) (log : List Record)
    (hsize : (((ms ++ log.map recordMutation).map Mutation.key).toFinset.card : Int) ≤ maxSize)
    (clock : Nat → Time) {c : Cache}
    (hc : recoverAOF clock (Cache.new maxSize) snapshot (some (encodeLog log)) = .ok c)
    {order : List GoString} (horder : c.Enumerates order) (now : GoString → Time)
    (hlive : WithoutTTL (ms ++ log.map recordMutation) ∨
      ∀ e ∈ c.snapshot order, dumpEntry now e ≠ none)
    (temp : Option Bytes) {files : Files}
    (hcrash : Crashed (createSnapshot now (c.snapshot order))
      ⟨snapshot, temp, some (encodeLog log)⟩ files) (clock' : Nat → Time) :
    ∃ c', recoverAOF clock' (Cache.new maxSize) files.snapshot files.aof = .ok c' ∧
      c'.contents = c.contents := by
  -- the cache is what the records of both files make of an empty one
  have hrecover := recoverAOF_eq clock (WfCache.new maxSize) snapshot (some (encodeLog log))
  rw [recoveryMutations_encodeLog, hms] at hrecover
  obtain rfl := Except.ok.inj (hc.symm.trans hrecover)
  have hcard : ((ms ++ log.map recordMutation).map Mutation.key).toFinset.card ≤
      (WfCache.new maxSize).capacity := by
    have hcap : (WfCache.new maxSize).capacity = (max 1 maxSize).toNat := rfl
    rw [hcap]
    omega
  refine crash_recovers_of_dumped hms hcard rfl horder ?_ hcrash clock'
  rcases hlive with hplain | hlive
  · intro e he hnone
    have hempty : (WfCache.new maxSize).NoDeadlines := by
      intro k e he
      rw [WfCache.entries_new] at he
      exact nomatch he
    exact deadline_of_dumpEntry_eq_none hnone
      (expiresAt_of_mem_snapshot (noDeadlines_mutateAll hempty hplain) horder e he)
  · exact hlive

/-- A crash between the renaming and the truncation: the log deletes a key of the old
    snapshot file and sets another, for five seconds. -/
theorem snapshot_crash_recovers_renamed :
    ∃ c c', recoverAOF (fun _ => 0) (Cache.new 2)
        (some (encodeLog [.set (lit "a") (lit "1") 0]))
        (some (encodeLog [.del (lit "a"), .set (lit "b") (lit "2") 5])) = .ok c ∧
      recoverAOF (fun _ => 7) (Cache.new 2) (some (dump (fun _ => 3) (c.snapshot [lit "b"])))
        (some (encodeLog [.del (lit "a"), .set (lit "b") (lit "2") 5])) = .ok c' ∧
      c'.contents = c.contents := by
  obtain ⟨c', hc', hcontents⟩ := snapshot_crash_recovers 2
    (some (encodeLog [.set (lit "a") (lit "1") 0])) (snapshotMutations_encodeLog _)
    [.del (lit "a"), .set (lit "b") (lit "2") 5] (by decide) (fun _ => 0) rfl
    (show Cache.Enumerates _ [lit "b"] by decide) (fun _ => 3) (.inr (by decide)) none
    (.next (.next (.next (.stop _ _)))) (fun _ => 7)
  exact ⟨_, c', rfl, hc', hcontents⟩

end GoCache.Spec
