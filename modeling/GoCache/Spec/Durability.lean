import GoCache.Spec.Dump
import GoCache.Spec.LogOrder

/-!
# Background persistence and acknowledged writes

`rewriteAOF` and `CreateSnapshot` take their snapshot of the cache without
holding `AOF.mu`, and replace or truncate the log under it later. A write that
reaches the cache after the snapshot and the log before the swap is then in
neither file, although it has been acknowledged.

The invariant is that of the files: for every key without a write still to be
appended, recovery gives the value of the cache. While a job runs, the writes
still to be appended bring what its snapshot lacks.

## Key results

- `Durable.step`: what every step preserves
- `recovers_acknowledged`: recovery gives the last write to every key
-/

namespace GoCache.Spec

open GoCache.Native Transition WriteLog

/-- The number of updates that the job's snapshot saw, until the files are
    replaced. -/
def Job.stamp? : Job → Option Nat
  | .snapped _ stamp _ | .written _ stamp _ | .locked _ stamp _ | .renamed stamp => some stamp
  | .idle | .reopening => none

namespace Node

/-- While a job runs, only writes that its snapshot has seen are appended. -/
def appendsBefore (n : Node) : Action → Bool
  | .append i =>
    match n.job.stamp?, pick i n.requests with
    | some stamp, some (_, r, _) => r.entry.stamp < stamp
    | _, _ => true
  | _ => true

/-- A rewrite of the log starts only if every key that the snapshot file loads is
    in the cache. -/
def rewritesKept (n : Node) : Action → Bool
  | .jobSnapshot .rewriteAOF _ =>
    match snapshotFileMutations n.snapshotFile with
    | .ok ms => ms.all fun mutation => (n.cache.cache.contents mutation.write.key).isSome
    | .error _ => true
  | _ => true

variable {n n' : Node} {a : Action} {m base : GoString → Option GoString} {log : List Record}

/-- The files hold the map `base` and the records `log` on top of it. -/
structure Files (n : Node) (base : GoString → Option GoString) (log : List Record) : Prop where
  snapshot : ∃ ms, snapshotFileMutations n.snapshotFile = .ok ms ∧
    base = applyAll (fun _ => none) (ms.map Mutation.write)
  aof : n.aof = encodeLog log

/-- The records of a job's snapshot leave the map of the cache after its first
    `t` updates: on their own, and for a rewrite on top of the snapshot file. -/
structure Dumped (m : GoString → Option GoString) (updates : List Stamped)
    (base : GoString → Option GoString) (kind : JobKind) (t : Nat)
    (snapshot : List (GoString × SnapshotEntry)) : Prop where
  alone : applyAll (fun _ => none) ((snapshot.map entryRecord).map recordWrite) =
    applyAll m ((updates.take t).map Stamped.write)
  onBase : kind = .rewriteAOF →
    applyAll base ((snapshot.map entryRecord).map recordWrite) =
      applyAll m ((updates.take t).map Stamped.write)

/-- What a job, the updates of the cache and the writes still to be appended have
    to do with each other: the latter bring what the job's snapshot lacks. -/
def Runs (m base : GoString → Option GoString) (job : Job) (updates unlogged : List Stamped) :
    Prop :=
  match job with
  | .idle | .reopening => True
  | .snapped kind t snapshot =>
    Brings Stamped.write t updates unlogged ∧ (∀ e ∈ snapshot, e.2.expiresAt = 0) ∧
      Dumped m updates base kind t snapshot
  | .written kind t content | .locked kind t content =>
    Brings Stamped.write t updates unlogged ∧
      ∃ snapshot, content = encodeLog (snapshot.map entryRecord) ∧
        Dumped m updates base kind t snapshot
  | .renamed t =>
    Brings Stamped.write t updates unlogged ∧
      base = applyAll m ((updates.take t).map Stamped.write)

/-- The state of the cache and the files. -/
structure Durable (m : GoString → Option GoString) (n : Node) (base : GoString → Option GoString)
    (log : List Record) : Prop where
  tracks : Tracks m n
  deadlines : n.cache.NoDeadlines
  suffix : ∀ k, onKey Stamped.write k (unlogged n.requests) <:+ onKey Stamped.write k n.updates
  files : Files n base log
  runs : Runs m base n.job n.updates (unlogged n.requests)
  recovers : ∀ k, onKey Stamped.write k (unlogged n.requests) = [] →
    applyAll base (log.map recordWrite) k = n.cache.contents k

/-! ## Client writes -/

section Runs

variable {job : Job} {us as pre post : List Stamped} {s e : Stamped} {kind : JobKind} {t : Nat}
  {snapshot : List (GoString × SnapshotEntry)}

private theorem Dumped.update (h : Dumped m us base kind t snapshot) (hle : t ≤ us.length) :
    Dumped m (us ++ [s]) base kind t snapshot where
  alone := by rw [List.take_append_of_le_length hle]; exact h.alone
  onBase := by rw [List.take_append_of_le_length hle]; exact h.onBase

/-- A new write reaches the cache. -/
private theorem Runs.update (h : Runs m base job us as) (s : Stamped) :
    Runs m base job (us ++ [s]) (as ++ [s]) := by
  cases job with
  | idle | reopening => trivial
  | snapped kind t snapshot =>
    obtain ⟨hbrings, hdeadlines, hdumped⟩ := h
    exact ⟨hbrings.append_right s, hdeadlines, hdumped.update hbrings.le⟩
  | written kind t content | locked kind t content =>
    obtain ⟨hbrings, snapshot, hcontent, hdumped⟩ := h
    exact ⟨hbrings.append_right s, snapshot, hcontent, hdumped.update hbrings.le⟩
  | renamed t =>
    obtain ⟨hbrings, hbase⟩ := h
    refine ⟨hbrings.append_right s, ?_⟩
    rw [List.take_append_of_le_length hbrings.le]
    exact hbase

/-- A write that the job's snapshot has seen is appended. -/
private theorem Runs.remove (h : Runs m base job us (pre ++ e :: post))
    (hfirst : NotOnKeyOf Stamped.write e pre) (hlock : job.holdsLock = false)
    (hseen : ∀ t, job.stamp? = some t → e ∉ us.drop t) : Runs m base job us (pre ++ post) := by
  cases job with
  | idle | reopening => trivial
  | snapped kind t snapshot | written kind t content => exact ⟨h.1.remove hfirst (hseen t rfl), h.2⟩
  | locked kind t content | renamed t => exact nomatch hlock

end Runs

theorem Durable.update (h : Durable m n base log) {c : WfCache} {r : Record}
    (hc : c.contents = WriteLog.apply n.cache.contents (recordWrite r))
    (htracks : Tracks m (n.update c r)) (hdeadlines : c.NoDeadlines) :
    Durable m (n.update c r) base log := by
  let s : Stamped := ⟨n.updates.length, r⟩
  have hunlogged : unlogged (n.update c r).requests = unlogged n.requests ++ [s] :=
    owing_append _ _ _
  refine ⟨htracks, hdeadlines, ?_, ⟨h.files.snapshot, h.files.aof⟩, ?_, ?_⟩
  · rw [hunlogged]
    exact suffix_append_right h.suffix s
  · rw [hunlogged]
    exact h.runs.update s
  · -- the write is still to be appended, so only other keys count
    intro k hk
    rw [hunlogged, onKey_append, List.append_eq_nil_iff] at hk
    have hne : (recordWrite r).key ≠ k := by
      intro heq
      rw [show onKey Stamped.write k [s] = [s] from onKey_cons_self heq] at hk
      exact nomatch hk.2
    show _ = c.contents k
    rw [hc, WriteLog.apply, Function.update_of_ne (Ne.symm hne)]
    exact h.recovers k hk.1

/-- The first write to its key is appended, if the job's snapshot has seen it. -/
theorem Durable.append (h : Durable m n base log) {pre post : List Request} {e : Stamped}
    {seqNum : Int64} (hreqs : n.requests = pre ++ ⟨e, .sending seqNum []⟩ :: post)
    (hfirst : NotOnKeyOf Stamped.write e (unlogged pre)) (hlock : n.job.holdsLock = false)
    (hseen : ∀ t, n.job.stamp? = some t → e ∉ n.updates.drop t) :
    Durable m
      { n with aof := n.aof ++ e.record.encode, requests := pre ++ ⟨e, .logged⟩ :: post }
      base (log ++ [e.record]) := by
  have hold : unlogged n.requests = unlogged pre ++ e :: unlogged post := by
    rw [hreqs]
    exact owing_of_pos rfl
  have hnew : unlogged (pre ++ ⟨e, .logged⟩ :: post) = unlogged pre ++ unlogged post :=
    (owing_of_neg rfl).trans (owing_append _ _ _)
  have hsuffix := h.suffix
  have hruns := h.runs
  rw [hold] at hsuffix hruns
  refine ⟨⟨h.tracks.contents, h.tracks.stamps⟩, h.deadlines, ?_, ⟨h.files.snapshot, ?_⟩, ?_, ?_⟩
  · intro k
    rw [hnew]
    exact (onKey_suffix_of_remove hfirst k).trans (hsuffix k)
  · rw [encodeLog_append, encodeLog_singleton, ← h.files.aof]
  · rw [hnew]
    exact hruns.remove hfirst hlock hseen
  · -- the map recovered is the old one with this write on top
    intro k hk
    rw [hnew, onKey_append, List.append_eq_nil_iff] at hk
    show _ = n.cache.contents k
    rw [List.map_append, applyAll_append]
    by_cases hkey : e.write.key = k
    · -- no other write to the key is left, so this one is the last update
      have hlast : [e] <:+ onKey Stamped.write k n.updates := by
        have hkeyed := hsuffix k
        rw [onKey_append, onKey_cons_self hkey, hk.1, hk.2] at hkeyed
        exact hkeyed
      rw [h.tracks.contents, applyAll_of_last hlast, ← hkey]
      exact Function.update_self ..
    · -- on another key neither the files nor what is still to be appended changes
      have hnone : onKey Stamped.write k (unlogged n.requests) = [] := by
        rw [hold, onKey_append, onKey_cons_of_ne hkey, hk.1, hk.2]
        rfl
      rw [← h.recovers k hnone]
      exact Function.update_of_ne (Ne.symm hkey) _ _

/-- A step that does not concern the cache or the files. -/
theorem Durable.quiet (h : Durable m n base log) (hsame : LogUnchanged n n') :
    Durable m n' base log where
  tracks := ⟨by rw [hsame.cache, hsame.updates]; exact h.tracks.contents,
    by rw [hsame.updates]; exact h.tracks.stamps⟩
  deadlines := by rw [hsame.cache]; exact h.deadlines
  suffix := by rw [hsame.unlogged, hsame.updates]; exact h.suffix
  files := ⟨by rw [hsame.snapshotFile]; exact h.files.snapshot, hsame.aof.trans h.files.aof⟩
  runs := by rw [hsame.job, hsame.updates, hsame.unlogged]; exact h.runs
  recovers := by rw [hsame.unlogged, hsame.cache]; exact h.recovers

/-! ## The background job -/

section Job

variable {kind : JobKind} {t : Nat} {snapshot : List (GoString × SnapshotEntry)} {content : Bytes}

/-- The job goes on, and the files stay. -/
theorem Durable.withJob (h : Durable m n base log) {job : Job}
    (hruns : Runs m base job n.updates (unlogged n.requests)) :
    Durable m { n with job := job } base log :=
  ⟨⟨h.tracks.contents, h.tracks.stamps⟩, h.deadlines, h.suffix, ⟨h.files.snapshot, h.files.aof⟩,
    hruns, h.recovers⟩

/-- The job replaces files, and holds the lock until it reopens the log. -/
theorem Durable.withFiles (h : Durable m n base log) {base' : GoString → Option GoString}
    {log' : List Record} {aof : Bytes} {snapshotFile : Option Bytes} {job : Job}
    (hfiles : Files { n with aof := aof, snapshotFile := snapshotFile, job := job } base' log')
    (hruns : Runs m base' job n.updates (unlogged n.requests))
    (hrecovers : ∀ k, onKey Stamped.write k (unlogged n.requests) = [] →
      applyAll base' (log'.map recordWrite) k = n.cache.contents k) :
    Durable m { n with aof := aof, snapshotFile := snapshotFile, job := job } base' log' :=
  ⟨⟨h.tracks.contents, h.tracks.stamps⟩, h.deadlines, h.suffix, hfiles, hruns, hrecovers⟩

/-- A key without a write still to be appended is as in the job's snapshot. -/
private theorem contents_eq_of_brings (htracks : Tracks m n)
    (hbrings : Brings Stamped.write t n.updates (unlogged n.requests)) {k : GoString}
    (hk : onKey Stamped.write k (unlogged n.requests) = []) :
    n.cache.contents k = applyAll m ((n.updates.take t).map Stamped.write) k := by
  rw [htracks.contents]
  exact hbrings.applyAll_of_onKey_eq_nil hk m

/-- If every key of the snapshot file is in the cache, a rewrite covers them. -/
private theorem dumped_snapshot (h : Durable m n base log) {order : List GoString}
    (horder : n.cache.cache.Enumerates order)
    (hok : n.rewritesKept (.jobSnapshot kind order) = true) :
    Dumped m n.updates base kind n.updates.length (n.cache.cache.snapshot order) where
  alone := by
    funext k
    rw [List.take_length, ← h.tracks.contents, applyAll_snapshot horder, Option.or_none]
  onBase := by
    rintro rfl
    funext k
    rw [List.take_length, ← h.tracks.contents, applyAll_snapshot horder]
    cases hk : n.cache.contents k with
    | some value => rfl
    | none =>
      obtain ⟨ms, hms, hbase⟩ := h.files.snapshot
      simp only [rewritesKept, hms, List.all_eq_true] at hok
      rw [hbase, Option.none_or]
      refine applyAll_of_forall_ne (fun w hw => ?_) _
      obtain ⟨mutation, hmem, rfl⟩ := List.mem_map.mp hw
      rintro rfl
      have hsome : (n.cache.contents mutation.write.key).isSome = true := hok mutation hmem
      rw [hk] at hsome
      exact nomatch hsome

/-- The new snapshot file loads the records of the job's snapshot. -/
private theorem snapshotMutations_entryRecords (snapshot : List (GoString × SnapshotEntry)) :
    ∃ ms, snapshotFileMutations (some (encodeLog (snapshot.map entryRecord))) = .ok ms ∧
      ms.map Mutation.write = (snapshot.map entryRecord).map recordWrite := by
  refine ⟨_, snapshotMutations_encodeLog _, ?_⟩
  have hall : (snapshot.map entryRecord).filter isSetRecord = snapshot.map entryRecord := by
    refine List.filter_eq_self.mpr fun r hr => ?_
    obtain ⟨e, _, rfl⟩ := List.mem_map.mp hr
    rfl
  rw [hall, List.map_map]
  rfl

/-- The temp file holds a record for every entry of the snapshot. -/
theorem Durable.jobWrite (h : Durable m n base log) (hjob : n.job = .snapped kind t snapshot)
    (now : GoString → Time) :
    Durable m { n with job := .written kind t (dump now snapshot) } base log := by
  have hruns := h.runs
  rw [hjob] at hruns
  obtain ⟨hbrings, hdeadlines, hdumped⟩ := hruns
  have hdump : dump now snapshot = encodeLog (snapshot.map entryRecord) := by
    rw [← filterMap_dumpEntry hdeadlines now]
    rfl
  exact h.withJob ⟨hbrings, snapshot, hdump, hdumped⟩

theorem Durable.lock (h : Durable m n base log) (hjob : n.job = .written kind t content) :
    Durable m { n with job := .locked kind t content } base log := by
  have hruns := h.runs
  rw [hjob] at hruns
  exact h.withJob hruns

theorem Durable.renameAOF (h : Durable m n base log)
    (hjob : n.job = .locked .rewriteAOF t content) :
    ∃ log', Durable m { n with aof := content, job := .reopening } base log' := by
  have hruns := h.runs
  rw [hjob] at hruns
  obtain ⟨hbrings, snapshot, rfl, hdumped⟩ := hruns
  refine ⟨snapshot.map entryRecord, h.withFiles ⟨h.files.snapshot, rfl⟩ trivial ?_⟩
  intro k hk
  rw [contents_eq_of_brings h.tracks hbrings hk, hdumped.onBase rfl]

theorem Durable.renameSnapshot (h : Durable m n base log)
    (hjob : n.job = .locked .createSnapshot t content) :
    ∃ base', Durable m { n with snapshotFile := some content, job := .renamed t } base' log := by
  have hruns := h.runs
  rw [hjob] at hruns
  obtain ⟨hbrings, snapshot, rfl, hdumped⟩ := hruns
  obtain ⟨ms, hms, hwrites⟩ := snapshotMutations_entryRecords snapshot
  refine ⟨_, h.withFiles ⟨⟨ms, hms, by rw [hwrites, hdumped.alone]⟩, h.files.aof⟩
    ⟨hbrings, rfl⟩ ?_⟩
  -- the old log on top of the new file: what it leaves under such a key is there already
  intro k hk
  have hcontents := contents_eq_of_brings h.tracks hbrings hk
  rw [hcontents]
  exact applyAll_stable ((h.recovers k hk).trans hcontents)

theorem Durable.truncate (h : Durable m n base log) (hjob : n.job = .renamed t) :
    Durable m { n with aof := [], job := .reopening } base [] := by
  have hruns := h.runs
  rw [hjob] at hruns
  obtain ⟨hbrings, hbase⟩ := hruns
  refine h.withFiles ⟨h.files.snapshot, rfl⟩ trivial fun k hk => ?_
  rw [contents_eq_of_brings h.tracks hbrings hk, ← hbase]
  rfl

end Job

/-- Client writes without TTL and eviction, appended in order and, while a job
    runs, only if its snapshot has seen them, next to jobs that do not bring keys
    of the snapshot file back. -/
def persistsInOrder (n : Node) (a : Action) : Bool :=
  n.plain a && n.appendsInOrder a && n.appendsBefore a && n.rewritesKept a

private theorem notMem_drop_of_appendsBefore (htracks : Tracks m n) {i : Nat}
    {pre post : List Request} {e : Stamped} {phase : Phase}
    (hpick : pick i n.requests = some (pre, ⟨e, phase⟩, post))
    (hok : n.appendsBefore (.append i) = true) :
    ∀ t, n.job.stamp? = some t → e ∉ n.updates.drop t := by
  intro t hstamp
  simp only [appendsBefore, hstamp, hpick, decide_eq_true_eq] at hok
  exact htracks.notMem_drop hok

/-- Every such step keeps the files so that recovery gives the cache. -/
theorem Durable.step (h : Durable m n base log) (hok : n.persistsInOrder a = true)
    (hstep : n.step a = some n') : ∃ base' log', Durable m n' base' log' := by
  simp only [persistsInOrder, Bool.and_eq_true] at hok
  obtain ⟨⟨⟨hplain, horder⟩, hbefore⟩, hkept⟩ := hok
  have htracks := h.tracks.step hplain hstep
  cases effect_of_step hstep with
  | set key value ttl now =>
    simp only [plain, Bool.and_eq_true, decide_eq_true_eq] at hplain
    obtain ⟨rfl, hev⟩ := hplain
    exact ⟨_, _, h.update (WfCache.contents_set _ _ _ _ _ hev) htracks
      (h.deadlines.set key value now)⟩
  | delete key =>
    exact ⟨_, _, h.update (WfCache.contents_delete _ _) htracks (h.deadlines.delete key)⟩
  | append hpick hlock =>
    exact ⟨_, _, h.append (pick_eq_some hpick) (notOnKeyOf_of_inOrder horder hpick) hlock
      (notMem_drop_of_appendsBefore h.tracks hpick hbefore)⟩
  | replicate | send | reply | syncSnapshot | syncEntry | syncEnd | addFollower | heartbeat =>
    exact ⟨_, _, h.quiet (logUnchanged_of_step rfl hstep)⟩
  | jobSnapshot kind hjob henum =>
    -- the snapshot is taken without the lock: writes still to be appended are in it
    exact ⟨_, _, h.withJob ⟨brings_of_suffix h.suffix,
      expiresAt_of_mem_snapshot h.deadlines henum, dumped_snapshot h henum hkept⟩⟩
  | jobWrite now hjob => exact ⟨_, _, h.jobWrite hjob now⟩
  | lock hjob => exact ⟨_, _, h.lock hjob⟩
  | renameAOF hjob => exact ⟨_, h.renameAOF hjob⟩
  | renameSnapshot hjob =>
    obtain ⟨base', h'⟩ := h.renameSnapshot hjob
    exact ⟨base', _, h'⟩
  | truncate hjob => exact ⟨_, _, h.truncate hjob⟩
  | reopen hjob => exact ⟨_, _, h.withJob trivial⟩

/-- Recovery from the files gives the map they hold. -/
theorem Files.recover (h : Files n base log) (clock : Nat → Time) (maxSize : Int) :
    ∃ c : WfCache,
      recoverAOF clock (Cache.new maxSize) n.snapshotFile (some n.aof) = .ok c.cache ∧
      (c.evictions = 0 → c.contents = applyAll base (log.map recordWrite)) := by
  obtain ⟨ms, hms, hbase⟩ := h.snapshot
  have hempty : (WfCache.new maxSize).cache = Cache.new maxSize := rfl
  rw [← hempty, recoverAOF_eq, h.aof, recoveryMutations_encodeLog, hms]
  refine ⟨_, rfl, fun hev => ?_⟩
  rw [WfCache.contents_mutateAll hev, List.map_append, applyAll_append, hbase, List.map_map]
  rfl

/-- All writes to the key have been appended to the log. -/
def allLogged (n : Node) (k : GoString) : Prop :=
  ∀ r ∈ n.requests, r.entry.record.key = k → isUnlogged r.phase = false

theorem onKey_unlogged_of_allLogged {k : GoString} (h : n.allLogged k) :
    onKey Stamped.write k (unlogged n.requests) = [] := by
  refine onKey_eq_nil fun s hs => ?_
  obtain ⟨r, hr, rfl⟩ := List.mem_map.mp hs
  obtain ⟨hmem, howes⟩ := List.mem_filter.mp hr
  rw [Stamped.key_write]
  intro hkey
  rw [h r hmem hkey] at howes
  exact nomatch howes

/-- A node whose cache has been recovered from its files. -/
theorem durable_start {c : WfCache} {snapshotFile : Option Bytes} {clock : Nat → Time}
    {maxSize : Int}
    (hfiles : recoverAOF clock (Cache.new maxSize) snapshotFile (some (encodeLog log)) =
      .ok c.cache)
    (hev : c.evictions = 0) (hdeadlines : c.NoDeadlines) (seqNum : Int64) (followers : List Conn) :
    ∃ base,
      Durable c.contents (start c seqNum followers snapshotFile (encodeLog log)) base log := by
  have hempty : (WfCache.new maxSize).cache = Cache.new maxSize := rfl
  rw [← hempty, recoverAOF_eq, recoveryMutations_encodeLog] at hfiles
  cases hms : snapshotFileMutations snapshotFile with
  | error p =>
    rw [hms] at hfiles
    exact nomatch hfiles
  | ok ms =>
    have hcache : (WfCache.mutateAll clock 0 (WfCache.new maxSize)
        (ms ++ log.map recordMutation)).2.cache = c.cache := by
      rw [hms] at hfiles
      exact Except.ok.inj hfiles
    have hev' : (WfCache.mutateAll clock 0 (WfCache.new maxSize)
        (ms ++ log.map recordMutation)).2.evictions = 0 :=
      (congrArg (fun c => c.metrics.evictionsTotal) hcache).trans hev
    refine ⟨_, tracks_start .., hdeadlines, fun k => List.suffix_refl _, ⟨⟨ms, hms, rfl⟩, rfl⟩,
      trivial, fun k _ => ?_⟩
    show _ = c.cache.contents k
    rw [← hcache]
    show _ = (WfCache.mutateAll clock 0 (WfCache.new maxSize) _).2.contents k
    rw [WfCache.contents_mutateAll hev', List.map_append, applyAll_append, List.map_map]
    rfl

end Node

open Node

/-- A node starts with the cache recovered from its files. If all appends keep
    the order of the cache key by key, no write that came after the snapshot of
    a running job is appended before the job has replaced the files, and no
    rewrite starts while a key of the snapshot file is gone from the cache, then
    recovery from the files gives the value of the cache for every key whose
    writes have all been appended, at whatever point the node stops. -/
theorem recovers_acknowledged (c : WfCache) (snapshotFile : Option Bytes) (log : List Record)
    (startClock : Nat → Time) (startMaxSize : Int)
    (hfiles : recoverAOF startClock (Cache.new startMaxSize) snapshotFile
      (some (encodeLog log)) = .ok c.cache)
    (hev : c.evictions = 0) (hdeadlines : c.NoDeadlines) (seqNum : Int64) (followers : List Conn)
    {n : Node}
    (hrun : Reaches Node.step (fun n a => n.persistsInOrder a = true)
      (start c seqNum followers snapshotFile (encodeLog log)) n)
    (clock : Nat → Time) (maxSize : Int) :
    ∃ c' : Cache, recoverAOF clock (Cache.new maxSize) n.snapshotFile (some n.aof) = .ok c' ∧
      (c'.metrics.evictionsTotal = 0 → ∀ k, n.allLogged k →
        c'.contents k = n.cache.cache.contents k) := by
  have hdurable : ∃ base log, Durable c.contents n base log := by
    apply hrun.invariant
    · obtain ⟨base, hstart⟩ := durable_start hfiles hev hdeadlines seqNum followers
      exact ⟨base, log, hstart⟩
    · rintro n a n' ⟨base, log, h⟩ hok hstep
      exact h.step hok hstep
  obtain ⟨base, log, h⟩ := hdurable
  obtain ⟨c', hc', hcontents⟩ := h.files.recover clock maxSize
  refine ⟨c'.cache, hc', fun hev k hk => ?_⟩
  calc c'.contents k = applyAll base (log.map recordWrite) k := congrFun (hcontents hev) k
    _ = n.cache.contents k := h.recovers k (onKey_unlogged_of_allLogged hk)

/-- A write that the snapshot has seen is appended while the job runs, a later
    one after it; both are recovered. -/
theorem recovers_acknowledged_around_job :
    ∃ n c, Reaches Node.step (fun n a => n.persistsInOrder a = true)
        (start (WfCache.new 10) 0 [] none []) n ∧
      recoverAOF (fun _ => 0) (Cache.new 10) n.snapshotFile (some n.aof) = .ok c ∧
      c.contents (lit "a") = some (lit "1") ∧
      c.contents (lit "b") = n.cache.cache.contents (lit "b") := by
  have hrun : (runAll Node.step (fun n a => n.persistsInOrder a = true)
      (start (WfCache.new 10) 0 [] none [])
      [.set (lit "a") (lit "1") 0 0, .replicate 0, .jobSnapshot .createSnapshot [lit "a"],
        .append 0, .set (lit "b") (lit "2") 0 0, .reply 0, .jobWrite fun _ => 0, .jobNext, .jobNext,
        .jobNext, .jobNext, .replicate 0, .append 0, .reply 0]).any
        (recoversTo Node.snapshotFile (lit "a") (some (lit "1")) (some (lit "1"))) = true := by
    decide +kernel
  obtain ⟨n, _, hreach, hrecovers⟩ := exists_reaches_of_any hrun
  obtain ⟨c, hdone, hc, hev, _, hval⟩ := of_recoversTo hrecovers
  have hdeadlines : (WfCache.new 10).NoDeadlines := fun k e he => nomatch he
  obtain ⟨c', hc', hcontents⟩ := recovers_acknowledged (WfCache.new 10) none [] (fun _ => 0) 10 rfl
    rfl hdeadlines 0 [] hreach (fun _ => 0) 10
  obtain rfl : c = c' := Except.ok.inj (hc.symm.trans hc')
  have hlogged : n.allLogged (lit "b") := by
    intro r hr
    rw [hdone] at hr
    exact nomatch hr
  exact ⟨n, c, hreach, hc, hval, hcontents hev _ hlogged⟩

/-- A write that is updated, appended and acknowledged between the snapshot of a
    job and the swap of the files. -/
def writeDuring (kind : JobKind) : List Action :=
  [.jobSnapshot kind [], .set (lit "k") (lit "v") 0 0, .replicate 0, .append 0, .reply 0,
    .jobWrite fun _ => 0] ++
    match kind with
    | .rewriteAOF => [.jobNext, .jobNext, .jobNext]
    | .createSnapshot => [.jobNext, .jobNext, .jobNext, .jobNext]

/-- All requests are finished and the cache holds the write, but recovery from the
    files does not give it, although it evicts nothing. -/
def LosesWrite (kind : JobKind) : Prop :=
  ∃ n c,
    runAll Node.step (fun n a => (n.plain a && n.appendsInOrder a && n.rewritesKept a) = true)
      (start (WfCache.new 10) 0 [] none []) (writeDuring kind) = some n ∧
    n.requests = [] ∧
    recoverAOF (fun _ => 0) (Cache.new 10) n.snapshotFile (some n.aof) = .ok c ∧
    c.metrics.evictionsTotal = 0 ∧
    n.cache.cache.contents (lit "k") = some (lit "v") ∧
    c.contents (lit "k") = none

private theorem losesWrite_of_any {kind : JobKind}
    (hrun : (runAll Node.step
      (fun n a => (n.plain a && n.appendsInOrder a && n.rewritesKept a) = true)
      (start (WfCache.new 10) 0 [] none []) (writeDuring kind)).any
        (recoversTo Node.snapshotFile (lit "k") (some (lit "v")) none) = true) :
    LosesWrite kind := by
  obtain ⟨n, hn, _, hrecovers⟩ := exists_reaches_of_any hrun
  obtain ⟨c, hobs⟩ := of_recoversTo hrecovers
  exact ⟨n, c, hn, hobs⟩

/-- Either job loses such a write. -/
theorem job_loses_write : LosesWrite .rewriteAOF ∧ LosesWrite .createSnapshot :=
  ⟨losesWrite_of_any (by decide +kernel), losesWrite_of_any (by decide +kernel)⟩

end GoCache.Spec
