import GoCache.Spec.EvictedRecovery
import GoCache.Spec.Node
import GoCache.Spec.Stream

/-!
# Durability across a promotion

A follower applies what its leader sends to its cache, and to nothing else. When it is
promoted it goes on with the AOF it has, which knows nothing of the keys that came by
replication. They are recovered only if a client writes them again.

## Key results

- `contents_askAll`: without an eviction, requests are writes to a map
- `evictions_replay`: the replay of their records evicts nothing then either
- `promoted_durable_iff`: when a promoted follower can be recovered
-/

namespace GoCache.Spec

open GoCache.Native Recency WriteLog

/-! ## The time as a follower -/

/-- A connection to the leader: the initial snapshot, and the stream behind it. -/
structure SyncSession where
  sync : List Message
  seqNum : Int64
  stream : List Message

/-- What the leader sends. -/
def SyncSession.bytes (session : SyncSession) : Bytes :=
  session.sync.flatMap Message.encode ++
    (encodeSyncEnd session.seqNum ++ session.stream.flatMap Message.encode)

/-- The follower after one connection after the other. -/
def followAll (clock : Nat → Time) (f : Follower) : List SyncSession → Except Panic Follower
  | [] => .ok f
  | session :: sessions => do
    let ((f, _), _) ← f.follow clock session.bytes
    followAll clock f sessions

namespace WfFollower

variable {clock : Nat → Time}

/-- The follower after a connection. -/
def attend (clock : Nat → Time) (f : WfFollower) (session : SyncSession) : WfFollower :=
  ((f.receiveAll clock session.sync).seen session.seqNum).receiveAll clock session.stream

theorem capacity_attend (f : WfFollower) (session : SyncSession) :
    (f.attend clock session).cache.capacity = f.cache.capacity := by
  rw [attend, cache_receiveAll, WfCache.capacity_mutateAll, cache_seen, cache_receiveAll,
    WfCache.capacity_mutateAll]

theorem evictions_le_attend (f : WfFollower) (session : SyncSession) :
    f.cache.evictions ≤ (f.attend clock session).cache.evictions := by
  have hsync := f.evictions_le_receiveAll clock session.sync
  have hstream := ((f.receiveAll clock session.sync).seen session.seqNum).evictions_le_receiveAll
    clock session.stream
  rw [cache_seen] at hstream
  exact hsync.trans hstream

end WfFollower

/-- A follower gets to the end of its connections. -/
theorem followAll_sessions (clock : Nat → Time) (f : WfFollower) (sessions : List SyncSession) :
    ∃ f' : WfFollower, followAll clock f.follower sessions = .ok f'.follower ∧
      f'.cache.capacity = f.cache.capacity ∧ f.cache.evictions ≤ f'.cache.evictions := by
  induction sessions generalizing f with
  | nil => exact ⟨f, rfl, rfl, le_rfl⟩
  | cons session sessions ih =>
    obtain ⟨f', hrest, hcap, hev⟩ := ih (f.attend clock session)
    have hfollow : f.follower.follow clock session.bytes =
        .ok (((f.attend clock session).follower, some (.parse .eof)), []) :=
      f.follow_messages session.sync session.stream session.seqNum
    refine ⟨f', ?_, hcap.trans (f.capacity_attend session),
      (f.evictions_le_attend session).trans hev⟩
    show (f.follower.follow clock session.bytes >>= fun r => followAll clock r.1.1 sessions) = _
    rw [hfollow]
    exact hrest

/-! ## The time as a leader -/

/-- The request is a `SET` or a `DEL`. -/
def Ask.Writes : Ask → Prop
  | .set .. | .del _ => True
  | .get _ | .dbSize => False

namespace WfCache

variable (c : WfCache) (now : Time) (a : Ask)

theorem evictions_le_ask : c.evictions ≤ (c.ask now a).evictions := by
  cases a with
  | set key value rest => exact c.evictions_le_set ..
  | get key => exact (c.evictions_get key now).ge
  | del key => exact (c.evictions_delete key).ge
  | dbSize => exact le_rfl

theorem evictions_le_askAll (asks : List (Ask × Time)) :
    c.evictions ≤ (c.askAll asks).evictions := by
  induction asks generalizing c with
  | nil => exact le_rfl
  | cons a asks ih => exact (c.evictions_le_ask a.2 a.1).trans (ih _)

/-- If a sequence of requests evicts nothing, neither do its first and the others. -/
theorem evictions_askAll_cons {c : WfCache} {a : Ask × Time} {asks : List (Ask × Time)}
    (h : (c.askAll (a :: asks)).evictions = c.evictions) :
    (c.ask a.2 a.1).evictions = c.evictions ∧
      ((c.ask a.2 a.1).askAll asks).evictions = (c.ask a.2 a.1).evictions := by
  have hone := c.evictions_le_ask a.2 a.1
  have hrest := (c.ask a.2 a.1).evictions_le_askAll asks
  have h : ((c.ask a.2 a.1).askAll asks).evictions = c.evictions := h
  omega

/-- Without an eviction, requests are writes to a map. -/
theorem contents_askAll {c : WfCache} {asks : List (Ask × Time)}
    (hwrites : ∀ a ∈ asks, a.1.Writes) (hev : (c.askAll asks).evictions = c.evictions) :
    (c.askAll asks).contents = applyAll c.contents ((recordsOf asks).map recordWrite) := by
  induction asks generalizing c with
  | nil => rfl
  | cons a asks ih =>
    obtain ⟨hone, hrest⟩ := evictions_askAll_cons hev
    have htail := ih (fun b hb => hwrites b (List.mem_cons_of_mem _ hb)) hrest
    obtain ⟨a, now⟩ := a
    refine htail.trans ?_
    cases a with
    | set key value rest =>
      have hset : (c.ask now (.set key value rest)).contents = _ :=
        c.contents_set key value _ now hone
      rw [hset]
      rfl
    | del key =>
      have hdelete : (c.ask now (.del key)).contents = _ := c.contents_delete key
      rw [hdelete]
      rfl
    | get key | dbSize => exact (hwrites _ List.mem_cons_self).elim

/-- Every key of the cache is a key of the other one. -/
def Within (d c : WfCache) : Prop := ∀ k, c.item? k = none → d.item? k = none

theorem Within.keys_subset {c d : WfCache} (h : Within d c) :
    keys d.entries ⊆ keys c.entries := by
  intro k hk
  by_contra hnot
  exact find?_eq_none_iff.mp (h k (find?_eq_none_iff.mpr hnot)) hk

section Within

variable {c d : WfCache} {key value : GoString} {ttl : Duration} {now : Time}

/-- A `SET` that does not evict in a cache does not evict in one that holds less. -/
theorem Within.evictions_set (h : Within d c) (hcap : d.capacity = c.capacity)
    (hev : (c.set key value ttl now).evictions = c.evictions) (value' : GoString)
    (ttl' : Duration) (now' : Time) : (d.set key value' ttl' now').evictions = d.evictions := by
  rw [WfCache.evictions_set] at hev ⊢
  rw [if_pos, Nat.add_zero]
  by_contra hfull
  rw [not_or, Nat.not_lt] at hfull
  have hnodup : (key :: keys d.entries).Nodup := List.nodup_cons.mpr ⟨hfull.1, d.nodup_entries⟩
  have hle := c.length_entries_le
  have hsub := (d.nodup_entries.subperm h.keys_subset).length_le
  rw [length_keys, length_keys] at hsub
  -- the larger cache is full as well, so it holds the key
  split at hev
  · next hroom =>
    have hmem : key ∈ keys c.entries := hroom.resolve_right (by omega)
    have hlen := (hnodup.subperm (List.cons_subset.mpr ⟨hmem, h.keys_subset⟩)).length_le
    rw [List.length_cons, length_keys, length_keys] at hlen
    omega
  · omega

private theorem update_eq_none {m m' : GoString → Option SnapshotEntry}
    (h : ∀ k, m k = none → m' k = none) {v v' : Option SnapshotEntry} (hv : v = none → v' = none)
    (k : GoString) (hk : Function.update m key v k = none) :
    Function.update m' key v' k = none := by
  by_cases heq : k = key
  · rw [heq, Function.update_self] at hk ⊢
    exact hv hk
  · rw [Function.update_of_ne heq] at hk ⊢
    exact h k hk

theorem Within.set (h : Within d c) (hcap : d.capacity = c.capacity)
    (hev : (c.set key value ttl now).evictions = c.evictions) (value' : GoString)
    (ttl' : Duration) (now' : Time) :
    Within (d.set key value' ttl' now') (c.set key value ttl now) := by
  unfold Within
  rw [c.item?_set _ _ _ _ hev, d.item?_set _ _ _ _ (h.evictions_set hcap hev ..)]
  exact update_eq_none h fun hsome => absurd hsome (Option.some_ne_none _)

theorem Within.delete (h : Within d c) (key : GoString) :
    Within (d.delete key) (c.delete key) := by
  unfold Within
  rw [c.item?_delete, d.item?_delete]
  exact update_eq_none h fun _ => rfl

end Within

/-- What the replay of the records does to a cache that holds less than the leader's: if
    the requests evict nothing, neither does the replay. -/
theorem evictions_replay {c d : WfCache} {asks : List (Ask × Time)} (h : Within d c)
    (hcap : d.capacity = c.capacity) (hwrites : ∀ a ∈ asks, a.1.Writes)
    (hev : (c.askAll asks).evictions = c.evictions) (clock : Nat → Time) (i : Nat) :
    (mutateAll clock i d ((recordsOf asks).map recordMutation)).2.evictions = d.evictions := by
  induction asks generalizing c d i with
  | nil => rfl
  | cons a asks ih =>
    obtain ⟨hone, hrest⟩ := evictions_askAll_cons hev
    have htail : ∀ b ∈ asks, b.1.Writes := fun b hb => hwrites b (List.mem_cons_of_mem _ hb)
    obtain ⟨a, now⟩ := a
    cases a with
    | set key value rest =>
      have hset := h.evictions_set hcap hone value
        (((ttlArgument rest).getD 0).seconds * second) (clock i)
      have hwithin := h.set hcap hone value (((ttlArgument rest).getD 0).seconds * second) (clock i)
      have hcap' : (d.set key value (((ttlArgument rest).getD 0).seconds * second)
          (clock i)).capacity = (c.ask now (.set key value rest)).capacity := by
        rw [capacity_ask, capacity_set, hcap]
      exact (ih hwithin hcap' htail hrest (i + 1)).trans hset
    | del key =>
      have hcap' : (d.delete key).capacity = (c.ask now (.del key)).capacity := by
        rw [capacity_ask, capacity_delete, hcap]
      exact (ih (h.delete key) hcap' htail hrest i).trans (evictions_delete d key)
    | get key | dbSize => exact (hwrites _ List.mem_cons_self).elim

end WfCache

/-! ## Promotion -/

/-- A node starts empty, receives what its leaders send, is promoted and then answers
    `SET` and `DEL` requests. If no key has been evicted and no append has started a
    rewrite, its AOF recovers the map it holds exactly if clients have written every key it
    held when it was promoted. -/
theorem promoted_durable_iff (other : OtherHandlers) (clock : Nat → Time) (maxSize : Int)
    (s : Server) (haof : s.aof = [])
    (sessions : List SyncSession) (asks : List (Ask × Time)) (hwrites : ∀ a ∈ asks, a.1.Writes)
    (hvalid : ∀ a ∈ asks, a.1.Valid)
    (hhere : ∀ a ∈ asks, movedTo s (.str a.1.name) a.1.key = none) :
    ∃ f out s', followAll clock ⟨Cache.new maxSize, 0, 0⟩ sessions = .ok f ∧
      handleConnection other (s.promote f) .new (sent asks) = .ok (out, s', .new) ∧
      (s'.cache.metrics.evictionsTotal = 0 → ∀ file, s'.aofFile = some file → ∀ clock', ∃ c,
        recoverAOF clock' (Cache.new maxSize) none (some file) = .ok c ∧
        (c.contents = s'.cache.contents ↔
          ∀ k, f.cache.contents k ≠ none → ∃ r ∈ recordsOf asks, r.key = k)) := by
  obtain ⟨f, hfollow, hcap, _⟩ := followAll_sessions clock ⟨.new maxSize, 0, 0⟩ sessions
  have hanswers : Answers (s.promote f.follower) asks := ⟨rfl, hvalid, hhere⟩
  have hrun := handleConnection_asks other immediate_new (c := f.cache) rfl hanswers
  refine ⟨f.follower, _, _, hfollow, hrun, ?_⟩
  rw [cache_logAll]
  intro hzero file hfile clock'
  have hlog : file = encodeLog (recordsOf asks) := by
    rw [← aof_of_aofFile hfile, aof_logAll]
    show s.aof ++ _ = _
    rw [haof, List.nil_append]
  rw [hlog]
  refine ⟨_, recoverAOF_recordsOf clock' maxSize asks, ?_⟩
  -- nothing has been evicted before or after the promotion, nor is it by the replay
  have hev : (f.cache.askAll asks).evictions = f.cache.evictions := by
    have hle := f.cache.evictions_le_askAll asks
    have hzero : (f.cache.askAll asks).evictions = 0 := hzero
    omega
  have hwithin : (WfCache.new maxSize).Within f.cache := by
    intro k _
    show find? k (WfCache.new maxSize).entries = none
    rw [WfCache.entries_new]
    rfl
  have hreplay := WfCache.evictions_replay hwithin hcap.symm hwrites hev clock' 0
  have hrecovered : (replayed clock' maxSize asks).contents =
      applyAll (fun _ => none) ((recordsOf asks).map recordWrite) := by
    rw [replayed, WfCache.contents_mutateAll hreplay, WfCache.contents_new, List.map_map]
    rfl
  have hheld := WfCache.contents_askAll hwrites hev
  show (replayed clock' maxSize asks).contents = (f.cache.askAll asks).contents ↔ _
  rw [hrecovered, hheld, applyAll_eq_iff]
  have hwritten (k : GoString) : (∃ w ∈ (recordsOf asks).map recordWrite, w.key = k) ↔
      ∃ r ∈ recordsOf asks, r.key = k := by
    simp only [List.mem_map, exists_exists_and_eq_and, key_recordWrite]
  exact forall_congr' fun k => imp_congr ne_comm (hwritten k)

/-- A leader sends one `SET`, in its stream. -/
def oneReplicated : List SyncSession := [⟨[], 0, [.replicate 1 (.set (lit "a") (lit "1") 0)]⟩]

/-- A client writes the key again: it is recovered. -/
theorem promoted_durable_iff_written_again :
    ∃ f out s' file c, followAll (fun _ => 1) ⟨Cache.new 2, 0, 0⟩ oneReplicated = .ok f ∧
      handleConnection noOther (leaderOfTwo.promote f) .new
        (sent [(.set (lit "a") (lit "2") [], 2)]) = .ok (out, s', .new) ∧
      s'.aofFile = some file ∧
      recoverAOF (fun _ => 3) (Cache.new 2) none (some file) = .ok c ∧
      f.cache.data.keys = {lit "a"} ∧ c.contents = s'.cache.contents := by
  have hcheck : ((followAll (fun _ => 1) ⟨Cache.new 2, 0, 0⟩ oneReplicated) >>= fun f =>
      (handleConnection noOther (leaderOfTwo.promote f) .new
        (sent [(.set (lit "a") (lit "2") [], 2)])).map fun r =>
          (f.cache.data.keys, r.2.1.cache.metrics.evictionsTotal, r.2.1.aofFile.isSome)) =
      .ok ({lit "a"}, 0, true) := by
    decide +kernel
  obtain ⟨f, out, s', hf, hrun, h⟩ := promoted_durable_iff noOther (fun _ => 1) 2 leaderOfTwo rfl
    oneReplicated [(.set (lit "a") (lit "2") [], 2)] (by simp [Ask.Writes])
    (by simp only [List.mem_singleton, forall_eq]; exact ⟨by decide, by decide⟩)
    (by simp only [List.mem_singleton, forall_eq]; exact movedTo_eq_none ⟨rfl, rfl⟩ _ _)
  rw [hf] at hcheck
  change ((handleConnection ..).map _) = _ at hcheck
  rw [hrun] at hcheck
  obtain ⟨hkeys, hzero, hsome⟩ := by simpa only [Prod.mk.injEq] using Except.ok.inj hcheck
  obtain ⟨file, hfile⟩ := Option.isSome_iff_exists.mp hsome
  obtain ⟨c, hc, hiff⟩ := h hzero file hfile fun _ => 3
  refine ⟨f, out, s', file, c, hf, hrun, hfile, hc, hkeys, hiff.mpr fun k hk => ?_⟩
  have hmem : k ∈ f.cache.data.keys := by
    rw [Finmap.mem_keys, ← Finmap.lookup_isSome, Option.isSome_iff_ne_none]
    exact fun hnone => hk (by rw [Cache.contents, hnone]; rfl)
  rw [hkeys, Finset.mem_singleton] at hmem
  exact ⟨_, List.mem_singleton_self _, hmem.symm⟩

/-- A client writes another key: the replicated one is gone after a restart. -/
theorem promoted_not_durable :
    ∃ f out s' file c, followAll (fun _ => 1) ⟨Cache.new 2, 0, 0⟩ oneReplicated = .ok f ∧
      handleConnection noOther (leaderOfTwo.promote f) .new
        (sent [(.set (lit "b") (lit "2") [], 2)]) = .ok (out, s', .new) ∧
      s'.cache.metrics.evictionsTotal = 0 ∧ s'.aofFile = some file ∧
      recoverAOF (fun _ => 3) (Cache.new 2) none (some file) = .ok c ∧
      s'.cache.contents (lit "a") = some (lit "1") ∧ c.contents (lit "a") = none := by
  have hcheck : ((followAll (fun _ => 1) ⟨Cache.new 2, 0, 0⟩ oneReplicated) >>= fun f =>
      handleConnection noOther (leaderOfTwo.promote f) .new
        (sent [(.set (lit "b") (lit "2") [], 2)]) >>= fun r =>
          (recoverAOF (fun _ => 3) (Cache.new 2) none r.2.1.aofFile).map fun c =>
            (r.2.1.cache.metrics.evictionsTotal, r.2.1.aofFile.isSome,
              r.2.1.cache.contents (lit "a"), c.contents (lit "a"))) =
      .ok (0, true, some (lit "1"), none) := by
    decide +kernel
  obtain ⟨f, hf, _⟩ := followAll_sessions (fun _ => 1) ⟨.new 2, 0, 0⟩ oneReplicated
  have hanswers : Answers (leaderOfTwo.promote f.follower) [(.set (lit "b") (lit "2") [], 2)] := by
    refine ⟨rfl, ?_, fun a _ => movedTo_eq_none ⟨rfl, rfl⟩ _ _⟩
    simp only [List.mem_singleton, forall_eq]
    exact ⟨by decide, by decide⟩
  obtain ⟨out, s', hrun⟩ := exists_ran noOther (c := f.cache) rfl hanswers
  obtain ⟨f', hf', hcheck⟩ := bind_eq_ok.mp hcheck
  obtain rfl := Except.ok.inj (hf.symm.trans hf')
  obtain ⟨r, hr, hcheck⟩ := bind_eq_ok.mp hcheck
  obtain rfl := Except.ok.inj (hrun.symm.trans hr)
  obtain ⟨c, hc, hvalues⟩ := map_eq_ok.mp hcheck
  obtain ⟨hzero, hsome, hheld, hlost⟩ := by simpa only [Prod.mk.injEq] using hvalues
  obtain ⟨file, hfile⟩ := Option.isSome_iff_exists.mp hsome
  exact ⟨f.follower, out, s', file, c, hf, hrun, hzero, hfile, hfile ▸ hc, hheld, hlost⟩

end GoCache.Spec
