import GoCache.Spec.Node

/-!
# The order of the log

The cache update of a write and its append to the AOF are two critical
sections, so two writes to one key can reach the log in the other order. As
long as the appends keep the order of the cache key by key, the log and the
writes still to be appended are, key by key, the updates of the cache.

## Key results

- `LogOrder.step`: appends in order keep the log in step with the cache
- `replay_of_appendsInOrder`: replaying the log gives the map of the cache
-/

namespace GoCache.Spec

open GoCache.Native Transition WriteLog

namespace Node

/-- The request has not been appended to the log. -/
def isUnlogged : Phase → Bool
  | .replicate | .sending .. => true
  | .logged => false

/-- The writes still to be appended. -/
abbrev unlogged (rs : List Request) : List Stamped := owing isUnlogged rs

/-- The step does not concern the cache or the files. -/
def isQuiet : Action → Bool
  | .set .. | .delete _ | .append _ | .jobSnapshot .. | .jobWrite _ | .jobNext => false
  | _ => true

/-- The cache, the files and what is still to be appended are as before. -/
structure LogUnchanged (n n' : Node) : Prop where
  cache : n'.cache = n.cache
  updates : n'.updates = n.updates
  aof : n'.aof = n.aof
  snapshotFile : n'.snapshotFile = n.snapshotFile
  job : n'.job = n.job
  unlogged : unlogged n'.requests = unlogged n.requests

variable {n n' : Node} {a : Action}

theorem logUnchanged_of_step (hquiet : isQuiet a = true) (hstep : n.step a = some n') :
    LogUnchanged n n' := by
  cases effect_of_step hstep with
  | set | delete | append => exact nomatch hquiet
  | replicate hpick | send hpick =>
    -- the request goes on, and is still to be appended
    refine ⟨rfl, rfl, rfl, rfl, rfl, ?_⟩
    rw [pick_eq_some hpick]
    exact owing_of_same rfl
  | reply hpick =>
    refine ⟨rfl, rfl, rfl, rfl, rfl, ?_⟩
    rw [pick_eq_some hpick]
    exact (owing_of_neg rfl).symm
  | jobSnapshot | jobWrite | lock | renameAOF | renameSnapshot | truncate | reopen =>
    exact nomatch hquiet
  | syncSnapshot | syncEntry | syncEnd | addFollower | heartbeat =>
    exact ⟨rfl, rfl, rfl, rfl, rfl, rfl⟩

/-- The oldest write on its key is appended first. -/
def appendsInOrder (n : Node) : Action → Bool
  | .append i => n.inOrder isUnlogged i
  | _ => true

/-- The log holds `logged`, and with the writes still to be appended these are,
    key by key, the updates of the cache. -/
structure LogOrder (n : Node) (logged : List Stamped) : Prop where
  aof : n.aof = encodeLog (logged.map Stamped.record)
  order : SameByKey Stamped.write (logged ++ unlogged n.requests) n.updates

variable {logged : List Stamped}

theorem encodeLog_append (rs rs' : List Record) :
    encodeLog (rs ++ rs') = encodeLog rs ++ encodeLog rs' := List.flatMap_append

theorem encodeLog_singleton (r : Record) : encodeLog [r] = r.encode := List.flatMap_singleton _ _

private theorem LogOrder.update (h : LogOrder n logged) (c : WfCache) (r : Record) :
    LogOrder (n.update c r) logged where
  aof := h.aof
  order := by
    show SameByKey _ (logged ++ unlogged (n.requests ++ [⟨⟨n.updates.length, r⟩, .replicate⟩])) _
    rw [unlogged, owing_append, ← List.append_assoc]
    exact h.order.append_right _

/-- The first write to its key among those still to be appended is appended. -/
private theorem LogOrder.append (h : LogOrder n logged) {pre post : List Request} {e : Stamped}
    {seqNum : Int64} (hreqs : n.requests = pre ++ ⟨e, .sending seqNum []⟩ :: post)
    (hfirst : NotOnKeyOf Stamped.write e (unlogged pre)) :
    LogOrder { n with aof := n.aof ++ e.record.encode, requests := pre ++ ⟨e, .logged⟩ :: post }
      (logged ++ [e]) where
  aof := by
    rw [List.map_append, encodeLog_append, ← h.aof]
    exact congrArg _ (encodeLog_singleton _).symm
  order := by
    have horder := h.order
    rw [hreqs, unlogged, owing_of_pos (show isUnlogged (.sending _ _) = true from rfl)] at horder
    show SameByKey _ (logged ++ [e] ++ unlogged (pre ++ ⟨e, .logged⟩ :: post)) _
    rw [unlogged, owing_of_neg (show isUnlogged .logged = false from rfl), owing_append]
    exact horder.emit hfirst

/-- Without a background job, a step keeps the log in step with the cache if its
    appends are in order. -/
theorem LogOrder.step (h : LogOrder n logged) (hjob : a.isJob = false)
    (hok : n.appendsInOrder a = true) (hstep : n.step a = some n') :
    ∃ logged', LogOrder n' logged' := by
  cases effect_of_step hstep with
  | set key value ttl now | delete key => exact ⟨_, h.update _ _⟩
  | append hpick hlock =>
    exact ⟨_, h.append (pick_eq_some hpick) (notOnKeyOf_of_inOrder hok hpick)⟩
  | replicate | send | reply =>
    have hsame := logUnchanged_of_step rfl hstep
    exact ⟨logged, hsame.aof.trans h.aof, by rw [hsame.unlogged]; exact h.order⟩
  | jobSnapshot | jobWrite | lock | renameAOF | renameSnapshot | truncate | reopen =>
    exact nomatch hjob
  | syncSnapshot | syncEntry | syncEnd | addFollower | heartbeat =>
    exact ⟨logged, h.aof, h.order⟩

/-- The steps of client writes without TTL and eviction, and of followers. -/
def clientSteps (n : Node) (a : Action) : Bool := n.plain a && !a.isJob

/-- Such steps, with the appends in order. -/
def loggedInOrder (n : Node) (a : Action) : Bool := n.clientSteps a && n.appendsInOrder a

end Node

open Node

/-- If all appends keep the order of the cache key by key, then once all
    requests have completed, replaying the log from an empty cache gives the map
    of the leader. -/
theorem replay_of_appendsInOrder (maxSize replayMaxSize : Int) (seqNum : Int64)
    (followers : List Conn) (snapshotFile : Option Bytes) (clock : Nat → Time) {n : Node}
    (hrun : Reaches Node.step (fun n a => n.loggedInOrder a = true)
      (start (WfCache.new maxSize) seqNum followers snapshotFile []) n)
    (hdone : n.requests = []) :
    ∃ c, recoverAOF clock (Cache.new replayMaxSize) none (some n.aof) = .ok c ∧
      (c.metrics.evictionsTotal = 0 → c.contents = n.cache.cache.contents) := by
  have htracks : Tracks (WfCache.new maxSize).contents n := by
    apply hrun.invariant (tracks_start ..)
    intro n a n' htracks hok hstep
    simp only [loggedInOrder, clientSteps, Bool.and_eq_true] at hok
    exact htracks.step hok.1.1 hstep
  have hlog : ∃ logged, LogOrder n logged := by
    apply hrun.invariant ⟨[], rfl, fun _ => rfl⟩
    rintro n a n' ⟨logged, hlog⟩ hok hstep
    simp only [loggedInOrder, clientSteps, Bool.and_eq_true, Bool.not_eq_true'] at hok
    exact hlog.step hok.1.2 hok.2 hstep
  -- with no request open, the log has all the updates, in an order alike on every key
  obtain ⟨logged, hlog⟩ := hlog
  have horder := hlog.order
  rw [hdone, unlogged, owing, List.filter_nil, List.map_nil, List.append_nil] at horder
  have hempty : (WfCache.new replayMaxSize).cache = Cache.new replayMaxSize := rfl
  rw [← hempty, recoverAOF_eq, hlog.aof, recoveryMutations_encodeLog]
  refine ⟨_, rfl, fun hev => ?_⟩
  show (WfCache.mutateAll clock 0 (WfCache.new replayMaxSize) _).2.contents = n.cache.contents
  rw [WfCache.contents_mutateAll hev, htracks.contents, ← horder.applyAll_eq]
  show applyAll (WfCache.new maxSize).contents
    (List.map Mutation.write (List.map recordMutation (logged.map Stamped.record))) = _
  rw [List.map_map, List.map_map]
  rfl

/-- No request is open, a key has one value in the cache, and another one after a
    recovery from a snapshot file and the log that evicts nothing. -/
def recoversTo (snapshotFile : Node → Option Bytes) (k : GoString)
    (cached recovered : Option GoString) (n : Node) : Bool :=
  match recoverAOF (fun _ => 0) (Cache.new 10) (snapshotFile n) (some n.aof) with
  | .ok c =>
    n.requests.isEmpty && c.metrics.evictionsTotal = 0 &&
      n.cache.cache.contents k = cached && c.contents k = recovered
  | .error _ => false

theorem of_recoversTo {snapshotFile : Node → Option Bytes} {k : GoString}
    {cached recovered : Option GoString} {n : Node}
    (h : recoversTo snapshotFile k cached recovered n = true) :
    ∃ c, n.requests = [] ∧
      recoverAOF (fun _ => 0) (Cache.new 10) (snapshotFile n) (some n.aof) = .ok c ∧
      c.metrics.evictionsTotal = 0 ∧ n.cache.cache.contents k = cached ∧
      c.contents k = recovered := by
  unfold recoversTo at h
  split at h
  · next c hc =>
    simp only [Bool.and_eq_true, List.isEmpty_iff, decide_eq_true_eq] at h
    exact ⟨c, h.1.1.1, hc, h.1.1.2, h.1.2, h.2⟩
  · exact nomatch h

/-- Two writes, of which the second is appended first. -/
private def overtakingAppends (key key' : GoString) : List Action :=
  [.set key (lit "1") 0 0, .set key' (lit "2") 0 0, .replicate 0, .replicate 1,
    .append 1, .append 0, .reply 0, .reply 0]

/-- Writes to two keys are appended in the other order, and the log is still
    replayed to the map of the cache. -/
theorem replay_of_appendsInOrder_two_keys :
    ∃ n c, Reaches Node.step (fun n a => n.loggedInOrder a = true)
        (start (WfCache.new 10) 0 [] none []) n ∧
      n.requests = [] ∧
      recoverAOF (fun _ => 0) (Cache.new 10) none (some n.aof) = .ok c ∧
      c.contents (lit "a") = some (lit "1") ∧ c.contents = n.cache.cache.contents := by
  have hrun : (runAll Node.step (fun n a => n.loggedInOrder a = true)
      (start (WfCache.new 10) 0 [] none []) (overtakingAppends (lit "a") (lit "b"))).any
        (recoversTo (fun _ => none) (lit "a") (some (lit "1")) (some (lit "1"))) = true := by
    decide +kernel
  obtain ⟨n, _, hreach, hrecovers⟩ := exists_reaches_of_any hrun
  obtain ⟨c, hdone, hc, hev, _, hval⟩ := of_recoversTo hrecovers
  obtain ⟨c', hc', hcontents⟩ :=
    replay_of_appendsInOrder 10 10 0 [] none (fun _ => 0) hreach hdone
  obtain rfl : c = c' := Except.ok.inj (hc.symm.trans hc')
  exact ⟨n, c, hreach, hdone, hc, hval, hcontents hev⟩

/-- Two writes to one key: the second reaches the log before the first, so the
    log ends in the value that the cache has overwritten. -/
theorem append_overtakes :
    ∃ n c, Reaches Node.step (fun n a => n.clientSteps a = true)
        (start (WfCache.new 10) 0 [] none []) n ∧
      n.requests = [] ∧
      recoverAOF (fun _ => 0) (Cache.new 10) none (some n.aof) = .ok c ∧
      c.metrics.evictionsTotal = 0 ∧
      n.cache.cache.contents (lit "k") = some (lit "2") ∧
      c.contents (lit "k") = some (lit "1") := by
  have hrun : (runAll Node.step (fun n a => n.clientSteps a = true)
      (start (WfCache.new 10) 0 [] none []) (overtakingAppends (lit "k") (lit "k"))).any
        (recoversTo (fun _ => none) (lit "k") (some (lit "2")) (some (lit "1"))) = true := by
    decide +kernel
  obtain ⟨n, _, hreach, hrecovers⟩ := exists_reaches_of_any hrun
  obtain ⟨c, hobs⟩ := of_recoversTo hrecovers
  exact ⟨n, c, hreach, hobs⟩

end GoCache.Spec
