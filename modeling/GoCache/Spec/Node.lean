import GoCache.ForStd.Reaches
import GoCache.Native.Replication
import GoCache.Spec.Recovery

/-!
# A leader and what runs on it concurrently

The handlers of client writes, one background job on the files and the handlers
of joining followers, as the steps they take between two acquisitions of a lock.
Each step is atomic, and every interleaving of the steps is a run.

A write is one step on the cache, one under `Leader.mu` that takes a sequence
number and copies the follower list, one per follower under the lock of its
connection, one under `AOF.mu` that appends to the log, and the reply. A node
without a `Leader` is one without followers.

`updates`, and the stamps that number its entries, are not part of the node:
they record the order in which the writes reached the cache.

## Key results

- `effect_of_step`: what each step can do
- `Tracks.step`: the cache holds what the recorded updates leave
-/

namespace GoCache.Native

/-- The key a record is about. -/
def Record.key : Record → GoString
  | .set key _ _ => key
  | .del key => key

end GoCache.Native

namespace GoCache.Spec

open GoCache.Native Transition WriteLog

/-- A write with its number in the order of the cache. -/
structure Stamped where
  stamp : Nat
  record : Record

/-- The write to the key-to-value map. -/
def Stamped.write (s : Stamped) : Write GoString GoString := recordWrite s.record

theorem key_recordWrite (r : Record) : (recordWrite r).key = r.key := by
  cases r <;> rfl

theorem Stamped.key_write (s : Stamped) : s.write.key = s.record.key := key_recordWrite s.record

/-- A connection to a follower. -/
abbrev Conn := Nat

/-- What a request has to do next. -/
inductive Phase where
  /-- Take a sequence number and copy the follower list. -/
  | replicate
  /-- Write to the connections left, and append to the log behind them. -/
  | sending (seqNum : Int64) (targets : List Conn)
  /-- Reply. -/
  | logged

/-- A request whose write has reached the cache, until it is replied to. -/
structure Request where
  entry : Stamped
  phase : Phase

/-- The two background jobs on the files. -/
inductive JobKind where
  | rewriteAOF
  | createSnapshot

/-- The progress of the background job. `stamp` is the number of updates that
    its `Snapshot` saw, and `content` is what it has written to the temp file. -/
inductive Job where
  | idle
  | snapped (kind : JobKind) (stamp : Nat) (snapshot : List (GoString × SnapshotEntry))
  | written (kind : JobKind) (stamp : Nat) (content : Bytes)
  | locked (kind : JobKind) (stamp : Nat) (content : Bytes)
  /-- `CreateSnapshot` has replaced the snapshot file, and not yet truncated the log. -/
  | renamed (stamp : Nat)
  | reopening

/-- The job holds `AOF.mu`. -/
def Job.holdsLock : Job → Bool
  | .locked .. | .renamed _ | .reopening => true
  | .idle | .snapped .. | .written .. => false

/-- The progress of `handleFollower`, with the number of updates that its
    `Snapshot` saw and the entries still to be sent. -/
inductive Join where
  | absent
  | sending (stamp : Nat) (snapshot : List (GoString × SnapshotEntry))
  | ended (stamp : Nat)
  | registered

/-- A leader with its files, its connections and its open requests, the latter
    in the order in which they reached the cache. -/
structure Node where
  cache : WfCache
  seqNum : Int64
  followers : List Conn
  wire : Conn → Bytes
  aof : Bytes
  snapshotFile : Option Bytes
  requests : List Request
  job : Job
  join : Conn → Join
  updates : List Stamped

/-- The steps. `now` is the reading of the clock a step makes, `order` the order
    in which a loop over the snapshot visits the keys, and an index names one of
    the open requests. A heartbeat carries some sequence number read before. -/
inductive Action where
  | set (key value : GoString) (ttl : Duration) (now : Time)
  | delete (key : GoString)
  | replicate (i : Nat)
  | send (i : Nat)
  | append (i : Nat)
  | reply (i : Nat)
  | jobSnapshot (kind : JobKind) (order : List GoString)
  | jobWrite (now : GoString → Time)
  | jobNext
  | syncSnapshot (conn : Conn) (order : List GoString)
  | syncEntry (conn : Conn) (now : Time)
  | syncEnd (conn : Conn)
  | addFollower (conn : Conn)
  | heartbeat (conn : Conn) (seqNum : Int64)

/-- The action is a step of the background job. -/
def Action.isJob : Action → Bool
  | .jobSnapshot .. | .jobWrite _ | .jobNext => true
  | _ => false

namespace Node

/-- A node with no request open and no job running. -/
def start (cache : WfCache) (seqNum : Int64) (followers : List Conn) (snapshotFile : Option Bytes)
    (aof : Bytes) : Node where
  cache := cache
  seqNum := seqNum
  followers := followers
  wire := fun _ => []
  aof := aof
  snapshotFile := snapshotFile
  requests := []
  job := .idle
  join := fun conn => if conn ∈ followers then .registered else .absent
  updates := []

/-- The first step of a request: its write reaches the cache. -/
def update (n : Node) (cache : WfCache) (r : Record) : Node :=
  { n with
    cache := cache
    requests := n.requests ++ [⟨⟨n.updates.length, r⟩, .replicate⟩]
    updates := n.updates ++ [⟨n.updates.length, r⟩] }

/-- Bytes written to a connection. -/
def put (n : Node) (conn : Conn) (bytes : Bytes) : Node :=
  { n with wire := Function.update n.wire conn (n.wire conn ++ bytes) }

/-- A step of one of the requests, given those before and behind it. -/
def withRequest (n : Node) (i : Nat)
    (act : List Request → Request → List Request → Option Node) : Option Node :=
  match pick i n.requests with
  | some (pre, r, post) => act pre r post
  | none => none

/-- The first half of `Replicate`. -/
def replicate (n : Node) (pre : List Request) (r : Request) (post : List Request) : Option Node :=
  match r.phase with
  | .replicate => some
      { n with
        seqNum := n.seqNum + 1
        requests := pre ++ { r with phase := .sending (n.seqNum + 1) n.followers } :: post }
  | .sending .. | .logged => none

/-- One turn of the loop in the second half of `Replicate`. -/
def send (n : Node) (pre : List Request) (r : Request) (post : List Request) : Option Node :=
  match r.phase with
  | .sending seqNum (conn :: targets) => some
      { n.put conn (replicateBytes seqNum r.entry.record) with
        requests := pre ++ { r with phase := .sending seqNum targets } :: post }
  | .replicate | .sending _ [] | .logged => none

/-- `Append`, behind `Replicate`. -/
def append (n : Node) (pre : List Request) (r : Request) (post : List Request) : Option Node :=
  match r.phase, n.job.holdsLock with
  | .sending _ [], false => some
      { n with
        aof := n.aof ++ r.entry.record.encode
        requests := pre ++ { r with phase := .logged } :: post }
  | _, _ => none

/-- The reply, with which the request is finished. -/
def reply (n : Node) (pre : List Request) (r : Request) (post : List Request) : Option Node :=
  match r.phase with
  | .logged => some { n with requests := pre ++ post }
  | .replicate | .sending .. => none

/-- The steps of `rewriteAOF` and `CreateSnapshot` behind the temp file. -/
def jobNext (n : Node) : Option Node :=
  match n.job with
  | .written kind stamp content => some { n with job := .locked kind stamp content }
  | .locked .rewriteAOF _ content => some { n with aof := content, job := .reopening }
  | .locked .createSnapshot stamp content =>
    some { n with snapshotFile := some content, job := .renamed stamp }
  | .renamed _ => some { n with aof := [], job := .reopening }
  | .reopening => some { n with job := .idle }
  | .idle | .snapped .. => none

/-- One turn of the loop of `handleFollower`: an expired entry takes a sequence
    number and is not sent. -/
def syncEntry (n : Node) (conn : Conn) (now : Time) : Option Node :=
  match n.join conn with
  | .sending stamp (e :: rest) => some
      { n.put conn (((dumpEntry (fun _ => now) e).map (replicateBytes (n.seqNum + 1))).getD []) with
        seqNum := n.seqNum + 1
        join := Function.update n.join conn (.sending stamp rest) }
  | _ => none

/-- A step of the node, if it is possible. -/
def step (n : Node) : Action → Option Node
  | .set key value ttl now =>
    some (n.update (n.cache.set key value ttl now) (.set key value ttl.seconds))
  | .delete key => some (n.update (n.cache.delete key) (.del key))
  | .replicate i => n.withRequest i n.replicate
  | .send i => n.withRequest i n.send
  | .append i => n.withRequest i n.append
  | .reply i => n.withRequest i n.reply
  | .jobSnapshot kind order =>
    match n.job, decide (n.cache.cache.Enumerates order) with
    | .idle, true =>
      some { n with job := .snapped kind n.updates.length (n.cache.cache.snapshot order) }
    | _, _ => none
  | .jobWrite now =>
    match n.job with
    | .snapped kind stamp snapshot => some { n with job := .written kind stamp (dump now snapshot) }
    | _ => none
  | .jobNext => n.jobNext
  | .syncSnapshot conn order =>
    match n.join conn, decide (n.cache.cache.Enumerates order) with
    | .absent, true => some
        { n with
          join := Function.update n.join conn
            (.sending n.updates.length (n.cache.cache.snapshot order)) }
    | _, _ => none
  | .syncEntry conn now => n.syncEntry conn now
  | .syncEnd conn =>
    match n.join conn with
    | .sending stamp [] => some
        { n.put conn (encodeSyncEnd n.seqNum) with
          join := Function.update n.join conn (.ended stamp) }
    | _ => none
  | .addFollower conn =>
    match n.join conn with
    | .ended _ => some
        { n with
          followers := n.followers ++ [conn]
          join := Function.update n.join conn .registered }
    | _ => none
  | .heartbeat conn seqNum =>
    if conn ∈ n.followers then some (n.put conn (encodeHeartbeatCommand seqNum (lit "leader")))
    else none

/-! ## What each step can do -/

/-- The steps as a relation: when each of them is possible, and its effect. -/
inductive Effect (n : Node) : Action → Node → Prop where
  | set (key value : GoString) (ttl : Duration) (now : Time) :
      Effect n (.set key value ttl now)
        (n.update (n.cache.set key value ttl now) (.set key value ttl.seconds))
  | delete (key : GoString) : Effect n (.delete key) (n.update (n.cache.delete key) (.del key))
  | replicate {i : Nat} {pre post : List Request} {e : Stamped}
      (hpick : pick i n.requests = some (pre, ⟨e, .replicate⟩, post)) :
      Effect n (.replicate i)
        { n with
          seqNum := n.seqNum + 1
          requests := pre ++ ⟨e, .sending (n.seqNum + 1) n.followers⟩ :: post }
  | send {i : Nat} {pre post : List Request} {e : Stamped} {seqNum : Int64} {conn : Conn}
      {targets : List Conn}
      (hpick : pick i n.requests = some (pre, ⟨e, .sending seqNum (conn :: targets)⟩, post)) :
      Effect n (.send i)
        { n.put conn (replicateBytes seqNum e.record) with
          requests := pre ++ ⟨e, .sending seqNum targets⟩ :: post }
  | append {i : Nat} {pre post : List Request} {e : Stamped} {seqNum : Int64}
      (hpick : pick i n.requests = some (pre, ⟨e, .sending seqNum []⟩, post))
      (hlock : n.job.holdsLock = false) :
      Effect n (.append i)
        { n with aof := n.aof ++ e.record.encode, requests := pre ++ ⟨e, .logged⟩ :: post }
  | reply {i : Nat} {pre post : List Request} {e : Stamped}
      (hpick : pick i n.requests = some (pre, ⟨e, .logged⟩, post)) :
      Effect n (.reply i) { n with requests := pre ++ post }
  | jobSnapshot {order : List GoString} (kind : JobKind) (hjob : n.job = .idle)
      (horder : n.cache.cache.Enumerates order) :
      Effect n (.jobSnapshot kind order)
        { n with job := .snapped kind n.updates.length (n.cache.cache.snapshot order) }
  | jobWrite {kind : JobKind} {stamp : Nat} {snapshot : List (GoString × SnapshotEntry)}
      (now : GoString → Time) (hjob : n.job = .snapped kind stamp snapshot) :
      Effect n (.jobWrite now) { n with job := .written kind stamp (dump now snapshot) }
  | lock {kind : JobKind} {stamp : Nat} {content : Bytes}
      (hjob : n.job = .written kind stamp content) :
      Effect n .jobNext { n with job := .locked kind stamp content }
  | renameAOF {stamp : Nat} {content : Bytes} (hjob : n.job = .locked .rewriteAOF stamp content) :
      Effect n .jobNext { n with aof := content, job := .reopening }
  | renameSnapshot {stamp : Nat} {content : Bytes}
      (hjob : n.job = .locked .createSnapshot stamp content) :
      Effect n .jobNext { n with snapshotFile := some content, job := .renamed stamp }
  | truncate {stamp : Nat} (hjob : n.job = .renamed stamp) :
      Effect n .jobNext { n with aof := [], job := .reopening }
  | reopen (hjob : n.job = .reopening) : Effect n .jobNext { n with job := .idle }
  | syncSnapshot {conn : Conn} {order : List GoString} (hjoin : n.join conn = .absent)
      (horder : n.cache.cache.Enumerates order) :
      Effect n (.syncSnapshot conn order)
        { n with
          join := Function.update n.join conn
            (.sending n.updates.length (n.cache.cache.snapshot order)) }
  | syncEntry {conn : Conn} {stamp : Nat} {e : GoString × SnapshotEntry}
      {rest : List (GoString × SnapshotEntry)} (now : Time)
      (hjoin : n.join conn = .sending stamp (e :: rest)) :
      Effect n (.syncEntry conn now)
        { n.put conn
            (((dumpEntry (fun _ => now) e).map (replicateBytes (n.seqNum + 1))).getD []) with
          seqNum := n.seqNum + 1
          join := Function.update n.join conn (.sending stamp rest) }
  | syncEnd {conn : Conn} {stamp : Nat} (hjoin : n.join conn = .sending stamp []) :
      Effect n (.syncEnd conn)
        { n.put conn (encodeSyncEnd n.seqNum) with
          join := Function.update n.join conn (.ended stamp) }
  | addFollower {conn : Conn} {stamp : Nat} (hjoin : n.join conn = .ended stamp) :
      Effect n (.addFollower conn)
        { n with
          followers := n.followers ++ [conn]
          join := Function.update n.join conn .registered }
  | heartbeat {conn : Conn} (seqNum : Int64) (hmem : conn ∈ n.followers) :
      Effect n (.heartbeat conn seqNum)
        (n.put conn (encodeHeartbeatCommand seqNum (lit "leader")))

variable {n n' : Node} {a : Action}

private theorem withRequest_eq_some {i : Nat}
    {act : List Request → Request → List Request → Option Node}
    (h : n.withRequest i act = some n') :
    ∃ pre e phase post, pick i n.requests = some (pre, ⟨e, phase⟩, post) ∧
      act pre ⟨e, phase⟩ post = some n' := by
  unfold withRequest at h
  cases hpick : pick i n.requests with
  | none =>
    rw [hpick] at h
    exact nomatch h
  | some picked =>
    obtain ⟨pre, ⟨e, phase⟩, post⟩ := picked
    rw [hpick] at h
    exact ⟨pre, e, phase, post, rfl, h⟩

private theorem effect_replicate {i : Nat} (h : n.withRequest i n.replicate = some n') :
    Effect n (.replicate i) n' := by
  obtain ⟨pre, e, phase, post, hpick, hact⟩ := withRequest_eq_some h
  cases phase with
  | replicate => exact Option.some.inj hact ▸ .replicate hpick
  | sending seqNum targets | logged => exact nomatch hact

private theorem effect_send {i : Nat} (h : n.withRequest i n.send = some n') :
    Effect n (.send i) n' := by
  obtain ⟨pre, e, phase, post, hpick, hact⟩ := withRequest_eq_some h
  cases phase with
  | replicate => exact nomatch hact
  | sending seqNum targets =>
    cases targets with
    | nil => exact nomatch hact
    | cons conn targets => exact Option.some.inj hact ▸ .send hpick
  | logged => exact nomatch hact

private theorem effect_append {i : Nat} (h : n.withRequest i n.append = some n') :
    Effect n (.append i) n' := by
  obtain ⟨pre, e, phase, post, hpick, hact⟩ := withRequest_eq_some h
  unfold append at hact
  split at hact
  · next seqNum hphase hlock =>
    have hphase : phase = .sending seqNum [] := hphase
    subst hphase
    exact Option.some.inj hact ▸ .append hpick hlock
  · exact nomatch hact

private theorem effect_reply {i : Nat} (h : n.withRequest i n.reply = some n') :
    Effect n (.reply i) n' := by
  obtain ⟨pre, e, phase, post, hpick, hact⟩ := withRequest_eq_some h
  cases phase with
  | replicate | sending seqNum targets => exact nomatch hact
  | logged => exact Option.some.inj hact ▸ .reply hpick

private theorem effect_jobNext (h : n.jobNext = some n') : Effect n .jobNext n' := by
  unfold jobNext at h
  split at h
  · next hjob => exact Option.some.inj h ▸ .lock hjob
  · next hjob => exact Option.some.inj h ▸ .renameAOF hjob
  · next hjob => exact Option.some.inj h ▸ .renameSnapshot hjob
  · next hjob => exact Option.some.inj h ▸ .truncate hjob
  · next hjob => exact Option.some.inj h ▸ .reopen hjob
  · exact nomatch h
  · exact nomatch h

private theorem effect_syncEntry {conn : Conn} {now : Time} (h : n.syncEntry conn now = some n') :
    Effect n (.syncEntry conn now) n' := by
  unfold syncEntry at h
  split at h
  · next hjoin => exact Option.some.inj h ▸ .syncEntry now hjoin
  · exact nomatch h

/-- Every step has the effect of its action. -/
theorem effect_of_step (h : n.step a = some n') : Effect n a n' := by
  cases a with
  | set key value ttl now => exact Option.some.inj h ▸ .set ..
  | delete key => exact Option.some.inj h ▸ .delete key
  | replicate i => exact effect_replicate h
  | send i => exact effect_send h
  | append i => exact effect_append h
  | reply i => exact effect_reply h
  | jobNext => exact effect_jobNext h
  | syncEntry conn now => exact effect_syncEntry h
  | jobSnapshot kind order =>
    simp only [step] at h
    split at h
    · next hjob horder =>
      exact Option.some.inj h ▸ .jobSnapshot kind hjob (of_decide_eq_true horder)
    · exact nomatch h
  | jobWrite now =>
    simp only [step] at h
    split at h
    · next hjob => exact Option.some.inj h ▸ .jobWrite now hjob
    · exact nomatch h
  | syncSnapshot conn order =>
    simp only [step] at h
    split at h
    · next hjoin horder => exact Option.some.inj h ▸ .syncSnapshot hjoin (of_decide_eq_true horder)
    · exact nomatch h
  | syncEnd conn =>
    simp only [step] at h
    split at h
    · next hjoin => exact Option.some.inj h ▸ .syncEnd hjoin
    · exact nomatch h
  | addFollower conn =>
    simp only [step] at h
    split at h
    · next hjoin => exact Option.some.inj h ▸ .addFollower hjoin
    · exact nomatch h
  | heartbeat conn seqNum =>
    simp only [step] at h
    split at h
    · next hmem => exact Option.some.inj h ▸ .heartbeat seqNum hmem
    · exact nomatch h

/-! ## Requests that still owe something -/

section Owing

variable (owes : Phase → Bool)

/-- The writes of the requests that still owe something, in the order of the
    cache. -/
def owing (requests : List Request) : List Stamped :=
  (requests.filter fun r => owes r.phase).map Request.entry

@[simp] theorem owing_append (rs rs' : List Request) :
    owing owes (rs ++ rs') = owing owes rs ++ owing owes rs' := by
  rw [owing, List.filter_append, List.map_append]
  rfl

/-- The request an action picks is the oldest one on its key that still owes it. -/
def inOrder (n : Node) (i : Nat) : Bool :=
  match pick i n.requests with
  | some (pre, r, _) => (owing owes pre).all fun s => s.record.key ≠ r.entry.record.key
  | none => true

variable {owes} {pre post rs : List Request} {e : Stamped} {phase phase' : Phase} {i : Nat}

/-- A request that owes nothing does not count. -/
theorem owing_of_neg (h : owes phase = false) :
    owing owes (pre ++ ⟨e, phase⟩ :: post) = owing owes (pre ++ post) := by
  rw [owing_append, owing_append, owing, owing, List.filter_cons_of_neg (by simp [h])]
  rfl

/-- A request that owes something. -/
theorem owing_of_pos (h : owes phase = true) :
    owing owes (pre ++ ⟨e, phase⟩ :: post) = owing owes pre ++ e :: owing owes post := by
  rw [owing_append, owing, owing, List.filter_cons_of_pos (by simp [h])]
  rfl

/-- A request goes on, and owes as before. -/
theorem owing_of_same (h : owes phase' = owes phase) :
    owing owes (pre ++ ⟨e, phase'⟩ :: post) = owing owes (pre ++ ⟨e, phase⟩ :: post) := by
  cases hphase : owes phase with
  | true => rw [owing_of_pos hphase, owing_of_pos (h.trans hphase)]
  | false => rw [owing_of_neg hphase, owing_of_neg (h.trans hphase)]

theorem notOnKeyOf_of_inOrder (h : n.inOrder owes i = true)
    (hpick : pick i n.requests = some (pre, ⟨e, phase⟩, post)) :
    NotOnKeyOf Stamped.write e (owing owes pre) := by
  intro s hs
  rw [inOrder, hpick] at h
  have hne := List.all_eq_true.mp h s hs
  rw [Stamped.key_write, Stamped.key_write]
  simpa using hne

end Owing

/-! ## The order of the cache -/

/-- A write without a TTL that evicts nothing, or any other step. -/
def plain (n : Node) : Action → Bool
  | .set key value ttl now =>
    ttl = 0 && (n.cache.set key value ttl now).evictions = n.cache.evictions
  | _ => true

/-- The updates are numbered in order, and the cache holds what they leave of
    the map `m` it held at the start. -/
structure Tracks (m : GoString → Option GoString) (n : Node) : Prop where
  contents : n.cache.contents = applyAll m (n.updates.map Stamped.write)
  stamps : n.updates.map Stamped.stamp = List.range n.updates.length

variable {m : GoString → Option GoString}

theorem tracks_start (c : WfCache) (seqNum : Int64) (followers : List Conn)
    (snapshotFile : Option Bytes) (aof : Bytes) :
    Tracks c.contents (start c seqNum followers snapshotFile aof) := ⟨rfl, rfl⟩

private theorem Tracks.update (h : Tracks m n) {c : WfCache} {r : Record}
    (hc : c.contents = WriteLog.apply n.cache.contents (recordWrite r)) :
    Tracks m (n.update c r) where
  contents := by
    show c.contents = applyAll m ((n.updates ++ [Stamped.mk n.updates.length r]).map Stamped.write)
    rw [List.map_append, applyAll_append, ← h.contents, hc]
    rfl
  stamps := by
    show (n.updates ++ [Stamped.mk n.updates.length r]).map Stamped.stamp = List.range _
    rw [List.map_append, h.stamps]
    simp [Node.update, List.range_succ]

/-- Every plain step keeps the record of the updates true. -/
theorem Tracks.step (h : Tracks m n) (hplain : n.plain a = true) (hstep : n.step a = some n') :
    Tracks m n' := by
  cases effect_of_step hstep with
  | set key value ttl now =>
    have hev : (n.cache.set key value ttl now).evictions = n.cache.evictions := by
      simp only [plain, Bool.and_eq_true, decide_eq_true_eq] at hplain
      exact hplain.2
    exact h.update (WfCache.contents_set _ _ _ _ _ hev)
  | delete key => exact h.update (WfCache.contents_delete _ _)
  | _ => exact ⟨h.contents, h.stamps⟩

/-- An update made before is none of those made since. -/
theorem Tracks.notMem_drop (h : Tracks m n) {s : Stamped} {t : Nat} (hs : s.stamp < t) :
    s ∉ n.updates.drop t := by
  intro hmem
  have hstamp : s.stamp ∈ (n.updates.map Stamped.stamp).drop t := by
    rw [← List.map_drop]
    exact List.mem_map_of_mem hmem
  rw [h.stamps, List.mem_drop_iff_getElem] at hstamp
  obtain ⟨i, hi, heq⟩ := hstamp
  rw [List.getElem_range] at heq
  omega

end Node

end GoCache.Spec
