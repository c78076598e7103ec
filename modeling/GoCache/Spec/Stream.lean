import GoCache.Native.Replication
import GoCache.Spec.Recovery

/-!
# What a follower makes of a stream

A stream is a sequence of messages. Each `REPLICATE` is one mutation of the
follower's cache, in the order of arrival and whatever its sequence number;
heartbeats are passed over. The initial snapshot is such a sequence as well, up
to `SYNCEND`.

## Key results

- `processReplicationStream_messages`: the stream of a registered follower
- `follow_messages`: the initial snapshot and the stream behind it
- `contents_receiveAll`: without an eviction, the records are writes to a map
-/

namespace GoCache.Spec

open GoCache.Native Reading WriteLog

/-- A message of the stream to a follower. -/
inductive Message where
  | replicate (seqNum : Int64) (record : Record)
  | heartbeat (seqNum : Int64)

namespace Message

/-- The bytes of a message. -/
def encode : Message → Bytes
  | .replicate seqNum r => replicateBytes seqNum r
  | .heartbeat seqNum => encodeHeartbeatCommand seqNum (lit "leader")

/-- The record a message carries. -/
def record? : Message → Option Record
  | .replicate _ r => some r
  | .heartbeat _ => none

/-- The elements of a message. -/
def elements : Message → List Element
  | .replicate seqNum (.set key value ttlSeconds) =>
    [.str cmdReplicate, .int64 seqNum, .str opSet, .str key, .str value, .int64 ttlSeconds]
  | .replicate seqNum (.del key) =>
    [.str cmdReplicate, .int64 seqNum, .str opDelete, .str key]
  | .heartbeat seqNum => [.str cmdHeartbeat, .int64 seqNum, .str (lit "leader")]

theorem encode_eq (m : Message) : m.encode = encodeArray m.elements := by
  cases m with
  | replicate seqNum r => cases r <;> rfl
  | heartbeat seqNum => rfl

/-- What `Parse` returns for a message. -/
def value (m : Message) : Value := .arr (m.elements.map Element.value)

theorem length_elements_le (m : Message) : m.elements.length ≤ 6 := by
  cases m with
  | replicate seqNum r => cases r <;> simp [elements]
  | heartbeat seqNum => simp [elements]

end Message

/-- A short array is a frame of `parse`. -/
theorem frames_short {es : List Element} (h : es.length ≤ 6) :
    Frames parse (encodeArray es) (.arr (es.map Element.value)) :=
  frames_encodeArray ⟨es, (Nat.mul_le_mul_left 16 h).trans (by decide)⟩

theorem frames_message (m : Message) : Frames parse m.encode m.value := by
  rw [m.encode_eq]
  exact frames_short m.length_elements_le

/-! ## Receiving -/

/-- A follower whose cache cannot panic. -/
structure WfFollower where
  cache : WfCache
  lastSeqNum : Int64
  readings : Nat

namespace WfFollower

variable (clock : Nat → Time)

/-- The follower of the model. -/
def follower (f : WfFollower) : Follower := ⟨f.cache.cache, f.lastSeqNum, f.readings⟩

/-- The update of `lastSeqNum`. -/
def seen (f : WfFollower) (seqNum : Int64) : WfFollower :=
  if f.lastSeqNum < seqNum then { f with lastSeqNum := seqNum } else f

/-- The follower after a message. -/
def receive (f : WfFollower) : Message → WfFollower
  | .replicate seqNum (.set key value ttlSeconds) =>
    { f with
      cache := f.cache.set key value (ttlSeconds * second) (clock f.readings)
      readings := f.readings + 1 }.seen seqNum
  | .replicate seqNum (.del key) => { f with cache := f.cache.delete key }.seen seqNum
  | .heartbeat _ => f

/-- The follower after a sequence of messages. -/
def receiveAll (f : WfFollower) (ms : List Message) : WfFollower := ms.foldl (receive clock) f

theorem follower_seen (f : WfFollower) (seqNum : Int64) :
    (f.seen seqNum).follower = f.follower.seen seqNum := by
  unfold seen Follower.seen
  show (if f.lastSeqNum < seqNum then _ else f).follower =
    if f.lastSeqNum < seqNum then _ else f.follower
  split <;> rfl

@[simp] theorem cache_seen (f : WfFollower) (seqNum : Int64) : (f.seen seqNum).cache = f.cache := by
  unfold seen
  split <;> rfl

@[simp] theorem readings_seen (f : WfFollower) (seqNum : Int64) :
    (f.seen seqNum).readings = f.readings := by
  unfold seen
  split <;> rfl

variable {clock}

private theorem applyReplicate_value (f : WfFollower) (seqNum : Int64) (r : Record) :
    Follower.applyReplicate clock f.follower
        ((Message.replicate seqNum r).elements.map Element.value) =
      .ok (.next (f.receive clock (.replicate seqNum r)).follower) := by
  cases r with
  | set key value ttlSeconds =>
    show (f.cache.cache.set key value (ttlSeconds * second) (clock f.readings) >>= fun c =>
      Except.ok (Turn.next ((Follower.mk c f.lastSeqNum (f.readings + 1)).seen seqNum))) = _
    rw [WfCache.cache_set, receive, follower_seen]
    rfl
  | del key =>
    show (f.cache.cache.delete key >>= fun c =>
      Except.ok (Turn.next ((Follower.mk c f.lastSeqNum f.readings).seen seqNum))) = _
    rw [WfCache.cache_delete, receive, follower_seen]
    rfl

private theorem elements_replicate (seqNum : Int64) (r : Record) :
    ∃ rest, (Message.replicate seqNum r).elements.map Element.value =
      .str cmdReplicate :: rest := by
  cases r <;> exact ⟨_, rfl⟩

private theorem isStr_replicate : Follower.isStr (.str cmdReplicate) cmdReplicate = true := by
  decide

theorem streamMessage_value (f : WfFollower) (m : Message) :
    Follower.streamMessage clock f.follower m.value = .ok (.next (f.receive clock m).follower) := by
  cases m with
  | replicate seqNum r =>
    obtain ⟨rest, hrest⟩ := elements_replicate seqNum r
    rw [← applyReplicate_value, Message.value, hrest]
    simp only [Follower.streamMessage, isStr_replicate, if_true]
  | heartbeat seqNum => rfl

theorem syncMessage_value (f : WfFollower) (m : Message) :
    Follower.syncMessage clock f.follower m.value = .ok (.next (f.receive clock m).follower) := by
  cases m with
  | replicate seqNum r =>
    obtain ⟨rest, hrest⟩ := elements_replicate seqNum r
    rw [← applyReplicate_value, Message.value, hrest]
    simp only [Follower.syncMessage, isStr_replicate, if_true]
  | heartbeat seqNum => rfl

theorem progresses_onParseError : Progresses Follower.onParseError parse :=
  progresses_parse fun _ => ⟨_, rfl⟩

/-- `processReplicationStream` receives one message after the other, until the
    connection ends. -/
theorem processReplicationStream_messages (f : WfFollower) (ms : List Message) :
    Follower.processReplicationStream clock f.follower (ms.flatMap Message.encode) =
      .ok (((f.receiveAll clock ms).follower, some (.parse .eof)), []) := by
  rw [Follower.processReplicationStream, ← List.append_nil (ms.flatMap Message.encode),
    loopAll_flatMap progresses_onParseError frames_message streamMessage_value,
    loopAll_err_stop parse_nil rfl]
  rfl

private theorem frames_syncEnd (seqNum : Int64) :
    Frames parse (encodeSyncEnd seqNum) (.arr [.str cmdSyncEnd, .int seqNum]) := by
  have hlen : [Element.str cmdSyncEnd, .int64 seqNum].length ≤ 6 := by simp
  exact frames_short hlen

/-- `sendSyncRequest` receives the messages up to `SYNCEND`, and leaves what stands
    behind it. -/
theorem sendSyncRequest_messages (f : WfFollower) (sync : List Message) (seqNum : Int64)
    (rest : Bytes) :
    Follower.sendSyncRequest clock f.follower
        (sync.flatMap Message.encode ++ (encodeSyncEnd seqNum ++ rest)) =
      .ok ((((f.receiveAll clock sync).seen seqNum).follower, none), rest) := by
  rw [Follower.sendSyncRequest,
    loopAll_flatMap progresses_onParseError frames_message syncMessage_value,
    loopAll_ok_stop ((frames_syncEnd seqNum).reads _) rfl, follower_seen]
  rfl

/-- The stream gets the messages behind `SYNCEND`. -/
theorem follow_messages (f : WfFollower) (sync ms : List Message) (seqNum : Int64) :
    Follower.follow clock f.follower
        (sync.flatMap Message.encode ++ (encodeSyncEnd seqNum ++ ms.flatMap Message.encode)) =
      .ok (((((f.receiveAll clock sync).seen seqNum).receiveAll clock ms).follower,
        some (.parse .eof)), []) := by
  rw [Follower.follow, sendSyncRequest_messages]
  exact processReplicationStream_messages _ ms

/-! ## The cache of the follower -/

/-- The follower has applied the records in the order of the messages. -/
theorem receiveAll_eq (f : WfFollower) (ms : List Message) :
    ((f.receiveAll clock ms).readings, (f.receiveAll clock ms).cache) =
      WfCache.mutateAll clock f.readings f.cache
        ((ms.filterMap Message.record?).map recordMutation) := by
  induction ms generalizing f with
  | nil => rfl
  | cons m ms ih =>
    refine (ih (f.receive clock m)).trans ?_
    cases m with
    | replicate seqNum r =>
      cases r <;> simp [receive, Message.record?, recordMutation, WfCache.mutateAll]
    | heartbeat seqNum => rfl

theorem cache_receiveAll (f : WfFollower) (ms : List Message) :
    (f.receiveAll clock ms).cache = (WfCache.mutateAll clock f.readings f.cache
      ((ms.filterMap Message.record?).map recordMutation)).2 :=
  congrArg Prod.snd (f.receiveAll_eq ms)

/-- Without an eviction, the follower's map takes the writes of the records. -/
theorem contents_receiveAll (f : WfFollower) (ms : List Message)
    (hev : (f.receiveAll clock ms).cache.evictions = f.cache.evictions) :
    (f.receiveAll clock ms).cache.contents =
      applyAll f.cache.contents ((ms.filterMap Message.record?).map recordWrite) := by
  rw [cache_receiveAll] at hev ⊢
  rw [WfCache.contents_mutateAll hev, List.map_map]
  rfl

theorem evictions_le_receiveAll (clock : Nat → Time) (f : WfFollower) (ms : List Message) :
    f.cache.evictions ≤ (f.receiveAll clock ms).cache.evictions := by
  rw [cache_receiveAll]
  exact WfCache.evictions_le_mutateAll ..

/-- Likewise for the snapshot and the stream behind it. -/
theorem contents_follow (f : WfFollower) (sync ms : List Message) (seqNum : Int64)
    (hev : (((f.receiveAll clock sync).seen seqNum).receiveAll clock ms).cache.evictions =
      f.cache.evictions) :
    (((f.receiveAll clock sync).seen seqNum).receiveAll clock ms).cache.contents =
      applyAll (applyAll f.cache.contents ((sync.filterMap Message.record?).map recordWrite))
        ((ms.filterMap Message.record?).map recordWrite) := by
  have hsync := f.evictions_le_receiveAll clock sync
  have hms := ((f.receiveAll clock sync).seen seqNum).evictions_le_receiveAll clock ms
  rw [cache_seen] at hms
  rw [contents_receiveAll _ ms (by rw [cache_seen]; omega), cache_seen,
    contents_receiveAll f sync (by omega)]

end WfFollower

end GoCache.Spec
