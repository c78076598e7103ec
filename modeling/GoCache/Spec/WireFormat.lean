import GoCache.Spec.Stream

/-!
# The wire format of replication

Every message is read back by its decoder, which leaves what stands behind it, and
is refused by the others. The loops of the follower, which do not use the decoder of
`REPLICATE`, apply what it returns.

## Key results

- `wire_format`: all messages, all decoders, both loops
-/

namespace GoCache.Spec

open GoCache.Native Reading

/-- A message of the protocol between a leader and its followers. -/
inductive WireMessage where
  | sync (req : SyncRequest)
  | replicate (seqNum : Int64) (record : Record)
  | heartbeat (command : HeartbeatCommand)
  | syncEnd (seqNum : Int64)

namespace WireMessage

/-- The bytes of a message, by its encoder. -/
def encode : WireMessage → Except Bytes Bytes
  | .sync req => .ok (encodeSyncRequest req)
  | .replicate seqNum record => encodeReplicateCommand (replicateCommand seqNum record)
  | .heartbeat command => .ok (encodeHeartbeatCommand command.seqNum command.nodeID)
  | .syncEnd seqNum => .ok (encodeSyncEnd seqNum)

/-- The elements of a message. -/
def elements : WireMessage → List Element
  | .sync req => [.str cmdSync, .str req.followerID, .int64 req.lastSeqNum]
  | .replicate seqNum record => (Message.replicate seqNum record).elements
  | .heartbeat command => [.str cmdHeartbeat, .int64 command.seqNum, .str command.nodeID]
  | .syncEnd seqNum => [.str cmdSyncEnd, .int64 seqNum]

theorem encode_eq (m : WireMessage) : m.encode = .ok (encodeArray m.elements) := by
  cases m with
  | replicate seqNum record => cases record <;> rfl
  | _ => rfl

/-- What each decoder should make of a message, nothing if it is of another kind. -/
def syncRequest? : WireMessage → Option SyncRequest
  | .sync req => some req
  | _ => none

def replicateCommand? : WireMessage → Option ReplicateCommand
  | .replicate seqNum record => some (replicateCommand seqNum record)
  | _ => none

def heartbeatCommand? : WireMessage → Option HeartbeatCommand
  | .heartbeat command => some command
  | _ => none

def syncEnd? : WireMessage → Option Int64
  | .syncEnd seqNum => some seqNum
  | _ => none

/-- What `Parse` returns for a message. -/
def fields (m : WireMessage) : List Value := m.elements.map Element.value

theorem length_elements_le (m : WireMessage) : m.elements.length ≤ 6 := by
  cases m with
  | replicate seqNum record => exact (Message.replicate seqNum record).length_elements_le
  | sync req | heartbeat command | syncEnd seqNum => simp [elements]

theorem parse_append (m : WireMessage) (rest : Bytes) :
    parse (encodeArray m.elements ++ rest) = .ok (.arr m.fields) rest :=
  (frames_short m.length_elements_le).reads rest

end WireMessage

/-- A decoder returns the message with the bytes behind it, or refuses it. -/
def Decodes {α : Type} (decode : Bytes → Except Panic (Except DecodeError α × Bytes))
    (bytes rest : Bytes) : Option α → Prop
  | some a => decode (bytes ++ rest) = .ok (.ok a, rest)
  | none => ∃ e, decode (bytes ++ rest) = .ok (.error e, rest)

/-- What a command stands for at a follower. -/
def applyCommand (clock : Nat → Time) (f : Follower) (cmd : ReplicateCommand) :
    Except Panic Follower :=
  if cmd.operation = opSet then
    (f.cache.set cmd.key cmd.value (cmd.ttl * second) (clock f.readings)).map fun c =>
      { f with cache := c, readings := f.readings + 1 }.seen cmd.seqNum
  else (f.cache.delete cmd.key).map fun c => { f with cache := c }.seen cmd.seqNum

namespace WireMessage

variable (m : WireMessage) (rest : Bytes)

section Arrays

variable {m rest} {α : Type} {decode : List Value → Except Panic (Except DecodeError α)}

/-- A decoder gets the fields of the message. -/
private theorem decodeArray_append :
    decodeArray decode (encodeArray m.elements ++ rest) = (decode m.fields).map (·, rest) := by
  rw [decodeArray, m.parse_append rest]

private theorem decodes_some {a : α} (h : decode m.fields = .ok (.ok a)) :
    Decodes (decodeArray decode) (encodeArray m.elements) rest (some a) := by
  show decodeArray decode _ = _
  rw [decodeArray_append, h]
  rfl

private theorem decodes_none {e : DecodeError} (h : decode m.fields = .ok (.error e)) :
    Decodes (decodeArray decode) (encodeArray m.elements) rest none := by
  refine ⟨e, ?_⟩
  rw [decodeArray_append, h]
  rfl

end Arrays

theorem decodes_syncRequest :
    Decodes decodeSyncRequest (encodeArray m.elements) rest m.syncRequest? := by
  cases m with
  | sync req => exact decodes_some rfl
  | replicate seqNum record => cases record <;> exact decodes_none rfl
  | heartbeat command | syncEnd seqNum => exact decodes_none rfl

theorem decodes_replicateCommand :
    Decodes decodeReplicateCommand (encodeArray m.elements) rest m.replicateCommand? := by
  cases m with
  | sync req => exact decodes_none rfl
  | replicate seqNum record => cases record <;> exact decodes_some rfl
  | heartbeat command | syncEnd seqNum => exact decodes_none rfl

theorem decodes_heartbeatCommand :
    Decodes decodeHeartbeatCommand (encodeArray m.elements) rest m.heartbeatCommand? := by
  cases m with
  | sync req => exact decodes_none rfl
  | replicate seqNum record => cases record <;> exact decodes_none rfl
  | heartbeat command => exact decodes_some rfl
  | syncEnd seqNum => exact decodes_none rfl

theorem decodeSyncEnd_fields : Follower.decodeSyncEnd m.fields = m.syncEnd? := by
  cases m with
  | sync req => rfl
  | replicate seqNum record => cases record <;> rfl
  | heartbeat command => rfl
  | syncEnd seqNum => rfl

/-- The `REPLICATE` branch of the follower does what the command stands for. -/
private theorem applyReplicate_fields (clock : Nat → Time) (f : Follower) (seqNum : Int64)
    (record : Record) :
    Follower.applyReplicate clock f (replicate seqNum record).fields =
      (applyCommand clock f (replicateCommand seqNum record)).map .next := by
  cases record with
  | set key value ttlSeconds =>
    show (f.cache.set key value (ttlSeconds * second) (clock f.readings) >>= _) = _
    rw [applyCommand, replicateCommand]
    cases f.cache.set key value (ttlSeconds * second) (clock f.readings) <;> rfl
  | del key =>
    show (f.cache.delete key >>= _) = _
    rw [applyCommand, replicateCommand]
    cases f.cache.delete key <;> rfl

theorem syncMessage_fields (clock : Nat → Time) (f : Follower) (seqNum : Int64)
    (record : Record) :
    Follower.syncMessage clock f (.arr (replicate seqNum record).fields) =
      (applyCommand clock f (replicateCommand seqNum record)).map .next := by
  rw [← applyReplicate_fields]
  cases record <;> rfl

theorem streamMessage_fields (clock : Nat → Time) (f : Follower) (seqNum : Int64)
    (record : Record) :
    Follower.streamMessage clock f (.arr (replicate seqNum record).fields) =
      (applyCommand clock f (replicateCommand seqNum record)).map .next := by
  rw [← applyReplicate_fields]
  cases record <;> rfl

end WireMessage

/-- Every message can be encoded. With any bytes behind it, its decoder returns it
    and leaves those bytes, the other decoders refuse it, and the loops of the follower
    apply to any state the command that `DecodeReplicateCommand` returns. -/
theorem wire_format (m : WireMessage) : ∃ bytes, m.encode = .ok bytes ∧ ∀ rest,
    Decodes decodeSyncRequest bytes rest m.syncRequest? ∧
    Decodes decodeReplicateCommand bytes rest m.replicateCommand? ∧
    Decodes decodeHeartbeatCommand bytes rest m.heartbeatCommand? ∧
    ∃ arr, parse (bytes ++ rest) = .ok (.arr arr) rest ∧
      Follower.decodeSyncEnd arr = m.syncEnd? ∧
      ∀ cmd, decodeReplicateCommand (bytes ++ rest) = .ok (.ok cmd, rest) →
        ∀ clock f,
          Follower.syncMessage clock f (.arr arr) = (applyCommand clock f cmd).map .next ∧
          Follower.streamMessage clock f (.arr arr) = (applyCommand clock f cmd).map .next := by
  refine ⟨encodeArray m.elements, m.encode_eq, fun rest => ⟨m.decodes_syncRequest rest,
    m.decodes_replicateCommand rest, m.decodes_heartbeatCommand rest, m.fields,
    m.parse_append rest, m.decodeSyncEnd_fields, fun cmd hcmd clock f => ?_⟩⟩
  have hdecodes := m.decodes_replicateCommand rest
  cases m with
  | replicate seqNum record =>
    have heq : Except.ok (Except.ok (replicateCommand seqNum record), rest) =
        Except.ok (Except.ok cmd, rest) := hdecodes.symm.trans hcmd
    cases heq
    exact ⟨WireMessage.syncMessage_fields clock f seqNum record,
      WireMessage.streamMessage_fields clock f seqNum record⟩
  | sync req =>
    obtain ⟨e, he⟩ := hdecodes
    exact nomatch he.symm.trans hcmd
  | heartbeat command =>
    obtain ⟨e, he⟩ := hdecodes
    exact nomatch he.symm.trans hcmd
  | syncEnd seqNum =>
    obtain ⟨e, he⟩ := hdecodes
    exact nomatch he.symm.trans hcmd

end GoCache.Spec
