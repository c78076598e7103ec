import GoCache.Native.Persistence

/-!
# Replication

`internal/replication`: the commands a leader sends to its followers, and the
two loops in which a follower reads them, `sendSyncRequest` up to the end of the
initial snapshot and `processReplicationStream` from there on. The follower takes
the commands apart itself; the decoders of `protocol.go` stand at the end.

Every `Set` of a follower reads the clock once, and `clock i` is its `i`-th
reading. When the follower last heard from its leader is left out.
-/

namespace GoCache.Native

open Reading (Turn loopAll)

/-! ## Commands -/

/-- `OpSet`. -/
def opSet : GoString := lit "SET"

/-- `OpDelete`. -/
def opDelete : GoString := lit "DELETE"

/-- `CmdSync`. -/
def cmdSync : GoString := lit "SYNC"

/-- `CmdReplicate`. -/
def cmdReplicate : GoString := lit "REPLICATE"

/-- `CmdHeartbeat`. -/
def cmdHeartbeat : GoString := lit "HEARTBEAT"

/-- `CmdSyncEnd`. -/
def cmdSyncEnd : GoString := lit "SYNCEND"

/-- A `SyncRequest`. -/
structure SyncRequest where
  followerID : GoString
  lastSeqNum : Int64
  deriving DecidableEq

/-- `EncodeSyncRequest`. -/
def encodeSyncRequest (req : SyncRequest) : Bytes :=
  encodeArray [.str cmdSync, .str req.followerID, .int64 req.lastSeqNum]

/-- A `ReplicateCommand`. -/
structure ReplicateCommand where
  seqNum : Int64
  operation : GoString
  key : GoString
  value : GoString
  ttl : Int64
  deriving DecidableEq

/-- `EncodeReplicateCommand`; the error is its text. -/
def encodeReplicateCommand (comm : ReplicateCommand) : Except Bytes Bytes :=
  if comm.operation = opSet then
    .ok (encodeArray [.str cmdReplicate, .int64 comm.seqNum, .str comm.operation, .str comm.key,
      .str comm.value, .int64 comm.ttl])
  else if comm.operation = opDelete then
    .ok (encodeArray [.str cmdReplicate, .int64 comm.seqNum, .str comm.operation, .str comm.key])
  else .error (ascii "invalid operation: " ++ comm.operation.bytes)

/-- `EncodeHeartbeatCommand`. -/
def encodeHeartbeatCommand (seqNum : Int64) (nodeID : GoString) : Bytes :=
  encodeArray [.str cmdHeartbeat, .int64 seqNum, .str nodeID]

/-- `EncodeSyncEnd`. -/
def encodeSyncEnd (seqNum : Int64) : Bytes := encodeArray [.str cmdSyncEnd, .int64 seqNum]

/-- The command the handlers replicate a logged write with: `handleSet` passes
    the key, the value and the TTL, `handleDelete` only the key. -/
def replicateCommand (seqNum : Int64) : Record → ReplicateCommand
  | .set key value ttlSeconds => ⟨seqNum, opSet, key, value, ttlSeconds⟩
  | .del key => ⟨seqNum, opDelete, key, GoString.empty, 0⟩

/-- What `Replicate` writes to a connection; it writes nothing if the command
    cannot be encoded. -/
def replicateBytes (seqNum : Int64) (r : Record) : Bytes :=
  match encodeReplicateCommand (replicateCommand seqNum r) with
  | .ok encoded => encoded
  | .error _ => []

/-! ## Follower -/

/-- `ParseInt64`. -/
def parseInt64 : Value → Option Int64
  | .int n => some n
  | .str s => atoi s.bytes
  | .arr _ | .nilArr => none

/-- The errors the message loops return. -/
inductive StreamError where
  | parse (e : ParseError)
  | new (text : Bytes)
  deriving DecidableEq

/-- A `Follower`, with the number of readings of the clock it has made. -/
structure Follower where
  cache : Cache
  lastSeqNum : Int64
  readings : Nat

namespace Follower

variable (clock : Nat → Time)

/-- The update of `lastSeqNum` behind a message. -/
def seen (f : Follower) (seqNum : Int64) : Follower :=
  if f.lastSeqNum < seqNum then { f with lastSeqNum := seqNum } else f

/-- Return from a message loop with an error. -/
def returnError (f : Follower) (text : Bytes) :
    Except Panic (Turn Follower (Follower × Option StreamError)) :=
  .ok (.stop (f, some (.new text)))

/-- The `REPLICATE` branch of both message loops. -/
def applyReplicate (f : Follower) :
    List Value → Except Panic (Turn Follower (Follower × Option StreamError))
  | _ :: seqNum :: operation :: key :: rest =>
    match parseInt64 seqNum, operation, key with
    | none, _, _ => f.returnError (ascii "invalid sequence number")
    | some seqNum, .str operation, .str key =>
      if operation = opSet then
        match rest with
        | [.str value, ttl] =>
          match parseInt64 ttl with
          | none => f.returnError (ascii "ttl must be an integer")
          | some ttl => do
            let c ← f.cache.set key value (ttl * second) (clock f.readings)
            return .next ({ f with cache := c, readings := f.readings + 1 }.seen seqNum)
        | [_, _] => f.returnError (ascii "value must be a string")
        | _ => f.returnError (ascii "SET requires 6 elements")
      else if operation = opDelete then
        match rest with
        | [] => do
          let c ← f.cache.delete key
          return .next ({ f with cache := c }.seen seqNum)
        | _ => f.returnError (ascii "DELETE requires 4 elements")
      else f.returnError (ascii "unknown operation: " ++ operation.bytes)
    | some _, .str _, _ => f.returnError (ascii "key must be a string")
    | some _, _, _ => f.returnError (ascii "operation must be a string")
  | _ => f.returnError (ascii "invalid REPLICATE command")

/-- The value is the given string. -/
def isStr (v : Value) (s : GoString) : Bool :=
  match v with
  | .str t => t = s
  | _ => false

/-- `DecodeSyncEnd`. -/
def decodeSyncEnd : List Value → Option Int64
  | [cmd, seqNum] => if isStr cmd cmdSyncEnd then parseInt64 seqNum else none
  | _ => none

/-- One turn of the loop of `sendSyncRequest`. -/
def syncMessage (f : Follower) (result : Value) :
    Except Panic (Turn Follower (Follower × Option StreamError)) :=
  match result with
  | .arr (command :: rest) =>
    if isStr command cmdReplicate then applyReplicate clock f (command :: rest)
    else if isStr command cmdSyncEnd then
      match decodeSyncEnd (command :: rest) with
      | none => f.returnError (ascii "failed to decode SYNCEND")
      | some seqNum => .ok (.stop (f.seen seqNum, none))
    else .ok (.next f)
  | .arr [] | .nilArr => .error .indexOutOfRange
  | .str _ | .int _ => f.returnError (ascii "Error: result is not a slice")

/-- One turn of the loop of `processReplicationStream`. -/
def streamMessage (f : Follower) (result : Value) :
    Except Panic (Turn Follower (Follower × Option StreamError)) :=
  match result with
  | .arr (command :: rest) =>
    if isStr command cmdReplicate then applyReplicate clock f (command :: rest)
    -- heartbeats and unknown commands are passed over
    else .ok (.next f)
  | .arr [] | .nilArr => .error .indexOutOfRange
  | .str _ | .int _ => f.returnError (ascii "Error: result is not a slice")

/-- Both loops return an error of the parser. -/
def onParseError (f : Follower) (e : ParseError) : Turn Follower (Follower × Option StreamError) :=
  .stop (f, some (.parse e))

/-- `sendSyncRequest`, on the bytes the leader sends: the follower and the error
    it returns with, if any, and the bytes left unread. -/
def sendSyncRequest (f : Follower) (stream : Bytes) :
    Except Panic ((Follower × Option StreamError) × Bytes) :=
  loopAll .outOfFuel onParseError (syncMessage clock) parse f stream

/-- `processReplicationStream`, on the bytes the leader sends. -/
def processReplicationStream (f : Follower) (stream : Bytes) :
    Except Panic ((Follower × Option StreamError) × Bytes) :=
  loopAll .outOfFuel onParseError (streamMessage clock) parse f stream

/-- What `Start` does on one connection: the snapshot first, and the stream
    behind it unless the snapshot ends in an error. -/
def follow (f : Follower) (stream : Bytes) :
    Except Panic ((Follower × Option StreamError) × Bytes) := do
  match ← sendSyncRequest clock f stream with
  | ((f, none), rest) => processReplicationStream clock f rest
  | ((f, some e), rest) => return ((f, some e), rest)

end Follower

/-! ## Decoders -/

/-- A `HeartbeatCommand`. -/
structure HeartbeatCommand where
  seqNum : Int64
  nodeID : GoString
  deriving DecidableEq

/-- The errors of the decoders. -/
inductive DecodeError where
  | parse (e : ParseError)
  | new (text : Bytes)
  /-- `invalid sequence number: ` and the error of `strconv.ParseInt` for the text. -/
  | invalidSeqNum (text : GoString)
  /-- `sequence number must be int or string, got ` and the value. -/
  | seqNumType (v : Value)

/-- The switch over the type of a sequence number. -/
def decodeSeqNum : Value → Except DecodeError Int64
  | .int n => .ok n
  | .str s =>
    match atoi s.bytes with
    | some n => .ok n
    | none => .error (.invalidSeqNum s)
  | v => .error (.seqNumType v)

/-- A text with the length of the array. -/
def lengthError (text : String) (arr : List Value) : DecodeError :=
  .new (ascii text ++ itoa (Int64.ofNat arr.length))

/-- The first lines of the decoders: one value is read, and it has to be an array.
    The null array is one without elements. -/
def decodeArray {α : Type} (decode : List Value → Except Panic (Except DecodeError α))
    (stream : Bytes) : Except Panic (Except DecodeError α × Bytes) :=
  match parse stream with
  | .ok (.arr arr) rest => (decode arr).map (·, rest)
  | .ok .nilArr rest => (decode []).map (·, rest)
  | .ok _ rest => .ok (.error (.new (ascii "expected array")), rest)
  | .err e rest => .ok (.error (.parse e), rest)
  | .abort p => .error p

/-- `DecodeSyncRequest`, and the bytes left unread. -/
def decodeSyncRequest : Bytes → Except Panic (Except DecodeError SyncRequest × Bytes) :=
  decodeArray fun arr => .ok <|
    match arr with
    | [cmd, followerID, lastSeqNum] =>
      if Follower.isStr cmd cmdSync then
        match followerID with
        | .str followerID => (decodeSeqNum lastSeqNum).map (SyncRequest.mk followerID)
        | _ => .error (.new (ascii "invalid follower ID"))
      else .error (.new (ascii "expected SYNC command"))
    | arr => .error (lengthError "expected length of array to be 3, got " arr)

/-- `DecodeHeartbeatCommand`, and the bytes left unread. -/
def decodeHeartbeatCommand : Bytes → Except Panic (Except DecodeError HeartbeatCommand × Bytes) :=
  decodeArray fun arr => .ok <|
    match arr with
    | [cmd, seqNum, nodeID] =>
      if Follower.isStr cmd cmdHeartbeat then
        match decodeSeqNum seqNum, nodeID with
        | .error e, _ => .error e
        | .ok seqNum, .str nodeID => .ok ⟨seqNum, nodeID⟩
        | .ok _, _ => .error (.new (ascii "expected nodeID to be a string"))
      else .error (.new (ascii "expected HEARTBEAT command"))
    | arr => .error (lengthError "expected length of array to be 3, got " arr)

/-- The end of `DecodeReplicateCommand`, behind the key: what the operation needs. -/
def decodeOperands (arr : List Value) (seqNum : Int64) (operation key : GoString)
    (operands : List Value) : Except DecodeError ReplicateCommand :=
  if operation = opSet then
    match operands with
    | [.str value, .int ttl] => .ok ⟨seqNum, operation, key, value, ttl⟩
    | [.str _, _] => .error (.new (ascii "expected ttl to be an integer"))
    | [_, _] => .error (.new (ascii "expected value to be a string"))
    | _ => .error (lengthError "SET operation requires 6 elements, got " arr)
  else
    match operands with
    | [] => .ok ⟨seqNum, operation, key, GoString.empty, 0⟩
    | _ => .error (lengthError "DELETE operation requires 4 elements, got " arr)

/-- The middle of `DecodeReplicateCommand`: the operation and the key. -/
def decodeOperation (arr : List Value) (seqNum : Int64) :
    List Value → Except Panic (Except DecodeError ReplicateCommand)
  | [] => .error .indexOutOfRange
  | .str operation :: fields =>
    if operation = opSet ∨ operation = opDelete then
      match fields with
      | [] => .error .indexOutOfRange
      | .str key :: operands => .ok (decodeOperands arr seqNum operation key operands)
      | _ :: _ => .ok (.error (.new (ascii "expected key to be a string")))
    else .ok (.error (.new (ascii "expected operation to be SET or DELETE")))
  | _ :: _ => .ok (.error (.new (ascii "expected operation to be SET or DELETE")))

/-- `DecodeReplicateCommand`, and the bytes left unread. It indexes the array before
    it looks at its length. -/
def decodeReplicateCommand : Bytes → Except Panic (Except DecodeError ReplicateCommand × Bytes) :=
  decodeArray fun arr =>
    match arr with
    | [] => .error .indexOutOfRange
    | cmd :: fields =>
      if Follower.isStr cmd cmdReplicate then
        match fields with
        | [] => .error .indexOutOfRange
        | seqNum :: fields =>
          match decodeSeqNum seqNum with
          | .error e => .ok (.error e)
          | .ok seqNum => decodeOperation arr seqNum fields
      else .ok (.error (.new (ascii "expected REPLICATE command")))

end GoCache.Native
