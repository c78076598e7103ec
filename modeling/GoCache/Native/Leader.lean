import GoCache.Native.PubSub
import GoCache.Native.Replication

/-!
# The leader's side of a replication connection

`internal/replication/leader.go`: `handleFollower` answers the `SYNC` request with
the entries of the cache and registers the connection, and takes it off the list of
followers when it ends.
-/

namespace GoCache.Native

/-! ## The initial snapshot -/

/-- The loop of `handleFollower` over the snapshot: the sequence number after it, and
    the bytes written. An expired entry takes a sequence number and is not sent. -/
def sendSnapshot (now : GoString → Time) :
    Int64 → List (GoString × SnapshotEntry) → Int64 × Bytes
  | seqNum, [] => (seqNum, [])
  | seqNum, e :: snapshot =>
    let r := sendSnapshot now (seqNum + 1) snapshot
    (r.1, (dumpEntry now e).elim [] (replicateBytes (seqNum + 1)) ++ r.2)

/-- `handleFollower` up to the registration, on the bytes of the follower and the
    leader's sequence number: the request, the sequence number afterwards and the
    bytes written. -/
def handleFollower (c : Cache) (order : List GoString) (now : GoString → Time) (seqNum : Int64)
    (request : Bytes) : Except Panic (Except DecodeError (SyncRequest × Int64 × Bytes)) := do
  let r ← decodeSyncRequest request
  return r.1.map fun syncReq =>
    let sent := sendSnapshot now seqNum (c.snapshot order)
    (syncReq, sent.1, sent.2 ++ encodeSyncEnd sent.1)

/-- One turn of the loop of `handleFollower` behind the registration: when the leader
    last heard a heartbeat, given the time of this turn. The first element is looked at
    before the length. -/
def followerMessage (now lastHeartbeat : Time) (result : Value) : Except Panic Time :=
  match result with
  | .arr (command :: _) =>
    .ok (if Follower.isStr command cmdHeartbeat then now else lastHeartbeat)
  | .arr [] | .nilArr => .error .indexOutOfRange
  -- anything but an array is passed over
  | .str _ | .int _ => .ok lastHeartbeat

/-! ## The list of followers -/

/-- A `FollowerConn`. -/
structure FollowerConn where
  id : GoString
  conn : ConnID
  deriving DecidableEq

/-- `addFollower`. -/
def addFollower (followers : List FollowerConn) (id : GoString) (conn : ConnID) :
    List FollowerConn :=
  followers ++ [⟨id, conn⟩]

/-- `removeFollower`: the last entry takes the place of the first with the ID. -/
def removeFollower (followers : List FollowerConn) (id : GoString) : List FollowerConn :=
  match followers.findIdx? (fun f => f.id = id), followers.getLast? with
  | some i, some last => (followers.set i last).dropLast
  | _, _ => followers

end GoCache.Native
