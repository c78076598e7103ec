import GoCache.ForStd.BinarySearch
import GoCache.ForStd.Sha256
import GoCache.Native.Protocol

/-!
# The hash ring

`internal/cluster/hash.go` and `internal/cluster/migration.go`: consistent hashing
with virtual nodes, and the plans for moving keys when a node joins or leaves.

The functions take the hash function as a parameter; `sha256Hash` is the one of
the source. Maps are finite maps, locks are left out.
-/

namespace GoCache.Native

open BinarySearch (lowerBound)

/-- `HashRing.hash`: the first four bytes of the SHA-256 sum. -/
def sha256Hash (key : Bytes) : UInt32 := (Sha256.digest key).a

/-- A `HashRing`. -/
structure HashRing where
  hashValues : List UInt32
  hashToShard : Finmap fun _ : UInt32 => GoString
  nodeAddresses : Finmap fun _ : GoString => GoString
  virtualNodes : Int64
  shardToNodes : Finmap fun _ : GoString => List GoString

/-- A `MigrationTask`. -/
structure MigrationTask where
  fromNode : GoString
  toNode : GoString
  keyPattern : GoString
  startHash : UInt32
  endHash : UInt32
  deriving DecidableEq

/-- The bytes a `MigrationTask` takes in a slice. -/
def migrationTaskSize : Nat := 56

/-- The name of a virtual node, `"%s-%d"`. -/
def virtualKey (shardID : GoString) (i : Nat) : Bytes :=
  shardID.bytes ++ byte '-' :: itoa (Int64.ofNat i)

/-- An index expression on a slice. -/
def indexed (l : List UInt32) (i : Nat) : Except Panic UInt32 :=
  match l[i]? with
  | some x => .ok x
  | none => .error .indexOutOfRange

namespace HashRing

/-- `NewHashRing`. -/
def new (virtualNodes : Int64) : HashRing := ⟨[], ∅, ∅, virtualNodes, ∅⟩

/-- The indices the loops over the virtual nodes run through. -/
def vnodes (hr : HashRing) : List Nat := List.range hr.virtualNodes.toInt.toNat

/-- `hr.hashToShard[hashValue]`. -/
def shardAt (hr : HashRing) (hashValue : UInt32) : GoString :=
  (hr.hashToShard.lookup hashValue).getD GoString.empty

/-- `SetNodeAddress`. -/
def setNodeAddress (hr : HashRing) (nodeID address : GoString) : HashRing :=
  { hr with nodeAddresses := hr.nodeAddresses.insert nodeID address }

/-- `GetNodeAddress`. -/
def getNodeAddress (hr : HashRing) (nodeID : GoString) : GoString :=
  (hr.nodeAddresses.lookup nodeID).getD GoString.empty

/-- `GetNodes`, in no particular order. -/
def getNodes (hr : HashRing) : Finset GoString :=
  (hr.hashToShard.entries.map Sigma.snd).toFinset

/-- `GetAllNodes`. -/
def getAllNodes : HashRing → Finset GoString := getNodes

/-- `SetShardNodes`. -/
def setShardNodes (hr : HashRing) (shardID : GoString) (nodeIDs : List GoString) : HashRing :=
  { hr with shardToNodes := hr.shardToNodes.insert shardID nodeIDs }

/-- `GetShardNodes`. -/
def getShardNodes (hr : HashRing) (shardID : GoString) : Except Bytes (List GoString) :=
  match hr.shardToNodes.lookup shardID with
  | some nodes => .ok nodes
  | none => .error (ascii "shard " ++ shardID.bytes ++ ascii " not found")

/-- `GetShardLeader`: the first of the shard's nodes. -/
def getShardLeader (hr : HashRing) (shardID : GoString) : Except Bytes GoString :=
  match hr.getShardNodes shardID with
  | .error text => .error text
  | .ok [] => .error (ascii "shard " ++ shardID.bytes ++ ascii " has no nodes")
  | .ok (leader :: _) => .ok leader

section Hash

variable (hash : Bytes → UInt32)

/-! ## Membership -/

/-- One turn of the loop of `AddShard`. -/
def addVirtualNode (shardID : GoString) (hr : HashRing) (i : Nat) : HashRing :=
  let hashValue := hash (virtualKey shardID i)
  { hr with
    hashToShard := hr.hashToShard.insert hashValue shardID
    hashValues := hr.hashValues ++ [hashValue] }

/-- `AddShard`. -/
def addShard (hr : HashRing) (shardID : GoString) : HashRing :=
  let hr := hr.vnodes.foldl (addVirtualNode hash shardID) hr
  { hr with hashValues := hr.hashValues.insertionSort (· ≤ ·) }

/-- One turn of the loop of `RemoveShard`: the first occurrence goes. -/
def removeVirtualNode (shardID : GoString) (hr : HashRing) (i : Nat) : HashRing :=
  let hashValue := hash (virtualKey shardID i)
  { hr with
    hashToShard := hr.hashToShard.erase hashValue
    hashValues := hr.hashValues.erase hashValue }

/-- `RemoveShard`. -/
def removeShard (hr : HashRing) (shardID : GoString) : HashRing :=
  hr.vnodes.foldl (removeVirtualNode hash shardID) hr

/-! ## Lookup -/

/-- `sort.Search` for the first position that is not below a hash. -/
def searchIndex (hr : HashRing) (hashValue : UInt32) : Nat :=
  lowerBound hr.hashValues fun position => decide (hashValue ≤ position)

/-- The wrap-around of an index behind the last position. -/
def wrapIndex (idx length : Nat) : Nat := if length ≤ idx then 0 else idx

theorem wrapIndex_lt {length : Nat} (idx : Nat) (h : 0 < length) :
    wrapIndex idx length < length := by
  unfold wrapIndex
  split <;> omega

/-- The common body of `GetNode` and `GetShard`. -/
def responsible (hr : HashRing) (key : GoString) : Except Bytes GoString :=
  if h : 0 < hr.hashValues.length then
    let idx := wrapIndex (hr.searchIndex (hash key.bytes)) hr.hashValues.length
    have hidx : idx < hr.hashValues.length := wrapIndex_lt _ h
    .ok (hr.shardAt hr.hashValues[idx])
  else .error (ascii "hash ring is empty")

/-- `GetNode`. -/
def getNode : HashRing → GoString → Except Bytes GoString := responsible hash

/-- `GetShard`. -/
def getShard : HashRing → GoString → Except Bytes GoString := responsible hash

/-! ## Migration plans -/

/-- The position before an index, which is the last one for the first index. -/
def prevHash (hr : HashRing) (idx : Nat) : Except Panic UInt32 :=
  if idx = 0 then indexed hr.hashValues (hr.hashValues.length - 1)
  else indexed hr.hashValues (idx - 1)

/-- One turn of the loop of `CalculateMigrations`: the task for a virtual node of
    the new node, from the position before it. -/
def joinTask (hr : HashRing) (newNodeID : GoString) (i : Nat) :
    Except Panic (Option MigrationTask) := do
  let vhash := hash (virtualKey newNodeID i)
  let idx := hr.searchIndex vhash
  let idx := if idx = hr.hashValues.length then 0 else idx
  let prevHash ← hr.prevHash idx
  let prevNode := hr.shardAt prevHash
  if prevNode ≠ newNodeID then return some ⟨prevNode, newNodeID, lit "*", prevHash, vhash⟩
  else return none

/-- `CalculateMigrations`. -/
def calculateMigrations (hr : HashRing) (newNodeID : GoString) :
    Except Panic (List MigrationTask) :=
  if hr.virtualNodes < 0 ∨ maxAlloc < migrationTaskSize * hr.virtualNodes.toInt.toNat then
    .error .makeSlice
  else
    hr.vnodes.foldlM (fun tasks i => do
      let task ← hr.joinTask hash newNodeID i
      return tasks ++ task.toList) []

/-- One turn of the loop of `CalculateMigrationsForRemoval`: the task for a
    virtual node of the leaving node, if the next position is another node's. -/
def removalTask (hr : HashRing) (removeNodeID : GoString) (i : Nat) :
    Except Panic (Option MigrationTask) := do
  let vhash := hash (virtualKey removeNodeID i)
  let idx := hr.searchIndex vhash
  let nextHash ← indexed hr.hashValues ((idx + 1) % hr.hashValues.length)
  let nextNode := hr.shardAt nextHash
  if nextNode ≠ removeNodeID then
    let prevHash ← hr.prevHash idx
    return some ⟨removeNodeID, nextNode, lit "*", prevHash, vhash⟩
  else return none

/-- `CalculateMigrationsForRemoval`. -/
def calculateMigrationsForRemoval (hr : HashRing) (removeNodeID : GoString) :
    Except Panic (List MigrationTask) :=
  if hr.hashValues.length = 0 then .ok []
  else
    hr.vnodes.foldlM (fun tasks i => do
      let task ← hr.removalTask hash removeNodeID i
      return tasks ++ task.toList) []

end Hash

end HashRing

/-- `hashInRange`, which is the same on the ring and in the cache. -/
def hashInRange (hash start stop : UInt32) : Bool :=
  if start < stop then start ≤ hash && hash < stop else start ≤ hash || hash < stop

/-- The method `hashInRange` of the ring. -/
def HashRing.hashInRange (_ : HashRing) (hash start stop : UInt32) : Bool :=
  Native.hashInRange hash start stop

end GoCache.Native
