import GoCache.Native.HashRing
import GoCache.Native.Protocol
import GoCache.Native.Cache

/-!
# Migration

`internal/cluster/migrator.go` and `transfer.go`, and `GetKeysInHashRange` of
`internal/cache/enumeration.go`: when a node joins or leaves, the keys of every
task of the plan are sent to another node, verified and deleted.

The other nodes are a `Network`, whose state changes with what is sent. The bytes
a peer answers to a command are there when the command has been written, and a
peer that answers no more has closed the connection: the read deadlines of the
transfer functions come to the same. The order of a loop over the cache's map and
the readings of the clock are arguments.
-/

namespace GoCache.Native

/-! ## The network -/

/-- The nodes that can be reached: `dial` is `net.DialTimeout`, and `write` is
    `conn.Write` on a connection to an address, with the bytes the peer answers.
    Both may fail with the text of an error. -/
structure Network (ω : Type) where
  dial : ω → GoString → Except Bytes ω
  write : ω → GoString → Bytes → Except Bytes (Bytes × ω)

/-- The text of an error of the parser. -/
def ParseError.text : ParseError → Bytes
  | .eof => ascii "EOF"
  | .unexpectedEOF => ascii "unexpected EOF"
  | .new text => ascii text

/-- An open connection: the network, and what the reader has not read yet. -/
structure Connection (ω : Type) where
  world : ω
  unread : Bytes

section Transfer

variable {ω : Type} (net : Network ω) (targetAddr : GoString)

/-- Write a command and read the response. -/
def exchange (conn : Connection ω) (cmd : Bytes) :
    Except Panic (Except Bytes Value × Connection ω) :=
  match net.write conn.world targetAddr cmd with
  | .error text => .ok (.error text, conn)
  | .ok (answer, world) =>
    match parse (conn.unread ++ answer) with
    | .ok response rest => .ok (.ok response, ⟨world, rest⟩)
    | .err e rest => .ok (.error e.text, ⟨world, rest⟩)
    | .abort p => .error p

/-! ## Transfer -/

/-- `values[key]`. -/
def valueOf (values : Finmap fun _ : GoString => GoString) (key : GoString) : GoString :=
  (values.lookup key).getD GoString.empty

/-- `isOKResponse`. -/
def isOKResponse : Value → Bool
  | .str v => v = lit "OK"
  | .int _ | .arr _ | .nilArr => false

/-- The loop of `transferKeysOnConnection`, with the number of keys that failed. -/
def transferLoop (values : Finmap fun _ : GoString => GoString) :
    List GoString → Nat → Connection ω → Except Panic (Nat × Connection ω)
  | [], failCount, conn => .ok (failCount, conn)
  | key :: keys, failCount, conn => do
    let cmd := encodeArray [.str (lit "SET"), .str key, .str (valueOf values key)]
    match ← exchange net targetAddr conn cmd with
    | (.error _, conn) => transferLoop values keys (failCount + 1) conn
    | (.ok response, conn) =>
      transferLoop values keys (if isOKResponse response then failCount else failCount + 1) conn

/-- `transferKeysOnConnection`: nil, or the text of the error. -/
def transferKeysOnConnection (conn : Connection ω) (keys : List GoString)
    (values : Finmap fun _ : GoString => GoString) :
    Except Panic (Option Bytes × Connection ω) := do
  let (failCount, conn) ← transferLoop net targetAddr values keys 0 conn
  if 0 < failCount then
    return (some (ascii "transfer incomplete: " ++ itoa (Int64.ofNat failCount) ++
      ascii " keys failed"), conn)
  else return (none, conn)

/-- A slice expression `keys[start:stop]`. -/
def sliced (keys : List GoString) (start stop : Nat) : Except Panic (List GoString) :=
  if start ≤ stop ∧ stop ≤ keys.length then .ok ((keys.take stop).drop start)
  else .error .indexOutOfRange

/-- The loop of `TransferKeysBatch`, from batch `i` on, with the keys of each batch. -/
def batchLoop (keysOf : Nat → Except Panic (List GoString))
    (values : Finmap fun _ : GoString => GoString) :
    Nat → Nat → Connection ω → Except Panic (Option Bytes × Connection ω)
  | 0, _, conn => .ok (none, conn)
  | batches + 1, i, conn => do
    let batchKeys ← keysOf i
    let batchValues := batchKeys.foldl (fun m key => m.insert key (valueOf values key)) ∅
    match ← transferKeysOnConnection net targetAddr conn batchKeys batchValues with
    | (some text, conn) =>
      return (some (ascii "batch " ++ itoa (Int64.ofNat (i + 1)) ++ ascii " failed: " ++ text),
        conn)
    | (none, conn) => batchLoop keysOf values batches (i + 1) conn

/-- `TransferKeysBatch`, with the number of batches and the keys of each. -/
def transferBatches (batches : Nat) (keysOf : Nat → Except Panic (List GoString)) (world : ω)
    (values : Finmap fun _ : GoString => GoString) : Except Panic (Option Bytes × ω) :=
  match net.dial world targetAddr with
  | .error text =>
    .ok (some (ascii "failed to connect to " ++ targetAddr.bytes ++ ascii ": " ++ text), world)
  | .ok world => do
    let (err, conn) ← batchLoop net targetAddr keysOf values batches 0 ⟨world, []⟩
    return (err, conn.world)

/-- The number of batches, in the 64-bit integers of the source, where sums and products
    wrap. A batch size of zero is left out: the division by it panics. -/
def numBatches (totalKeys batchSize : Int64) : Int64 := (totalKeys + batchSize - 1) / batchSize

/-- The keys of batch `i`, likewise. -/
def batchKeys64 (keys : List GoString) (batchSize i : Int64) : Except Panic (List GoString) :=
  let totalKeys := Int64.ofNat keys.length
  let start := i * batchSize
  let stop := if totalKeys < start + batchSize then totalKeys else start + batchSize
  if start < 0 ∨ stop < 0 then .error .indexOutOfRange
  else sliced keys start.toInt.toNat stop.toInt.toNat

/-- `TransferKeysBatch`; a number of batches that is not positive makes no turn. -/
def transferKeysBatch64 (world : ω) (keys : List GoString)
    (values : Finmap fun _ : GoString => GoString) (batchSize : Int64) :
    Except Panic (Option Bytes × ω) :=
  transferBatches net targetAddr (numBatches (Int64.ofNat keys.length) batchSize).toInt.toNat
    (fun i => batchKeys64 keys batchSize (Int64.ofNat i)) world values

/-- The keys of batch `i`, where nothing wraps. -/
def batchKeys (keys : List GoString) (batchSize i : Nat) : Except Panic (List GoString) :=
  let start := i * batchSize
  let stop := if keys.length < start + batchSize then keys.length else start + batchSize
  sliced keys start stop

/-- `TransferKeysBatch` where nothing wraps, as with every slice that fits into memory and
    the batches of a migration. -/
def transferKeysBatch (world : ω) (keys : List GoString)
    (values : Finmap fun _ : GoString => GoString) (batchSize : Nat) :
    Except Panic (Option Bytes × ω) :=
  transferBatches net targetAddr ((keys.length + batchSize - 1) / batchSize)
    (batchKeys keys batchSize) world values

/-- The loop of `VerifyTransfer`. No value that `Parse` returns is a nil
    interface, so no response says that the key does not exist. -/
def verifyLoop : List GoString → Connection ω → Except Panic (Option Bytes × Connection ω)
  | [], conn => .ok (none, conn)
  | key :: keys, conn =>
    match net.write conn.world targetAddr (encodeArray [.str (lit "GET"), .str key]) with
    | .error text =>
      .ok (some (ascii "verification failed for key " ++ key.bytes ++ ascii ": " ++ text), conn)
    | .ok (answer, world) =>
      match parse (conn.unread ++ answer) with
      | .ok _ rest => verifyLoop keys ⟨world, rest⟩
      | .err e rest =>
        .ok (some (ascii "verification read failed for key " ++ key.bytes ++ ascii ": " ++ e.text),
          ⟨world, rest⟩)
      | .abort p => .error p

/-- `VerifyTransfer`. -/
def verifyTransfer (world : ω) (keys : List GoString) : Except Panic (Option Bytes × ω) :=
  match net.dial world targetAddr with
  | .error text => .ok (some (ascii "failed to connect for verification: " ++ text), world)
  | .ok world => do
    let (err, conn) ← verifyLoop net targetAddr keys ⟨world, []⟩
    return (err, conn.world)

end Transfer

/-! ## Migration -/

/-- `GetKeysInHashRange`, in the given order. -/
def Cache.getKeysInHashRange (c : Cache) (order : List GoString) (start stop : UInt32)
    (hash : Bytes → UInt32) : List GoString :=
  order.filter fun key => decide (key ∈ c.data) && hashInRange (hash key.bytes) start stop

/-- The loop that collects the values of the keys; the clock is read once a key. -/
def readValues (clock : Nat → Time) : List GoString → Nat → Cache →
    Finmap (fun _ : GoString => GoString) →
    Except Panic (Finmap (fun _ : GoString => GoString) × Cache)
  | [], _, c, values => .ok (values, c)
  | key :: keys, i, c, values => do
    let ((value, found), c) ← c.get key (clock i)
    readValues clock keys (i + 1) c (if found then values.insert key value else values)

/-- The loop that deletes the keys. -/
def deleteKeys : List GoString → Cache → Except Panic Cache
  | [], c => .ok c
  | key :: keys, c => do
    let c ← c.delete key
    deleteKeys keys c

/-- What Go leaves open in the tasks of a migration: the order of a loop over the
    map, and the readings of the clock. -/
structure Schedule where
  order : Nat → Cache → List GoString
  clock : Nat → Nat → Time

section Migrate

variable {ω : Type} (net : Network ω) (hash : Bytes → UInt32) (sched : Schedule)

/-- One turn of the loop of both migrations over the tasks: nil, or the text of the
    error that ends the loop. -/
def migrateTask (i : Nat) (task : MigrationTask) (addr : GoString) (c : Cache) (world : ω) :
    Except Panic (Option Bytes × Cache × ω) :=
  match c.getKeysInHashRange (sched.order i c) task.startHash task.endHash hash with
  | [] => .ok (none, c, world)
  | keys => do
    let (values, c) ← readValues (sched.clock i) keys 0 c ∅
    match ← transferKeysBatch net addr world keys values 100 with
    | (some text, world) =>
      return (some (ascii "task " ++ itoa (Int64.ofNat (i + 1)) ++ ascii " transfer failed: " ++
        text), c, world)
    | (none, world) =>
      match ← verifyTransfer net addr world keys with
      | (some text, world) =>
        return (some (ascii "task " ++ itoa (Int64.ofNat (i + 1)) ++
          ascii " verification failed: " ++ text), c, world)
      | (none, world) =>
        let c ← deleteKeys keys c
        return (none, c, world)

/-- The loop of both migrations over the tasks, from task `i` on. -/
def migrateTasks (addr : MigrationTask → GoString) : Nat → List MigrationTask → Cache → ω →
    Except Panic (Option Bytes × Cache × ω)
  | _, [], c, world => .ok (none, c, world)
  | i, task :: tasks, c, world => do
    match ← migrateTask net hash sched i task (addr task) c world with
    | (some text, c, world) => return (some text, c, world)
    | (none, c, world) => migrateTasks addr (i + 1) tasks c world

/-- `MigrateToNewNode`. -/
def migrateToNewNode (newNodeID newNodeAddr : GoString) (c : Cache) (hr : HashRing) (world : ω) :
    Except Panic (Option Bytes × Cache × HashRing × ω) := do
  let tasks ← hr.calculateMigrations hash newNodeID
  let hr := (hr.addShard hash newNodeID).setNodeAddress newNodeID newNodeAddr
  let (err, c, world) ← migrateTasks net hash sched (fun _ => newNodeAddr) 0 tasks c world
  return (err, c, hr, world)

/-- `MigrateFromLeavingNode`. -/
def migrateFromLeavingNode (leavingNodeID : GoString) (c : Cache) (hr : HashRing) (world : ω) :
    Except Panic (Option Bytes × Cache × HashRing × ω) := do
  let tasks ← hr.calculateMigrationsForRemoval hash leavingNodeID
  if tasks = [] then
    return (none, c,
      (hr.removeShard hash leavingNodeID).setNodeAddress leavingNodeID GoString.empty, world)
  else
    match ← migrateTasks net hash sched (fun task => hr.getNodeAddress task.toNode) 0 tasks c
        world with
    | (some text, c, world) => return (some text, c, hr, world)
    | (none, c, world) => return (none, c, hr.removeShard hash leavingNodeID, world)

end Migrate

end GoCache.Native
