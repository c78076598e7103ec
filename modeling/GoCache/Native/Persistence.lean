import GoCache.Native.Cache
import GoCache.Native.Protocol

/-!
# Persistence

`internal/persistence`: the records of the append-only file (AOF), reading a
file back, writing the cache out, and recovery from a snapshot file and an AOF.

A file is its content. Every `Set` of a recovery reads the clock once, and
`clock i` is its `i`-th reading.
-/

namespace GoCache.Native

open Reading (Turn loopAll)

/-! ## Records -/

/-- A write as the handlers log it, with the TTL in seconds. -/
inductive Record where
  | set (key value : GoString) (ttlSeconds : Int64)
  | del (key : GoString)

/-- The strings of the array a record is encoded as. -/
def Record.parts : Record → List GoString
  | .set key value ttlSeconds => [lit "SET", key, value, itoaString ttlSeconds]
  | .del key => [lit "DEL", key]

/-- The bytes of a record. -/
def Record.encode (r : Record) : Bytes := encodeArray (r.parts.map Element.str)

/-- An `Operation`. -/
structure Operation where
  type : GoString
  key : GoString
  value : GoString
  ttl : Int64
  deriving DecidableEq

/-! ## Reading a file -/

/-- The conversion of the elements to strings: it stops at the first one that
    is no string, and leaves that one and the ones behind it empty. -/
def toParts : List Value → List GoString
  | [] => []
  | .str s :: vs => s :: toParts vs
  | _ :: vs => GoString.empty :: vs.map fun _ => GoString.empty

/-- The parts of a record; other values and empty arrays are skipped. -/
def recordParts : Value → Option (List GoString)
  | .arr (v :: vs) => some (toParts (v :: vs))
  | _ => none

/-- The operation `ReadOperations` makes of the parts of a record. -/
def toOperation (parts : List GoString) : Operation :=
  match parts with
  | type :: key :: value :: rest =>
    if type = lit "SET" then
      match rest with
      | ttl :: _ => ⟨type, key, value, (atoi ttl.bytes).getD 0⟩
      | [] => ⟨type, key, value, 0⟩
    else if type = lit "DEL" then ⟨type, key, GoString.empty, 0⟩
    else ⟨type, GoString.empty, GoString.empty, 0⟩
  | [type, key] =>
    if type = lit "DEL" then ⟨type, key, GoString.empty, 0⟩
    else ⟨type, GoString.empty, GoString.empty, 0⟩
  | [type] => ⟨type, GoString.empty, GoString.empty, 0⟩
  | [] => ⟨GoString.empty, GoString.empty, GoString.empty, 0⟩

/-- The error branch of both loops over records: stop at the end of the file,
    and skip a corrupted entry. -/
def skipCorrupted {σ : Type} (st : σ) (e : ParseError) : Turn σ σ :=
  if e.isEOF then .stop st else .next st

/-- One turn of the loop of `ReadOperations`. -/
def readRecord (operations : List Operation) (result : Value) :
    Except Panic (Turn (List Operation) (List Operation)) :=
  match recordParts result with
  | none => .ok (.next operations)
  | some parts => .ok (.next (operations ++ [toOperation parts]))

/-- `ReadOperations`, on the content of the file. -/
def readOperations (file : Bytes) : Except Panic (List Operation) :=
  (·.1) <$> loopAll .outOfFuel skipCorrupted readRecord parse [] file

/-- The key, value and TTL of the `Set` call `LoadSnapshot` makes for a value
    it has read, if any. -/
def snapshotSet (result : Value) : Option (GoString × GoString × Duration) :=
  match recordParts result with
  | some (type :: key :: value :: rest) =>
    if type = lit "SET" then
      match rest with
      | ttlSeconds :: _ => some (key, value, (atoi ttlSeconds.bytes).getD 0 * second)
      | [] => some (key, value, 0)
    else none
  | _ => none

/-- One turn of the loop of `LoadSnapshot`, with the number of items loaded
    before. -/
def loadRecord (clock : Nat → Time) (st : Nat × Cache) (result : Value) :
    Except Panic (Turn (Nat × Cache) (Nat × Cache)) :=
  match snapshotSet result with
  | some (key, value, ttl) => do
    let c ← st.2.set key value ttl (clock st.1)
    return .next (st.1 + 1, c)
  | none => .ok (.next st)

/-- `LoadSnapshot`, on the content of the file. Returns the number of items
    loaded as well, which is the number of readings of the clock. -/
def loadSnapshot (clock : Nat → Time) (c : Cache) (file : Bytes) : Except Panic (Nat × Cache) :=
  (·.1) <$> loopAll .outOfFuel skipCorrupted (loadRecord clock) parse (0, c) file

/-! ## Recovery -/

/-- The loop of `RecoverAOF` over the operations, after `i` readings of the
    clock. -/
def replay (clock : Nat → Time) : Nat → Cache → List Operation → Except Panic Cache
  | _, c, [] => .ok c
  | i, c, op :: ops =>
    if op.type = lit "SET" then do
      let c ← c.set op.key op.value (op.ttl * second) (clock i)
      replay clock (i + 1) c ops
    else if op.type = lit "DEL" then do
      let c ← c.delete op.key
      replay clock i c ops
    else replay clock i c ops

/-- The first half of `RecoverAOF`: load the snapshot file if there is one. -/
def recoverSnapshot (clock : Nat → Time) (c : Cache) : Option Bytes → Except Panic (Nat × Cache)
  | some file => loadSnapshot clock c file
  | none => .ok (0, c)

/-- `RecoverAOF`, on the contents of the snapshot file and of the AOF. -/
def recoverAOF (clock : Nat → Time) (c : Cache) (snapshot aof : Option Bytes) :
    Except Panic Cache := do
  let (loaded, c) ← recoverSnapshot clock c snapshot
  match aof with
  | some file => do
    let ops ← readOperations file
    replay clock loaded c ops
  | none => return c

/-! ## Writing the cache out -/

/-- `time.Until(t)`: a difference out of range is cut off at the limits. -/
def Time.until (t now : Time) : Duration :=
  let d : Int := t - now
  if d < -2 ^ 63 then Int64.minValue else if 2 ^ 63 ≤ d then Int64.maxValue else Int64.ofInt d

/-- The record `rewriteAOF` and `CreateSnapshot` write for an entry of the
    cache, if any; `now key` is the time at which the entry of the key is
    written. -/
def dumpEntry (now : GoString → Time) (e : GoString × SnapshotEntry) : Option Record :=
  if e.2.expiresAt.isZero then some (.set e.1 e.2.value 0)
  -- an expired entry is left out
  else if e.2.expiresAt.until (now e.1) < 0 then none
  else some (.set e.1 e.2.value (e.2.expiresAt.until (now e.1)).seconds)

/-- The loop of `rewriteAOF` and of `CreateSnapshot` over the snapshot of the
    cache. -/
def dump (now : GoString → Time) (snapshot : List (GoString × SnapshotEntry)) : Bytes :=
  (snapshot.filterMap (dumpEntry now)).flatMap Record.encode

/-! ## When a rewrite starts -/

/-- What `checkRewriteTrigger` looks at, besides the size of the file. -/
structure RewriteTrigger where
  growthFactor : Int64
  lastRewriteSize : Nat
  rewriting : Bool
  deriving DecidableEq

/-- The fields that `NewAOF` sets. -/
def RewriteTrigger.new (growthFactor : Int64) : RewriteTrigger := ⟨growthFactor, 0, false⟩

/-- `checkRewriteTrigger`, which starts `rewriteAOF` in a goroutine of its own when it sets
    `rewriting`. For files of less than 2^53 bytes the quotient of the sizes as `float64` is
    above the factor exactly if the current size is above the product. -/
def checkRewriteTrigger (t : RewriteTrigger) (currentSize : Nat) : RewriteTrigger :=
  if t.rewriting then t
  else if t.lastRewriteSize = 0 then { t with lastRewriteSize := currentSize }
  else if t.growthFactor.toInt * t.lastRewriteSize < currentSize then { t with rewriting := true }
  else t

/-! ## Creating a snapshot -/

/-- The files of a node: the snapshot file, the temp file next to it, and the AOF. -/
structure Files where
  snapshot : Option Bytes
  temp : Option Bytes
  aof : Option Bytes

/-- The calls of `CreateSnapshot` that change a file. -/
inductive FileOp where
  /-- `os.OpenFile` of the temp file, which creates or empties it. -/
  | createTemp
  | writeTemp (bytes : Bytes)
  /-- `os.Rename` of the temp file to the snapshot file. -/
  | renameTemp
  /-- `os.Truncate` of the AOF. -/
  | truncateAOF
  /-- `os.OpenFile` of the AOF, which creates it if it is not there. -/
  | openAOF

/-- The files after a call. -/
def Files.apply (files : Files) : FileOp → Files
  | .createTemp => { files with temp := some [] }
  | .writeTemp bytes => { files with temp := files.temp.map (· ++ bytes) }
  | .renameTemp =>
    match files.temp with
    | some content => { files with snapshot := some content, temp := none }
    | none => files
  | .truncateAOF => { files with aof := files.aof.map fun _ => [] }
  | .openAOF => { files with aof := some (files.aof.getD []) }

/-- `CreateSnapshot`, as its calls on the files: one write for every entry of the
    snapshot of the cache that has not expired. -/
def createSnapshot (now : GoString → Time) (snapshot : List (GoString × SnapshotEntry)) :
    List FileOp :=
  .createTemp ::
    ((snapshot.filterMap (dumpEntry now)).map fun r => .writeTemp r.encode) ++
      [.renameTemp, .truncateAOF, .openAOF]

end GoCache.Native
