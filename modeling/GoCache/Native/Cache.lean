import Mathlib.Data.Finmap
import GoCache.Native.Lru

/-!
# The cache

`internal/cache/cache.go`: a map from keys to items, the LRU list over the same
keys, and the counters that go with them. Go maps are `Finmap`s, which have no
order; a loop over a map takes the order it visits the keys in as an argument,
since Go leaves it open. `time.Now()` is an argument as well.

`Set`, `Get` and `Delete` take the lock and then run the same statements as
their `Internal` variants, so each pair shares one definition.
-/

namespace GoCache.Native

/-- The metrics the cache reports: counters, and the last value each gauge was
    set to (`metrics.Collector`). -/
structure Collector where
  setOps : Nat
  getOps : Nat
  deleteOps : Nat
  cacheHits : Nat
  cacheMisses : Nat
  evictionsTotal : Nat
  expirationsTotal : Nat
  itemsCount : Nat
  memoryBytes : Int64
  deriving DecidableEq

namespace Collector

/-- A collector nothing has been reported to. -/
def new : Collector := ⟨0, 0, 0, 0, 0, 0, 0, 0, 0⟩

/-- `RecordOperation("set")`. -/
def recordSet (m : Collector) : Collector := { m with setOps := m.setOps + 1 }

/-- `RecordOperation("get")`. -/
def recordGet (m : Collector) : Collector := { m with getOps := m.getOps + 1 }

/-- `RecordOperation("delete")`. -/
def recordDelete (m : Collector) : Collector := { m with deleteOps := m.deleteOps + 1 }

/-- `RecordCacheHit`. -/
def recordCacheHit (m : Collector) : Collector := { m with cacheHits := m.cacheHits + 1 }

/-- `RecordCacheMiss`. -/
def recordCacheMiss (m : Collector) : Collector := { m with cacheMisses := m.cacheMisses + 1 }

/-- `RecordEviction`. -/
def recordEviction (m : Collector) : Collector :=
  { m with evictionsTotal := m.evictionsTotal + 1 }

/-- `RecordExpiration`. -/
def recordExpiration (m : Collector) : Collector :=
  { m with expirationsTotal := m.expirationsTotal + 1 }

/-- `UpdateItemsCount` and `UpdateMemoryUsage`. -/
def update (m : Collector) (count : Nat) (bytes : Int64) : Collector :=
  { m with itemsCount := count, memoryBytes := bytes }

end Collector

/-- A map entry. -/
structure CacheItem where
  value : GoString
  expiresAt : Time
  node : Ptr
  deriving DecidableEq

/-- A deadline is set and has passed. -/
def hasExpired (expiresAt now : Time) : Bool := !expiresAt.isZero && now.after expiresAt

/-- The item is no longer visible to reads. -/
def CacheItem.expired (item : CacheItem) (now : Time) : Bool := hasExpired item.expiresAt now

/-- An entry as `Snapshot` copies it out. -/
structure SnapshotEntry where
  value : GoString
  expiresAt : Time
  deriving DecidableEq

/-- Go's `map[string]*CacheItem`. -/
abbrev ItemMap := Finmap fun _ : GoString => CacheItem

/-- The cache, together with the heap its list nodes live on. -/
structure Cache where
  data : ItemMap
  lru : LRU
  heap : Heap
  maxSize : Int
  metrics : Collector
  currentMemoryBytes : Int64

namespace Cache

/-- `NewCache`. -/
def new (maxSize : Int) : Cache where
  data := ∅
  lru := LRU.empty
  heap := []
  maxSize := maxSize
  metrics := Collector.new
  currentMemoryBytes := 0

/-- `len(c.data)`. -/
def len (c : Cache) : Nat := c.data.keys.card

/-- `calculateItemSize`: both strings with their headers, and 64 bytes of
    overhead for the item. -/
def calculateItemSize (key value : GoString) : Int64 :=
  (Int64.ofNat key.length + 16) + (Int64.ofNat value.length + 16) + 64

/-- The eviction in `Set`: the tail of the list goes, and with it the map entry
    of the key it held. -/
def evict (c : Cache) : Except Panic Cache := do
  let (evictedKey, lru, heap) ← c.lru.removeLRU c.heap
  let c := { c with lru := lru, heap := heap }
  match c.data.lookup evictedKey with
  | some evictedItem =>
    return { c with
      currentMemoryBytes := c.currentMemoryBytes - calculateItemSize evictedKey evictedItem.value
      metrics := c.metrics.recordEviction
      data := c.data.erase evictedKey }
  | none => return { c with data := c.data.erase evictedKey }

/-- What `Set` does first for a key the map does not hold: evict when full. -/
def makeRoom (c : Cache) : Except Panic Cache := if c.maxSize ≤ c.len then c.evict else .ok c

/-- The deadline of an entry written now. -/
def expiry (ttl : Duration) (now : Time) : Time := if 0 < ttl then now.add ttl else 0

/-- The last lines of `Set`: account for the new item and report. -/
def recordSet (c : Cache) (key value : GoString) : Cache :=
  let bytes := c.currentMemoryBytes + calculateItemSize key value
  { c with currentMemoryBytes := bytes, metrics := c.metrics.recordSet.update c.len bytes }

/-- `SetInternal`. -/
def setInternal (c : Cache) (key value : GoString) (ttl : Duration) (now : Time) :
    Except Panic Cache :=
  match c.data.lookup key with
  | some item => do
    let (lru, heap) ← c.lru.moveToFront c.heap item.node
    let c := { c with
      currentMemoryBytes := c.currentMemoryBytes - calculateItemSize key item.value
      data := c.data.insert key { item with value := value, expiresAt := expiry ttl now }
      lru := lru
      heap := heap }
    return c.recordSet key value
  | none => do
    let c ← c.makeRoom
    let (node, lru, heap) ← c.lru.add c.heap key
    let item := { value := value, expiresAt := expiry ttl now, node := node }
    let c := { c with data := c.data.insert key item, lru := lru, heap := heap }
    return c.recordSet key value

/-- `Set`. -/
def set : Cache → GoString → GoString → Duration → Time → Except Panic Cache := setInternal

/-- `GetInternal`. -/
def getInternal (c : Cache) (key : GoString) (now : Time) :
    Except Panic ((GoString × Bool) × Cache) :=
  match c.data.lookup key with
  | none =>
    .ok ((GoString.empty, false), { c with metrics := c.metrics.recordGet.recordCacheMiss })
  | some item =>
    if item.expired now then
      -- an expired entry is only reported: it stays where it is until cleanup
      .ok ((GoString.empty, false),
        { c with metrics := c.metrics.recordGet.recordCacheMiss.recordExpiration })
    else do
      let (lru, heap) ← c.lru.moveToFront c.heap item.node
      return ((item.value, true),
        { c with lru := lru, heap := heap, metrics := c.metrics.recordGet.recordCacheHit })

/-- `Get`. -/
def get : Cache → GoString → Time → Except Panic ((GoString × Bool) × Cache) := getInternal

/-- Take an entry out of the list and the map. -/
def removeItem (c : Cache) (key : GoString) (item : CacheItem) : Except Panic Cache := do
  let (lru, heap) ← c.lru.removeNode c.heap item.node
  return { c with
    currentMemoryBytes := c.currentMemoryBytes - calculateItemSize key item.value
    lru := lru
    heap := heap
    data := c.data.erase key }

/-- `DeleteInternal`. -/
def deleteInternal (c : Cache) (key : GoString) : Except Panic Cache :=
  match c.data.lookup key with
  | none => .ok { c with metrics := c.metrics.recordDelete }
  | some item => do
    let c ← c.removeItem key item
    return { c with metrics := c.metrics.recordDelete.update c.len c.currentMemoryBytes }

/-- `Delete`. -/
def delete : Cache → GoString → Except Panic Cache := deleteInternal

/-- The loop of `CleanupExpired` over the keys still to visit. A key the map
    does not hold cannot come up in Go; the model skips it. -/
def cleanupLoop (now : Time) : List GoString → Nat → Cache → Except Panic (Nat × Cache)
  | [], expiredCount, c => .ok (expiredCount, c)
  | key :: order, expiredCount, c =>
    match c.data.lookup key with
    | none => cleanupLoop now order expiredCount c
    | some item =>
      if item.expired now then do
        let c ← c.removeItem key item
        cleanupLoop now order (expiredCount + 1)
          { c with metrics := c.metrics.recordExpiration }
      else cleanupLoop now order expiredCount c

/-- `CleanupExpired`, visiting the map in the given order. -/
def cleanupExpired (c : Cache) (order : List GoString) (now : Time) :
    Except Panic (Nat × Cache) := do
  let (expiredCount, c) ← cleanupLoop now order 0 c
  if 0 < expiredCount then
    return (expiredCount, { c with metrics := c.metrics.update c.len c.currentMemoryBytes })
  else return (expiredCount, c)

/-- `order` visits every key of the map exactly once. -/
def Enumerates (c : Cache) (order : List GoString) : Prop :=
  order.Nodup ∧ order.toFinset = c.data.keys

instance (c : Cache) (order : List GoString) : Decidable (c.Enumerates order) :=
  inferInstanceAs (Decidable (_ ∧ _))

/-- `Snapshot`, as the entries a loop over it visits in the given order. -/
def snapshot (c : Cache) (order : List GoString) : List (GoString × SnapshotEntry) :=
  order.filterMap fun key =>
    (c.data.lookup key).map fun item => (key, ⟨item.value, item.expiresAt⟩)

/-- `GetAllKeys`, which lists the keys of the map in any order. -/
def getAllKeys (c : Cache) : Finset GoString := c.data.keys

end Cache

end GoCache.Native
