import GoCache.Native.Handler

/-!
# `EXEC` and the lock of the cache

`handleExec` holds `Cache.mu` from before the first queued command until it
returns. Here it is taken in a monad that says what `executeDBSizeCommand` does
about that lock:

- a goroutine that runs alone, with `Cache.mu` as Go's `sync.RWMutex`;
- no lock at all.

`SetInternal`, `GetInternal` and `DeleteInternal` take no lock; `GetAllKeys`,
which `executeDBSizeCommand` calls, takes it for reading.
-/

namespace GoCache.Native

/-! ## The lock -/

/-- A `sync.RWMutex`. -/
structure RWMutex where
  writer : Bool
  readers : Nat
  deriving DecidableEq

/-- A mutex nobody holds. -/
def RWMutex.free : RWMutex := ⟨false, 0⟩

/-- Code of a goroutine that runs alone. A lock it has to wait for is never
    released: nobody else runs. -/
abbrev Locked := StateT RWMutex (Except Panic)

namespace RWMutex

/-- `Lock`: waits for the writer and for all readers. -/
def lock : Locked Unit := fun mu =>
  if mu.writer ∨ 0 < mu.readers then .error .deadlock else .ok ((), { mu with writer := true })

/-- `Unlock`. -/
def unlock : Locked Unit := fun mu => .ok ((), { mu with writer := false })

/-- `RLock`: waits for the writer. -/
def rLock : Locked Unit := fun mu =>
  if mu.writer then .error .deadlock else .ok ((), { mu with readers := mu.readers + 1 })

/-- `RUnlock`. -/
def rUnlock : Locked Unit := fun mu => .ok ((), { mu with readers := mu.readers - 1 })

end RWMutex

/-- The number of keys `GetAllKeys` returns. -/
def countAllKeys (c : Cache) : Locked Nat := do
  RWMutex.rLock
  let count := c.getAllKeys.card
  RWMutex.rUnlock
  return count

/-- The response of `executeDBSizeCommand`. -/
def replyDBSize (count : Nat) : Bytes := byte ':' :: itoa (Int64.ofNat count) ++ crlf

/-- `executeDBSizeCommand`. -/
def executeDBSizeCommand (c : Cache) : Locked Bytes := do
  let count ← countAllKeys c
  return replyDBSize count

/-! ## `handleExec` -/

/-- `handleExec` of a goroutine that runs alone. -/
def handleExecLocked : Server → ConnectionState → (Nat → Time) →
    Locked (Bytes × Server × ConnectionState) :=
  handleExecIn executeDBSizeCommand RWMutex.lock RWMutex.unlock

/-- `handleExec` if no lock has to be waited for. -/
def handleExecUnlocked : ExecHandler :=
  handleExecIn (fun c => pure (replyDBSize c.getAllKeys.card)) (pure ()) (pure ())

end GoCache.Native
