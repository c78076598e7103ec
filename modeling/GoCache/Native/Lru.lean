import GoCache.Native.Go
import GoCache.ForStd.DoublyLinked

/-!
# The LRU list

`internal/lru/lru.go`: a doubly linked list of keys, most recently used first.
Nodes live on an explicit heap that the operations thread through; reading or
writing a field of a nil pointer is the panic `nilDereference`. Removed nodes
keep their stale pointers, as in the source.
-/

namespace GoCache.Native

open DoublyLinked (setPrev setNext)

/-- A list node: its key and its two pointers. -/
abbrev Node := DoublyLinked.Cell GoString

/-- The heap the nodes are allocated on. -/
abbrev Heap := DoublyLinked.Heap GoString

/-- A non-nil `*Node`. -/
abbrev Ptr := Nat

/-- The two ends of the list. -/
structure LRU where
  head : Option Ptr
  tail : Option Ptr
  deriving DecidableEq

namespace LRU

/-- The empty list, `&lru.LRU{}`. -/
def empty : LRU := ⟨none, none⟩

/-- The node a pointer points to. -/
def deref (h : Heap) (p : Option Ptr) : Except Panic Node :=
  match p.bind fun p => h[p]? with
  | some n => .ok n
  | none => .error .nilDereference

/-- `p.prev = a`. -/
def storePrev (h : Heap) (p a : Option Ptr) : Except Panic Heap :=
  match p with
  | some p => .ok (setPrev h p a)
  | none => .error .nilDereference

/-- `p.next = b`. -/
def storeNext (h : Heap) (p b : Option Ptr) : Except Panic Heap :=
  match p with
  | some p => .ok (setNext h p b)
  | none => .error .nilDereference

/-- `RemoveNode`. -/
def removeNode (lru : LRU) (h : Heap) (node : Ptr) : Except Panic (LRU × Heap) :=
  if lru.head = some node ∧ lru.tail = some node then
    -- only node in the list
    .ok (⟨none, none⟩, h)
  else if lru.head = some node then do
    let n ← deref h node
    let h ← storePrev h n.next none
    return ({ lru with head := n.next }, h)
  else if lru.tail = some node then do
    let n ← deref h node
    let h ← storeNext h n.prev none
    return ({ lru with tail := n.prev }, h)
  else do
    -- in the middle: both neighbours are read again after the first write
    let n ← deref h node
    let h ← storeNext h n.prev n.next
    let n ← deref h node
    let h ← storePrev h n.next n.prev
    return (lru, h)

/-- `addToFront`. -/
def addToFront (lru : LRU) (h : Heap) (node : Ptr) : Except Panic (LRU × Heap) :=
  if lru.head = none ∧ lru.tail = none then do
    let h ← storeNext h node none
    let h ← storePrev h node none
    return (⟨some node, some node⟩, h)
  else do
    let h ← storePrev h node none
    let h ← storeNext h node lru.head
    let h ← storePrev h lru.head (some node)
    return ({ lru with head := some node }, h)

/-- `MoveToFront`. -/
def moveToFront (lru : LRU) (h : Heap) (node : Ptr) : Except Panic (LRU × Heap) :=
  if lru.head = some node then
    .ok (lru, h)
  else do
    let (lru, h) ← removeNode lru h node
    addToFront lru h node

/-- `RemoveLRU`: drop the tail and return its key, or the empty string when
    there is none. -/
def removeLRU (lru : LRU) (h : Heap) : Except Panic (GoString × LRU × Heap) :=
  match lru.tail with
  | none => .ok (GoString.empty, lru, h)
  | some tail => do
    let n ← deref h (some tail)
    let (lru, h) ← removeNode lru h tail
    return (n.key, lru, h)

/-- `Add`: a fresh node for `key` in front. -/
def add (lru : LRU) (h : Heap) (key : GoString) : Except Panic (Ptr × LRU × Heap) := do
  let newNode := h.length
  let h := h ++ [{ key := key, prev := none, next := none }]
  let (lru, h) ← addToFront lru h newNode
  return (newNode, lru, h)

end LRU

end GoCache.Native
