import GoCache.ForStd.Binary64

/-!
# The Go runtime

The few pieces of the Go runtime the cache relies on: strings as byte
sequences, run-time panics, and instants and durations in nanoseconds.

Go's `int` and `int64` are both `Int64` here: the server runs on 64-bit
platforms, where the two have the same values.
-/

namespace GoCache.Native

/-- A byte stream: the content of a file, or what a connection carries. -/
abbrev Bytes := List UInt8

/-- The largest single allocation the runtime grants on a 64-bit platform.
    A larger `make` panics, and no string or slice in memory is longer. -/
def maxAlloc : Nat := 2 ^ 48

/-- A Go string: arbitrary bytes, no more than one allocation holds. -/
structure GoString where
  bytes : Bytes
  length_le : bytes.length ≤ maxAlloc
  deriving DecidableEq

namespace GoString

/-- The empty string, Go's zero value of the type. -/
def empty : GoString := ⟨[], Nat.zero_le _⟩

instance : Inhabited GoString := ⟨empty⟩

/-- Go's `len`. -/
def length (s : GoString) : Nat := s.bytes.length

@[ext] theorem ext {s t : GoString} (h : s.bytes = t.bytes) : s = t := by
  cases s; cases t; simp only at h; subst h; rfl

@[simp] theorem bytes_empty : empty.bytes = [] := rfl

end GoString

/-- The bytes of an ASCII literal. -/
def ascii (s : String) : Bytes := s.toList.map fun c => c.toNat.toUInt8

/-- An ASCII string literal of the source as a Go string. -/
def lit (s : String) : GoString :=
  if h : (ascii s).length ≤ maxAlloc then ⟨ascii s, h⟩ else GoString.empty

/-- The run-time panics of the modelled code, and `deadlock` for a goroutine that
    blocks for ever on a lock it holds. `outOfFuel` is none of Go's: it is what a
    fuelled recursion of the model returns when its bound runs out, and each such
    recursion is shown never to get there. -/
inductive Panic where
  | nilDereference
  | indexOutOfRange
  | typeAssertion
  | makeSlice
  | nilMap
  | closedChannel
  | deadlock
  | outOfMemory
  | stackOverflow
  | outOfFuel
  deriving DecidableEq, Repr

/-- A sequence of two computations succeeds exactly if both do. -/
theorem bind_eq_ok {α β : Type} {x : Except Panic α} {f : α → Except Panic β} {b : β} :
    x >>= f = .ok b ↔ ∃ a, x = .ok a ∧ f a = .ok b := by
  cases x with
  | error p => simp [bind, Except.bind]
  | ok a => simp [bind, Except.bind]

/-- A result that is mapped comes from one that is not. -/
theorem map_eq_ok {ε α β : Type} {x : Except ε α} {f : α → β} {b : β} :
    x.map f = .ok b ↔ ∃ a, x = .ok a ∧ f a = b := by
  cases x with
  | error p => simp [Except.map]
  | ok a => simp [Except.map]

/-! ## Instants and durations -/

/-- A `time.Time`: nanoseconds since the zero instant. -/
abbrev Time := Nat

/-- A `time.Duration`: nanoseconds in a signed 64-bit integer that wraps. -/
abbrev Duration := Int64

namespace Time

/-- `t.IsZero()`. -/
def isZero (t : Time) : Bool := t == 0

/-- `t.After(u)`. -/
def after (t u : Time) : Bool := u < t

/-- `t.Add(d)`. -/
def add (t : Time) (d : Duration) : Time := ((t : Int) + d.toInt).toNat

end Time

/-- `time.Second`. -/
def second : Duration := 1000000000

/-- `d.Seconds()` of a duration that is not negative: the sum of the whole seconds and of
    the other nanoseconds divided by `1e9`, all of them `float64`. -/
def secondsFloat (nanoseconds : Nat) : Binary64 :=
  (Binary64.ofNat (nanoseconds / 1000000000)).add
    ((Binary64.ofNat (nanoseconds % 1000000000)).div (.ofNat 1000000000))

/-- `int64(d.Seconds())`. A negative duration gives the same number with its sign. -/
def Duration.seconds (d : Duration) : Int64 :=
  .ofInt (d.toInt.sign * (secondsFloat d.toInt.natAbs).truncate)

end GoCache.Native
