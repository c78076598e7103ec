import GoCache.ForStd.Scanner
import GoCache.ForStd.Utf8
import GoCache.Native.Protocol

/-!
# The Python client

`pkg/client/python/gocache/client.py`: the encoder of commands, the parser of responses, and
the buffer a client parses them from.

The interpreter is a parameter as far as the code depends on it: how many calls of Python
functions fit on the stack, and what `int` makes of a text.
-/

namespace GoCache.Native.Python

/-! ## The interpreter -/

/-- The digits of a text. -/
def digitCount (text : Bytes) : Nat := text.countP fun b => 48 ≤ b && b ≤ 57

/-- An interpreter. `frames` calls of Python functions fit on its stack; a further one raises
    `RecursionError`. Where the call of a builtin such as `find` takes a level as well, as on
    CPython 3.11 and before, `frames` is the recursion limit less the level of that call.
    `int` is the constructor of integers, or none where it raises `ValueError`: it takes
    decimal notation of at most `maxStrDigits` digits, unless that is zero, and other
    notations that are left open here. -/
structure Interpreter where
  frames : Nat
  maxStrDigits : Nat
  int : List Char → Option Int
  int_decimal : ∀ line n, Decimal.parseInt? (Utf8.encode line) = some n →
    int line = if maxStrDigits = 0 ∨ digitCount (Utf8.encode line) ≤ maxStrDigits then some n
      else none

/-- What lacks for a complete message. -/
inductive Incomplete where
  | typeByte
  | bulkString (length : Int)
  | terminator

/-- The exceptions that `_parse` raises. The last two are `ValueError`s of the interpreter. -/
inductive Error where
  | incompleteData (why : Incomplete)
  | unknownType (typeByte : UInt8) (pos : Int)
  | recursion
  | unicodeDecode
  | invalidInt (line : List Char)

/-- A value that `_parse` returns. -/
inductive Value where
  | str (s : List Char)
  | exception (message : List Char)
  | int (n : Int)
  | none
  | list (items : List Value)

/-- A function of `data` and `pos` that returns a value and the new `pos`. -/
abbrev Scanner (α : Type) := Scanning.Scanner UInt8 Error α

open Scanning.Scanner (raise)

/-! ## Bytes objects -/

/-- A bound of a slice: a negative one counts from the end. -/
def sliceBound (length : Nat) (i : Int) : Nat :=
  if i < 0 then (i + length).toNat else min i.toNat length

/-- `data[start:stop]`. -/
def slice (data : Bytes) (start stop : Int) : Bytes :=
  (data.take (sliceBound data.length stop)).drop (sliceBound data.length start)

/-- `data[i]`, or none where it raises `IndexError`. -/
def item (data : Bytes) (i : Int) : Option UInt8 :=
  let i := if i < 0 then i + data.length else i
  if i < 0 then none else data[i.toNat]?

/-- The first position of `sub` in a sequence of bytes. -/
def find (sub : Bytes) : Bytes → Option Nat
  | [] => if sub = [] then some 0 else none
  | b :: bs => if sub.isPrefixOf (b :: bs) then some 0 else (find sub bs).map (· + 1)

/-- `data.index(sub, start)`, or none where it raises `ValueError`. -/
def index (data sub : Bytes) (start : Int) : Option Int :=
  let start := sliceBound data.length start
  (find sub (data.drop start)).map fun i => (start + i : Nat)

/-! ## Parser -/

/-- The first statements of `_parse`. -/
def readType : Scanner UInt8 := fun data pos =>
  match item data pos with
  | none => .error (.incompleteData .typeByte)
  | some typeByte => .ok (typeByte, pos + 1)

/-- `_read_line`. -/
def readLine : Nat → Scanner (List Char)
  | 0 => raise .recursion
  | _ + 1 => fun data pos =>
    match index data crlf pos with
    | none => .error (.incompleteData .terminator)
    | some stop =>
      match Utf8.decode (slice data pos stop) with
      | none => .error .unicodeDecode
      | some line => .ok (line, stop + 2)

/-- `int(line)`. -/
def Interpreter.toInt (py : Interpreter) (line : List Char) : Scanner Int :=
  match py.int line with
  | none => raise (.invalidInt line)
  | some n => return n

/-- The data of a bulk string that is not null. -/
def readBulk (length : Int) : Scanner (List Char) := fun data pos =>
  if (data.length : Int) < pos + length + 2 then .error (.incompleteData (.bulkString length))
  else
    match Utf8.decode (slice data pos (pos + length)) with
    | none => .error .unicodeDecode
    | some value => .ok (value, pos + length + 2)

/-- The loop over the elements of an array. -/
def readItems (parse : Scanner Value) : Nat → Scanner (List Value)
  | 0 => return []
  | count + 1 => do
    let item ← parse
    let items ← readItems parse count
    return item :: items

/-- The branches of `_parse`, with `_parse` and `_read_line` as they can be called there. -/
def parseTyped (py : Interpreter) (parse : Scanner Value) (readLine : Scanner (List Char))
    (typeByte : UInt8) : Scanner Value :=
  if typeByte = byte '+' then .str <$> readLine
  else if typeByte = byte '-' then .exception <$> readLine
  else if typeByte = byte ':' then do
    let line ← readLine
    let n ← py.toInt line
    return .int n
  else if typeByte = byte '$' then do
    let lengthStr ← readLine
    let length ← py.toInt lengthStr
    if length = -1 then return .none else .str <$> readBulk length
  else if typeByte = byte '*' then do
    let countStr ← readLine
    let count ← py.toInt countStr
    -- a range of a negative length is empty
    if count = -1 then return .none else .list <$> readItems parse count.toNat
  else fun _ pos => .error (.unknownType typeByte (pos - 1))

/-- `_parse`, with the calls that fit on the stack. -/
def parse (py : Interpreter) : Nat → Scanner Value
  | 0 => raise .recursion
  | frames + 1 => do
    let typeByte ← readType
    parseTyped py (parse py frames) (readLine frames) typeByte

/-! ## Encoder -/

/-- A code point of a `str`; surrogates have no UTF-8. -/
inductive CodePoint where
  | scalar (c : Char)
  | surrogate (n : Fin 2048)

/-- `s.encode()`, or none where it raises `UnicodeEncodeError`. -/
def encodeStr : List CodePoint → Option Bytes
  | [] => some []
  | .scalar c :: cs => (encodeStr cs).map (String.utf8EncodeChar c ++ ·)
  | .surrogate _ :: _ => none

/-- The loop of `encode_command`. -/
def encodeArgs : List (List CodePoint) → Option Bytes
  | [] => some []
  | arg :: args => do
    let argBytes ← encodeStr arg
    let parts ← encodeArgs args
    return byte '$' :: Decimal.formatNat argBytes.length ++ crlf ++ (argBytes ++ crlf) ++ parts

/-- `encode_command`, on the string forms of the arguments. -/
def encodeCommand (args : List (List CodePoint)) : Option Bytes :=
  (encodeArgs args).map fun parts =>
    byte '*' :: Decimal.formatNat args.length ++ crlf ++ parts

/-! ## Client -/

/-- The buffer of a client, and what `recv` will return or raise. The server closes the
    connection behind it. -/
structure Client where
  buffer : Bytes
  incoming : List (Except Bytes Bytes)

/-- The exceptions of `_read_response`: `GoCacheCommandError`, `GoCacheConnectionError`, and
    those of `_parse`. -/
inductive ClientError where
  | command (message : List Char)
  | lost (text : Bytes)
  | closed
  | parse (e : Error)

/-- Whether the buffer holds less than one message. -/
def needsMore (parse : Scanner Value) (buffer : Bytes) : Except Error Bool :=
  match parse buffer 0 with
  | .ok _ => .ok false
  | .error (.incompleteData _) => .ok true
  | .error e => .error e

/-- The loop of `_fill_buffer_until_complete`. -/
def fillLoop (parse : Scanner Value) :
    Bytes → List (Except Bytes Bytes) → Except ClientError Unit × Client
  | buffer, incoming =>
    match needsMore parse buffer, incoming with
    | .error e, incoming => (.error (.parse e), ⟨buffer, incoming⟩)
    | .ok false, incoming => (.ok (), ⟨buffer, incoming⟩)
    | .ok true, [] => (.error .closed, ⟨buffer, []⟩)
    | .ok true, .error text :: incoming => (.error (.lost text), ⟨buffer, incoming⟩)
    | .ok true, .ok chunk :: incoming =>
      if chunk = [] then (.error .closed, ⟨buffer, incoming⟩)
      else fillLoop parse (buffer ++ chunk) incoming

/-- `_fill_buffer_until_complete`. -/
def fillBufferUntilComplete (py : Interpreter) (c : Client) :
    Nat → Except ClientError Unit × Client
  | 0 => (.error (.parse .recursion), c)
  | frames + 1 => fillLoop (parse py frames) c.buffer c.incoming

/-- `_read_response`. -/
def readResponse (py : Interpreter) (c : Client) : Nat → Except ClientError Value × Client
  | 0 => (.error (.parse .recursion), c)
  | frames + 1 =>
    match fillBufferUntilComplete py c frames with
    | (.error e, c) => (.error e, c)
    | (.ok (), c) =>
      match parse py frames c.buffer 0 with
      | .error e => (.error (.parse e), c)
      | .ok (value, consumed) =>
        let c := { c with buffer := c.buffer.drop (sliceBound c.buffer.length consumed) }
        match value with
        | .exception message => (.error (.command message), c)
        | value => (.ok value, c)

/-- Successive calls of `_read_response`, whatever they return or raise. -/
def readResponses (py : Interpreter) : Nat → Client → List (Except ClientError Value) × Client
  | 0, c => ([], c)
  | calls + 1, c =>
    let (response, c) := readResponse py c py.frames
    let (responses, c) := readResponses py calls c
    (response :: responses, c)

end GoCache.Native.Python
