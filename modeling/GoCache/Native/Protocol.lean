import GoCache.ForStd.Decimal
import GoCache.ForStd.Reader
import GoCache.Native.Go

/-!
# The RESP protocol

`pkg/protocol`: the encoder and the parser of RESP values. A `bufio.Reader` is
the finite sequence of the bytes it still has to deliver.
-/

namespace GoCache.Native

/-! ## Decimal conversion -/

/-- An ASCII character as a byte. -/
def byte (c : Char) : UInt8 := c.toNat.toUInt8

/-- The line terminator. -/
def crlf : Bytes := [byte '\r', byte '\n']

/-- `strconv.Itoa` and `strconv.FormatInt` in base 10. -/
def itoa (n : Int64) : Bytes := Decimal.formatInt n.toInt

theorem length_itoa_le (n : Int64) : (itoa n).length ≤ 20 := by
  have hlo := Int64.le_toInt n
  have hhi := Int64.toInt_lt n
  exact Decimal.length_formatInt_le (k := 19) (by omega) (by omega)

/-- The decimal text of an integer as a string. -/
def itoaString (n : Int64) : GoString where
  bytes := itoa n
  length_le := (length_itoa_le n).trans (by decide)

/-- `strconv.Atoi` and `strconv.ParseInt` in base 10: the value, unless the
    text is no integer or the integer does not fit 64 bits. -/
def atoi (s : Bytes) : Option Int64 :=
  match Decimal.parseInt? s with
  | none => none
  | some n => if -2 ^ 63 ≤ n ∧ n < 2 ^ 63 then some (Int64.ofInt n) else none

/-! ## Encoder -/

/-- `EncodeSimpleString`. -/
def encodeSimpleString (s : Bytes) : Bytes := byte '+' :: s ++ crlf

/-- `EncodeBulkString`. -/
def encodeBulkString (s : GoString) (isNull : Bool) : Bytes :=
  if isNull then ascii "$-1" ++ crlf
  else byte '$' :: itoa (Int64.ofNat s.length) ++ crlf ++ s.bytes ++ crlf

/-- `EncodeInteger`. -/
def encodeInteger (n : Int64) : Bytes := byte ':' :: itoa n ++ crlf

/-- `EncodeError`. -/
def encodeError (s : Bytes) : Bytes := byte '-' :: s ++ crlf

/-- An element of an array to encode: a value of one of the types for which
    `EncodeArray` does not panic. -/
inductive Element where
  | str (s : GoString)
  | int (n : Int64)
  | int64 (n : Int64)
  deriving DecidableEq

/-- The type switch in the loop of `EncodeArray`. -/
def encodeElement : Element → Bytes
  | .str s => encodeBulkString s false
  | .int n => encodeInteger n
  | .int64 n => encodeInteger n

/-- `EncodeArray`. -/
def encodeArray (elements : List Element) : Bytes :=
  byte '*' :: itoa (Int64.ofNat elements.length) ++ crlf ++ elements.flatMap encodeElement

/-- A slice of elements: as long as one allocation holds, at the 16 bytes an
    interface value takes. -/
structure ElementSlice where
  elements : List Element
  length_le : 16 * elements.length ≤ maxAlloc

/-! ## Parser -/

/-- The errors of the parser. -/
inductive ParseError where
  | eof
  | unexpectedEOF
  | new (text : String)
  deriving DecidableEq, Repr

/-- `err == io.EOF`. -/
def ParseError.isEOF : ParseError → Bool
  | .eof => true
  | .unexpectedEOF | .new _ => false

/-- A function that reads from a `bufio.Reader`. -/
abbrev Reader (α : Type) := Reading.Reader UInt8 ParseError Panic α

open Reading.Reader (fail abort next)

/-- A value `Parse` returns. `nilArr` is the nil slice of a null array. -/
inductive Value where
  | str (s : GoString)
  | int (n : Int64)
  | arr (elements : List Value)
  | nilArr

/-- `r.ReadByte`. -/
def readByte : Reader UInt8 := next .eof

/-- `r.ReadString`: up to and including the first delimiter. -/
def readString (delim : UInt8) : Reader Bytes := fun s =>
  if delim ∈ s then
    .ok (s.takeWhile (· ≠ delim) ++ [delim]) (s.dropWhile (· ≠ delim)).tail
  else .err .eof []

/-- `io.ReadFull` into a buffer of the given size. -/
def readFull (size : Nat) : Reader Bytes := fun s =>
  if size ≤ s.length then .ok (s.take size) (s.drop size)
  else if s = [] then .err .eof []
  else .err .unexpectedEOF []

/-- Bytes as a string in memory. -/
def toGoString (bytes : Bytes) : Reader GoString :=
  if h : bytes.length ≤ maxAlloc then pure ⟨bytes, h⟩ else abort .makeSlice

/-- `readLine`. -/
def readLine : Reader Bytes := do
  let line ← readString (byte '\n')
  if crlf.isSuffixOf line then return line.take (line.length - crlf.length)
  else fail (.new "invalid RESP: missing \\r\\n")

/-- A `ReadByte` that must deliver the given byte. -/
def expectByte (b : UInt8) (text : String) : Reader Unit
  | [] => .err (.new text) []
  | c :: rest => if c = b then .ok () rest else .err (.new text) rest

section Memory

-- whether the machine has the memory for an allocation of so many bytes
variable (grants : Nat → Bool)

/-- The bytes that `ReadString` puts together for a line, which may be cut off. -/
def lineLength (s : Bytes) : Nat := min ((s.takeWhile (· ≠ byte '\n')).length + 1) s.length

/-- `readLine`, with the memory for the line. -/
def readLineWithin : Reader Bytes := fun s =>
  if grants (lineLength s) then readLine s else .abort .outOfMemory

/-- `parseSimpleString`. -/
def parseSimpleString : Reader GoString := do
  let line ← readLineWithin grants
  toGoString line

/-- `parseError`. -/
def parseError : Reader GoString := do
  let line ← readLineWithin grants
  toGoString line

/-- `parseInteger`. -/
def parseInteger : Reader Int64 := do
  let strNum ← readLineWithin grants
  match atoi strNum with
  | none => fail (.new "invalid RESP: not a valid integer")
  | some num => return num

/-- `make` of a slice with elements of the given size. It panics if the length is negative or
    no allocation holds it; an allocation that the machine does not grant ends the process. -/
def make (size : Nat) (length : Int64) : Reader Unit :=
  if length < 0 ∨ maxAlloc < size * length.toInt.toNat then abort .makeSlice
  else if grants (size * length.toInt.toNat) then return ()
  else abort .outOfMemory

/-- `parseBulkString`. -/
def parseBulkString : Reader GoString := do
  let lengthStr ← readLineWithin grants
  match atoi lengthStr with
  | none => fail (.new "invalid bulk string length")
  | some length =>
    if length = -1 then return GoString.empty
    else do
      make grants 1 length
      let data ← readFull length.toInt.toNat
      expectByte (byte '\r') "expected \\r after bulk string data"
      expectByte (byte '\n') "expected \\n after bulk string data"
      toGoString data

/-- The loop of `parseArray`. -/
def parseElements (parse : Reader Value) : Nat → Reader (List Value)
  | 0 => return []
  | length + 1 => do
    let element ← parse
    let res ← parseElements parse length
    return element :: res

/-- `parseArray`, with the parser of the elements. -/
def parseArray (parse : Reader Value) : Reader Value := do
  let lengthStr ← readLineWithin grants
  match atoi lengthStr with
  | none => fail (.new "invalid array length")
  | some length =>
    if length = -1 then return .nilArr
    else do
      make grants 16 length
      .arr <$> parseElements parse length.toInt.toNat

/-- The switch of `Parse` on the first byte, with the parser of array elements. -/
def parseTyped (parse : Reader Value) (first : UInt8) : Reader Value :=
  if first = byte '+' then .str <$> parseSimpleString grants
  else if first = byte '-' then .str <$> parseError grants
  else if first = byte ':' then .int <$> parseInteger grants
  else if first = byte '$' then .str <$> parseBulkString grants
  else if first = byte '*' then parseArray grants parse
  else fail (.new "unknown RESP type")

/-- `Parse`, with room on the stack for so many calls. -/
def parseFuel : Nat → Reader Value
  | 0 => abort .stackOverflow
  | fuel + 1 => do
    let first ← readByte
    parseTyped grants (parseFuel fuel) first

end Memory

/-- A machine that has the memory for everything. -/
def grantAll : Nat → Bool := fun _ => true

/-- `Parse`, on a machine that grants every allocation and has all the stack it asks for.
    Every array takes a byte of its own, so the number of bytes bounds the depth. -/
def parse : Reader Value := fun s => parseFuel grantAll (s.length + 1) s

/-- What a machine has for `Parse`: the bytes of the largest allocation it grants, and the
    calls of `Parse` inside each other that its stack has room for. -/
structure Machine where
  memory : Nat
  stack : Nat

/-- The machine has the memory for an allocation of so many bytes. -/
def Machine.grants (m : Machine) (bytes : Nat) : Bool := bytes ≤ m.memory

/-- `Parse`, on a machine. -/
def Machine.parse (m : Machine) : Reader Value := parseFuel m.grants m.stack

end GoCache.Native
