import GoCache.Native.Migrator
import GoCache.Native.Redirect

/-!
# The Go client

`pkg/client/client.go`: a connection to one node at a time, and the commands that
follow a redirect to another node.
-/

namespace GoCache.Native

/-! ## Responses -/

mutual

/-- What `%v` prints for a value that `Parse` returns. Its integers are of type `int`. -/
def Value.format : Value → Bytes
  | .str s => s.bytes
  | .int n => itoa n
  | .arr elements => byte '[' :: formatElements elements ++ [byte ']']
  | .nilArr => ascii "[]"

/-- The elements of a slice, with a space between them. -/
def formatElements : List Value → Bytes
  | [] => []
  | [element] => element.format
  | element :: elements => element.format ++ byte ' ' :: formatElements elements

end

/-- A text that is put together as a string in memory. -/
def newString (text : Bytes) : Except Panic GoString :=
  if h : text.length ≤ maxAlloc then .ok ⟨text, h⟩ else .error .makeSlice

/-! ## Connections -/

/-- A `Client`: the node it is connected to, what its reader has not read yet, the
    first error its writer has met, and whether the connection is closed. -/
structure Client (ω : Type) where
  world : ω
  address : GoString
  unread : Bytes
  writeErr : Option Bytes
  closed : Bool

/-- `MaxRedirects`. -/
def maxRedirects : Nat := 5

namespace Client

variable {ω : Type} (net : Network ω)

/-- A client with a new connection. -/
def connected (world : ω) (address : GoString) : Client ω := ⟨world, address, [], none, false⟩

/-- `NewClient`. -/
def newClient (world : ω) (address : GoString) : Except Bytes (Client ω) :=
  match net.dial world address with
  | .error text => .error (ascii "failed to connect: " ++ text)
  | .ok world => .ok (connected world address)

/-- `WriteString` and `Flush` of the writer, which keeps the first error: nil, or the
    text of the error behind what the caller says of the two. What does not fit the buffer
    is written by `WriteString`. -/
def transmit (writing flushing : Bytes) (c : Client ω) (encoded : Bytes) :
    Option Bytes × Client ω :=
  match c.writeErr with
  | some text => (some (writing ++ text), c)
  | none =>
    match if c.closed then .error (ascii "use of closed network connection")
      else net.write c.world c.address encoded with
    | .error text =>
      (some ((if 4096 < encoded.length then writing else flushing) ++ text),
        { c with writeErr := some text })
    | .ok (answer, world) => (none, { c with world := world, unread := c.unread ++ answer })

/-- A command is written and flushed. -/
def send : Client ω → Bytes → Option Bytes × Client ω :=
  transmit net (ascii "failed to write command: ") (ascii "failed to flush: ")

/-- `readResponse`: the text of every value is what `%v` prints. -/
def readResponse (c : Client ω) : Except Panic (Except Bytes GoString × Client ω) :=
  match parse c.unread with
  | .ok result rest => do
    let response ← newString result.format
    return (.ok response, { c with unread := rest })
  | .err e rest => .ok (.error e.text, { c with unread := rest })
  | .abort p => .error p

/-- The loop of `executeCommandWithRedirect`, with the number of turns that are left. -/
def redirectLoop (command : List Element) :
    Nat → Client ω → Except Panic (Except Bytes GoString × Client ω)
  | 0, c => .ok (.error (ascii "too many redirects (5)"), c)
  | turns + 1, c =>
    match c.send net (encodeArray command) with
    | (some text, c) => .ok (.error text, c)
    | (none, c) => do
      match ← c.readResponse with
      | (.error text, c) => return (.error (ascii "failed to read response: " ++ text), c)
      | (.ok response, c) =>
        if isRedirect response then
          match parseRedirect response with
          | .error text => return (.error (ascii "failed to parse redirect: " ++ text), c)
          | .ok redirect =>
            match net.dial c.world redirect.address with
            | .error text =>
              return (.error (ascii "failed to connect to leader: " ++ text),
                { c with closed := true })
            | .ok world => redirectLoop command turns (connected world redirect.address)
        else return (.ok response, c)

/-- `executeCommandWithRedirect`. -/
def executeCommandWithRedirect (c : Client ω) (command : List Element) :
    Except Panic (Except Bytes GoString × Client ω) := redirectLoop net command maxRedirects c

/-- `Set`: nil, or the text of the error. -/
def set (c : Client ω) (key value : GoString) : Except Panic (Option Bytes × Client ω) := do
  match ← c.executeCommandWithRedirect net [.str (lit "SET"), .str key, .str value] with
  | (.error text, c) => return (some text, c)
  | (.ok response, c) =>
    if response ≠ lit "OK" then return (some (ascii "unexpected response: " ++ response.bytes), c)
    else return (none, c)

/-- `Get`. -/
def get (c : Client ω) (key : GoString) : Except Panic (Except Bytes GoString × Client ω) :=
  c.executeCommandWithRedirect net [.str (lit "GET"), .str key]

/-- `SetWithTTL`. -/
def setWithTTL (c : Client ω) (key value : GoString) (ttl : Int64) :
    Except Panic (Option Bytes × Client ω) := do
  match ← c.executeCommandWithRedirect net
      [.str (lit "SET"), .str key, .str value, .str (itoaString ttl)] with
  | (.error text, c) => return (some text, c)
  | (.ok response, c) =>
    if response ≠ lit "OK" then return (some (ascii "unexpected response: " ++ response.bytes), c)
    else return (none, c)

/-- `Delete`. -/
def delete (c : Client ω) (key : GoString) : Except Panic (Option Bytes × Client ω) := do
  match ← c.executeCommandWithRedirect net [.str (lit "DEL"), .str key] with
  | (.error text, c) => return (some text, c)
  | (.ok response, c) =>
    if response ≠ lit "OK" ∧ response ≠ lit ":1\r\n" ∧ response ≠ lit "1" then
      return (some (ascii "unexpected response: " ++ response.bytes), c)
    else return (none, c)

/-! ## Transactions -/

/-- The commands without arguments that start and discard a transaction: nil, or the
    text of the error. -/
def control (c : Client ω) (name : GoString) : Except Panic (Option Bytes × Client ω) := do
  match ← c.executeCommandWithRedirect net [.str name] with
  | (.error text, c) => return (some (name.bytes ++ ascii " failed: " ++ text), c)
  | (.ok response, c) =>
    if response ≠ lit "OK" then
      return (some (name.bytes ++ ascii " failed: " ++ response.bytes), c)
    else return (none, c)

/-- `Multi`. -/
def multi (c : Client ω) : Except Panic (Option Bytes × Client ω) := c.control net (lit "MULTI")

/-- `Discard`. -/
def discard (c : Client ω) : Except Panic (Option Bytes × Client ω) :=
  c.control net (lit "DISCARD")

/-- What `Exec` makes of the value it has read. `Parse` returns no errors and no nil
    values, and every element is printed as `%v` prints it. -/
def execResults : Value → Except Panic (Except Bytes (List GoString))
  | .str s =>
    if s.bytes.head? = some (byte '-') then .ok (.error (ascii "EXEC error: " ++ s.bytes))
    else .ok (.error (ascii "unexpected EXEC response type: string"))
  | .int _ => .ok (.error (ascii "unexpected EXEC response type: int"))
  | .arr elements => do
    let responses ← elements.mapM fun element => newString element.format
    return .ok responses
  | .nilArr => .ok (.ok [])

/-- `Exec`. -/
def exec (c : Client ω) : Except Panic (Except Bytes (List GoString) × Client ω) :=
  match c.transmit net (ascii "failed to write EXEC: ") (ascii "failed to flush EXEC: ")
      (encodeArray [.str (lit "EXEC")]) with
  | (some text, c) => .ok (.error text, c)
  | (none, c) =>
    match parse c.unread with
    | .err e rest =>
      .ok (.error (ascii "failed to read EXEC response: " ++ e.text), { c with unread := rest })
    | .abort p => .error p
    | .ok result rest => do
      let results ← execResults result
      return (results, { c with unread := rest })

end Client

/-- A `TransactionPipeline`; its client is an argument of `execute`. -/
structure TransactionPipeline where
  commands : List (List Element)
  started : Bool

namespace TransactionPipeline

/-- `NewTransaction`. -/
def new : TransactionPipeline := ⟨[], false⟩

/-- `Set`. -/
def set (tp : TransactionPipeline) (key value : GoString) : TransactionPipeline :=
  { tp with commands := tp.commands ++ [[.str (lit "SET"), .str key, .str value]] }

/-- `SetWithTTL`. -/
def setWithTTL (tp : TransactionPipeline) (key value : GoString) (ttl : Int64) :
    TransactionPipeline :=
  { tp with commands :=
      tp.commands ++ [[.str (lit "SET"), .str key, .str value, .str (itoaString ttl)]] }

/-- `Get`. -/
def get (tp : TransactionPipeline) (key : GoString) : TransactionPipeline :=
  { tp with commands := tp.commands ++ [[.str (lit "GET"), .str key]] }

/-- `Del`. -/
def del (tp : TransactionPipeline) (key : GoString) : TransactionPipeline :=
  { tp with commands := tp.commands ++ [[.str (lit "DEL"), .str key]] }

variable {ω : Type} (net : Network ω)

/-- The loop of `Execute` over the commands: nil, or the text of the error. Whatever
    `Discard` returns is ignored. -/
def sendCommands : List (List Element) → Client ω → Except Panic (Option Bytes × Client ω)
  | [], c => .ok (none, c)
  | cmd :: commands, c => do
    match ← c.executeCommandWithRedirect net cmd with
    | (.error text, c) =>
      let (_, c) ← c.discard net
      return (some (ascii "command failed during transaction: " ++ text), c)
    | (.ok response, c) =>
      if response ≠ lit "QUEUED" then
        let (_, c) ← c.discard net
        return (some (ascii "command rejected during transaction: " ++ response.bytes), c)
      else sendCommands commands c

/-- `Execute`. -/
def execute (tp : TransactionPipeline) (c : Client ω) :
    Except Panic (Except Bytes (List GoString) × Client ω × TransactionPipeline) := do
  match ← c.multi net with
  | (some text, c) => return (.error (ascii "failed to start transaction: " ++ text), c, tp)
  | (none, c) =>
    let tp := { tp with started := true }
    match ← sendCommands net tp.commands c with
    | (some text, c) => return (.error text, c, tp)
    | (none, c) =>
      match ← c.exec net with
      | (.error text, c) => return (.error (ascii "EXEC failed: " ++ text), c, tp)
      | (.ok results, c) => return (.ok results, c, tp)

end TransactionPipeline

end GoCache.Native
