import GoCache.Native.Replication

/-!
# Client connections

`internal/server/handler.go`: the dispatch of a client's commands, the handlers
of the immediate commands and the transactions. Every handler returns the bytes
it writes to the connection.

The pub/sub and cluster handlers are a parameter. Latencies are not recorded,
and the file system does not fail.
-/

namespace GoCache.Native

/-! ## State -/

/-- A `ConnectionState`; `commandQueue` is nil outside a transaction. -/
structure ConnectionState where
  subscriberMode : Bool
  inTransaction : Bool
  commandQueue : List (List Value)
  transactionError : Option Bytes

/-- The state of a new connection. -/
def ConnectionState.new : ConnectionState := ⟨false, false, [], none⟩

/-- What `GetRole` returns. -/
inductive Role where
  | leader
  | follower
  | pending
  deriving DecidableEq

/-- A `Leader`: its sequence number, and what it has written to its followers. -/
structure Leader where
  seqNum : Int64
  sent : Bytes

/-- The node the handlers work on. `aof` is what `Append` has written to the log, which is
    the content of the file as long as no rewrite and no snapshot has begun; `trigger` says
    whether an append has started a rewrite. `forward` is `ShouldForwardRequest`: the node
    and address that a key is redirected to in cluster mode. -/
structure Server where
  cache : Cache
  aof : Bytes
  trigger : RewriteTrigger
  leader : Option Leader
  role : Role
  clusterMode : Bool
  forward : GoString → Bool → Option (GoString × GoString)

/-- A handler of `EXEC`, which reads the clock for every command of the queue. -/
abbrev ExecHandler : Type := Server → ConnectionState → (Nat → Time) →
  Except Panic (Bytes × Server × ConnectionState)

/-- The handlers of pub/sub and of the cluster. -/
abbrev OtherHandlers : Type :=
  Server → ConnectionState → List Value → Bytes × Server × ConnectionState

namespace Server

/-- `Replicate`, if there is a leader. -/
def replicate (s : Server) (r : Record) : Server :=
  match s.leader with
  | some l =>
    { s with leader := some ⟨l.seqNum + 1, l.sent ++ replicateBytes (l.seqNum + 1) r⟩ }
  | none => s

/-- The end of `startElection`: the node becomes the leader, with the cache of the
    follower and the AOF it has. -/
def promote (s : Server) (f : Follower) : Server :=
  { s with cache := f.cache, leader := some ⟨0, []⟩, role := .leader }

/-- `Append` of a record. -/
def append (s : Server) (r : Record) : Server :=
  let aof := s.aof ++ r.encode
  { s with aof := aof, trigger := checkRewriteTrigger s.trigger aof.length }

/-- The content of the AOF file, as long as no append has started a rewrite. -/
def aofFile (s : Server) : Option Bytes := if s.trigger.rewriting then none else some s.aof

end Server

/-- The type assertion `v.(string)`. -/
def asString : Value → Except Panic GoString
  | .str s => .ok s
  | .int _ | .arr _ | .nilArr => .error .typeAssertion

/-! ## Immediate commands -/

/-- A reply that is an error, as its first byte says. -/
def isErrorReply (reply : Bytes) : Bool := reply.head? = some (byte '-')

/-- An ASCII letter in upper case. -/
def upperByte (b : UInt8) : UInt8 := if byte 'a' ≤ b ∧ b ≤ byte 'z' then b - 32 else b

/-- `strings.ToUpper(s) == "EX"`: no letter outside ASCII has the upper case `E`
    or `X`. -/
def isEX (s : GoString) : Bool := s.bytes.map upperByte = ascii "EX"

/-- The TTL of a `SET`, from the elements behind the value: none, the seconds, or
    a qualifier and the seconds. The texts are the errors for seconds that are no
    integer, without and with a qualifier. -/
def parseTTL (noInteger noIntegerEX : Bytes) :
    List Value → Except Panic (Except Bytes Duration)
  | [] => .ok (.ok 0)
  | [seconds] => do
    let seconds ← asString seconds
    match atoi seconds.bytes with
    | some ttlSec => return .ok (ttlSec * second)
    | none => return .error noInteger
  | qualifier :: seconds :: _ => do
    let qualifier ← asString qualifier
    if isEX qualifier then
      let seconds ← asString seconds
      match atoi seconds.bytes with
      | some ttlSec => return .ok (ttlSec * second)
      | none => return .error noIntegerEX
    else return .error (ascii "ERR syntax error")

/-- The reply `+OK`. -/
def replyOK : Bytes := encodeSimpleString (ascii "OK")

/-- The error both write handlers give a client of a follower. -/
def readOnly : Bytes :=
  encodeError (ascii "ERR READONLY You can't write against a read only replica")

/-- The error of the immediate handlers for a wrong number of elements. -/
def lengthMismatch : Bytes := encodeError (ascii "Length of command doesn't match")

/-- `handleSet`. -/
def handleSet (s : Server) (now : Time) (resultSlice : List Value) :
    Except Panic (Bytes × Server) :=
  if s.role = .follower then .ok (readOnly, s)
  else
    match resultSlice with
    | _ :: key :: value :: rest =>
      if 2 < rest.length then .ok (lengthMismatch, s)
      else do
        let key ← asString key
        let value ← asString value
        match ← parseTTL (ascii "Couldn't convert seconds to a string")
            (ascii "ERR value is not an integer") rest with
        | .error text => return (encodeError text, s)
        | .ok ttl =>
          let c ← s.cache.set key value ttl now
          return (replyOK, ({ s with cache := c }.replicate (.set key value ttl.seconds)).append
            (.set key value ttl.seconds))
    | _ => .ok (lengthMismatch, s)

/-- The reply to a read. -/
def replyGet (result : GoString × Bool) : Bytes :=
  if result.2 then encodeBulkString result.1 false else encodeBulkString GoString.empty true

/-- `handleGet`. -/
def handleGet (s : Server) (now : Time) (resultSlice : List Value) :
    Except Panic (Bytes × Server) :=
  match resultSlice with
  | [_, key] => do
    let key ← asString key
    let (result, c) ← s.cache.get key now
    return (replyGet result, { s with cache := c })
  | _ => .ok (lengthMismatch, s)

/-- The reply of a `DEL`, whether or not the key was there. -/
def replyDel : Bytes := ascii ":1" ++ crlf

/-- `handleDelete`. -/
def handleDelete (s : Server) (resultSlice : List Value) : Except Panic (Bytes × Server) :=
  if s.role = .follower then .ok (readOnly, s)
  else
    match resultSlice with
    | [_, key] => do
      let key ← asString key
      let c ← s.cache.delete key
      return (replyDel, ({ s with cache := c }.replicate (.del key)).append (.del key))
    | _ => .ok (lengthMismatch, s)

/-- `handleDBSize`. -/
def handleDBSize (s : Server) : Bytes := encodeInteger (Int64.ofNat s.cache.getAllKeys.card)

/-- `handlePing`. -/
def handlePing : Bytes := encodeSimpleString (ascii "PONG")

/-! ## Transactions -/

/-- `canQueueCommand`. -/
def canQueueCommand (command : GoString) : Bool :=
  command ∉ [lit "MULTI", lit "EXEC", lit "DISCARD", lit "SUBSCRIBE", lit "UNSUBSCRIBE",
    lit "PUBLISH", lit "PSUBSCRIBE", lit "PUNSUBSCRIBE", lit "CLUSTER"]

/-- The validation in `queueCommandForTransaction`. -/
def validationErr (command : GoString) (length : Nat) : Option Bytes :=
  if command = lit "SET" then
    if length < 3 ∨ 5 < length then some (ascii "wrong number of arguments for 'set' command")
    else none
  else if command = lit "GET" then
    if length ≠ 2 then some (ascii "wrong number of arguments for 'get' command") else none
  else if command = lit "DEL" then
    if length ≠ 2 then some (ascii "wrong number of arguments for 'del' command") else none
  else if command = lit "DBSIZE" then
    if length ≠ 1 then some (ascii "wrong number of arguments for 'dbsize' command") else none
  else if command = lit "PING" then
    if 2 < length then some (ascii "wrong number of arguments for 'ping' command") else none
  else none

/-- The reply to a queued command. -/
def replyQueued : Bytes := encodeSimpleString (ascii "QUEUED")

/-- `queueCommandForTransaction`. -/
def queueCommandForTransaction (st : ConnectionState) (command : GoString)
    (resultSlice : List Value) : Bytes × ConnectionState :=
  match st.transactionError with
  | some _ => (replyQueued, st)
  | none =>
    match validationErr command resultSlice.length with
    | some text => (encodeError text, { st with transactionError := some text })
    | none => (replyQueued, { st with commandQueue := st.commandQueue ++ [resultSlice] })

/-- `handleMulti`. -/
def handleMulti (st : ConnectionState) : Bytes × ConnectionState :=
  if st.inTransaction then (encodeError (ascii "ERR MULTI calls can not be nested"), st)
  else
    (replyOK, { st with inTransaction := true, commandQueue := [], transactionError := none })

/-- The state behind a transaction. -/
def ConnectionState.reset (st : ConnectionState) : ConnectionState :=
  { st with inTransaction := false, commandQueue := [], transactionError := none }

/-- `handleDiscard`. -/
def handleDiscard (st : ConnectionState) : Bytes × ConnectionState :=
  if st.inTransaction then (replyOK, st.reset)
  else (encodeError (ascii "ERR DISCARD without MULTI"), st)

/-- The error of the `execute` functions for seconds that are no integer. -/
def notInteger : Bytes := ascii "ERR value is not an integer or out of range"

/-- The error of the `execute` functions for a wrong number of elements. -/
def wrongArguments (command : String) : Bytes :=
  encodeError (ascii "ERR wrong number of arguments for '" ++ ascii command ++ ascii "' command")

/-- `executeSetCommand`. -/
def executeSetCommand (c : Cache) (now : Time) (resultSlice : List Value) :
    Except Panic (Bytes × Cache) :=
  match resultSlice with
  | _ :: key :: value :: rest =>
    if 2 < rest.length then .ok (wrongArguments "set", c)
    else do
      let key ← asString key
      let value ← asString value
      match ← parseTTL notInteger notInteger rest with
      | .error text => return (encodeError text, c)
      | .ok ttl =>
        let c ← c.setInternal key value ttl now
        return (replyOK, c)
  | _ => .ok (wrongArguments "set", c)

/-- `executeGetCommand`. -/
def executeGetCommand (c : Cache) (now : Time) (resultSlice : List Value) :
    Except Panic (Bytes × Cache) :=
  match resultSlice with
  | [_, key] => do
    let key ← asString key
    let (result, c) ← c.getInternal key now
    return (replyGet result, c)
  | _ => .ok (wrongArguments "get", c)

/-- `executeDeleteCommand`. -/
def executeDeleteCommand (c : Cache) (resultSlice : List Value) : Except Panic (Bytes × Cache) :=
  match resultSlice with
  | [_, key] => do
    let key ← asString key
    let c ← c.deleteInternal key
    return (replyDel, c)
  | _ => .ok (wrongArguments "del", c)

/-- `executePingCommand`. -/
def executePingCommand : Bytes := encodeSimpleString (ascii "PONG")

/-- The seconds that the second loop of `handleExec` logs for a `SET`: zero if
    they are no integer. -/
def loggedTTL : List Value → Except Panic Int64
  | [seconds] | [_, seconds] => do
    let seconds ← asString seconds
    return (atoi seconds.bytes).getD 0
  | _ => .ok 0

/-- One turn of the second loop of `handleExec`: the command is replicated and
    logged, whatever its response. -/
def persistCommand (s : Server) (cmdSlice : List Value) : Except Panic Server :=
  match cmdSlice with
  | .str command :: args =>
    if command = lit "SET" then
      match args with
      | key :: value :: rest => do
        let key ← asString key
        let value ← asString value
        let ttlSeconds ← loggedTTL rest
        return (s.replicate (.set key value ttlSeconds)).append (.set key value ttlSeconds)
      | _ => .error .indexOutOfRange
    else if command = lit "DEL" then
      match args with
      | key :: _ => do
        let key ← asString key
        return (s.replicate (.del key)).append (.del key)
      | [] => .error .indexOutOfRange
    else .ok s
  | _ => .error .typeAssertion

/-! `handleExec` holds `Cache.mu` from before the first queued command until it returns, and
`executeDBSizeCommand` asks for it. What it does then, and what `cache.Lock` and
`cache.Unlock` do, are parameters. -/

section Exec

variable {m : Type → Type} [Monad m] [MonadLiftT (Except Panic) m] (dbSize : Cache → m Bytes)

/-- One turn of the first loop of `handleExec`. -/
def executeCommandIn (c : Cache) (now : Time) (cmdSlice : List Value) : m (Bytes × Cache) :=
  match cmdSlice with
  | .str command :: _ =>
    if command = lit "SET" then executeSetCommand c now cmdSlice
    else if command = lit "GET" then executeGetCommand c now cmdSlice
    else if command = lit "DEL" then executeDeleteCommand c cmdSlice
    else if command = lit "DBSIZE" then do
      let response ← dbSize c
      return (response, c)
    else if command = lit "PING" then return (executePingCommand, c)
    else return (encodeError (ascii "ERR unknown command '" ++ command.bytes ++ ascii "'"), c)
  | _ => (Except.error .typeAssertion : Except Panic (Bytes × Cache))

/-- The first loop of `handleExec`; the `i`-th command reads `clock i`. -/
def executeQueueIn (clock : Nat → Time) :
    Nat → Cache → List (List Value) → m (List Bytes × Cache)
  | _, c, [] => return ([], c)
  | i, c, cmdSlice :: queue => do
    let (response, c) ← executeCommandIn dbSize c (clock i) cmdSlice
    let (responses, c) ← executeQueueIn clock (i + 1) c queue
    return (response :: responses, c)

/-- `handleExec`. -/
def handleExecIn (lock unlock : m Unit) (s : Server) (st : ConnectionState)
    (clock : Nat → Time) : m (Bytes × Server × ConnectionState) :=
  if !st.inTransaction then return (encodeError (ascii "ERR EXEC without MULTI"), s, st)
  else
    match st.transactionError with
    | some _ =>
      return (encodeError (ascii "EXECABORT Transaction discarded because of previous errors."), s,
        st.reset)
    | none => do
      lock
      let (results, c) ← executeQueueIn dbSize clock 0 s.cache st.commandQueue
      let s ← (st.commandQueue.foldlM persistCommand { s with cache := c } : Except Panic Server)
      unlock
      return (byte '*' :: itoa (Int64.ofNat results.length) ++ crlf ++ results.flatten, s, st.reset)

end Exec

/-- One turn of the first loop of `handleExec`. It holds the lock of the cache, which
    `executeDBSizeCommand` waits for for ever. -/
def executeCommand : Cache → Time → List Value → Except Panic (Bytes × Cache) :=
  executeCommandIn fun _ => .error .deadlock

/-- The first loop of `handleExec`. -/
def executeQueue :
    (Nat → Time) → Nat → Cache → List (List Value) → Except Panic (List Bytes × Cache) :=
  executeQueueIn fun _ => .error .deadlock

/-- `handleExec`, where nobody else holds the lock. -/
def handleExec : ExecHandler :=
  handleExecIn (fun _ => .error .deadlock) (pure ()) (pure ())

theorem executeCommand_eq (c : Cache) (now : Time) (cmdSlice : List Value) :
    executeCommand c now cmdSlice =
      match cmdSlice with
      | .str command :: _ =>
        if command = lit "SET" then executeSetCommand c now cmdSlice
        else if command = lit "GET" then executeGetCommand c now cmdSlice
        else if command = lit "DEL" then executeDeleteCommand c cmdSlice
        else if command = lit "DBSIZE" then .error .deadlock
        else if command = lit "PING" then .ok (executePingCommand, c)
        else .ok (encodeError (ascii "ERR unknown command '" ++ command.bytes ++ ascii "'"), c)
      | _ => .error .typeAssertion := by
  unfold executeCommand executeCommandIn
  split <;> rfl

theorem executeCommand_str (c : Cache) (now : Time) (command : GoString) (args : List Value) :
    executeCommand c now (.str command :: args) =
      if command = lit "SET" then executeSetCommand c now (.str command :: args)
      else if command = lit "GET" then executeGetCommand c now (.str command :: args)
      else if command = lit "DEL" then executeDeleteCommand c (.str command :: args)
      else if command = lit "DBSIZE" then .error .deadlock
      else if command = lit "PING" then .ok (executePingCommand, c)
      else .ok (encodeError (ascii "ERR unknown command '" ++ command.bytes ++ ascii "'"), c) :=
  executeCommand_eq c now _

@[simp] theorem executeQueue_nil (clock : Nat → Time) (i : Nat) (c : Cache) :
    executeQueue clock i c [] = .ok ([], c) := rfl

theorem executeQueue_cons (clock : Nat → Time) (i : Nat) (c : Cache) (cmdSlice : List Value)
    (queue : List (List Value)) :
    executeQueue clock i c (cmdSlice :: queue) = (do
      let (response, c) ← executeCommand c (clock i) cmdSlice
      let (responses, c) ← executeQueue clock (i + 1) c queue
      return (response :: responses, c)) := rfl

/-- `handleExec`, by the loop over the queue. -/
theorem handleExec_eq (s : Server) (st : ConnectionState) (clock : Nat → Time) :
    handleExec s st clock =
      if !st.inTransaction then .ok (encodeError (ascii "ERR EXEC without MULTI"), s, st)
      else
        match st.transactionError with
        | some _ =>
          .ok (encodeError (ascii "EXECABORT Transaction discarded because of previous errors."),
            s, st.reset)
        | none => do
          let (results, c) ← executeQueue clock 0 s.cache st.commandQueue
          let s ← st.commandQueue.foldlM persistCommand { s with cache := c }
          return (byte '*' :: itoa (Int64.ofNat results.length) ++ crlf ++ results.flatten, s,
            st.reset) := by
  unfold handleExec handleExecIn
  split
  · rfl
  · split
    · rfl
    · rfl

/-! ## Dispatch -/

section Dispatch

variable (other : OtherHandlers)

/-- The command of an array is the given string. -/
def isCommand (command : Value) (name : String) : Bool :=
  match command with
  | .str s => s = lit name
  | .int _ | .arr _ | .nilArr => false

/-- The commands a subscriber may send. -/
def allowedSubscribed (command : Value) : Bool :=
  ["SUBSCRIBE", "UNSUBSCRIBE", "PSUBSCRIBE", "PUNSUBSCRIBE", "PING", "QUIT"].any
    (isCommand command)

/-- The redirection of a request to another node. -/
def movedTo (s : Server) (command : Value) (key : GoString) : Option Bytes :=
  if s.clusterMode ∧ key ≠ GoString.empty then
    (s.forward key (isCommand command "SET" || isCommand command "DEL")).map fun target =>
      ascii "-MOVED " ++ target.1.bytes ++ ascii " " ++ target.2.bytes ++ crlf
  else none

/-- The second `switch` of `handleConnection`. -/
def switchCommand (s : Server) (st : ConnectionState) (clock : Nat → Time) (command : Value)
    (resultSlice : List Value) : Except Panic (Bytes × Server × ConnectionState) :=
  if isCommand command "SET" then do
    let (reply, s) ← handleSet s (clock 0) resultSlice
    return (reply, s, st)
  else if isCommand command "GET" then do
    let (reply, s) ← handleGet s (clock 0) resultSlice
    return (reply, s, st)
  else if isCommand command "DEL" then do
    let (reply, s) ← handleDelete s resultSlice
    return (reply, s, st)
  else if isCommand command "DBSIZE" then .ok (handleDBSize s, s, st)
  else if isCommand command "PING" then .ok (handlePing, s, st)
  else if isCommand command "MULTI" then .ok ((handleMulti st).1, s, (handleMulti st).2)
  else if isCommand command "EXEC" then handleExec s st clock
  else if isCommand command "DISCARD" then .ok ((handleDiscard st).1, s, (handleDiscard st).2)
  else do
    let command ← asString command
    return (encodeError (ascii "ERR Unknown command '" ++ command.bytes ++ ascii "'"), s, st)

/-- What `handleConnection` does with a command that is not queued. -/
def dispatch (s : Server) (st : ConnectionState) (clock : Nat → Time) (command : Value)
    (resultSlice : List Value) : Except Panic (Bytes × Server × ConnectionState) :=
  if ["SUBSCRIBE", "UNSUBSCRIBE", "PUBLISH", "CLUSTER"].any (isCommand command) then
    .ok (other s st resultSlice)
  else do
    let key ← match resultSlice with
      | _ :: key :: _ => asString key
      | _ => .ok GoString.empty
    match movedTo s command key with
    | some moved => return (moved, s, st)
    | none => switchCommand s st clock command resultSlice

/-- One turn of the loop of `handleConnection`, on a command. -/
def handleCommand (s : Server) (st : ConnectionState) (clock : Nat → Time)
    (resultSlice : List Value) : Except Panic (Bytes × Server × ConnectionState) :=
  match resultSlice with
  | [] => .error .indexOutOfRange
  | command :: _ =>
    if st.subscriberMode && !allowedSubscribed command then
      .ok (encodeError (ascii
        "ERR only (P)SUBSCRIBE / (P)UNSUBSCRIBE / PING / QUIT allowed in this context"), s, st)
    else
      match command, st.inTransaction with
      | .str cmdStr, true =>
        if cmdStr = lit "EXEC" ∨ cmdStr = lit "DISCARD" then
          dispatch other s st clock command resultSlice
        else if canQueueCommand cmdStr then
          .ok ((queueCommandForTransaction st cmdStr resultSlice).1, s,
            (queueCommandForTransaction st cmdStr resultSlice).2)
        else
          .ok (encodeError (ascii "ERR command '" ++ cmdStr.bytes ++
            ascii " cannot be used in a transaction"), s, st)
      | _, _ => dispatch other s st clock command resultSlice

/-- The loop of `handleConnection` on the values a client sends, each with the
    readings of the clock while it is handled: the replies, up to a value that is
    no array, at which the connection is closed. -/
def handleConnection (s : Server) (st : ConnectionState) :
    List (Value × (Nat → Time)) → Except Panic (List Bytes × Server × ConnectionState)
  | [] => .ok ([], s, st)
  | (.arr resultSlice, clock) :: rest => do
    let (reply, s, st) ← handleCommand other s st clock resultSlice
    let (replies, s, st) ← handleConnection s st rest
    return (reply :: replies, s, st)
  | (.nilArr, _) :: _ => .error .indexOutOfRange
  | (.str _, _) :: _ | (.int _, _) :: _ => .ok ([], s, st)

end Dispatch

end GoCache.Native
