import GoCache.Native.ClusterCommands
import GoCache.Native.Locking

/-!
# Connections to a node

`internal/server/handler.go`, all of `handleConnection`: from the bytes a client
sends to the handlers, with the pub/sub and cluster commands in place. What
`handleExec` does is a parameter, so that the waiting for the lock of the cache
can be left out.
-/

namespace GoCache.Native

/-! ## Pub/sub commands -/

/-- `EncodeSubscribeConfirmation`. -/
def encodeSubscribeConfirmation (channel : GoString) (count : Nat) : Bytes :=
  encodeArray [.str (lit "subscribe"), .str channel, .int (Int64.ofNat count)]

/-- `EncodeUnsubscribeConfirmation`. -/
def encodeUnsubscribeConfirmation (channel : GoString) (count : Nat) : Bytes :=
  if channel = GoString.empty then
    ascii "*3" ++ crlf ++ encodeBulkString (lit "unsubscribe") false ++ ascii "$-1" ++ crlf ++
      byte ':' :: itoa (Int64.ofNat count) ++ crlf
  else encodeArray [.str (lit "unsubscribe"), .str channel, .int (Int64.ofNat count)]

section PubSub

variable (conn : ConnID)

/-- The loop of `handleSubscribe`, and whether it got to its end. -/
def subscribeLoop : List Value → PubSub → Except Panic (Bytes × Bool × PubSub)
  | [], ps => .ok ([], true, ps)
  | .str channel :: rest, ps => do
    let ps ← ps.subscribe conn channel
    let (reply, finished, ps') ← subscribeLoop rest ps
    return (encodeSubscribeConfirmation channel (ps.subscribedCount conn) ++ reply, finished, ps')
  | _ :: _, ps => .ok (encodeError (ascii "ERR invalid channel"), false, ps)

/-- `handleSubscribe`. -/
def handleSubscribe (ps : PubSub) (st : ConnectionState) (resultSlice : List Value) :
    Except Panic (Bytes × PubSub × ConnectionState) :=
  match resultSlice with
  | _ :: channel :: channels => do
    let (reply, finished, ps) ← subscribeLoop conn (channel :: channels) ps
    return (reply, ps, if finished then { st with subscriberMode := true } else st)
  | _ => .ok (encodeError (ascii "ERR wrong number of arguments for 'subscribe' command"), ps, st)

/-- The loops of `handleUnsubscribe`, and whether they got to their end. An error of
    `Unsubscribe` is only logged. -/
def unsubscribeLoop : List Value → PubSub → Except Panic (Bytes × Bool × PubSub)
  | [], ps => .ok ([], true, ps)
  | .str channel :: rest, ps => do
    let (_, ps) ← ps.unsubscribe conn channel
    let (reply, finished, ps') ← unsubscribeLoop rest ps
    return (encodeUnsubscribeConfirmation channel (ps.subscribedCount conn) ++ reply, finished,
      ps')
  | _ :: _, ps => .ok (encodeError (ascii "ERR invalid channel name"), false, ps)

/-- `handleUnsubscribe`; without channels, from all in the given order. -/
def handleUnsubscribe (order : Finset GoString → List GoString) (ps : PubSub)
    (st : ConnectionState) (resultSlice : List Value) :
    Except Panic (Bytes × PubSub × ConnectionState) :=
  match resultSlice with
  | [_] => do
    let (reply, _, ps) ← unsubscribeLoop conn ((order (ps.channelSet conn)).map .str) ps
    return (reply, ps, { st with subscriberMode := false })
  | _ => do
    let (reply, finished, ps) ← unsubscribeLoop conn resultSlice.tail ps
    return (reply, ps,
      if finished && ps.subscribedCount conn = 0 then { st with subscriberMode := false } else st)

/-- `handlePublish`, to the subscribers in the given order. -/
def handlePublish (order : Finset ConnID → List ConnID) (ps : PubSub) (resultSlice : List Value) :
    Except Panic (Bytes × PubSub) :=
  match resultSlice with
  | [_, .str channel, .str message] => do
    let (count, ps) ← ps.publish order channel message
    return (encodeInteger (Int64.ofNat count), ps)
  | [_, .str _, _] => .ok (encodeError (ascii "ERR invalid message"), ps)
  | [_, _, _] => .ok (encodeError (ascii "ERR invalid channel name"), ps)
  | _ => .ok (encodeError (ascii "ERR wrong number of arguments for 'publish' command"), ps)

end PubSub

/-! ## Requests -/

namespace ServerNode

variable {ω : Type}

/-- The part of a node the other handlers work on. -/
def server (hash : Bytes → UInt32) (n : ServerNode ω) : Server where
  cache := n.cache
  aof := n.aof
  trigger := n.trigger
  leader := n.state.leader
  role := n.state.role
  clusterMode := n.state.isClusterMode
  forward := n.state.shouldForwardRequest hash

/-- A node after one of those handlers. -/
def update (n : ServerNode ω) (s : Server) : ServerNode ω :=
  { n with
    cache := s.cache, aof := s.aof, trigger := s.trigger
    state := { n.state with leader := s.leader } }

section Requests

variable (exec : ExecHandler) (net : Network ω) (hash : Bytes → UInt32) (conn : ConnID)

/-- The second `switch` of `handleConnection`. -/
def switchCommand (n : ServerNode ω) (st : ConnectionState) (clock : Nat → Time)
    (command : Value) (resultSlice : List Value) :
    Except Panic (Bytes × ServerNode ω × ConnectionState) := do
  let (reply, s, st) ←
    if isCommand command "EXEC" then exec (n.server hash) st clock
    else Native.switchCommand (n.server hash) st clock command resultSlice
  return (reply, n.update s, st)

/-- What `handleConnection` does with a command that is not queued. -/
def dispatch (n : ServerNode ω) (st : ConnectionState) (choices : Choices) (command : Value)
    (resultSlice : List Value) : Except Panic (Bytes × ServerNode ω × ConnectionState) :=
  if isCommand command "SUBSCRIBE" then do
    let (reply, ps, st) ← handleSubscribe conn n.ps st resultSlice
    return (reply, { n with ps := ps }, st)
  else if isCommand command "UNSUBSCRIBE" then do
    let (reply, ps, st) ← handleUnsubscribe conn choices.channels n.ps st resultSlice
    return (reply, { n with ps := ps }, st)
  else if isCommand command "PUBLISH" then do
    let (reply, ps) ← handlePublish choices.connections n.ps resultSlice
    return (reply, { n with ps := ps }, st)
  else if isCommand command "CLUSTER" then do
    let (reply, n) ← handleClusterCommand net hash n choices resultSlice
    return (reply, n, st)
  else do
    let key ← match resultSlice with
      | _ :: key :: _ => asString key
      | _ => .ok GoString.empty
    match movedTo (n.server hash) command key with
    | some moved => return (moved, n, st)
    | none => n.switchCommand exec hash st choices.clock command resultSlice

/-- One turn of the loop of `handleConnection`, on a command. -/
def handleCommand (n : ServerNode ω) (st : ConnectionState) (choices : Choices)
    (resultSlice : List Value) : Except Panic (Bytes × ServerNode ω × ConnectionState) :=
  match resultSlice with
  | [] => .error .indexOutOfRange
  | command :: _ =>
    if st.subscriberMode && !allowedSubscribed command then
      .ok (encodeError (ascii
        "ERR only (P)SUBSCRIBE / (P)UNSUBSCRIBE / PING / QUIT allowed in this context"), n, st)
    else
      match command, st.inTransaction with
      | .str cmdStr, true =>
        if cmdStr = lit "EXEC" ∨ cmdStr = lit "DISCARD" then
          n.dispatch exec net hash conn st choices command resultSlice
        else if canQueueCommand cmdStr then
          .ok ((queueCommandForTransaction st cmdStr resultSlice).1, n,
            (queueCommandForTransaction st cmdStr resultSlice).2)
        else
          .ok (encodeError (ascii "ERR command '" ++ cmdStr.bytes ++
            ascii " cannot be used in a transaction"), n, st)
      | _, _ => n.dispatch exec net hash conn st choices command resultSlice

/-- The deferred calls when the connection is closed. -/
def closeConnection (n : ServerNode ω) (choices : Choices) : Except Panic (ServerNode ω) := do
  let ps ← n.ps.removeConnection conn choices.channels
  return { n with ps := ps }

/-- One turn of the loop of `handleConnection` with a `Parse`, on the bytes that are left:
    the reply with what is left then, or none if the connection is closed. -/
def turnWith (parse : Reader Value) (n : ServerNode ω) (st : ConnectionState) (choices : Choices)
    (input : Bytes) : Except Panic (Option (Bytes × ConnectionState × Bytes) × ServerNode ω) :=
  match parse input with
  | .ok (.arr resultSlice) rest => do
    let (reply, n, st) ← n.handleCommand exec net hash conn st choices resultSlice
    return (some (reply, st, rest), n)
  | .ok .nilArr _ => .error .indexOutOfRange
  | .ok (.str _) _ | .ok (.int _) _ | .err _ _ => do
    let n ← n.closeConnection conn choices
    return (none, n)
  | .abort p => .error p

/-- One turn of the loop of `handleConnection`. -/
def turn : ServerNode ω → ConnectionState → Choices → Bytes →
    Except Panic (Option (Bytes × ConnectionState × Bytes) × ServerNode ω) :=
  turnWith exec net hash conn parse

/-- One turn of the loop of `handleConnection`, on a machine. -/
def turnOn (m : Machine) : ServerNode ω → ConnectionState → Choices → Bytes →
    Except Panic (Option (Bytes × ConnectionState × Bytes) × ServerNode ω) :=
  turnWith exec net hash conn m.parse

end Requests

end ServerNode

end GoCache.Native
