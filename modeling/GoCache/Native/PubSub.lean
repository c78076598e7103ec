import GoCache.Native.Protocol

/-!
# Publish and subscribe

`internal/pubsub/pubsub.go`: which connections are subscribed to which channels,
and the queues from which the senders deliver messages. A pointer to a
`Subscriber` is its index on the heap; its two channels are closed together.

`Publish` runs under the lock for reading and all other functions under the lock
for writing. The functions here are whole calls; `PubSub.offer` and `Sender` are
the steps by which calls of `Publish` and the goroutines `sendMessages` interleave.
-/

namespace GoCache.Native

/-- A `net.Conn`, by its identity. -/
abbrev ConnID := Nat

/-- A `Message`. -/
structure Message where
  channel : GoString
  content : GoString
  deriving DecidableEq

/-- A `Subscriber`: the messages queued for it, and whether its channels are closed. -/
structure Subscriber where
  conn : ConnID
  messages : List Message
  closed : Bool
  deriving DecidableEq

/-- The capacity of the channel of messages. -/
def messagesCap : Nat := 100

/-- A `PubSub`, with the heap of the subscribers. -/
structure PubSub where
  heap : List Subscriber
  connectionToSubscriber : Finmap fun _ : ConnID => Nat
  subscribers : Finmap fun _ : GoString => Finmap fun _ : ConnID => Nat
  subscriptions : Finmap fun _ : ConnID => Finset GoString

namespace PubSub

/-- `NewPubSub`. -/
def new : PubSub := ⟨[], ∅, ∅, ∅⟩

/-- The channels of a connection, none for one that is not there. -/
def channelSet (ps : PubSub) (conn : ConnID) : Finset GoString :=
  (ps.subscriptions.lookup conn).getD ∅

/-- `ps.subscriptions[conn][channel] = true`. -/
def addSubscription (ps : PubSub) (conn : ConnID) (channel : GoString) : Except Panic PubSub :=
  match ps.subscriptions.lookup conn with
  | none => .error .nilMap
  | some channels =>
    .ok { ps with subscriptions := ps.subscriptions.insert conn (insert channel channels) }

/-- The last lines of `Subscribe`. -/
def addSubscriber (ps : PubSub) (conn : ConnID) (channel : GoString) (subscriber : Nat) :
    Except Panic PubSub := do
  let ps ← ps.addSubscription conn channel
  let conns := (ps.subscribers.lookup channel).getD ∅
  return { ps with subscribers := ps.subscribers.insert channel (conns.insert conn subscriber) }

/-- `Subscribe`, whose error is always nil. -/
def subscribe (ps : PubSub) (conn : ConnID) (channel : GoString) : Except Panic PubSub :=
  match ps.connectionToSubscriber.lookup conn with
  | none =>
    let subscriber := ps.heap.length
    let ps := { ps with
      heap := ps.heap ++ [Subscriber.mk conn [] false]
      connectionToSubscriber := ps.connectionToSubscriber.insert conn subscriber
      subscriptions := ps.subscriptions.insert conn ∅ }
    ps.addSubscriber conn channel subscriber
  | some subscriber =>
    if channel ∈ ps.channelSet conn then .ok ps else ps.addSubscriber conn channel subscriber

/-- `close` of both channels of a subscriber. -/
def closeSubscriber (ps : PubSub) (subscriber : Nat) : Except Panic PubSub :=
  match ps.heap[subscriber]? with
  | none => .error .nilDereference
  | some s =>
    if s.closed then .error .closedChannel
    else .ok { ps with heap := ps.heap.set subscriber { s with closed := true } }

/-- The end of `RemoveConnection` and `cleanupConnection`: both tracking maps forget
    the connection. -/
def forget (ps : PubSub) (conn : ConnID) : PubSub :=
  { ps with
    subscriptions := ps.subscriptions.erase conn
    connectionToSubscriber := ps.connectionToSubscriber.erase conn }

/-- `cleanupConnection`. -/
def cleanupConnection (ps : PubSub) (conn : ConnID) : Except Panic PubSub :=
  match ps.connectionToSubscriber.lookup conn with
  | none => .ok ps
  | some subscriber => do
    let ps ← ps.closeSubscriber subscriber
    return ps.forget conn

/-- A connection goes from the subscribers of a channel, and the channel with the
    last of them. -/
def removeFromChannel (ps : PubSub) (conn : ConnID) (channel : GoString) : PubSub :=
  match ps.subscribers.lookup channel with
  | none => ps
  | some conns =>
    if (conns.erase conn).keys = ∅ then { ps with subscribers := ps.subscribers.erase channel }
    else { ps with subscribers := ps.subscribers.insert channel (conns.erase conn) }

/-- `Unsubscribe`: nil, or the text of the error. -/
def unsubscribe (ps : PubSub) (conn : ConnID) (channel : GoString) :
    Except Panic (Option Bytes × PubSub) :=
  match ps.subscriptions.lookup conn with
  | none => .ok (some (ascii "connection not subscribed to any channels"), ps)
  | some channels =>
    if channel ∈ channels then
      let ps := { ps with subscriptions := ps.subscriptions.insert conn (channels.erase channel) }
      let ps := ps.removeFromChannel conn channel
      if channels.erase channel = ∅ then do
        let ps ← ps.cleanupConnection conn
        return (none, ps)
      else .ok (none, ps)
    else .ok (some (ascii "connection not subscribed to channel: " ++ channel.bytes), ps)

/-- `RemoveConnection`; the loop over the channels is in the given order. -/
def removeConnection (ps : PubSub) (conn : ConnID) (order : Finset GoString → List GoString) :
    Except Panic PubSub :=
  match ps.connectionToSubscriber.lookup conn with
  | none => .ok ps
  | some subscriber =>
    match ps.subscriptions.lookup conn with
    | none =>
      .ok { ps with connectionToSubscriber := ps.connectionToSubscriber.erase conn }
    | some channels => do
      let ps := (order channels).foldl (fun ps channel => ps.removeFromChannel conn channel) ps
      let ps ← ps.closeSubscriber subscriber
      return ps.forget conn

/-- The `Subscriber`s of a channel. -/
def subscribersOf (ps : PubSub) (channel : GoString) : Multiset Nat :=
  ((ps.subscribers.lookup channel).getD ∅).entries.map Sigma.snd

/-- The `select` of `Publish` for one subscriber: whether its queue takes the message. A
    subscriber whose queue is full misses it. -/
def offer (ps : PubSub) (msg : Message) (subscriber : Nat) : Except Panic (Bool × PubSub) :=
  match ps.heap[subscriber]? with
  | none => .error .nilDereference
  | some s =>
    if s.closed then .error .closedChannel
    else if s.messages.length < messagesCap then
      .ok (true,
        { ps with heap := ps.heap.set subscriber { s with messages := s.messages ++ [msg] } })
    else .ok (false, ps)

/-- The loop of `Publish`. -/
def publishLoop (msg : Message) : List Nat → Nat → PubSub → Except Panic (Nat × PubSub)
  | [], count, ps => .ok (count, ps)
  | subscriber :: rest, count, ps => do
    let (queued, ps) ← ps.offer msg subscriber
    publishLoop msg rest (if queued then count + 1 else count) ps

/-- `Publish`, going through the connections of the channel in the given order: the number
    of subscribers that got the message. -/
def publish (ps : PubSub) (order : Finset ConnID → List ConnID) (channel message : GoString) :
    Except Panic (Nat × PubSub) :=
  match ps.subscribers.lookup channel with
  | none => .ok (0, ps)
  | some conns =>
    publishLoop ⟨channel, message⟩ ((order conns.keys).filterMap conns.lookup) 0 ps

/-- `len(ps.GetSubscribedChannels(conn))`. -/
def subscribedCount (ps : PubSub) (conn : ConnID) : Nat := (ps.channelSet conn).card

end PubSub

/-! ## `sendMessages` -/

/-- The goroutine `sendMessages` of a subscriber: the messages it has written to the
    connection, the one it has received and not written, and whether it has returned. -/
structure Sender where
  written : List Message
  held : Option Message
  returned : Bool
  deriving DecidableEq

namespace Sender

/-- `go subscriber.sendMessages()`. -/
def new : Sender := ⟨[], none, false⟩

/-- Whether the goroutine is at its `select`. -/
def selecting (sender : Sender) : Bool := !sender.returned && sender.held.isNone

/-- `msg, ok := <-s.messages`. What is queued can be received from a closed channel
    too, and then the goroutine returns. -/
def receive (sender : Sender) (s : Subscriber) : Option (Sender × Subscriber) :=
  if sender.selecting then
    match s.messages with
    | msg :: messages => some ({ sender with held := some msg }, { s with messages := messages })
    | [] => if s.closed then some ({ sender with returned := true }, s) else none
  else none

/-- `<-s.done`. -/
def stop (sender : Sender) (s : Subscriber) : Option Sender :=
  if sender.selecting && s.closed then some { sender with returned := true } else none

/-- `s.conn.Write` of the message: after a failed one the goroutine returns. -/
def write (sender : Sender) (failed : Bool) : Option Sender :=
  match sender.returned, sender.held with
  | false, some msg =>
    if failed then some { sender with returned := true }
    else some { sender with written := sender.written ++ [msg], held := none }
  | _, _ => none

end Sender

end GoCache.Native
