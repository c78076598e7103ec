import GoCache.Native.Client
import GoCache.Spec.LeaderRuns
import GoCache.Spec.PeerEffects

/-!
# What a client reads back

A client that has set a key on a standalone leader gets the value back, unless the
value looks like a redirect: the client cannot tell such a value from the answer of
a node that is not responsible, and follows it.

## Key results

- `redirectLoop_of_frames`, `dialled_of_redirect`: one turn of the client on a reply
- `get_returns_value_iff`: a `Get` behind a `Set`
-/

namespace GoCache.Spec

open GoCache.Native
open Reading (Frames)

/-! ## A standalone node -/

section Node

variable {ω : Type} (exec : ExecHandler) (net : Network ω) (hash : Bytes → UInt32) (conn : ConnID)
  (choices : Choices)
  {n : ServerNode ω} {st : ConnectionState} {c : WfCache}

theorem Standalone.update (hs : Standalone (n.server hash)) {s : Server} :
    Standalone ((n.update s).server hash) := ⟨hs.clusterMode, hs.role⟩

/-- What a standalone node does with a request. -/
private theorem handleCommand_standalone (hs : Standalone (n.server hash)) (hst : Immediate st)
    (hc : n.cache = c.cache) {a : Ask} (hvalid : a.Valid) :
    n.handleCommand exec net hash conn st choices a.elements = .ok (a.reply c (choices.clock 0),
      n.update (logAll { n.server hash with cache := (c.ask (choices.clock 0) a).cache }
        a.records), st) := by
  have hname : ["SUBSCRIBE", "UNSUBSCRIBE", "PUBLISH", "CLUSTER"].any
      (isCommand (.str a.name)) = false ∧ isCommand (.str a.name) "EXEC" = false := by
    cases a <;> exact ⟨rfl, rfl⟩
  have hask := handleCommand_ask noOther hst hs.role hc hvalid (movedTo_eq_none hs _ _)
    choices.clock
  rw [Ask.elements, strs, List.map_cons] at hask ⊢
  rw [handleCommand_server noOther hname.1 fun h => Bool.noConfusion (hname.2.symm.trans h), hask]
  rfl

/-- `SET` stores the value. -/
theorem handleCommand_set (hs : Standalone (n.server hash)) (hst : Immediate st)
    (hc : n.cache = c.cache) (key value : GoString) :
    ∃ n', n.handleCommand exec net hash conn st choices
        [.str (lit "SET"), .str key, .str value] = .ok (replyOK, n', st) ∧
      n'.cache = (c.set key value 0 (choices.clock 0)).cache ∧ Standalone (n'.server hash) :=
  ⟨_, handleCommand_standalone exec net hash conn choices hs hst hc
    (show (Ask.set key value []).Valid from ⟨by decide, rfl⟩), cache_logAll .., hs.update hash⟩

/-- `GET` returns what the cache has. -/
theorem handleCommand_get (hs : Standalone (n.server hash)) (hst : Immediate st)
    (hc : n.cache = c.cache) (key : GoString) :
    ∃ n', n.handleCommand exec net hash conn st choices [.str (lit "GET"), .str key] =
      .ok (replyGet (c.get key (choices.clock 0)).1, n', st) :=
  ⟨_, handleCommand_standalone exec net hash conn choices hs hst hc
    (show (Ask.get key).Valid from trivial)⟩

/-- On a connection that subscribes or queues, `SET` is refused or queued. -/
private theorem handleCommand_set_refused (hst : ¬ Immediate st) (key value : GoString) :
    ∃ reply response st', n.handleCommand exec net hash conn st choices
        [.str (lit "SET"), .str key, .str value] = .ok (reply, n, st') ∧
      Frames parse reply (.str response) ∧ isRedirect response = false ∧ response ≠ lit "OK" := by
  have hallowed : allowedSubscribed (.str (lit "SET")) = false := by decide
  unfold ServerNode.handleCommand
  simp only [hallowed, Bool.not_false, Bool.and_true]
  cases hsub : st.subscriberMode with
  | true =>
    let response :=
      lit "ERR only (P)SUBSCRIBE / (P)UNSUBSCRIBE / PING / QUIT allowed in this context"
    exact ⟨_, response, st, rfl, frames_encodeError response (by decide), by decide, by decide⟩
  | false =>
    cases hin : st.inTransaction with
    | false => exact absurd ⟨hsub, hin⟩ hst
    | true =>
      have hqueued : (queueCommandForTransaction st (lit "SET")
          [.str (lit "SET"), .str key, .str value]).1 = replyQueued := by
        unfold queueCommandForTransaction
        cases st.transactionError with
        | some text | none => rfl
      refine ⟨replyQueued, lit "QUEUED", (queueCommandForTransaction st (lit "SET")
          [.str (lit "SET"), .str key, .str value]).2, ?_,
        frames_encodeSimpleString (lit "QUEUED") (by decide), by decide, by decide⟩
      rw [← hqueued]
      rfl

end Node

/-! ## The client -/

section Client

variable {ω : Type} {net : Network ω} {c : Client ω} {command : List Element} {reply : Bytes}
  {world : ω} {response : GoString}

/-- A client between two commands, with an open connection. -/
structure Ready (c : Client ω) : Prop where
  writeErr : c.writeErr = none
  closed : c.closed = false
  unread : c.unread = []

theorem newString_bytes (s : GoString) : newString s.bytes = .ok s := dif_pos s.length_le

private theorem send_ready (hready : Ready c)
    (hwrite : net.write c.world c.address (encodeArray command) = .ok (reply, world)) :
    c.send net (encodeArray command) = (none, { c with world := world, unread := reply }) := by
  unfold Client.send Client.transmit
  rw [hready.writeErr, hready.closed, hready.unread, if_neg Bool.false_ne_true, hwrite]
  rfl

private theorem readResponse_frames (hframes : Frames parse reply (.str response)) :
    { c with world := world, unread := reply }.readResponse =
      .ok (.ok response, { c with world := world, unread := [] }) := by
  have hparse : parse reply = .ok (.str response) [] := by
    simpa using hframes.reads []
  unfold Client.readResponse
  simp only [hparse, Value.format, newString_bytes]
  rfl

/-- A response that is no redirect is returned. -/
theorem redirectLoop_of_frames (hready : Ready c)
    (hwrite : net.write c.world c.address (encodeArray command) = .ok (reply, world))
    (hframes : Frames parse reply (.str response)) (hplain : isRedirect response = false)
    (turns : Nat) : Client.redirectLoop net command (turns + 1) c =
      .ok (.ok response, { c with world := world }) := by
  rw [Client.redirectLoop, send_ready hready hwrite]
  simp only [readResponse_frames hframes, bind, Except.bind, hplain, Bool.false_eq_true, if_false,
    ← hready.unread]
  rfl

/-- `Set` returns nil if the response is `OK`. -/
theorem set_of_frames {key v : GoString} (hready : Ready c)
    (hwrite : net.write c.world c.address
      (encodeArray [.str (lit "SET"), .str key, .str v]) = .ok (reply, world))
    (hframes : Frames parse reply (.str response)) (hplain : isRedirect response = false) :
    c.set net key v = .ok (if response ≠ lit "OK" then
      some (ascii "unexpected response: " ++ response.bytes) else none,
      { c with world := world }) := by
  show (Client.redirectLoop net _ (4 + 1) c >>= _) = _
  rw [redirectLoop_of_frames hready hwrite hframes hplain]
  simp only [bind, Except.bind]
  split <;> rfl

end Client

/-! ## Peers -/

section Peers

variable {exec : ExecHandler} {hash : Bytes → UInt32} {conn : ConnID} {choices : Nat → Choices}

theorem dialled_write {w w' : Peers} {addr : GoString} {cmd reply : Bytes}
    (h : (peers exec hash conn choices).write w addr cmd = .ok (reply, w')) :
    w'.dialled = w.dialled := by
  unfold peers at h
  simp only at h
  split at h
  · exact nomatch h
  next host _ =>
  cases hanswer : host.answer exec hash conn (choices w.handled) cmd with
  | error text =>
    rw [hanswer] at h
    exact nomatch h
  | ok result =>
    rw [hanswer] at h
    cases h
    rfl

theorem dialled_dial {w w' : Peers} {addr : GoString}
    (h : (peers exec hash conn choices).dial w addr = .ok w') :
    w'.dialled = w.dialled ++ [addr] := by
  unfold peers at h
  simp only at h
  split at h
  · exact nomatch h
  · cases h
    rfl

private theorem dialled_send {c c' : Client Peers} {encoded : Bytes} {err : Option Bytes}
    (h : c.send (peers exec hash conn choices) encoded = (err, c')) :
    c'.world.dialled = c.world.dialled := by
  unfold Client.send Client.transmit at h
  split at h
  · cases h
    rfl
  split at h
  · cases h
    rfl
  · next hwrite =>
    split at hwrite
    · exact nomatch hwrite
    · cases h
      exact dialled_write hwrite

private theorem world_readResponse {ω : Type} {c c' : Client ω} {result : Except Bytes GoString}
    (h : c.readResponse = .ok (result, c')) : c'.world = c.world := by
  unfold Client.readResponse at h
  split at h
  · obtain ⟨response, -, h⟩ := bind_eq_ok.mp h
    cases h
    rfl
  · cases h
    rfl
  · exact nomatch h

/-- The client forgets no address it has dialled. -/
private theorem dialled_redirectLoop {command : List Element} (turns : Nat) (c : Client Peers)
    {c' : Client Peers} {result : Except Bytes GoString}
    (h : Client.redirectLoop (peers exec hash conn choices) command turns c = .ok (result, c')) :
    c.world.dialled <+: c'.world.dialled := by
  induction turns generalizing c with
  | zero =>
    cases h
    exact List.prefix_refl _
  | succ turns ih =>
    rw [Client.redirectLoop] at h
    split at h
    · next hsend =>
      cases h
      rw [dialled_send hsend]
    next c₁ hsend =>
    obtain ⟨⟨response, c₂⟩, hread, h⟩ := bind_eq_ok.mp h
    have hworld : c₂.world.dialled = c.world.dialled := by
      rw [world_readResponse hread, dialled_send hsend]
    rw [← hworld]
    cases response with
    | error text =>
      cases h
      exact List.prefix_refl _
    | ok response =>
      simp only at h
      split at h
      · split at h
        · cases h
          exact List.prefix_refl _
        split at h
        · cases h
          exact List.prefix_refl _
        · next hdial =>
          have hle := ih _ h
          exact (dialled_dial hdial ▸ List.prefix_append _ _).trans hle
      · cases h
        exact List.prefix_refl _

/-- A response that looks like a redirect is not returned, unless another node is
    dialled. -/
private theorem dialled_of_redirect {c c' : Client Peers} {command : List Element} {reply : Bytes}
    {world : Peers} {response value : GoString} (hready : Ready c)
    (hwrite : (peers exec hash conn choices).write c.world c.address (encodeArray command) =
      .ok (reply, world))
    (hframes : Frames parse reply (.str response)) (hredirect : isRedirect response = true)
    {turns : Nat} (h : Client.redirectLoop (peers exec hash conn choices) command (turns + 1) c =
      .ok (.ok value, c')) : c'.world.dialled ≠ c.world.dialled := by
  rw [Client.redirectLoop, send_ready hready hwrite] at h
  simp only [readResponse_frames hframes, bind, Except.bind, hredirect, if_true] at h
  split at h
  · exact nomatch h
  split at h
  · exact nomatch h
  next redirect _ _ hdial =>
  intro heq
  have hle := (dialled_redirectLoop turns _ h).length_le
  rw [heq] at hle
  have hlen := congrArg List.length (dialled_dial hdial)
  rw [List.length_append] at hlen
  have hwritten := congrArg List.length (dialled_write hwrite)
  simp only [Client.connected, List.length_singleton] at hle hlen
  omega

end Peers

/-! ## Reading back -/

section Leader

variable {exec : ExecHandler} {hash : Bytes → UInt32} {conn : ConnID} {choices : Nat → Choices}
  {c : Client Peers}
  {node : ServerNode Unit} {st : ConnectionState} {wc : WfCache}

/-- A client connected to a standalone leader, which has answered all it was sent. -/
structure ToLeader (hash : Bytes → UInt32) (c : Client Peers) (node : ServerNode Unit)
    (st : ConnectionState) : Prop where
  ready : Ready c
  host : c.world.hosts c.address = some ⟨node, some (st, [])⟩
  standalone : Standalone (node.server hash)

/-- A handled command leaves the client connected to the same leader. -/
private theorem ToLeader.handled (h : ToLeader hash c node st) {node' : ServerNode Unit}
    {st' : ConnectionState} (hs : Standalone (node'.server hash)) :
    ToLeader hash { c with world := { c.world with
      hosts := Function.update c.world.hosts c.address (some ⟨node', some (st', [])⟩)
      handled := c.world.handled + 1 } } node' st' where
  ready := ⟨h.ready.writeErr, h.ready.closed, h.ready.unread⟩
  host := Function.update_self ..
  standalone := hs

/-- What `Set` sends. -/
private def setSlice (key v : GoString) : ElementSlice where
  elements := [.str (lit "SET"), .str key, .str v]
  length_le := show 48 ≤ maxAlloc by decide

/-- What `Get` sends. -/
private def getSlice (key : GoString) : ElementSlice where
  elements := [.str (lit "GET"), .str key]
  length_le := show 32 ≤ maxAlloc by decide

/-- `Set` on a connection that neither subscribes nor queues returns nil, and the
    leader has the value. -/
theorem set_stores (h : ToLeader hash c node st) (hst : Immediate st)
    (hcache : node.cache = wc.cache) (key v : GoString) :
    ∃ c' node', c.set (peers exec hash conn choices) key v = .ok (none, c') ∧
      ToLeader hash c' node' st ∧ c'.address = c.address ∧
      c'.world.dialled = c.world.dialled ∧
      node'.cache = (wc.set key v 0 ((choices c.world.handled).clock 0)).cache := by
  obtain ⟨node', hhandle, hcache', hs'⟩ := handleCommand_set exec unreachable hash conn
    (choices c.world.handled) h.standalone hst hcache key v
  have hwrite := write_peers (setSlice key v) h.host hhandle
  exact ⟨_, node', set_of_frames h.ready hwrite
    (frames_encodeSimpleString (lit "OK") (by decide)) (by decide), h.handled hs', rfl, rfl,
    hcache'⟩

/-- `Set` returns nil only on such a connection. -/
private theorem immediate_of_set (h : ToLeader hash c node st) {key v : GoString}
    {c' : Client Peers} (hset : c.set (peers exec hash conn choices) key v = .ok (none, c')) :
    Immediate st := by
  by_contra hst
  obtain ⟨reply, response, st', hhandle, hframes, hplain, hne⟩ := handleCommand_set_refused exec
    unreachable hash conn (choices c.world.handled) (n := node) hst key v
  have hwrite := write_peers (setSlice key v) h.host hhandle
  rw [set_of_frames h.ready hwrite hframes hplain, if_pos hne] at hset
  exact nomatch hset

/-- A key that was set without a TTL is read back at any time. -/
private theorem get_set_self (key v : GoString) (now now' : Time) :
    ((wc.set key v 0 now).get key now').1 = (v, true) := by
  have hhit : (wc.set key v 0 now).hit? key now' = some ⟨v, 0⟩ := by
    unfold WfCache.hit?
    rw [WfCache.entries_set, Recency.find?_put_self]
    rfl
  rw [WfCache.get_fst, hhit]
  rfl

/-- The leader's answer to `Get` behind a `Set`. -/
private theorem write_get (h : ToLeader hash c node st) (hst : Immediate st) {key v : GoString}
    {now : Time} (hcache : node.cache = (wc.set key v 0 now).cache) :
    ∃ world, (peers exec hash conn choices).write c.world c.address
        (encodeArray [.str (lit "GET"), .str key]) = .ok (encodeBulkString v false, world) ∧
      world.dialled = c.world.dialled := by
  obtain ⟨node', hhandle⟩ := handleCommand_get exec unreachable hash conn
    (choices c.world.handled) h.standalone hst hcache key
  rw [get_set_self] at hhandle
  exact ⟨_, write_peers (getSlice key) h.host hhandle, rfl⟩

end Leader

/-- A client that has set a key on a standalone leader gets the value back from it,
    without dialling anybody, exactly if the value begins neither with `MOVED` nor
    with `-MOVED`. -/
theorem get_returns_value_iff (exec : ExecHandler) (hash : Bytes → UInt32) (conn : ConnID)
    (choices : Nat → Choices) (c c' : Client Peers)
    (node : ServerNode Unit) (st : ConnectionState) (wc : WfCache) (key v : GoString)
    (h : ToLeader hash c node st) (hcache : node.cache = wc.cache)
    (hset : c.set (peers exec hash conn choices) key v = .ok (none, c')) :
    (∃ c'', c'.get (peers exec hash conn choices) key = .ok (.ok v, c'') ∧
      c''.address = c.address ∧ c''.closed = false ∧ c''.world.dialled = c.world.dialled) ↔
    ¬ ascii "MOVED" <+: v.bytes ∧ ¬ ascii "-MOVED" <+: v.bytes := by
  have hst := immediate_of_set h hset
  obtain ⟨c₁, node₁, hset₁, h₁, haddr, hdialled, hcache₁⟩ := set_stores h hst hcache key v
  obtain rfl : c₁ = c' := by
    rw [hset₁] at hset
    injection hset with hpair
    exact congrArg Prod.snd hpair
  obtain ⟨world, hwrite, hworld⟩ := write_get h₁ hst hcache₁
  have hframes : Frames parse (encodeBulkString v false) (.str v) := frames_encodeElement (.str v)
  have hprefixes : isRedirect v = false ↔
      ¬ ascii "MOVED" <+: v.bytes ∧ ¬ ascii "-MOVED" <+: v.bytes := by
    unfold isRedirect
    rw [Bool.or_eq_false_iff, Bool.eq_false_iff, Bool.eq_false_iff, ne_eq, ne_eq,
      List.isPrefixOf_iff_prefix, List.isPrefixOf_iff_prefix]
  rw [← hprefixes]
  constructor
  · rintro ⟨c₂, hget, -, -, hsame⟩
    by_contra hredirect
    rw [Bool.not_eq_false] at hredirect
    rw [← hdialled] at hsame
    exact dialled_of_redirect h₁.ready hwrite hframes hredirect hget hsame
  · intro hplain
    exact ⟨_, redirectLoop_of_frames h₁.ready hwrite hframes hplain 4, haddr, h₁.ready.closed,
      hworld.trans hdialled⟩

/-- A standalone leader with nothing in its cache. -/
def emptyLeader : ServerNode Unit where
  cache := Cache.new 10
  aof := []
  trigger := .new 2
  state := ⟨.leader, none, none, none, false, none⟩
  ps := .new
  world := ()

/-- A client of one of two such leaders. -/
def clientOfFirst : Client Peers := .connected
  { hosts := fun addr =>
      if addr = lit "a:1" then some ⟨emptyLeader, some (.new, [])⟩
      else if addr = lit "h:1" then some ⟨emptyLeader, none⟩
      else none
    dialled := [lit "a:1"]
    handled := 0 } (lit "a:1")

/-- The clock stands still, and no loop over a map is entered. -/
def idleChoices : Choices where
  clock _ := 0
  sched := ⟨fun _ _ => [], fun _ _ => 0⟩
  channels _ := []
  connections _ := []
  nodes := []

private theorem toLeader_clientOfFirst : ToLeader sha256Hash clientOfFirst emptyLeader .new where
  ready := ⟨rfl, rfl, rfl⟩
  host := rfl
  standalone := ⟨rfl, rfl⟩

/-- A value that is no redirect comes back. -/
theorem get_returns_value_iff_plain : ∃ c' c'',
    clientOfFirst.set (peers handleExec sha256Hash 1 fun _ => idleChoices) (lit "k") (lit "v") =
      .ok (none, c') ∧
    c'.get (peers handleExec sha256Hash 1 fun _ => idleChoices) (lit "k") =
      .ok (.ok (lit "v"), c'') ∧ c''.world.dialled = [lit "a:1"] := by
  have hcache : emptyLeader.cache = (WfCache.new 10).cache := rfl
  obtain ⟨c', _, hset, _⟩ := set_stores toLeader_clientOfFirst ⟨rfl, rfl⟩ hcache (lit "k") (lit "v")
  obtain ⟨c'', hget, -, -, hdialled⟩ := (get_returns_value_iff handleExec sha256Hash 1
    (fun _ => idleChoices) _ _ _ _ _ _ _ toLeader_clientOfFirst hcache hset).mpr (by decide)
  exact ⟨c', c'', hset, hget, hdialled⟩

/-- A value that names an address sends the client there, and it returns what the
    node there has for the key: nothing. -/
theorem stored_value_redirects :
    (do
      let (err, c) ← clientOfFirst.set (peers handleExec sha256Hash 1 fun _ => idleChoices)
        (lit "k") (lit "MOVED h:1")
      let (result, c) ← c.get (peers handleExec sha256Hash 1 fun _ => idleChoices) (lit "k")
      return (err, result, c.address, c.world.dialled)) =
    (.ok (none, .ok GoString.empty, lit "h:1", [lit "a:1", lit "h:1"]) : Except Panic _) := by
  decide +kernel

end GoCache.Spec
