import GoCache.Spec.ClientValues
import GoCache.Spec.Execution

/-!
# Transactions of the Go client

A pipeline is sent as `MULTI`, its commands and `EXEC`. Inside a transaction a node
neither routes a command nor looks at its role, so the client meets no redirect on the
way, and the results are those of the cache of the node it is connected to.

## Key results

- `Linked.queue`: one command of a pipeline is queued
- `pipeline_executes`: what `Execute` returns and does
-/

namespace GoCache.Spec

open GoCache.Native
open Reading (Frames)

/-! ## Pipelines -/

/-- A call that adds a command to a pipeline. -/
inductive PipelineOp where
  | set (key value : GoString)
  | setWithTTL (key value : GoString) (ttl : Int64)
  | get (key : GoString)
  | del (key : GoString)

namespace PipelineOp

/-- The pipeline behind the call. -/
def add (tp : TransactionPipeline) : PipelineOp → TransactionPipeline
  | .set key value => tp.set key value
  | .setWithTTL key value ttl => tp.setWithTTL key value ttl
  | .get key => tp.get key
  | .del key => tp.del key

/-- The command that is added. -/
def command : PipelineOp → List GoString
  | .set key value => [lit "SET", key, value]
  | .setWithTTL key value ttl => [lit "SET", key, value, itoaString ttl]
  | .get key => [lit "GET", key]
  | .del key => [lit "DEL", key]

end PipelineOp

/-- The result of a command of a pipeline. -/
inductive PipelineResult where
  | ok
  | found (value : GoString)
  | missing
  | deleted

namespace PipelineResult

/-- The response of the node. -/
def wire : PipelineResult → Bytes
  | .ok => replyOK
  | .found value => encodeBulkString value false
  | .missing => encodeBulkString GoString.empty true
  | .deleted => replyDel

/-- What `Parse` makes of it. -/
def value : PipelineResult → Value
  | .ok => .str (lit "OK")
  | .found value => .str value
  | .missing => .str GoString.empty
  | .deleted => .int 1

/-- The text that `Exec` returns for it. -/
def text : PipelineResult → GoString
  | .ok => lit "OK"
  | .found value => value
  | .missing => GoString.empty
  | .deleted => lit "1"

theorem frames_wire (r : PipelineResult) : Frames parse r.wire r.value := by
  cases r with
  | ok => exact frames_encodeSimpleString (lit "OK") (by decide)
  | found value => exact frames_encodeElement (.str value)
  | missing => exact frames_encodeNull GoString.empty
  | deleted => exact frames_typed (byte ':') ((frames_parseInteger 1).map Value.int)

theorem newString_format (r : PipelineResult) : newString r.value.format = .ok r.text := by
  cases r with
  | ok | found value | missing => exact newString_bytes _
  | deleted => exact newString_bytes (lit "1")

end PipelineResult

/-- A command applied to the cache. -/
def PipelineOp.apply (c : WfCache) (now : Time) : PipelineOp → PipelineResult × WfCache
  | .set key value => (.ok, c.set key value 0 now)
  | .setWithTTL key value ttl => (.ok, c.set key value (ttl * second) now)
  | .get key =>
    (if (c.get key now).1.2 then .found (c.get key now).1.1 else .missing, (c.get key now).2)
  | .del key => (.deleted, c.delete key)

/-- The commands applied in order, the `i`-th at `clock i`. -/
def applyOps (clock : Nat → Time) : Nat → WfCache → List PipelineOp →
    List PipelineResult × WfCache
  | _, c, [] => ([], c)
  | i, c, op :: ops =>
    let (result, c) := op.apply c (clock i)
    let (results, c) := applyOps clock (i + 1) c ops
    (result :: results, c)

theorem length_applyOps (clock : Nat → Time) (i : Nat) (c : WfCache) (ops : List PipelineOp) :
    (applyOps clock i c ops).1.length = ops.length := by
  induction ops generalizing i c with
  | nil => rfl
  | cons op ops ih =>
    show (applyOps clock (i + 1) _ ops).1.length + 1 = _
    rw [ih, List.length_cons]

/-! ## The node -/

theorem PipelineOp.executes (c : WfCache) (now : Time) (op : PipelineOp) :
    ∃ mutation, Executes c now (strs op.command) (op.apply c now).1.wire mutation
      (op.apply c now).2 := by
  cases op with
  | set key value => exact ⟨_, .set key value [] 0 (by simp) rfl⟩
  | setWithTTL key value ttl =>
    refine ⟨_, .set key value [.str (itoaString ttl)] (ttl * second) (by simp) ?_⟩
    have hatoi : atoi (itoaString ttl).bytes = some ttl := atoi_itoa ttl
    simp only [parseTTL_one, ttlOf, hatoi]
  | get key =>
    have hreply : (PipelineOp.apply c now (.get key)).1.wire = replyGet (c.get key now).1 := by
      show (if (c.get key now).1.2 then PipelineResult.found _ else .missing).wire = _
      unfold replyGet
      split <;> rfl
    rw [hreply]
    exact ⟨_, .get key⟩
  | del key => exact ⟨_, .del key⟩

theorem executesAll_pipeline (clock : Nat → Time) (i : Nat) (c : WfCache)
    (ops : List PipelineOp) :
    ∃ mutations, ExecutesAll clock i c (ops.map fun op => strs op.command)
      ((applyOps clock i c ops).1.map PipelineResult.wire) mutations
      (applyOps clock i c ops).2 := by
  induction ops generalizing i c with
  | nil => exact ⟨[], .nil i c⟩
  | cons op ops ih =>
    obtain ⟨mutation, hop⟩ := op.executes c (clock i)
    obtain ⟨mutations, hops⟩ := ih (i + 1) (op.apply c (clock i)).2
    exact ⟨_, .cons hop hops⟩

/-- The commands of a pipeline are queued, and `EXEC` gets through them. -/
theorem PipelineOp.queueable (op : PipelineOp) :
    Queueable (strs op.command) ∧ completes (strs op.command) = true := by
  cases op with
  | set key value =>
    exact ⟨⟨lit "SET", _, rfl, by decide, by rw [validationErr]; rfl⟩, rfl⟩
  | setWithTTL key value ttl =>
    exact ⟨⟨lit "SET", _, rfl, by decide, by rw [validationErr]; rfl⟩, rfl⟩
  | get key => exact ⟨⟨lit "GET", _, rfl, by decide, by rw [validationErr]; rfl⟩, rfl⟩
  | del key => exact ⟨⟨lit "DEL", _, rfl, by decide, by rw [validationErr]; rfl⟩, rfl⟩

section Node

variable (net : Network Unit) (hash : Bytes → UInt32) (conn : ConnID) (choices : Choices)
  {n : ServerNode Unit} {st : ConnectionState} {c : WfCache}

/-- A command without a key is never redirected. -/
private theorem movedTo_empty (s : Server) (command : Value) :
    movedTo s command GoString.empty = none := by
  unfold movedTo
  rw [if_neg (by simp)]

private theorem handleCommand_multi (hst : Immediate st) :
    n.handleCommand handleExec net hash conn st choices [.str (lit "MULTI")] =
      .ok (replyOK, n, queueing []) := by
  have hmulti : handleMulti st = (replyOK, queueing []) := by
    unfold handleMulti
    rw [hst.inTransaction, hst.subscriberMode]
    rfl
  have hserver : handleCommand noOther (n.server hash) st choices.clock (strs [lit "MULTI"]) =
      .ok (replyOK, n.server hash, queueing []) := by
    rw [handleCommand_immediate noOther hst _ (by decide) (movedTo_empty _ _)]
    show Except.ok ((handleMulti st).1, n.server hash, (handleMulti st).2) = _
    rw [hmulti]
  rw [strs, List.map_singleton] at hserver
  rw [handleCommand_server noOther (by decide) fun _ => rfl, hserver]
  rfl

/-- On a connection that subscribes or queues already, `MULTI` is refused. -/
private theorem handleCommand_multi_refused (hst : ¬ Immediate st) :
    ∃ response, n.handleCommand handleExec net hash conn st choices [.str (lit "MULTI")] =
        .ok (encodeError response.bytes, n, st) ∧
      byte '\n' ∉ response.bytes ∧ isRedirect response = false ∧ response ≠ lit "OK" := by
  obtain ⟨subscriberMode, inTransaction, queue, err⟩ := st
  cases subscriberMode with
  | true =>
    refine ⟨lit "ERR only (P)SUBSCRIBE / (P)UNSUBSCRIBE / PING / QUIT allowed in this context", ?_,
      by decide, by decide, by decide⟩
    have hallowed : allowedSubscribed (.str (lit "MULTI")) = false := by decide
    unfold ServerNode.handleCommand
    simp only [hallowed, Bool.not_false, Bool.and_true, if_true]
    rfl
  | false =>
    cases inTransaction with
    | false => exact absurd ⟨rfl, rfl⟩ hst
    | true =>
      exact ⟨lit "ERR command 'MULTI cannot be used in a transaction", rfl, by decide, by decide,
        by decide⟩

private theorem handleCommand_queued (queue : List (List Value)) (op : PipelineOp) :
    n.handleCommand handleExec net hash conn (queueing queue) choices (strs op.command) =
      .ok (replyQueued, n, queueing (queue ++ [strs op.command])) := by
  cases op <;> rfl

/-- `EXEC` of a pipeline. -/
private theorem handleCommand_exec (hc : n.cache = c.cache) (ops : List PipelineOp) :
    ∃ n', n.handleCommand handleExec net hash conn
        (queueing (ops.map fun op => strs op.command)) choices [.str (lit "EXEC")] =
        .ok (execReply ((applyOps choices.clock 0 c ops).1.map PipelineResult.wire), n', .new) ∧
      n'.cache = (applyOps choices.clock 0 c ops).2.cache := by
  obtain ⟨mutations, hall⟩ := executesAll_pipeline choices.clock 0 c ops
  have hqueue : ∀ cmd ∈ ops.map fun op => strs op.command,
      Queueable cmd ∧ completes cmd = true := by
    intro cmd hcmd
    obtain ⟨op, -, rfl⟩ := List.mem_map.mp hcmd
    exact op.queueable
  have hexec := handleExec_of_completes (s := n.server hash) (fun cmd h => (hqueue cmd h).1)
    (fun cmd h => (hqueue cmd h).2) hc hall
  refine ⟨n.update (logAll { n.server hash with cache := (applyOps choices.clock 0 c ops).2.cache }
    ((ops.map fun op => strs op.command).filterMap record?)), ?_, cache_logAll _ _⟩
  rw [handleCommand_server noOther (by decide) fun _ => rfl]
  -- control commands are not queued
  show (dispatch noOther (n.server hash) (queueing (ops.map fun op => strs op.command))
    choices.clock (.str (lit "EXEC")) (strs [lit "EXEC"])).map _ = _
  rw [dispatch_strs noOther _ (by decide) (movedTo_empty _ _), switchCommand_exec, hexec]
  rfl

end Node

/-! ## The client -/

section Client

variable (hash : Bytes → UInt32) (conn : ConnID) (choices : Nat → Choices) {c : Client Peers}
  {node node' : ServerNode Unit} {st st' : ConnectionState} {wc : WfCache}

/-- A client with a connection on which everything is answered and read. -/
structure Linked (c : Client Peers) (node : ServerNode Unit) (st : ConnectionState) : Prop where
  ready : Ready c
  host : c.world.hosts c.address = some ⟨node, some (st, [])⟩

/-- The client behind a command that the node has handled. -/
def afterCommand (c : Client Peers) (node : ServerNode Unit) (st : ConnectionState) :
    Client Peers :=
  { c with world := { c.world with
      hosts := Function.update c.world.hosts c.address (some ⟨node, some (st, [])⟩)
      handled := c.world.handled + 1 } }

theorem Linked.after (h : Linked c node st) (node' : ServerNode Unit) (st' : ConnectionState) :
    Linked (afterCommand c node' st') node' st' where
  ready := ⟨h.ready.writeErr, h.ready.closed, h.ready.unread⟩
  host := Function.update_self ..

/-- The client has not been sent to another node, and no other node has been reached. -/
structure Undiverted (c c' : Client Peers) : Prop where
  address : c'.address = c.address
  dialled : c'.world.dialled = c.world.dialled
  others : ∀ addr, addr ≠ c.address → c'.world.hosts addr = c.world.hosts addr

theorem Undiverted.trans {c₁ c₂ c₃ : Client Peers} (h : Undiverted c₁ c₂)
    (h' : Undiverted c₂ c₃) : Undiverted c₁ c₃ where
  address := h'.address.trans h.address
  dialled := h'.dialled.trans h.dialled
  others addr hne := (h'.others addr (by rwa [h.address])).trans (h.others addr hne)

theorem undiverted_afterCommand (c : Client Peers) (node : ServerNode Unit)
    (st : ConnectionState) : Undiverted c (afterCommand c node st) :=
  ⟨rfl, rfl, fun _ hne => Function.update_of_ne hne ..⟩

/-- A command that is answered with a text that is no redirect. -/
private theorem Linked.command (h : Linked c node st) (es : ElementSlice) {reply : Bytes}
    {response : GoString}
    (hhandle : node.handleCommand handleExec unreachable hash conn st (choices c.world.handled)
      (es.elements.map Element.value) = .ok (reply, node', st'))
    (hframes : Frames parse reply (.str response)) (hplain : isRedirect response = false) :
    c.executeCommandWithRedirect (peers handleExec hash conn choices) es.elements =
      .ok (.ok response, afterCommand c node' st') :=
  redirectLoop_of_frames h.ready (write_peers es h.host hhandle) hframes hplain 4

/-- The elements of a short command. -/
private def shortSlice (es : List Element) (h : es.length ≤ 4) : ElementSlice where
  elements := es
  length_le := by
    have : (64 : Nat) ≤ maxAlloc := by decide
    omega

private theorem Linked.multi (h : Linked c node st) (hst : Immediate st) :
    c.multi (peers handleExec hash conn choices) =
      .ok (none, afterCommand c node (queueing [])) := by
  have hcommand := h.command hash conn choices (shortSlice [.str (lit "MULTI")] (by decide))
    (handleCommand_multi unreachable hash conn (choices c.world.handled) hst)
    (frames_encodeSimpleString (lit "OK") (by decide)) (by decide)
  unfold Client.multi Client.control
  rw [show [Element.str (lit "MULTI")] =
    (shortSlice [.str (lit "MULTI")] (by decide)).elements from rfl, hcommand]
  rfl

private theorem Linked.multi_refused (h : Linked c node st) (hst : ¬ Immediate st) :
    ∃ text, c.multi (peers handleExec hash conn choices) =
      .ok (some text, afterCommand c node st) := by
  obtain ⟨response, hhandle, hline, hplain, hne⟩ := handleCommand_multi_refused unreachable hash
    conn (choices c.world.handled) (n := node) hst
  have hcommand := h.command hash conn choices (shortSlice [.str (lit "MULTI")] (by decide)) hhandle
    (frames_encodeError response hline) hplain
  refine ⟨ascii "MULTI failed: " ++ response.bytes, ?_⟩
  unfold Client.multi Client.control
  rw [show [Element.str (lit "MULTI")] =
    (shortSlice [.str (lit "MULTI")] (by decide)).elements from rfl, hcommand]
  simp only [bind, Except.bind, ne_eq, hne, not_false_eq_true, if_true]
  rfl

/-- The elements of a command of a pipeline. -/
private def PipelineOp.elements (op : PipelineOp) : List Element := op.command.map .str

private theorem PipelineOp.length_elements (op : PipelineOp) : op.elements.length ≤ 4 := by
  cases op <;> simp [PipelineOp.elements, PipelineOp.command]

private theorem PipelineOp.map_value (op : PipelineOp) :
    op.elements.map Element.value = strs op.command := by
  rw [PipelineOp.elements, List.map_map]
  rfl

/-- One command of a pipeline is queued. -/
private theorem Linked.queue {queue : List (List Value)} (h : Linked c node (queueing queue))
    (op : PipelineOp) :
    c.executeCommandWithRedirect (peers handleExec hash conn choices) op.elements =
      .ok (.ok (lit "QUEUED"), afterCommand c node (queueing (queue ++ [strs op.command]))) := by
  refine h.command hash conn choices (shortSlice op.elements op.length_elements) ?_
    (frames_encodeSimpleString (lit "QUEUED") (by decide)) (by decide)
  show node.handleCommand handleExec unreachable hash conn _ _ (op.elements.map Element.value) = _
  rw [op.map_value]
  exact handleCommand_queued unreachable hash conn _ queue op

/-- The loop of `Execute` queues all commands. -/
private theorem Linked.sendCommands {queue : List (List Value)}
    (h : Linked c node (queueing queue)) (ops : List PipelineOp) :
    ∃ c', TransactionPipeline.sendCommands (peers handleExec hash conn choices)
        (ops.map PipelineOp.elements) c = .ok (none, c') ∧
      Linked c' node (queueing (queue ++ ops.map fun op => strs op.command)) ∧
      Undiverted c c' ∧ c'.world.handled = c.world.handled + ops.length := by
  induction ops generalizing c queue with
  | nil => exact ⟨c, rfl, by simpa using h, ⟨rfl, rfl, fun _ _ => rfl⟩, rfl⟩
  | cons op ops ih =>
    have hqueue := h.queue hash conn choices op
    obtain ⟨c', hsend, hlinked, hundiverted, hhandled⟩ :=
      ih (h.after node (queueing (queue ++ [strs op.command])))
    refine ⟨c', ?_, ?_, (undiverted_afterCommand ..).trans hundiverted, ?_⟩
    · rw [List.map_cons, TransactionPipeline.sendCommands, hqueue]
      simp only [bind, Except.bind, ne_eq, not_true_eq_false, if_false]
      exact hsend
    · simpa using hlinked
    · rw [hhandled, List.length_cons]
      show c.world.handled + 1 + _ = _
      omega

private theorem execResults_arr (results : List PipelineResult) :
    Client.execResults (.arr (results.map PipelineResult.value)) =
      .ok (.ok (results.map PipelineResult.text)) := by
  have hmap : (results.map PipelineResult.value).mapM (fun element => newString element.format) =
      (.ok (results.map PipelineResult.text) : Except Panic _) := by
    induction results with
    | nil => rfl
    | cons r results ih => simp only [List.map_cons, List.mapM_cons, r.newString_format, ih]; rfl
  rw [Client.execResults, hmap]
  rfl

/-- `EXEC` brings the results. -/
private theorem Linked.exec {ops : List PipelineOp}
    (h : Linked c node (queueing (ops.map fun op => strs op.command)))
    (hcache : node.cache = wc.cache) (hlen : 16 * ops.length ≤ maxAlloc) :
    ∃ node', c.exec (peers handleExec hash conn choices) =
        .ok (.ok ((applyOps (choices c.world.handled).clock 0 wc ops).1.map PipelineResult.text),
          afterCommand c node' .new) ∧
      node'.cache = (applyOps (choices c.world.handled).clock 0 wc ops).2.cache := by
  obtain ⟨node', hhandle, hcache'⟩ := handleCommand_exec unreachable hash conn
    (choices c.world.handled) hcache ops
  refine ⟨node', ?_, hcache'⟩
  generalize hresults : (applyOps (choices c.world.handled).clock 0 wc ops).1 = results
    at hhandle ⊢
  have hlen' : results.length = ops.length := by rw [← hresults, length_applyOps]
  -- the reply is read as one array
  have hframes : Frames parse (execReply (results.map PipelineResult.wire))
      (.arr (results.map PipelineResult.value)) := by
    have helements := frames_parseElements PipelineResult.frames_wire results
    rw [← List.length_map PipelineResult.value] at helements
    have harray := frames_array (by rw [List.length_map, hlen']; exact hlen) helements
    rw [List.length_map, List.flatMap_def] at harray
    rw [execReply, List.length_map]
    exact harray
  have hexec : (peers handleExec hash conn choices).write c.world c.address
      (encodeArray [.str (lit "EXEC")]) = .ok (execReply (results.map PipelineResult.wire),
        (afterCommand c node' .new).world) :=
    write_peers (shortSlice [.str (lit "EXEC")] (by decide)) h.host hhandle
  have hparse : parse (execReply (results.map PipelineResult.wire)) =
      .ok (.arr (results.map PipelineResult.value)) [] := by
    simpa using hframes.reads []
  have htransmit : c.transmit (peers handleExec hash conn choices)
      (ascii "failed to write EXEC: ") (ascii "failed to flush EXEC: ")
      (encodeArray [.str (lit "EXEC")]) =
      (none, { c with
        world := (afterCommand c node' .new).world
        unread := execReply (results.map PipelineResult.wire) }) := by
    unfold Client.transmit
    rw [h.ready.writeErr, h.ready.closed, h.ready.unread, if_neg Bool.false_ne_true, hexec]
    rfl
  unfold Client.exec
  simp only [htransmit, hparse, execResults_arr, bind, Except.bind]
  rw [← h.ready.unread]
  rfl

theorem commands_pipeline (tp : TransactionPipeline) (ops : List PipelineOp) :
    (ops.foldl PipelineOp.add tp).commands = tp.commands ++ ops.map PipelineOp.elements ∧
      (ops.foldl PipelineOp.add tp).started = tp.started := by
  induction ops generalizing tp with
  | nil => exact ⟨(List.append_nil _).symm, rfl⟩
  | cons op ops ih =>
    obtain ⟨hcommands, hstarted⟩ := ih (PipelineOp.add tp op)
    have hadd : (PipelineOp.add tp op).commands = tp.commands ++ [op.elements] ∧
        (PipelineOp.add tp op).started = tp.started := by
      cases op <;> exact ⟨rfl, rfl⟩
    rw [List.foldl_cons, hcommands, hstarted, hadd.1, hadd.2]
    exact ⟨by simp, rfl⟩

end Client

/-! ## The result -/

/-- A pipeline of any calls, executed over a connection on which nothing is unread, at a
    node of any role and in any cluster mode. Outside of a transaction the node applies
    the commands in the order of the calls, at the times it reads while it handles `EXEC`,
    the client gets their results as texts in that order, and the connection leaves the
    transaction; neither a redirect nor a value that looks like one sends the client
    elsewhere. A connection that queues or subscribes already gets an error, and the node
    and the connection are as before. -/
theorem pipeline_executes (hash : Bytes → UInt32) (conn : ConnID) (choices : Nat → Choices)
    (c : Client Peers) (node : ServerNode Unit) (st : ConnectionState) (wc : WfCache)
    (ops : List PipelineOp) (hlinked : Linked c node st) (hcache : node.cache = wc.cache)
    (hlen : 16 * ops.length ≤ maxAlloc) :
    ∃ result c' tp node' st',
      (ops.foldl PipelineOp.add .new).execute (peers handleExec hash conn choices) c =
        .ok (result, c', tp) ∧
      Linked c' node' st' ∧ Undiverted c c' ∧
      (Immediate st →
        let applied := applyOps (choices (c.world.handled + 1 + ops.length)).clock 0 wc ops
        result = .ok (applied.1.map PipelineResult.text) ∧ node'.cache = applied.2.cache ∧
          st' = .new ∧ tp.started = true) ∧
      (¬ Immediate st →
        (∃ text, result = .error text) ∧ node' = node ∧ st' = st ∧ tp.started = false) := by
  obtain ⟨hcommands, hstarted⟩ := commands_pipeline .new ops
  by_cases hst : Immediate st
  · have hmulti := hlinked.multi hash conn choices hst
    obtain ⟨c₁, hsend, hlinked₁, hundiverted, hhandled⟩ :=
      (hlinked.after node (queueing [])).sendCommands hash conn choices ops
    rw [List.nil_append] at hlinked₁
    obtain ⟨node', hexec, hcache'⟩ := hlinked₁.exec hash conn choices hcache hlen
    have hhandled' : c₁.world.handled = c.world.handled + 1 + ops.length := hhandled
    rw [hhandled'] at hexec hcache'
    refine ⟨_, _, { (ops.foldl PipelineOp.add .new) with started := true }, node', .new, ?_,
      hlinked₁.after node' .new,
      ((undiverted_afterCommand ..).trans hundiverted).trans (undiverted_afterCommand ..),
      fun _ => ⟨rfl, hcache', rfl, rfl⟩, fun hnot => absurd hst hnot⟩
    unfold TransactionPipeline.execute
    rw [hmulti]
    simp only [bind, Except.bind]
    rw [show (ops.foldl PipelineOp.add .new).commands = ops.map PipelineOp.elements from hcommands,
      hsend]
    simp only
    rw [hexec]
    rfl
  · obtain ⟨text, hmulti⟩ := hlinked.multi_refused hash conn choices hst
    refine ⟨.error (ascii "failed to start transaction: " ++ text), _, _, node, st, ?_,
      hlinked.after node st, undiverted_afterCommand ..,
      fun himm => absurd himm hst, fun _ => ⟨⟨_, rfl⟩, rfl, rfl, hstarted⟩⟩
    unfold TransactionPipeline.execute
    rw [hmulti]
    rfl

/-- A stored value that reads like a redirect comes back as a result. -/
theorem pipeline_executes_redirect : ∃ c' tp,
    ([.set (lit "k") (lit "MOVED h:1"), .get (lit "k"), .del (lit "k"), .get (lit "k")].foldl
      PipelineOp.add .new).execute (peers handleExec sha256Hash 1 fun _ => idleChoices)
        clientOfFirst =
      .ok (.ok [lit "OK", lit "MOVED h:1", lit "1", GoString.empty], c', tp) ∧
    c'.address = lit "a:1" ∧ c'.world.dialled = [lit "a:1"] := by
  obtain ⟨result, c', tp, node', st', hexecute, -, hundiverted, himm, -⟩ := pipeline_executes
    sha256Hash 1 (fun _ => idleChoices) clientOfFirst emptyLeader .new (WfCache.new 10)
    [.set (lit "k") (lit "MOVED h:1"), .get (lit "k"), .del (lit "k"), .get (lit "k")]
    ⟨⟨rfl, rfl, rfl⟩, rfl⟩ rfl (by decide)
  obtain ⟨hresult, -⟩ := himm ⟨rfl, rfl⟩
  have htexts : (applyOps (fun _ => 0) 0 (WfCache.new 10) [.set (lit "k") (lit "MOVED h:1"),
      .get (lit "k"), .del (lit "k"), .get (lit "k")]).1.map PipelineResult.text =
      [lit "OK", lit "MOVED h:1", lit "1", GoString.empty] := by decide +kernel
  refine ⟨c', tp, ?_, hundiverted.address, hundiverted.dialled⟩
  rw [hexecute, hresult, ← htexts]
  rfl

end GoCache.Spec
