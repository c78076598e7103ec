import GoCache.Native.Peers

/-!
# A cluster whose nodes come and go

The nodes of one configuration and the nodes added to them: `CLUSTER ADDNODE` and
`CLUSTER REMOVENODE` on one of the configured nodes, whose connections lead to the
other nodes' own handlers. A node that is added has been started by `startPendingNode`
from the same configuration. Between these commands the caches, logs and subscriptions
of all nodes change as they like.
-/

namespace GoCache.Native

/-- The processes, the nodes that were added (with their addresses) and not removed
    again, and the IDs that were removed. -/
structure Cluster where
  world : Peers
  joined : List (GoString × GoString)
  left : List GoString

/-- What happens to a cluster, with the choices of the runtimes. -/
inductive TopologyChange where
  | addNode (coordinator : NodeInfo) (id addr : GoString) (cache : Cache) (aof : Bytes)
      (trigger : RewriteTrigger) (choices : Choices) (peerChoices : Nat → Choices)
  | removeNode (coordinator : NodeInfo) (id : GoString) (choices : Choices)
      (peerChoices : Nat → Choices)
  | serve (addr : GoString) (cache : Cache) (aof : Bytes) (trigger : RewriteTrigger) (ps : PubSub)

/-- A node with other peers. -/
def ServerNode.withWorld {ω ω' : Type} (n : ServerNode ω) (world : ω') : ServerNode ω' :=
  ⟨n.cache, n.aof, n.trigger, n.state, n.ps, world⟩

/-- Another process, or none, at an address. -/
def Peers.put (w : Peers) (addr : GoString) (host : Option Host) : Peers :=
  { w with hosts := Function.update w.hosts addr host }

section Command

variable (exec : ExecHandler) (hash : Bytes → UInt32) (conn : ConnID)

/-- A command to the node at an address, which reaches the other nodes; none unless it
    is answered with `OK`. -/
def Peers.coordinate (peerChoices : Nat → Choices) (choices : Choices) (w : Peers)
    (addr : GoString) (command : List Value) : Option Peers :=
  match w.hosts addr with
  | none => none
  | some host =>
    match handleClusterCommand (peers exec hash conn peerChoices) hash (host.node.withWorld w)
        choices command with
    | .error _ => none
    | .ok (reply, n) =>
      if reply = replyOK then
        some (n.world.put addr (some ⟨n.withWorld (), none⟩))
      else none

/-- The node that `startPendingNode` starts. -/
def pendingHost (config : Config) (id : GoString) (cache : Cache) (aof : Bytes)
    (trigger : RewriteTrigger) : Host where
  node := ⟨cache, aof, trigger, NodeState.pendingState hash { config with nodeID := id }, .new, ()⟩
  conn := none

/-- A node that removes itself, and has an address for itself, is notified on the same
    ring that it has just changed. -/
def notifySelf (addr id : GoString) (hr : HashRing) : HashRing :=
  if hr.getNodeAddress id = addr then
    (hr.removeShard hash id).setNodeAddress id GoString.empty
  else hr

/-- The coordinator of a removal, with the notification it may have sent itself. -/
def Host.removed (addr id : GoString) (host : Host) : Host :=
  { host with node := { host.node with state := { host.node.state with
    hashRing := host.node.state.hashRing.map (notifySelf hash addr id) } } }

/-- A process that has gone on serving clients. -/
def Host.served (cache : Cache) (aof : Bytes) (trigger : RewriteTrigger) (ps : PubSub)
    (host : Host) : Host :=
  { host with node := { host.node with cache := cache, aof := aof, trigger := trigger, ps := ps } }

/-- A change of the cluster that succeeds. The address of a new node is not in use, and
    its ID is not configured, or it would not start as a pending node. -/
def Cluster.step (config : Config) (s : Cluster) : TopologyChange → Option Cluster
  | .addNode coordinator id addr cache aof trigger choices peerChoices =>
    if coordinator ∈ config.nodes ∧ (∀ node ∈ config.nodes, node.id ≠ id ∧ node.addr ≠ addr) ∧
        ∀ m ∈ s.joined, m.2 ≠ addr then
      match (s.world.put addr
            (some (pendingHost hash config id cache aof trigger))).coordinate exec hash
          conn peerChoices choices coordinator.addr
          [.str (lit "CLUSTER"), .str (lit "ADDNODE"), .str id, .str addr] with
      | none => none
      | some w => some { s with world := w, joined := s.joined ++ [(id, addr)] }
    else none
  | .removeNode coordinator id choices peerChoices =>
    if coordinator ∈ config.nodes then
      match s.world.coordinate exec hash conn peerChoices choices coordinator.addr
          [.str (lit "CLUSTER"), .str (lit "REMOVENODE"), .str id] with
      | none => none
      | some w => some {
          world := w.put coordinator.addr
            ((w.hosts coordinator.addr).map (Host.removed hash coordinator.addr id))
          joined := s.joined.filter fun m => m.1 ≠ id
          left := id :: s.left }
    else none
  | .serve addr cache aof trigger ps => some { s with
      world := s.world.put addr ((s.world.hosts addr).map (Host.served cache aof trigger ps)) }

end Command

end GoCache.Native
