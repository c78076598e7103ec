import GoCache.Native.Migrator
import GoCache.Native.PubSub
import GoCache.Native.State

/-!
# Cluster commands

`internal/server/cluster_commands.go`: the `CLUSTER` command of a client, which
changes the ring of a node and has data migrated to and from other nodes.
-/

namespace GoCache.Native

/-- A node with the network it is in, as far as its clients can change it. -/
structure ServerNode (ω : Type) where
  cache : Cache
  aof : Bytes
  trigger : RewriteTrigger
  state : NodeState
  ps : PubSub
  world : ω

/-- What Go leaves open while a request is handled: the readings of the clock, and
    the orders of the loops over maps. -/
structure Choices where
  clock : Nat → Time
  sched : Schedule
  channels : Finset GoString → List GoString
  connections : Finset ConnID → List ConnID
  nodes : List GoString

/-- `EncodeBulkString` of a string that is put together. -/
def encodeBulkText (text : Bytes) : Bytes :=
  byte '$' :: itoa (Int64.ofNat text.length) ++ crlf ++ text ++ crlf

section Cluster

variable {ω : Type} (net : Network ω) (hash : Bytes → UInt32)

/-- `handleClusterTopology`. -/
def handleClusterTopology (n : ServerNode ω) (command : List Value) :
    Except Panic (Bytes × ServerNode ω) :=
  match command with
  | _ :: _ :: operation :: targetNodeID :: targetNodeAddr :: _ => do
    let operation ← asString operation
    let targetNodeID ← asString targetNodeID
    let targetNodeAddr ← asString targetNodeAddr
    if operation = lit "ADD" then
      match n.state.hashRing with
      | none => .error .nilDereference
      | some hashRing =>
        let hashRing := (hashRing.addShard hash targetNodeID).setNodeAddress targetNodeID
          targetNodeAddr
        return (replyOK, { n with state := { n.state with hashRing := some hashRing } })
    else if operation = lit "REMOVE" then
      match n.state.hashRing with
      | none => .error .nilDereference
      | some hashRing =>
        let hashRing := (hashRing.removeShard hash targetNodeID).setNodeAddress targetNodeID
          GoString.empty
        return (replyOK, { n with state := { n.state with hashRing := some hashRing } })
    else return (encodeError (ascii "Unknown TOPOLOGY operation"), n)
  | _ => .ok (encodeError (ascii "TOPOLOGY requires operation, nodeID, and address"), n)

/-- `notifyNodeAboutTopologyChange`, whose error is only logged. It reads without a
    deadline, so it would wait for ever for a peer that is silent and does not close. -/
def notifyNodeAboutTopologyChange (world : ω) (nodeAddr operation targetNodeID
    targetNodeAddr : GoString) : Except Panic ω :=
  match net.dial world nodeAddr with
  | .error _ => .ok world
  | .ok world => do
    let cmd := encodeArray [.str (lit "CLUSTER"), .str (lit "TOPOLOGY"), .str operation,
      .str targetNodeID, .str targetNodeAddr]
    let (_, conn) ← exchange net nodeAddr ⟨world, []⟩ cmd
    return conn.world

/-- The loop that tells all other nodes of the configuration. -/
def broadcast (config : Config) (operation targetNodeID targetNodeAddr : GoString) :
    List NodeInfo → ω → Except Panic ω
  | [], world => .ok world
  | node :: nodes, world =>
    if node.id = config.nodeID then
      broadcast config operation targetNodeID targetNodeAddr nodes world
    else do
      let world ← notifyNodeAboutTopologyChange net world node.addr operation targetNodeID
        targetNodeAddr
      broadcast config operation targetNodeID targetNodeAddr nodes world

/-- `handleClusterAddNode`. -/
def handleClusterAddNode (n : ServerNode ω) (sched : Schedule) (command : List Value) :
    Except Panic (Bytes × ServerNode ω) :=
  match command with
  | _ :: _ :: newNodeID :: newNodeAddr :: _ => do
    let newNodeID ← asString newNodeID
    let newNodeAddr ← asString newNodeAddr
    match n.state.hashRing with
    | none => .error .nilDereference
    | some hashRing =>
      if newNodeID ∈ hashRing.getAllNodes then
        return (encodeError (ascii "Node " ++ newNodeID.bytes ++
          ascii " already exists in cluster"), n)
      else
        match net.dial n.world newNodeAddr with
        | .error text =>
          return (encodeError (ascii "Cannot connect to node " ++ newNodeID.bytes ++
            ascii " at " ++ newNodeAddr.bytes ++
            ascii ". Make sure the node is running first. Error: " ++ text), n)
        | .ok world =>
          if n.state.migrator then
            match ← migrateToNewNode net hash sched newNodeID newNodeAddr n.cache hashRing world
              with
            | (some text, c, hashRing, world) =>
              return (encodeError (ascii "Migration failed: " ++ text),
                { n with
                  cache := c, state := { n.state with hashRing := some hashRing }, world := world })
            | (none, c, hashRing, world) =>
              match n.state.config with
              | none => .error .nilDereference
              | some config => do
                let world ← broadcast net config (lit "ADD") newNodeID newNodeAddr config.nodes
                  world
                let world ← notifyNodeAboutTopologyChange net world newNodeAddr (lit "ADD")
                  newNodeID newNodeAddr
                return (replyOK,
                  { n with
                    cache := c, state := { n.state with hashRing := some hashRing }
                    world := world })
          else return (encodeError (ascii "Cluster not initialized"), { n with world := world })
  | _ => .ok (encodeError (ascii "ADDNODE requires nodeID and address"), n)

/-- `handleClusterRemoveNode`, which writes nothing for a node that is not there. -/
def handleClusterRemoveNode (n : ServerNode ω) (sched : Schedule) (command : List Value) :
    Except Panic (Bytes × ServerNode ω) :=
  match command with
  | _ :: _ :: nodeID :: _ => do
    let nodeID ← asString nodeID
    match n.state.hashRing with
    | none => .error .nilDereference
    | some hashRing =>
      if nodeID ∈ hashRing.getAllNodes then
        if n.state.migrator then
          match ← migrateFromLeavingNode net hash sched nodeID n.cache hashRing n.world with
          | (some text, c, hashRing, world) =>
            return (encodeError (ascii "Migration failed: " ++ text),
              { n with
                cache := c, state := { n.state with hashRing := some hashRing }, world := world })
          | (none, c, hashRing, world) =>
            match n.state.config with
            | none => .error .nilDereference
            | some config => do
              let world ← broadcast net config (lit "REMOVE") nodeID GoString.empty config.nodes
                world
              let leavingNodeAddr := hashRing.getNodeAddress nodeID
              let world ← if leavingNodeAddr ≠ GoString.empty then
                  notifyNodeAboutTopologyChange net world leavingNodeAddr (lit "REMOVE") nodeID
                    GoString.empty
                else .ok world
              return (replyOK,
                { n with
                  cache := c, state := { n.state with hashRing := some hashRing }, world := world })
        else return (encodeError (ascii "Cluster is not initialized"), n)
      else return ([], n)
  | _ => .ok (encodeError (ascii "REMOVENODE requires nodeID"), n)

/-- `handleClusterNodes`. -/
def handleClusterNodes (ns : NodeState) : Bytes :=
  match ns.config with
  | none => encodeError (ascii "Cluster is not initialized")
  | some config =>
    encodeBulkText (config.nodes.flatMap fun node =>
      let status := match ns.healthChecker with
        | some hc => (hc.getNodeStatus node.id).string
        | none => ascii "active"
      node.id.bytes ++ ascii " " ++ node.addr.bytes ++ ascii " " ++ status ++ [byte '\n'])

/-- `handleClusterHealth`, in the given order. -/
def handleClusterHealth (ns : NodeState) (order : List GoString) : Bytes :=
  match ns.healthChecker with
  | none => encodeError (ascii "Health checker not initialized")
  | some hc =>
    encodeBulkText (order.flatMap fun nodeID =>
      match hc.nodeHealth.lookup nodeID with
      | some health =>
        nodeID.bytes ++ ascii " " ++ health.address.bytes ++ ascii " " ++ health.status.string ++
          [byte '\n']
      | none => [])

/-- `handleClusterCommand`. -/
def handleClusterCommand (n : ServerNode ω) (choices : Choices) (command : List Value) :
    Except Panic (Bytes × ServerNode ω) :=
  match command with
  | _ :: subcommand :: _ => do
    let subcommand ← asString subcommand
    if subcommand = lit "ADDNODE" then handleClusterAddNode net hash n choices.sched command
    else if subcommand = lit "REMOVENODE" then
      handleClusterRemoveNode net hash n choices.sched command
    else if subcommand = lit "NODES" then return (handleClusterNodes n.state, n)
    else if subcommand = lit "TOPOLOGY" then handleClusterTopology hash n command
    else if subcommand = lit "HEALTH" then return (handleClusterHealth n.state choices.nodes, n)
    else return (encodeError (ascii "Unknown CLUSTER subcommand"), n)
  | _ => .ok (encodeError (ascii "CLUSTER command requires subcommand"), n)

end Cluster

end GoCache.Native
