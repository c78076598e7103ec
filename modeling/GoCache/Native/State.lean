import GoCache.Native.Handler
import GoCache.Native.HashRing

/-!
# The state of a node

`internal/config`, the part of a configuration that describes the cluster;
`internal/server/state.go`, the state a node keeps besides its cache, and the
routing decision `ShouldForwardRequest`; and the rings that `StartClusterMode` and
`startPendingNode` build. Of a `HealthChecker` there is what the client commands read.
-/

namespace GoCache.Native

/-! ## Configuration -/

/-- A `NodeInfo`. Its address is one string, so it fits one allocation. -/
structure NodeInfo where
  id : GoString
  host : GoString
  port : Int64
  addr_le : host.bytes.length + (1 + (itoa port).length) ≤ maxAlloc
  deriving DecidableEq

/-- `fmt.Sprintf("%s:%d", node.Host, node.Port)`. -/
def NodeInfo.addr (node : NodeInfo) : GoString where
  bytes := node.host.bytes ++ byte ':' :: itoa node.port
  length_le := by
    have hle := node.addr_le
    rw [List.length_append, List.length_cons]
    omega

/-- A `ShardInfo`. -/
structure ShardInfo where
  shardID : GoString
  leaderID : GoString
  followers : List GoString
  deriving DecidableEq

/-- A `Config`. -/
structure Config where
  nodeID : GoString
  nodes : List NodeInfo
  shards : List ShardInfo

namespace Config

/-- `Config.IsClusterMode`. -/
def isClusterMode (c : Config) : Bool := decide (c.nodes ≠ []) && decide (c.nodeID ≠ GoString.empty)

/-- `GetShardForNode`: the first shard that has the node as its leader or as a
    follower. -/
def getShardForNode (c : Config) (nodeID : GoString) : Except Bytes ShardInfo :=
  match c.shards.find? fun shard => shard.leaderID = nodeID ∨ nodeID ∈ shard.followers with
  | some shard => .ok shard
  | none => .error (ascii "node " ++ nodeID.bytes ++ ascii " not found in any shard")

/-- The loop over `Nodes` for the address of a node. -/
def addrOf (c : Config) (nodeID : GoString) : GoString :=
  match c.nodes.find? fun node => node.id = nodeID with
  | some node => node.addr
  | none => GoString.empty

/-- `IsShardLeader`. -/
def isShardLeader (c : Config) : Bool := c.shards.any fun shard => shard.leaderID = c.nodeID

/-- One turn of the loop of `StartClusterMode` over the shards. -/
def addShardInfo (hash : Bytes → UInt32) (hr : HashRing) (shard : ShardInfo) : HashRing :=
  (hr.addShard hash shard.shardID).setShardNodes shard.shardID (shard.leaderID :: shard.followers)

/-- The ring that `StartClusterMode` builds, with the addresses that
    `startAsLeader` and `startAsFollower` set in it. -/
def clusterRing (hash : Bytes → UInt32) (c : Config) : HashRing :=
  c.nodes.foldl (fun hr node => hr.setNodeAddress node.id node.addr)
    (c.shards.foldl (addShardInfo hash) (HashRing.new 150))

/-- The ring that `startPendingNode` builds. -/
def pendingRing (hash : Bytes → UInt32) (c : Config) : HashRing :=
  c.nodes.foldl (fun hr node => (hr.addShard hash node.id).setNodeAddress node.id node.addr)
    (HashRing.new 150)

end Config

/-! ## Health -/

/-- A `NodeStatus`. -/
inductive NodeStatus where
  | alive
  | suspected
  | dead
  deriving DecidableEq

/-- `NodeStatus.String`. -/
def NodeStatus.string : NodeStatus → Bytes
  | .alive => ascii "alive"
  | .suspected => ascii "suspected"
  | .dead => ascii "dead"

/-- A `NodeHealth`. -/
structure NodeHealth where
  address : GoString
  status : NodeStatus
  deriving DecidableEq

/-- A `HealthChecker`. -/
structure HealthChecker where
  nodeHealth : Finmap fun _ : GoString => NodeHealth

/-- `GetNodeStatus`. -/
def HealthChecker.getNodeStatus (hc : HealthChecker) (nodeID : GoString) : NodeStatus :=
  match hc.nodeHealth.lookup nodeID with
  | some health => health.status
  | none => .dead

/-! ## Node state -/

/-- A `NodeState`. The migrator works on the node's own cache and ring, so it is
    only there or not. -/
structure NodeState where
  role : Role
  leader : Option Leader
  hashRing : Option HashRing
  config : Option Config
  migrator : Bool
  healthChecker : Option HealthChecker

namespace NodeState

/-- The state in which `StartClusterMode` serves clients. -/
def clusterState (hash : Bytes → UInt32) (config : Config) (leader : Option Leader)
    (healthChecker : HealthChecker) : NodeState where
  role := if config.isShardLeader then .leader else .follower
  leader := leader
  hashRing := some (config.clusterRing hash)
  config := some config
  migrator := true
  healthChecker := some healthChecker

/-- The state in which `startPendingNode` serves clients. -/
def pendingState (hash : Bytes → UInt32) (config : Config) : NodeState where
  role := .pending
  leader := none
  hashRing := some (config.pendingRing hash)
  config := some config
  migrator := true
  healthChecker := none

/-- `NodeState.IsClusterMode`. -/
def isClusterMode (ns : NodeState) : Bool :=
  match ns.hashRing, ns.config with
  | some _, some config => config.isClusterMode
  | _, _ => false

/-- `ShouldForwardRequest`: the node and the address a request is forwarded to, or
    none if it is handled here, which every error also leads to. -/
def shouldForwardRequest (hash : Bytes → UInt32) (ns : NodeState) (key : GoString)
    (isWrite : Bool) : Option (GoString × GoString) :=
  match ns.hashRing, ns.config with
  | some hashRing, some config =>
    if config.isClusterMode then
      match hashRing.getShard hash key with
      | .error _ => none
      | .ok responsibleShardID =>
        match config.getShardForNode config.nodeID with
        | .error _ => none
        | .ok myShard =>
          if responsibleShardID = myShard.shardID then
            if !isWrite then none
            else
              match hashRing.getShardLeader responsibleShardID with
              | .error _ => none
              | .ok leaderNodeID =>
                if leaderNodeID = config.nodeID then none
                else some (leaderNodeID, config.addrOf leaderNodeID)
          else
            match hashRing.getShardLeader responsibleShardID with
            | .error _ => none
            | .ok leaderNodeID => some (leaderNodeID, config.addrOf leaderNodeID)
    else none
  | _, _ => none

end NodeState

end GoCache.Native
