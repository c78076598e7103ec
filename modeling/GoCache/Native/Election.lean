import GoCache.ForStd.Reaches
import GoCache.Native.State

/-!
# Elections

`startElection` of `internal/replication/follower.go`: a follower that takes its
leader for dead waits, dials the replication addresses of the other nodes, and if
none of them listens it listens itself and becomes the leader. The elections of the
followers of one leader run at the same time, one step after the other in any order.

An address is a host and a port; empty entries of the list of peers are left out. A
dial of the address of a node that listens succeeds. At the end stands one election by
itself, of a follower that `startAsFollower` of `internal/server/server.go` has made from
a configuration.
-/

namespace GoCache.Native

open Transition

/-- The address of a replication port. -/
structure Addr where
  host : GoString
  port : Nat
  deriving DecidableEq

/-- A `config.NodeInfo`, as far as elections go. -/
structure ClusterNode where
  id : GoString
  host : GoString
  replPort : Nat
  priority : Int64
  deriving DecidableEq

def ClusterNode.addr (node : ClusterNode) : Addr := ⟨node.host, node.replPort⟩

/-- `time.Millisecond`. -/
def millisecond : Duration := 1000000

/-- A `Follower`, as far as elections go, and the host it runs on. -/
structure Candidate where
  id : GoString
  host : GoString
  clusterNodes : List ClusterNode
  myPriority : Int64
  myReplPort : Nat
  peerReplAddrs : List Addr
  deriving DecidableEq

namespace Candidate

variable (c : Candidate)

/-- The highest priority that the follower knows of. -/
def maxPriority : Int64 :=
  c.clusterNodes.foldl (fun max n => if max < n.priority then n.priority else max) c.myPriority

/-- The time before it tries to become the leader. -/
def waitTime : Duration := (c.maxPriority - c.myPriority + 1) * 500 * millisecond

/-- The addresses that `findNewLeader` and then `findPeerLeader` dial. -/
def probeAddrs : List Addr :=
  (c.clusterNodes.filter fun node => node.id ≠ c.id).map ClusterNode.addr ++ c.peerReplAddrs

/-- What `startElection` sets out to do: nothing, or to wait and to dial some addresses
    before it promotes the follower. -/
def startElection : Option (Duration × List Addr) :=
  if 0 < c.myPriority then some (c.waitTime, c.probeAddrs)
  else if c.clusterNodes.isEmpty then some (0, [])
  else none

/-- The address it will listen at; without a port of its own it takes a free one. -/
def listenAddr (freePort : Nat) : Addr :=
  ⟨c.host, if c.myReplPort = 0 then freePort else c.myReplPort⟩

end Candidate

/-- How far a goroutine in `startElection` has come. -/
inductive ElectionPhase where
  | waiting (wakeAt : Time) (probes : List Addr)
  | probing (todo : List Addr)
  | listening
  | finished
  deriving DecidableEq

/-- A goroutine in `startElection` of one of the followers. -/
structure Election where
  candidate : Nat
  phase : ElectionPhase
  deriving DecidableEq

/-- The followers of a dead leader: their elections, who listens where, and whose role
    is "leader". -/
structure Group where
  candidates : List Candidate
  now : Time
  elections : List Election
  listeners : List (Nat × Addr)
  leaders : List Nat
  deriving DecidableEq

inductive GroupStep where
  /-- A follower starts an election. -/
  | start (i : Nat)
  /-- Time passes. -/
  | advance (d : Nat)
  /-- An election has waited. -/
  | wake (k : Nat)
  /-- An election dials its next address. -/
  | probe (k : Nat) (found : Bool)
  /-- An election that has found no leader listens, at a free port if it has none. -/
  | listen (k : Nat) (freePort : Nat)
  /-- `SetRole("leader")`. -/
  | setRole (k : Nat)
  deriving DecidableEq

namespace Group

def new (candidates : List Candidate) : Group := ⟨candidates, 0, [], [], []⟩

/-- One of the followers listens at the address. -/
def listensAt (g : Group) (addr : Addr) : Bool := g.listeners.any fun l => l.2 = addr

def step (g : Group) : GroupStep → Option Group
  | .start i =>
    match g.candidates[i]? with
    | none => none
    | some c =>
      match c.startElection with
      | none => some g
      | some (wait, probes) =>
        let wakeAt := if 0 < wait then g.now.add wait else g.now
        some { g with elections := g.elections ++ [⟨i, .waiting wakeAt probes⟩] }
  | .advance d => some { g with now := g.now + d }
  | .wake k =>
    match pick k g.elections with
    | some (pre, ⟨i, .waiting wakeAt probes⟩, post) =>
      if wakeAt ≤ g.now then
        some { g with elections := pre ++ ⟨i, .probing probes⟩ :: post }
      else none
    | _ => none
  | .probe k found =>
    match pick k g.elections with
    | some (pre, ⟨i, .probing (addr :: todo)⟩, post) =>
      -- something else may listen at the address
      if g.listensAt addr && !found then none
      else some { g with
        elections := pre ++ ⟨i, if found then .finished else .probing todo⟩ :: post }
    | _ => none
  | .listen k freePort =>
    match pick k g.elections with
    | some (pre, ⟨i, .probing []⟩, post) =>
      match g.candidates[i]? with
      | none => none
      | some c =>
        -- `NewLeader` fails if the address is in use
        if g.listensAt (c.listenAddr freePort) then
          some { g with elections := pre ++ ⟨i, .finished⟩ :: post }
        else some { g with
          elections := pre ++ ⟨i, .listening⟩ :: post
          listeners := g.listeners ++ [(i, c.listenAddr freePort)] }
    | _ => none
  | .setRole k =>
    match pick k g.elections with
    | some (pre, ⟨i, .listening⟩, post) =>
      some { g with elections := pre ++ ⟨i, .finished⟩ :: post, leaders := g.leaders ++ [i] }
    | _ => none

end Group

/-! ## The leader that a follower adopts -/

/-- How an election ends: in cluster mode without a priority at once, with a leader found
    among the nodes of the cluster or among the peers, or with a promotion. -/
inductive ElectionOutcome where
  | skipped
  | adopted (addr : Addr)
  | adoptedPeer (addr : Addr)
  | promoted
  deriving DecidableEq

namespace Candidate

variable (c : Candidate) (accepts : Addr → Bool)

/-- `findNewLeader`: the first address that takes a connection and the request, in the
    order of the nodes. -/
def findNewLeader : Option Addr :=
  ((c.clusterNodes.filter fun node => node.id ≠ c.id).map ClusterNode.addr).find? accepts

/-- `findPeerLeader`. -/
def findPeerLeader : Option Addr := c.peerReplAddrs.find? accepts

/-- `startElection`, when the addresses that take a connection are the given ones. -/
def elect : ElectionOutcome :=
  if 0 < c.myPriority then
    match c.findNewLeader accepts with
    | some addr => .adopted addr
    | none =>
      match c.findPeerLeader accepts with
      | some addr => .adoptedPeer addr
      | none => .promoted
  else if c.clusterNodes.isEmpty then .promoted
  else .skipped

end Candidate

/-- A `NodeInfo` with what replication uses of it. -/
structure ReplNode extends NodeInfo where
  replPort : Nat
  priority : Int64

namespace ReplNode

/-- `net.JoinHostPort(node.Host, strconv.Itoa(node.ReplPort))`. -/
def replAddr (node : ReplNode) : Addr := ⟨node.host, node.replPort⟩

/-- What elections read of a node. -/
def toClusterNode (node : ReplNode) : ClusterNode :=
  ⟨node.id, node.host, node.replPort, node.priority⟩

end ReplNode

/-- A `Config` with what replication uses of it. -/
structure ReplConfig where
  nodeID : GoString
  nodes : List ReplNode
  shards : List ShardInfo
  peerReplAddrs : List Addr

namespace ReplConfig

variable (cfg : ReplConfig)

/-- The rest of the configuration. -/
def toConfig : Config := ⟨cfg.nodeID, cfg.nodes.map ReplNode.toNodeInfo, cfg.shards⟩

/-- `GetMyNode`. -/
def getMyNode : Option ReplNode := cfg.nodes.find? fun node => node.id = cfg.nodeID

/-- The follower that `startAsFollower` makes. It gets all nodes of the cluster, of
    whichever shard. -/
def startAsFollower (myNode : ReplNode) : Candidate where
  id := myNode.id
  host := myNode.host
  clusterNodes := cfg.nodes.map ReplNode.toClusterNode
  myPriority := myNode.priority
  myReplPort := myNode.replPort
  peerReplAddrs := cfg.peerReplAddrs

end ReplConfig

end GoCache.Native
