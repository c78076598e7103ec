import GoCache.Native.State

/-!
# Health checks

`checkNode` of `internal/cluster/health.go` and the callbacks that `startAsLeader`
sets. A ping is an outcome given from outside. The callbacks run in the order in
which they are triggered.

Of a `NodeHealth` there is what `checkNode` decides by; the times and the number of
successes are only logged.
-/

namespace GoCache.Native

/-- The status of a node and its `ConsecutiveFailures`. They are counted by an `int`; a
    natural number is the same as long as fewer than `2 ^ 63` pings fail in a row. -/
structure NodeCheck (Count : Type) where
  status : NodeStatus
  consecutiveFailures : Count
  deriving DecidableEq

/-- The callback that a check triggers. -/
inductive HealthReport where
  | failed
  | recovered
  deriving DecidableEq

section Check

variable {Count : Type} [Add Count] [OfNat Count 0] [OfNat Count 1] [LE Count] [LT Count]
  [DecidableLE Count] [DecidableLT Count]

/-- `checkNode`, given whether the ping failed. -/
def NodeCheck.checkNode (failureThreshold : Count) (node : NodeCheck Count) (pingFailed : Bool) :
    NodeCheck Count × Option HealthReport :=
  if pingFailed then
    let consecutiveFailures := node.consecutiveFailures + 1
    let status :=
      if failureThreshold ≤ consecutiveFailures then .dead
      else if 0 < consecutiveFailures then .suspected
      else node.status
    (⟨status, consecutiveFailures⟩,
      if node.status ≠ .dead ∧ status = .dead then some .failed else none)
  else (⟨.alive, 0⟩, if node.status = .dead then some .recovered else none)

end Check

/-- The leader's health checker with the ring that its callbacks change. -/
structure Monitor where
  nodes : Finmap fun _ : GoString => NodeCheck Nat
  hashRing : HashRing

/-- The callback `onNodeFailed`. -/
def HashRing.onNodeFailed (hash : Bytes → UInt32) (hr : HashRing) (failedNodeID : GoString) :
    HashRing :=
  (hr.removeShard hash failedNodeID).setNodeAddress failedNodeID GoString.empty

/-- The callback `onNodeRecovered`. -/
def HashRing.onNodeRecovered (hash : Bytes → UInt32) (config : Config) (hr : HashRing)
    (recoveredNodeID : GoString) : HashRing :=
  config.nodes.foldl (fun hr node =>
    if node.id = recoveredNodeID then
      (hr.addShard hash recoveredNodeID).setNodeAddress recoveredNodeID node.addr
    else hr) hr

/-- The callback for a report, if there is one. -/
def HashRing.callback (hash : Bytes → UInt32) (config : Config) (hr : HashRing)
    (nodeID : GoString) : Option HealthReport → HashRing
  | some .failed => hr.onNodeFailed hash nodeID
  | some .recovered => hr.onNodeRecovered hash config nodeID
  | none => hr

namespace Monitor

/-- `RegisterNode`. -/
def registerNode (nodes : Finmap fun _ : GoString => NodeCheck Nat) (nodeID : GoString) :
    Finmap fun _ : GoString => NodeCheck Nat :=
  if nodeID ∈ nodes then nodes else nodes.insert nodeID ⟨.alive, 0⟩

/-- The health checker that `startAsLeader` starts: a node does not check itself. -/
def start (hash : Bytes → UInt32) (config : Config) : Monitor where
  nodes := config.nodes.foldl (fun nodes node =>
    if node.id ≠ config.nodeID then registerNode nodes node.id else nodes) ∅
  hashRing := config.clusterRing hash

/-- The check of a registered node, with the callback it triggers. The threshold is
    the one `startAsLeader` sets. -/
def check (hash : Bytes → UInt32) (config : Config) (m : Monitor) (nodeID : GoString)
    (pingFailed : Bool) : Option (Monitor × Option HealthReport) :=
  (m.nodes.lookup nodeID).map fun node =>
    let (node, report) := node.checkNode 3 pingFailed
    (⟨m.nodes.insert nodeID node, m.hashRing.callback hash config nodeID report⟩, report)

end Monitor

end GoCache.Native
