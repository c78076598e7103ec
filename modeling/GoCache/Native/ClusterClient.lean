import GoCache.Native.Client
import GoCache.Native.HashRing
import GoCache.Native.Text

/-!
# The cluster client

`pkg/client/cluster_client.go`: a client that learns from `CLUSTER NODES` which nodes
there are, and picks the node for a key by a ring of its own. The connections that it
keeps for requests are left out.
-/

namespace GoCache.Native

/-- A `NodeInfo` of the client. -/
structure ClientNodeInfo where
  id : GoString
  address : GoString
  status : GoString
  deriving DecidableEq

/-- What a `ClusterClient` knows of the cluster. -/
structure ClientView where
  hashRing : HashRing
  nodes : Finmap fun _ : GoString => ClientNodeInfo

/-- A part of a string, which fits as the string does. -/
def substring (part : Bytes) : GoString :=
  if h : part.length ≤ maxAlloc then ⟨part, h⟩ else GoString.empty

/-- One turn of the loop of `parseClusterNodes`: a line with less than three fields is
    skipped, and the last line for an ID counts. -/
def parseNodeLine (nodes : Finmap fun _ : GoString => ClientNodeInfo) (line : Bytes) :
    Finmap fun _ : GoString => ClientNodeInfo :=
  let line := trimSpace line
  if line = [] then nodes
  else
    match fields line with
    | id :: address :: status :: _ =>
      let nodeInfo : ClientNodeInfo := ⟨substring id, substring address, substring status⟩
      nodes.insert nodeInfo.id nodeInfo
    | _ => nodes

/-- `parseClusterNodes`: nil or the text of the error, and the new `nodes`. -/
def parseClusterNodes (response : GoString) :
    Option Bytes × Finmap fun _ : GoString => ClientNodeInfo :=
  let lines := (trimSpace response.bytes).splitOn (byte '\n')
  if lines = [] then (some (ascii "empty CLUSTER NODES response"), ∅)
  else
    let nodes := lines.foldl parseNodeLine ∅
    if nodes.keys = ∅ then
      (some (ascii "no valid nodes found in CLUSTER NODES response"), nodes)
    else (none, nodes)

section Hash

variable (hash : Bytes → UInt32)

/-- One turn of the loop of `buildHashRing`: only active nodes are added. -/
def ClientView.addActive (view : ClientView) (nodeID : GoString) : ClientView :=
  match view.nodes.lookup nodeID with
  | none => view
  | some nodeInfo =>
    if nodeInfo.status ≠ lit "active" then view
    else { view with
      hashRing := (view.hashRing.addShard hash nodeID).setNodeAddress nodeID nodeInfo.address }

/-- `buildHashRing`, with the order of the loop over `nodes`. -/
def ClientView.buildHashRing (view : ClientView) (order : List GoString) : ClientView :=
  order.foldl (ClientView.addActive hash) view

/-- What `discoverTopology` does with a response. The order of the loop over the map
    is given for every map. -/
def ClientView.observe
    (order : (Finmap fun _ : GoString => ClientNodeInfo) → List GoString) (view : ClientView)
    (response : GoString) : Option Bytes × ClientView :=
  match parseClusterNodes response with
  | (some text, nodes) =>
    (some (ascii "failed to parse CLUSTER NODES response: " ++ text), { view with nodes := nodes })
  | (none, nodes) => (none, { view with nodes := nodes }.buildHashRing hash (order nodes))

/-- The address for a key, as `Get`, `Set` and `Delete` look it up. -/
def ClientView.addressOf (view : ClientView) (key : GoString) : Except Bytes GoString :=
  match view.hashRing.getNode hash key with
  | .error text => .error (ascii "failed to find node for key " ++ key.bytes ++ ascii ": " ++ text)
  | .ok nodeID =>
    let address := view.hashRing.getNodeAddress nodeID
    if address = GoString.empty then .error (ascii "no address found for node " ++ nodeID.bytes)
    else .ok address

end Hash

/-- A `ClusterClient`. -/
structure ClusterClient (ω : Type) extends ClientView where
  seeds : List GoString
  world : ω

/-- `SendCommand`. -/
def Client.sendCommand {ω : Type} (net : Network ω) (c : Client ω) (args : List GoString) :
    Except Panic (Except Bytes GoString × Client ω) :=
  match c.send net (encodeArray (args.map Element.str)) with
  | (some text, c) => .ok (.error text, c)
  | (none, c) => do
    match ← c.readResponse with
    | (.error text, c) => return (.error (ascii "failed to read response: " ++ text), c)
    | (.ok response, c) => return (.ok response, c)

namespace ClusterClient

variable {ω : Type} (net : Network ω) (hash : Bytes → UInt32)
  (order : (Finmap fun _ : GoString => ClientNodeInfo) → List GoString)

/-- The loop of `discoverTopology` over the seeds, with the last error. -/
def discoverLoop : List GoString → Bytes → ClusterClient ω →
    Except Panic (Option Bytes × ClusterClient ω)
  | [], lastErr, c =>
    .ok (some (ascii "failed to discover topology from any seed: " ++ lastErr), c)
  | seedAddr :: seeds, _, c =>
    match Client.newClient net c.world seedAddr with
    | .error text =>
      discoverLoop seeds
        (ascii "failed to connect to seed " ++ seedAddr.bytes ++ ascii ": " ++ text) c
    | .ok seedClient => do
      match ← seedClient.sendCommand net [lit "CLUSTER", lit "NODES"] with
      | (.error text, seedClient) =>
        discoverLoop seeds
          (ascii "CLUSTER NODES command failed on " ++ seedAddr.bytes ++ ascii ": " ++ text)
          { c with world := seedClient.world }
      | (.ok response, seedClient) =>
        match c.toClientView.observe hash order response with
        | (some text, view) => discoverLoop seeds text ⟨view, c.seeds, seedClient.world⟩
        | (none, view) => return (none, ⟨view, c.seeds, seedClient.world⟩)

/-- `discoverTopology`: nil, or the text of the error. -/
def discoverTopology (c : ClusterClient ω) : Except Panic (Option Bytes × ClusterClient ω) :=
  c.discoverLoop net hash order c.seeds (ascii "<nil>")

/-- `NewClusterClient`. -/
def newClusterClient (world : ω) (seeds : List GoString) :
    Except Panic (Except Bytes (ClusterClient ω)) :=
  if seeds = [] then .ok (.error (ascii "at least one seed address is required"))
  else do
    match ← discoverTopology net hash order ⟨⟨HashRing.new 150, ∅⟩, seeds, world⟩ with
    | (some text, _) => return .error (ascii "failed to discover cluster topology: " ++ text)
    | (none, c) => return .ok c

end ClusterClient

end GoCache.Native
