import GoCache.Native.State
import GoCache.Spec.Owners

/-!
# Static routing

All nodes of a cluster build their rings from the same nodes and shards, so they
agree on the shard of every key. The first node of that shard is its leader, on
the ring and in the configuration, and a node that is not concerned redirects to
it. Nothing is assumed of the hash function: virtual nodes may collide.

## Key results

- `clusterRing_getShard`: the ring returns a shard of the configuration
- `clusterRing_getShardLeader`: and the leader of that shard
- `routing_agreement`: who handles a key, and who redirects where
-/

namespace GoCache.Spec

open GoCache.Native

/-! ## The ring of a configuration -/

section Ring

variable {hash : Bytes → UInt32}

theorem addShardInfo_shardToNodes (hr : HashRing) (shard : ShardInfo) :
    (Config.addShardInfo hash hr shard).shardToNodes =
      hr.shardToNodes.insert shard.shardID (shard.leaderID :: shard.followers) := by
  show (hr.addShard hash shard.shardID).shardToNodes.insert _ _ = _
  rw [addShard_shardToNodes]

private theorem foldl_shardToNodes (shards : List ShardInfo) (hr : HashRing)
    (hnodup : (shards.map ShardInfo.shardID).Nodup) :
    (∀ id, id ∉ shards.map ShardInfo.shardID →
      (shards.foldl (Config.addShardInfo hash) hr).shardToNodes.lookup id =
        hr.shardToNodes.lookup id) ∧
    ∀ s ∈ shards, (shards.foldl (Config.addShardInfo hash) hr).shardToNodes.lookup s.shardID =
      some (s.leaderID :: s.followers) := by
  induction shards generalizing hr with
  | nil => exact ⟨fun _ _ => rfl, fun s hs => absurd hs List.not_mem_nil⟩
  | cons shard shards ih =>
    rw [List.map_cons, List.nodup_cons] at hnodup
    obtain ⟨hother, hown⟩ := ih (Config.addShardInfo hash hr shard) hnodup.2
    constructor
    · intro id hid
      rw [List.map_cons, List.mem_cons, not_or] at hid
      rw [List.foldl_cons, hother id hid.2, addShardInfo_shardToNodes,
        Finmap.lookup_insert_of_ne _ hid.1]
    · intro s hs
      rw [List.foldl_cons]
      rcases List.mem_cons.mp hs with rfl | hs
      · -- no later shard has the same ID
        rw [hother s.shardID hnodup.1, addShardInfo_shardToNodes, Finmap.lookup_insert]
      · exact hown s hs

/-- The addresses make no difference to a lookup. -/
private theorem foldl_setNodeAddress (nodes : List NodeInfo) (hr : HashRing) :
    (nodes.foldl (fun hr node => hr.setNodeAddress node.id node.addr) hr).virtualNodes =
      hr.virtualNodes ∧
    (nodes.foldl (fun hr node => hr.setNodeAddress node.id node.addr) hr).hashValues =
      hr.hashValues ∧
    (nodes.foldl (fun hr node => hr.setNodeAddress node.id node.addr) hr).hashToShard =
      hr.hashToShard ∧
    (nodes.foldl (fun hr node => hr.setNodeAddress node.id node.addr) hr).shardToNodes =
      hr.shardToNodes := by
  induction nodes generalizing hr with
  | nil => exact ⟨rfl, rfl, rfl, rfl⟩
  | cons node nodes ih => exact ih (hr.setNodeAddress node.id node.addr)

end Ring

section Config

variable {hash : Bytes → UInt32} {c : Config}

/-- The IDs of the shards, in the order of the configuration. -/
def shardIDs (c : Config) : List GoString := c.shards.map ShardInfo.shardID

/-- The ring of a configuration has its shards. -/
theorem laidOut_clusterRing (hash : Bytes → UInt32) (c : Config) :
    LaidOut hash 150 ∅ (shardIDs c) (c.clusterRing hash) := by
  have hshards : LaidOut hash 150 ∅ (shardIDs c)
      (c.shards.foldl (Config.addShardInfo hash) (HashRing.new 150)) :=
    (laidOut_new hash 150).foldl_add ShardInfo.shardID (Config.addShardInfo hash)
      (fun _ _ => ⟨rfl, rfl, rfl⟩) c.shards
  obtain ⟨hvirtual, hvalues, hmap, _⟩ := foldl_setNodeAddress c.nodes
    (c.shards.foldl (Config.addShardInfo hash) (HashRing.new 150))
  exact hshards.of_eq hvirtual hvalues hmap

theorem clusterRing_getShard (hash : Bytes → UInt32) (key : GoString) (hne : c.shards ≠ []) :
    ∃ shard ∈ c.shards, (c.clusterRing hash).getShard hash key = .ok shard.shardID := by
  obtain ⟨id, hid, hget⟩ := (laidOut_clusterRing hash c).exists_responsible (by decide)
    (mt List.map_eq_nil_iff.mp hne) key
  obtain ⟨shard, hshard, rfl⟩ := List.mem_map.mp hid
  exact ⟨shard, hshard, hget⟩

theorem clusterRing_getShardLeader (hnodup : (c.shards.map ShardInfo.shardID).Nodup)
    {shard : ShardInfo} (hshard : shard ∈ c.shards) :
    (c.clusterRing hash).getShardLeader shard.shardID = .ok shard.leaderID := by
  have hnodes : (c.clusterRing hash).shardToNodes.lookup shard.shardID =
      some (shard.leaderID :: shard.followers) := by
    unfold Config.clusterRing
    rw [(foldl_setNodeAddress c.nodes _).2.2.2]
    exact (foldl_shardToNodes c.shards (HashRing.new 150) hnodup).2 shard hshard
  unfold HashRing.getShardLeader HashRing.getShardNodes
  rw [hnodes]

/-- The ring knows the nodes of the shards of the configuration, and of no others. -/
theorem clusterRing_shardToNodes (hnodup : (c.shards.map ShardInfo.shardID).Nodup) {id : GoString}
    {nodeIDs : List GoString}
    (h : (c.clusterRing hash).shardToNodes.lookup id = some nodeIDs) :
    ∃ shard ∈ c.shards, shard.shardID = id ∧ nodeIDs = shard.leaderID :: shard.followers := by
  unfold Config.clusterRing at h
  rw [(foldl_setNodeAddress c.nodes _).2.2.2] at h
  obtain ⟨hother, hown⟩ := foldl_shardToNodes c.shards (HashRing.new 150) hnodup
  by_cases hid : id ∈ c.shards.map ShardInfo.shardID
  · obtain ⟨shard, hshard, rfl⟩ := List.mem_map.mp hid
    rw [hown shard hshard, Option.some.injEq] at h
    exact ⟨shard, hshard, rfl, h.symm⟩
  · rw [hother id hid] at h
    exact nomatch h

end Config

/-- A request is sent to the leader of the shard of its key, at its address in the
    configuration, and never from a leader to itself. -/
theorem shouldForwardRequest_eq_some {hash : Bytes → UInt32} {ns : NodeState} {key : GoString}
    {isWrite : Bool} {target : GoString × GoString}
    (h : ns.shouldForwardRequest hash key isWrite = some target) :
    ∃ hr config shardID, ns.hashRing = some hr ∧ ns.config = some config ∧
      hr.getShard hash key = .ok shardID ∧ hr.getShardLeader shardID = .ok target.1 ∧
      target.2 = config.addrOf target.1 ∧
      ∀ shard, config.getShardForNode config.nodeID = .ok shard → shardID = shard.shardID →
        target.1 ≠ config.nodeID := by
  unfold NodeState.shouldForwardRequest at h
  split at h
  · next hr config hring hconfig =>
    split at h
    · split at h
      · exact nomatch h
      next shardID hshard =>
      split at h
      · exact nomatch h
      next myShard hmine =>
      split at h
      · split at h
        · exact nomatch h
        split at h
        · exact nomatch h
        next leaderNodeID hleader =>
        split at h
        · exact nomatch h
        · next hother =>
          cases h
          exact ⟨hr, config, shardID, hring, hconfig, hshard, hleader, rfl, fun _ _ _ => hother⟩
      · next hne =>
        split at h
        · exact nomatch h
        next leaderNodeID hleader =>
        cases h
        refine ⟨hr, config, shardID, hring, hconfig, hshard, hleader, rfl, ?_⟩
        intro shard hshard' hsame
        rw [hmine] at hshard'
        cases hshard'
        exact absurd hsame hne
    · exact nomatch h
  · exact nomatch h

/-! ## Who handles a key -/

/-- A shard has a node, as its leader or as a follower. -/
def HasNode (shard : ShardInfo) (nodeID : GoString) : Prop :=
  shard.leaderID = nodeID ∨ nodeID ∈ shard.followers

instance (shard : ShardInfo) (nodeID : GoString) : Decidable (HasNode shard nodeID) := by
  unfold HasNode
  infer_instance

/-- The IDs of shards and nodes are distinct, every node belongs to exactly one
    shard, and every shard leader is listed. -/
structure WellFormed (nodes : List NodeInfo) (shards : List ShardInfo) : Prop where
  shardIDs : (shards.map ShardInfo.shardID).Nodup
  nodeIDs : (nodes.map NodeInfo.id).Nodup
  oneShard : ∀ node ∈ nodes, ∃ shard ∈ shards, HasNode shard node.id ∧
    ∀ shard' ∈ shards, HasNode shard' node.id → shard' = shard
  leaders : ∀ shard ∈ shards, ∃ node ∈ nodes, node.id = shard.leaderID

/-- A search for the one element with a property finds it. -/
private theorem find?_unique {α : Type} {l : List α} {p : α → Bool} {x : α} (hx : x ∈ l)
    (hp : p x = true) (huniq : ∀ y ∈ l, p y = true → y = x) : l.find? p = some x := by
  cases hfind : l.find? p with
  | none => exact absurd hp (List.find?_eq_none.mp hfind x hx)
  | some y => rw [huniq y (List.mem_of_find?_eq_some hfind) (List.find?_some hfind)]

section WellFormed

variable {nodes : List NodeInfo} {shards : List ShardInfo} {node : NodeInfo} {shard : ShardInfo}
  {id : GoString}

theorem WellFormed.id_inj (h : WellFormed nodes shards) {node' : NodeInfo} (hnode : node ∈ nodes)
    (hnode' : node' ∈ nodes) (heq : node.id = node'.id) : node = node' :=
  List.inj_on_of_nodup_map h.nodeIDs hnode hnode' heq

theorem WellFormed.shardID_inj (h : WellFormed nodes shards) {shard' : ShardInfo}
    (hshard : shard ∈ shards) (hshard' : shard' ∈ shards)
    (heq : shard.shardID = shard'.shardID) : shard = shard' :=
  List.inj_on_of_nodup_map h.shardIDs hshard hshard' heq

theorem WellFormed.shard_unique (h : WellFormed nodes shards) {shard' : ShardInfo}
    (hnode : node ∈ nodes) (hshard : shard ∈ shards) (hhas : HasNode shard node.id)
    (hshard' : shard' ∈ shards) (hhas' : HasNode shard' node.id) : shard = shard' := by
  obtain ⟨mine, _, _, huniq⟩ := h.oneShard node hnode
  rw [huniq shard hshard hhas, huniq shard' hshard' hhas']

theorem WellFormed.addrOf (h : WellFormed nodes shards) (hnode : node ∈ nodes) :
    (Config.mk id nodes shards).addrOf node.id = node.addr := by
  have hfind : nodes.find? (fun n => n.id = node.id) = some node := by
    apply find?_unique hnode (by simp)
    intro n hn heq
    exact h.id_inj hn hnode (by simpa using heq)
  unfold Config.addrOf
  rw [hfind]

theorem WellFormed.getShardForNode (h : WellFormed nodes shards) (hnode : node ∈ nodes)
    (hshard : shard ∈ shards) (hhas : HasNode shard node.id) :
    (Config.mk id nodes shards).getShardForNode node.id = .ok shard := by
  have hfind : shards.find? (fun s => s.leaderID = node.id ∨ node.id ∈ s.followers) =
      some shard := by
    apply find?_unique hshard (decide_eq_true hhas)
    intro s hs hhas'
    exact h.shard_unique hnode hs (of_decide_eq_true hhas') hshard hhas
  unfold Config.getShardForNode
  rw [hfind]

end WellFormed

section Routing

variable {hash : Bytes → UInt32} {nodes : List NodeInfo} {shards : List ShardInfo}
  {key : GoString} {shard : ShardInfo} {leader node : NodeInfo}

/-- The decision of one node, from the shard the ring gives. -/
theorem shouldForwardRequest_eq (h : WellFormed nodes shards) (hshard : shard ∈ shards)
    (hleader : leader ∈ nodes) (hid : leader.id = shard.leaderID) (hnode : node ∈ nodes)
    (hmode : node.id ≠ GoString.empty)
    (hget : ((Config.mk node.id nodes shards).clusterRing hash).getShard hash key =
      .ok shard.shardID) (l : Option Leader) (hc : HealthChecker) (isWrite : Bool) :
    (NodeState.clusterState hash ⟨node.id, nodes, shards⟩ l hc).shouldForwardRequest hash key
        isWrite =
      if node = leader ∨ (isWrite = false ∧ HasNode shard node.id) then none
      else some (leader.id, leader.addr) := by
  obtain ⟨mine, hmine, hhas, _⟩ := h.oneShard node hnode
  have hmode' : (Config.mk node.id nodes shards).isClusterMode = true := by
    unfold Config.isClusterMode
    simp only [hmode, ne_eq, not_false_eq_true, decide_true, Bool.and_true, decide_eq_true_eq]
    exact List.ne_nil_of_mem hnode
  have hlead : ((Config.mk node.id nodes shards).clusterRing hash).getShardLeader shard.shardID =
      .ok leader.id := by
    rw [hid]
    exact clusterRing_getShardLeader h.shardIDs hshard
  simp only [NodeState.shouldForwardRequest, NodeState.clusterState, hmode', if_true, hget,
    h.getShardForNode hnode hmine hhas, hlead, h.addrOf hleader]
  by_cases hsame : shard = mine
  · subst hsame
    rw [if_pos rfl]
    by_cases hnl : node = leader
    · subst hnl
      cases isWrite <;> simp
    · have hne : leader.id ≠ node.id := fun heq => hnl (h.id_inj hleader hnode heq).symm
      cases isWrite <;> simp [hnl, hhas, hne]
  · -- the shard of the key is another one, so the node is not in it
    have hne : shard.shardID ≠ mine.shardID := fun heq =>
      hsame (h.shardID_inj hshard hmine heq)
    have hnot : ¬ HasNode shard node.id := fun hhas' =>
      hsame (h.shard_unique hnode hshard hhas' hmine hhas)
    have hnl : node ≠ leader := by
      rintro rfl
      exact hnot (.inl hid.symm)
    rw [if_neg hne, if_neg]
    simp [hnl, hnot]

end Routing

/-- In every well-formed cluster with at least one node and without empty node IDs,
    all nodes agree on the shard of every key. Its leader alone handles a write of
    the key, exactly its members handle a read, and every other node redirects to
    the leader, which handles both. -/
theorem routing_agreement (hash : Bytes → UInt32) (nodes : List NodeInfo)
    (shards : List ShardInfo) (h : WellFormed nodes shards) (hne : nodes ≠ [])
    (hids : ∀ node ∈ nodes, node.id ≠ GoString.empty) (key : GoString) :
    ∃ shard ∈ shards, ∃ leader ∈ nodes, leader.id = shard.leaderID ∧
      (∀ node ∈ nodes, ∀ (l : Option Leader) (hc : HealthChecker),
        ((Config.mk node.id nodes shards).clusterRing hash).getShard hash key =
          .ok shard.shardID ∧
        (NodeState.clusterState hash ⟨node.id, nodes, shards⟩ l hc).shouldForwardRequest hash
            key true =
          (if node = leader then none else some (leader.id, leader.addr)) ∧
        (NodeState.clusterState hash ⟨node.id, nodes, shards⟩ l hc).shouldForwardRequest hash
            key false =
          (if HasNode shard node.id then none else some (leader.id, leader.addr))) ∧
      ∀ (l : Option Leader) (hc : HealthChecker) (isWrite : Bool),
        (NodeState.clusterState hash ⟨leader.id, nodes, shards⟩ l hc).shouldForwardRequest hash
          key isWrite = none := by
  have hshards : shards ≠ [] := by
    obtain ⟨node, hnode⟩ := List.exists_mem_of_ne_nil nodes hne
    obtain ⟨shard, hshard, _⟩ := h.oneShard node hnode
    exact List.ne_nil_of_mem hshard
  obtain ⟨shard, hshard, hget⟩ := clusterRing_getShard (c := ⟨GoString.empty, nodes, shards⟩)
    hash key hshards
  obtain ⟨leader, hleader, hid⟩ := h.leaders shard hshard
  refine ⟨shard, hshard, leader, hleader, hid, fun node hnode l hc => ⟨hget, ?_, ?_⟩,
    fun l hc isWrite => ?_⟩
  · rw [shouldForwardRequest_eq h hshard hleader hid hnode (hids node hnode) hget]
    simp
  · rw [shouldForwardRequest_eq h hshard hleader hid hnode (hids node hnode) hget]
    by_cases hnl : node = leader
    · subst hnl
      have hhas : HasNode shard node.id := .inl hid.symm
      simp [hhas]
    · simp [hnl]
  · rw [shouldForwardRequest_eq h hshard hleader hid hleader (hids leader hleader) hget]
    simp

/-- Three nodes in two shards. -/
theorem routing_agreement_three :
    ∃ leader : NodeInfo, ∀ id ∈ [lit "n1", lit "n2", lit "n3"], ∀ l hc,
      (NodeState.clusterState sha256Hash ⟨id,
        [lit "n1", lit "n2", lit "n3"].map fun id => ⟨id, lit "host", 7000, by decide⟩,
        [⟨lit "s1", lit "n1", [lit "n2"]⟩, ⟨lit "s2", lit "n3", []⟩]⟩ l hc).shouldForwardRequest
          sha256Hash (lit "k") true =
        if id = leader.id then none else some (leader.id, leader.addr) := by
  obtain ⟨_, _, leader, hleader, _, hroute, _⟩ := routing_agreement sha256Hash
    ([lit "n1", lit "n2", lit "n3"].map fun id => ⟨id, lit "host", 7000, by decide⟩)
    [⟨lit "s1", lit "n1", [lit "n2"]⟩, ⟨lit "s2", lit "n3", []⟩]
    ⟨by decide, by decide, by decide, by decide⟩ (by decide) (by decide) (lit "k")
  refine ⟨leader, fun id hid l hc => ?_⟩
  obtain ⟨lid, _, rfl⟩ := List.mem_map.mp hleader
  have hsame : (NodeInfo.mk id (lit "host") 7000 (by decide) =
      NodeInfo.mk lid (lit "host") 7000 (by decide)) = (id = lid) := by simp
  have h := (hroute _ (List.mem_map_of_mem hid) l hc).2.1
  simp only [hsame] at h
  exact h

/-- A node with an empty ID is not in cluster mode, and handles a write of a key that
    belongs to another shard. -/
theorem empty_id_handles_all :
    WellFormed ([GoString.empty, lit "b"].map fun id => ⟨id, lit "host", 7000, by decide⟩)
      [⟨lit "s1", GoString.empty, []⟩, ⟨lit "s2", lit "b", []⟩] ∧
    ((Config.mk GoString.empty
      ([GoString.empty, lit "b"].map fun id => ⟨id, lit "host", 7000, by decide⟩)
      [⟨lit "s1", GoString.empty, []⟩, ⟨lit "s2", lit "b", []⟩]).clusterRing fun _ => 0).getShard
        (fun _ => 0) (lit "k") = .ok (lit "s2") ∧
    (NodeState.clusterState (fun _ => 0) ⟨GoString.empty,
      [GoString.empty, lit "b"].map fun id => ⟨id, lit "host", 7000, by decide⟩,
      [⟨lit "s1", GoString.empty, []⟩, ⟨lit "s2", lit "b", []⟩]⟩ none ⟨∅⟩).shouldForwardRequest
        (fun _ => 0) (lit "k") true = none :=
  ⟨⟨by decide, by decide, by decide, by decide⟩, by decide +kernel, by decide +kernel⟩

end GoCache.Spec
