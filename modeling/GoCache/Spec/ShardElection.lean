import GoCache.Native.Election

/-!
# Whom a follower adopts as its leader

An election that finds a node listening makes it the new leader of the follower. The
nodes are dialled in the order of the configuration, those of other shards too.

## Key results

- `election_in_shard_iff`: when the address adopted is one of the follower's shard
- `election_leaves_shard`: a follower of one shard adopts the leader of the other
-/

namespace GoCache.Spec

open GoCache.Native

/-- What `find?` returns is in `q` if and only if every match outside `q` stands behind a
    match in `q`. -/
private theorem find?_forall_iff {α : Type} {p : α → Bool} {q : α → Prop} (l : List α) :
    (∀ a, l.find? p = some a → q a) ↔
      ∀ pre a post, l = pre ++ a :: post → p a → ¬ q a → ∃ b ∈ pre, p b ∧ q b := by
  induction l with
  | nil => simp
  | cons x l ih =>
    by_cases hx : p x = true
    · -- the first element is the one found
      rw [List.find?_cons_of_pos hx]
      constructor
      · intro h pre a post heq ha hq
        have hqx := h x rfl
        cases pre with
        | nil =>
          cases heq
          exact absurd hqx hq
        | cons y pre =>
          cases heq
          exact ⟨x, List.mem_cons_self, hx, hqx⟩
      · rintro h a ⟨⟩
        by_contra hq
        obtain ⟨b, hb, _⟩ := h [] x l rfl hx hq
        cases hb
    · rw [List.find?_cons_of_neg hx, ih]
      constructor
      · intro h pre a post heq ha hq
        cases pre with
        | nil =>
          cases heq
          exact absurd ha hx
        | cons y pre =>
          cases heq
          obtain ⟨b, hb, hpq⟩ := h pre a post rfl ha hq
          exact ⟨b, List.mem_cons_of_mem _ hb, hpq⟩
      · intro h pre a post heq ha hq
        obtain ⟨b, hb, hpb, hqb⟩ := h (x :: pre) a post (by rw [heq]; rfl) ha hq
        rcases List.mem_cons.mp hb with rfl | hb
        · exact absurd hpb hx
        · exact ⟨b, hb, hpb, hqb⟩

/-! ## The shard of a node -/

/-- The address is the replication address of a node of the shard that `GetShardForNode`
    returns for this node. -/
def InOwnShard (cfg : ReplConfig) (addr : Addr) : Prop :=
  ∃ shard, cfg.toConfig.getShardForNode cfg.nodeID = .ok shard ∧
    ∃ node ∈ cfg.nodes, (node.id = shard.leaderID ∨ node.id ∈ shard.followers) ∧
      node.replAddr = addr

/-- `findNewLeader` dials the node and finds it listening. -/
def answers (cfg : ReplConfig) (accepts : Addr → Bool) (node : ReplNode) : Bool :=
  decide (node.id ≠ cfg.nodeID) && accepts node.replAddr

section Election

variable {cfg : ReplConfig} {myNode : ReplNode} {accepts : Addr → Bool}

private theorem id_of_getMyNode (hme : cfg.getMyNode = some myNode) : myNode.id = cfg.nodeID := by
  have hid := List.find?_some hme
  simpa using hid

/-- The node found is the first of the configuration that answers. -/
private theorem findNewLeader_startAsFollower (hme : cfg.getMyNode = some myNode) :
    (cfg.startAsFollower myNode).findNewLeader accepts =
      (cfg.nodes.find? (answers cfg accepts)).map ReplNode.replAddr := by
  unfold Candidate.findNewLeader
  show (((cfg.nodes.map ReplNode.toClusterNode).filter fun node => node.id ≠ myNode.id).map
    ClusterNode.addr).find? accepts = _
  rw [List.filter_map, List.map_map, List.find?_map, List.find?_filter, id_of_getMyNode hme]
  congr 2
  funext node
  by_cases hid : node.id = cfg.nodeID <;>
    simp [answers, ReplNode.toClusterNode, ReplNode.replAddr, ClusterNode.addr, hid]

private theorem elect_eq_adopted (hpriority : 0 < myNode.priority) {addr : Addr} :
    (cfg.startAsFollower myNode).elect accepts = .adopted addr ↔
      (cfg.startAsFollower myNode).findNewLeader accepts = some addr := by
  unfold Candidate.elect
  have hpos : 0 < (cfg.startAsFollower myNode).myPriority := hpriority
  rw [if_pos hpos]
  cases (cfg.startAsFollower myNode).findNewLeader accepts with
  | some a => simp
  | none => cases (cfg.startAsFollower myNode).findPeerLeader accepts <;> simp

/-- For every configuration, every follower of it with a priority and every set of
    addresses that take a connection: an address that the election adopts from the nodes
    of the cluster is one of the follower's own shard, if and only if each node of
    another shard that answers is listed behind a node of this shard that answers. -/
theorem election_in_shard_iff (hme : cfg.getMyNode = some myNode)
    (hpriority : 0 < myNode.priority) :
    (∀ addr, (cfg.startAsFollower myNode).elect accepts = .adopted addr → InOwnShard cfg addr) ↔
      ∀ pre node post, cfg.nodes = pre ++ node :: post → answers cfg accepts node →
        ¬ InOwnShard cfg node.replAddr →
        ∃ mate ∈ pre, answers cfg accepts mate ∧ InOwnShard cfg mate.replAddr := by
  rw [← find?_forall_iff cfg.nodes]
  simp only [elect_eq_adopted hpriority, findNewLeader_startAsFollower hme, Option.map_eq_some_iff]
  constructor
  · intro h node hnode
    exact h node.replAddr ⟨node, hnode, rfl⟩
  · rintro h addr ⟨node, hnode, rfl⟩
    exact h node hnode

end Election

/-! ## Two shards -/

/-- The configuration `cmd/configs/config-node1.yaml`, at `node2`. -/
private def twoShards : ReplConfig where
  nodeID := lit "node2"
  nodes := [
    ⟨⟨lit "node1", lit "localhost", 8379, by decide +kernel⟩, 9379, 4⟩,
    ⟨⟨lit "node2", lit "localhost", 8380, by decide +kernel⟩, 9380, 3⟩,
    ⟨⟨lit "node3", lit "localhost", 8381, by decide +kernel⟩, 9381, 2⟩,
    ⟨⟨lit "node4", lit "localhost", 8382, by decide +kernel⟩, 9382, 1⟩]
  shards := [
    ⟨lit "shard1", lit "node1", [lit "node2"]⟩,
    ⟨lit "shard2", lit "node3", [lit "node4"]⟩]
  peerReplAddrs := []

private def node2 : ReplNode :=
  ⟨⟨lit "node2", lit "localhost", 8380, by decide +kernel⟩, 9380, 3⟩

private theorem getMyNode_twoShards : twoShards.getMyNode = some node2 := rfl

/-- The shard of `node2` has two addresses. -/
private theorem inOwnShard_twoShards {addr : Addr} : InOwnShard twoShards addr ↔
    addr = ⟨lit "localhost", 9379⟩ ∨ addr = ⟨lit "localhost", 9380⟩ := by
  have hshard : twoShards.toConfig.getShardForNode twoShards.nodeID =
      .ok ⟨lit "shard1", lit "node1", [lit "node2"]⟩ := rfl
  have hmates : twoShards.nodes.filter (fun node =>
      node.id = lit "node1" ∨ node.id ∈ [lit "node2"]) = twoShards.nodes.take 2 := rfl
  constructor
  · rintro ⟨shard, hown, node, hnode, hmate, rfl⟩
    rw [hshard] at hown
    cases hown
    have hmem : node ∈ twoShards.nodes.take 2 := by
      rw [← hmates]
      exact List.mem_filter.mpr ⟨hnode, by simpa using hmate⟩
    rcases List.mem_pair.mp hmem with rfl | rfl
    · exact .inl rfl
    · exact .inr rfl
  · rintro (rfl | rfl)
    · exact ⟨_, hshard, _, List.mem_cons_self, .inl rfl, rfl⟩
    · exact ⟨_, hshard, node2, List.mem_cons_of_mem _ List.mem_cons_self,
        .inr List.mem_cons_self, rfl⟩

/-- While the leader of its shard listens, `node2` adopts it. -/
theorem election_in_shard_iff_up :
    (twoShards.startAsFollower node2).elect (fun _ => true) =
      .adopted ⟨lit "localhost", 9379⟩ ∧ InOwnShard twoShards ⟨lit "localhost", 9379⟩ := by
  have hadopt : (twoShards.startAsFollower node2).elect (fun _ => true) =
      .adopted ⟨lit "localhost", 9379⟩ := by decide +kernel
  have hpriority : 0 < node2.priority := by decide
  refine ⟨hadopt, (election_in_shard_iff getMyNode_twoShards hpriority).mpr ?_ _ hadopt⟩
  intro pre node post heq _ hforeign
  cases pre with
  | nil =>
    cases heq
    exact absurd (inOwnShard_twoShards.mpr (.inl rfl)) hforeign
  | cons mate pre =>
    obtain ⟨rfl, _⟩ := List.cons.inj heq
    exact ⟨_, List.mem_cons_self, rfl, inOwnShard_twoShards.mpr (.inl rfl)⟩

/-- The leader of its shard has failed and that of the other shard is up: `node2` takes
    the latter for its new leader. -/
theorem election_leaves_shard : ∃ addr,
    twoShards.getMyNode = some node2 ∧ 0 < node2.priority ∧
    (twoShards.startAsFollower node2).elect (fun a => a = ⟨lit "localhost", 9381⟩) =
      .adopted addr ∧ ¬ InOwnShard twoShards addr := by
  refine ⟨⟨lit "localhost", 9381⟩, getMyNode_twoShards, by decide, by decide +kernel, ?_⟩
  rw [inOwnShard_twoShards]
  decide

end GoCache.Spec
