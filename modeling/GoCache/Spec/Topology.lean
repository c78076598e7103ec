import GoCache.Native.Topology
import GoCache.Spec.MigrationPlans
import GoCache.Spec.PeerEffects
import GoCache.Spec.Routing
import GoCache.ForStd.Reaches

/-!
# Who knows of whom

A change of the topology is told to the configured nodes and to the node that it is
about. A node that was added earlier is not told, and starts from a ring of node IDs
where the others have a ring of shard IDs.

## Key results

- `coordinate_addNode`, `coordinate_removeNode`: what one command does to all rings
- `Agreement`: the invariant of the cluster
- `members_agree_of_meets`: runs in which the rings stay in agreement
-/

namespace GoCache.Spec

open GoCache.Native Transition

/-! ## Rings that are alike -/

/-- The rings have the same positions, with the same shards at them, as often. -/
structure SameRing (hr hr' : HashRing) : Prop where
  virtualNodes : hr'.virtualNodes = hr.virtualNodes
  hashValues : hr'.hashValues = hr.hashValues
  lookup : ∀ p, hr'.hashToShard.lookup p = hr.hashToShard.lookup p

/-- Apart from hidden positions, the rings have the same positions with the same
    shards at them. -/
structure AgreesOff (hidden : Set UInt32) (hr hr' : HashRing) : Prop where
  virtualNodes : hr'.virtualNodes = hr.virtualNodes
  mem_iff : ∀ p ∉ hidden, p ∈ hr'.hashValues ↔ p ∈ hr.hashValues
  shardAt : ∀ p ∉ hidden, p ∈ hr.hashValues → hr'.shardAt p = hr.shardAt p

section Rings

variable {hash : Bytes → UInt32} {hr hr' hr'' : HashRing} {nodeID addr : GoString}

theorem SameRing.refl (hr : HashRing) : SameRing hr hr := ⟨rfl, rfl, fun _ => rfl⟩

theorem SameRing.symm (h : SameRing hr hr') : SameRing hr' hr :=
  ⟨h.virtualNodes.symm, h.hashValues.symm, fun p => (h.lookup p).symm⟩

theorem SameRing.trans (h : SameRing hr hr') (h' : SameRing hr' hr'') : SameRing hr hr'' :=
  ⟨h'.virtualNodes.trans h.virtualNodes, h'.hashValues.trans h.hashValues,
    fun p => (h'.lookup p).trans (h.lookup p)⟩

theorem SameRing.addShard (h : SameRing hr hr') (m : GoString) :
    SameRing (hr.addShard hash m) (hr'.addShard hash m) := by
  refine ⟨?_, ?_, fun p => ?_⟩
  · rw [addShard_virtualNodes, addShard_virtualNodes, h.virtualNodes]
  · refine List.Perm.eq_of_pairwise (fun _ _ _ _ hle hle' => le_antisymm hle hle')
      (sorted_addShard hash hr' m) (sorted_addShard hash hr m) ?_
    have hperm := perm_addShard hash hr' m
    rw [h.hashValues, h.virtualNodes] at hperm
    exact hperm.trans (perm_addShard hash hr m).symm
  · by_cases hp : p ∈ shardPositions hash hr.virtualNodes m
    · rw [lookup_addShard_of_mem hp, lookup_addShard_of_mem (by rwa [h.virtualNodes])]
    · rw [lookup_addShard_of_notMem hp, lookup_addShard_of_notMem (by rwa [h.virtualNodes]),
        h.lookup]

theorem SameRing.removeShard (h : SameRing hr hr') (m : GoString) :
    SameRing (hr.removeShard hash m) (hr'.removeShard hash m) := by
  refine ⟨?_, ?_, fun p => ?_⟩
  · rw [removeShard_virtualNodes, removeShard_virtualNodes, h.virtualNodes]
  · rw [removeShard_hashValues, removeShard_hashValues, h.hashValues, h.virtualNodes]
  · by_cases hp : p ∈ shardPositions hash hr.virtualNodes m
    · rw [lookup_removeShard_of_mem hp, lookup_removeShard_of_mem (by rwa [h.virtualNodes])]
    · rw [lookup_removeShard_of_notMem hp, lookup_removeShard_of_notMem (by rwa [h.virtualNodes]),
        h.lookup]

theorem SameRing.agreesOff (h : SameRing hr hr') : AgreesOff ∅ hr hr' where
  virtualNodes := h.virtualNodes
  mem_iff p _ := by rw [h.hashValues]
  shardAt p _ _ := by rw [HashRing.shardAt, h.lookup, HashRing.shardAt]

theorem AgreesOff.trans (h : AgreesOff ∅ hr hr') (h' : AgreesOff ∅ hr' hr'') :
    AgreesOff ∅ hr hr'' where
  virtualNodes := h'.virtualNodes.trans h.virtualNodes
  mem_iff p hp := (h'.mem_iff p hp).trans (h.mem_iff p hp)
  shardAt p hp hmem :=
    (h'.shardAt p hp ((h.mem_iff p hp).mpr hmem)).trans (h.shardAt p hp hmem)

/-- When a shard is added, its positions are brought into line. -/
theorem AgreesOff.addShard {m : GoString}
    (h : AgreesOff (shardPositions hash hr.virtualNodes m) hr hr') :
    AgreesOff ∅ (hr.addShard hash m) (hr'.addShard hash m) := by
  refine ⟨?_, fun p _ => ?_, fun p _ hmem => ?_⟩
  · rw [addShard_virtualNodes, addShard_virtualNodes, h.virtualNodes]
  · rw [mem_addShard, mem_addShard, h.virtualNodes]
    by_cases hp : p ∈ shardPositions hash hr.virtualNodes m
    · simp only [hp, or_true]
    · rw [h.mem_iff p hp]
  · unfold HashRing.shardAt
    by_cases hp : p ∈ shardPositions hash hr.virtualNodes m
    · rw [lookup_addShard_of_mem hp, lookup_addShard_of_mem (by rwa [h.virtualNodes])]
    · rw [lookup_addShard_of_notMem hp, lookup_addShard_of_notMem (by rwa [h.virtualNodes])]
      rw [mem_addShard, or_iff_left hp] at hmem
      exact h.shardAt p hp hmem

theorem AgreesOff.getShard (h : AgreesOff ∅ hr hr') (hsorted : hr.hashValues.Pairwise (· ≤ ·))
    (hsorted' : hr'.hashValues.Pairwise (· ≤ ·)) (key : GoString) :
    hr'.getShard hash key = hr.getShard hash key :=
  responsible_congr hsorted hsorted' (fun p => h.mem_iff p (Set.notMem_empty p))
    (fun p hp => h.shardAt p (Set.notMem_empty p) hp) key

end Rings

/-! ## The addresses on a ring -/

theorem addr_ne_empty (node : NodeInfo) : node.addr ≠ GoString.empty := by
  intro hempty
  have hbytes := congrArg GoString.bytes hempty
  exact List.append_ne_nil_of_right_ne_nil _ (List.cons_ne_nil _ _) hbytes

/-- A configured address is only under the ID it is configured for. -/
def OwnAddresses (nodes : List NodeInfo) (hr : HashRing) : Prop :=
  ∀ node ∈ nodes, ∀ m, hr.getNodeAddress m = node.addr → m = node.id

section Addresses

variable {hash : Bytes → UInt32} {nodes : List NodeInfo} {hr hr' : HashRing}

theorem OwnAddresses.of_eq (h : OwnAddresses nodes hr)
    (heq : hr'.nodeAddresses = hr.nodeAddresses) : OwnAddresses nodes hr' := by
  intro node hnode m haddr
  unfold HashRing.getNodeAddress at haddr
  rw [heq] at haddr
  exact h node hnode m haddr

theorem OwnAddresses.setNodeAddress (h : OwnAddresses nodes hr) {m addr : GoString}
    (haddr : ∀ node ∈ nodes, addr = node.addr → m = node.id) :
    OwnAddresses nodes (hr.setNodeAddress m addr) := by
  intro node hnode m' hm'
  unfold HashRing.getNodeAddress HashRing.setNodeAddress at hm'
  dsimp only at hm'
  by_cases heq : m' = m
  · subst heq
    rw [Finmap.lookup_insert] at hm'
    exact haddr node hnode hm'
  · rw [Finmap.lookup_insert_of_ne _ heq] at hm'
    exact h node hnode m' hm'

theorem OwnAddresses.setNodeAddress_empty (h : OwnAddresses nodes hr) (m : GoString) :
    OwnAddresses nodes (hr.setNodeAddress m GoString.empty) :=
  h.setNodeAddress fun node _ haddr => absurd haddr.symm (addr_ne_empty node)

private theorem foldl_addShardInfo_nodeAddresses (shards : List ShardInfo) (hr : HashRing) :
    (shards.foldl (Config.addShardInfo hash) hr).nodeAddresses = hr.nodeAddresses := by
  induction shards generalizing hr with
  | nil => rfl
  | cons shard shards ih =>
    rw [List.foldl_cons, ih]
    exact addShard_nodeAddresses hash hr shard.shardID

theorem ownAddresses_clusterRing (hash : Bytes → UInt32) (config : Config)
    (haddrs : (config.nodes.map NodeInfo.addr).Nodup) :
    OwnAddresses config.nodes (config.clusterRing hash) := by
  have hfold : ∀ (l : List NodeInfo) (hr : HashRing), (∀ node ∈ l, node ∈ config.nodes) →
      OwnAddresses config.nodes hr → OwnAddresses config.nodes
        (l.foldl (fun hr node => hr.setNodeAddress node.id node.addr) hr) := by
    intro l
    induction l with
    | nil => exact fun hr _ h => h
    | cons node l ih =>
      intro hr hl h
      refine ih _ (fun x hx => hl x (List.mem_cons_of_mem _ hx)) (h.setNodeAddress ?_)
      intro x hx haddr
      rw [List.inj_on_of_nodup_map haddrs (hl node List.mem_cons_self) hx haddr]
  refine hfold config.nodes _ (fun _ h => h) ?_
  intro node _ m haddr
  unfold HashRing.getNodeAddress at haddr
  rw [foldl_addShardInfo_nodeAddresses] at haddr
  exact absurd haddr.symm (addr_ne_empty node)

end Addresses

/-! ## One command -/

/-- The ring of the node at an address. -/
def ringAt (w : Peers) (addr : GoString) : Option HashRing :=
  (w.hosts addr).bind fun host => host.node.state.hashRing

/-- The configuration of the node at an address. -/
def configAt (w : Peers) (addr : GoString) : Option Config :=
  (w.hosts addr).bind fun host => host.node.state.config

section At

variable {w : Peers} {addr b : GoString} {host : Option Host}

theorem hosts_put_self : (w.put addr host).hosts addr = host := Function.update_self ..

theorem hosts_put_of_ne (h : b ≠ addr) : (w.put addr host).hosts b = w.hosts b :=
  Function.update_of_ne h ..

theorem ringAt_put_self :
    ringAt (w.put addr host) addr = host.bind fun host => host.node.state.hashRing := by
  rw [ringAt, hosts_put_self]

theorem ringAt_put_of_ne (h : b ≠ addr) : ringAt (w.put addr host) b = ringAt w b := by
  rw [ringAt, hosts_put_of_ne h, ringAt]

theorem configAt_put_of_ne (h : b ≠ addr) : configAt (w.put addr host) b = configAt w b := by
  rw [configAt, hosts_put_of_ne h, configAt]

/-- What changes nothing in the node's configuration changes no configuration. -/
theorem configAt_put_map {f : Host → Host}
    (hf : ∀ host, (f host).node.state.config = host.node.state.config) :
    configAt (w.put addr ((w.hosts addr).map f)) b = configAt w b := by
  by_cases hb : b = addr
  · subst hb
    rw [configAt, hosts_put_self, Option.bind_map, configAt]
    exact congrArg _ (funext hf)
  · exact configAt_put_of_ne hb

theorem ringAt_put_map {f : Host → Host} {g : HashRing → HashRing}
    (hf : ∀ host, (f host).node.state.hashRing = host.node.state.hashRing.map g) :
    ringAt (w.put addr ((w.hosts addr).map f)) addr = (ringAt w addr).map g := by
  rw [ringAt_put_self, Option.bind_map, ringAt, Option.map_bind]
  exact congrArg _ (funext hf)

end At

section Evolves

variable {f : GoString → HashRing → HashRing} {w w' : Peers} {addr : GoString}

theorem Evolves.exists_ringAt (h : Evolves f w w') {hr' : HashRing}
    (hring : ringAt w' addr = some hr') :
    ∃ hr, ringAt w addr = some hr ∧ hr' = f addr hr := by
  obtain ⟨host', hhost', hring'⟩ := Option.bind_eq_some_iff.mp hring
  obtain ⟨host, hhost, -, hmap⟩ := h addr host' hhost'
  rw [hring', eq_comm, Option.map_eq_some_iff] at hmap
  obtain ⟨hr, hr₁, rfl⟩ := hmap
  exact ⟨hr, Option.bind_eq_some_iff.mpr ⟨host, hhost, hr₁⟩, rfl⟩

theorem Evolves.configAt_eq (h : Evolves f w w') {config : Config}
    (hconfig : configAt w' addr = some config) : configAt w addr = some config := by
  obtain ⟨host', hhost', hconfig'⟩ := Option.bind_eq_some_iff.mp hconfig
  obtain ⟨host, hhost, heq, -⟩ := h addr host' hhost'
  exact Option.bind_eq_some_iff.mpr ⟨host, hhost, heq ▸ hconfig'⟩

end Evolves

section Coordinate

variable {exec : ExecHandler} {hash : Bytes → UInt32} {conn : ConnID} {peerChoices : Nat → Choices}
  {choices : Choices}
  {w w' : Peers} {config : Config} {self nodeID addr : GoString}

theorem coordinate_eq_some {command : List Value}
    (h : w.coordinate exec hash conn peerChoices choices self command = some w') :
    ∃ host n, w.hosts self = some host ∧
      handleClusterCommand (peers exec hash conn peerChoices) hash (host.node.withWorld w) choices
        command = .ok (replyOK, n) ∧
      w' = n.world.put self (some ⟨n.withWorld (), none⟩) := by
  unfold Peers.coordinate at h
  split at h
  · exact nomatch h
  next host hhost =>
  split at h
  · exact nomatch h
  next reply n hhandle =>
  split at h
  · next hok =>
    subst hok
    exact ⟨host, n, hhost, hhandle, (Option.some.inj h).symm⟩
  · exact nomatch h

/-- The coordinator takes its place among the nodes that it has changed. -/
private theorem Evolves.coordinator {f : GoString → HashRing → HashRing} {g : HashRing → HashRing}
    {host : Host} {n : ServerNode Peers} (h : Evolves f w n.world)
    (hhost : w.hosts self = some host) (hconfig : n.state.config = host.node.state.config)
    (hring : n.state.hashRing = host.node.state.hashRing.map g) :
    Evolves (Function.update f self g) w
      (n.world.put self (some ⟨n.withWorld (), none⟩)) := by
  intro b host' hhost'
  dsimp only [Peers.put] at hhost'
  by_cases hb : b = self
  · subst hb
    rw [Function.update_self] at hhost' ⊢
    cases hhost'
    exact ⟨host, hhost, hconfig, hring⟩
  · rw [Function.update_of_ne hb] at hhost' ⊢
    exact h b host' hhost'

/-- A broadcast leaves out the node that sends it, and no other configured node. -/
private theorem broadcastChange_of_ne {node : NodeInfo} (hnode : node ∈ config.nodes)
    (hids : (config.nodes.map NodeInfo.id).Nodup) {f : HashRing → HashRing} {b : GoString}
    (hb : b ≠ node.addr) :
    broadcastChange { config with nodeID := node.id } config.nodes f b =
      if ∃ x ∈ config.nodes, x.addr = b then f else id := by
  have hiff : (∃ x ∈ config.nodes, x.id ≠ node.id ∧ x.addr = b) ↔
      ∃ x ∈ config.nodes, x.addr = b := by
    constructor
    · rintro ⟨x, hx, -, haddr⟩
      exact ⟨x, hx, haddr⟩
    · rintro ⟨x, hx, rfl⟩
      refine ⟨x, hx, fun hid => hb ?_, rfl⟩
      rw [List.inj_on_of_nodup_map hids hx hnode hid]
  unfold broadcastChange
  simp only [hiff]

/-- An `ADDNODE` changes the rings of the configured nodes and of the new node. -/
theorem coordinate_addNode {node : NodeInfo} (hnode : node ∈ config.nodes)
    (hids : (config.nodes.map NodeInfo.id).Nodup)
    (haddrs : (config.nodes.map NodeInfo.addr).Nodup)
    (hnew : ∀ node ∈ config.nodes, node.addr ≠ addr)
    (hconfig : ∀ c, configAt w node.addr = some c → c = { config with nodeID := node.id })
    (h : w.coordinate exec hash conn peerChoices choices node.addr [.str (lit "CLUSTER"),
      .str (lit "ADDNODE"), .str nodeID, .str addr] = some w') :
    Evolves (fun b => if b = addr ∨ ∃ x ∈ config.nodes, x.addr = b then
      ringChange hash (lit "ADD") nodeID addr else id) w w' := by
  obtain ⟨host, n, hhost, hhandle, rfl⟩ := coordinate_eq_some h
  obtain ⟨hr, c, w₀, cache', hr', w₁, w₂, w₃, hring, hc, -, hdial, hmigrate, hbroadcast, hnotify,
    rfl⟩ := clusterAddNode_ok hhandle
  obtain rfl := hconfig c (Option.bind_eq_some_iff.mpr ⟨host, hhost, hc⟩)
  obtain ⟨hkept, rfl⟩ := migrateToNewNode_keeps (keeps_rings _) hmigrate
  have hworld : Evolves _ w w₃ := (((evolves_dial hdial).1.trans hkept).trans
    (evolves_broadcast (.inl rfl) haddrs hbroadcast)).trans (evolves_notify (.inl rfl) hnotify)
  refine (Evolves.coordinator (n := migrated _ cache' _ w₃) hworld hhost rfl (g := ringChange hash
    (lit "ADD") nodeID addr) ?_).congr fun b => ?_
  · have hring' : host.node.state.hashRing = some hr := hring
    rw [hring']
    rfl
  · show Function.update (fun b => Function.update (fun _ => id) addr _ b ∘ broadcastChange _ _ _ b)
      node.addr _ b = _
    by_cases hb : b = node.addr
    · rw [hb, Function.update_self, if_pos (.inr ⟨node, hnode, rfl⟩)]
    rw [Function.update_of_ne hb, broadcastChange_of_ne hnode hids hb]
    by_cases hself : b = addr
    · have hnone : ¬ ∃ x ∈ config.nodes, x.addr = b := by
        rintro ⟨x, hx, rfl⟩
        exact hnew x hx hself
      rw [if_neg hnone, hself, Function.update_self, if_pos (.inl rfl), Function.comp_id]
    · rw [Function.update_of_ne hself, Function.id_comp]
      simp only [hself, false_or]

/-- What `REMOVENODE` makes of the coordinator's ring. -/
def LeavingRing (hash : Bytes → UInt32) (nodeID : GoString) (f : HashRing → HashRing) : Prop :=
  f = (HashRing.removeShard hash · nodeID) ∨
    f = ringChange hash (lit "REMOVE") nodeID GoString.empty

/-- A `REMOVENODE` changes the rings of the configured nodes, and once more of the node
    that has the address of the one removed. -/
theorem coordinate_removeNode {node : NodeInfo} (hnode : node ∈ config.nodes)
    (hids : (config.nodes.map NodeInfo.id).Nodup)
    (haddrs : (config.nodes.map NodeInfo.addr).Nodup)
    (hconfig : ∀ c, configAt w node.addr = some c → c = { config with nodeID := node.id })
    (h : w.coordinate exec hash conn peerChoices choices node.addr [.str (lit "CLUSTER"),
      .str (lit "REMOVENODE"), .str nodeID] = some w') :
    ∃ hr f, ringAt w node.addr = some hr ∧ LeavingRing hash nodeID f ∧
      Evolves (Function.update (fun b =>
        (if (f hr).getNodeAddress nodeID = b ∧ b ≠ GoString.empty then
          ringChange hash (lit "REMOVE") nodeID GoString.empty else id) ∘
        if ∃ x ∈ config.nodes, x.addr = b then
          ringChange hash (lit "REMOVE") nodeID GoString.empty else id) node.addr f) w w' := by
  obtain ⟨host, n, hhost, hhandle, rfl⟩ := coordinate_eq_some h
  obtain ⟨hr, c, cache', hr', w₁, w₂, w₃, hring, hc, -, hmigrate, hbroadcast, hnotify, rfl⟩ :=
    clusterRemoveNode_ok hhandle
  obtain rfl := hconfig c (Option.bind_eq_some_iff.mpr ⟨host, hhost, hc⟩)
  obtain ⟨hkept, hleaving⟩ := migrateFromLeavingNode_keeps keeps_rings hmigrate
  obtain ⟨f, hf, rfl⟩ : ∃ f, LeavingRing hash nodeID f ∧ hr' = f hr := by
    rcases hleaving with rfl | rfl
    · exact ⟨_, .inl rfl, rfl⟩
    · exact ⟨_, .inr rfl, rfl⟩
  have hold : Evolves _ w w₂ := hkept.trans (evolves_broadcast (.inr rfl) haddrs hbroadcast)
  have hworld : Evolves (fun b =>
      (if (f hr).getNodeAddress nodeID = b ∧ b ≠ GoString.empty then
        ringChange hash (lit "REMOVE") nodeID GoString.empty else id) ∘
      broadcastChange { config with nodeID := node.id } config.nodes
        (ringChange hash (lit "REMOVE") nodeID GoString.empty) b) w w₃ := by
    split at hnotify
    · next haddr =>
      refine (hold.trans (evolves_notify (.inr rfl) hnotify)).congr fun b => ?_
      by_cases hb : b = (f hr).getNodeAddress nodeID
      · rw [hb, Function.update_self, if_pos ⟨rfl, haddr⟩]
        rfl
      · rw [Function.update_of_ne hb, if_neg fun hand => hb hand.1.symm]
        rfl
    · next haddr =>
      cases hnotify
      refine hold.congr fun b => ?_
      rw [not_not] at haddr
      rw [if_neg fun hand => hand.2 (hand.1.symm.trans haddr)]
      rfl
  have hring' : host.node.state.hashRing = some hr := hring
  refine ⟨hr, f, Option.bind_eq_some_iff.mpr ⟨host, hhost, hring'⟩, hf, ?_⟩
  refine (Evolves.coordinator (n := migrated _ cache' _ w₃) hworld hhost rfl (g := f) ?_).congr
    fun b => ?_
  · rw [hring']
    rfl
  · by_cases hb : b = node.addr
    · rw [hb, Function.update_self, Function.update_self]
    · rw [Function.update_of_ne hb, Function.update_of_ne hb,
        broadcastChange_of_ne hnode hids hb]

end Coordinate

/-! ## The invariant -/

/-- A ring in order, with configured addresses only where they belong. -/
structure Maintained (nodes : List NodeInfo) (hr : HashRing) : Prop where
  sorted : hr.hashValues.Pairwise (· ≤ ·)
  addresses : OwnAddresses nodes hr

/-- The configured nodes know their configuration, and those that have not left have
    the same ring. -/
structure InitialNodes (config : Config) (w : Peers) (left : List GoString) : Prop where
  known : ∀ node ∈ config.nodes, ∀ c, configAt w node.addr = some c →
    c = { config with nodeID := node.id }
  ring : ∀ node ∈ config.nodes, ∀ hr, ringAt w node.addr = some hr → Maintained config.nodes hr
  same : ∀ node ∈ config.nodes, ∀ node' ∈ config.nodes, node.id ∉ left → node'.id ∉ left →
    ∀ hr hr', ringAt w node.addr = some hr → ringAt w node'.addr = some hr' → SameRing hr hr'

/-- One more node may have joined, and it agrees with the configured nodes that have not
    left. -/
structure Agreement (config : Config) (s : Cluster) : Prop where
  configured : InitialNodes config s.world s.left
  joined : ∀ m ∈ s.joined, s.joined = [m] ∧ (∀ node ∈ config.nodes, node.addr ≠ m.2) ∧
    ∀ hr', ringAt s.world m.2 = some hr' → hr'.hashValues.Pairwise (· ≤ ·) ∧
      ∀ node ∈ config.nodes, node.id ∉ s.left → ∀ hr, ringAt s.world node.addr = some hr →
        AgreesOff ∅ hr hr'

/-- The address of a member: of a configured node that has not left, or of a node that
    has joined. -/
def Member (config : Config) (s : Cluster) (addr : GoString) : Prop :=
  (∃ node ∈ config.nodes, node.id ∉ s.left ∧ node.addr = addr) ∨ ∃ m ∈ s.joined, m.2 = addr

section Invariant

variable {hash : Bytes → UInt32} {config : Config} {s s' : Cluster} {w w' : Peers}
  {left left' : List GoString} {nodes : List NodeInfo} {hr hr' : HashRing} {nodeID : GoString}

theorem Agreement.getShard (h : Agreement config s) {a b : GoString} (ha : Member config s a)
    (hb : Member config s b) (hring : ringAt s.world a = some hr)
    (hring' : ringAt s.world b = some hr') (key : GoString) :
    hr'.getShard hash key = hr.getShard hash key := by
  rcases ha with ⟨node, hnode, hstay, rfl⟩ | ⟨m, hm, rfl⟩
  · have hsorted := (h.configured.ring node hnode hr hring).sorted
    rcases hb with ⟨node', hnode', hstay', rfl⟩ | ⟨m', hm', rfl⟩
    · exact (h.configured.same node hnode node' hnode' hstay hstay' hr hr' hring hring').agreesOff
        |>.getShard hsorted (h.configured.ring node' hnode' hr' hring').sorted key
    · obtain ⟨-, -, hjoined⟩ := h.joined m' hm'
      obtain ⟨hsorted', hagrees⟩ := hjoined hr' hring'
      exact (hagrees node hnode hstay hr hring).getShard hsorted hsorted' key
  · obtain ⟨honly, -, hjoined⟩ := h.joined m hm
    obtain ⟨hsorted, hagrees⟩ := hjoined hr hring
    rcases hb with ⟨node', hnode', hstay', rfl⟩ | ⟨m', hm', rfl⟩
    · exact ((hagrees node' hnode' hstay' hr' hring').getShard
        (h.configured.ring node' hnode' hr' hring').sorted hsorted key).symm
    · -- there is only one
      rw [honly, List.mem_singleton] at hm'
      subst hm'
      rw [Option.some.inj (hring.symm.trans hring')]

theorem Maintained.addNode (h : Maintained nodes hr) {addr : GoString}
    (haddr : ∀ node ∈ nodes, node.addr ≠ addr) :
    Maintained nodes (ringChange hash (lit "ADD") nodeID addr hr) where
  sorted := sorted_addShard hash hr nodeID
  addresses := (h.addresses.of_eq (addShard_nodeAddresses hash hr nodeID)).setNodeAddress
    fun node hnode heq => absurd heq.symm (haddr node hnode)

theorem Maintained.removeShard (h : Maintained nodes hr) :
    Maintained nodes (hr.removeShard hash nodeID) where
  sorted := h.sorted.sublist (removeShard_sublist hash hr nodeID)
  addresses := h.addresses.of_eq (removeShard_nodeAddresses hash hr nodeID)

theorem Maintained.removeNode (h : Maintained nodes hr) :
    Maintained nodes (ringChange hash (lit "REMOVE") nodeID GoString.empty hr) where
  sorted := h.removeShard.sorted
  addresses := h.removeShard.addresses.setNodeAddress_empty nodeID

theorem Maintained.leavingRing (h : Maintained nodes hr) {f : HashRing → HashRing}
    (hf : LeavingRing hash nodeID f) :
    Maintained nodes (f hr) ∧ SameRing (hr.removeShard hash nodeID) (f hr) := by
  rcases hf with rfl | rfl
  · exact ⟨h.removeShard, SameRing.refl _⟩
  · exact ⟨h.removeNode, rfl, rfl, fun _ => rfl⟩

theorem Maintained.notifiesSelf (h : Maintained nodes hr) (self : GoString) :
    Maintained nodes (notifySelf hash self nodeID hr) := by
  unfold notifySelf
  split
  · exact h.removeNode
  · exact h

/-- A change that is the same on all rings keeps the configured nodes together. -/
theorem InitialNodes.change (h : InitialNodes config w left) {f : HashRing → HashRing}
    (hf : ∀ {hr hr'}, SameRing hr hr' → SameRing (f hr) (f hr'))
    (hleft : ∀ m ∈ left, m ∈ left')
    (hconfig : ∀ node ∈ config.nodes, ∀ c, configAt w' node.addr = some c →
      configAt w node.addr = some c)
    (hring : ∀ node ∈ config.nodes, ∀ hr', ringAt w' node.addr = some hr' →
      ∃ hr, ringAt w node.addr = some hr ∧ Maintained config.nodes hr' ∧
        (node.id ∉ left' → SameRing (f hr) hr')) : InitialNodes config w' left' where
  known node hnode c hc := h.known node hnode c (hconfig node hnode c hc)
  ring node hnode hr' hr₁ := by
    obtain ⟨hr, -, hmaintained, -⟩ := hring node hnode hr' hr₁
    exact hmaintained
  same node hnode node' hnode' hstay hstay' hr₁ hr₁' hring₁ hring₁' := by
    obtain ⟨hr, hring₀, -, hsame⟩ := hring node hnode hr₁ hring₁
    obtain ⟨hr', hring₀', -, hsame'⟩ := hring node' hnode' hr₁' hring₁'
    have hbefore := h.same node hnode node' hnode' (mt (hleft _) hstay) (mt (hleft _) hstay') hr hr'
      hring₀ hring₀'
    exact (hsame hstay).symm.trans ((hf hbefore).trans (hsame' hstay'))

end Invariant

/-! ## Runs -/

/-- A node is added only while no other added node is a member, and its own ring agrees
    with those of the members, apart from its own positions; while an added node is a
    member, no other node is removed. -/
def Meets (hash : Bytes → UInt32) (config : Config) (s : Cluster) : TopologyChange → Prop
  | .addNode _ nodeID .. => s.joined = [] ∧
    ∀ node ∈ config.nodes, node.id ∉ s.left → ∀ hr, ringAt s.world node.addr = some hr →
      AgreesOff (shardPositions hash hr.virtualNodes nodeID) hr (config.pendingRing hash)
  | .removeNode _ nodeID _ _ => ∀ m ∈ s.joined, m.1 = nodeID
  | .serve .. => True

/-- `StartClusterMode` has started every node of the configuration. -/
def ClusterStarted (hash : Bytes → UInt32) (config : Config) (w : Peers) : Prop :=
  ∀ node ∈ config.nodes, ∃ host leader healthChecker, w.hosts node.addr = some host ∧
    host.node.state =
      NodeState.clusterState hash { config with nodeID := node.id } leader healthChecker

section Steps

variable {exec : ExecHandler} {hash : Bytes → UInt32} {conn : ConnID} {config : Config}
  {s s' : Cluster} {w : Peers}
  {node : NodeInfo} {nodeID addr : GoString} {cache : Cache} {aof : Bytes} {choices : Choices}
  {peerChoices : Nat → Choices}

theorem agreement_start (haddrs : (config.nodes.map NodeInfo.addr).Nodup)
    (h : ClusterStarted hash config w) : Agreement config ⟨w, [], []⟩ := by
  have hring : ∀ node ∈ config.nodes, ∀ hr, ringAt w node.addr = some hr →
      hr = config.clusterRing hash := by
    intro node hnode hr hr₁
    obtain ⟨host, leader, hc, hhost, hstate⟩ := h node hnode
    rw [ringAt, hhost, Option.bind_some, hstate] at hr₁
    exact (Option.some.inj hr₁).symm
  refine ⟨⟨fun node hnode c hc => ?_, fun node hnode hr hr₁ => ?_, ?_⟩, fun m hm => nomatch hm⟩
  · obtain ⟨host, leader, _, hhost, hstate⟩ := h node hnode
    rw [configAt, hhost, Option.bind_some, hstate] at hc
    exact (Option.some.inj hc).symm
  · rw [hring node hnode hr hr₁]
    exact ⟨(laidOut_clusterRing hash config).sorted, ownAddresses_clusterRing hash config haddrs⟩
  · intro node hnode node' hnode' _ _ hr hr' hr₁ hr₁'
    rw [hring node hnode hr hr₁, hring node' hnode' hr' hr₁']
    exact SameRing.refl _

/-- What an addition has done. -/
theorem step_addNode (h : s.step exec hash conn config (.addNode node nodeID addr cache aof
      trigger choices peerChoices) = some s') :
    node ∈ config.nodes ∧ (∀ x ∈ config.nodes, x.id ≠ nodeID ∧ x.addr ≠ addr) ∧
      ∃ w', (s.world.put addr (some (pendingHost hash config nodeID cache aof trigger))).coordinate
        exec hash conn peerChoices choices node.addr [.str (lit "CLUSTER"), .str (lit "ADDNODE"),
          .str nodeID, .str addr] = some w' ∧
      s' = { s with world := w', joined := s.joined ++ [(nodeID, addr)] } := by
  simp only [Cluster.step] at h
  split at h
  · next hguard =>
    split at h
    · exact nomatch h
    next w' hcoordinate =>
    exact ⟨hguard.1, hguard.2.1, w', hcoordinate, (Option.some.inj h).symm⟩
  · exact nomatch h

/-- What a removal has done. -/
theorem step_removeNode (h : s.step exec hash conn config (.removeNode node nodeID choices
      peerChoices) = some s') :
    node ∈ config.nodes ∧ ∃ w', s.world.coordinate exec hash conn peerChoices choices node.addr
        [.str (lit "CLUSTER"), .str (lit "REMOVENODE"), .str nodeID] = some w' ∧
      s' = {
        world := w'.put node.addr ((w'.hosts node.addr).map (Host.removed hash node.addr nodeID))
        joined := s.joined.filter fun m => m.1 ≠ nodeID
        left := nodeID :: s.left } := by
  simp only [Cluster.step] at h
  split at h
  · next hnode =>
    split at h
    · exact nomatch h
    next w' hcoordinate =>
    exact ⟨hnode, w', hcoordinate, (Option.some.inj h).symm⟩
  · exact nomatch h

theorem Agreement.addNode (h : Agreement config s)
    (hids : (config.nodes.map NodeInfo.id).Nodup)
    (haddrs : (config.nodes.map NodeInfo.addr).Nodup)
    (hok : Meets hash config s (.addNode node nodeID addr cache aof trigger choices peerChoices))
    (hstep : s.step exec hash conn config (.addNode node nodeID addr cache aof trigger choices
      peerChoices) = some s') : Agreement config s' := by
  obtain ⟨hnone, hpending⟩ := hok
  obtain ⟨hnode, hnew, w', hcoordinate, rfl⟩ := step_addNode hstep
  have hother : ∀ x ∈ config.nodes, x.addr ≠ addr := fun x hx => (hnew x hx).2
  have hevolves := coordinate_addNode hnode hids haddrs hother (fun c hc =>
    h.configured.known node hnode c ((configAt_put_of_ne (hother node hnode)).symm.trans hc))
    hcoordinate
  have htold : ∀ x ∈ config.nodes, ∀ hr', ringAt w' x.addr = some hr' →
      ∃ hr, ringAt s.world x.addr = some hr ∧ hr' = ringChange hash (lit "ADD") nodeID addr hr := by
    intro x hx hr' hring'
    obtain ⟨hr, hring, heq⟩ := hevolves.exists_ringAt hring'
    rw [if_pos (.inr ⟨x, hx, rfl⟩)] at heq
    exact ⟨hr, (ringAt_put_of_ne (hother x hx)).symm.trans hring, heq⟩
  constructor
  · refine h.configured.change (f := (HashRing.addShard hash · nodeID))
      (fun hsame => hsame.addShard nodeID) (fun _ hm => hm) (fun x hx c hc =>
      (configAt_put_of_ne (hother x hx)).symm.trans (hevolves.configAt_eq hc)) ?_
    intro x hx hr' hring'
    obtain ⟨hr, hring, rfl⟩ := htold x hx hr' hring'
    exact ⟨hr, hring, (h.configured.ring x hx hr hring).addNode hother, fun _ =>
      ⟨rfl, rfl, fun _ => rfl⟩⟩
  · intro m hm
    rw [hnone, List.nil_append, List.mem_singleton] at hm
    subst hm
    refine ⟨by rw [hnone]; rfl, hother, fun hr' hring' => ?_⟩
    -- the new node has added itself to the ring it started with
    obtain ⟨hr₀, hring₀, heq⟩ := hevolves.exists_ringAt hring'
    rw [if_pos (.inl rfl)] at heq
    rw [ringAt_put_self] at hring₀
    cases hring₀
    subst heq
    refine ⟨sorted_addShard hash _ nodeID, fun x hx hstay hr₁ hring₁ => ?_⟩
    obtain ⟨hr, hring, rfl⟩ := htold x hx hr₁ hring₁
    have hagrees := (hpending x hx hstay hr hring).addShard
    exact ⟨hagrees.virtualNodes, hagrees.mem_iff, hagrees.shardAt⟩

theorem Agreement.removeNode (h : Agreement config s)
    (hids : (config.nodes.map NodeInfo.id).Nodup)
    (haddrs : (config.nodes.map NodeInfo.addr).Nodup)
    (hok : Meets hash config s (.removeNode node nodeID choices peerChoices))
    (hstep : s.step exec hash conn config (.removeNode node nodeID choices peerChoices) =
      some s') : Agreement config s' := by
  obtain ⟨hnode, w', hcoordinate, rfl⟩ := step_removeNode hstep
  obtain ⟨hr₀, f, hring₀, hf, hevolves⟩ := coordinate_removeNode hnode hids haddrs
    (h.configured.known node hnode) hcoordinate
  obtain ⟨hkept₀, hsame₀⟩ := (h.configured.ring node hnode hr₀ hring₀).leavingRing hf
  constructor
  · refine h.configured.change (f := (HashRing.removeShard hash · nodeID))
      (fun hsame => hsame.removeShard nodeID) (fun _ hm => List.mem_cons_of_mem _ hm)
      (fun x _ c hc => ?_) ?_
    · dsimp only at hc
      rw [configAt_put_map (f := Host.removed hash node.addr nodeID) fun _ => rfl] at hc
      exact hevolves.configAt_eq hc
    intro x hx hr' hring'
    dsimp only at hring'
    by_cases hself : x.addr = node.addr
    · -- the coordinator, which hears from itself only if it leaves
      obtain rfl := List.inj_on_of_nodup_map haddrs hx hnode hself
      rw [ringAt_put_map (f := Host.removed hash x.addr nodeID) fun _ => rfl,
        Option.map_eq_some_iff] at hring'
      obtain ⟨hr₁, hring₁, rfl⟩ := hring'
      obtain ⟨hr, hring, heq⟩ := hevolves.exists_ringAt hring₁
      obtain rfl := Option.some.inj (hring₀.symm.trans hring)
      rw [Function.update_self] at heq
      subst heq
      refine ⟨hr₀, hring₀, hkept₀.notifiesSelf x.addr, fun hstay => ?_⟩
      have hother : (f hr₀).getNodeAddress nodeID ≠ x.addr := fun haddr =>
        hstay (List.mem_cons.mpr (.inl (hkept₀.addresses x hx nodeID haddr).symm))
      rw [notifySelf, if_neg hother]
      exact hsame₀
    · rw [ringAt_put_of_ne hself] at hring'
      obtain ⟨hr, hring, heq⟩ := hevolves.exists_ringAt hring'
      rw [Function.update_of_ne hself] at heq
      have htold : ∃ y ∈ config.nodes, y.addr = x.addr := ⟨x, hx, rfl⟩
      rw [Function.comp_apply, if_pos htold] at heq
      have hkept : Maintained config.nodes
          (ringChange hash (lit "REMOVE") nodeID GoString.empty hr) :=
        (h.configured.ring x hx hr hring).removeNode
      refine ⟨hr, hring, ?_, fun hstay => ?_⟩
      · rw [heq]
        split
        · exact hkept.removeNode
        · exact hkept
      · have hother : ¬ ((f hr₀).getNodeAddress nodeID = x.addr ∧ x.addr ≠ GoString.empty) :=
          fun haddr =>
            hstay (List.mem_cons.mpr (.inl (hkept₀.addresses x hx nodeID haddr.1).symm))
        rw [heq, if_neg hother]
        exact ⟨rfl, rfl, fun _ => rfl⟩
  · intro m hm
    obtain ⟨hm, hne⟩ := List.mem_filter.mp hm
    rw [decide_eq_true_eq] at hne
    exact absurd (hok m hm) hne

theorem Agreement.serve (h : Agreement config s) {ps : PubSub}
    (hstep : s.step exec hash conn config (.serve addr cache aof trigger ps) = some s') :
    Agreement config s' := by
  have hring : ∀ b, ringAt s'.world b = ringAt s.world b := by
    intro b
    cases hstep
    by_cases hb : b = addr
    · have hkept : ∀ host, (Host.served cache aof trigger ps host).node.state.hashRing =
          host.node.state.hashRing.map id := by
        intro host
        rw [Option.map_id]
        rfl
      rw [hb, ringAt_put_map hkept, Option.map_id, id]
    · exact ringAt_put_of_ne hb
  have hconfig : ∀ b, configAt s'.world b = configAt s.world b := by
    intro b
    cases hstep
    exact configAt_put_map fun _ => rfl
  have hjoined : s'.joined = s.joined := by
    cases hstep
    rfl
  have hleft : s'.left = s.left := by
    cases hstep
    rfl
  obtain ⟨⟨hknown, hmaintained, hsame⟩, hone⟩ := h
  refine ⟨⟨?_, ?_, ?_⟩, ?_⟩
  · simpa only [hconfig] using hknown
  · simpa only [hring] using hmaintained
  · simpa only [hring, hleft] using hsame
  · simpa only [hring, hleft, hjoined] using hone

theorem Agreement.step (h : Agreement config s)
    (hids : (config.nodes.map NodeInfo.id).Nodup)
    (haddrs : (config.nodes.map NodeInfo.addr).Nodup) {change : TopologyChange}
    (hok : Meets hash config s change)
    (hstep : s.step exec hash conn config change = some s') : Agreement config s' := by
  cases change with
  | addNode node nodeID addr cache aof trigger choices peerChoices =>
    exact h.addNode hids haddrs hok hstep
  | removeNode node nodeID choices peerChoices => exact h.removeNode hids haddrs hok hstep
  | serve addr cache aof trigger ps => exact h.serve hstep

end Steps

/-- For every configuration with distinct IDs and addresses and every run of successful
    `ADDNODE` and `REMOVENODE` commands, to any of the configured nodes, that all meet the
    condition: the rings of all members give every key to the same shard. -/
theorem members_agree_of_meets (exec : ExecHandler) (hash : Bytes → UInt32) (conn : ConnID)
    (config : Config)
    (hids : (config.nodes.map NodeInfo.id).Nodup)
    (haddrs : (config.nodes.map NodeInfo.addr).Nodup)
    (w : Peers) (hstart : ClusterStarted hash config w) (s : Cluster)
    (hrun : Reaches (Cluster.step exec hash conn config) (Meets hash config) ⟨w, [], []⟩ s)
    (a b : GoString) (ha : Member config s a) (hb : Member config s b) (hr hr' : HashRing)
    (hring : ringAt s.world a = some hr) (hring' : ringAt s.world b = some hr')
    (key : GoString) : hr.getShard hash key = hr'.getShard hash key := by
  have hagree : Agreement config s := hrun.invariant (agreement_start haddrs hstart)
    fun _ _ _ h hok hstep => h.step hids haddrs hok hstep
  exact hagree.getShard hb ha hring' hring key

/-! ## Two nodes that join -/

/-- The first node of a cluster. -/
def firstNode : NodeInfo := ⟨lit "n1", lit "localhost", 7101, by decide⟩

/-- A cluster of one node, whose shard has the name of the node. -/
def namedConfig : Config := ⟨lit "n1", [firstNode], [⟨lit "n1", lit "n1", []⟩]⟩

/-- That node after its start, with nothing in its cache. -/
def firstWorld (hash : Bytes → UInt32) : Peers :=
  Peers.put ⟨fun _ => none, [], 0⟩ firstNode.addr (some ⟨⟨(WfCache.new 10).cache, [], .new 2,
    NodeState.clusterState hash namedConfig none ⟨∅⟩, .new, ()⟩, none⟩)

/-- The clock stands still, and the caches have no keys to go through. -/
def emptyChoices : Choices where
  clock _ := 1
  sched := ⟨fun _ _ => [], fun _ _ => 1⟩
  channels _ := []
  connections _ := []
  nodes := []

section FirstNode

variable {exec : ExecHandler} {hash : Bytes → UInt32} {conn : ConnID} {w : Peers} {s : Cluster}
  {hr : HashRing}
  {ids : List GoString} {nodeID addr : GoString}

/-- The first node is there, with some ring. -/
private def FirstNode (hash : Bytes → UInt32) (w : Peers) (hr : HashRing) : Prop :=
  ∃ host, w.hosts firstNode.addr = some host ∧ host.node.state =
    { NodeState.clusterState hash namedConfig none ⟨∅⟩ with hashRing := some hr }

private theorem FirstNode.ringAt_eq (h : FirstNode hash w hr) :
    ringAt w firstNode.addr = some hr := by
  obtain ⟨host, hhost, hstate⟩ := h
  rw [ringAt, hhost, Option.bind_some, hstate]

theorem started_firstWorld : ClusterStarted hash namedConfig (firstWorld hash) := by
  intro node hnode
  obtain rfl := List.mem_singleton.mp hnode
  exact ⟨_, none, ⟨∅⟩, hosts_put_self, rfl⟩

private theorem laidOut_pendingRing (hash : Bytes → UInt32) (config : Config) :
    LaidOut hash 150 ∅ (config.nodes.map NodeInfo.id) (config.pendingRing hash) :=
  (laidOut_new hash 150).foldl_add NodeInfo.id
    (fun hr node => (hr.addShard hash node.id).setNodeAddress node.id node.addr)
    (fun _ _ => ⟨rfl, rfl, rfl⟩) config.nodes

/-- Without keys there is nothing to migrate. -/
private theorem migrateTasks_emptyChoices {ω : Type} (net : Network ω)
    (addrOf : MigrationTask → GoString) (tasks : List MigrationTask) (i : Nat) (c : Cache)
    (world : ω) :
    migrateTasks net hash emptyChoices.sched addrOf i tasks c world = .ok (none, c, world) := by
  induction tasks generalizing i with
  | nil => rfl
  | cons task tasks ih => exact ih (i + 1)

variable (exec conn) in
/-- The first node adds a node that is there and not on its ring. -/
private theorem coordinate_adds {host : Host} {hr' : HashRing} (h : FirstNode hash w hr)
    (hlaid : LaidOut hash 150 ∅ ids hr) (hfirst : lit "n1" ∈ ids) (hnew : nodeID ∉ ids)
    (haddr : addr ≠ firstNode.addr) (hhost : w.hosts addr = some host)
    (hring : host.node.state.hashRing = some hr') :
    ∃ w', w.coordinate exec hash conn (fun _ => emptyChoices) emptyChoices firstNode.addr
        [.str (lit "CLUSTER"), .str (lit "ADDNODE"), .str nodeID, .str addr] = some w' ∧
      FirstNode hash w' (ringChange hash (lit "ADD") nodeID addr hr) ∧
      ringAt w' addr = some (ringChange hash (lit "ADD") nodeID addr hr') ∧
      ∀ b, b ≠ firstNode.addr → b ≠ addr → ringAt w' b = ringAt w b := by
  obtain ⟨self, hself, hstate⟩ := h
  have hlen : 0 < hr.hashValues.length := by
    apply List.length_pos_of_mem (a := position hash (lit "n1") 0)
    rw [hlaid.mem_iff _ (Set.notMem_empty _)]
    exact owner_ne_none hfirst ⟨0, by decide, rfl⟩
  obtain ⟨tasks, hplan⟩ := calculateMigrations_ok hash hlaid.sorted hlen nodeID
    (by rw [hlaid.virtualNodes]; decide +kernel)
  have hmigrate : ∀ w, migrateToNewNode (peers exec hash conn fun _ => emptyChoices) hash
      emptyChoices.sched nodeID addr self.node.cache hr w =
        .ok (none, self.node.cache, ringChange hash (lit "ADD") nodeID addr hr, w) := by
    intro w
    unfold migrateToNewNode
    simp only [hplan, migrateTasks_emptyChoices, bind, Except.bind]
    rfl
  have hdial : (peers exec hash conn fun _ => emptyChoices).dial w addr = .ok { w with
      hosts := Function.update w.hosts addr (some { host with conn := some (.new, []) })
      dialled := w.dialled ++ [addr] } := by
    unfold peers
    simp only [hhost]
  have hbroadcast : ∀ w, broadcast (peers exec hash conn fun _ => emptyChoices) namedConfig
      (lit "ADD") nodeID addr namedConfig.nodes w = .ok w := fun _ => rfl
  have hhandle := clusterAddNode_of_steps (n := self.node.withWorld w) (by
      show self.node.state.hashRing = some hr
      rw [hstate])
    (by
      show self.node.state.config = some namedConfig
      rw [hstate]
      rfl)
    (by
      show self.node.state.migrator = true
      rw [hstate]
      rfl)
    (hlaid.notMem_getAllNodes hnew) hdial (hmigrate _) (hbroadcast _)
    (notify_peers (.inl rfl) (Function.update_self ..) hring)
  unfold Peers.coordinate
  simp only [hself, hhandle, if_true]
  refine ⟨_, rfl, ⟨_, hosts_put_self, ?_⟩, ?_, fun b hb hb' => ?_⟩
  · show { self.node.state with hashRing := some (ringChange hash (lit "ADD") nodeID addr hr) } = _
    rw [hstate]
  · rw [ringAt_put_of_ne haddr, ringAt]
    dsimp only [migrated]
    rw [Function.update_self, Option.bind_some]
  · rw [ringAt_put_of_ne hb, ringAt]
    dsimp only [migrated]
    rw [Function.update_of_ne hb', Function.update_of_ne hb', ringAt]

variable (exec conn nodeID addr) in
/-- The first node adds a node that has just been started. -/
private theorem step_adds (h : FirstNode hash s.world hr) (hlaid : LaidOut hash 150 ∅ ids hr)
    (hfirst : lit "n1" ∈ ids) (hnew : nodeID ∉ ids) (haddr : addr ≠ firstNode.addr)
    (hfree : ∀ m ∈ s.joined, m.2 ≠ addr) :
    ∃ s', s.step exec hash conn namedConfig (.addNode firstNode nodeID addr (WfCache.new 10).cache
        [] (.new 2) emptyChoices fun _ => emptyChoices) = some s' ∧
      s'.joined = s.joined ++ [(nodeID, addr)] ∧ s'.left = s.left ∧
      FirstNode hash s'.world (ringChange hash (lit "ADD") nodeID addr hr) ∧
      ringAt s'.world addr =
        some (ringChange hash (lit "ADD") nodeID addr (namedConfig.pendingRing hash)) ∧
      ∀ b, b ≠ firstNode.addr → b ≠ addr → ringAt s'.world b = ringAt s.world b := by
  have hself : FirstNode hash (s.world.put addr
      (some (pendingHost hash namedConfig nodeID (WfCache.new 10).cache [] (.new 2)))) hr := by
    obtain ⟨host, hhost, hstate⟩ := h
    exact ⟨host, (hosts_put_of_ne haddr.symm).trans hhost, hstate⟩
  obtain ⟨w', hcoordinate, hfirst', hring', hothers⟩ := coordinate_adds exec conn hself hlaid
    hfirst hnew haddr hosts_put_self rfl
  have hguard : firstNode ∈ namedConfig.nodes ∧
      (∀ node ∈ namedConfig.nodes, node.id ≠ nodeID ∧ node.addr ≠ addr) ∧
      ∀ m ∈ s.joined, m.2 ≠ addr := by
    refine ⟨List.mem_cons_self, fun node hnode => ?_, hfree⟩
    obtain rfl := List.mem_singleton.mp hnode
    exact ⟨fun hid => hnew (hid ▸ hfirst), haddr.symm⟩
  refine ⟨{ s with world := w', joined := s.joined ++ [(nodeID, addr)] }, ?_, rfl, rfl, hfirst',
    hring', fun b hb hb' => (hothers b hb hb').trans (ringAt_put_of_ne hb')⟩
  simp only [Cluster.step, if_pos hguard, hcoordinate]

private theorem LaidOut.addNode (h : LaidOut hash 150 ∅ ids hr) :
    LaidOut hash 150 ∅ (ids ++ [nodeID]) (ringChange hash (lit "ADD") nodeID addr hr) :=
  ((h.add nodeID).mono (by simp)).of_eq rfl rfl rfl

/-- The name of a virtual node is a key of the shard that was added last. -/
private theorem getShard_virtualKey {m : GoString} {i : Nat}
    (h : LaidOut hash 150 ∅ (ids ++ [m]) hr) (hfit : (virtualKey m i).length ≤ maxAlloc)
    (hi : i < vnodeCount 150) :
    hr.getShard hash ⟨virtualKey m i, hfit⟩ = .ok m := by
  have howner : owner hash 150 (ids ++ [m]) (position hash m i) = some m :=
    owner_concat_of_mem ⟨i, hi, rfl⟩
  exact h.responsible_of_owner howner

/-- The ring a new node starts with is the one the first node has. -/
private theorem meets_first (hring : FirstNode hash w hr)
    (hlaid : LaidOut hash 150 ∅ [lit "n1"] hr) {cache : Cache} {aof : Bytes} {choices : Choices}
    {peerChoices : Nat → Choices} :
    Meets hash namedConfig ⟨w, [], []⟩
      (.addNode firstNode nodeID addr cache aof trigger choices peerChoices) := by
  refine ⟨rfl, fun node hnode _ hr₁ hring₁ => ?_⟩
  obtain rfl := List.mem_singleton.mp hnode
  obtain rfl := Option.some.inj (hring.ringAt_eq.symm.trans hring₁)
  have hpending : LaidOut hash 150 ∅ [lit "n1"] (namedConfig.pendingRing hash) :=
    laidOut_pendingRing hash namedConfig
  refine ⟨hpending.virtualNodes.trans hlaid.virtualNodes.symm, fun p _ => ?_, fun p _ _ => ?_⟩
  · rw [hpending.mem_iff p (Set.notMem_empty p), hlaid.mem_iff p (Set.notMem_empty p)]
  · rw [hpending.shardAt, hlaid.shardAt]

variable (exec hash conn) in
/-- The cluster after the first addition. -/
private theorem exists_second :
    ∃ change s, Meets hash namedConfig ⟨firstWorld hash, [], []⟩ change ∧
      Cluster.step exec hash conn namedConfig ⟨firstWorld hash, [], []⟩ change = some s ∧
      s.joined = [(lit "n2", lit "h:7002")] ∧ s.left = [] ∧
      ∃ hr hr', FirstNode hash s.world hr ∧ ringAt s.world (lit "h:7002") = some hr' ∧
        LaidOut hash 150 ∅ [lit "n1", lit "n2"] hr ∧
        LaidOut hash 150 ∅ [lit "n1", lit "n2"] hr' := by
  have hlaid : LaidOut hash 150 ∅ [lit "n1"] (namedConfig.clusterRing hash) :=
    laidOut_clusterRing hash namedConfig
  have hfirst : FirstNode hash (firstWorld hash) (namedConfig.clusterRing hash) :=
    ⟨_, hosts_put_self, rfl⟩
  obtain ⟨s, hstep, hjoined, hleft, hfirst', hring', -⟩ := step_adds exec conn (lit "n2")
    (lit "h:7002") (s := ⟨firstWorld hash, [], []⟩) hfirst hlaid List.mem_cons_self (by decide)
    (by decide) (fun m hm => nomatch hm)
  exact ⟨_, s, meets_first hfirst hlaid, hstep, hjoined, hleft, _, _, hfirst', hring',
    hlaid.addNode, LaidOut.addNode (laidOut_pendingRing hash namedConfig)⟩

end FirstNode

/-- The first node and one that has joined agree. -/
theorem members_agree_of_meets_two :
    ∃ w s, ClusterStarted sha256Hash namedConfig w ∧
      Reaches (Cluster.step handleExec sha256Hash 1 namedConfig) (Meets sha256Hash namedConfig)
        ⟨w, [], []⟩ s ∧
      ∃ hr hr', Member namedConfig s firstNode.addr ∧ Member namedConfig s (lit "h:7002") ∧
        ringAt s.world firstNode.addr = some hr ∧ ringAt s.world (lit "h:7002") = some hr' ∧
        ∀ key, hr.getShard sha256Hash key = hr'.getShard sha256Hash key := by
  obtain ⟨change, s, hmeets, hstep, hjoined, hleft, hr, hr', hfirst, hring', -, -⟩ :=
    exists_second handleExec sha256Hash 1
  have hrun : Reaches (Cluster.step handleExec sha256Hash 1 namedConfig)
      (Meets sha256Hash namedConfig) ⟨firstWorld sha256Hash, [], []⟩ s :=
    .step change .refl hmeets hstep
  have hmember : Member namedConfig s firstNode.addr :=
    .inl ⟨firstNode, List.mem_cons_self, by rw [hleft]; exact List.not_mem_nil, rfl⟩
  have hmember' : Member namedConfig s (lit "h:7002") := by
    refine .inr ⟨(lit "n2", lit "h:7002"), ?_, rfl⟩
    rw [hjoined]
    exact List.mem_cons_self
  exact ⟨_, s, started_firstWorld, hrun, hr, hr', hmember, hmember', hfirst.ringAt_eq, hring',
    members_agree_of_meets handleExec sha256Hash 1 namedConfig (by decide) (by decide) _
      started_firstWorld s hrun _ _ hmember hmember' hr hr' hfirst.ringAt_eq hring'⟩

/-- A node that has joined does not hear of the next one, and disagrees with the first
    node about a key. -/
theorem earlier_node_disagrees :
    ∃ w s, ClusterStarted sha256Hash namedConfig w ∧
      Reaches (Cluster.step handleExec sha256Hash 1 namedConfig) (fun _ _ => True) ⟨w, [], []⟩ s ∧
      ∃ hr hr', Member namedConfig s firstNode.addr ∧ Member namedConfig s (lit "h:7002") ∧
        ringAt s.world firstNode.addr = some hr ∧ ringAt s.world (lit "h:7002") = some hr' ∧
        ∃ key, hr.getShard sha256Hash key ≠ hr'.getShard sha256Hash key := by
  obtain ⟨change, s, -, hstep, hjoined, hleft, hr, hr', hfirst, hring', hlaid, hlaid'⟩ :=
    exists_second handleExec sha256Hash 1
  obtain ⟨s', hstep', hjoined', hleft', hfirst', -, hothers⟩ := step_adds handleExec 1 (lit "n3")
    (lit "h:7003") (s := s) hfirst hlaid List.mem_cons_self (by decide) (by decide)
    (by rw [hjoined]; decide)
  have hfit : NamesFit 150 (lit "n3") := namesFit_of_length (by decide)
  refine ⟨_, s', started_firstWorld, .step _ (.step change .refl trivial hstep) trivial hstep', _,
    hr', .inl ⟨firstNode, List.mem_cons_self, ?_, rfl⟩, .inr ⟨(lit "n2", lit "h:7002"), ?_, rfl⟩,
    hfirst'.ringAt_eq, ?_, ⟨virtualKey (lit "n3") 0, hfit 0 (by decide)⟩, fun heq => ?_⟩
  · rw [hleft', hleft]
    exact List.not_mem_nil
  · rw [hjoined', hjoined]
    decide
  · rw [hothers (lit "h:7002") (by decide) (by decide), hring']
  · -- the key is at a position of the third node, which the second one does not know
    have hlaid₃ : LaidOut sha256Hash 150 ∅ ([lit "n1", lit "n2"] ++ [lit "n3"])
        (ringChange sha256Hash (lit "ADD") (lit "n3") (lit "h:7003") hr) := hlaid.addNode
    have hthird := getShard_virtualKey hlaid₃ (hfit 0 (by decide)) (by decide)
    have hsecond := hlaid'.mem_of_responsible (heq.symm.trans hthird)
    exact absurd hsecond (by decide)

end GoCache.Spec
