import GoCache.Spec.Migration
import GoCache.Spec.Outcomes
import GoCache.Spec.Routing

/-!
# Keys that have moved

`CLUSTER ADDNODE` moves keys to the new node and puts it on the ring. A request for
such a key is routed through the nodes of the shards, which only `StartClusterMode`
sets, and through the static configuration, so it is never sent to the new node.

## Key results

- `InService.leader_listed`: the leaders a running node knows
- `addNode_moves`: the keys that an `ADDNODE` moves
- `moved_keys_redirected_iff`: when these are redirected to the new node
-/

namespace GoCache.Spec

open GoCache.Native Circle

/-! ## The ring of a running node -/

/-- The rings of a running node: what the cluster commands and the health callbacks
    make of the ring that `StartClusterMode` builds. -/
inductive InService (hash : Bytes → UInt32) (config : Config) : HashRing → Prop where
  | start : InService hash config (config.clusterRing hash)
  | addShard {hr : HashRing} (m : GoString) :
      InService hash config hr → InService hash config (hr.addShard hash m)
  | removeShard {hr : HashRing} (m : GoString) :
      InService hash config hr → InService hash config (hr.removeShard hash m)
  | setNodeAddress {hr : HashRing} (m addr : GoString) :
      InService hash config hr → InService hash config (hr.setNodeAddress m addr)

section InService

variable {hash : Bytes → UInt32} {config : Config} {hr : HashRing}

theorem InService.sorted (h : InService hash config hr) : hr.hashValues.Pairwise (· ≤ ·) := by
  induction h with
  | start => exact (laidOut_clusterRing hash config).sorted
  | addShard m _ _ => exact sorted_addShard hash _ m
  | removeShard m _ ih => exact ih.sublist (removeShard_sublist hash _ m)
  | setNodeAddress m addr _ ih => exact ih

/-- The nodes of the shards stay as they were at the start. -/
theorem InService.shardToNodes (h : InService hash config hr) :
    hr.shardToNodes = (config.clusterRing hash).shardToNodes := by
  induction h with
  | start => rfl
  | addShard m _ ih => rw [addShard_shardToNodes, ih]
  | removeShard m _ ih => rw [removeShard_shardToNodes, ih]
  | setNodeAddress m addr _ ih => exact ih

/-- A leader that the ring knows is a node of the configuration. -/
theorem InService.leader_listed (h : InService hash config hr)
    (hwf : WellFormed config.nodes config.shards) {shardID leader : GoString}
    (hleader : hr.getShardLeader shardID = .ok leader) :
    ∃ node ∈ config.nodes, node.id = leader := by
  unfold HashRing.getShardLeader HashRing.getShardNodes at hleader
  rw [h.shardToNodes] at hleader
  cases hlookup : (config.clusterRing hash).shardToNodes.lookup shardID with
  | none =>
    rw [hlookup] at hleader
    exact nomatch hleader
  | some nodeIDs =>
    obtain ⟨shard, hshard, -, rfl⟩ := clusterRing_shardToNodes hwf.shardIDs hlookup
    rw [hlookup] at hleader
    cases hleader
    exact hwf.leaders shard hshard

end InService

/-! ## What moves -/

section AddNode

variable {ω : Type} {net : Network ω} {hash : Bytes → UInt32} {n n' : ServerNode ω}
  {hr : HashRing} {c : WfCache} {choices : Choices} {id addr : GoString}

/-- An `ADDNODE` that is answered with `OK` has put the new node on the ring, and moved
    the keys on the arcs that this node takes over. -/
theorem addNode_moves (hring : n.state.hashRing = some hr)
    (hsorted : hr.hashValues.Pairwise (· ≤ ·)) (hcache : n.cache = c.cache)
    (hsched : ∀ i (c : WfCache), c.cache.Enumerates (choices.sched.order i c.cache))
    (hok : handleClusterCommand net hash n choices
      [.str (lit "CLUSTER"), .str (lit "ADDNODE"), .str id, .str addr] = .ok (replyOK, n')) :
    n'.state =
        { n.state with hashRing := some ((hr.addShard hash id).setNodeAddress id addr) } ∧
      ∀ key ∈ n.cache.data, key ∉ n'.cache.data ↔ JoinArc hash hr id (hash key.bytes) := by
  obtain ⟨hr₀, config, w, c', hr', w₁, w₂, w₃, hring', -, -, -, hmigrate, -, -, rfl⟩ :=
    clusterAddNode_ok hok
  obtain rfl : hr = hr₀ := Option.some.inj (hring.symm.trans hring')
  obtain ⟨tasks, hplan, hmigrate⟩ := bind_eq_ok.mp hmigrate
  rw [hcache] at hmigrate
  obtain ⟨⟨err, cache', world'⟩, htasks, hret⟩ := bind_eq_ok.mp hmigrate
  cases hret
  obtain ⟨c', rfl, hitem⟩ := migrateTasks_deletes hsched _ tasks htasks
  refine ⟨rfl, fun key hkey => ?_⟩
  rw [← calculateMigrations_arcs hsorted hplan]
  rw [hcache, c.mem_data_iff_item?] at hkey
  show key ∉ c'.cache.data ↔ _
  rw [c'.mem_data_iff_item?, not_not, hitem key]
  by_cases hcovers : Covers tasks (hash key.bytes)
  · simp [hcovers]
  · simp [hcovers, hkey]

end AddNode

/-- For every well-formed configuration, every running node, every cache and every
    `ADDNODE` of a node that is not configured: when it is answered with `OK`, the keys
    that have moved are redirected to the new node if and only if no key has moved,
    that is, no key of the cache was on an arc that the new node takes over. -/
theorem moved_keys_redirected_iff {ω : Type} (net : Network ω) (hash : Bytes → UInt32)
    (config : Config) (hwf : WellFormed config.nodes config.shards) (n n' : ServerNode ω)
    (hr : HashRing) (hring : n.state.hashRing = some hr) (hservice : InService hash config hr)
    (c : WfCache) (hcache : n.cache = c.cache) (choices : Choices)
    (hsched : ∀ i (c : WfCache), c.cache.Enumerates (choices.sched.order i c.cache))
    (id addr : GoString) (hnew : ∀ node ∈ config.nodes, node.id ≠ id)
    (hok : handleClusterCommand net hash n choices
      [.str (lit "CLUSTER"), .str (lit "ADDNODE"), .str id, .str addr] = .ok (replyOK, n')) :
    (∀ key ∈ n.cache.data, key ∉ n'.cache.data → ∀ isWrite,
      n'.state.shouldForwardRequest hash key isWrite = some (id, addr)) ↔
    ∀ key ∈ n.cache.data, ¬ JoinArc hash hr id (hash key.bytes) := by
  obtain ⟨hstate', hmoves⟩ := addNode_moves hring hservice.sorted hcache hsched hok
  constructor
  · intro hredirected key hkey harc
    have hforward := hredirected key hkey ((hmoves key hkey).mpr harc) false
    obtain ⟨hr₁, config₁, shardID, hring₁, -, -, hleader, -⟩ :=
      shouldForwardRequest_eq_some hforward
    rw [hstate'] at hring₁
    cases hring₁
    obtain ⟨node, hnode, hid⟩ :=
      ((hservice.addShard id).setNodeAddress id addr).leader_listed hwf hleader
    exact hnew node hnode hid
  · intro hnone key hkey hmoved
    exact absurd ((hmoves key hkey).mp hmoved) (hnone key hkey)

/-! ## A peer that accepts everything -/

section ListTarget

variable (w : List (GoString × GoString)) (addr : GoString)

private theorem write_listTarget (cmd : Bytes) :
    ∃ w', listTarget.write w addr cmd = .ok (encodeSimpleString (ascii "OK"), w') := by
  simp only [listTarget]
  split
  · exact ⟨_, rfl⟩
  · exact ⟨_, rfl⟩

private theorem up_listTarget : Up listTarget addr where
  dial w := ⟨w, rfl⟩
  get w k := by
    obtain ⟨w', hwrite⟩ := write_listTarget w addr (encodeArray [.str (lit "GET"), .str k])
    exact ⟨_, .str (lit "OK"), w', hwrite, rfl⟩

private theorem notify_listTarget (op id addr' : GoString) :
    ∃ w', notifyNodeAboutTopologyChange listTarget w addr op id addr' = .ok w' := by
  obtain ⟨w', hwrite⟩ := write_listTarget w addr (encodeArray [.str (lit "CLUSTER"),
    .str (lit "TOPOLOGY"), .str op, .str id, .str addr'])
  have hdial : listTarget.dial w addr = .ok w := rfl
  have hparse : parse ([] ++ encodeSimpleString (ascii "OK")) = .ok (.str (lit "OK")) [] := rfl
  refine ⟨w', ?_⟩
  unfold notifyNodeAboutTopologyChange exchange
  simp only [hdial, hwrite, hparse, bind, Except.bind]
  rfl

private theorem broadcast_listTarget (config : Config) (op id addr' : GoString)
    (nodes : List NodeInfo) :
    ∃ w', broadcast listTarget config op id addr' nodes w = .ok w' := by
  induction nodes generalizing w with
  | nil => exact ⟨w, rfl⟩
  | cons node nodes ih =>
    unfold broadcast
    split
    · exact ih w
    · obtain ⟨w₁, hnotify⟩ := notify_listTarget w node.addr op id addr'
      obtain ⟨w', hrest⟩ := ih w₁
      refine ⟨w', ?_⟩
      simp only [hnotify, bind, Except.bind]
      exact hrest

variable {addr} in
/-- With such a peer, a node that is not on the ring yet is added. -/
private theorem addNode_listTarget (hash : Bytes → UInt32)
    {n : ServerNode (List (GoString × GoString))} {config : Config} {hr : HashRing} {c : WfCache}
    {choices : Choices} {id : GoString} (hconfig : n.state.config = some config)
    (hring : n.state.hashRing = some hr) (hmigrator : n.state.migrator = true)
    (hcache : n.cache = c.cache) (hsorted : hr.hashValues.Pairwise (· ≤ ·))
    (hlen : 0 < hr.hashValues.length) (hvirtual : hr.virtualNodes = 150)
    (hnew : id ∉ hr.getAllNodes) :
    ∃ n', handleClusterCommand listTarget hash n choices
      [.str (lit "CLUSTER"), .str (lit "ADDNODE"), .str id, .str addr] = .ok (replyOK, n') := by
  obtain ⟨tasks, hplan⟩ := calculateMigrations_ok hash hsorted hlen id
    (by rw [hvirtual]; decide +kernel)
  obtain ⟨c', w₁, htasks⟩ := migrateTasks_up hash choices.sched (target_listTarget addr)
    (up_listTarget addr) tasks 0 c n.world
  have hmigrate : migrateToNewNode listTarget hash choices.sched id addr n.cache hr n.world =
      .ok (none, c'.cache, (hr.addShard hash id).setNodeAddress id addr, w₁) := by
    unfold migrateToNewNode
    simp only [hplan, hcache, htasks, bind, Except.bind]
    rfl
  obtain ⟨w₂, hbroadcast⟩ := broadcast_listTarget w₁ config (lit "ADD") id addr config.nodes
  obtain ⟨w₃, hnotify⟩ := notify_listTarget w₂ addr (lit "ADD") id addr
  have hdial : listTarget.dial n.world addr = .ok n.world := rfl
  exact ⟨_, clusterAddNode_of_steps hring hconfig hmigrator hnew hdial hmigrate hbroadcast hnotify⟩

end ListTarget

/-! ## One node -/

/-- A configuration with one node and its shard. -/
def soleConfig : Config :=
  ⟨lit "n1", [⟨lit "n1", lit "localhost", 7001, by decide⟩], [⟨lit "s1", lit "n1", []⟩]⟩

/-- The node of that configuration, and a peer that accepts everything. -/
def coordinator (hash : Bytes → UInt32) (c : WfCache) :
    ServerNode (List (GoString × GoString)) where
  cache := c.cache
  aof := []
  trigger := .new 2
  state := NodeState.clusterState hash soleConfig none ⟨∅⟩
  ps := .new
  world := []

/-- The loops over the cache go through the LRU list. -/
def listChoices : Choices where
  clock _ := 7
  sched := listSchedule
  channels _ := []
  connections _ := []
  nodes := []

section Sole

variable (hash : Bytes → UInt32) (c : WfCache)

private theorem laidOut_soleConfig :
    LaidOut hash 150 ∅ [lit "s1"] (soleConfig.clusterRing hash) :=
  laidOut_clusterRing hash soleConfig

private theorem length_pos_soleConfig : 0 < (soleConfig.clusterRing hash).hashValues.length := by
  have hmem : position hash (lit "s1") 0 ∈ (soleConfig.clusterRing hash).hashValues := by
    rw [(laidOut_soleConfig hash).mem_iff _ (Set.notMem_empty _)]
    exact owner_ne_none List.mem_cons_self ⟨0, by decide, rfl⟩
  exact List.length_pos_of_mem hmem

private theorem coordinator_adds :
    ∃ n', handleClusterCommand listTarget hash (coordinator hash c) listChoices
      [.str (lit "CLUSTER"), .str (lit "ADDNODE"), .str (lit "n2"), .str (lit "h:7002")] =
        .ok (replyOK, n') := by
  have hlaid := laidOut_soleConfig hash
  exact addNode_listTarget hash rfl rfl rfl rfl hlaid.sorted (length_pos_soleConfig hash)
    hlaid.virtualNodes (hlaid.notMem_getAllNodes (by decide))

/-- The name of some virtual node of the shard is a key on an arc that the new node
    takes over. -/
private theorem exists_key_on_arc :
    ∃ key : GoString, JoinArc hash (soleConfig.clusterRing hash) (lit "n2") (hash key.bytes) := by
  have hlaid := laidOut_soleConfig hash
  obtain ⟨p, hprev, -⟩ := joinTask_eq hash hlaid.sorted (length_pos_soleConfig hash) (lit "n2") 0
  obtain ⟨m, howner⟩ := Option.ne_none_iff_exists'.mp
    ((hlaid.mem_iff p (Set.notMem_empty p)).mp hprev.mem)
  obtain ⟨hm, i, hi, rfl⟩ := owner_mem howner
  obtain rfl := List.mem_singleton.mp hm
  have hfit : NamesFit 150 (lit "s1") := namesFit_of_length (by decide)
  refine ⟨⟨virtualKey (lit "s1") i, hfit i hi⟩, 0, ?_, _, hprev, ?_, inArc_left _ _⟩
  · rw [hlaid.virtualNodes]
    decide
  · rw [hlaid.shardAt, howner]
    decide

/-- Whatever is added, the node handles all keys itself. -/
private theorem soleConfig_forwards_none {ns : NodeState} {hr : HashRing}
    (hring : ns.hashRing = some hr) (hconfig : ns.config = some soleConfig)
    (hservice : InService hash soleConfig hr) (key : GoString) (isWrite : Bool) :
    ns.shouldForwardRequest hash key isWrite = none := by
  by_contra hsome
  obtain ⟨target, hforward⟩ := Option.ne_none_iff_exists'.mp hsome
  obtain ⟨hr', config, shardID, hring', hconfig', -, hleader, -, hother⟩ :=
    shouldForwardRequest_eq_some hforward
  obtain rfl := Option.some.inj (hring.symm.trans hring')
  obtain rfl := Option.some.inj (hconfig.symm.trans hconfig')
  -- the only leader is the node itself
  have hnodup : (soleConfig.shards.map ShardInfo.shardID).Nodup := by decide
  unfold HashRing.getShardLeader HashRing.getShardNodes at hleader
  rw [hservice.shardToNodes] at hleader
  cases hlookup : (soleConfig.clusterRing hash).shardToNodes.lookup shardID with
  | none =>
    rw [hlookup] at hleader
    exact nomatch hleader
  | some nodeIDs =>
    obtain ⟨shard, hshard, rfl, rfl⟩ := clusterRing_shardToNodes hnodup hlookup
    rw [hlookup] at hleader
    obtain rfl := List.mem_singleton.mp hshard
    exact hother _ rfl rfl (Except.ok.inj hleader).symm

end Sole

/-- A hash for which all virtual nodes of a shard are at the first byte of its name. -/
def firstByte (bytes : Bytes) : UInt32 := (bytes.headD 0).toUInt32

/-- The new node is at `n` and the old one at `s`: what is between them stays. -/
private theorem not_joinArc_firstByte :
    ¬ JoinArc firstByte (soleConfig.clusterRing firstByte) (lit "n2")
      (firstByte (lit "p").bytes) := by
  rintro ⟨i, -, p, hprev, -, harc⟩
  have hlaid := laidOut_soleConfig firstByte
  obtain ⟨m, howner⟩ := Option.ne_none_iff_exists'.mp
    ((hlaid.mem_iff p (Set.notMem_empty p)).mp hprev.mem)
  obtain ⟨hm, j, -, rfl⟩ := owner_mem howner
  obtain rfl := List.mem_singleton.mp hm
  have hs : position firstByte (lit "s1") j = 115 := rfl
  have hn : position firstByte (lit "n2") i = 110 := rfl
  rw [hs, hn] at harc
  exact absurd harc (by decide)

/-- A cache with a key that stays. -/
private def staying : WfCache := (WfCache.new 10).set (lit "p") (lit "v") 0 7

/-- The key that stays is not lost. -/
theorem moved_keys_redirected_iff_stays :
    ∃ n', handleClusterCommand listTarget firstByte (coordinator firstByte staying) listChoices
        [.str (lit "CLUSTER"), .str (lit "ADDNODE"), .str (lit "n2"), .str (lit "h:7002")] =
          .ok (replyOK, n') ∧
      lit "p" ∈ (coordinator firstByte staying).cache.data ∧
      ∀ key ∈ (coordinator firstByte staying).cache.data, key ∉ n'.cache.data →
        ∀ isWrite, n'.state.shouldForwardRequest firstByte key isWrite =
          some (lit "n2", lit "h:7002") := by
  obtain ⟨n', hok⟩ := coordinator_adds firstByte staying
  have hkeys : staying.cache.data.keys = {lit "p"} := by decide +kernel
  refine ⟨n', hok, Finmap.mem_keys.mp (hkeys ▸ Finset.mem_singleton_self _),
    (moved_keys_redirected_iff listTarget firstByte soleConfig
      ⟨by decide, by decide, by decide, by decide⟩ _ n' _ rfl .start staying rfl listChoices
      enumerates_listSchedule (lit "n2") (lit "h:7002") (by decide) hok).mpr fun key hkey => ?_⟩
  have hmem : key ∈ staying.cache.data.keys := Finmap.mem_keys.mpr hkey
  rw [hkeys, Finset.mem_singleton] at hmem
  rw [hmem]
  exact not_joinArc_firstByte

/-- There is a key that moves to the new node, and that the node it has left goes on
    to handle itself. -/
theorem moved_key_handled_locally :
    ∃ (key : GoString) (n' : ServerNode (List (GoString × GoString))),
      handleClusterCommand listTarget sha256Hash
        (coordinator sha256Hash ((WfCache.new 10).set key (lit "v") 0 7)) listChoices
        [.str (lit "CLUSTER"), .str (lit "ADDNODE"), .str (lit "n2"), .str (lit "h:7002")] =
          .ok (replyOK, n') ∧
      key ∈ (coordinator sha256Hash ((WfCache.new 10).set key (lit "v") 0 7)).cache.data ∧
      key ∉ n'.cache.data ∧
      ∀ isWrite, n'.state.shouldForwardRequest sha256Hash key isWrite = none := by
  obtain ⟨key, harc⟩ := exists_key_on_arc sha256Hash
  let c := (WfCache.new 10).set key (lit "v") 0 7
  obtain ⟨n', hok⟩ := coordinator_adds sha256Hash c
  have hkey : key ∈ c.cache.data := by
    rw [c.mem_data_iff_item?, WfCache.item?, WfCache.entries_set, Recency.find?_put_self]
    exact Option.some_ne_none _
  obtain ⟨hstate, hmoves⟩ := addNode_moves rfl (laidOut_soleConfig sha256Hash).sorted
    (rfl : (coordinator sha256Hash c).cache = c.cache) enumerates_listSchedule hok
  have hservice : InService sha256Hash soleConfig (soleConfig.clusterRing sha256Hash) := .start
  refine ⟨key, n', hok, hkey, (hmoves key hkey).mpr harc, ?_⟩
  exact soleConfig_forwards_none sha256Hash (by rw [hstate]) (by rw [hstate]; rfl)
    ((hservice.addShard (lit "n2")).setNodeAddress (lit "n2") (lit "h:7002")) key

end GoCache.Spec
