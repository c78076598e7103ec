import GoCache.Native.Health
import GoCache.Spec.Routing

/-!
# Failures and recoveries

The callbacks of the leader's health checker take a failed node from the ring and
put it back when it answers again. The ring is keyed by shards, the callbacks by
nodes: unless the node's ID is also the ID of a shard, the failure removes nothing
and the recovery adds a shard that no configuration knows.

What a failure disturbs are the positions of the node, which the recovery lays out
anew. So the ring is as it was if these positions were the node's own.

## Key results

- `checkNode_outcome`: what a check can do
- `RingTracks.check`: the layout of the ring in spite of failures
- `recovery_is_neutral`: nodes that own their positions may fail and recover
- `recovery_moves_keys`: a node that does not takes keys from the others
-/

namespace GoCache.Spec

open GoCache.Native

/-! ## One check -/

/-- A node is dead only after three failures in a row. -/
def Counted (node : NodeCheck Nat) : Prop := node.status = .dead → 3 ≤ node.consecutiveFailures

/-- What a check can do to a node, with what it reports. -/
inductive CheckOutcome (node node' : NodeCheck Nat) : Option HealthReport → Prop where
  | quiet : (node'.status = .dead ↔ node.status = .dead) → CheckOutcome node node' none
  | failed : node.status ≠ .dead → node'.status = .dead → CheckOutcome node node' (some .failed)
  | recovered : node.status = .dead → node'.status ≠ .dead →
    CheckOutcome node node' (some .recovered)

theorem checkNode_outcome {node node' : NodeCheck Nat} {pingFailed : Bool}
    {report : Option HealthReport} (hcounted : Counted node)
    (h : node.checkNode 3 pingFailed = (node', report)) :
    Counted node' ∧ CheckOutcome node node' report := by
  unfold NodeCheck.checkNode at h
  cases pingFailed with
  | false =>
    simp only [Bool.false_eq_true, if_false, Prod.mk.injEq] at h
    obtain ⟨rfl, rfl⟩ := h
    refine ⟨fun hdead => (nomatch hdead), ?_⟩
    split
    · next hdead => exact .recovered hdead (by simp)
    · next hup => exact .quiet (by simp [hup])
  | true =>
    simp only [if_true, Prod.mk.injEq] at h
    obtain ⟨rfl, rfl⟩ := h
    by_cases hthree : 3 ≤ node.consecutiveFailures + 1
    · simp only [hthree, if_true, and_true]
      refine ⟨fun _ => hthree, ?_⟩
      split
      · next hup => exact .failed hup rfl
      · next hdead => exact .quiet (by simpa using hdead)
    · -- a node that was dead would have failed often enough
      have hup : node.status ≠ .dead := fun hdead =>
        hthree (Nat.le_succ_of_le (hcounted hdead))
      simp only [hthree, if_false, Nat.succ_pos, if_true, reduceCtorEq, and_false]
      exact ⟨fun hdead => (nomatch hdead), .quiet (by simp [hup])⟩

/-- What a check does to the table and to the ring. -/
theorem check_eq_some {hash : Bytes → UInt32} {c : Config} {m m' : Monitor} {id : GoString}
    {pingFailed : Bool} {report : Option HealthReport}
    (h : m.check hash c id pingFailed = some (m', report)) :
    ∃ node node', m.nodes.lookup id = some node ∧
      node.checkNode 3 pingFailed = (node', report) ∧
      m' = ⟨m.nodes.insert id node', m.hashRing.callback hash c id report⟩ := by
  obtain ⟨node, hlookup, heq⟩ := Option.map_eq_some_iff.mp h
  cases hcheck : node.checkNode 3 pingFailed with
  | mk node' report' =>
    rw [hcheck] at heq
    obtain ⟨rfl, rfl⟩ := Prod.mk.inj heq
    exact ⟨node, node', hlookup, hcheck, rfl⟩

/-! ## The ring behind the checks -/

section Ring

variable {hash : Bytes → UInt32} {c : Config} {m m' : Monitor} {id : GoString}

/-- Every position of the node leads to it on the ring of the configuration. -/
def OwnsPositions (hash : Bytes → UInt32) (c : Config) (id : GoString) : Prop :=
  ∀ p ∈ shardPositions hash 150 id, (c.clusterRing hash).hashToShard.lookup p = some id

theorem ownsPositions_iff : OwnsPositions hash c id ↔
    ∀ p ∈ shardPositions hash 150 id, owner hash 150 (shardIDs c) p = some id := by
  unfold OwnsPositions
  simp only [(laidOut_clusterRing hash c).lookup _ (Set.notMem_empty _)]

/-- A registered node that is dead. -/
def Down (m : Monitor) (id : GoString) : Prop :=
  ∃ node, m.nodes.lookup id = some node ∧ node.status = .dead

/-- The positions of the dead nodes. -/
def downPositions (hash : Bytes → UInt32) (m : Monitor) : Set UInt32 :=
  {p | ∃ id, Down m id ∧ p ∈ shardPositions hash 150 id}

/-- After a check only the checked node may have another status. -/
theorem down_insert_iff {node : NodeCheck Nat} {hr : HashRing} {x : GoString} :
    Down ⟨m.nodes.insert id node, hr⟩ x ↔
      (x = id ∧ node.status = .dead) ∨ (x ≠ id ∧ Down m x) := by
  unfold Down
  by_cases hx : x = id
  · subst hx
    simp [Finmap.lookup_insert]
  · simp [Finmap.lookup_insert_of_ne _ hx, hx]

/-- The callback for a failure. -/
theorem LaidOut.onNodeFailed {hidden : Set UInt32} {ids : List GoString} {hr : HashRing}
    (h : LaidOut hash 150 hidden ids hr) (id : GoString) :
    LaidOut hash 150 (hidden ∪ shardPositions hash 150 id) ids (hr.onNodeFailed hash id) :=
  (h.remove id).of_eq rfl rfl rfl

/-- The callback for a recovery adds the node as often as it is listed. -/
theorem LaidOut.onNodeRecovered {hidden : Set UInt32} {ids : List GoString} {hr : HashRing}
    (h : LaidOut hash 150 hidden ids hr) (hlisted : ∃ node ∈ c.nodes, node.id = id) :
    ∃ back, back ≠ [] ∧ (∀ b ∈ back, b = id) ∧
      LaidOut hash 150 (hidden \ shardPositions hash 150 id) (ids ++ back)
        (hr.onNodeRecovered hash c id) := by
  unfold HashRing.onNodeRecovered
  -- the first time it is found, its positions come to light; then they stay there
  generalize c.nodes = nodes at hlisted
  have hloop : ∃ back, (∀ b ∈ back, b = id) ∧
      LaidOut hash 150 hidden (ids ++ back) (nodes.foldl (fun hr node =>
        if node.id = id then (hr.addShard hash id).setNodeAddress id node.addr else hr) hr) ∧
      ((∃ node ∈ nodes, node.id = id) → back ≠ [] ∧
        LaidOut hash 150 (hidden \ shardPositions hash 150 id) (ids ++ back)
          (nodes.foldl (fun hr node =>
            if node.id = id then (hr.addShard hash id).setNodeAddress id node.addr else hr)
            hr)) := by
    clear hlisted
    induction nodes generalizing hidden ids hr with
    | nil => exact ⟨[], by simp, by simpa using h, by simp⟩
    | cons node nodes ih =>
      rw [List.foldl_cons]
      by_cases hid : node.id = id
      · rw [if_pos hid]
        have hadd : LaidOut hash 150 (hidden \ shardPositions hash 150 id) (ids ++ [id])
            ((hr.addShard hash id).setNodeAddress id node.addr) := (h.add id).of_eq rfl rfl rfl
        obtain ⟨back, hback, hlaid, _⟩ := ih hadd
        rw [List.append_assoc] at hlaid
        refine ⟨[id] ++ back, ?_, hlaid.mono Set.sdiff_subset, fun _ => ⟨by simp, hlaid⟩⟩
        simpa using hback
      · rw [if_neg hid]
        obtain ⟨back, hback, hlaid, hfound⟩ := ih h
        refine ⟨back, hback, hlaid, fun hlisted => hfound ?_⟩
        obtain ⟨other, hother, heq⟩ := hlisted
        rcases List.mem_cons.mp hother with rfl | hother
        · exact absurd heq hid
        · exact ⟨other, hother, heq⟩
  obtain ⟨back, hback, _, hlaid⟩ := hloop
  exact ⟨back, (hlaid hlisted).1, hback, (hlaid hlisted).2⟩

end Ring

/-! ## Runs -/

section Runs

variable {hash : Bytes → UInt32} {c : Config} {m m' : Monitor} {id : GoString}

/-- A check as a step of a run: the node that is pinged, and whether that fails. -/
def healthCheck (hash : Bytes → UInt32) (c : Config) (m : Monitor) (ping : GoString × Bool) :
    Option Monitor :=
  (m.check hash c ping.1 ping.2).map Prod.fst

/-- A node that is reported as failed owns its positions. -/
def FailsCleanly (hash : Bytes → UInt32) (c : Config) (m : Monitor) (ping : GoString × Bool) :
    Prop :=
  ∀ m', m.check hash c ping.1 ping.2 = some (m', some .failed) → OwnsPositions hash c ping.1

/-- The ring is that of the configuration, with the nodes that came back on top and
    without the positions of those that are down. -/
structure RingTracks (hash : Bytes → UInt32) (c : Config) (m : Monitor) : Prop where
  counted : ∀ id node, m.nodes.lookup id = some node → Counted node
  listed : ∀ id node, m.nodes.lookup id = some node → ∃ info ∈ c.nodes, info.id = id
  owns : ∀ id, Down m id → OwnsPositions hash c id
  ring : ∃ back, (∀ id ∈ back, OwnsPositions hash c id) ∧
    LaidOut hash 150 (downPositions hash m) (shardIDs c ++ back) m.hashRing

/-- A turn of the loop that registers the nodes. -/
private theorem lookup_registerNode (acc : Finmap fun _ : GoString => NodeCheck Nat)
    (info : NodeInfo)
    (hacc : ∀ x node, acc.lookup x = some node → node = ⟨.alive, 0⟩) (x : GoString) :
    (if info.id ≠ c.nodeID then Monitor.registerNode acc info.id else acc).lookup x =
      if info.id = x ∧ x ≠ c.nodeID then some ⟨.alive, 0⟩ else acc.lookup x := by
  by_cases hself : info.id = c.nodeID
  · rw [if_neg (by simp [hself]), if_neg]
    rintro ⟨rfl, hne⟩
    exact hne hself
  · rw [if_pos hself]
    unfold Monitor.registerNode
    by_cases hmem : info.id ∈ acc
    · rw [if_pos hmem]
      split
      · next hx =>
        obtain ⟨node, hlookup⟩ := Finmap.mem_iff.mp hmem
        rw [← hx.1, hlookup, hacc _ node hlookup]
      · rfl
    · rw [if_neg hmem]
      by_cases hx : info.id = x
      · subst hx
        rw [Finmap.lookup_insert, if_pos ⟨rfl, hself⟩]
      · rw [Finmap.lookup_insert_of_ne _ (Ne.symm hx), if_neg (fun h => hx h.1)]

/-- The nodes that `startAsLeader` registers: those of the configuration, apart from
    the leader itself. -/
theorem lookup_start (hash : Bytes → UInt32) (c : Config) (x : GoString) :
    (Monitor.start hash c).nodes.lookup x =
      if (∃ info ∈ c.nodes, info.id = x) ∧ x ≠ c.nodeID then some ⟨.alive, 0⟩ else none := by
  have hloop : ∀ (nodes : List NodeInfo) (acc : Finmap fun _ : GoString => NodeCheck Nat),
      (∀ x node, acc.lookup x = some node → node = ⟨.alive, 0⟩) →
      (nodes.foldl (fun nodes node =>
        if node.id ≠ c.nodeID then Monitor.registerNode nodes node.id else nodes) acc).lookup x =
        if (∃ info ∈ nodes, info.id = x) ∧ x ≠ c.nodeID then some ⟨.alive, 0⟩
        else acc.lookup x := by
    intro nodes
    induction nodes with
    | nil => simp
    | cons info nodes ih =>
      intro acc hacc
      have hstep := lookup_registerNode (c := c) acc info hacc
      rw [List.foldl_cons, ih, hstep x]
      · by_cases hself : x = c.nodeID
        · simp [hself]
        · by_cases hrest : ∃ info ∈ nodes, info.id = x <;> by_cases hinfo : info.id = x <;>
            simp [hself, hrest, hinfo]
      · intro y node hy
        rw [hstep y] at hy
        split at hy
        · exact (Option.some.inj hy).symm
        · exact hacc y node hy
  exact hloop c.nodes ∅ (by simp)

theorem lookup_start_eq_some {node : NodeCheck Nat}
    (h : (Monitor.start hash c).nodes.lookup id = some node) :
    node = ⟨.alive, 0⟩ ∧ ∃ info ∈ c.nodes, info.id = id := by
  rw [lookup_start] at h
  split at h
  · next hlisted => exact ⟨(Option.some.inj h).symm, hlisted.1⟩
  · exact nomatch h

theorem ringTracks_start (hash : Bytes → UInt32) (c : Config) :
    RingTracks hash c (Monitor.start hash c) where
  counted id node h hdead := by
    rw [(lookup_start_eq_some h).1] at hdead
    exact nomatch hdead
  listed id node h := (lookup_start_eq_some h).2
  owns id h := by
    obtain ⟨node, hlookup, hdead⟩ := h
    rw [(lookup_start_eq_some hlookup).1] at hdead
    exact nomatch hdead
  ring := by
    refine ⟨[], by simp, ?_⟩
    rw [List.append_nil]
    exact (laidOut_clusterRing hash c).mono (Set.empty_subset _)

/-- A check keeps the invariant, if it reports no failure of a node that does not own
    its positions. -/
theorem RingTracks.check (h : RingTracks hash c m) {ping : GoString × Bool}
    (hclean : FailsCleanly hash c m ping) (hstep : healthCheck hash c m ping = some m') :
    RingTracks hash c m' := by
  obtain ⟨id, pingFailed⟩ := ping
  obtain ⟨⟨_, report⟩, hcheck, rfl⟩ := Option.map_eq_some_iff.mp hstep
  obtain ⟨node, node', hlookup, hnode, rfl⟩ := check_eq_some hcheck
  obtain ⟨hcounted, houtcome⟩ := checkNode_outcome (h.counted id node hlookup) hnode
  obtain ⟨back, hback, hlaid⟩ := h.ring
  -- what concerns only the table of nodes is the same for every outcome
  have htable : ∀ P : GoString → NodeCheck Nat → Prop, P id node' →
      (∀ x n, m.nodes.lookup x = some n → P x n) →
      ∀ x n, (m.nodes.insert id node').lookup x = some n → P x n := by
    intro P hnew hold x n hx
    by_cases hxid : x = id
    · subst hxid
      rw [Finmap.lookup_insert, Option.some.injEq] at hx
      exact hx ▸ hnew
    · rw [Finmap.lookup_insert_of_ne _ hxid] at hx
      exact hold x n hx
  have hcounted' := htable (fun _ n => Counted n) hcounted h.counted
  have hlisted' := htable (fun x _ => ∃ info ∈ c.nodes, info.id = x)
    (h.listed id node hlookup) h.listed
  cases houtcome with
  | quiet hsame =>
    have hdown : ∀ x, Down ⟨m.nodes.insert id node', m.hashRing⟩ x ↔ Down m x := by
      intro x
      rw [down_insert_iff]
      by_cases hx : x = id
      · subst hx
        simp [hsame, Down, hlookup]
      · simp [hx]
    refine ⟨hcounted', hlisted', fun x hx => h.owns x ((hdown x).mp hx), back, hback, ?_⟩
    apply hlaid.mono
    rintro p ⟨x, hx, hp⟩
    exact ⟨x, (hdown x).mpr hx, hp⟩
  | failed hup hdead =>
    have howns : OwnsPositions hash c id := hclean _ hcheck
    refine ⟨hcounted', hlisted', fun x hx => ?_, back, hback, ?_⟩
    · rcases down_insert_iff.mp hx with ⟨rfl, _⟩ | ⟨_, hx⟩
      · exact howns
      · exact h.owns x hx
    · apply (hlaid.onNodeFailed id).mono
      rintro p (⟨x, hx, hp⟩ | hp)
      · refine ⟨x, down_insert_iff.mpr ?_, hp⟩
        by_cases hxid : x = id
        · exact .inl ⟨hxid, hdead⟩
        · exact .inr ⟨hxid, hx⟩
      · exact ⟨id, down_insert_iff.mpr (.inl ⟨rfl, hdead⟩), hp⟩
  | recovered hdead hup =>
    have howns := h.owns id ⟨node, hlookup, hdead⟩
    obtain ⟨again, _, hagain, hlaid'⟩ := hlaid.onNodeRecovered (h.listed id node hlookup)
    rw [List.append_assoc] at hlaid'
    refine ⟨hcounted', hlisted', fun x hx => ?_, back ++ again, ?_, ?_⟩
    · rcases down_insert_iff.mp hx with ⟨_, hdead'⟩ | ⟨_, hx⟩
      · exact absurd hdead' hup
      · exact h.owns x hx
    · intro x hx
      rcases List.mem_append.mp hx with hx | hx
      · exact hback x hx
      · rw [hagain x hx]
        exact howns
    · apply hlaid'.mono
      rintro p ⟨⟨x, hx, hp⟩, hnot⟩
      refine ⟨x, down_insert_iff.mpr (.inr ⟨?_, hx⟩), hp⟩
      rintro rfl
      exact hnot hp

/-- Nodes that own their positions make no difference when they are added again. -/
theorem owner_append_of_owns {back : List GoString} (h : ∀ id ∈ back, OwnsPositions hash c id)
    (p : UInt32) : owner hash 150 (shardIDs c ++ back) p = owner hash 150 (shardIDs c) p := by
  rw [owner_append]
  cases howner : owner hash 150 back p with
  | none => rfl
  | some id =>
    obtain ⟨hid, hp⟩ := owner_mem howner
    rw [ownsPositions_iff.mp (h id hid) p hp]
    rfl

end Runs

/-- In every run of health checks that reports no failure of a node that does not
    own its positions, once all nodes have recovered every key has the shard it had
    at the start. -/
theorem recovery_is_neutral (hash : Bytes → UInt32) (c : Config) (m : Monitor)
    (h : Transition.Reaches (healthCheck hash c) (FailsCleanly hash c) (Monitor.start hash c) m)
    (hup : ∀ id node, m.nodes.lookup id = some node → node.status ≠ .dead) (key : GoString) :
    m.hashRing.getShard hash key = (c.clusterRing hash).getShard hash key := by
  have htracks : RingTracks hash c m := h.invariant (ringTracks_start hash c)
    fun m ping m' hinv hclean hstep => hinv.check hclean hstep
  obtain ⟨back, hback, hlaid⟩ := htracks.ring
  have hnone : downPositions hash m ⊆ ∅ := by
    rintro p ⟨id, ⟨node, hlookup, hdead⟩, _⟩
    exact absurd hdead (hup id node hlookup)
  exact (laidOut_clusterRing hash c).responsible_eq (hlaid.mono hnone)
    (owner_append_of_owns hback) key

/-! ## One failure -/

section Once

variable (hash : Bytes → UInt32) {c : Config} {id : GoString}

/-- The checks of a run in which a node fails and recovers: three pings fail, and one
    succeeds. -/
private theorem reaches_recovered (ok : Monitor → GoString × Bool → Prop)
    (hok : ∀ m pingFailed, ok m (id, pingFailed))
    (hlisted : ∃ node ∈ c.nodes, node.id = id) (hother : id ≠ c.nodeID) :
    ∃ m, Transition.Reaches (healthCheck hash c) ok (Monitor.start hash c) m ∧
      (∀ x node, m.nodes.lookup x = some node → node.status ≠ .dead) ∧
      m.hashRing =
        ((c.clusterRing hash).onNodeFailed hash id).onNodeRecovered hash c id := by
  have hcheck : ∀ (m : Monitor) node pingFailed, m.nodes.lookup id = some node →
      healthCheck hash c m (id, pingFailed) = some ⟨m.nodes.insert id
        (node.checkNode 3 pingFailed).1, m.hashRing.callback hash c id
          (node.checkNode 3 pingFailed).2⟩ := by
    intro m node pingFailed hlookup
    simp [healthCheck, Monitor.check, hlookup]
  have hstart : Transition.Reaches (healthCheck hash c) ok (Monitor.start hash c)
      (Monitor.start hash c) := .refl
  have hfirst := hstart.step (id, true) (hok _ _)
    (hcheck _ _ true ((lookup_start hash c id).trans (if_pos ⟨hlisted, hother⟩)))
  have hsecond := hfirst.step (id, true) (hok _ _) (hcheck _ _ true (Finmap.lookup_insert _))
  have hthird := hsecond.step (id, true) (hok _ _) (hcheck _ _ true (Finmap.lookup_insert _))
  have hfourth := hthird.step (id, false) (hok _ _) (hcheck _ _ false (Finmap.lookup_insert _))
  refine ⟨_, hfourth, fun x node hx => ?_, rfl⟩
  by_cases hxid : x = id
  · subst hxid
    rw [Finmap.lookup_insert, Option.some.injEq] at hx
    rw [← hx]
    decide
  · rw [Finmap.lookup_insert_of_ne _ hxid, Finmap.lookup_insert_of_ne _ hxid,
      Finmap.lookup_insert_of_ne _ hxid, Finmap.lookup_insert_of_ne _ hxid] at hx
    rw [(lookup_start_eq_some hx).1]
    decide

/-- After one failure and the recovery the positions of the node are its own. -/
private theorem laidOut_recovered (hlisted : ∃ node ∈ c.nodes, node.id = id) :
    ∃ ids, (∀ p ∈ shardPositions hash 150 id, owner hash 150 ids p = some id) ∧
      LaidOut hash 150 ∅ ids
        (((c.clusterRing hash).onNodeFailed hash id).onNodeRecovered hash c id) := by
  obtain ⟨back, hne, hback, hlaid⟩ :=
    ((laidOut_clusterRing hash c).onNodeFailed id).onNodeRecovered hlisted
  refine ⟨shardIDs c ++ back, fun p hp => ?_, hlaid.mono ?_⟩
  · obtain ⟨b, hb⟩ := List.exists_mem_of_ne_nil back hne
    obtain ⟨m, howner⟩ := Option.ne_none_iff_exists'.mp (owner_ne_none (hback b hb ▸ hb) hp)
    rw [owner_append, howner, hback m (owner_mem howner).1]
    rfl
  · rw [Set.empty_union, Set.sdiff_self]

/-- A node that does not own its positions, and whose virtual nodes' names can be
    keys, gets a key it did not have when it fails and recovers. -/
theorem recovery_moves_keys (hlisted : ∃ node ∈ c.nodes, node.id = id) (hother : id ≠ c.nodeID)
    (hfit : NamesFit 150 id) (hnot : ¬ OwnsPositions hash c id) :
    ∃ m, Transition.Reaches (healthCheck hash c) (fun _ _ => True) (Monitor.start hash c) m ∧
      (∀ x node, m.nodes.lookup x = some node → node.status ≠ .dead) ∧
      ∃ key, m.hashRing.getShard hash key = .ok id ∧
        (c.clusterRing hash).getShard hash key ≠ .ok id := by
  obtain ⟨m, hreach, hup, hring⟩ := reaches_recovered hash (fun _ _ => True)
    (fun _ _ => trivial) hlisted hother
  obtain ⟨ids, howner, hlaid⟩ := laidOut_recovered hash hlisted
  refine ⟨m, hreach, hup, ?_⟩
  by_contra hsame
  push Not at hsame
  apply hnot
  rw [ownsPositions_iff]
  rintro p ⟨i, hi, rfl⟩
  let key : GoString := ⟨virtualKey id i, hfit i hi⟩
  have hat : hash key.bytes ∈ shardPositions hash 150 id := ⟨i, hi, rfl⟩
  have hafter : m.hashRing.getShard hash key = .ok id := by
    rw [hring]
    exact hlaid.responsible_of_owner (howner _ hat)
  exact (laidOut_clusterRing hash c).owner_of_responsible hat (hsame key hafter)

end Once

/-- A cluster of two nodes, seen from the first. -/
def nodePair (shards : List ShardInfo) : Config where
  nodeID := lit "n1"
  nodes := [⟨lit "n1", lit "h1", 7000, by decide⟩, ⟨lit "n2", lit "h2", 7000, by decide⟩]
  shards := shards

theorem nodePair_listed (shards : List ShardInfo) :
    ∃ node ∈ (nodePair shards).nodes, node.id = lit "n2" :=
  ⟨⟨lit "n2", lit "h2", 7000, by decide⟩, by simp [nodePair], rfl⟩

theorem nodePair_other (shards : List ShardInfo) : lit "n2" ≠ (nodePair shards).nodeID := by
  show lit "n2" ≠ lit "n1"
  decide

/-- Two nodes, each with a shard of its own that has the same name. -/
theorem recovery_is_neutral_two : ∃ c m,
    Transition.Reaches (healthCheck sha256Hash c) (FailsCleanly sha256Hash c)
      (Monitor.start sha256Hash c) m ∧
    (∀ id node, m.nodes.lookup id = some node → node.status ≠ .dead) ∧
    m.hashRing = ((c.clusterRing sha256Hash).onNodeFailed sha256Hash (lit "n2")).onNodeRecovered
      sha256Hash c (lit "n2") ∧
    m.hashRing.getShard sha256Hash (lit "k") =
      (c.clusterRing sha256Hash).getShard sha256Hash (lit "k") := by
  let c := nodePair [⟨lit "n1", lit "n1", []⟩, ⟨lit "n2", lit "n2", []⟩]
  have howns : OwnsPositions sha256Hash c (lit "n2") := by
    rw [ownsPositions_iff]
    intro p hp
    show owner sha256Hash 150 ([lit "n1"] ++ [lit "n2"]) p = some (lit "n2")
    exact owner_concat_of_mem hp
  obtain ⟨m, hreach, hup, hring⟩ := reaches_recovered sha256Hash (FailsCleanly sha256Hash c)
    (fun _ _ _ _ => howns) (nodePair_listed _) (nodePair_other _)
  exact ⟨c, m, hreach, hup, hring, recovery_is_neutral sha256Hash c m hreach hup (lit "k")⟩

/-- Two nodes in two shards: after the second has failed and recovered, a key that
    belonged to one of the shards belongs to the node. -/
theorem recovered_node_takes_key : ∃ m,
    Transition.Reaches (healthCheck sha256Hash (nodePair [⟨lit "s1", lit "n1", []⟩,
        ⟨lit "s2", lit "n2", []⟩])) (fun _ _ => True)
      (Monitor.start sha256Hash (nodePair [⟨lit "s1", lit "n1", []⟩, ⟨lit "s2", lit "n2", []⟩]))
      m ∧
    (∀ id node, m.nodes.lookup id = some node → node.status ≠ .dead) ∧
    m.hashRing.getShard sha256Hash (lit "n2-0") = .ok (lit "n2") ∧
    ∃ id ∈ [lit "s1", lit "s2"], ((nodePair [⟨lit "s1", lit "n1", []⟩,
      ⟨lit "s2", lit "n2", []⟩]).clusterRing sha256Hash).getShard sha256Hash (lit "n2-0") =
        .ok id := by
  obtain ⟨m, hreach, hup, hring⟩ := reaches_recovered sha256Hash (fun _ _ => True)
    (fun _ _ => trivial)
    (nodePair_listed [⟨lit "s1", lit "n1", []⟩, ⟨lit "s2", lit "n2", []⟩]) (nodePair_other _)
  refine ⟨m, hreach, hup, ?_, ?_⟩
  · obtain ⟨ids, howner, hlaid⟩ := laidOut_recovered sha256Hash
      (nodePair_listed [⟨lit "s1", lit "n1", []⟩, ⟨lit "s2", lit "n2", []⟩])
    have hname : (lit "n2-0").bytes = virtualKey (lit "n2") 0 := by decide
    rw [hring]
    apply hlaid.responsible_of_owner
    rw [hname]
    exact howner _ ⟨0, by decide, rfl⟩
  · exact (laidOut_clusterRing sha256Hash (nodePair [⟨lit "s1", lit "n1", []⟩,
      ⟨lit "s2", lit "n2", []⟩])).exists_responsible (by decide) (List.cons_ne_nil _ _)
      (lit "n2-0")

end GoCache.Spec
