import GoCache.Spec.ReadOnly
import GoCache.Spec.Routing

/-!
# Shard ownership

A node redirects an immediate write of a key whose shard it does not lead. Two
writes get past this check: one of the empty key, which `handleConnection` takes for
a request without a key, and one that is queued in a transaction, since it is queued
before the check and executed without it. All other requests of a static cluster
change a node only at keys it leads; an eviction hits such a key as well, because
there are no others.

## Key results

- `handleExec_respects`, `switchCommand_respects`: what the handlers write
- `leads_of_not_moved`: who handles a write that is not redirected
- `ownership_respected`: every request of every run
-/

namespace GoCache.Spec

open GoCache.Native Recency Transition

/-! ## Writes of some keys -/

/-- Only keys with `P` have been written in between. -/
structure Respects (P : GoString → Prop) (c c' : Cache) : Prop where
  isWf : IsWf c'
  keys : (∀ k ∈ c.data, P k) → ∀ k ∈ c'.data, P k
  unchanged : (∀ k, ¬ P k) → ∀ k, find? k c'.entries = find? k c.entries

section Respects

variable {P : GoString → Prop} {c c₁ c' : Cache}

theorem Respects.refl (hc : IsWf c) : Respects P c c := ⟨hc, id, fun _ _ => rfl⟩

theorem Respects.trans (h : Respects P c c₁) (h' : Respects P c₁ c') : Respects P c c' where
  isWf := h'.isWf
  keys hall := h'.keys (h.keys hall)
  unchanged hnone k := by rw [h'.unchanged hnone, h.unchanged hnone]

/-- A call that changes no entry. -/
theorem Respects.of_effect (hc : IsWf c) (h : CacheEffect false c c') : Respects P c c' where
  isWf := h.isWf
  keys hall k hk := by
    obtain ⟨w, rfl⟩ := hc
    obtain ⟨w', rfl⟩ := h.isWf
    have hentries : w'.item? k = w.item? k := h.entries rfl k
    rw [w'.mem_data_iff_item?, hentries, ← w.mem_data_iff_item?] at hk
    exact hall k hk
  unchanged _ := h.entries rfl

theorem Respects.set {key value : GoString} {ttl : Duration} {now : Time} (hc : IsWf c)
    (hkey : P key) (h : c.set key value ttl now = .ok c') : Respects P c c' where
  isWf := hc.set h
  keys hall k hk := by
    obtain ⟨w, rfl⟩ := hc
    rw [w.cache_set] at h
    cases h
    rw [WfCache.mem_data_iff, w.entries_set, put, keys_cons, List.mem_cons] at hk
    rcases hk with rfl | hk
    · exact hkey
    · -- what is left was there before
      have hmem := (keys_sublist (List.take_sublist _ _)).subset hk
      exact hall k ((w.mem_data_iff k).mpr ((keys_sublist (erase_sublist key _)).subset hmem))
  unchanged hnone := absurd hkey (hnone key)

theorem Respects.delete {key : GoString} (hc : IsWf c) (hkey : P key)
    (h : c.delete key = .ok c') : Respects P c c' where
  isWf := hc.delete h
  keys hall k hk := by
    obtain ⟨w, rfl⟩ := hc
    rw [w.cache_delete] at h
    cases h
    rw [WfCache.mem_data_iff, w.entries_delete] at hk
    exact hall k ((w.mem_data_iff k).mpr ((keys_sublist (erase_sublist key _)).subset hk))
  unchanged hnone := absurd hkey (hnone key)

/-- A command on the cache that writes a key with `P`, if it writes. -/
theorem CacheOutcome.respects {writes : Bool} {errors : List Bytes} {now : Time}
    {cmd : List Value} {reply : Bytes} (h : CacheOutcome writes errors now cmd c reply c')
    (hc : IsWf c) (hkey : writes = true → ∀ key, keyOf cmd = some key → P key) :
    Respects P c c' := by
  cases h with
  | refused => exact .refl hc
  | set hwrites hcmd hset => exact .set hc (hkey hwrites _ hcmd) hset
  | get hget => exact .of_effect hc (.get hc hget)
  | delete hwrites hcmd hdelete => exact .delete hc (hkey hwrites _ hcmd) hdelete

/-- A key at which the cache has changed was there before or is there now. -/
theorem Respects.changes (h : Respects P c c') (hc : IsWf c)
    (hall : (∀ k ∈ c.data, P k) ∨ ∀ k, ¬ P k) {k : GoString}
    (hchanged : find? k c'.entries ≠ find? k c.entries) : P k := by
  rcases hall with hall | hnone
  · obtain ⟨w, rfl⟩ := hc
    obtain ⟨w', hw'⟩ := h.isWf
    by_cases hbefore : k ∈ w.cache.data
    · exact hall k hbefore
    · by_cases hafter : k ∈ c'.data
      · exact h.keys hall k hafter
      · -- absent on both sides
        subst hw'
        rw [w.mem_data_iff_item?, not_not] at hbefore
        rw [w'.mem_data_iff_item?, not_not] at hafter
        exact absurd (hafter.trans hbefore.symm) hchanged
  · exact absurd (h.unchanged hnone k) hchanged

end Respects

/-! ## The handlers -/

/-- A command writes only a key with `P`. -/
def WritesOnly (P : GoString → Prop) (cmd : List Value) : Prop :=
  isWrite cmd = true → ∀ key, keyOf cmd = some key → P key

section Handlers

variable {P : GoString → Prop} {s s' : Server} {c c' : Cache} {now : Time} {reply : Bytes}
  {cmd : List Value}

private theorem executeCommand_respects (hc : IsWf c) (hkey : WritesOnly P cmd)
    (h : executeCommand c now cmd = .ok (reply, c')) : Respects P c c' := by
  cases executeCommand_outcome h with
  | cache h => exact h.respects hc hkey
  | ping | unknown => exact .refl hc

private theorem executeQueue_respects {clock : Nat → Time} {i : Nat} {queue : List (List Value)}
    {responses : List Bytes} (hc : IsWf c) (hkeys : ∀ cmd ∈ queue, WritesOnly P cmd)
    (h : executeQueue clock i c queue = .ok (responses, c')) : Respects P c c' := by
  induction queue generalizing i c responses with
  | nil =>
    cases h
    exact .refl hc
  | cons cmd queue ih =>
    rw [executeQueue_cons] at h
    obtain ⟨⟨response, c₁⟩, hfirst, h⟩ := bind_eq_ok.mp h
    obtain ⟨⟨rest, c₂⟩, hrest, h⟩ := bind_eq_ok.mp h
    cases h
    have hstep := executeCommand_respects hc (hkeys cmd List.mem_cons_self) hfirst
    have hqueue : ∀ cmd ∈ queue, WritesOnly P cmd :=
      fun cmd hcmd => hkeys cmd (List.mem_cons_of_mem _ hcmd)
    exact hstep.trans (ih hstep.isWf hqueue hrest)

/-- `EXEC` executes what is queued, without a look at the ring. -/
theorem handleExec_respects {st st' : ConnectionState} {clock : Nat → Time} (hc : IsWf s.cache)
    (hkeys : executesWrites st = true → ∀ cmd ∈ st.commandQueue, WritesOnly P cmd)
    (h : handleExec s st clock = .ok (reply, s', st')) : Respects P s.cache s'.cache := by
  cases hwrites : executesWrites st with
  | false =>
    have heffect := (handleExec_effect hc h).1
    rw [hwrites] at heffect
    exact .of_effect hc heffect
  | true =>
    rw [handleExec_eq] at h
    split at h
    · cases h
      exact .refl hc
    split at h
    · cases h
      exact .refl hc
    · obtain ⟨⟨results, c₁⟩, hexecute, h⟩ := bind_eq_ok.mp h
      obtain ⟨s₁, hpersist, h⟩ := bind_eq_ok.mp h
      cases h
      rw [(foldlM_persistCommand_effect hpersist).1]
      exact executeQueue_respects hc (hkeys hwrites) hexecute

/-- The immediate commands. -/
theorem switchCommand_respects {st st' : ConnectionState} {clock : Nat → Time} {name : GoString}
    {args : List Value} (hexec : isCommand (.str name) "EXEC" = false) (hc : IsWf s.cache)
    (hkey : WritesOnly P (.str name :: args))
    (h : switchCommand s st clock (.str name) (.str name :: args) = .ok (reply, s', st')) :
    Respects P s.cache s'.cache := by
  cases switchCommand_outcome hexec h with
  | set hname hset =>
    cases isCommand_iff.mp hname
    exact (handleSet_outcome hset).respects hc fun _ => hkey rfl
  | get _ hget => exact (handleGet_outcome hget).1.respects hc fun h => nomatch h
  | delete hname hdelete =>
    cases isCommand_iff.mp hname
    exact (handleDelete_outcome 0 hdelete).respects hc fun _ => hkey rfl
  | dbSize | ping | multi | discard | unknown => exact .refl hc

end Handlers

/-! ## Static clusters -/

/-- The node of the configuration is the leader of the shard of the key. -/
def Leads (hash : Bytes → UInt32) (config : Config) (key : GoString) : Prop :=
  ∃ shard ∈ config.shards, (config.clusterRing hash).getShard hash key = .ok shard.shardID ∧
    shard.leaderID = config.nodeID

/-- The node serves clients in the cluster of the configuration. -/
def Serves {ω : Type} (hash : Bytes → UInt32) (config : Config) (n : ServerNode ω) : Prop :=
  ∃ l hc, n.state = .clusterState hash config l hc

/-- The request is none of the commands that change the ring. -/
def keepsTopology : List GoString → Bool
  | name :: subcommand :: _ =>
    !(name = lit "CLUSTER" &&
      (subcommand = lit "ADDNODE" || subcommand = lit "REMOVENODE" || subcommand = lit "TOPOLOGY"))
  | _ => true

/-- The request is a write of the empty key that is handled at once. -/
def writesEmptyKey (st : ConnectionState) : List GoString → Bool
  | name :: key :: _ =>
    !st.subscriberMode && !st.inTransaction && (name = lit "SET" || name = lit "DEL") &&
      key = GoString.empty
  | _ => false

section Static

variable {ω : Type} {hash : Bytes → UInt32} {net : Network ω} {conn : ConnID}
  {nodes : List NodeInfo} {shards : List ShardInfo} {node : NodeInfo} {n n' : ServerNode ω}
  {st st' : ConnectionState} {choices : Choices} {reply : Bytes} {name key : GoString}
  {args : List GoString}

theorem Serves.update {config : Config} (h : Serves hash config n) (s : Server) :
    Serves hash config (n.update s) := by
  obtain ⟨l, hc, hstate⟩ := h
  refine ⟨s.leader, hc, ?_⟩
  show { n.state with leader := s.leader } = _
  rw [hstate]
  rfl

/-- A write of a nonempty key that is not redirected is handled by the leader. -/
theorem leads_of_not_moved (hwf : WellFormed nodes shards) (hnode : node ∈ nodes)
    (hid : node.id ≠ GoString.empty) (hserves : Serves hash ⟨node.id, nodes, shards⟩ n)
    (hwrite : name = lit "SET" ∨ name = lit "DEL") (hkey : key ≠ GoString.empty)
    (h : movedTo (n.server hash) (.str name) key = none) :
    Leads hash ⟨node.id, nodes, shards⟩ key := by
  obtain ⟨l, hc, hstate⟩ := hserves
  have hmode : n.state.isClusterMode = true := by
    rw [hstate]
    show (Config.mk node.id nodes shards).isClusterMode = true
    simp [Config.isClusterMode, hid, List.ne_nil_of_mem hnode]
  have hisWrite : (isCommand (.str name) "SET" || isCommand (.str name) "DEL") = true := by
    rcases hwrite with rfl | rfl <;> rfl
  have hnone : n.state.shouldForwardRequest hash key true = none := by
    unfold movedTo at h
    rw [if_pos ⟨hmode, hkey⟩, hisWrite] at h
    exact Option.map_eq_none_iff.mp h
  have hne : shards ≠ [] := by
    obtain ⟨shard, hshard, _⟩ := hwf.oneShard node hnode
    exact List.ne_nil_of_mem hshard
  have hget : ∃ shard ∈ shards,
      ((Config.mk node.id nodes shards).clusterRing hash).getShard hash key = .ok shard.shardID :=
    clusterRing_getShard (c := ⟨node.id, nodes, shards⟩) hash key hne
  obtain ⟨shard, hshard, hget⟩ := hget
  obtain ⟨leader, hleader, hleaderID⟩ := hwf.leaders shard hshard
  rw [hstate, shouldForwardRequest_eq hwf hshard hleader hleaderID hnode hid hget] at hnone
  have hsame : node = leader := by simpa using hnone
  exact ⟨shard, hshard, hget, by rw [← hleaderID, hsame]⟩

/-- A cluster command that keeps the topology only reports. -/
private theorem handleClusterCommand_static
    (hkeeps : keepsTopology (lit "CLUSTER" :: args) = true)
    (h : handleClusterCommand net hash n choices (strs (lit "CLUSTER" :: args)) =
      .ok (reply, n')) : n' = n := by
  have hsub : ∀ {cmd : Value} {sub : GoString} {rest : List Value},
      strs (lit "CLUSTER" :: args) = cmd :: .str sub :: rest →
        ¬ (sub = lit "ADDNODE" ∨ sub = lit "REMOVENODE" ∨ sub = lit "TOPOLOGY") := by
    intro cmd sub rest hcommand
    match args, hcommand with
    | _ :: _, hcommand =>
      cases hcommand
      simpa [keepsTopology, and_assoc] using hkeeps
  cases handleClusterCommand_outcome h with
  | usage | unknown | nodes | health => rfl
  | addNode hcommand => exact absurd (.inl rfl) (hsub hcommand)
  | removeNode hcommand => exact absurd (.inr (.inl rfl)) (hsub hcommand)
  | topology hcommand => exact absurd (.inr (.inr rfl)) (hsub hcommand)

/-- An immediate write. -/
private theorem dispatch_write_respects (hwf : WellFormed nodes shards) (hnode : node ∈ nodes)
    (hid : node.id ≠ GoString.empty) (hserves : Serves hash ⟨node.id, nodes, shards⟩ n)
    (hc : IsWf n.cache) (hwrite : name = lit "SET" ∨ name = lit "DEL")
    (hempty : args.head? = some GoString.empty →
      Leads hash ⟨node.id, nodes, shards⟩ GoString.empty)
    (h : n.dispatch handleExec net hash conn st choices (.str name) (strs (name :: args)) =
      .ok (reply, n', st')) :
    Respects (Leads hash ⟨node.id, nodes, shards⟩) n.cache n'.cache ∧
      Serves hash ⟨node.id, nodes, shards⟩ n' := by
  have hother : isCommand (.str name) "SUBSCRIBE" = false ∧
      isCommand (.str name) "UNSUBSCRIBE" = false ∧ isCommand (.str name) "PUBLISH" = false ∧
      isCommand (.str name) "CLUSTER" = false ∧ isCommand (.str name) "EXEC" = false := by
    rcases hwrite with rfl | rfl <;> decide
  obtain ⟨hsub, hunsub, hpublish, hcluster, hexec⟩ := hother
  rw [dispatch_other hsub hunsub hpublish hcluster] at h
  obtain ⟨key, hrouting, h⟩ := bind_eq_ok.mp h
  split at h
  · cases h
    exact ⟨.refl hc, hserves⟩
  · next hmoved =>
    -- the key of the command is the one it was routed by
    have hkey : WritesOnly (Leads hash ⟨node.id, nodes, shards⟩) (strs (name :: args)) := by
      intro _ key' hkey'
      match args, hkey', hrouting, hempty with
      | first :: rest, hkey', hrouting, hempty =>
        cases hkey'
        cases hrouting
        by_cases hfirst : key = GoString.empty
        · subst hfirst
          exact hempty rfl
        · exact leads_of_not_moved hwf hnode hid hserves hwrite hfirst hmoved
    rw [switchCommand_eq, hexec, if_neg Bool.false_ne_true] at h
    obtain ⟨⟨r, s, t⟩, hswitch, h⟩ := bind_eq_ok.mp h
    cases h
    exact ⟨switchCommand_respects hexec hc hkey hswitch, hserves.update s⟩

/-- A request that no transaction queues. -/
private theorem dispatch_respects (hwf : WellFormed nodes shards) (hnode : node ∈ nodes)
    (hid : node.id ≠ GoString.empty) (hserves : Serves hash ⟨node.id, nodes, shards⟩ n)
    (hc : IsWf n.cache) (hkeeps : keepsTopology (name :: args) = true)
    (hempty : name = lit "SET" ∨ name = lit "DEL" → args.head? = some GoString.empty →
      Leads hash ⟨node.id, nodes, shards⟩ GoString.empty)
    (hqueue : name = lit "EXEC" → redirected hash n (name :: args) = false →
      executesWrites st = true →
        ∀ cmd ∈ st.commandQueue, WritesOnly (Leads hash ⟨node.id, nodes, shards⟩) cmd)
    (h : n.dispatch handleExec net hash conn st choices (.str name) (strs (name :: args)) =
      .ok (reply, n', st')) :
    Respects (Leads hash ⟨node.id, nodes, shards⟩) n.cache n'.cache ∧
      Serves hash ⟨node.id, nodes, shards⟩ n' := by
  by_cases hwrite : name = lit "SET" ∨ name = lit "DEL"
  · exact dispatch_write_respects hwf hnode hid hserves hc hwrite (hempty hwrite) h
  by_cases hexec : name = lit "EXEC"
  · cases hred : redirected hash n (name :: args) with
    | true =>
      obtain ⟨moved, hmoved⟩ := dispatch_redirected (.inl hexec) hred
      rw [hmoved] at h
      cases h
      exact ⟨.refl hc, hserves⟩
    | false =>
      rw [dispatch_direct (.inl hexec) hred, switchCommand_eq,
        if_pos (isCommand_iff.mpr (congrArg Value.str hexec))] at h
      obtain ⟨⟨r, s, t⟩, hhandle, h⟩ := bind_eq_ok.mp h
      cases h
      exact ⟨handleExec_respects hc (hqueue hexec hred) hhandle, hserves.update s⟩
  cases dispatch_outcome h with
  | subscribe | unsubscribe | publish => exact ⟨.refl hc, hserves⟩
  | cluster hname hhandle =>
    cases isCommand_iff.mp hname
    obtain rfl := handleClusterCommand_static hkeeps hhandle
    exact ⟨.refl hc, hserves⟩
  | moved => exact ⟨.refl hc, hserves⟩
  | exec hname => exact absurd (Value.str.inj (isCommand_iff.mp hname)) hexec
  | switch _ _ hname hswitch =>
    have hkey : WritesOnly (Leads hash ⟨node.id, nodes, shards⟩) (strs (name :: args)) := by
      intro hisWrite
      exact absurd (by simpa [isWrite] using hisWrite) hwrite
    exact ⟨switchCommand_respects hname hc hkey hswitch, hserves.update _⟩

end Static

/-! ## Runs -/

/-- The request keeps the topology; a write of the empty key that is handled at once,
    and the writes of a transaction that is executed, are at keys the node leads. -/
def StaysInShard {ω : Type} (hash : Bytes → UInt32) (config : Config) (s : Replica ω) :
    ReplicaStep → Prop
  | .request conn _ request => keepsTopology request = true ∧
      (writesEmptyKey (s.clients conn) request = true → Leads hash config GoString.empty) ∧
      (runsWrites hash s.node (s.clients conn) request = true →
        ∀ cmd ∈ (s.clients conn).commandQueue, WritesOnly (Leads hash config) cmd)
  | .close .. => True
  | .stream .. => False

/-- A node of a static cluster: what it holds are keys it leads, or it leads none. -/
structure Owning {ω : Type} (hash : Bytes → UInt32) (config : Config) (s : Replica ω) :
    Prop where
  serves : Serves hash config s.node
  isWf : IsWf s.node.cache
  keys : (∀ k ∈ s.node.cache.data, Leads hash config k) ∨ ∀ k, ¬ Leads hash config k

section Runs

variable {ω : Type} {net : Network ω} {hash : Bytes → UInt32} {nodes : List NodeInfo}
  {shards : List ShardInfo} {node : NodeInfo} {s s' : Replica ω}

/-- One request. -/
private theorem step_respects (hwf : WellFormed nodes shards) (hnode : node ∈ nodes)
    (hid : node.id ≠ GoString.empty) (howning : Owning hash ⟨node.id, nodes, shards⟩ s)
    {conn : ConnID} {choices : Choices} {request : List GoString}
    (hrouted : StaysInShard hash ⟨node.id, nodes, shards⟩ s (.request conn choices request))
    (hstep : s.step net hash (.request conn choices request) = some s') :
    Respects (Leads hash ⟨node.id, nodes, shards⟩) s.node.cache s'.node.cache ∧
      Serves hash ⟨node.id, nodes, shards⟩ s'.node := by
  obtain ⟨hkeeps, hempty, hqueue⟩ := hrouted
  obtain ⟨hserves, hc, -⟩ := howning
  simp only [Replica.step] at hstep
  split at hstep
  · next reply n st hhandle =>
    cases hstep
    cases request with
    | nil => cases hhandle
    | cons name args =>
      cases handleCommand_outcome hhandle with
      | refused | queued | notQueued => exact ⟨.refl hc, hserves⟩
      | dispatched hallowed hcontrol hdispatch =>
        refine dispatch_respects hwf hnode hid hserves hc hkeeps ?_ ?_ hdispatch
        · -- a subscriber sends no writes, and in a transaction they are queued
          intro hwrite hhead
          apply hempty
          have hmode : (s.clients conn).subscriberMode = false := by
            refine Bool.eq_false_iff.mpr fun hmode => ?_
            have hname := hallowed hmode
            rcases hwrite with rfl | rfl <;> exact absurd hname (by decide)
          have hin : (s.clients conn).inTransaction = false := by
            refine Bool.eq_false_iff.mpr fun hin => ?_
            have hname := hcontrol hin
            rcases hwrite with rfl | rfl <;> exact absurd hname (by decide)
          cases args with
          | nil => cases hhead
          | cons key rest =>
            cases hhead
            simpa [writesEmptyKey, hmode, hin] using hwrite
        · intro hexec hred hwrites
          apply hqueue
          have hmode : (s.clients conn).subscriberMode = false :=
            Bool.eq_false_iff.mpr fun hmode =>
              (allowedSubscribed_ne (hallowed hmode)).1 hexec
          simp [runsWrites, hexec, hmode, hwrites, hexec ▸ hred]
  · cases hstep

private theorem step_owning (hwf : WellFormed nodes shards) (hnode : node ∈ nodes)
    (hid : node.id ≠ GoString.empty) (s : Replica ω) (a : ReplicaStep) (s' : Replica ω)
    (howning : Owning hash ⟨node.id, nodes, shards⟩ s)
    (hrouted : StaysInShard hash ⟨node.id, nodes, shards⟩ s a)
    (hstep : s.step net hash a = some s') :
    Owning hash ⟨node.id, nodes, shards⟩ s' := by
  cases a with
  | request conn choices request =>
    obtain ⟨hrespects, hserves⟩ := step_respects hwf hnode hid howning hrouted hstep
    exact ⟨hserves, hrespects.isWf, howning.keys.imp_left hrespects.keys⟩
  | close conn choices =>
    simp only [Replica.step] at hstep
    split at hstep
    · next n hclose =>
      obtain ⟨ps, -, hn⟩ := bind_eq_ok.mp hclose
      cases hn
      cases hstep
      exact ⟨howning.serves, howning.isWf, howning.keys⟩
    · cases hstep
  | stream c aof => exact absurd hrouted id

/-- For every well-formed cluster and every node of it, from a cache with keys it leads:
    in every run of client requests that are all `StaysInShard`, every request changes the cache
    of the node only at keys it leads. -/
theorem ownership_respected (hash : Bytes → UInt32) (net : Network ω) (nodes : List NodeInfo)
    (shards : List ShardInfo) (hwf : WellFormed nodes shards) (node : NodeInfo)
    (hnode : node ∈ nodes) (hid : node.id ≠ GoString.empty) (start s s' : Replica ω)
    (hstart : Owning hash ⟨node.id, nodes, shards⟩ start)
    (hreach : Reaches (Replica.step net hash) (StaysInShard hash ⟨node.id, nodes, shards⟩) start s)
    (conn : ConnID) (choices : Choices) (request : List GoString)
    (hrouted : StaysInShard hash ⟨node.id, nodes, shards⟩ s (.request conn choices request))
    (hstep : s.step net hash (.request conn choices request) = some s') (k : GoString)
    (hchanged : find? k s'.node.cache.entries ≠ find? k s.node.cache.entries) :
    Leads hash ⟨node.id, nodes, shards⟩ k := by
  have howning := hreach.invariant hstart (step_owning hwf hnode hid)
  exact (step_respects hwf hnode hid howning hrouted hstep).1.changes howning.isWf howning.keys
    hchanged

end Runs

/-! ## Two shards -/

/-- The nodes of a cluster of two shards. -/
def pairNodes : List NodeInfo :=
  [lit "n1", lit "n2"].map fun id => ⟨id, lit "10.0.0.1", 7300, by decide⟩

/-- Its shards, one for each node. -/
def pairShards : List ShardInfo := [⟨lit "s2", lit "n2", []⟩, ⟨lit "s1", lit "n1", []⟩]

/-- One of its nodes, before the first request. -/
def pairNode (id : GoString) : Replica Unit := .start {
  cache := (WfCache.new 10).cache
  aof := []
  trigger := .new 2
  state := .clusterState sha256Hash ⟨id, pairNodes, pairShards⟩ none ⟨∅⟩
  ps := .new
  world := () }

private theorem wellFormed_pair : WellFormed pairNodes pairShards :=
  ⟨by decide, by decide, by decide, by decide⟩

/-- The key with the name of the first virtual node of a shard belongs to the shard. -/
private theorem getShard_s1 (id : GoString) :
    ((Config.mk id pairNodes pairShards).clusterRing sha256Hash).getShard sha256Hash
      (lit "s1-0") = .ok (lit "s1") := by
  have hlaid := laidOut_clusterRing sha256Hash ⟨id, pairNodes, pairShards⟩
  have hat : sha256Hash (lit "s1-0").bytes ∈ shardPositions sha256Hash 150 (lit "s1") :=
    ⟨0, by decide, congrArg sha256Hash (by decide)⟩
  have howner : owner sha256Hash 150 ([lit "s2"] ++ [lit "s1"]) (sha256Hash (lit "s1-0").bytes) =
      some (lit "s1") := owner_concat_of_mem hat
  exact hlaid.responsible_of_owner howner

private theorem leads_n1 : Leads sha256Hash ⟨lit "n1", pairNodes, pairShards⟩ (lit "s1-0") :=
  ⟨⟨lit "s1", lit "n1", []⟩, by decide, getShard_s1 _, rfl⟩

/-- A key has one leader. -/
private theorem leads_unique {key : GoString}
    (h : Leads sha256Hash ⟨lit "n1", pairNodes, pairShards⟩ key) :
    ¬ Leads sha256Hash ⟨lit "n2", pairNodes, pairShards⟩ key := by
  rintro ⟨shard', hshard', hget', hleader'⟩
  obtain ⟨shard, hshard, hget, hleader⟩ := h
  have hid : shard.shardID = shard'.shardID := Except.ok.inj (hget.symm.trans hget')
  have hsame : shard = shard' := wellFormed_pair.shardID_inj hshard hshard' hid
  rw [hsame, hleader'] at hleader
  exact absurd hleader (by decide)

/-- The leader of a key sets it in a transaction. -/
theorem ownership_respected_leader :
    ∃ s s' : Replica Unit,
      Reaches (Replica.step noNetwork sha256Hash)
        (StaysInShard sha256Hash ⟨lit "n1", pairNodes, pairShards⟩) (pairNode (lit "n1")) s ∧
      s.step noNetwork sha256Hash (asks ["EXEC"]) = some s' ∧
      find? (lit "s1-0") s'.node.cache.entries ≠ find? (lit "s1-0") s.node.cache.entries ∧
      Leads sha256Hash ⟨lit "n1", pairNodes, pairShards⟩ (lit "s1-0") := by
  have hrun : ((pairNode (lit "n1")).step noNetwork sha256Hash (asks ["MULTI"])).any fun s₁ =>
      (s₁.step noNetwork sha256Hash (asks ["SET", "s1-0", "v"])).any fun s =>
        writesEmptyKey (s₁.clients 1) [lit "SET", lit "s1-0", lit "v"] = false ∧
        runsWrites sha256Hash s₁.node (s₁.clients 1) [lit "SET", lit "s1-0", lit "v"] = false ∧
        (s.clients 1).commandQueue.map keyOf = [some (lit "s1-0")] ∧
        writesEmptyKey (s.clients 1) [lit "EXEC"] = false ∧
        find? (lit "s1-0") s.node.cache.entries = none ∧
        (s.step noNetwork sha256Hash (asks ["EXEC"])).any fun s' =>
          find? (lit "s1-0") s'.node.cache.entries = some ⟨lit "v", 0⟩ := by
    decide +kernel
  obtain ⟨s₁, hmulti, hrun⟩ := Option.any_eq_true _ _ |>.mp hrun
  obtain ⟨s, hset, hrun⟩ := Option.any_eq_true _ _ |>.mp hrun
  obtain ⟨hempty₁, hruns₁, hqueue, hempty, hbefore, hrun⟩ := of_decide_eq_true hrun
  obtain ⟨s', hexec, hafter⟩ := Option.any_eq_true _ _ |>.mp hrun
  have hafter := of_decide_eq_true hafter
  have hfirst : StaysInShard sha256Hash ⟨lit "n1", pairNodes, pairShards⟩ (pairNode (lit "n1"))
      (asks ["MULTI"]) := by
    refine ⟨rfl, fun h => ?_, fun h => ?_⟩ <;> cases h
  have hsecond : StaysInShard sha256Hash ⟨lit "n1", pairNodes, pairShards⟩ s₁
      (asks ["SET", "s1-0", "v"]) :=
    ⟨rfl, fun h => absurd (hempty₁.symm.trans h) Bool.false_ne_true,
      fun h => absurd (hruns₁.symm.trans h) Bool.false_ne_true⟩
  have hreach : Reaches (Replica.step noNetwork sha256Hash)
      (StaysInShard sha256Hash ⟨lit "n1", pairNodes, pairShards⟩) (pairNode (lit "n1")) s :=
    .step _ (.step _ .refl hfirst hmulti) hsecond hset
  -- the queue of the transaction holds the one command, of a key the node leads
  have hthird : StaysInShard sha256Hash ⟨lit "n1", pairNodes, pairShards⟩ s (asks ["EXEC"]) := by
    refine ⟨rfl, fun h => absurd (hempty.symm.trans h) Bool.false_ne_true,
      fun _ cmd hcmd _ key hkey => ?_⟩
    have hmem : some key ∈ (s.clients 1).commandQueue.map keyOf :=
      List.mem_map.mpr ⟨cmd, hcmd, hkey⟩
    rw [hqueue, List.mem_singleton, Option.some.injEq] at hmem
    rw [hmem]
    exact leads_n1
  have hchanged : find? (lit "s1-0") s'.node.cache.entries ≠
      find? (lit "s1-0") s.node.cache.entries := by
    rw [hafter, hbefore]
    exact Option.some_ne_none _
  have hstart : Owning sha256Hash ⟨lit "n1", pairNodes, pairShards⟩ (pairNode (lit "n1")) :=
    ⟨⟨none, ⟨∅⟩, rfl⟩, WfCache.isWf _, .inl fun k hk => absurd hk Finmap.notMem_empty⟩
  exact ⟨s, s', hreach, hexec, hchanged,
    ownership_respected sha256Hash noNetwork pairNodes pairShards wellFormed_pair
      ⟨lit "n1", lit "10.0.0.1", 7300, by decide⟩ (by decide) (by decide) _ s s' hstart hreach 1 _
      _ hthird hexec _ hchanged⟩

/-- The other node sets a key of the first shard in a transaction, and one of the two
    sets the empty key although it does not lead its shard. -/
theorem foreign_keys_written :
    (∃ s s' : Replica Unit,
      Reaches (Replica.step noNetwork sha256Hash) (fun _ _ => True) (pairNode (lit "n2")) s ∧
      s.step noNetwork sha256Hash (asks ["EXEC"]) = some s' ∧
      find? (lit "s1-0") s.node.cache.entries = none ∧
      find? (lit "s1-0") s'.node.cache.entries = some ⟨lit "v", 0⟩ ∧
      ¬ Leads sha256Hash ⟨lit "n2", pairNodes, pairShards⟩ (lit "s1-0")) ∧
    ∃ id ∈ [lit "n1", lit "n2"], ∃ s' : Replica Unit,
      (pairNode id).step noNetwork sha256Hash (asks ["SET", "", "v"]) = some s' ∧
      find? GoString.empty (pairNode id).node.cache.entries = none ∧
      find? GoString.empty s'.node.cache.entries = some ⟨lit "v", 0⟩ ∧
      ¬ Leads sha256Hash ⟨id, pairNodes, pairShards⟩ GoString.empty := by
  constructor
  · have hrun : (runAll (Replica.step noNetwork sha256Hash) (fun _ _ => True)
        (pairNode (lit "n2")) [asks ["MULTI"], asks ["SET", "s1-0", "v"]]).any (fun s =>
          find? (lit "s1-0") s.node.cache.entries = none ∧
          (s.step noNetwork sha256Hash (asks ["EXEC"])).any fun s' =>
            find? (lit "s1-0") s'.node.cache.entries = some ⟨lit "v", 0⟩) = true := by
      decide +kernel
    obtain ⟨s, _, hreach, hcheck⟩ := exists_reaches_of_any hrun
    obtain ⟨hbefore, hnext⟩ := of_decide_eq_true hcheck
    obtain ⟨s', hstep, hafter⟩ := Option.any_eq_true _ _ |>.mp hnext
    exact ⟨s, s', hreach, hstep, hbefore, of_decide_eq_true hafter, leads_unique leads_n1⟩
  · have hset : ∀ id ∈ [lit "n1", lit "n2"],
        find? GoString.empty (pairNode id).node.cache.entries = none ∧
        ((pairNode id).step noNetwork sha256Hash (asks ["SET", "", "v"])).any fun s' =>
          find? GoString.empty s'.node.cache.entries = some ⟨lit "v", 0⟩ := by
      decide +kernel
    have hwrites : ∀ id ∈ [lit "n1", lit "n2"], ∃ s' : Replica Unit,
        (pairNode id).step noNetwork sha256Hash (asks ["SET", "", "v"]) = some s' ∧
        find? GoString.empty (pairNode id).node.cache.entries = none ∧
        find? GoString.empty s'.node.cache.entries = some ⟨lit "v", 0⟩ := by
      intro id hid
      obtain ⟨hbefore, hnext⟩ := hset id hid
      obtain ⟨s', hstep, hafter⟩ := Option.any_eq_true _ _ |>.mp hnext
      exact ⟨s', hstep, hbefore, of_decide_eq_true hafter⟩
    -- whichever of them leads the shard of the empty key, the other does not
    by_cases hleads : Leads sha256Hash ⟨lit "n1", pairNodes, pairShards⟩ GoString.empty
    · obtain ⟨s', hstep, hbefore, hafter⟩ := hwrites (lit "n2") (by decide)
      exact ⟨lit "n2", by decide, s', hstep, hbefore, hafter, leads_unique hleads⟩
    · obtain ⟨s', hstep, hbefore, hafter⟩ := hwrites (lit "n1") (by decide)
      exact ⟨lit "n1", by decide, s', hstep, hbefore, hafter, hleads⟩

end GoCache.Spec
