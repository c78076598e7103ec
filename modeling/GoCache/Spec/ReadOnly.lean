import GoCache.Spec.TransactionRuns

/-!
# Clients of a follower

`handleSet` and `handleDelete` look at the role of the node, and nothing else does:
`EXEC` on a follower executes and logs the writes of a transaction, and a
migration that a client asks for deletes the keys it has transferred. All other
requests leave the entries of the cache and the log as they are, on any number of
connections and whatever the replication stream does between them.

## Key results

- `handleExec_effect`: `EXEC` logs exactly if a write is queued
- `handleCommand_effect`: one request
- `follower_read_only`: every request of every run
-/

namespace GoCache.Spec

open GoCache.Native Recency Transition

/-! ## Effects -/

/-- What is done to a cache. Only what `writes` may change its entries: a read
    changes their order. -/
structure CacheEffect (writes : Bool) (c c' : Cache) : Prop where
  isWf : IsWf c'
  entries : writes = false → ∀ k, find? k c'.entries = find? k c.entries

/-- What is done to a log: it grows exactly by what `writes`. -/
structure LogEffect (writes : Bool) (aof aof' : Bytes) : Prop where
  unchanged : writes = false → aof' = aof
  grows : writes = true → aof.length < aof'.length

section Effects

variable {writes writes' : Bool} {c c₁ c' : Cache} {aof aof₁ aof' : Bytes}

theorem CacheEffect.refl (hc : IsWf c) : CacheEffect writes c c := ⟨hc, fun _ _ => rfl⟩

/-- A call that writes. -/
theorem CacheEffect.of_isWf (hc : IsWf c') : CacheEffect true c c' :=
  ⟨hc, fun h => nomatch h⟩

theorem CacheEffect.trans (h : CacheEffect writes c c₁) (h' : CacheEffect writes' c₁ c') :
    CacheEffect (writes || writes') c c' where
  isWf := h'.isWf
  entries hnone k := by
    obtain ⟨hfirst, hsecond⟩ := Bool.or_eq_false_iff.mp hnone
    rw [h'.entries hsecond, h.entries hfirst]

/-- A read. -/
theorem CacheEffect.get {key : GoString} {now : Time} {result : GoString × Bool} (hc : IsWf c)
    (h : c.get key now = .ok (result, c')) : CacheEffect writes c c' := by
  obtain ⟨w, rfl⟩ := hc
  rw [w.cache_get] at h
  cases h
  exact ⟨WfCache.isWf _, fun _ k => congrFun (w.item?_get key now) k⟩

theorem CacheOutcome.effect {errors : List Bytes} {now : Time} {cmd : List Value} {reply : Bytes}
    (h : CacheOutcome writes errors now cmd c reply c') (hc : IsWf c) :
    CacheEffect writes c c' := by
  cases h with
  | refused => exact .refl hc
  | set hwrites _ hset =>
    rw [hwrites]
    exact .of_isWf (hc.set hset)
  | get hget => exact .get hc hget
  | delete hwrites _ hdelete =>
    rw [hwrites]
    exact .of_isWf (hc.delete hdelete)

theorem LogEffect.of_eq (h : aof' = aof) : LogEffect false aof aof' :=
  ⟨fun _ => h, fun hnone => nomatch hnone⟩

theorem LogEffect.refl : LogEffect false aof aof := .of_eq rfl

theorem LogEffect.append {records : Bytes} (h : records ≠ []) :
    LogEffect true aof (aof ++ records) where
  unchanged hnone := nomatch hnone
  grows _ := by
    have hpos := List.length_pos_iff.mpr h
    rw [List.length_append]
    omega

theorem LogEffect.length_le (h : LogEffect writes aof aof') : aof.length ≤ aof'.length := by
  cases writes with
  | false => rw [h.unchanged rfl]
  | true => exact Nat.le_of_lt (h.grows rfl)

theorem LogEffect.trans (h : LogEffect writes aof aof₁) (h' : LogEffect writes' aof₁ aof') :
    LogEffect (writes || writes') aof aof' where
  unchanged hnone := by
    obtain ⟨hfirst, hsecond⟩ := Bool.or_eq_false_iff.mp hnone
    rw [h'.unchanged hsecond, h.unchanged hfirst]
  grows hsome := by
    have hfirst := h.length_le
    have hsecond := h'.length_le
    rcases Bool.or_eq_true_iff.mp hsome with hwrites | hwrites
    · have hgrows := h.grows hwrites
      omega
    · have hgrows := h'.grows hwrites
      omega

end Effects

/-! ## `EXEC` -/

/-- An `EXEC` executes a command that writes. -/
def executesWrites (st : ConnectionState) : Bool :=
  st.inTransaction && st.transactionError.isNone && st.commandQueue.any isWrite

section Exec

variable {c c' : Cache} {s s' : Server} {cmd : List Value}

/-- One turn of the first loop. -/
private theorem executeCommand_effect {now : Time} {response : Bytes} (hc : IsWf c)
    (h : executeCommand c now cmd = .ok (response, c')) : CacheEffect (isWrite cmd) c c' := by
  cases executeCommand_outcome h with
  | cache h => exact h.effect hc
  | ping | unknown => exact .refl hc

private theorem executeQueue_effect {clock : Nat → Time} {i : Nat} {queue : List (List Value)}
    {responses : List Bytes} (hc : IsWf c)
    (h : executeQueue clock i c queue = .ok (responses, c')) :
    CacheEffect (queue.any isWrite) c c' := by
  induction queue generalizing i c responses with
  | nil =>
    cases h
    exact .refl hc
  | cons cmd queue ih =>
    rw [executeQueue_cons] at h
    obtain ⟨⟨response, c₁⟩, hfirst, h⟩ := bind_eq_ok.mp h
    obtain ⟨⟨rest, c₂⟩, hrest, h⟩ := bind_eq_ok.mp h
    cases h
    have heffect := executeCommand_effect hc hfirst
    rw [List.any_cons]
    exact heffect.trans (ih heffect.isWf hrest)

private theorem logged_effect (s : Server) (r : Record) :
    ((s.replicate r).append r).cache = s.cache ∧
      LogEffect true s.aof ((s.replicate r).append r).aof := by
  have haof : ((s.replicate r).append r).aof = s.aof ++ r.encode := by
    unfold Server.append Server.replicate
    split <;> rfl
  rw [haof]
  exact ⟨cache_persist s r, .append (encode_ne_nil r)⟩

/-- One turn of the second loop. -/
private theorem persistCommand_effect (h : persistCommand s cmd = .ok s') :
    s'.cache = s.cache ∧ LogEffect (isWrite cmd) s.aof s'.aof := by
  unfold persistCommand at h
  split at h
  · next command args =>
    split at h
    · next hset =>
      have hwrite : isWrite (.str command :: args) = true := by simp [isWrite, hset]
      rw [hwrite]
      split at h
      · obtain ⟨key, -, h⟩ := bind_eq_ok.mp h
        obtain ⟨value, -, h⟩ := bind_eq_ok.mp h
        obtain ⟨ttl, -, h⟩ := bind_eq_ok.mp h
        cases h
        exact logged_effect s _
      · cases h
    split at h
    · next hdel =>
      have hwrite : isWrite (.str command :: args) = true := by simp [isWrite, hdel]
      rw [hwrite]
      split at h
      · obtain ⟨key, -, h⟩ := bind_eq_ok.mp h
        cases h
        exact logged_effect s _
      · cases h
    · next hset hdel =>
      have hread : isWrite (.str command :: args) = false := by simp [isWrite, hset, hdel]
      cases h
      rw [hread]
      exact ⟨rfl, .refl⟩
  · cases h

theorem foldlM_persistCommand_effect {queue : List (List Value)}
    (h : queue.foldlM persistCommand s = .ok s') :
    s'.cache = s.cache ∧ LogEffect (queue.any isWrite) s.aof s'.aof := by
  induction queue generalizing s with
  | nil =>
    cases h
    exact ⟨rfl, .refl⟩
  | cons cmd queue ih =>
    rw [List.foldlM_cons] at h
    obtain ⟨s₁, hfirst, h⟩ := bind_eq_ok.mp h
    obtain ⟨hcache, hlog⟩ := persistCommand_effect hfirst
    obtain ⟨hcache', hlog'⟩ := ih h
    rw [List.any_cons]
    exact ⟨hcache'.trans hcache, hlog.trans hlog'⟩

/-- `EXEC` logs exactly if a write is queued, and changes the entries only then. -/
theorem handleExec_effect {st st' : ConnectionState} {clock : Nat → Time} {reply : Bytes}
    (hc : IsWf s.cache) (h : handleExec s st clock = .ok (reply, s', st')) :
    CacheEffect (executesWrites st) s.cache s'.cache ∧
      LogEffect (executesWrites st) s.aof s'.aof := by
  rw [handleExec_eq] at h
  split at h
  · next hout =>
    have hnone : executesWrites st = false := by simp_all [executesWrites]
    cases h
    rw [hnone]
    exact ⟨.refl hc, .refl⟩
  next hin =>
  split at h
  · next text herr =>
    have hnone : executesWrites st = false := by simp [executesWrites, herr]
    cases h
    rw [hnone]
    exact ⟨.refl hc, .refl⟩
  · next herr =>
    have hqueue : executesWrites st = st.commandQueue.any isWrite := by
      simp_all [executesWrites]
    obtain ⟨⟨results, c₁⟩, hexecute, h⟩ := bind_eq_ok.mp h
    obtain ⟨s₁, hpersist, h⟩ := bind_eq_ok.mp h
    cases h
    obtain ⟨hcache, hlog⟩ := foldlM_persistCommand_effect hpersist
    rw [hqueue, hcache]
    exact ⟨executeQueue_effect hc hexecute, hlog⟩

end Exec

/-! ## Immediate commands -/

/-- On a follower, no immediate command writes. -/
private theorem switchCommand_effect {s s' : Server} {st st' : ConnectionState} {reply : Bytes}
    {clock : Nat → Time} {command : Value} {resultSlice : List Value}
    (hrole : s.role = .follower) (hc : IsWf s.cache) (hexec : isCommand command "EXEC" = false)
    (h : switchCommand s st clock command resultSlice = .ok (reply, s', st')) :
    CacheEffect false s.cache s'.cache ∧ s'.aof = s.aof := by
  have hself : CacheEffect false s.cache s.cache ∧ s.aof = s.aof := ⟨.refl hc, rfl⟩
  cases switchCommand_outcome hexec h with
  | set _ hset =>
    have hrefused : handleSet s (clock 0) resultSlice = .ok (readOnly, s) := if_pos hrole
    rw [hrefused] at hset
    cases hset
    exact hself
  | get _ hget =>
    obtain ⟨hget, haof⟩ := handleGet_outcome hget
    exact ⟨hget.effect hc, haof⟩
  | delete _ hdelete =>
    have hrefused : handleDelete s resultSlice = .ok (readOnly, s) := if_pos hrole
    rw [hrefused] at hdelete
    cases hdelete
    exact hself
  | dbSize | ping | multi | discard | unknown => exact hself

/-! ## Cluster commands -/

/-- The first argument of `ADDNODE` is a node that is not in the ring. -/
def joins (ns : NodeState) : List GoString → Bool
  | nodeID :: _ :: _ => ns.hashRing.any fun hr => nodeID ∉ hr.getAllNodes
  | _ => false

/-- The first argument of `REMOVENODE` is a node of the ring. -/
def leaves (ns : NodeState) : List GoString → Bool
  | nodeID :: _ => ns.hashRing.any fun hr => nodeID ∈ hr.getAllNodes
  | [] => false

/-- A `CLUSTER` command that starts a migration. -/
def migrates (ns : NodeState) : List GoString → Bool
  | command :: subcommand :: args =>
    command = lit "CLUSTER" && ns.migrator &&
      (subcommand = lit "ADDNODE" && joins ns args ||
        subcommand = lit "REMOVENODE" && leaves ns args)
  | _ => false

/-- What a request does to a node: which part of it may write. -/
structure NodeEffect {ω : Type} (writes logs : Bool) (n n' : ServerNode ω) : Prop where
  cache : CacheEffect writes n.cache n'.cache
  log : LogEffect logs n.aof n'.aof
  role : n'.state.role = n.state.role

section Cluster

variable {ω : Type} {net : Network ω} {hash : Bytes → UInt32} {n n' : ServerNode ω}
  {sched : Schedule} {reply : Bytes} {command subcommand : GoString} {args : List GoString}

/-- A cluster command does not touch the log. Without a migration it does not touch
    the cache. -/
structure Unlogged (moves : Bool) (n n' : ServerNode ω) : Prop where
  cache : moves = false → n'.cache = n.cache
  aof : n'.aof = n.aof
  role : n'.state.role = n.state.role

private theorem Unlogged.refl {moves : Bool} : Unlogged moves n n := ⟨fun _ => rfl, rfl, rfl⟩

private theorem Unlogged.migrated {moves : Bool} {c : Cache} {hr : HashRing} {world : ω}
    (hmoves : moves = true) : Unlogged moves n (migrated n c hr world) :=
  ⟨fun h => (nomatch hmoves.symm.trans h), rfl, rfl⟩

private theorem AddNodeOutcome.unlogged
    (h : AddNodeOutcome net hash n sched (strs (command :: subcommand :: args)) reply n') :
    Unlogged (n.state.migrator && joins n.state args) n n' := by
  have hjoins : ∀ {cmd sub : Value} {id addr : GoString} {rest : List Value} {hr : HashRing},
      strs (command :: subcommand :: args) = cmd :: sub :: .str id :: .str addr :: rest →
      n.state.hashRing = some hr → id ∉ hr.getAllNodes → n.state.migrator = true →
        (n.state.migrator && joins n.state args) = true := by
    intro cmd sub id addr rest hr hcommand hring hnew hmigrator
    match args, hcommand with
    | _ :: _ :: _, hcommand =>
      cases hcommand
      simp [joins, hring, hmigrator, hnew]
  cases h with
  | usage | present | unreachable => exact .refl
  | uninitialized => exact ⟨fun _ => rfl, rfl, rfl⟩
  | failed hcommand hring hnew hmigrator =>
    exact .migrated (hjoins hcommand hring hnew hmigrator)
  | added hcommand hring hnew hmigrator =>
    exact .migrated (hjoins hcommand hring hnew hmigrator)

private theorem RemoveNodeOutcome.unlogged
    (h : RemoveNodeOutcome net hash n sched (strs (command :: subcommand :: args)) reply n') :
    Unlogged (n.state.migrator && leaves n.state args) n n' := by
  have hleaves : ∀ {cmd sub : Value} {id : GoString} {rest : List Value} {hr : HashRing},
      strs (command :: subcommand :: args) = cmd :: sub :: .str id :: rest →
      n.state.hashRing = some hr → id ∈ hr.getAllNodes → n.state.migrator = true →
        (n.state.migrator && leaves n.state args) = true := by
    intro cmd sub id rest hr hcommand hring hmem hmigrator
    match args, hcommand with
    | _ :: _, hcommand =>
      cases hcommand
      simp [leaves, hring, hmigrator, hmem]
  cases h with
  | usage | absent | uninitialized => exact .refl
  | failed hcommand hring hmem hmigrator =>
    exact .migrated (hleaves hcommand hring hmem hmigrator)
  | removed hcommand hring hmem hmigrator =>
    exact .migrated (hleaves hcommand hring hmem hmigrator)

private theorem TopologyOutcome.unlogged {moves : Bool} (h : TopologyOutcome n reply n') :
    Unlogged moves n n' := by
  cases h with
  | usage | unknown => exact .refl
  | changed => exact ⟨fun _ => rfl, rfl, rfl⟩

private theorem handleClusterCommand_unlogged {choices : Choices}
    (h : handleClusterCommand net hash n choices (strs (lit "CLUSTER" :: args)) =
      .ok (reply, n')) : Unlogged (migrates n.state (lit "CLUSTER" :: args)) n n' := by
  cases handleClusterCommand_outcome h with
  | usage | unknown | nodes | health => exact .refl
  | topology _ htopology => exact htopology.unlogged
  | addNode hcommand hadd =>
    match args, hcommand with
    | _ :: args, hcommand =>
      cases hcommand
      have hmoves : migrates n.state (lit "CLUSTER" :: lit "ADDNODE" :: args) =
          (n.state.migrator && joins n.state args) := by
        simp [migrates, show lit "ADDNODE" ≠ lit "REMOVENODE" by decide]
      rw [hmoves]
      exact hadd.unlogged
  | removeNode hcommand hremove =>
    match args, hcommand with
    | _ :: args, hcommand =>
      cases hcommand
      have hmoves : migrates n.state (lit "CLUSTER" :: lit "REMOVENODE" :: args) =
          (n.state.migrator && leaves n.state args) := by
        simp [migrates, show lit "REMOVENODE" ≠ lit "ADDNODE" by decide]
      rw [hmoves]
      exact hremove.unlogged

end Cluster

/-! ## Requests -/

section Requests

variable {ω : Type} (hash : Bytes → UInt32)

/-- An `EXEC` that gets to its handler executes a command that writes. -/
def runsWrites (n : ServerNode ω) (st : ConnectionState) (request : List GoString) : Bool :=
  request.head? = some (lit "EXEC") && !st.subscriberMode && !redirected hash n request &&
    executesWrites st

/-- A `CLUSTER` command that gets to its handler starts a migration. -/
def startsMigration (n : ServerNode ω) (st : ConnectionState) (request : List GoString) : Bool :=
  !st.subscriberMode && !st.inTransaction && migrates n.state request

variable {hash} {net : Network ω} {conn : ConnID} {n n' : ServerNode ω}
  {st st' : ConnectionState} {choices : Choices} {reply : Bytes} {name : GoString}
  {args : List GoString}

private theorem NodeEffect.refl {writes : Bool} (hc : IsWf n.cache) :
    NodeEffect writes false n n := ⟨.refl hc, .refl, rfl⟩

private theorem Unlogged.effect {moves : Bool} (h : Unlogged moves n n') (hc : IsWf n'.cache) :
    NodeEffect moves false n n' where
  cache := ⟨hc, fun hmoves _ => by rw [h.cache hmoves]⟩
  log := .of_eq h.aof
  role := h.role

/-- A request that no transaction queues. -/
private theorem dispatch_effect (hrole : n.state.role = .follower) (hc : IsWf n.cache)
    (h : n.dispatch handleExec net hash conn st choices (.str name) (strs (name :: args)) =
      .ok (reply, n', st')) :
    NodeEffect (decide (name = lit "EXEC") && !redirected hash n (name :: args) &&
        executesWrites st || migrates n.state (name :: args))
      (decide (name = lit "EXEC") && !redirected hash n (name :: args) && executesWrites st)
      n n' := by
  by_cases hexec : name = lit "EXEC"
  · subst hexec
    have hmigrates : migrates n.state (lit "EXEC" :: args) = false := by
      cases args <;> simp [migrates, show lit "EXEC" ≠ lit "CLUSTER" by decide]
    rw [hmigrates, Bool.or_false]
    cases hred : redirected hash n (lit "EXEC" :: args) with
    | true =>
      obtain ⟨moved, hmoved⟩ := dispatch_redirected (.inl rfl) hred
      rw [hmoved] at h
      cases h
      exact .refl hc
    | false =>
      rw [dispatch_direct (.inl rfl) hred, switchCommand_eq, if_pos (by decide)] at h
      obtain ⟨⟨r, s, t⟩, hhandle, h⟩ := bind_eq_ok.mp h
      cases h
      obtain ⟨hcache, hlog⟩ := handleExec_effect hc hhandle
      exact ⟨hcache, hlog, rfl⟩
  rw [decide_eq_false hexec, Bool.false_and, Bool.false_and, Bool.false_or]
  cases dispatch_outcome h with
  | subscribe | unsubscribe | publish => exact ⟨.refl hc, .refl, rfl⟩
  | cluster hname hhandle =>
    cases isCommand_iff.mp hname
    exact (handleClusterCommand_unlogged hhandle).effect (isWf_handleClusterCommand hc hhandle)
  | moved => exact .refl hc
  | exec hname => exact absurd (Value.str.inj (isCommand_iff.mp hname)) hexec
  | switch _ _ hname hswitch =>
    obtain ⟨hcache, haof⟩ := switchCommand_effect hrole hc hname hswitch
    exact ⟨⟨hcache.isWf, fun _ => hcache.entries rfl⟩, .of_eq haof, rfl⟩

/-- A subscriber sends neither `EXEC` nor a `CLUSTER` command. -/
theorem allowedSubscribed_ne (h : allowedSubscribed (.str name) = true) :
    name ≠ lit "EXEC" ∧ name ≠ lit "CLUSTER" := by
  constructor
  all_goals
    intro heq
    rw [heq] at h
    exact absurd h (by decide)

/-- A request of a client of a follower. -/
theorem handleCommand_effect {request : List GoString} (hrole : n.state.role = .follower)
    (hc : IsWf n.cache)
    (h : n.handleCommand handleExec net hash conn st choices (strs request) =
      .ok (reply, n', st')) :
    NodeEffect (runsWrites hash n st request || startsMigration n st request)
      (runsWrites hash n st request) n n' := by
  cases request with
  | nil => exact nomatch h
  | cons name args =>
    cases handleCommand_outcome h with
    | refused hmode =>
      have hnone : runsWrites hash n st (name :: args) = false := by simp [runsWrites, hmode]
      rw [hnone]
      exact .refl hc
    | queued _ hcontrol =>
      have hnone : runsWrites hash n st (name :: args) = false := by
        simp [runsWrites, (not_or.mp hcontrol).1]
      rw [hnone]
      exact .refl hc
    | notQueued _ hcontrol =>
      have hnone : runsWrites hash n st (name :: args) = false := by
        simp [runsWrites, (not_or.mp hcontrol).1]
      rw [hnone]
      exact .refl hc
    | dispatched hallowed hcontrol h =>
      have hruns : runsWrites hash n st (name :: args) =
          (decide (name = lit "EXEC") && !redirected hash n (name :: args) &&
            executesWrites st) := by
        cases hmode : st.subscriberMode with
        | false => simp [runsWrites, hmode]
        | true => simp [runsWrites, hmode, (allowedSubscribed_ne (hallowed hmode)).1]
      have hmigration : startsMigration n st (name :: args) = migrates n.state (name :: args) := by
        by_cases hcluster : name = lit "CLUSTER"
        · -- a subscriber does not send it, and in a transaction it is not dispatched
          subst hcluster
          have hmode : st.subscriberMode = false :=
            Bool.eq_false_iff.mpr fun hmode => (allowedSubscribed_ne (hallowed hmode)).2 rfl
          have hin : st.inTransaction = false :=
            Bool.eq_false_iff.mpr fun hin => absurd (hcontrol hin) (by decide)
          simp [startsMigration, hmode, hin]
        · cases args <;> simp [startsMigration, migrates, hcluster]
      rw [hruns, hmigration]
      exact dispatch_effect hrole hc h

end Requests

/-! ## Runs -/

/-- A follower with its clients. -/
structure Replica (ω : Type) where
  node : ServerNode ω
  clients : ConnID → ConnectionState

/-- A client sends a request or closes its connection, or the replication stream
    gives the cache and the log whatever state it likes. -/
inductive ReplicaStep where
  | request (conn : ConnID) (choices : Choices) (request : List GoString)
  | close (conn : ConnID) (choices : Choices)
  | stream (c : WfCache) (aof : Bytes)

section Runs

variable {ω : Type} (net : Network ω) (hash : Bytes → UInt32)

/-- A follower without clients. -/
def Replica.start (n : ServerNode ω) : Replica ω := ⟨n, fun _ => .new⟩

/-- One step; none if the process ends or the goroutine waits for ever. -/
def Replica.step (s : Replica ω) : ReplicaStep → Option (Replica ω)
  | .request conn choices request =>
    match s.node.handleCommand handleExec net hash conn (s.clients conn) choices
        (strs request) with
    | .ok (_, n, st) => some ⟨n, Function.update s.clients conn st⟩
    | .error _ => none
  | .close conn choices =>
    match s.node.closeConnection conn choices with
    | .ok n => some ⟨n, Function.update s.clients conn .new⟩
    | .error _ => none
  | .stream c aof => some { s with node := { s.node with cache := c.cache, aof := aof } }

variable {net hash}

/-- A request that is answered. -/
private theorem Replica.step_request {s s' : Replica ω} {conn : ConnID} {choices : Choices}
    {request : List GoString} (hrole : s.node.state.role = .follower) (hc : IsWf s.node.cache)
    (hstep : s.step net hash (.request conn choices request) = some s') :
    NodeEffect (runsWrites hash s.node (s.clients conn) request ||
        startsMigration s.node (s.clients conn) request)
      (runsWrites hash s.node (s.clients conn) request) s.node s'.node := by
  simp only [Replica.step] at hstep
  split at hstep
  · next reply n st hhandle =>
    cases hstep
    exact handleCommand_effect hrole hc hhandle
  · exact nomatch hstep

/-- The node stays a follower. -/
private theorem Replica.step_invariant (s : Replica ω) (a : ReplicaStep) (s' : Replica ω)
    (hinv : s.node.state.role = .follower ∧ IsWf s.node.cache)
    (hstep : s.step net hash a = some s') :
    s'.node.state.role = .follower ∧ IsWf s'.node.cache := by
  obtain ⟨hrole, hc⟩ := hinv
  cases a with
  | request conn choices request =>
    have heffect := Replica.step_request hrole hc hstep
    exact ⟨heffect.role.trans hrole, heffect.cache.isWf⟩
  | close conn choices =>
    simp only [Replica.step] at hstep
    split at hstep
    · next n hclose =>
      obtain ⟨ps, -, hn⟩ := bind_eq_ok.mp hclose
      cases hn
      cases hstep
      exact ⟨hrole, hc⟩
    · exact nomatch hstep
  | stream c aof =>
    cases hstep
    exact ⟨hrole, c.isWf⟩

/-- However the requests of any number of clients and the replication stream are
    interleaved: a request that neither runs writes of a transaction nor starts a
    migration leaves the entries of the cache and the log as they are, and one that
    runs writes changes the log. -/
theorem follower_read_only {n : ServerNode ω} (hrole : n.state.role = .follower)
    (hc : IsWf n.cache) {s s' : Replica ω}
    (hreach : Reaches (Replica.step net hash) (fun _ _ => True) (Replica.start n) s)
    (conn : ConnID) (choices : Choices) (request : List GoString)
    (hstep : s.step net hash (.request conn choices request) = some s') :
    (runsWrites hash s.node (s.clients conn) request = false →
      startsMigration s.node (s.clients conn) request = false →
        (∀ k, find? k s'.node.cache.entries = find? k s.node.cache.entries) ∧
          s'.node.aof = s.node.aof) ∧
      (runsWrites hash s.node (s.clients conn) request = true →
        s'.node.aof ≠ s.node.aof) := by
  have hinv : s.node.state.role = .follower ∧ IsWf s.node.cache :=
    hreach.invariant ⟨hrole, hc⟩ fun s a s' hinv _ => Replica.step_invariant s a s' hinv
  have heffect := Replica.step_request hinv.1 hinv.2 hstep
  constructor
  · intro hruns hmigration
    refine ⟨heffect.cache.entries ?_, heffect.log.unchanged hruns⟩
    rw [hruns, hmigration]
    rfl
  · intro hruns heq
    have hgrows := heffect.log.grows hruns
    rw [heq] at hgrows
    omega

end Runs

/-! ## A follower without a cluster -/

/-- A follower that has one entry. -/
def loneFollower : ServerNode Unit where
  cache := ((WfCache.new 10).set (lit "k") (lit "v") 0 0).cache
  aof := []
  trigger := .new 2
  state := ⟨.follower, none, none, none, false, none⟩
  ps := .new
  world := ()

/-- A request on the first connection. -/
def asks (args : List String) : ReplicaStep := .request 1 (request args).1 (request args).2

/-- The `EXEC` of a transaction that reads. -/
theorem follower_read_only_get :
    ∃ s s' : Replica Unit,
      Reaches (Replica.step noNetwork fun _ => 0) (fun _ _ => True) (.start loneFollower) s ∧
      (s.clients 1).commandQueue.length = 1 ∧
      s.step noNetwork (fun _ => 0) (asks ["EXEC"]) = some s' ∧
      find? (lit "k") s'.node.cache.entries = some ⟨lit "v", 0⟩ ∧ s'.node.aof = [] := by
  have hrun : (runAll (Replica.step noNetwork fun _ => 0) (fun _ _ => True)
      (.start loneFollower) [asks ["MULTI"], asks ["GET", "k"]]).any (fun s =>
        (s.clients 1).commandQueue.length = 1 ∧
        runsWrites (fun _ => 0) s.node (s.clients 1) [lit "EXEC"] = false ∧
        find? (lit "k") s.node.cache.entries = some ⟨lit "v", 0⟩ ∧ s.node.aof = [] ∧
        (s.step noNetwork (fun _ => 0) (asks ["EXEC"])).isSome) = true := by
    decide +kernel
  obtain ⟨s, _, hreach, hcheck⟩ := exists_reaches_of_any hrun
  obtain ⟨hqueue, hruns, hentry, haof, hsome⟩ := of_decide_eq_true hcheck
  obtain ⟨s', hstep⟩ := Option.isSome_iff_exists.mp hsome
  have hsame := (follower_read_only rfl (WfCache.isWf _) hreach 1 _ [lit "EXEC"] hstep).1 hruns
    (by simp [startsMigration, migrates])
  exact ⟨s, s', hreach, hqueue, hstep, (hsame.1 _).trans hentry, hsame.2.trans haof⟩

/-- A client of a follower writes in a transaction. -/
theorem follower_executes_writes :
    ∃ s s' : Replica Unit,
      Reaches (Replica.step noNetwork fun _ => 0) (fun _ _ => True) (.start loneFollower) s ∧
      s.node.state.role = .follower ∧ find? (lit "new") s.node.cache.entries = none ∧
      s.node.aof = [] ∧ s.step noNetwork (fun _ => 0) (asks ["EXEC"]) = some s' ∧
      s'.node.state.role = .follower ∧
      find? (lit "new") s'.node.cache.entries = some ⟨lit "w", 0⟩ ∧
      s'.node.aof = Record.encode (.set (lit "new") (lit "w") 0) := by
  have hrun : (runAll (Replica.step noNetwork fun _ => 0) (fun _ _ => True)
      (.start loneFollower) [asks ["MULTI"], asks ["SET", "new", "w"]]).any (fun s =>
        s.node.state.role = .follower ∧ find? (lit "new") s.node.cache.entries = none ∧
        s.node.aof = [] ∧
        (s.step noNetwork (fun _ => 0) (asks ["EXEC"])).any fun s' =>
          s'.node.state.role = .follower ∧
          find? (lit "new") s'.node.cache.entries = some ⟨lit "w", 0⟩ ∧
          s'.node.aof = Record.encode (.set (lit "new") (lit "w") 0)) = true := by
    decide +kernel
  obtain ⟨s, _, hreach, hcheck⟩ := exists_reaches_of_any hrun
  obtain ⟨hrole, hnone, haof, hnext⟩ := of_decide_eq_true hcheck
  obtain ⟨s', hstep, hcheck'⟩ := Option.any_eq_true _ _ |>.mp hnext
  obtain ⟨hrole', hentry, haof'⟩ := of_decide_eq_true hcheck'
  exact ⟨s, s', hreach, hrole, hnone, haof, hstep, hrole', hentry, haof'⟩

end GoCache.Spec
