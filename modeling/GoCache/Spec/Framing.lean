import GoCache.Spec.ClusterReplies
import GoCache.Spec.CrashFreedom
import GoCache.Spec.Routing

/-!
# A reply for every request

A client that sends requests without waiting tells their replies apart by counting
RESP values. It stays in step if every reply is one value, or one for each channel
that `SUBSCRIBE` or `UNSUBSCRIBE` names. `InStep` lists what this takes: nothing that
a reply quotes may contain a line feed, and the handler has to reply at all.

## Key results

- `values_handleCommand`: the values of a reply
- `replies_in_step`: every request of every run
-/

namespace GoCache.Spec

open GoCache.Native Transition

/-- The number of values that a client expects for a request. -/
def expectedValues (st : ConnectionState) : List GoString → Nat
  | name :: args =>
    if (name = lit "SUBSCRIBE" ∨ name = lit "UNSUBSCRIBE") ∧ args ≠ [] ∧
        st.inTransaction = false then args.length
    else 1
  | [] => 1

/-- The nodes that a client may be sent to can be quoted on a line. -/
structure PlainTargets (ns : NodeState) : Prop where
  leaders : ∀ hr shardID id, ns.hashRing = some hr → hr.getShardLeader shardID = .ok id →
    isPlain id
  addresses : ∀ config node, ns.config = some config → node ∈ config.nodes → isPlain node.addr

/-- A loop over the channels of a connection goes through each of them once. -/
def EnumeratesOnce (choices : Choices) : Prop :=
  ∀ channels, (choices.channels channels).Nodup ∧
    ∀ channel, channel ∈ choices.channels channels ↔ channel ∈ channels

/-- The reply to the request has the values that the client expects: the request can
    be answered, an `UNSUBSCRIBE` from all channels finds one, and what is quoted is
    plain. -/
structure InStep {ω : Type} (net : Network ω) (hash : Bytes → UInt32) (conn : ConnID)
    (n : ServerNode ω) (st : ConnectionState) (choices : Choices) (request : List GoString) :
    Prop where
  safe : requestSafe net hash conn n st (strs request) = true
  unsubscribe : request = [lit "UNSUBSCRIBE"] → st.inTransaction = false →
    (n.ps.channelSet conn).card = 1
  name : st.inTransaction = false → st.subscriberMode = false →
    ∀ name, request.head? = some name → isPlain name
  exec : request.head? = some (lit "EXEC") →
    16 * st.commandQueue.length ≤ maxAlloc ∧ ∀ cmd ∈ st.commandQueue, plainCommand cmd
  targets : PlainTargets n.state
  cluster : ∀ args, request = lit "CLUSTER" :: args → ClusterPlain n choices args

/-! ## One request -/

section Requests

variable {ω : Type} {net : Network ω} {hash : Bytes → UInt32} {conn : ConnID}
  {n n' : ServerNode ω} {st st' : ConnectionState} {choices : Choices} {reply : Bytes}
  {name : GoString} {args : List GoString}

private theorem plain_addrOf {config : Config} (h : ∀ node ∈ config.nodes, isPlain node.addr)
    (nodeID : GoString) : isPlain (config.addrOf nodeID) := by
  unfold Config.addrOf
  split
  · next node hfind => exact h node (List.mem_of_find?_eq_some hfind)
  · decide

/-- A request is sent to a leader at its address in the configuration. -/
private theorem plain_shouldForwardRequest {ns : NodeState} (h : PlainTargets ns) {key : GoString}
    {isWrite : Bool} {target : GoString × GoString}
    (hforward : ns.shouldForwardRequest hash key isWrite = some target) :
    isPlain target.1 ∧ isPlain target.2 := by
  obtain ⟨hr, config, shardID, hring, hconfig, -, hleader, haddr, -⟩ :=
    shouldForwardRequest_eq_some hforward
  rw [haddr]
  exact ⟨h.leaders hr shardID target.1 hring hleader,
    plain_addrOf (fun node hmem => h.addresses config node hconfig hmem) target.1⟩

private theorem value_movedTo (h : PlainTargets n.state) {command : Value} {key : GoString}
    {moved : Bytes} (hmoved : movedTo (n.server hash) command key = some moved) :
    IsValue moved := by
  unfold movedTo at hmoved
  split at hmoved
  · obtain ⟨target, hforward, rfl⟩ := Option.map_eq_some_iff.mp hmoved
    obtain ⟨hid, haddr⟩ := plain_shouldForwardRequest h hforward
    have hpre : LineOf 8 (ascii "MOVED ") := by decide
    have hspace : LineOf 1 (ascii " ") := by decide
    exact value_encodeError ((((hpre.append hid).append hspace).append haddr).mono (by decide))
  · exact nomatch hmoved

/-- From all channels of a connection that has one. -/
private theorem values_unsubscribeAll (honce : EnumeratesOnce choices) {ps ps' : PubSub}
    {finished : Bool} (hone : (ps.channelSet conn).card = 1)
    (h : unsubscribeLoop conn ((choices.channels (ps.channelSet conn)).map .str) ps =
      .ok (reply, finished, ps')) : AreValues 1 reply := by
  have hlen : (choices.channels (ps.channelSet conn)).length = 1 := by
    obtain ⟨hnodup, hmem⟩ := honce (ps.channelSet conn)
    rw [← hone, ← List.toFinset_card_of_nodup hnodup]
    congr 1
    ext channel
    rw [List.mem_toFinset, hmem]
  have hvalues := values_unsubscribeLoop _ h
  rwa [hlen] at hvalues

/-- A request that no transaction queues. -/
private theorem values_dispatch (hnet : PlainErrors net) (honce : EnumeratesOnce choices)
    (hc : IsWf n.cache) (hstep : InStep net hash conn n st choices (name :: args))
    (hname : isPlain name)
    (hin : st.inTransaction = true → name = lit "EXEC" ∨ name = lit "DISCARD")
    (hsafe : dispatchSafe net hash conn n st (.str name) (strs args) = true)
    (h : n.dispatch handleExec net hash conn st choices (.str name) (strs (name :: args)) =
      .ok (reply, n', st')) : AreValues (expectedValues st (name :: args)) reply := by
  -- the pub/sub and cluster commands are not sent in a transaction
  have hout : name ≠ lit "EXEC" → name ≠ lit "DISCARD" → st.inTransaction = false := by
    intro hexec hdiscard
    cases hb : st.inTransaction with
    | false => rfl
    | true => exact absurd (hin hb) (not_or.mpr ⟨hexec, hdiscard⟩)
  have hone : isCommand (.str name) "SUBSCRIBE" = false →
      isCommand (.str name) "UNSUBSCRIBE" = false → IsValue reply →
        AreValues (expectedValues st (name :: args)) reply := by
    intro hsub hunsub hvalue
    have hcount : expectedValues st (name :: args) = 1 := by
      refine if_neg fun hchannels => ?_
      rcases hchannels.1 with rfl | rfl
      · exact absurd hsub (by decide)
      · exact absurd hunsub (by decide)
    rw [hcount]
    exact hvalue.one
  cases dispatch_outcome h with
  | subscribe hname hhandle =>
    cases isCommand_iff.mp hname
    unfold handleSubscribe at hhandle
    cases args with
    | nil =>
      cases hhandle
      exact (value_encodeError (by decide)).one
    | cons channel channels =>
      obtain ⟨⟨r, finished, ps₁⟩, hloop, hhandle⟩ := bind_eq_ok.mp hhandle
      cases hhandle
      have hcount : expectedValues st (lit "SUBSCRIBE" :: channel :: channels) =
          (channel :: channels).length :=
        if_pos ⟨.inl rfl, List.cons_ne_nil _ _, hout (by decide) (by decide)⟩
      rw [hcount]
      exact values_subscribeLoop (channel :: channels) hloop
  | unsubscribe hname hhandle =>
    cases isCommand_iff.mp hname
    have hb := hout (by decide) (by decide)
    unfold handleUnsubscribe at hhandle
    cases args with
    | nil =>
      obtain ⟨⟨r, finished, ps₁⟩, hloop, hhandle⟩ := bind_eq_ok.mp hhandle
      cases hhandle
      exact values_unsubscribeAll honce (hstep.unsubscribe rfl hb) hloop
    | cons channel channels =>
      obtain ⟨⟨r, finished, ps₁⟩, hloop, hhandle⟩ := bind_eq_ok.mp hhandle
      cases hhandle
      have hcount : expectedValues st (lit "UNSUBSCRIBE" :: channel :: channels) =
          (channel :: channels).length := if_pos ⟨.inr rfl, List.cons_ne_nil _ _, hb⟩
      rw [hcount]
      exact values_unsubscribeLoop (channel :: channels) hloop
  | publish hname hhandle =>
    cases isCommand_iff.mp hname
    exact hone rfl rfl (value_handlePublish hhandle)
  | cluster hname hhandle =>
    cases isCommand_iff.mp hname
    refine hone rfl rfl (value_handleClusterCommand hnet hc (fun id rest hr hargs hring => ?_)
      (hstep.cluster args rfl) hhandle)
    subst hargs
    -- `REMOVENODE` can be answered only if the node is in the ring
    have hclustersafe : removeNodeSafe n.state (strs (id :: rest)) = true := hsafe
    simp only [List.map_cons, removeNodeSafe, hring, Option.any_some] at hclustersafe
    exact of_decide_eq_true hclustersafe
  | moved hsub hunsub hmoved => exact hone hsub hunsub (value_movedTo hstep.targets hmoved)
  | exec hexec hhandle =>
    cases isCommand_iff.mp hexec
    obtain ⟨hle, hplain⟩ := hstep.exec rfl
    exact hone rfl rfl (value_handleExec hplain hle hhandle)
  | switch hsub hunsub hexec hswitch =>
    refine hone hsub hunsub (value_switchCommand hexec (fun name' heq => ?_) hswitch)
    cases heq
    exact hname

private theorem plain_allowedSubscribed (h : allowedSubscribed (.str name) = true) :
    isPlain name := by
  simp only [allowedSubscribed, List.any_cons, List.any_nil, Bool.or_false, Bool.or_eq_true,
    isCommand_iff, Value.str.injEq] at h
  rcases h with rfl | rfl | rfl | rfl | rfl | rfl <;> decide

private theorem expectedValues_inTransaction (hin : st.inTransaction = true) :
    expectedValues st (name :: args) = 1 :=
  if_neg fun hchannels => Bool.false_ne_true (hchannels.2.2.symm.trans hin)

/-- A request that can be answered, when it gets to its handler. -/
private theorem dispatchSafe_of_requestSafe
    (hallowed : st.subscriberMode = true → allowedSubscribed (.str name) = true)
    (hcontrol : st.inTransaction = true → name = lit "EXEC" ∨ name = lit "DISCARD")
    (h : requestSafe net hash conn n st (strs (name :: args)) = true) :
    dispatchSafe net hash conn n st (.str name) (strs args) = true := by
  change (if st.subscriberMode && !allowedSubscribed (.str name) then true else _) = true at h
  have hnot : ¬(st.subscriberMode && !allowedSubscribed (.str name)) = true := by
    intro hrefused
    obtain ⟨hmode, hname⟩ := Bool.and_eq_true_iff.mp hrefused
    rw [hallowed hmode] at hname
    exact nomatch hname
  rw [if_neg hnot] at h
  cases hin : st.inTransaction with
  | false =>
    rw [hin] at h
    exact h
  | true =>
    rw [hin] at h
    dsimp only at h
    rwa [if_pos (hcontrol hin)] at h

/-- The reply to a request has the values that the client expects. -/
theorem values_handleCommand (hnet : PlainErrors net) (honce : EnumeratesOnce choices)
    (hc : IsWf n.cache) {request : List GoString}
    (hstep : InStep net hash conn n st choices request)
    (h : n.handleCommand handleExec net hash conn st choices (strs request) =
      .ok (reply, n', st')) : AreValues (expectedValues st request) reply := by
  cases request with
  | nil => exact nomatch h
  | cons name args =>
    cases handleCommand_outcome h with
    | refused hmode hrefused =>
      -- a subscriber may send `SUBSCRIBE` and `UNSUBSCRIBE`
      have hcount : expectedValues st (name :: args) = 1 := by
        refine if_neg fun hchannels => ?_
        rcases hchannels.1 with rfl | rfl
        · exact absurd hrefused (by decide)
        · exact absurd hrefused (by decide)
      rw [hcount]
      exact (value_encodeError (by decide)).one
    | queued hin =>
      rw [expectedValues_inTransaction hin]
      exact (value_queueCommandForTransaction _ _ _).one
    | notQueued hin _ hcan =>
      rw [expectedValues_inTransaction hin]
      exact (value_notQueued hcan).one
    | dispatched hallowed hcontrol h =>
      have hname : isPlain name := by
        cases hmode : st.subscriberMode with
        | true => exact plain_allowedSubscribed (hallowed hmode)
        | false =>
          cases hin : st.inTransaction with
          | true => rcases hcontrol hin with rfl | rfl <;> decide
          | false => exact hstep.name hin hmode name rfl
      exact values_dispatch hnet honce hc hstep hname hcontrol
        (dispatchSafe_of_requestSafe hallowed hcontrol hstep.safe) h

end Requests

/-! ## Runs -/

/-- A connection to a node. -/
structure Pipeline (ω : Type) where
  node : ServerNode ω
  st : ConnectionState

/-- A request of the client, or what else goes on at the node. -/
inductive PipelineStep (ω : Type) where
  | request (choices : Choices) (request : List GoString)
  | elsewhere (n : ServerNode ω)

section Runs

variable {ω : Type} (net : Network ω) (hash : Bytes → UInt32) (conn : ConnID)

/-- One step; none if there is no reply. -/
def Pipeline.step (s : Pipeline ω) : PipelineStep ω → Option (Pipeline ω)
  | .request choices request =>
    match s.node.handleCommand handleExec net hash conn s.st choices (strs request) with
    | .ok (_, n, st) => some ⟨n, st⟩
    | .error _ => none
  | .elsewhere n => some { s with node := n }

/-- The client sends what can be replied to in step, and the node keeps serving. -/
def Pipeline.Meets (s : Pipeline ω) : PipelineStep ω → Prop
  | .request choices request =>
    EnumeratesOnce choices ∧ InStep net hash conn s.node s.st choices request
  | .elsewhere n => Serving hash n

variable {net hash conn}

private theorem EnumeratesOnce.enumerates {choices : Choices} (h : EnumeratesOnce choices) :
    EnumeratesChannels choices := fun channels => (h channels).2

private theorem Pipeline.step_invariant (hnet : AnswersAll net) (s : Pipeline ω)
    (a : PipelineStep ω) (s' : Pipeline ω) (hinv : Serving hash s.node ∧ Queued s.st)
    (hmeets : s.Meets net hash conn a) (hstep : s.step net hash conn a = some s') :
    Serving hash s'.node ∧ Queued s'.st := by
  cases a with
  | elsewhere n =>
    cases hstep
    exact ⟨hmeets, hinv.2⟩
  | request choices request =>
    obtain ⟨honce, hinstep⟩ := hmeets
    obtain ⟨r, hhandle, -, hserving, hqueued⟩ :=
      (handleCommand_settles hnet honce.enumerates hinv.1 hinv.2 _).ends hinstep.safe
    simp only [Pipeline.step, hhandle] at hstep
    cases hstep
    exact ⟨hserving, hqueued⟩

/-- Along every run of a connection whose requests can be replied to in step, whatever
    else goes on at the node: a further such request is replied to, and the reply is
    read as the number of values that the client expects, whatever follows it. -/
theorem replies_in_step (hnet : AnswersAll net) (herrors : PlainErrors net) {n : ServerNode ω}
    (hn : Started hash n) {s : Pipeline ω}
    (hreach : Reaches (Pipeline.step net hash conn) (Pipeline.Meets net hash conn) ⟨n, .new⟩ s)
    (choices : Choices) (request : List GoString)
    (hmeets : s.Meets net hash conn (.request choices request)) :
    ∃ reply n' st', s.node.handleCommand handleExec net hash conn s.st choices (strs request) =
        .ok (reply, n', st') ∧
      ∃ vs, vs.length = expectedValues s.st request ∧
        ∀ rest, parseElements parse (expectedValues s.st request) (reply ++ rest) =
          .ok vs rest := by
  have hnew : Queued ConnectionState.new := fun cmd hcmd => absurd hcmd List.not_mem_nil
  have hinv : Serving hash s.node ∧ Queued s.st := by
    apply hreach.invariant
    · exact ⟨hn.serving, hnew⟩
    · exact fun s a s' hinv hmeets hstep => Pipeline.step_invariant hnet s a s' hinv hmeets hstep
  obtain ⟨honce, hinstep⟩ := hmeets
  obtain ⟨⟨reply, n', st'⟩, hhandle, -⟩ :=
    (handleCommand_settles hnet honce.enumerates hinv.1 hinv.2 _).returns hinstep.safe
  exact ⟨reply, n', st', hhandle,
    (values_handleCommand herrors honce hinv.1.cache hinstep hhandle).reads⟩

end Runs

/-! ## A node of a cluster -/

section Cluster

variable {hash : Bytes → UInt32}

/-- The ring that a node of a cluster starts with. -/
theorem nodeRing_clusterRing (config : Config) : NodeRing hash (config.clusterRing hash) := by
  have hshards : ∀ (shards : List ShardInfo) (hr : HashRing), NodeRing hash hr →
      NodeRing hash (shards.foldl (Config.addShardInfo hash) hr) := by
    intro shards
    induction shards with
    | nil => exact fun hr h => h
    | cons shard shards ih =>
      intro hr h
      apply ih
      exact ⟨(h.built.addShard _).setShardNodes _ _,
        (addShard_virtualNodes hash hr _).trans h.virtualNodes⟩
  have hnodes : ∀ (nodes : List NodeInfo) (hr : HashRing), NodeRing hash hr →
      NodeRing hash (nodes.foldl (fun hr node => hr.setNodeAddress node.id node.addr) hr) := by
    intro nodes
    induction nodes with
    | nil => exact fun hr h => h
    | cons node nodes ih => exact fun hr h => ih _ (h.setNodeAddress node.id node.addr)
  exact hnodes _ _ (hshards _ _ ⟨.new 150, rfl⟩)

/-- The leaders that a ring knows can be quoted on a line. -/
private def PlainLeaders (hr : HashRing) : Prop :=
  ∀ shardID id, hr.getShardLeader shardID = .ok id → isPlain id

private theorem PlainLeaders.addShardInfo {hr : HashRing} (h : PlainLeaders hr)
    {shard : ShardInfo} (hleader : isPlain shard.leaderID) :
    PlainLeaders (Config.addShardInfo hash hr shard) := by
  intro shardID id hid
  unfold HashRing.getShardLeader HashRing.getShardNodes at hid
  rw [addShardInfo_shardToNodes] at hid
  by_cases heq : shardID = shard.shardID
  · rw [heq, Finmap.lookup_insert] at hid
    cases hid
    exact hleader
  · rw [Finmap.lookup_insert_of_ne _ heq] at hid
    exact h shardID id hid

/-- A node with a configuration that can be quoted starts with plain targets. -/
theorem plainTargets_clusterState {config : Config} (leader : Option Leader) (hc : HealthChecker)
    (hleaders : ∀ shard ∈ config.shards, isPlain shard.leaderID)
    (haddresses : ∀ node ∈ config.nodes, isPlain node.addr) :
    PlainTargets (NodeState.clusterState hash config leader hc) where
  leaders hr shardID id hring hid := by
    have hshards : ∀ (shards : List ShardInfo) (hr : HashRing), PlainLeaders hr →
        (∀ shard ∈ shards, isPlain shard.leaderID) →
        PlainLeaders (shards.foldl (Config.addShardInfo hash) hr) := by
      intro shards
      induction shards with
      | nil => exact fun hr h _ => h
      | cons shard shards ih =>
        intro hr h hplain
        exact ih _ (h.addShardInfo (hplain shard List.mem_cons_self))
          fun s hs => hplain s (List.mem_cons_of_mem _ hs)
    have hnodes : ∀ (nodes : List NodeInfo) (hr : HashRing), PlainLeaders hr →
        PlainLeaders (nodes.foldl (fun hr node => hr.setNodeAddress node.id node.addr) hr) := by
      intro nodes
      induction nodes with
      | nil => exact fun hr h => h
      | cons node nodes ih => exact fun hr h => ih _ h
    have hnew : PlainLeaders (HashRing.new 150) := fun _ _ hnone => nomatch hnone
    cases hring
    exact hnodes _ _ (hshards _ _ hnew hleaders) shardID id hid
  addresses c node hconfig hmem := by
    cases hconfig
    exact haddresses node hmem

end Cluster

/-- The only node of a cluster. -/
def soleLeader : ServerNode Unit where
  cache := Cache.new 10
  aof := []
  trigger := .new 2
  state := NodeState.clusterState sha256Hash ⟨lit "n1",
    [⟨lit "n1", lit "localhost", 7000, by decide⟩], [⟨lit "s1", lit "n1", []⟩]⟩ none ⟨∅⟩
  ps := .new
  world := ()

private theorem started_soleLeader : Started sha256Hash soleLeader where
  cache := (WfCache.new 10).isWf
  ps := rfl
  mode := .inr ⟨_, _, rfl, nodeRing_clusterRing _, rfl⟩

/-- Two channels are confirmed by two values. -/
theorem replies_in_step_subscribe :
    ∃ reply n' st', soleLeader.handleCommand handleExec noNetwork sha256Hash 1 .new someChoices
        (strs [lit "SUBSCRIBE", lit "a", lit "b"]) = .ok (reply, n', st') ∧
      ∃ vs, vs.length = 2 ∧ ∀ rest, parseElements parse 2 (reply ++ rest) = .ok vs rest := by
  have hnet : AnswersAll noNetwork := fun _ _ _ _ _ hwrite => nomatch hwrite
  have hline : LineOf (maxAlloc / 4) [] := by decide
  have herrors : PlainErrors noNetwork := by
    constructor
    · intro world addr text _ hdial
      cases hdial
      exact hline
    · intro world addr cmd text _ hwrite
      cases hwrite
      exact hline
  have honce : EnumeratesOnce someChoices := fun channels =>
    ⟨channels.nodup_toList, fun _ => Finset.mem_toList⟩
  have hinstep : InStep noNetwork sha256Hash 1 soleLeader .new someChoices
      [lit "SUBSCRIBE", lit "a", lit "b"] := by
    refine ⟨by rfl, fun heq => ?_, fun _ _ name hname => ?_, fun hexec => ?_,
      plainTargets_clusterState _ _ ?_ ?_, fun args heq => ?_⟩
    · exact nomatch heq
    · cases hname
      decide
    · exact absurd hexec (by decide)
    · decide
    · decide
    · exact absurd (congrArg List.head? heq) (by simp; decide)
  exact replies_in_step hnet herrors started_soleLeader .refl someChoices
    [lit "SUBSCRIBE", lit "a", lit "b"] ⟨honce, hinstep⟩

/-- An `UNSUBSCRIBE` from all of no channels has no reply. -/
private theorem unsubscribe_silent {ω : Type} {n : ServerNode ω} (net : Network ω)
    (hash : Bytes → UInt32) (hps : n.ps = .new) :
    ∃ n' st', n.handleCommand handleExec net hash 1 .new someChoices (strs [lit "UNSUBSCRIBE"]) =
      .ok ([], n', st') := by
  have hchannels : someChoices.channels (PubSub.new.channelSet 1) = [] := Finset.toList_empty
  have hsilent : handleUnsubscribe 1 someChoices.channels .new .new (strs [lit "UNSUBSCRIBE"]) =
      .ok ([], .new, .new) := by
    show (unsubscribeLoop 1 ((someChoices.channels (PubSub.new.channelSet 1)).map .str) .new >>=
      _) = _
    rw [hchannels]
    rfl
  refine ⟨{ n with ps := .new }, .new, ?_⟩
  show (handleUnsubscribe 1 someChoices.channels n.ps .new (strs [lit "UNSUBSCRIBE"]) >>= _) = _
  rw [hps, hsilent]
  rfl

/-- A command that is not known is quoted with its line break, so that a second value
    is left over behind the first; and an `UNSUBSCRIBE` may have no reply. -/
theorem replies_out_of_step :
    Started sha256Hash soleLeader ∧ soleLeader.state.role = .leader ∧
      soleLeader.state.isClusterMode = true ∧
      (∃ reply n' st', soleLeader.handleCommand handleExec noNetwork sha256Hash 1 .new
          someChoices (strs [lit "X\r\n+OK"]) = .ok (reply, n', st') ∧
        parse reply = .ok (.str (lit "ERR Unknown command 'X")) (ascii "+OK'\r\n")) ∧
      ∃ n' st', soleLeader.handleCommand handleExec noNetwork sha256Hash 1 .new
        someChoices (strs [lit "UNSUBSCRIBE"]) = .ok ([], n', st') := by
  have hquoted : (soleLeader.handleCommand handleExec noNetwork sha256Hash 1 .new someChoices
      (strs [lit "X\r\n+OK"])).map Prod.fst =
        .ok (ascii "-ERR Unknown command 'X\r\n+OK'\r\n") := by
    decide +kernel
  have hparse : parse (ascii "-ERR Unknown command 'X\r\n+OK'\r\n") =
      .ok (.str (lit "ERR Unknown command 'X")) (ascii "+OK'\r\n") := rfl
  obtain ⟨⟨reply, n', st'⟩, hhandle, hreply⟩ := map_eq_ok.mp hquoted
  have hreply : reply = ascii "-ERR Unknown command 'X\r\n+OK'\r\n" := hreply
  rw [← hreply] at hparse
  exact ⟨started_soleLeader, by decide +kernel, by decide +kernel,
    ⟨reply, n', st', hhandle, hparse⟩, unsubscribe_silent noNetwork sha256Hash rfl⟩

end GoCache.Spec
