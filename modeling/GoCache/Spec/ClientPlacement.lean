import GoCache.Spec.ClientTopology
import GoCache.Spec.ClusterReplies
import GoCache.Spec.Topology

/-!
# Where a cluster client looks for a key

The nodes of a cluster report each other as alive, suspected or dead. The cluster
client puts nodes on its ring that are reported as active.

## Key results

- `fields_nodeLine`: the client reads what the servers write
- `cluster_client_finds_nobody`: its ring stays empty
-/

namespace GoCache.Spec

open GoCache.Native

/-! ## Text without white space -/

/-- There is no white space in the text. -/
def NoSpace (s : Bytes) : Prop := ∀ rune ∈ spaceRunes, ¬ rune <:+: s

section Space

variable {s t : Bytes} {b : UInt8}

theorem runeWidth_eq_zero {runes : List Bytes} (h : ∀ rune ∈ runes, ¬ rune <+: s) :
    runeWidth runes s = 0 := by
  have hfind : runes.find? (fun rune => rune.isPrefixOf s) = none := by
    rw [List.find?_eq_none]
    intro rune hrune hpre
    exact h rune hrune (List.isPrefixOf_iff_prefix.mp hpre)
  rw [runeWidth, hfind]

/-- White space is not torn by what follows, unless that goes on in the middle of a
    rune. -/
theorem clear_of_noSpace (h : NoSpace s) (ht : ∀ b ∈ t.head?, b < 0x80) :
    Words.Clear (runeWidth spaceRunes) s t := by
  have htail : ∀ rune ∈ spaceRunes, ∀ b ∈ rune.tail, 0x80 ≤ b := by decide +kernel
  intro u v huv hv
  apply runeWidth_eq_zero
  intro rune hrune hpre
  rcases Nat.le_total rune.length v.length with hle | hle
  · have hin := List.prefix_of_prefix_length_le hpre (List.prefix_append v t) hle
    exact h rune hrune (huv ▸ hin.isInfix.trans (List.suffix_append u v).isInfix)
  · -- otherwise the rune has an ASCII byte in the middle
    obtain ⟨w, rfl⟩ := List.prefix_of_prefix_length_le (List.prefix_append v t) hpre hle
    rw [List.prefix_append_right_inj] at hpre
    cases w with
    | nil => exact h v (by rwa [List.append_nil] at hrune) (huv ▸ (List.suffix_append u v).isInfix)
    | cons b w =>
      obtain ⟨t', rfl⟩ := hpre
      have hhigh := htail _ hrune b (by
        rw [List.tail_append_of_ne_nil hv]
        exact List.mem_append_right _ List.mem_cons_self)
      exact absurd (ht b rfl) (UInt8.not_lt.mpr hhigh)

/-- A byte with which no rune of white space begins. -/
def Plain (b : UInt8) : Prop := ∀ rune ∈ spaceRunes, rune.head? ≠ some b

instance (b : UInt8) : Decidable (Plain b) := inferInstanceAs (Decidable (∀ rune ∈ spaceRunes, _))

theorem clear_of_plain (h : ∀ b ∈ s, Plain b) : Words.Clear (runeWidth spaceRunes) s t := by
  have hne : ∀ rune ∈ spaceRunes, rune ≠ [] := by decide +kernel
  intro u v huv hv
  apply runeWidth_eq_zero
  intro rune hrune hpre
  obtain ⟨b, v', rfl⟩ := List.exists_cons_of_ne_nil hv
  obtain ⟨c, rune', rfl⟩ := List.exists_cons_of_ne_nil (hne rune hrune)
  rw [List.cons_append, List.cons_prefix_cons] at hpre
  refine h b ?_ _ hrune (congrArg some hpre.1)
  rw [huv]
  exact List.mem_append_right _ List.mem_cons_self

end Space

/-! ## The reply of `CLUSTER NODES` -/

/-- A node whose ID is a word, and whose host has no white space: all that a line of the
    reply can carry. -/
structure Listable (node : NodeInfo) : Prop where
  id_ne_nil : node.id.bytes ≠ []
  id : NoSpace node.id.bytes
  host : NoSpace node.host.bytes

/-- The line for a node. -/
def nodeLine (node : NodeInfo) (status : NodeStatus) : Bytes :=
  node.id.bytes ++ ([0x20] ++ (node.addr.bytes ++ ([0x20] ++ status.string)))

section Line

variable {node : NodeInfo} {status : NodeStatus}

private theorem plain_itoa {n : Int64} {b : UInt8} (hb : b ∈ itoa n) : Plain b := by
  obtain ⟨hlo, hhi⟩ := Decimal.formatInt_range hb
  have hall : ∀ b : UInt8, 45 ≤ b → b ≤ 57 → Plain b := by decide +kernel
  exact hall b hlo hhi

private theorem clear_addr (h : Listable node) (t : Bytes) :
    Words.Clear (runeWidth spaceRunes) node.addr.bytes t := by
  refine Words.Clear.append (clear_of_noSpace h.host ?_) (clear_of_plain ?_)
  · rintro b ⟨⟩
    decide
  · intro b hb
    rcases List.mem_cons.mp hb with rfl | hb
    · decide +kernel
    · exact plain_itoa hb

private theorem plain_string (status : NodeStatus) : ∀ b ∈ status.string, Plain b := by
  cases status <;> decide +kernel

/-- The client reads what the servers write. -/
theorem fields_nodeLine (h : Listable node) :
    fields (nodeLine node status) = [node.id.bytes, node.addr.bytes, status.string] := by
  have hspace : ∀ b ∈ ([0x20] ++ (node.addr.bytes ++ ([0x20] ++ status.string))).head?,
      b < 0x80 := by
    rintro b ⟨⟩
    decide
  have haddr : node.addr.bytes ≠ [] :=
    List.append_ne_nil_of_right_ne_nil _ (List.cons_ne_nil _ _)
  have hstatus : status.string ≠ [] := by cases status <;> decide
  unfold fields nodeLine
  rw [Words.fields_cons h.id_ne_nil (clear_of_noSpace h.id hspace) (List.cons_ne_nil _ _) rfl,
    Words.fields_cons haddr (clear_addr h _) (List.cons_ne_nil _ _) rfl,
    Words.fields_word hstatus (clear_of_plain (plain_string status))]

/-- A line begins with no white space. -/
private theorem runeWidth_nodeLine (h : Listable node) (status : NodeStatus) (t : Bytes) :
    runeWidth spaceRunes (nodeLine node status ++ t) = 0 := by
  have hspace : ∀ b ∈ ([0x20] ++ (node.addr.bytes ++ ([0x20] ++ status.string)) ++ t).head?,
      b < 0x80 := by
    rintro b ⟨⟩
    decide
  unfold nodeLine
  rw [List.append_assoc]
  exact clear_of_noSpace h.id hspace [] _ rfl h.id_ne_nil

/-- A text that ends with a line ends with no white space. -/
private theorem runeWidth_reverse (s : Bytes) (node : NodeInfo) (status : NodeStatus) :
    runeWidth (spaceRunes.map List.reverse) (s ++ nodeLine node status).reverse = 0 := by
  unfold nodeLine
  rw [← List.append_assoc, ← List.append_assoc, ← List.append_assoc, ← List.append_assoc,
    List.reverse_append]
  cases status <;> rfl

private theorem newline_notMem (s : Bytes) (h : NoSpace s) : byte '\n' ∉ s := by
  intro hmem
  refine h [0x0A] (by decide +kernel) ?_
  rwa [List.singleton_infix_iff]

private theorem newline_notMem_nodeLine (h : Listable node) :
    byte '\n' ∉ nodeLine node status := by
  have hstatus : byte '\n' ∉ status.string := by cases status <;> decide
  have haddr : byte '\n' ∉ node.addr.bytes := by
    unfold NodeInfo.addr
    rw [List.mem_append, List.mem_cons, not_or, not_or]
    exact ⟨newline_notMem _ h.host, by decide, newline_notMem_itoa node.port⟩
  unfold nodeLine
  simp only [List.mem_append, not_or]
  exact ⟨newline_notMem _ h.id, by decide, haddr, by decide, hstatus⟩

private theorem trimSpace_nodeLine (h : Listable node) :
    trimSpace (nodeLine node status) = nodeLine node status := by
  have hhead := runeWidth_nodeLine h status []
  have hlast := runeWidth_reverse [] node status
  rw [List.append_nil] at hhead
  rw [List.nil_append] at hlast
  unfold trimSpace
  rw [Words.trimLoop_of_width hhead, Words.trimLoop_of_width hlast, List.reverse_reverse]

end Line

section Reply

variable {nodes : List NodeInfo} (status : NodeInfo → NodeStatus)

/-- The text of the reply. -/
def nodesText (nodes : List NodeInfo) : Bytes :=
  nodes.flatMap fun node => nodeLine node (status node) ++ [byte '\n']

/-- The lines of a reply. -/
theorem nodesText_eq (hne : nodes ≠ []) :
    nodesText status nodes =
      [byte '\n'].intercalate (nodes.map fun node => nodeLine node (status node)) ++ [byte '\n'] ∧
    ∃ before node, [byte '\n'].intercalate (nodes.map fun node => nodeLine node (status node)) =
      before ++ nodeLine node (status node) := by
  induction nodes with
  | nil => exact absurd rfl hne
  | cons node nodes ih =>
    cases nodes with
    | nil => exact ⟨by simp [nodesText, List.intercalate], [], node, by simp [List.intercalate]⟩
    | cons node' nodes =>
      obtain ⟨htext, before, last, hlast⟩ := ih (List.cons_ne_nil _ _)
      have hjoin : [byte '\n'].intercalate
          ((node :: node' :: nodes).map fun node => nodeLine node (status node)) =
          nodeLine node (status node) ++ ([byte '\n'] ++ [byte '\n'].intercalate
            ((node' :: nodes).map fun node => nodeLine node (status node))) := by
        simp [List.intercalate]
      rw [hjoin]
      constructor
      · rw [nodesText, List.flatMap_cons, ← nodesText, htext]
        simp only [List.append_assoc]
      · refine ⟨nodeLine node (status node) ++ ([byte '\n'] ++ before), last, ?_⟩
        rw [hlast]
        simp only [List.append_assoc]

/-- The client finds the lines again. -/
theorem splitOn_trimSpace_nodesText (hne : nodes ≠ []) (h : ∀ node ∈ nodes, Listable node) :
    (trimSpace (nodesText status nodes)).splitOn (byte '\n') =
      nodes.map fun node => nodeLine node (status node) := by
  obtain ⟨htext, before, last, hlast⟩ := nodesText_eq status hne
  have hhead : runeWidth spaceRunes (nodesText status nodes) = 0 := by
    obtain ⟨node, rest, rfl⟩ := List.exists_cons_of_ne_nil hne
    rw [nodesText, List.flatMap_cons, List.append_assoc]
    exact runeWidth_nodeLine (h node List.mem_cons_self) _ _
  have htrim : trimSpace (nodesText status nodes) =
      [byte '\n'].intercalate (nodes.map fun node => nodeLine node (status node)) := by
    have hbody := runeWidth_reverse before last (status last)
    have hnewline : ∀ t, Words.trimLoop (runeWidth (spaceRunes.map List.reverse)) 0
        ([byte '\n'].reverse ++ t) =
          Words.trimLoop (runeWidth (spaceRunes.map List.reverse)) 0 t :=
      fun t => Words.trimLoop_append (by decide) rfl
    unfold trimSpace
    rw [Words.trimLoop_of_width hhead, htext, List.reverse_append, hnewline, hlast,
      Words.trimLoop_of_width hbody, List.reverse_reverse]
  rw [htrim]
  refine List.splitOn_intercalate (byte '\n') ?_ (by simpa using hne)
  intro line hline
  obtain ⟨node, hnode, rfl⟩ := List.mem_map.mp hline
  exact newline_notMem_nodeLine (h node hnode)

/-- No node that the servers report is active. -/
theorem not_activeIn_nodesText (hne : nodes ≠ []) (h : ∀ node ∈ nodes, Listable node)
    {response m : GoString} (htext : response.bytes = nodesText status nodes) :
    ¬ ActiveIn response m := by
  rintro ⟨info, hlookup, hactive⟩
  obtain ⟨line, hline, id, address, text, rest, hfields, -, rfl⟩ :=
    parseClusterNodes_lookup hlookup
  rw [htext, splitOn_trimSpace_nodesText status hne h] at hline
  obtain ⟨node, hnode, rfl⟩ := List.mem_map.mp hline
  rw [trimSpace_nodeLine (h node hnode), fields_nodeLine (h node hnode)] at hfields
  cases hfields
  have hother : ∀ st : NodeStatus, substring st.string ≠ lit "active" := by
    intro st
    cases st <;> decide +kernel
  exact hother (status node) hactive

/-- The client accepts the reply. -/
theorem parseClusterNodes_nodesText (hne : nodes ≠ []) (h : ∀ node ∈ nodes, Listable node)
    {response : GoString} (htext : response.bytes = nodesText status nodes) :
    (parseClusterNodes response).1 = none := by
  unfold parseClusterNodes
  dsimp only
  rw [htext, splitOn_trimSpace_nodesText status hne h,
    if_neg (fun hnil => hne (List.map_eq_nil_iff.mp hnil))]
  -- the last line leaves an entry
  obtain ⟨before, last, rfl⟩ := (List.eq_nil_or_concat nodes).resolve_left hne
  have hlast := h last (by simp)
  have hline : nodeLine last (status last) ≠ [] :=
    List.append_ne_nil_of_left_ne_nil hlast.id_ne_nil _
  have hentry : ∀ table, parseNodeLine table (nodeLine last (status last)) =
      table.insert (substring last.id.bytes) ⟨substring last.id.bytes,
        substring last.addr.bytes, substring (status last).string⟩ := by
    intro table
    unfold parseNodeLine
    dsimp only
    rw [trimSpace_nodeLine hlast, if_neg hline, fields_nodeLine hlast]
  rw [List.concat_eq_append, List.map_append, List.foldl_append, List.map_singleton,
    List.foldl_cons, List.foldl_nil, hentry, if_neg]
  rw [← ne_eq, ← Finset.nonempty_iff_ne_empty]
  exact ⟨_, Finmap.mem_keys.mpr (Finmap.mem_insert.mpr (.inl rfl))⟩

end Reply

/-! ## The client -/

/-- The status of a node in the replies of a node with a health checker. -/
def reported (hc : HealthChecker) (node : NodeInfo) : NodeStatus := hc.getNodeStatus node.id

theorem handleClusterNodes_eq {ns : NodeState} {config : Config} {hc : HealthChecker}
    (hconfig : ns.config = some config) (hhealth : ns.healthChecker = some hc) :
    handleClusterNodes ns = encodeBulkText (nodesText (reported hc) config.nodes) := by
  unfold handleClusterNodes nodesText nodeLine
  rw [hconfig]
  dsimp only
  rw [hhealth]
  simp only [List.append_assoc]
  rfl

section Client

variable {exec : ExecHandler} {hash : Bytes → UInt32} {conn : ConnID} {choices : Choices}
  {n : ServerNode Unit}

theorem handleCommand_nodes (net : Network Unit) :
    n.handleCommand exec net hash conn .new choices [.str (lit "CLUSTER"), .str (lit "NODES")] =
      .ok (handleClusterNodes n.state, n, .new) := by
  have h₁ : ¬ lit "NODES" = lit "ADDNODE" := by decide
  have h₂ : ¬ lit "NODES" = lit "REMOVENODE" := by decide
  have hnodes : handleClusterCommand net hash n choices
      [.str (lit "CLUSTER"), .str (lit "NODES")] = .ok (handleClusterNodes n.state, n) := by
    simp only [handleClusterCommand, asString, bind, Except.bind, if_neg h₁, if_neg h₂, if_true]
    rfl
  rw [handleCommand_cluster, hnodes]
  rfl

theorem length_nodesText_le {config : Config} (hfits : nodesFit config)
    (status : NodeInfo → NodeStatus) : (nodesText status config.nodes).length ≤ maxAlloc := by
  refine Nat.le_trans (length_flatMap_le (fun node => ?_) _) hfits
  have hstatus := length_string_le (status node)
  simp only [nodeLine, List.length_append, List.length_singleton]
  omega

variable (exec hash conn) in
/-- A client that asks a node with a health checker takes in its reply. -/
theorem newClusterClient_peers (choices : Nat → Choices) {w : Peers} {seed : GoString}
    {host : Host} {config : Config} {hc : HealthChecker}
    (order : (Finmap fun _ : GoString => ClientNodeInfo) → List GoString)
    (hhost : w.hosts seed = some host) (hconfig : host.node.state.config = some config)
    (hhealth : host.node.state.healthChecker = some hc) (hfits : nodesFit config)
    (hne : config.nodes ≠ []) (hlist : ∀ node ∈ config.nodes, Listable node)
    (others : List GoString) :
    ∃ c response, ClusterClient.newClusterClient (peers exec hash conn choices) hash order w
        (seed :: others) = .ok (.ok c) ∧
      response.bytes = nodesText (reported hc) config.nodes ∧
      freshView.observe hash order response = (none, c.toClientView) := by
  let es : ElementSlice :=
    ⟨[.str (lit "CLUSTER"), .str (lit "NODES")], show 32 ≤ maxAlloc by decide⟩
  let response : GoString := ⟨_, length_nodesText_le hfits (reported hc)⟩
  let w₁ : Peers := { w with
    hosts := Function.update w.hosts seed (some { host with conn := some (.new, []) })
    dialled := w.dialled ++ [seed] }
  have hdial : (peers exec hash conn choices).dial w seed = .ok w₁ := by
    unfold peers
    simp only [hhost]
    rfl
  obtain ⟨w₂, hwrite⟩ : ∃ w₂, (peers exec hash conn choices).write w₁ seed
      (encodeArray es.elements) = .ok (handleClusterNodes host.node.state, w₂) :=
    ⟨_, write_peers es (Function.update_self ..) (handleCommand_nodes unreachable)⟩
  have hparse : parse ([] ++ handleClusterNodes host.node.state) = .ok (.str response) [] := by
    have hreads := (frames_encodeElement (.str response)).reads []
    rw [List.append_nil] at hreads
    rw [List.nil_append, handleClusterNodes_eq hconfig hhealth]
    exact hreads
  have hsend : (Client.connected w₁ seed).sendCommand (peers exec hash conn choices)
      [lit "CLUSTER", lit "NODES"] =
        .ok (.ok response, { Client.connected w₂ seed with unread := [] }) := by
    change (peers exec hash conn choices).write w₁ seed (encodeArray
      ([lit "CLUSTER", lit "NODES"].map Element.str)) = _ at hwrite
    unfold Client.sendCommand Client.send Client.transmit
    simp only [Client.connected, Bool.false_eq_true, if_false, hwrite]
    have hstring : newString response.bytes = .ok response := dif_pos response.length_le
    unfold Client.readResponse
    simp only [hparse, Value.format, hstring, bind, Except.bind]
    rfl
  have hvalid : (parseClusterNodes response).1 = none :=
    parseClusterNodes_nodesText (reported hc) hne hlist rfl
  have hobserve := observe_of_valid hash freshView order hvalid
  refine ⟨⟨_, seed :: others, w₂⟩, response, ?_, rfl, hobserve⟩
  unfold ClusterClient.newClusterClient ClusterClient.discoverTopology ClusterClient.discoverLoop
    Client.newClient
  simp only [if_neg (List.cons_ne_nil seed others), hdial, hsend, bind, Except.bind]
  change ClientView.observe hash order ⟨HashRing.new 150, ∅⟩ response = _ at hobserve
  simp only [hobserve]
  rfl

variable (exec conn) in
/-- A client of such nodes has an empty ring. -/
private theorem newClusterClient_finds_nobody (choices : Nat → Choices) {config : Config}
    {w : Peers} (hlist : ∀ node ∈ config.nodes, Listable node) (hfits : nodesFit config)
    (hup : ClusterStarted hash config w)
    (order : (Finmap fun _ : GoString => ClientNodeInfo) → List GoString) {seed : NodeInfo}
    (hseed : seed ∈ config.nodes) (others : List GoString) :
    ∃ c, ClusterClient.newClusterClient (peers exec hash conn choices) hash order w
        (seed.addr :: others) = .ok (.ok c) ∧
      ∀ key, c.addressOf hash key = .error (ascii "failed to find node for key " ++ key.bytes ++
        ascii ": " ++ ascii "hash ring is empty") := by
  obtain ⟨host, leader, hc, hhost, hstate⟩ := hup seed hseed
  have hne : config.nodes ≠ [] := List.ne_nil_of_mem hseed
  have hconfig : host.node.state.config = some { config with nodeID := seed.id } := by
    rw [hstate]
    rfl
  have hhealth : host.node.state.healthChecker = some hc := by
    rw [hstate]
    rfl
  obtain ⟨c, response, hnew, hresponse, hobserve⟩ := newClusterClient_peers exec hash conn choices
    order hhost hconfig hhealth hfits hne hlist others
  refine ⟨c, hnew, fun key => ?_⟩
  have hlaid := observe_laidOut (laidOut_new hash 150) hobserve
  have hnone : (order (parseClusterNodes response).2).filter
      (isActive (parseClusterNodes response).2) = [] := by
    rw [List.filter_eq_nil_iff]
    intro m _ hactive
    exact not_activeIn_nodesText (reported hc) hne hlist hresponse (isActive_iff.mp hactive)
  rw [hnone, List.append_nil] at hlaid
  have hempty : c.hashRing.getNode hash key = .error (ascii "hash ring is empty") :=
    hlaid.responsible_of_empty key
  unfold ClientView.addressOf
  rw [hempty]

end Client

/-- For every well-formed configuration whose lines `CLUSTER NODES` can carry, with every
    node up and whatever their health checkers report: a cluster client that starts from
    any of the nodes succeeds, and finds a node for no key, although every key belongs to
    a shard with a leader in the configuration. -/
theorem cluster_client_finds_nobody (exec : ExecHandler) (hash : Bytes → UInt32) (conn : ConnID)
    (choices : Nat → Choices) (config : Config)
    (hwf : WellFormed config.nodes config.shards)
    (hlist : ∀ node ∈ config.nodes, Listable node) (hfits : nodesFit config)
    (w : Peers) (hup : ClusterStarted hash config w)
    (order : (Finmap fun _ : GoString => ClientNodeInfo) → List GoString)
    (seed : NodeInfo) (hseed : seed ∈ config.nodes) (others : List GoString) :
    ∃ c, ClusterClient.newClusterClient (peers exec hash conn choices) hash order w
        (seed.addr :: others) = .ok (.ok c) ∧
      ∀ key, c.addressOf hash key = .error (ascii "failed to find node for key " ++ key.bytes ++
          ascii ": " ++ ascii "hash ring is empty") ∧
        ∃ shard ∈ config.shards, (config.clusterRing hash).getShard hash key = .ok shard.shardID ∧
          ∃ leader ∈ config.nodes, leader.id = shard.leaderID := by
  obtain ⟨c, hnew, hnobody⟩ :=
    newClusterClient_finds_nobody exec conn choices hlist hfits hup order hseed others
  refine ⟨c, hnew, fun key => ⟨hnobody key, ?_⟩⟩
  obtain ⟨shard, hshard, -⟩ := hwf.oneShard seed hseed
  obtain ⟨shard', hshard', hkey⟩ := clusterRing_getShard hash key (List.ne_nil_of_mem hshard)
  exact ⟨shard', hshard', hkey, hwf.leaders shard' hshard'⟩

private theorem noSpace_of_decide {s : Bytes}
    (h : (spaceRunes.all fun rune => decide (¬ rune <:+: s)) = true) : NoSpace s := by
  intro rune hrune
  exact of_decide_eq_true (List.all_eq_true.mp h rune hrune)

private theorem listable_namedConfig : ∀ node ∈ namedConfig.nodes, Listable node := by
  intro node hnode
  obtain rfl := List.mem_singleton.mp hnode
  exact ⟨by decide, noSpace_of_decide (by decide +kernel), noSpace_of_decide (by decide +kernel)⟩

private theorem nodesFit_namedConfig : nodesFit namedConfig := show 28 ≤ maxAlloc by decide

/-- A cluster of one node. -/
theorem cluster_client_finds_nobody_one :
    ∃ c, ClusterClient.newClusterClient (peers handleExec sha256Hash 1 fun _ => emptyChoices)
        sha256Hash (fun _ => [lit "n1"]) (firstWorld sha256Hash) [firstNode.addr] = .ok (.ok c) ∧
      ∀ key, c.addressOf sha256Hash key = .error (ascii "failed to find node for key " ++
          key.bytes ++ ascii ": " ++ ascii "hash ring is empty") ∧
        ∃ shard ∈ namedConfig.shards,
          (namedConfig.clusterRing sha256Hash).getShard sha256Hash key = .ok shard.shardID ∧
          ∃ leader ∈ namedConfig.nodes, leader.id = shard.leaderID :=
  cluster_client_finds_nobody handleExec sha256Hash 1 (fun _ => emptyChoices) namedConfig
    ⟨by decide, by decide, by decide, by decide⟩ listable_namedConfig nodesFit_namedConfig
    (firstWorld sha256Hash) started_firstWorld (fun _ => [lit "n1"]) firstNode
    List.mem_cons_self []

/-- The servers give the key to the one node, the client to nobody. -/
theorem client_misses_leader :
    ∃ c, ClusterClient.newClusterClient (peers handleExec sha256Hash 1 fun _ => emptyChoices)
        sha256Hash (fun _ => [lit "n1"]) (firstWorld sha256Hash) [firstNode.addr] = .ok (.ok c) ∧
      (namedConfig.clusterRing sha256Hash).getShard sha256Hash (lit "k") = .ok (lit "n1") ∧
      namedConfig.addrOf (lit "n1") = firstNode.addr ∧
      c.addressOf sha256Hash (lit "k") ≠ .ok firstNode.addr := by
  obtain ⟨c, hnew, hnobody⟩ := newClusterClient_finds_nobody handleExec 1 (fun _ => emptyChoices)
    listable_namedConfig nodesFit_namedConfig started_firstWorld (fun _ => [lit "n1"])
    List.mem_cons_self []
  have hne : namedConfig.shards ≠ [] := List.cons_ne_nil _ _
  obtain ⟨shard, hshard, hkey⟩ := clusterRing_getShard sha256Hash (lit "k") hne
  obtain rfl := List.mem_singleton.mp hshard
  refine ⟨c, hnew, hkey, rfl, ?_⟩
  rw [hnobody]
  exact nofun

end GoCache.Spec
