import GoCache.Native.Peers
import GoCache.Spec.Outcomes
import GoCache.Spec.ProtocolCorrect
import GoCache.Spec.Transfers

/-!
# What nodes do to each other

A node reaches its peers through their own handlers. Here is what its commands change
on them: the rings stay as they are while keys are transferred, and a notification
changes the ring of the node it is sent to.

## Key results

- `write_peers`: a command that is written on an idle connection is handled
- `keeps_rings`: a transfer leaves all rings alone
- `evolves_notify`, `evolves_broadcast`: notifications
-/

namespace GoCache.Spec

open GoCache.Native

/-! ## Commands of a peer -/

/-- What `TOPOLOGY` makes of a ring. -/
def ringChange (hash : Bytes → UInt32) (operation id addr : GoString) (hr : HashRing) : HashRing :=
  if operation = lit "ADD" then (hr.addShard hash id).setNodeAddress id addr
  else (hr.removeShard hash id).setNodeAddress id GoString.empty

section Commands

variable {ω : Type} {exec : ExecHandler} {net : Network ω} {hash : Bytes → UInt32} {conn : ConnID}
  {choices : Choices}
  {n n' : ServerNode ω} {st' : ConnectionState} {reply : Bytes}

/-- Commands on a key leave the ring and the configuration alone. -/
private theorem handleCommand_keeps {name : GoString} {args : List Value}
    (hname : name = lit "SET" ∨ name = lit "GET")
    (h : n.handleCommand exec net hash conn .new choices (.str name :: args) =
      .ok (reply, n', st')) :
    st' = .new ∧ n'.state.config = n.state.config ∧ n'.state.hashRing = n.state.hashRing := by
  have hother : ∀ other ∈ ["SUBSCRIBE", "UNSUBSCRIBE", "PUBLISH", "CLUSTER", "EXEC"],
      isCommand (.str name) other = false := by
    rcases hname with rfl | rfl <;> decide
  have hdispatch : n.dispatch exec net hash conn .new choices (.str name) (.str name :: args) =
      .ok (reply, n', st') := h
  rw [dispatch_other (hother _ (by decide)) (hother _ (by decide)) (hother _ (by decide))
    (hother _ (by decide))] at hdispatch
  obtain ⟨key, -, hdispatch⟩ := bind_eq_ok.mp hdispatch
  split at hdispatch
  · cases hdispatch
    exact ⟨rfl, rfl, rfl⟩
  · rw [switchCommand_eq, hother "EXEC" (by decide)] at hdispatch
    obtain ⟨⟨r, s, t⟩, hswitch, hdispatch⟩ := bind_eq_ok.mp hdispatch
    cases hdispatch
    refine ⟨?_, rfl, rfl⟩
    rcases hname with rfl | rfl
    · obtain ⟨_, -, hret⟩ := bind_eq_ok.mp hswitch
      cases hret
      rfl
    · obtain ⟨_, -, hret⟩ := bind_eq_ok.mp hswitch
      cases hret
      rfl

/-- A notification changes the ring, and crashes a node without one. -/
theorem handleCommand_topology {operation : GoString}
    (hop : operation = lit "ADD" ∨ operation = lit "REMOVE") (id addr : GoString) :
    n.handleCommand exec net hash conn .new choices [.str (lit "CLUSTER"), .str (lit "TOPOLOGY"),
        .str operation, .str id, .str addr] =
      match n.state.hashRing with
      | none => .error .nilDereference
      | some hr => .ok (replyOK, { n with state := { n.state with
          hashRing := some (ringChange hash operation id addr hr) } }, .new) := by
  have htopology : handleClusterCommand net hash n choices [.str (lit "CLUSTER"),
      .str (lit "TOPOLOGY"), .str operation, .str id, .str addr] =
      match n.state.hashRing with
      | none => .error .nilDereference
      | some hr => .ok (replyOK, { n with state := { n.state with
          hashRing := some (ringChange hash operation id addr hr) } }) := by
    have h₁ : ¬ lit "TOPOLOGY" = lit "ADDNODE" := by decide
    have h₂ : ¬ lit "TOPOLOGY" = lit "REMOVENODE" := by decide
    have h₃ : ¬ lit "TOPOLOGY" = lit "NODES" := by decide
    have h₄ : ¬ lit "REMOVE" = lit "ADD" := by decide
    simp only [handleClusterCommand, asString, bind, Except.bind, if_neg h₁, if_neg h₂, if_neg h₃,
      if_true, handleClusterTopology, ringChange]
    rcases hop with rfl | rfl
    · cases n.state.hashRing with
      | none => simp only [if_true]
      | some hr =>
        simp only [if_true]
        rfl
    · cases n.state.hashRing with
      | none => simp only [if_neg h₄, if_true]
      | some hr =>
        simp only [if_neg h₄, if_true]
        rfl
  rw [handleCommand_cluster, htopology]
  cases n.state.hashRing with
  | none => rfl
  | some hr => rfl

private theorem handleCommand_topology_changes {operation id addr : GoString}
    (hop : operation = lit "ADD" ∨ operation = lit "REMOVE")
    (h : n.handleCommand exec net hash conn .new choices [.str (lit "CLUSTER"),
        .str (lit "TOPOLOGY"), .str operation, .str id, .str addr] = .ok (reply, n', st')) :
    st' = .new ∧ n'.state.config = n.state.config ∧
      n'.state.hashRing = n.state.hashRing.map (ringChange hash operation id addr) := by
  rw [handleCommand_topology hop] at h
  split at h
  · exact nomatch h
  · next hr hring =>
    cases h
    exact ⟨rfl, rfl, by rw [hring]; rfl⟩

end Commands

/-! ## One connection -/

section Peers

variable {exec : ExecHandler} {hash : Bytes → UInt32} {conn : ConnID} {choices : Nat → Choices}
  {w w' w₁ : Peers}
  {addr : GoString}

private theorem parse_elementSlice (es : ElementSlice) :
    parse (encodeArray es.elements) = .ok (.arr (es.elements.map Element.value)) [] := by
  simpa using (frames_encodeArray es).reads []

/-- A command that is written on an idle connection is handled. -/
theorem write_peers {w : Peers} {addr : GoString} {node node' : ServerNode Unit}
    {st st' : ConnectionState} {reply : Bytes} (es : ElementSlice)
    (hhost : w.hosts addr = some ⟨node, some (st, [])⟩)
    (h : node.handleCommand exec unreachable hash conn st (choices w.handled)
      (es.elements.map Element.value) = .ok (reply, node', st')) :
    (peers exec hash conn choices).write w addr (encodeArray es.elements) =
      .ok (reply, { w with
        hosts := Function.update w.hosts addr (some ⟨node', some (st', [])⟩)
        handled := w.handled + 1 }) := by
  have hparse := parse_elementSlice es
  have hturn : node.turn exec unreachable hash conn st (choices w.handled)
      (encodeArray es.elements) = .ok (some (reply, st', []), node') := by
    unfold ServerNode.turn ServerNode.turnWith
    simp only [hparse, h, bind, Except.bind]
    rfl
  have hanswer : (Host.mk node (some (st, []))).answer exec hash conn (choices w.handled)
      (encodeArray es.elements) = .ok (reply, some ⟨node', some (st', [])⟩) := by
    unfold Host.answer
    simp only [List.nil_append, hturn]
  simp only [peers, hhost, hanswer, bind, Except.bind]
  rfl

/-- The connection to a node, if one is open, is as it was opened, and all that was
    written on it has been read. -/
def Idle (addr : GoString) (w : Peers) : Prop :=
  ∀ host st unread, w.hosts addr = some host → host.conn = some (st, unread) →
    st = .new ∧ unread = []

/-- The nodes that are still there have the configurations they had, and their rings
    have changed as the function says. -/
def Evolves (f : GoString → HashRing → HashRing) (w w' : Peers) : Prop :=
  ∀ b host', w'.hosts b = some host' → ∃ host, w.hosts b = some host ∧
    host'.node.state.config = host.node.state.config ∧
    host'.node.state.hashRing = host.node.state.hashRing.map (f b)

theorem Evolves.refl (w : Peers) : Evolves (fun _ => id) w w := by
  intro b host hhost
  exact ⟨host, hhost, rfl, by rw [Option.map_id, id]⟩

theorem Evolves.trans {f g : GoString → HashRing → HashRing} (h : Evolves f w w₁)
    (h' : Evolves g w₁ w') : Evolves (fun b => g b ∘ f b) w w' := by
  intro b host' hhost'
  obtain ⟨host₁, hhost₁, hconfig₁, hring₁⟩ := h' b host' hhost'
  obtain ⟨host, hhost, hconfig, hring⟩ := h b host₁ hhost₁
  exact ⟨host, hhost, hconfig₁.trans hconfig, by rw [hring₁, hring, Option.map_map]⟩

theorem Evolves.congr {f g : GoString → HashRing → HashRing} (h : Evolves f w w')
    (hfg : ∀ b, f b = g b) : Evolves g w w' :=
  funext hfg ▸ h

/-- Only the node at one address has changed. -/
private theorem evolves_update {f : HashRing → HashRing} {host? : Option Host}
    {dialled : List GoString} {handled : Nat}
    (h : ∀ host', host? = some host' → ∃ host, w.hosts addr = some host ∧
      host'.node.state.config = host.node.state.config ∧
      host'.node.state.hashRing = host.node.state.hashRing.map f) :
    Evolves (Function.update (fun _ => id) addr f) w
      ⟨Function.update w.hosts addr host?, dialled, handled⟩ := by
  intro b host' hhost'
  dsimp only at hhost'
  by_cases hb : b = addr
  · subst hb
    rw [Function.update_self] at hhost' ⊢
    exact h host' hhost'
  · rw [Function.update_of_ne hb] at hhost' ⊢
    exact ⟨host', hhost', rfl, by rw [Option.map_id, id]⟩

private theorem idle_update {host? : Option Host} {dialled : List GoString} {handled : Nat}
    (h : ∀ node c, host? = some ⟨node, some c⟩ → c = (.new, [])) :
    Idle addr ⟨Function.update w.hosts addr host?, dialled, handled⟩ := by
  rintro ⟨node, _⟩ st unread hhost rfl
  dsimp only at hhost
  rw [Function.update_self] at hhost
  exact Prod.mk.inj (h node _ hhost)

theorem evolves_dial (h : (peers exec hash conn choices).dial w addr = .ok w') :
    Evolves (fun _ => id) w w' ∧ Idle addr w' := by
  unfold peers at h
  simp only at h
  split at h
  · exact nomatch h
  next host hhost =>
  cases h
  constructor
  · rw [← Function.update_eq_self addr (fun _ : GoString => (id : HashRing → HashRing))]
    apply evolves_update
    intro host' hhost'
    cases hhost'
    exact ⟨host, hhost, rfl, by rw [Option.map_id, id]⟩
  · apply idle_update
    intro node c hhost'
    cases hhost'
    rfl

/-- A command on an idle connection changes the node as its handler does. -/
private theorem evolves_write (es : ElementSlice) {f : HashRing → HashRing} {answer : Bytes}
    (heffect : ∀ {node node' : ServerNode Unit} {reply : Bytes} {st' : ConnectionState},
      node.handleCommand exec unreachable hash conn .new (choices w.handled)
        (es.elements.map Element.value) = .ok (reply, node', st') →
      st' = .new ∧ node'.state.config = node.state.config ∧
        node'.state.hashRing = node.state.hashRing.map f)
    (hidle : Idle addr w)
    (h : (peers exec hash conn choices).write w addr (encodeArray es.elements) =
      .ok (answer, w')) :
    Evolves (Function.update (fun _ => id) addr f) w w' ∧ Idle addr w' := by
  have hparse := parse_elementSlice es
  unfold peers at h
  simp only at h
  split at h
  · exact nomatch h
  next host hhost =>
  obtain ⟨node, conn?⟩ := host
  cases conn? with
  | none => exact nomatch h
  | some c =>
    obtain ⟨st, unread⟩ := c
    obtain ⟨rfl, rfl⟩ := hidle _ st unread hhost rfl
    unfold Host.answer ServerNode.turn ServerNode.turnWith at h
    simp only [List.nil_append, hparse] at h
    cases hhandle : node.handleCommand exec unreachable hash conn .new (choices w.handled)
        (es.elements.map Element.value) with
    | error p =>
      simp only [hhandle, bind, Except.bind] at h
      cases h
      constructor
      · apply evolves_update
        intro host' hhost'
        exact nomatch hhost'
      · apply idle_update
        intro node c hhost'
        exact nomatch hhost'
    | ok result =>
      obtain ⟨reply, node', st'⟩ := result
      obtain ⟨rfl, hconfig, hring⟩ := heffect hhandle
      simp only [hhandle, bind, Except.bind] at h
      cases h
      constructor
      · apply evolves_update
        intro host' hhost'
        cases hhost'
        exact ⟨_, hhost, hconfig, hring⟩
      · apply idle_update
        intro node c hhost'
        cases hhost'
        rfl

/-- A transfer leaves all rings alone. -/
theorem keeps_rings (addr : GoString) :
    Keeps (peers exec hash conn choices) addr (Idle addr) (Evolves fun _ => id) where
  refl := Evolves.refl
  trans h h' := h.trans h'
  dial := evolves_dial
  set {w k v answer w'} hidle hwrite := by
    rw [← Function.update_eq_self addr (fun _ : GoString => (id : HashRing → HashRing))]
    refine evolves_write ⟨[.str (lit "SET"), .str k, .str v], show 48 ≤ maxAlloc by decide⟩
      (fun h => ?_) hidle hwrite
    obtain ⟨hst, hconfig, hring⟩ := handleCommand_keeps (.inl rfl) h
    exact ⟨hst, hconfig, by rw [hring, Option.map_id, id]⟩
  get {w k answer w'} hidle hwrite := by
    rw [← Function.update_eq_self addr (fun _ : GoString => (id : HashRing → HashRing))]
    refine evolves_write ⟨[.str (lit "GET"), .str k], show 32 ≤ maxAlloc by decide⟩
      (fun h => ?_) hidle hwrite
    obtain ⟨hst, hconfig, hring⟩ := handleCommand_keeps (.inr rfl) h
    exact ⟨hst, hconfig, by rw [hring, Option.map_id, id]⟩

/-! ## Notifications -/

/-- What `notifyNodeAboutTopologyChange` sends. -/
private def topologyCommand (operation id addr : GoString) : ElementSlice where
  elements := [.str (lit "CLUSTER"), .str (lit "TOPOLOGY"), .str operation, .str id, .str addr]
  length_le := show 80 ≤ maxAlloc by decide

/-- What is written on a new connection is read. -/
private theorem write_of_dial (h : (peers exec hash conn choices).dial w addr = .ok w')
    (cmd : Bytes) : ∃ r, (peers exec hash conn choices).write w' addr cmd = .ok r := by
  unfold peers at h
  simp only at h
  split at h
  · exact nomatch h
  next host hhost =>
  cases h
  unfold peers Host.answer
  simp only [Function.update_self]
  split
  · exact ⟨_, rfl⟩
  · exact ⟨_, rfl⟩
  · exact ⟨_, rfl⟩

section Notify

variable {operation nodeID nodeAddr : GoString}

/-- A notification changes the ring of the node it is sent to. -/
theorem evolves_notify (hop : operation = lit "ADD" ∨ operation = lit "REMOVE")
    (h : notifyNodeAboutTopologyChange (peers exec hash conn choices) w addr operation nodeID
      nodeAddr = .ok w') :
    Evolves (Function.update (fun _ => id) addr (ringChange hash operation nodeID nodeAddr)) w
      w' := by
  unfold notifyNodeAboutTopologyChange at h
  split at h
  · -- nobody is there
    next hdial =>
    cases h
    have hnone : w.hosts addr = none := by
      unfold peers at hdial
      simp only at hdial
      split at hdial
      · next hnone => exact hnone
      · exact nomatch hdial
    intro b host' hhost'
    have hb : b ≠ addr := by
      rintro rfl
      rw [hnone] at hhost'
      exact nomatch hhost'
    rw [Function.update_of_ne hb]
    exact Evolves.refl w b host' hhost'
  next w₁ hdial =>
  obtain ⟨⟨result, conn'⟩, hexchange, h⟩ := bind_eq_ok.mp h
  cases h
  obtain ⟨hopened, hidle⟩ := evolves_dial hdial
  obtain ⟨⟨answer, w₂⟩, hwrite⟩ := write_of_dial hdial
    (encodeArray (topologyCommand operation nodeID nodeAddr).elements)
  have hworld : conn'.world = w₂ := by
    unfold exchange at hexchange
    change (peers exec hash conn choices).write w₁ addr (encodeArray [.str (lit "CLUSTER"),
      .str (lit "TOPOLOGY"), .str operation, .str nodeID, .str nodeAddr]) = _ at hwrite
    simp only [hwrite] at hexchange
    split at hexchange
    · cases hexchange
      rfl
    · cases hexchange
      rfl
    · exact nomatch hexchange
  rw [hworld]
  refine hopened.trans (evolves_write (topologyCommand operation nodeID nodeAddr)
    (fun hhandle => ?_) hidle hwrite).1
  exact handleCommand_topology_changes hop hhandle

/-- A node that is there takes note. -/
theorem notify_peers (hop : operation = lit "ADD" ∨ operation = lit "REMOVE") {host : Host}
    {hr : HashRing} (hhost : w.hosts addr = some host)
    (hring : host.node.state.hashRing = some hr) :
    notifyNodeAboutTopologyChange (peers exec hash conn choices) w addr operation nodeID nodeAddr =
      .ok ⟨Function.update w.hosts addr (some ⟨{ host.node with state := { host.node.state with
        hashRing := some (ringChange hash operation nodeID nodeAddr hr) } }, some (.new, [])⟩),
        w.dialled ++ [addr], w.handled + 1⟩ := by
  have hdial : (peers exec hash conn choices).dial w addr = .ok { w with
      hosts := Function.update w.hosts addr (some { host with conn := some (.new, []) })
      dialled := w.dialled ++ [addr] } := by
    unfold peers
    simp only [hhost]
  let told : ServerNode Unit := { host.node with state := { host.node.state with
    hashRing := some (ringChange hash operation nodeID nodeAddr hr) } }
  have hhandle : host.node.handleCommand exec unreachable hash conn .new (choices w.handled)
      ((topologyCommand operation nodeID nodeAddr).elements.map Element.value) =
        .ok (replyOK, told, .new) := by
    show host.node.handleCommand exec unreachable hash conn .new (choices w.handled) [.str
      (lit "CLUSTER"), .str (lit "TOPOLOGY"), .str operation, .str nodeID, .str nodeAddr] = _
    rw [handleCommand_topology hop, hring]
  have hwrite := write_peers (w := { w with
      hosts := Function.update w.hosts addr (some { host with conn := some (.new, []) })
      dialled := w.dialled ++ [addr] }) (topologyCommand operation nodeID nodeAddr)
    (Function.update_self ..) hhandle
  have hparse : parse ([] ++ replyOK) = .ok (.str (lit "OK")) [] := rfl
  change (peers exec hash conn choices).write _ addr (encodeArray [.str (lit "CLUSTER"),
    .str (lit "TOPOLOGY"), .str operation, .str nodeID, .str nodeAddr]) = _ at hwrite
  unfold notifyNodeAboutTopologyChange exchange
  simp only [hdial, hwrite, hparse, bind, Except.bind, Function.update_idem]
  rfl

/-- What a broadcast does to the ring of the node at an address. -/
def broadcastChange (config : Config) (nodes : List NodeInfo) (f : HashRing → HashRing)
    (b : GoString) : HashRing → HashRing :=
  if ∃ node ∈ nodes, node.id ≠ config.nodeID ∧ node.addr = b then f else id

/-- A broadcast changes the rings of the nodes with other IDs. -/
theorem evolves_broadcast (hop : operation = lit "ADD" ∨ operation = lit "REMOVE")
    {config : Config} {nodes : List NodeInfo} (haddrs : (nodes.map NodeInfo.addr).Nodup)
    (h : broadcast (peers exec hash conn choices) config operation nodeID nodeAddr nodes w =
      .ok w') :
    Evolves (broadcastChange config nodes (ringChange hash operation nodeID nodeAddr)) w w' := by
  induction nodes generalizing w with
  | nil =>
    cases h
    apply (Evolves.refl w').congr
    intro b
    rw [broadcastChange, if_neg (by simp)]
  | cons node nodes ih =>
    obtain ⟨hfresh, haddrs⟩ := List.nodup_cons.mp haddrs
    unfold broadcast at h
    split at h
    · next hself =>
      apply (ih haddrs h).congr
      intro b
      simp only [broadcastChange, List.exists_mem_cons_iff, hself, ne_eq, not_true, false_and,
        false_or]
    · next hother =>
      obtain ⟨w₁, hnotify, h⟩ := bind_eq_ok.mp h
      apply ((evolves_notify hop hnotify).trans (ih haddrs h)).congr
      intro b
      by_cases hb : b = node.addr
      · -- the other nodes have other addresses
        subst hb
        have hnone : ¬ ∃ x ∈ nodes, x.id ≠ config.nodeID ∧ x.addr = node.addr := by
          rintro ⟨x, hx, -, haddr⟩
          exact hfresh (List.mem_map.mpr ⟨x, hx, haddr⟩)
        rw [Function.update_self, broadcastChange, if_neg hnone, broadcastChange,
          if_pos ⟨node, List.mem_cons_self, hother, rfl⟩, Function.id_comp]
      · rw [Function.update_of_ne hb, Function.comp_id]
        simp only [broadcastChange, List.exists_mem_cons_iff, Ne.symm hb, and_false, false_or]

end Notify

end Peers

end GoCache.Spec
