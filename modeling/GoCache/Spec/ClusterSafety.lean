import GoCache.ForStd.Returns
import GoCache.Spec.PubSubInvariant
import GoCache.Spec.Requests

/-!
# Cluster commands that are answered

`CLUSTER` commands call into the ring, the migrator and other nodes. Among peers that
answer every command with one RESP value, `clusterSafe` says exactly which of them are
answered: the arguments are strings, and the ring is one that the handler can work with.

## Key results

- `migrateTasks_returns`: a migration, however it ends
- `handleClusterCommand_settles`: the `CLUSTER` command
-/

namespace GoCache.Spec

open GoCache.Native

/-- The peers answer every command with one RESP value, or with part of one and then
    close the connection. -/
def AnswersAll {ω : Type} (net : Network ω) : Prop :=
  ∀ world addr cmd answer world', net.write world addr cmd = .ok (answer, world') →
    (∃ v, parse answer = .ok v []) ∨ ∃ e, parse answer = .err e []

/-! ## Transfer -/

section Transfer

variable {ω : Type} {net : Network ω} (hnet : AnswersAll net) (addr : GoString)
  {conn : Connection ω}

include hnet

private theorem exchange_returns (hunread : conn.unread = []) (cmd : Bytes) :
    Returns (exchange net addr conn cmd) fun r => r.2.unread = [] := by
  unfold exchange
  cases hwrite : net.write conn.world addr cmd with
  | error text => exact .ok hunread
  | ok r =>
    obtain ⟨answer, world⟩ := r
    dsimp only
    rw [hunread, List.nil_append]
    rcases hnet _ _ _ _ _ hwrite with ⟨v, hparse⟩ | ⟨e, hparse⟩
    · rw [hparse]
      exact .ok rfl
    · rw [hparse]
      exact .ok rfl

private theorem transferLoop_returns (values : Finmap fun _ : GoString => GoString)
    (keys : List GoString) (failCount : Nat) (hunread : conn.unread = []) :
    Returns (transferLoop net addr values keys failCount conn) fun r => r.2.unread = [] := by
  induction keys generalizing failCount conn with
  | nil => exact .ok hunread
  | cons key keys ih =>
    rw [transferLoop]
    refine (exchange_returns hnet addr hunread _).bind fun r hr => ?_
    obtain ⟨response, conn'⟩ := r
    cases response with
    | error text | ok response => exact ih _ hr

private theorem transferKeysOnConnection_returns (hunread : conn.unread = [])
    (keys : List GoString) (values : Finmap fun _ : GoString => GoString) :
    Returns (transferKeysOnConnection net addr conn keys values) fun r => r.2.unread = [] := by
  refine (transferLoop_returns hnet addr values keys 0 hunread).bind fun r hr => ?_
  obtain ⟨failCount, conn'⟩ := r
  dsimp only
  split
  · exact .ok hr
  · exact .ok hr

private theorem batchLoop_returns (keys : List GoString)
    (values : Finmap fun _ : GoString => GoString) {size : Nat} (batches i : Nat)
    (hlast : BatchesStart keys.length size i batches) (hunread : conn.unread = []) :
    Returns (batchLoop net addr (batchKeys keys size) values batches i conn)
      fun r => r.2.unread = [] := by
  induction batches generalizing i conn with
  | zero => exact .ok hunread
  | succ batches ih =>
    obtain ⟨batch, hsliced, -⟩ := sliced_batch hlast.first
    have hbatch : Returns (batchKeys keys size i) fun _ => True := ⟨batch, hsliced, trivial⟩
    rw [batchLoop]
    refine hbatch.bind fun batchKeys _ => ?_
    refine (transferKeysOnConnection_returns hnet addr hunread _ _).bind fun r hr => ?_
    obtain ⟨err, conn'⟩ := r
    cases err with
    | some text => exact .ok hr
    | none => exact ih (i + 1) hlast.next hr

private theorem transferKeysBatch_returns (world : ω) (keys : List GoString)
    (values : Finmap fun _ : GoString => GoString) (size : Nat) :
    Returns (transferKeysBatch net addr world keys values size) fun _ => True := by
  unfold transferKeysBatch transferBatches
  split
  · exact .ok trivial
  · exact (batchLoop_returns hnet addr keys values _ 0 (batchesStart _ _) rfl).bind
      fun _ _ => .ok trivial

private theorem verifyLoop_returns (keys : List GoString) (hunread : conn.unread = []) :
    Returns (verifyLoop net addr keys conn) fun _ => True := by
  induction keys generalizing conn with
  | nil => exact .ok trivial
  | cons key keys ih =>
    rw [verifyLoop]
    split
    · exact .ok trivial
    · next answer world hwrite =>
      rw [hunread, List.nil_append]
      rcases hnet _ _ _ _ _ hwrite with ⟨v, hparse⟩ | ⟨e, hparse⟩
      · rw [hparse]
        exact ih rfl
      · rw [hparse]
        exact .ok trivial

private theorem verifyTransfer_returns (world : ω) (keys : List GoString) :
    Returns (verifyTransfer net addr world keys) fun _ => True := by
  unfold verifyTransfer
  split
  · exact .ok trivial
  · exact (verifyLoop_returns hnet addr keys rfl).bind fun _ _ => .ok trivial

end Transfer

/-! ## Migrations -/

section Migrations

variable {ω : Type} {net : Network ω} (hnet : AnswersAll net) (hash : Bytes → UInt32)
  (sched : Schedule) {c : Cache} {hr : HashRing}

include hnet

private theorem migrateTask_returns (hc : IsWf c) (i : Nat) (task : MigrationTask)
    (addr : GoString) (world : ω) :
    Returns (migrateTask net hash sched i task addr c world) fun r => IsWf r.2.1 := by
  obtain ⟨source, rfl⟩ := hc
  unfold migrateTask
  generalize source.cache.getKeysInHashRange _ _ _ _ = keys
  split
  · exact .ok source.isWf
  · obtain ⟨values, c₁, hread, -, -⟩ := readValues_eq (sched.clock i) keys 0 source ∅
    rw [hread]
    show Returns (transferKeysBatch net addr world keys values 100 >>= _) _
    refine (transferKeysBatch_returns hnet addr world keys values 100).bind fun r _ => ?_
    obtain ⟨transferErr, w₁⟩ := r
    cases transferErr with
    | some text => exact .ok c₁.isWf
    | none =>
      refine (verifyTransfer_returns hnet addr w₁ keys).bind fun r _ => ?_
      obtain ⟨verifyErr, w₂⟩ := r
      cases verifyErr with
      | some text => exact .ok c₁.isWf
      | none =>
        obtain ⟨c₂, hdelete, -, -⟩ := deleteKeys_eq keys c₁
        dsimp only
        rw [hdelete]
        exact .ok c₂.isWf

/-- The tasks of a migration return. -/
theorem migrateTasks_returns (addr : MigrationTask → GoString) (i : Nat)
    (tasks : List MigrationTask) (hc : IsWf c) (world : ω) :
    Returns (migrateTasks net hash sched addr i tasks c world) fun r => IsWf r.2.1 := by
  induction tasks generalizing i c world with
  | nil => exact .ok hc
  | cons task tasks ih =>
    rw [migrateTasks]
    refine (migrateTask_returns hnet hash sched hc i task (addr task) world).bind fun r hr => ?_
    obtain ⟨err, c₁, w₁⟩ := r
    cases err with
    | some text => exact .ok hr
    | none => exact ih (i + 1) hr w₁

end Migrations

/-! ## Rings -/

/-- The ring of a node: `NewHashRing(150)`, and what has been added and removed since. -/
structure NodeRing (hash : Bytes → UInt32) (hr : HashRing) : Prop where
  built : Built hash hr
  virtualNodes : hr.virtualNodes = 150

section Rings

variable {ω : Type} {net : Network ω} (hnet : AnswersAll net) {hash : Bytes → UInt32}
  (sched : Schedule) {c : Cache} {hr : HashRing}

theorem NodeRing.add (h : NodeRing hash hr) (m addr : GoString) :
    NodeRing hash ((hr.addShard hash m).setNodeAddress m addr) where
  built := (h.built.addShard m).setNodeAddress m addr
  virtualNodes := (addShard_virtualNodes hash hr m).trans h.virtualNodes

theorem NodeRing.remove (h : NodeRing hash hr) (m : GoString) :
    NodeRing hash (hr.removeShard hash m) where
  built := h.built.removeShard m
  virtualNodes := (removeShard_virtualNodes hash hr m).trans h.virtualNodes

theorem NodeRing.setNodeAddress (h : NodeRing hash hr) (m addr : GoString) :
    NodeRing hash (hr.setNodeAddress m addr) where
  built := h.built.setNodeAddress m addr
  virtualNodes := h.virtualNodes

include hnet

private theorem migrateToNewNode_returns (hr' : NodeRing hash hr) (hne : hr.hashValues ≠ [])
    (id addr : GoString) (hc : IsWf c) (world : ω) :
    Returns (migrateToNewNode net hash sched id addr c hr world)
      fun r => IsWf r.2.1 ∧ NodeRing hash r.2.2.1 := by
  obtain ⟨tasks, hplan⟩ := calculateMigrations_ok hash hr'.built.sorted
    (List.length_pos_iff.mpr hne) id (by rw [hr'.virtualNodes]; decide)
  have hplan : Returns (hr.calculateMigrations hash id) fun _ => True := ⟨tasks, hplan, trivial⟩
  refine hplan.bind fun tasks _ => ?_
  refine (migrateTasks_returns hnet hash sched _ 0 tasks hc world).bind fun r hwf => ?_
  obtain ⟨err, c₁, w₁⟩ := r
  exact .ok ⟨hwf, hr'.add id addr⟩

private theorem migrateFromLeavingNode_returns (hr' : NodeRing hash hr) (id : GoString)
    (hc : IsWf c) (world : ω) :
    Returns (migrateFromLeavingNode net hash sched id c hr world)
      fun r => IsWf r.2.1 ∧ NodeRing hash r.2.2.1 := by
  obtain ⟨tasks, hplan⟩ := calculateMigrationsForRemoval_ok hash hr'.built.sorted id
  have hplan : Returns (hr.calculateMigrationsForRemoval hash id) fun _ => True :=
    ⟨tasks, hplan, trivial⟩
  refine hplan.bind fun tasks _ => ?_
  split
  · exact .ok ⟨hc, (hr'.remove id).setNodeAddress id _⟩
  · refine (migrateTasks_returns hnet hash sched _ 0 tasks hc world).bind fun r hwf => ?_
    obtain ⟨err, c₁, w₁⟩ := r
    cases err with
    | some text => exact .ok ⟨hwf, hr'⟩
    | none => exact .ok ⟨hwf, hr'.remove id⟩

end Rings

/-! ## Commands -/

/-- A node that serves clients. -/
structure Serving {ω : Type} (hash : Bytes → UInt32) (n : ServerNode ω) : Prop where
  cache : IsWf n.cache
  ps : Consistent n.ps
  ring : ∀ hr, n.state.hashRing = some hr → NodeRing hash hr
  config : n.state.hashRing ≠ none → n.state.config ≠ none

/-- `ADDNODE` has strings for arguments and finds a ring; and unless it stops before the
    migration, because the node is known or cannot be reached or there is no migrator, the
    ring has positions. -/
def addNodeSafe {ω : Type} (net : Network ω) (n : ServerNode ω) : List Value → Bool
  | [] | [_] => true
  | .str id :: .str addr :: _ => n.state.hashRing.any fun hr =>
      decide (id ∈ hr.getAllNodes) || !(net.dial n.world addr).isOk || !n.state.migrator ||
        decide (hr.hashValues ≠ [])
  | _ :: _ :: _ => false

/-- `REMOVENODE` has a string for its argument, and finds a ring with that node. -/
def removeNodeSafe (ns : NodeState) : List Value → Bool
  | .str id :: _ => ns.hashRing.any fun hr => id ∈ hr.getAllNodes
  | _ :: _ => false
  | [] => true

/-- `TOPOLOGY` has strings for arguments, and finds a ring that it is to change. -/
def topologySafe (ns : NodeState) : List Value → Bool
  | operation :: id :: addr :: _ =>
    isString operation && (isString id && (isString addr &&
      (!(isCommand operation "ADD" || isCommand operation "REMOVE") || ns.hashRing.isSome)))
  | _ => true

/-- A `CLUSTER` command that is answered. -/
def clusterSafe {ω : Type} (net : Network ω) (n : ServerNode ω) : List Value → Bool
  | _ :: subcommand :: args =>
    isString subcommand &&
      if isCommand subcommand "ADDNODE" then addNodeSafe net n args
      else if isCommand subcommand "REMOVENODE" then removeNodeSafe n.state args
      else if isCommand subcommand "TOPOLOGY" then topologySafe n.state args
      else true
  | _ => true

section Commands

variable {ω : Type} {net : Network ω} {hash : Bytes → UInt32} {n : ServerNode ω}

@[simp] theorem encodeError_ne_nil (text : Bytes) : encodeError text ≠ [] := by
  simp [encodeError]

@[simp] theorem encodeBulkText_ne_nil (text : Bytes) : encodeBulkText text ≠ [] := by
  simp [encodeBulkText]

@[simp] theorem replyOK_ne_nil : replyOK ≠ [] := by decide

/-- Something is written to the client. -/
def Written {α : Type} (r : Bytes × α) : Prop := r.1 ≠ []

/-- A request that the process survives is answered. -/
theorem settles_written {α : Type} {inv : Bytes × α → Prop} {r : Bytes × α} (hinv : inv r)
    (h : r.1 ≠ []) {c : Prop} (hc : c) : Settles c (.ok r : Except Panic (Bytes × α)) Written inv :=
  .ok hinv ⟨fun _ => h, fun _ => hc⟩

/-- Behind a type assertion. -/
theorem settles_asString {α : Type} {v : Value} {f : GoString → Except Panic α} {c : Prop}
    {wanted inv : α → Prop} (h : ∀ s, v = .str s → Settles c (f s) wanted inv) :
    Settles (isString v = true ∧ c) (asString v >>= f) wanted inv := by
  cases v with
  | str s => exact (h s rfl).congr (and_iff_right rfl)
  | int _ | arr _ | nilArr => exact .error fun hc => nomatch hc.1

private theorem Serving.withRing (h : Serving hash n) {hr hr' : HashRing} {c : Cache}
    (hring : n.state.hashRing = some hr) (hr'' : NodeRing hash hr') (hc : IsWf c) (world : ω) :
    Serving hash { n with
      cache := c, state := { n.state with hashRing := some hr' }, world := world } where
  cache := hc
  ps := h.ps
  ring _ heq := by
    cases heq
    exact hr''
  config _ := h.config (by rw [hring]; exact fun hnone => nomatch hnone)

private theorem notify_returns (hnet : AnswersAll net) (world : ω)
    (addr operation id targetAddr : GoString) :
    Returns (notifyNodeAboutTopologyChange net world addr operation id targetAddr)
      fun _ => True := by
  unfold notifyNodeAboutTopologyChange
  split
  · exact .ok trivial
  · exact (exchange_returns hnet addr rfl _).bind fun _ _ => .ok trivial

private theorem broadcast_returns (hnet : AnswersAll net) (config : Config)
    (operation id addr : GoString) (nodes : List NodeInfo) (world : ω) :
    Returns (broadcast net config operation id addr nodes world) fun _ => True := by
  induction nodes generalizing world with
  | nil => exact .ok trivial
  | cons node nodes ih =>
    unfold broadcast
    split
    · exact ih world
    · exact (notify_returns hnet world _ _ _ _).bind fun world _ => ih world

/-- A migration to a new node panics exactly if the ring has no positions. -/
private theorem migrateToNewNode_settles (hnet : AnswersAll net) {hr : HashRing}
    (hr' : NodeRing hash hr) (sched : Schedule) (id addr : GoString) {c : Cache} (hc : IsWf c)
    (world : ω) :
    Settles (hr.hashValues ≠ []) (migrateToNewNode net hash sched id addr c hr world)
      (fun _ => True) fun r => IsWf r.2.1 ∧ NodeRing hash r.2.2.1 := by
  refine .of_returns (fun hne => ?_) fun r hr₁ hnil => ?_
  · obtain ⟨r, hr₁, hinv⟩ := migrateToNewNode_returns hnet sched hr' hne id addr hc world
    exact ⟨r, hr₁, trivial, hinv⟩
  · have hvnodes : hr.vnodes ≠ [] := by
      rw [HashRing.vnodes, hr'.virtualNodes]
      decide
    obtain ⟨tasks, hplan, -⟩ := bind_eq_ok.mp hr₁
    exact calculateMigrations_empty hash hnil hvnodes id tasks hplan

private theorem handleClusterAddNode_settles (hnet : AnswersAll net) (h : Serving hash n)
    (sched : Schedule) (command sub : Value) (args : List Value) :
    Settles (addNodeSafe net n args = true)
      (handleClusterAddNode net hash n sched (command :: sub :: args)) Written
      fun r => Serving hash r.2 := by
  match args with
  | [] => exact settles_written h (encodeError_ne_nil _) rfl
  | [_] => exact settles_written h (encodeError_ne_nil _) rfl
  | .int _ :: _ :: _ => exact .error (by simp [addNodeSafe])
  | .arr _ :: _ :: _ => exact .error (by simp [addNodeSafe])
  | .nilArr :: _ :: _ => exact .error (by simp [addNodeSafe])
  | .str _ :: .int _ :: _ => exact .error nofun
  | .str _ :: .arr _ :: _ => exact .error nofun
  | .str _ :: .nilArr :: _ => exact .error nofun
  | .str id :: .str addr :: rest =>
    rw [addNodeSafe, handleClusterAddNode]
    cases hring : n.state.hashRing with
    | none => exact .error nofun
    | some hr =>
      show Settles _ (if id ∈ hr.getAllNodes then _ else _) _ _
      rw [Option.any_some]
      by_cases hmem : id ∈ hr.getAllNodes
      · rw [if_pos hmem, decide_eq_true hmem]
        exact settles_written h (encodeError_ne_nil _) rfl
      rw [if_neg hmem, decide_eq_false hmem]
      cases net.dial n.world addr with
      | error text => exact settles_written h (encodeError_ne_nil _) rfl
      | ok world =>
        dsimp only
        by_cases hmigrator : n.state.migrator = true
        · rw [if_pos hmigrator]
          refine ((migrateToNewNode_settles hnet (h.ring hr hring) sched id addr h.cache
            world).congr (by rw [hmigrator]; exact decide_eq_true_iff)).bind fun r hwf => ?_
          obtain ⟨err, c, hr', w⟩ := r
          have hserving := h.withRing hring hwf.2 hwf.1
          cases err with
          | some text => exact .ok ⟨by simp [Written], hserving w⟩
          | none =>
            dsimp only
            split
            · next hnone => exact absurd hnone (h.config (by rw [hring]; exact fun h => nomatch h))
            next config _ =>
            refine (broadcast_returns hnet config _ _ _ _ _).bind fun w _ => ?_
            refine (notify_returns hnet w _ _ _ _).bind fun w _ => ?_
            exact .ok ⟨by simp [Written], hserving w⟩
        · rw [if_neg hmigrator, Bool.eq_false_iff.mpr hmigrator]
          exact settles_written ⟨h.cache, h.ps, h.ring, h.config⟩ (encodeError_ne_nil _) rfl

private theorem handleClusterRemoveNode_settles (hnet : AnswersAll net) (h : Serving hash n)
    (sched : Schedule) (command sub : Value) (args : List Value) :
    Settles (removeNodeSafe n.state args = true)
      (handleClusterRemoveNode net hash n sched (command :: sub :: args)) Written
      fun r => Serving hash r.2 := by
  match args with
  | [] => exact settles_written h (encodeError_ne_nil _) rfl
  | .int _ :: _ => exact .error nofun
  | .arr _ :: _ => exact .error nofun
  | .nilArr :: _ => exact .error nofun
  | .str id :: rest =>
    rw [removeNodeSafe, handleClusterRemoveNode]
    cases hring : n.state.hashRing with
    | none => exact .error nofun
    | some hr =>
      show Settles _ (if id ∈ hr.getAllNodes then _ else _) _ _
      rw [Option.any_some]
      by_cases hmem : id ∈ hr.getAllNodes
      · rw [if_pos hmem, decide_eq_true hmem]
        refine .of_returns (fun _ => ?_) fun _ _ => rfl
        split
        · refine (migrateFromLeavingNode_returns hnet sched (h.ring hr hring) id h.cache
            n.world).bind fun r hwf => ?_
          obtain ⟨err, c, hr', w⟩ := r
          have hserving := h.withRing hring hwf.2 hwf.1
          cases err with
          | some text => exact .ok ⟨encodeError_ne_nil _, hserving w⟩
          | none =>
            dsimp only
            split
            · next hnone => exact absurd hnone (h.config (by rw [hring]; exact fun h => nomatch h))
            next config _ =>
            refine (broadcast_returns hnet config _ _ _ _ _).bind fun w _ => ?_
            split
            · refine (notify_returns hnet w _ _ _ _).bind fun w _ => ?_
              exact .ok ⟨replyOK_ne_nil, hserving w⟩
            · exact .ok ⟨replyOK_ne_nil, hserving w⟩
        · exact .ok ⟨encodeError_ne_nil _, h⟩
      · -- nothing is written
        rw [if_neg hmem, decide_eq_false hmem]
        exact .ok h ⟨nofun, fun hwritten => absurd rfl hwritten⟩

private theorem handleClusterTopology_settles (h : Serving hash n) (command sub : Value)
    (args : List Value) :
    Settles (topologySafe n.state args = true)
      (handleClusterTopology hash n (command :: sub :: args)) Written
      fun r => Serving hash r.2 := by
  rcases args with _ | ⟨operation, _ | ⟨id, _ | ⟨addr, rest⟩⟩⟩
  · exact settles_written h (encodeError_ne_nil _) rfl
  · exact settles_written h (encodeError_ne_nil _) rfl
  · exact settles_written h (encodeError_ne_nil _) rfl
  · rw [topologySafe, Bool.and_eq_true, Bool.and_eq_true, Bool.and_eq_true]
    unfold handleClusterTopology
    refine settles_asString fun operation hop => settles_asString fun id _ =>
      settles_asString fun addr _ => ?_
    subst hop
    simp only [isCommand]
    by_cases hadd : operation = lit "ADD"
    · rw [if_pos hadd, decide_eq_true hadd]
      cases hring : n.state.hashRing with
      | none => exact .error Bool.false_ne_true
      | some hr =>
        exact settles_written (h.withRing hring ((h.ring hr hring).add id addr) h.cache n.world)
          replyOK_ne_nil rfl
    rw [if_neg hadd, decide_eq_false hadd]
    by_cases hremove : operation = lit "REMOVE"
    · rw [if_pos hremove, decide_eq_true hremove]
      cases hring : n.state.hashRing with
      | none => exact .error Bool.false_ne_true
      | some hr =>
        exact settles_written (h.withRing hring
          (((h.ring hr hring).remove id).setNodeAddress id _) h.cache n.world) replyOK_ne_nil rfl
    · rw [if_neg hremove, decide_eq_false hremove]
      exact settles_written h (encodeError_ne_nil _) rfl

private theorem handleClusterNodes_ne_nil (ns : NodeState) : handleClusterNodes ns ≠ [] := by
  unfold handleClusterNodes
  split
  · exact encodeError_ne_nil _
  · exact encodeBulkText_ne_nil _

private theorem handleClusterHealth_ne_nil (ns : NodeState) (order : List GoString) :
    handleClusterHealth ns order ≠ [] := by
  unfold handleClusterHealth
  split
  · exact encodeError_ne_nil _
  · exact encodeBulkText_ne_nil _

/-- The `CLUSTER` commands that are answered. -/
theorem handleClusterCommand_settles (hnet : AnswersAll net) (h : Serving hash n)
    (choices : Choices) (command : List Value) :
    Settles (clusterSafe net n command = true) (handleClusterCommand net hash n choices command)
      Written fun r => Serving hash r.2 := by
  match command with
  | [] => exact settles_written h (encodeError_ne_nil _) rfl
  | [_] => exact settles_written h (encodeError_ne_nil _) rfl
  | cluster :: sub :: args =>
    rw [clusterSafe, Bool.and_eq_true]
    unfold handleClusterCommand
    refine settles_asString fun name hname => ?_
    subst hname
    simp only [isCommand, decide_eq_true_eq]
    by_cases hadd : name = lit "ADDNODE"
    · rw [if_pos hadd, if_pos hadd]
      exact handleClusterAddNode_settles hnet h _ _ _ _
    rw [if_neg hadd, if_neg hadd]
    by_cases hremove : name = lit "REMOVENODE"
    · rw [if_pos hremove, if_pos hremove]
      exact handleClusterRemoveNode_settles hnet h _ _ _ _
    rw [if_neg hremove, if_neg hremove]
    by_cases hnodes : name = lit "NODES"
    · subst hnodes
      exact settles_written h (handleClusterNodes_ne_nil _) rfl
    rw [if_neg hnodes]
    by_cases htopology : name = lit "TOPOLOGY"
    · rw [if_pos htopology, if_pos htopology]
      exact handleClusterTopology_settles h _ _ _
    rw [if_neg htopology, if_neg htopology]
    split
    · exact settles_written h (handleClusterHealth_ne_nil _ _) rfl
    · exact settles_written h (encodeError_ne_nil _) rfl

end Commands

end GoCache.Spec
