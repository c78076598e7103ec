import GoCache.Spec.Replies

/-!
# Replies to cluster commands

`CLUSTER` commands quote their arguments, the errors of the network and, from a
migration that fails, a key of the cache. With all of these plain, the reply is one
RESP value. Only `REMOVENODE` of a node that is not in the ring has no reply.

## Key results

- `line_migrateTasks`: the error of a migration
- `value_handleClusterCommand`: the `CLUSTER` command
-/

namespace GoCache.Spec

open GoCache.Native Reading

/-! ## Migrations -/

/-- The errors of the network can be quoted on a line, if the address can. -/
structure PlainErrors {ω : Type} (net : Network ω) : Prop where
  dial : ∀ world addr text, isPlain addr → net.dial world addr = .error text →
    LineOf (maxAlloc / 4) text
  write : ∀ world addr cmd text, isPlain addr → net.write world addr cmd = .error text →
    LineOf (maxAlloc / 4) text

/-- The keys of a cache can be quoted on a line. -/
def PlainKeys (c : Cache) : Prop := ∀ k ∈ c.data, isPlain k

section Migrations

variable {ω : Type} {net : Network ω} {addr : GoString} {keys : List GoString} {text : Bytes}

private theorem line_transferKeysOnConnection {values : Finmap fun _ : GoString => GoString}
    {conn conn' : Connection ω}
    (h : transferKeysOnConnection net addr conn keys values = .ok (some text, conn')) :
    LineOf 64 text := by
  obtain ⟨⟨failCount, conn₁⟩, -, h⟩ := bind_eq_ok.mp h
  dsimp only at h
  split at h
  · have hpre : LineOf 24 (ascii "transfer incomplete: ") := by decide
    have hpost : LineOf 16 (ascii " keys failed") := by decide
    cases h
    exact ((hpre.append (lineOf_itoa _)).append hpost).mono (by decide)
  · exact nomatch h

private theorem line_batchLoop {keysOf : Nat → Except Panic (List GoString)}
    {values : Finmap fun _ : GoString => GoString} {batches i : Nat} {conn conn' : Connection ω}
    (h : batchLoop net addr keysOf values batches i conn = .ok (some text, conn')) :
    LineOf 128 text := by
  induction batches generalizing i conn with
  | zero => exact nomatch h
  | succ batches ih =>
    rw [batchLoop] at h
    obtain ⟨batchKeys, -, h⟩ := bind_eq_ok.mp h
    obtain ⟨⟨err, conn₁⟩, htransfer, h⟩ := bind_eq_ok.mp h
    cases err with
    | some failed =>
      have hpre : LineOf 8 (ascii "batch ") := by decide
      have hmid : LineOf 16 (ascii " failed: ") := by decide
      have hfailed := line_transferKeysOnConnection htransfer
      cases h
      exact (((hpre.append (lineOf_itoa _)).append hmid).append hfailed).mono (by decide)
    | none => exact ih h

private theorem line_transferKeysBatch (hnet : PlainErrors net) (haddr : isPlain addr)
    {world world' : ω} {values : Finmap fun _ : GoString => GoString} {size : Nat}
    (h : transferKeysBatch net addr world keys values size = .ok (some text, world')) :
    LineOf (maxAlloc / 2) text := by
  unfold transferKeysBatch transferBatches at h
  split at h
  · next failed hdial =>
    have hpre : LineOf 32 (ascii "failed to connect to ") := by decide
    have hmid : LineOf 2 (ascii ": ") := by decide
    have hfailed := hnet.dial _ _ _ haddr hdial
    cases h
    exact (((hpre.append haddr).append hmid).append hfailed).mono (by decide)
  · obtain ⟨⟨err, conn⟩, hbatch, h⟩ := bind_eq_ok.mp h
    cases h
    exact (line_batchLoop hbatch).mono (by decide)

private theorem line_verifyLoop (hnet : PlainErrors net) (haddr : isPlain addr)
    (hkeys : ∀ k ∈ keys, isPlain k) {conn conn' : Connection ω}
    (h : verifyLoop net addr keys conn = .ok (some text, conn')) :
    LineOf (maxAlloc / 2) text := by
  induction keys generalizing conn with
  | nil => cases h
  | cons key keys ih =>
    have hkey := hkeys key List.mem_cons_self
    have hmid : LineOf 2 (ascii ": ") := by decide
    rw [verifyLoop] at h
    split at h
    · next failed hwrite =>
      have hpre : LineOf 32 (ascii "verification failed for key ") := by decide
      have hfailed := hnet.write _ _ _ _ haddr hwrite
      cases h
      exact (((hpre.append hkey).append hmid).append hfailed).mono (by decide)
    · split at h
      · exact ih (fun k hmem => hkeys k (List.mem_cons_of_mem _ hmem)) h
      · next hparse =>
        have hpre : LineOf 64 (ascii "verification read failed for key ") := by decide
        have hfailed := fails_parse hparse
        cases h
        exact (((hpre.append hkey).append hmid).append hfailed).mono (by decide)
      · cases h

private theorem line_verifyTransfer (hnet : PlainErrors net) (haddr : isPlain addr)
    (hkeys : ∀ k ∈ keys, isPlain k) {world world' : ω}
    (h : verifyTransfer net addr world keys = .ok (some text, world')) :
    LineOf (maxAlloc / 2) text := by
  unfold verifyTransfer at h
  split at h
  · next failed hdial =>
    have hpre : LineOf 64 (ascii "failed to connect for verification: ") := by decide
    have hfailed := hnet.dial _ _ _ haddr hdial
    cases h
    exact (hpre.append hfailed).mono (by decide)
  · obtain ⟨⟨err, conn⟩, hverify, h⟩ := bind_eq_ok.mp h
    cases h
    exact line_verifyLoop hnet haddr hkeys hverify

variable {hash : Bytes → UInt32} {sched : Schedule} {c c' : Cache} {world world' : ω}
  {err : Option Bytes}

/-- A task: its error can be quoted, and its keys are keys of the cache. -/
private theorem line_migrateTask (hnet : PlainErrors net) (haddr : isPlain addr) {i : Nat}
    {task : MigrationTask} (hc : IsWf c) (hplain : PlainKeys c)
    (h : migrateTask net hash sched i task addr c world = .ok (err, c', world')) :
    IsWf c' ∧ PlainKeys c' ∧ ∀ text, err = some text → LineOf (maxAlloc / 2 + 64) text := by
  obtain ⟨source, rfl⟩ := hc
  have hmem : ∀ k ∈ source.cache.getKeysInHashRange (sched.order i source.cache) task.startHash
      task.endHash hash, isPlain k := by
    intro k hk
    have hfilter := (List.mem_filter.mp hk).2
    exact hplain k (of_decide_eq_true (Bool.and_eq_true_iff.mp hfilter).1)
  unfold migrateTask at h
  generalize source.cache.getKeysInHashRange _ _ _ _ = keys at h hmem
  split at h
  · cases h
    exact ⟨source.isWf, hplain, fun _ hnone => nomatch hnone⟩
  · obtain ⟨values, c₁, hread, hitem, -⟩ := readValues_eq (sched.clock i) keys 0 source ∅
    have hplain₁ : PlainKeys c₁.cache := by
      intro k hk
      rw [c₁.mem_data_iff_item?, hitem, ← source.mem_data_iff_item?] at hk
      exact hplain k hk
    have hnumber : LineOf 32 (ascii "task " ++ itoa (Int64.ofNat (i + 1))) :=
      ((by decide : LineOf 8 (ascii "task ")).append (lineOf_itoa _)).mono (by decide)
    rw [hread] at h
    change transferKeysBatch net addr world keys values 100 >>= _ = _ at h
    obtain ⟨⟨transferErr, w₁⟩, htransfer, h⟩ := bind_eq_ok.mp h
    cases transferErr with
    | some failed =>
      have hmid : LineOf 32 (ascii " transfer failed: ") := by decide
      have hfailed := line_transferKeysBatch hnet haddr htransfer
      cases h
      refine ⟨c₁.isWf, hplain₁, fun text htext => ?_⟩
      cases htext
      exact ((hnumber.append hmid).append hfailed).mono (by decide)
    | none =>
      obtain ⟨⟨verifyErr, w₂⟩, hverify, h⟩ := bind_eq_ok.mp h
      cases verifyErr with
      | some failed =>
        have hmid : LineOf 32 (ascii " verification failed: ") := by decide
        have hfailed := line_verifyTransfer hnet haddr hmem hverify
        cases h
        refine ⟨c₁.isWf, hplain₁, fun text htext => ?_⟩
        cases htext
        exact ((hnumber.append hmid).append hfailed).mono (by decide)
      | none =>
        obtain ⟨c₂, hdelete, hgone, hother⟩ := deleteKeys_eq keys c₁
        obtain ⟨c₃, hdelete', h⟩ := bind_eq_ok.mp h
        rw [hdelete] at hdelete'
        cases hdelete'
        cases h
        refine ⟨c₂.isWf, fun k hk => ?_, fun _ hnone => nomatch hnone⟩
        rw [c₂.mem_data_iff_item?] at hk
        by_cases hmoved : k ∈ keys
        · exact absurd (hgone k hmoved) hk
        · rw [hother k hmoved, ← c₁.mem_data_iff_item?] at hk
          exact hplain₁ k hk

private theorem line_migrateTasks (hnet : PlainErrors net) {addrOf : MigrationTask → GoString}
    (haddr : ∀ task, isPlain (addrOf task)) {i : Nat} {tasks : List MigrationTask} (hc : IsWf c)
    (hplain : PlainKeys c)
    (h : migrateTasks net hash sched addrOf i tasks c world = .ok (some text, c', world')) :
    LineOf (maxAlloc / 2 + 64) text := by
  induction tasks generalizing i c world with
  | nil => exact nomatch h
  | cons task tasks ih =>
    rw [migrateTasks] at h
    obtain ⟨⟨taskErr, c₁, w₁⟩, htask, h⟩ := bind_eq_ok.mp h
    obtain ⟨hc₁, hplain₁, hline⟩ := line_migrateTask hnet (haddr task) hc hplain htask
    cases taskErr with
    | some failed =>
      cases h
      exact hline text rfl
    | none => exact ih hc₁ hplain₁ h

end Migrations

/-! ## Cluster commands -/

section Cluster

variable {ω : Type} {net : Network ω} {hash : Bytes → UInt32} {n n' : ServerNode ω}
  {sched : Schedule} {reply : Bytes}

private theorem value_migrationFailed {text : Bytes} (h : LineOf (maxAlloc / 2 + 64) text) :
    IsValue (encodeError (ascii "Migration failed: " ++ text)) := by
  have hpre : LineOf 32 (ascii "Migration failed: ") := by decide
  exact value_encodeError ((hpre.append h).mono (by decide))

/-- `ADDNODE` quotes its arguments, the network and, from a migration, the keys. -/
private theorem AddNodeOutcome.value (hnet : PlainErrors net) (hc : IsWf n.cache)
    {command : List Value}
    (hplain : ∀ sub cmd id addr rest, command = cmd :: sub :: .str id :: .str addr :: rest →
      isPlain id ∧ isPlain addr ∧ PlainKeys n.cache)
    (h : AddNodeOutcome net hash n sched command reply n') : IsValue reply := by
  cases h with
  | usage | uninitialized => exact value_encodeError (by decide)
  | present hcommand =>
    obtain ⟨hid, -, -⟩ := hplain _ _ _ _ _ hcommand
    exact value_quoting (by decide : LineOf 64 (ascii "Node ")) hid
      (by decide : LineOf 64 (ascii " already exists in cluster"))
  | unreachable hcommand hdial =>
    obtain ⟨hid, haddr, -⟩ := hplain _ _ _ _ _ hcommand
    have hpre : LineOf 32 (ascii "Cannot connect to node ") := by decide
    have hat : LineOf 8 (ascii " at ") := by decide
    have hmid : LineOf 64 (ascii ". Make sure the node is running first. Error: ") := by decide
    have htext := hnet.dial _ _ _ haddr hdial
    exact value_encodeError ((((((hpre.append hid).append hat).append haddr).append
      hmid).append htext).mono (by decide))
  | failed hcommand _ _ _ hmigrate =>
    obtain ⟨-, haddr, hkeys⟩ := hplain _ _ _ _ _ hcommand
    obtain ⟨tasks, -, hmigrate⟩ := bind_eq_ok.mp hmigrate
    obtain ⟨⟨e, c₁, w₁⟩, htasks, hmigrate⟩ := bind_eq_ok.mp hmigrate
    cases hmigrate
    exact value_migrationFailed (line_migrateTasks hnet (fun _ => haddr) hc hkeys htasks)
  | added => exact value_replyOK

/-- `REMOVENODE` of a node of the ring quotes, from a migration, addresses and keys. -/
private theorem RemoveNodeOutcome.value (hnet : PlainErrors net) (hc : IsWf n.cache)
    {command : List Value}
    (hplain : ∀ sub cmd id rest hr, command = cmd :: sub :: .str id :: rest →
      n.state.hashRing = some hr →
        id ∈ hr.getAllNodes ∧ (∀ m, isPlain (hr.getNodeAddress m)) ∧ PlainKeys n.cache)
    (h : RemoveNodeOutcome net hash n sched command reply n') : IsValue reply := by
  cases h with
  | usage | uninitialized => exact value_encodeError (by decide)
  | absent hcommand hring hmem => exact absurd (hplain _ _ _ _ _ hcommand hring).1 hmem
  | failed hcommand hring _ _ hmigrate =>
    obtain ⟨-, haddr, hkeys⟩ := hplain _ _ _ _ _ hcommand hring
    obtain ⟨tasks, -, hmigrate⟩ := bind_eq_ok.mp hmigrate
    split at hmigrate
    · exact nomatch hmigrate
    · obtain ⟨⟨e, c₁, w₁⟩, htasks, hmigrate⟩ := bind_eq_ok.mp hmigrate
      cases e with
      | none => exact nomatch hmigrate
      | some failed =>
        cases hmigrate
        exact value_migrationFailed
          (line_migrateTasks hnet (fun task => haddr task.toNode) hc hkeys htasks)
  | removed => exact value_replyOK

private theorem TopologyOutcome.value (h : TopologyOutcome n reply n') : IsValue reply := by
  cases h with
  | usage | unknown => exact value_encodeError (by decide)
  | changed => exact value_replyOK

theorem length_flatMap_le {α : Type} {line core : α → Bytes} {extra : Nat}
    (h : ∀ a, (line a).length ≤ (core a).length + extra) (as : List α) :
    (as.flatMap line).length ≤ (as.flatMap core).length + extra * as.length := by
  induction as with
  | nil => simp
  | cons a as ih =>
    have hfirst := h a
    rw [List.flatMap_cons, List.flatMap_cons, List.length_append, List.length_append,
      List.length_cons, Nat.mul_add_one]
    omega

theorem length_string_le (status : NodeStatus) : status.string.length ≤ 9 := by
  cases status <;> decide

/-- What `CLUSTER NODES` lists fits one allocation: the names and addresses, and
    twelve bytes for each node. -/
def nodesFit (config : Config) : Prop :=
  (config.nodes.flatMap fun node => node.id.bytes ++ node.addr.bytes).length +
    12 * config.nodes.length ≤ maxAlloc

/-- What `CLUSTER HEALTH` lists fits one allocation. -/
def healthFits (hc : HealthChecker) (order : List GoString) : Prop :=
  (order.flatMap fun nodeID => nodeID.bytes ++
      ((hc.nodeHealth.lookup nodeID).map fun health => health.address.bytes).getD []).length +
    12 * order.length ≤ maxAlloc

private theorem value_handleClusterNodes {ns : NodeState}
    (hfits : ∀ config, ns.config = some config → nodesFit config) :
    IsValue (handleClusterNodes ns) := by
  unfold handleClusterNodes
  split
  · exact value_encodeError (by decide)
  · next config hconfig =>
    refine value_encodeBulkText (Nat.le_trans (length_flatMap_le (fun node => ?_) _)
      (hfits config hconfig))
    have hactive : (ascii "active").length ≤ 9 := by decide
    have hspace : (ascii " ").length = 1 := by decide
    cases ns.healthChecker with
    | none =>
      simp only [List.length_append, List.length_singleton, hspace]
      omega
    | some hc =>
      have hstatus := length_string_le (hc.getNodeStatus node.id)
      simp only [List.length_append, List.length_singleton, hspace]
      omega

private theorem value_handleClusterHealth {ns : NodeState} {order : List GoString}
    (hfits : ∀ hc, ns.healthChecker = some hc → healthFits hc order) :
    IsValue (handleClusterHealth ns order) := by
  unfold handleClusterHealth
  split
  · exact value_encodeError (by decide)
  · next hc hhealth =>
    refine value_encodeBulkText (Nat.le_trans (length_flatMap_le (fun nodeID => ?_) _)
      (hfits hc hhealth))
    have hspace : (ascii " ").length = 1 := by decide
    cases hlookup : hc.nodeHealth.lookup nodeID with
    | none => simp
    | some health =>
      have hstatus := length_string_le health.status
      simp only [List.length_append, List.length_singleton, hspace, Option.map_some,
        Option.getD_some]
      omega

/-- What a `CLUSTER` command quotes can be quoted, and what it lists fits. -/
structure ClusterPlain (n : ServerNode ω) (choices : Choices) (args : List GoString) : Prop where
  add : ∀ id addr rest, args = lit "ADDNODE" :: id :: addr :: rest →
    isPlain id ∧ isPlain addr ∧ PlainKeys n.cache
  remove : ∀ id rest hr, args = lit "REMOVENODE" :: id :: rest → n.state.hashRing = some hr →
    (∀ m, isPlain (hr.getNodeAddress m)) ∧ PlainKeys n.cache
  nodes : ∀ rest config, args = lit "NODES" :: rest → n.state.config = some config →
    nodesFit config
  health : ∀ rest hc, args = lit "HEALTH" :: rest → n.state.healthChecker = some hc →
    healthFits hc choices.nodes

/-- A `CLUSTER` command that does not ask for the removal of an unknown node. -/
theorem value_handleClusterCommand (hnet : PlainErrors net) (hc : IsWf n.cache)
    {choices : Choices} {command : GoString} {args : List GoString}
    (hremove : ∀ id rest hr, args = lit "REMOVENODE" :: id :: rest →
      n.state.hashRing = some hr → id ∈ hr.getAllNodes)
    (hplain : ClusterPlain n choices args)
    (h : handleClusterCommand net hash n choices (strs (command :: args)) = .ok (reply, n')) :
    IsValue reply := by
  cases handleClusterCommand_outcome h with
  | usage | unknown => exact value_encodeError (by decide)
  | topology _ htopology => exact htopology.value
  | addNode hcommand hadd =>
    refine hadd.value hnet hc fun sub cmd id addr rest heq => ?_
    match args, hcommand, heq with
    | _ :: _ :: _ :: _, hcommand, heq =>
      cases hcommand
      cases heq
      exact hplain.add _ _ _ rfl
  | removeNode hcommand hremoved =>
    refine hremoved.value hnet hc fun sub cmd id rest hr heq hring => ?_
    match args, hcommand, heq with
    | _ :: _ :: _, hcommand, heq =>
      cases hcommand
      cases heq
      exact ⟨hremove _ _ hr rfl hring, hplain.remove _ _ hr rfl hring⟩
  | nodes hcommand =>
    match args, hcommand with
    | _ :: _, hcommand =>
      cases hcommand
      exact value_handleClusterNodes fun config => hplain.nodes _ config rfl
  | health hcommand =>
    match args, hcommand with
    | _ :: _, hcommand =>
      cases hcommand
      exact value_handleClusterHealth fun hc => hplain.health _ hc rfl

end Cluster

end GoCache.Spec
