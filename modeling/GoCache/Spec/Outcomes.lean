import GoCache.Native.Connection
import GoCache.Spec.Execution

/-!
# How a handler returns

A handler that returns has gone through one of a few branches. The relations here
list the branches, each with what it has found out, so that a property of all
replies, or of all states behind a handler, is proved one branch at a time.

## Key results

- `handleSet_outcome`, `executeSetCommand_outcome` and the others: the commands on
  the cache, outside and in a transaction
- `switchCommand_outcome`: the second `switch`
- `handleClusterCommand_outcome`: the `CLUSTER` command, and one relation for each
  subcommand that changes the node
- `dispatch_outcome`, `handleCommand_outcome`: a request
- `handleCommand_server`: a request that gets to one of the handlers of a `Server`
-/

namespace GoCache.Spec

open GoCache.Native

/-! ## Commands on the cache -/

/-- The key of a command. -/
def keyOf : List Value → Option GoString
  | _ :: .str key :: _ => some key
  | _ => none

theorem keyOf_cons {command v : Value} {rest : List Value} {key : GoString}
    (h : asString v = .ok key) : keyOf (command :: v :: rest) = some key := by
  rw [isString_of_asString h]
  rfl

/-- What a command on the cache has done: it was refused with one of the errors, or
    the cache has done what it asks for. Only what `writes` sets and deletes keys. -/
inductive CacheOutcome (writes : Bool) (errors : List Bytes) (now : Time) (cmd : List Value)
    (c : Cache) : Bytes → Cache → Prop where
  | refused {text : Bytes} (hmem : text ∈ errors) :
      CacheOutcome writes errors now cmd c (encodeError text) c
  | set {key value : GoString} {ttl : Duration} {c' : Cache} (hwrites : writes = true)
      (hkey : keyOf cmd = some key) (h : c.set key value ttl now = .ok c') :
      CacheOutcome writes errors now cmd c replyOK c'
  | get {key : GoString} {result : GoString × Bool} {c' : Cache}
      (h : c.get key now = .ok (result, c')) :
      CacheOutcome writes errors now cmd c (replyGet result) c'
  | delete {key : GoString} {c' : Cache} (hwrites : writes = true) (hkey : keyOf cmd = some key)
      (h : c.delete key = .ok c') : CacheOutcome writes errors now cmd c replyDel c'

/-- The errors of `handleSet`. -/
def setErrors : List Bytes :=
  [ascii "ERR READONLY You can't write against a read only replica",
    ascii "Length of command doesn't match", ascii "Couldn't convert seconds to a string",
    ascii "ERR value is not an integer", ascii "ERR syntax error"]

/-- The errors of `handleGet`. -/
def getErrors : List Bytes := [ascii "Length of command doesn't match"]

/-- The errors of `handleDelete`. -/
def deleteErrors : List Bytes :=
  [ascii "ERR READONLY You can't write against a read only replica",
    ascii "Length of command doesn't match"]

/-- The errors of the `execute` functions. -/
def executeErrors : List Bytes :=
  [ascii "ERR wrong number of arguments for 'set' command",
    ascii "ERR wrong number of arguments for 'get' command",
    ascii "ERR wrong number of arguments for 'del' command",
    notInteger, ascii "ERR syntax error"]

section Cache

variable {s s' : Server} {c c' : Cache} {now : Time} {reply : Bytes} {resultSlice : List Value}

private theorem error_parseTTL {noInteger noIntegerEX text : Bytes} {rest : List Value}
    (h : parseTTL noInteger noIntegerEX rest = .ok (.error text)) :
    text ∈ [noInteger, noIntegerEX, ascii "ERR syntax error"] := by
  unfold parseTTL at h
  split at h
  · exact nomatch h
  · obtain ⟨seconds, -, h⟩ := bind_eq_ok.mp h
    split at h <;> cases h
    simp
  · obtain ⟨qualifier, -, h⟩ := bind_eq_ok.mp h
    split at h
    · obtain ⟨seconds, -, h⟩ := bind_eq_ok.mp h
      split at h <;> cases h
      simp
    · cases h
      simp

theorem handleSet_outcome (h : handleSet s now resultSlice = .ok (reply, s')) :
    CacheOutcome true setErrors now resultSlice s.cache reply s'.cache := by
  unfold handleSet at h
  split at h
  · cases h
    exact .refused (by simp [setErrors])
  · split at h
    · split at h
      · cases h
        exact .refused (by simp [setErrors])
      · obtain ⟨key, hstr, h⟩ := bind_eq_ok.mp h
        obtain ⟨value, -, h⟩ := bind_eq_ok.mp h
        obtain ⟨ttl, httl, h⟩ := bind_eq_ok.mp h
        cases ttl with
        | error text =>
          cases h
          exact .refused (List.mem_cons_of_mem _ (List.mem_cons_of_mem _ (error_parseTTL httl)))
        | ok ttl =>
          obtain ⟨c, hset, h⟩ := bind_eq_ok.mp h
          cases h
          rw [cache_persist]
          exact .set rfl (keyOf_cons hstr) hset
    · cases h
      exact .refused (by simp [setErrors])

theorem handleGet_outcome (h : handleGet s now resultSlice = .ok (reply, s')) :
    CacheOutcome false getErrors now resultSlice s.cache reply s'.cache ∧ s'.aof = s.aof := by
  unfold handleGet at h
  split at h
  · obtain ⟨key, -, h⟩ := bind_eq_ok.mp h
    obtain ⟨⟨result, c⟩, hget, h⟩ := bind_eq_ok.mp h
    cases h
    exact ⟨.get hget, rfl⟩
  · cases h
    exact ⟨.refused List.mem_cons_self, rfl⟩

theorem handleDelete_outcome (now : Time) (h : handleDelete s resultSlice = .ok (reply, s')) :
    CacheOutcome true deleteErrors now resultSlice s.cache reply s'.cache := by
  unfold handleDelete at h
  split at h
  · cases h
    exact .refused (by simp [deleteErrors])
  · split at h
    · obtain ⟨key, hstr, h⟩ := bind_eq_ok.mp h
      obtain ⟨c, hdelete, h⟩ := bind_eq_ok.mp h
      cases h
      rw [cache_persist]
      exact .delete rfl (keyOf_cons hstr) hdelete
    · cases h
      exact .refused (by simp [deleteErrors])

/-- The error for a wrong number of elements. -/
private theorem refused_wrongArguments {writes : Bool} {command : String}
    (h : ascii "ERR wrong number of arguments for '" ++ ascii command ++ ascii "' command" ∈
      executeErrors) :
    CacheOutcome writes executeErrors now resultSlice c (wrongArguments command) c :=
  .refused h

theorem executeSetCommand_outcome (h : executeSetCommand c now resultSlice = .ok (reply, c')) :
    CacheOutcome true executeErrors now resultSlice c reply c' := by
  have hwrong : CacheOutcome true executeErrors now resultSlice c (wrongArguments "set") c :=
    refused_wrongArguments (by decide)
  unfold executeSetCommand at h
  split at h
  · split at h
    · cases h
      exact hwrong
    · obtain ⟨key, hstr, h⟩ := bind_eq_ok.mp h
      obtain ⟨value, -, h⟩ := bind_eq_ok.mp h
      obtain ⟨ttl, httl, h⟩ := bind_eq_ok.mp h
      cases ttl with
      | error text =>
        have herror := error_parseTTL httl
        cases h
        refine .refused ?_
        simp only [List.mem_cons, List.not_mem_nil, or_false] at herror
        rcases herror with rfl | rfl | rfl <;> simp [executeErrors]
      | ok ttl =>
        obtain ⟨c₁, hset, h⟩ := bind_eq_ok.mp h
        cases h
        exact .set rfl (keyOf_cons hstr) hset
  · cases h
    exact hwrong

theorem executeGetCommand_outcome (h : executeGetCommand c now resultSlice = .ok (reply, c')) :
    CacheOutcome false executeErrors now resultSlice c reply c' := by
  unfold executeGetCommand at h
  split at h
  · obtain ⟨key, -, h⟩ := bind_eq_ok.mp h
    obtain ⟨⟨result, c₁⟩, hget, h⟩ := bind_eq_ok.mp h
    cases h
    exact .get hget
  · cases h
    exact refused_wrongArguments (by decide)

theorem executeDeleteCommand_outcome (now : Time)
    (h : executeDeleteCommand c resultSlice = .ok (reply, c')) :
    CacheOutcome true executeErrors now resultSlice c reply c' := by
  unfold executeDeleteCommand at h
  split at h
  · obtain ⟨key, hstr, h⟩ := bind_eq_ok.mp h
    obtain ⟨c₁, hdelete, h⟩ := bind_eq_ok.mp h
    cases h
    exact .delete rfl (keyOf_cons hstr) hdelete
  · cases h
    exact refused_wrongArguments (by decide)

/-- A queued command that writes. -/
def isWrite : List Value → Bool
  | .str command :: _ => command = lit "SET" || command = lit "DEL"
  | _ => false

/-- What `executeCommand` has done. -/
inductive ExecuteOutcome (now : Time) (cmd : List Value) (c : Cache) : Bytes → Cache → Prop where
  | cache {reply : Bytes} {c' : Cache}
      (h : CacheOutcome (isWrite cmd) executeErrors now cmd c reply c') :
      ExecuteOutcome now cmd c reply c'
  | ping : ExecuteOutcome now cmd c executePingCommand c
  | unknown {command : GoString} {args : List Value} (hcommand : cmd = .str command :: args) :
      ExecuteOutcome now cmd c
        (encodeError (ascii "ERR unknown command '" ++ command.bytes ++ ascii "'")) c

theorem executeCommand_outcome (h : executeCommand c now resultSlice = .ok (reply, c')) :
    ExecuteOutcome now resultSlice c reply c' := by
  rw [executeCommand_eq] at h
  split at h
  · split at h
    · next hset =>
      subst hset
      exact .cache (executeSetCommand_outcome h)
    split at h
    · next hget =>
      subst hget
      exact .cache (executeGetCommand_outcome h)
    split at h
    · next hdel =>
      subst hdel
      exact .cache (executeDeleteCommand_outcome now h)
    split at h
    · exact nomatch h
    split at h
    · cases h
      exact .ping
    · cases h
      exact .unknown rfl
  · exact nomatch h

end Cache

/-! ## The second `switch` -/

theorem isCommand_iff {command : Value} {name : String} :
    isCommand command name = true ↔ command = .str (lit name) := by
  cases command with
  | str t | int _ | arr _ | nilArr => simp [isCommand]

/-- What the second `switch` has done with a command other than `EXEC`. -/
inductive SwitchOutcome (s : Server) (st : ConnectionState) (clock : Nat → Time) (command : Value)
    (resultSlice : List Value) : Bytes → Server → ConnectionState → Prop where
  | set {reply : Bytes} {s' : Server} (hname : isCommand command "SET" = true)
      (h : handleSet s (clock 0) resultSlice = .ok (reply, s')) :
      SwitchOutcome s st clock command resultSlice reply s' st
  | get {reply : Bytes} {s' : Server} (hname : isCommand command "GET" = true)
      (h : handleGet s (clock 0) resultSlice = .ok (reply, s')) :
      SwitchOutcome s st clock command resultSlice reply s' st
  | delete {reply : Bytes} {s' : Server} (hname : isCommand command "DEL" = true)
      (h : handleDelete s resultSlice = .ok (reply, s')) :
      SwitchOutcome s st clock command resultSlice reply s' st
  | dbSize (hname : isCommand command "DBSIZE" = true) :
      SwitchOutcome s st clock command resultSlice (handleDBSize s) s st
  | ping (hname : isCommand command "PING" = true) :
      SwitchOutcome s st clock command resultSlice handlePing s st
  | multi (hname : isCommand command "MULTI" = true) :
      SwitchOutcome s st clock command resultSlice (handleMulti st).1 s (handleMulti st).2
  | discard (hname : isCommand command "DISCARD" = true) :
      SwitchOutcome s st clock command resultSlice (handleDiscard st).1 s (handleDiscard st).2
  | unknown {name : GoString} (hname : command = .str name)
      (hmulti : isCommand command "MULTI" = false)
      (hdiscard : isCommand command "DISCARD" = false) :
      SwitchOutcome s st clock command resultSlice
        (encodeError (ascii "ERR Unknown command '" ++ name.bytes ++ ascii "'")) s st

theorem switchCommand_outcome {s s' : Server} {st st' : ConnectionState} {clock : Nat → Time}
    {command : Value} {resultSlice : List Value} {reply : Bytes}
    (hexec : isCommand command "EXEC" = false)
    (h : switchCommand s st clock command resultSlice = .ok (reply, s', st')) :
    SwitchOutcome s st clock command resultSlice reply s' st' := by
  unfold switchCommand at h
  split at h
  · next hname =>
    obtain ⟨⟨r, t⟩, hset, h⟩ := bind_eq_ok.mp h
    cases h
    exact .set hname hset
  split at h
  · next hname =>
    obtain ⟨⟨r, t⟩, hget, h⟩ := bind_eq_ok.mp h
    cases h
    exact .get hname hget
  split at h
  · next hname =>
    obtain ⟨⟨r, t⟩, hdelete, h⟩ := bind_eq_ok.mp h
    cases h
    exact .delete hname hdelete
  split at h
  · next hname =>
    cases h
    exact .dbSize hname
  split at h
  · next hname =>
    cases h
    exact .ping hname
  split at h
  · next hname =>
    cases h
    exact .multi hname
  next hmulti =>
  rw [hexec, if_neg Bool.false_ne_true] at h
  split at h
  · next hname =>
    cases h
    exact .discard hname
  · next hdiscard =>
    obtain ⟨name, hname, h⟩ := bind_eq_ok.mp h
    cases h
    exact .unknown (isString_of_asString hname) (Bool.eq_false_iff.mpr hmulti)
      (Bool.eq_false_iff.mpr hdiscard)

/-! ## Cluster commands -/

section Cluster

variable {ω : Type} (net : Network ω) (hash : Bytes → UInt32) (n : ServerNode ω)

/-- A node behind a migration: its cache, its ring and the network have changed. -/
def migrated (c : Cache) (hr : HashRing) (world : ω) : ServerNode ω :=
  { n with cache := c, state := { n.state with hashRing := some hr }, world := world }

/-- What `handleClusterAddNode` has done. -/
inductive AddNodeOutcome (sched : Schedule) (command : List Value) :
    Bytes → ServerNode ω → Prop where
  | usage : AddNodeOutcome sched command
      (encodeError (ascii "ADDNODE requires nodeID and address")) n
  | present {cmd sub : Value} {id addr : GoString} {rest : List Value}
      (hcommand : command = cmd :: sub :: .str id :: .str addr :: rest) :
      AddNodeOutcome sched command
        (encodeError (ascii "Node " ++ id.bytes ++ ascii " already exists in cluster")) n
  | unreachable {cmd sub : Value} {id addr : GoString} {rest : List Value} {text : Bytes}
      (hcommand : command = cmd :: sub :: .str id :: .str addr :: rest)
      (hdial : net.dial n.world addr = .error text) :
      AddNodeOutcome sched command
        (encodeError (ascii "Cannot connect to node " ++ id.bytes ++ ascii " at " ++ addr.bytes ++
          ascii ". Make sure the node is running first. Error: " ++ text)) n
  | uninitialized {world : ω} : AddNodeOutcome sched command
      (encodeError (ascii "Cluster not initialized")) { n with world := world }
  | failed {cmd sub : Value} {id addr : GoString} {rest : List Value} {hr hr' : HashRing}
      {world world' : ω} {text : Bytes} {c : Cache}
      (hcommand : command = cmd :: sub :: .str id :: .str addr :: rest)
      (hring : n.state.hashRing = some hr) (hnew : id ∉ hr.getAllNodes)
      (hmigrator : n.state.migrator = true)
      (hmigrate : migrateToNewNode net hash sched id addr n.cache hr world =
        .ok (some text, c, hr', world')) :
      AddNodeOutcome sched command (encodeError (ascii "Migration failed: " ++ text))
        (migrated n c hr' world')
  | added {cmd sub : Value} {id addr : GoString} {rest : List Value} {hr hr' : HashRing}
      {config : Config} {w w₁ w₂ w₃ : ω} {c : Cache}
      (hcommand : command = cmd :: sub :: .str id :: .str addr :: rest)
      (hring : n.state.hashRing = some hr) (hnew : id ∉ hr.getAllNodes)
      (hmigrator : n.state.migrator = true)
      (hmigrate : migrateToNewNode net hash sched id addr n.cache hr w = .ok (none, c, hr', w₁))
      (hdial : net.dial n.world addr = .ok w) (hconfig : n.state.config = some config)
      (hbroadcast : broadcast net config (lit "ADD") id addr config.nodes w₁ = .ok w₂)
      (hnotify : notifyNodeAboutTopologyChange net w₂ addr (lit "ADD") id addr = .ok w₃) :
      AddNodeOutcome sched command replyOK (migrated n c hr' w₃)

/-- What `handleClusterRemoveNode` has done. -/
inductive RemoveNodeOutcome (sched : Schedule) (command : List Value) :
    Bytes → ServerNode ω → Prop where
  | usage : RemoveNodeOutcome sched command
      (encodeError (ascii "REMOVENODE requires nodeID")) n
  | absent {cmd sub : Value} {id : GoString} {rest : List Value} {hr : HashRing}
      (hcommand : command = cmd :: sub :: .str id :: rest)
      (hring : n.state.hashRing = some hr) (hmem : id ∉ hr.getAllNodes) :
      RemoveNodeOutcome sched command [] n
  | uninitialized : RemoveNodeOutcome sched command
      (encodeError (ascii "Cluster is not initialized")) n
  | failed {cmd sub : Value} {id : GoString} {rest : List Value} {hr hr' : HashRing}
      {world' : ω} {text : Bytes} {c : Cache}
      (hcommand : command = cmd :: sub :: .str id :: rest)
      (hring : n.state.hashRing = some hr) (hmem : id ∈ hr.getAllNodes)
      (hmigrator : n.state.migrator = true)
      (hmigrate : migrateFromLeavingNode net hash sched id n.cache hr n.world =
        .ok (some text, c, hr', world')) :
      RemoveNodeOutcome sched command (encodeError (ascii "Migration failed: " ++ text))
        (migrated n c hr' world')
  | removed {cmd sub : Value} {id : GoString} {rest : List Value} {hr hr' : HashRing}
      {config : Config} {w₁ w₂ w₃ : ω} {c : Cache}
      (hcommand : command = cmd :: sub :: .str id :: rest)
      (hring : n.state.hashRing = some hr) (hmem : id ∈ hr.getAllNodes)
      (hmigrator : n.state.migrator = true)
      (hmigrate : migrateFromLeavingNode net hash sched id n.cache hr n.world =
        .ok (none, c, hr', w₁))
      (hconfig : n.state.config = some config)
      (hbroadcast : broadcast net config (lit "REMOVE") id GoString.empty config.nodes w₁ = .ok w₂)
      (hnotify : (if hr'.getNodeAddress id ≠ GoString.empty then notifyNodeAboutTopologyChange net
        w₂ (hr'.getNodeAddress id) (lit "REMOVE") id GoString.empty else .ok w₂) = .ok w₃) :
      RemoveNodeOutcome sched command replyOK (migrated n c hr' w₃)

/-- What `handleClusterTopology` has done. -/
inductive TopologyOutcome : Bytes → ServerNode ω → Prop where
  | usage : TopologyOutcome
      (encodeError (ascii "TOPOLOGY requires operation, nodeID, and address")) n
  | unknown : TopologyOutcome (encodeError (ascii "Unknown TOPOLOGY operation")) n
  | changed {hr : HashRing} :
      TopologyOutcome replyOK { n with state := { n.state with hashRing := some hr } }

/-- What `handleClusterCommand` has done. -/
inductive ClusterOutcome (choices : Choices) (command : List Value) :
    Bytes → ServerNode ω → Prop where
  | usage : ClusterOutcome choices command
      (encodeError (ascii "CLUSTER command requires subcommand")) n
  | unknown : ClusterOutcome choices command (encodeError (ascii "Unknown CLUSTER subcommand")) n
  | addNode {cmd : Value} {args : List Value} {reply : Bytes} {n' : ServerNode ω}
      (hcommand : command = cmd :: .str (lit "ADDNODE") :: args)
      (h : AddNodeOutcome net hash n choices.sched command reply n') :
      ClusterOutcome choices command reply n'
  | removeNode {cmd : Value} {args : List Value} {reply : Bytes} {n' : ServerNode ω}
      (hcommand : command = cmd :: .str (lit "REMOVENODE") :: args)
      (h : RemoveNodeOutcome net hash n choices.sched command reply n') :
      ClusterOutcome choices command reply n'
  | topology {cmd : Value} {args : List Value} {reply : Bytes} {n' : ServerNode ω}
      (hcommand : command = cmd :: .str (lit "TOPOLOGY") :: args)
      (h : TopologyOutcome n reply n') : ClusterOutcome choices command reply n'
  | nodes {cmd : Value} {args : List Value}
      (hcommand : command = cmd :: .str (lit "NODES") :: args) :
      ClusterOutcome choices command (handleClusterNodes n.state) n
  | health {cmd : Value} {args : List Value}
      (hcommand : command = cmd :: .str (lit "HEALTH") :: args) :
      ClusterOutcome choices command (handleClusterHealth n.state choices.nodes) n

variable {net hash n} {n' : ServerNode ω} {sched : Schedule} {choices : Choices}
  {command : List Value} {reply : Bytes}

private theorem handleClusterAddNode_outcome
    (h : handleClusterAddNode net hash n sched command = .ok (reply, n')) :
    AddNodeOutcome net hash n sched command reply n' := by
  unfold handleClusterAddNode at h
  split at h
  · next cmd sub idValue addrValue rest =>
    obtain ⟨id, hid, h⟩ := bind_eq_ok.mp h
    obtain ⟨addr, haddr, h⟩ := bind_eq_ok.mp h
    have hcommand : cmd :: sub :: idValue :: addrValue :: rest =
        cmd :: sub :: .str id :: .str addr :: rest := by
      rw [isString_of_asString hid, isString_of_asString haddr]
    split at h
    · exact nomatch h
    next hr hring =>
    split at h
    · cases h
      exact .present hcommand
    next hnew =>
    split at h
    · next text hdial =>
      cases h
      exact .unreachable hcommand hdial
    next w hdial =>
    split at h
    · next hmigrator =>
      obtain ⟨⟨err, c, hr', w₁⟩, hmigrate, h⟩ := bind_eq_ok.mp h
      cases err with
      | some text =>
        cases h
        exact .failed hcommand hring hnew hmigrator hmigrate
      | none =>
        dsimp only at h
        split at h
        · exact nomatch h
        next config hconfig =>
        obtain ⟨w₂, hbroadcast, h⟩ := bind_eq_ok.mp h
        obtain ⟨w₃, hnotify, h⟩ := bind_eq_ok.mp h
        cases h
        exact .added hcommand hring hnew hmigrator hmigrate hdial hconfig hbroadcast hnotify
    · cases h
      exact .uninitialized
  · cases h
    exact .usage

private theorem handleClusterRemoveNode_outcome
    (h : handleClusterRemoveNode net hash n sched command = .ok (reply, n')) :
    RemoveNodeOutcome net hash n sched command reply n' := by
  unfold handleClusterRemoveNode at h
  split at h
  · next cmd sub idValue rest =>
    obtain ⟨id, hid, h⟩ := bind_eq_ok.mp h
    have hcommand : cmd :: sub :: idValue :: rest = cmd :: sub :: .str id :: rest := by
      rw [isString_of_asString hid]
    split at h
    · exact nomatch h
    next hr hring =>
    split at h
    · next hmem =>
      split at h
      · next hmigrator =>
        obtain ⟨⟨err, c, hr', w₁⟩, hmigrate, h⟩ := bind_eq_ok.mp h
        cases err with
        | some text =>
          cases h
          exact .failed hcommand hring hmem hmigrator hmigrate
        | none =>
          dsimp only at h
          split at h
          · exact nomatch h
          next config hconfig =>
          obtain ⟨w₂, hbroadcast, h⟩ := bind_eq_ok.mp h
          -- with and without an address of the leaving node
          split at h
          · next haddr =>
            obtain ⟨w₃, hnotify, h⟩ := bind_eq_ok.mp h
            cases h
            exact .removed hcommand hring hmem hmigrator hmigrate hconfig hbroadcast
              ((if_pos haddr).trans hnotify)
          · next haddr =>
            cases h
            exact .removed hcommand hring hmem hmigrator hmigrate hconfig hbroadcast (if_neg haddr)
      · cases h
        exact .uninitialized
    · next hmem =>
      cases h
      exact .absent hcommand hring hmem
  · cases h
    exact .usage

private theorem handleClusterTopology_outcome
    (h : handleClusterTopology hash n command = .ok (reply, n')) : TopologyOutcome n reply n' := by
  unfold handleClusterTopology at h
  split at h
  · obtain ⟨operation, -, h⟩ := bind_eq_ok.mp h
    obtain ⟨id, -, h⟩ := bind_eq_ok.mp h
    obtain ⟨addr, -, h⟩ := bind_eq_ok.mp h
    split at h
    · split at h <;> cases h
      exact .changed
    · split at h
      · split at h <;> cases h
        exact .changed
      · cases h
        exact .unknown
  · cases h
    exact .usage

theorem handleClusterCommand_outcome
    (h : handleClusterCommand net hash n choices command = .ok (reply, n')) :
    ClusterOutcome net hash n choices command reply n' := by
  unfold handleClusterCommand at h
  split at h
  · next cmd sub args =>
    obtain ⟨subcommand, hsub, h⟩ := bind_eq_ok.mp h
    have hcommand : cmd :: sub :: args = cmd :: .str subcommand :: args := by
      rw [isString_of_asString hsub]
    split at h
    · next hname =>
      rw [hname] at hcommand
      exact .addNode hcommand (handleClusterAddNode_outcome h)
    split at h
    · next hname =>
      rw [hname] at hcommand
      exact .removeNode hcommand (handleClusterRemoveNode_outcome h)
    split at h
    · next hname =>
      rw [hname] at hcommand
      cases h
      exact .nodes hcommand
    split at h
    · next hname =>
      rw [hname] at hcommand
      exact .topology hcommand (handleClusterTopology_outcome h)
    split at h
    · next hname =>
      rw [hname] at hcommand
      cases h
      exact .health hcommand
    · cases h
      exact .unknown
  · cases h
    exact .usage

theorem handleClusterCommand_addNode (net : Network ω) (hash : Bytes → UInt32) (n : ServerNode ω)
    (choices : Choices) (command : Value) (args : List Value) :
    handleClusterCommand net hash n choices (command :: .str (lit "ADDNODE") :: args) =
      handleClusterAddNode net hash n choices.sched
        (command :: .str (lit "ADDNODE") :: args) := by
  simp only [handleClusterCommand, asString, bind, Except.bind, if_true]

theorem handleClusterCommand_removeNode (net : Network ω) (hash : Bytes → UInt32)
    (n : ServerNode ω) (choices : Choices) (command : Value) (args : List Value) :
    handleClusterCommand net hash n choices (command :: .str (lit "REMOVENODE") :: args) =
      handleClusterRemoveNode net hash n choices.sched
        (command :: .str (lit "REMOVENODE") :: args) := by
  have hsub : ¬ lit "REMOVENODE" = lit "ADDNODE" := by decide
  simp only [handleClusterCommand, asString, bind, Except.bind, if_neg hsub, if_true]

/-- An error is not the reply `+OK`. -/
theorem encodeError_ne_replyOK (text : Bytes) : encodeError text ≠ replyOK :=
  fun h => absurd (List.cons.inj h).1 (by decide)

/-- All that an `ADDNODE` with the reply `+OK` has done. -/
theorem clusterAddNode_ok {id addr : GoString}
    (h : handleClusterCommand net hash n choices
      [.str (lit "CLUSTER"), .str (lit "ADDNODE"), .str id, .str addr] = .ok (replyOK, n')) :
    ∃ hr config w c hr' w₁ w₂ w₃, n.state.hashRing = some hr ∧ n.state.config = some config ∧
      id ∉ hr.getAllNodes ∧ net.dial n.world addr = .ok w ∧
      migrateToNewNode net hash choices.sched id addr n.cache hr w = .ok (none, c, hr', w₁) ∧
      broadcast net config (lit "ADD") id addr config.nodes w₁ = .ok w₂ ∧
      notifyNodeAboutTopologyChange net w₂ addr (lit "ADD") id addr = .ok w₃ ∧
      n' = migrated n c hr' w₃ := by
  rw [handleClusterCommand_addNode] at h
  have houtcome := handleClusterAddNode_outcome h
  generalize hreply : replyOK = reply at houtcome
  cases houtcome with
  | added hcommand hring hnew hmigrator hmigrate hdial hconfig hbroadcast hnotify =>
    cases hcommand
    exact ⟨_, _, _, _, _, _, _, _, hring, hconfig, hnew, hdial, hmigrate, hbroadcast, hnotify, rfl⟩
  | _ => exact absurd hreply.symm (encodeError_ne_replyOK _)

/-- When every step succeeds, `ADDNODE` is answered with `+OK`. -/
theorem clusterAddNode_of_steps {id addr : GoString} {hr hr' : HashRing} {config : Config}
    {c : Cache} {w w₁ w₂ w₃ : ω} (hring : n.state.hashRing = some hr)
    (hconfig : n.state.config = some config) (hmigrator : n.state.migrator = true)
    (hnew : id ∉ hr.getAllNodes) (hdial : net.dial n.world addr = .ok w)
    (hmigrate : migrateToNewNode net hash choices.sched id addr n.cache hr w =
      .ok (none, c, hr', w₁))
    (hbroadcast : broadcast net config (lit "ADD") id addr config.nodes w₁ = .ok w₂)
    (hnotify : notifyNodeAboutTopologyChange net w₂ addr (lit "ADD") id addr = .ok w₃) :
    handleClusterCommand net hash n choices
      [.str (lit "CLUSTER"), .str (lit "ADDNODE"), .str id, .str addr] =
        .ok (replyOK, migrated n c hr' w₃) := by
  rw [handleClusterCommand_addNode]
  unfold handleClusterAddNode
  simp only [asString, bind, Except.bind, hring, if_neg hnew, hdial, hmigrator, if_true, hmigrate,
    hconfig, hbroadcast, hnotify, migrated]
  rfl

/-- All that a `REMOVENODE` with the reply `+OK` has done. -/
theorem clusterRemoveNode_ok {id : GoString}
    (h : handleClusterCommand net hash n choices
      [.str (lit "CLUSTER"), .str (lit "REMOVENODE"), .str id] = .ok (replyOK, n')) :
    ∃ hr config c hr' w₁ w₂ w₃, n.state.hashRing = some hr ∧ n.state.config = some config ∧
      id ∈ hr.getAllNodes ∧
      migrateFromLeavingNode net hash choices.sched id n.cache hr n.world =
        .ok (none, c, hr', w₁) ∧
      broadcast net config (lit "REMOVE") id GoString.empty config.nodes w₁ = .ok w₂ ∧
      (if hr'.getNodeAddress id ≠ GoString.empty then
        notifyNodeAboutTopologyChange net w₂ (hr'.getNodeAddress id) (lit "REMOVE") id
          GoString.empty
        else .ok w₂) = .ok w₃ ∧
      n' = migrated n c hr' w₃ := by
  rw [handleClusterCommand_removeNode] at h
  have houtcome := handleClusterRemoveNode_outcome h
  generalize hreply : replyOK = reply at houtcome
  cases houtcome with
  | removed hcommand hring hmem hmigrator hmigrate hconfig hbroadcast hnotify =>
    cases hcommand
    exact ⟨_, _, _, _, _, _, _, hring, hconfig, hmem, hmigrate, hbroadcast, hnotify, rfl⟩
  | absent => cases hreply
  | _ => exact absurd hreply.symm (encodeError_ne_replyOK _)

end Cluster

/-! ## Requests -/

section Requests

variable {ω : Type} (exec : ExecHandler) (net : Network ω) (hash : Bytes → UInt32) (conn : ConnID)
  (n : ServerNode ω)
  (st : ConnectionState) (choices : Choices)

/-- The key by which a request is routed. -/
def routingKey : List Value → Except Panic GoString
  | _ :: key :: _ => asString key
  | _ => .ok GoString.empty

/-- What `handleConnection` has done with a command that is not queued. -/
inductive DispatchOutcome (command : Value) (resultSlice : List Value) :
    Bytes → ServerNode ω → ConnectionState → Prop where
  | subscribe {reply : Bytes} {ps : PubSub} {st' : ConnectionState}
      (hname : isCommand command "SUBSCRIBE" = true)
      (h : handleSubscribe conn n.ps st resultSlice = .ok (reply, ps, st')) :
      DispatchOutcome command resultSlice reply { n with ps := ps } st'
  | unsubscribe {reply : Bytes} {ps : PubSub} {st' : ConnectionState}
      (hname : isCommand command "UNSUBSCRIBE" = true)
      (h : handleUnsubscribe conn choices.channels n.ps st resultSlice = .ok (reply, ps, st')) :
      DispatchOutcome command resultSlice reply { n with ps := ps } st'
  | publish {reply : Bytes} {ps : PubSub} (hname : isCommand command "PUBLISH" = true)
      (h : handlePublish choices.connections n.ps resultSlice = .ok (reply, ps)) :
      DispatchOutcome command resultSlice reply { n with ps := ps } st
  | cluster {reply : Bytes} {n' : ServerNode ω} (hname : isCommand command "CLUSTER" = true)
      (h : handleClusterCommand net hash n choices resultSlice = .ok (reply, n')) :
      DispatchOutcome command resultSlice reply n' st
  | moved {key : GoString} {reply : Bytes} (hsub : isCommand command "SUBSCRIBE" = false)
      (hunsub : isCommand command "UNSUBSCRIBE" = false)
      (h : movedTo (n.server hash) command key = some reply) :
      DispatchOutcome command resultSlice reply n st
  | exec {reply : Bytes} {s : Server} {st' : ConnectionState}
      (hname : isCommand command "EXEC" = true)
      (h : exec (n.server hash) st choices.clock = .ok (reply, s, st')) :
      DispatchOutcome command resultSlice reply (n.update s) st'
  | switch {reply : Bytes} {s : Server} {st' : ConnectionState}
      (hsub : isCommand command "SUBSCRIBE" = false)
      (hunsub : isCommand command "UNSUBSCRIBE" = false)
      (hexec : isCommand command "EXEC" = false)
      (h : switchCommand (n.server hash) st choices.clock command resultSlice =
        .ok (reply, s, st')) :
      DispatchOutcome command resultSlice reply (n.update s) st'

/-- What `handleConnection` has done with a command. -/
inductive HandleOutcome (name : GoString) (resultSlice : List Value) :
    Bytes → ServerNode ω → ConnectionState → Prop where
  | refused (hmode : st.subscriberMode = true) (hname : allowedSubscribed (.str name) = false) :
      HandleOutcome name resultSlice (encodeError (ascii
        "ERR only (P)SUBSCRIBE / (P)UNSUBSCRIBE / PING / QUIT allowed in this context")) n st
  | queued (hin : st.inTransaction = true)
      (hcontrol : ¬(name = lit "EXEC" ∨ name = lit "DISCARD"))
      (hcan : canQueueCommand name = true) :
      HandleOutcome name resultSlice (queueCommandForTransaction st name resultSlice).1 n
        (queueCommandForTransaction st name resultSlice).2
  | notQueued (hin : st.inTransaction = true)
      (hcontrol : ¬(name = lit "EXEC" ∨ name = lit "DISCARD"))
      (hcan : canQueueCommand name = false) :
      HandleOutcome name resultSlice (encodeError (ascii "ERR command '" ++ name.bytes ++
        ascii " cannot be used in a transaction")) n st
  | dispatched {reply : Bytes} {n' : ServerNode ω} {st' : ConnectionState}
      (hmode : st.subscriberMode = true → allowedSubscribed (.str name) = true)
      (hin : st.inTransaction = true → name = lit "EXEC" ∨ name = lit "DISCARD")
      (h : n.dispatch exec net hash conn st choices (.str name) resultSlice =
        .ok (reply, n', st')) : HandleOutcome name resultSlice reply n' st'

variable {exec net hash conn n st choices} {n' : ServerNode ω} {st' : ConnectionState}
  {command : Value} {resultSlice : List Value} {reply : Bytes}

/-- A command that is none of the pub/sub and cluster commands. -/
theorem dispatch_other (hsub : isCommand command "SUBSCRIBE" = false)
    (hunsub : isCommand command "UNSUBSCRIBE" = false)
    (hpublish : isCommand command "PUBLISH" = false)
    (hcluster : isCommand command "CLUSTER" = false) :
    n.dispatch exec net hash conn st choices command resultSlice =
      routingKey resultSlice >>= fun key =>
        match movedTo (n.server hash) command key with
        | some moved => .ok (moved, n, st)
        | none => n.switchCommand exec hash st choices.clock command resultSlice := by
  unfold ServerNode.dispatch
  rw [hsub, hunsub, hpublish, hcluster]
  match resultSlice with
  | [] => rfl
  | [_] => rfl
  | _ :: _ :: _ => rfl

/-- A new connection's `CLUSTER` command goes to the cluster's handler. -/
theorem handleCommand_cluster (args : List Value) :
    n.handleCommand exec net hash conn .new choices (.str (lit "CLUSTER") :: args) =
      handleClusterCommand net hash n choices (.str (lit "CLUSTER") :: args) >>= fun r =>
        .ok (r.1, r.2, .new) := rfl

theorem switchCommand_eq (clock : Nat → Time) :
    n.switchCommand exec hash st clock command resultSlice =
      (if isCommand command "EXEC" then exec (n.server hash) st clock
        else switchCommand (n.server hash) st clock command resultSlice) >>= fun r =>
          .ok (r.1, n.update r.2.1, r.2.2) := by
  unfold ServerNode.switchCommand
  split <;> rfl

/-! `Native.handleCommand` is the same loop for those who need no more of a node than what
`handleSet` and the others work on. -/

private theorem dispatch_server (other : OtherHandlers)
    (hname : ["SUBSCRIBE", "UNSUBSCRIBE", "PUBLISH", "CLUSTER"].any (isCommand command) = false)
    (hexec : isCommand command "EXEC" = true → exec = handleExec) :
    n.dispatch exec net hash conn st choices command resultSlice =
      (dispatch other (n.server hash) st choices.clock command resultSlice).map fun r =>
        (r.1, n.update r.2.1, r.2.2) := by
  obtain ⟨hsub, hunsub, hpublish, hcluster⟩ : isCommand command "SUBSCRIBE" = false ∧
      isCommand command "UNSUBSCRIBE" = false ∧ isCommand command "PUBLISH" = false ∧
      isCommand command "CLUSTER" = false := by
    simpa using hname
  have hswitch : (if isCommand command "EXEC" then exec (n.server hash) st choices.clock
      else switchCommand (n.server hash) st choices.clock command resultSlice) =
      switchCommand (n.server hash) st choices.clock command resultSlice := by
    split
    · next hcommand =>
      rw [hexec hcommand, isCommand_iff.mp hcommand]
      rfl
    · rfl
  have hroute : dispatch other (n.server hash) st choices.clock command resultSlice =
      routingKey resultSlice >>= fun key =>
        match movedTo (n.server hash) command key with
        | some moved => .ok (moved, n.server hash, st)
        | none => switchCommand (n.server hash) st choices.clock command resultSlice := by
    unfold dispatch
    rw [hname]
    match resultSlice with
    | [] => rfl
    | [_] => rfl
    | _ :: _ :: _ => rfl
  rw [dispatch_other hsub hunsub hpublish hcluster, hroute]
  cases routingKey resultSlice with
  | error p => rfl
  | ok key =>
    show (match movedTo (n.server hash) command key with | some moved => _ | none => _) =
      Except.map _ (match movedTo (n.server hash) command key with | some moved => _ | none => _)
    cases movedTo (n.server hash) command key with
    | some moved => rfl
    | none =>
      show n.switchCommand exec hash st choices.clock command resultSlice = _
      rw [switchCommand_eq, hswitch]
      cases switchCommand (n.server hash) st choices.clock command resultSlice <;> rfl

/-- The two agree on every request that is none of the pub/sub and cluster commands. -/
theorem handleCommand_server (other : OtherHandlers) {args : List Value}
    (hname : ["SUBSCRIBE", "UNSUBSCRIBE", "PUBLISH", "CLUSTER"].any (isCommand command) = false)
    (hexec : isCommand command "EXEC" = true → exec = handleExec) :
    n.handleCommand exec net hash conn st choices (command :: args) =
      (handleCommand other (n.server hash) st choices.clock (command :: args)).map fun r =>
        (r.1, n.update r.2.1, r.2.2) := by
  have hdispatch : n.dispatch exec net hash conn st choices command (command :: args) = _ :=
    dispatch_server other hname hexec
  unfold ServerNode.handleCommand handleCommand
  dsimp only
  split
  · rfl
  · -- only a string is queued
    cases command with
    | str cmdStr =>
      cases st.inTransaction with
      | false => exact hdispatch
      | true =>
        dsimp only
        split
        · exact hdispatch
        · split <;> rfl
    | int _ | arr _ | nilArr => exact hdispatch

theorem dispatch_outcome
    (h : n.dispatch exec net hash conn st choices command resultSlice = .ok (reply, n', st')) :
    DispatchOutcome exec net hash conn n st choices command resultSlice reply n' st' := by
  by_cases hsub : isCommand command "SUBSCRIBE" = true
  · obtain rfl := isCommand_iff.mp hsub
    obtain ⟨⟨r, ps, t⟩, hhandle, h⟩ := bind_eq_ok.mp h
    cases h
    exact .subscribe hsub hhandle
  by_cases hunsub : isCommand command "UNSUBSCRIBE" = true
  · obtain rfl := isCommand_iff.mp hunsub
    obtain ⟨⟨r, ps, t⟩, hhandle, h⟩ := bind_eq_ok.mp h
    cases h
    exact .unsubscribe hunsub hhandle
  by_cases hpublish : isCommand command "PUBLISH" = true
  · obtain rfl := isCommand_iff.mp hpublish
    obtain ⟨⟨r, ps⟩, hhandle, h⟩ := bind_eq_ok.mp h
    cases h
    exact .publish hpublish hhandle
  by_cases hcluster : isCommand command "CLUSTER" = true
  · obtain rfl := isCommand_iff.mp hcluster
    obtain ⟨⟨r, m⟩, hhandle, h⟩ := bind_eq_ok.mp h
    cases h
    exact .cluster hcluster hhandle
  rw [Bool.not_eq_true] at hsub hunsub hpublish hcluster
  rw [dispatch_other hsub hunsub hpublish hcluster] at h
  obtain ⟨key, -, h⟩ := bind_eq_ok.mp h
  split at h
  · next moved hmoved =>
    cases h
    exact .moved hsub hunsub hmoved
  · rw [switchCommand_eq] at h
    obtain ⟨⟨r, s, t⟩, hswitch, h⟩ := bind_eq_ok.mp h
    cases h
    split at hswitch
    · next hexec => exact .exec hexec hswitch
    · next hexec => exact .switch hsub hunsub (Bool.eq_false_iff.mpr hexec) hswitch

theorem handleCommand_outcome {name : GoString} {args : List Value}
    (h : n.handleCommand exec net hash conn st choices (.str name :: args) =
      .ok (reply, n', st')) :
    HandleOutcome exec net hash conn n st choices name (.str name :: args) reply n' st' := by
  unfold ServerNode.handleCommand at h
  dsimp only at h
  split at h
  · next hrefused =>
    obtain ⟨hmode, hname⟩ := Bool.and_eq_true_iff.mp hrefused
    cases h
    exact .refused hmode ((Bool.not_eq_true' _).mp hname)
  next hallowed =>
  have hmode : st.subscriberMode = true → allowedSubscribed (.str name) = true := by
    intro hmode
    simpa [hmode] using hallowed
  cases hin : st.inTransaction with
  | false =>
    rw [hin] at h
    exact .dispatched hmode (fun htrue => nomatch hin.symm.trans htrue) h
  | true =>
    rw [hin] at h
    dsimp only at h
    split at h
    · next hcontrol => exact .dispatched hmode (fun _ => hcontrol) h
    next hcontrol =>
    split at h
    · next hcan =>
      cases h
      exact .queued hin hcontrol hcan
    · next hcan =>
      cases h
      exact .notQueued hin hcontrol (Bool.eq_false_iff.mpr hcan)

end Requests

end GoCache.Spec
