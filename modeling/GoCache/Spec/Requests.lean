import GoCache.Spec.Migration
import GoCache.Spec.Outcomes

/-!
# What a request does to a node

Whatever a client sends and the peers answer, the cache of a node stays one that
the methods of `Cache` build, and outside a transaction only `MULTI` touches the
fields of the connection that belong to transactions.

## Key results

- `isWf_switchCommand`, `isWf_handleClusterCommand`: the cache behind a handler
- `dispatch_outside`: a request that is not in a transaction
-/

namespace GoCache.Spec

open GoCache.Native

/-- A cache that the methods of `Cache` build. -/
def IsWf (c : Cache) : Prop := ∃ w : WfCache, w.cache = c

theorem WfCache.isWf (c : WfCache) : IsWf c.cache := ⟨c, rfl⟩

section Cache

variable {c c' : Cache}

theorem IsWf.set {key value : GoString} {ttl : Duration} {now : Time} (hc : IsWf c)
    (h : c.set key value ttl now = .ok c') : IsWf c' := by
  obtain ⟨w, rfl⟩ := hc
  rw [w.cache_set] at h
  exact ⟨_, Except.ok.inj h⟩

theorem IsWf.get {key : GoString} {now : Time} {result : GoString × Bool} (hc : IsWf c)
    (h : c.get key now = .ok (result, c')) : IsWf c' := by
  obtain ⟨w, rfl⟩ := hc
  rw [w.cache_get] at h
  exact ⟨_, congrArg Prod.snd (Except.ok.inj h)⟩

theorem IsWf.delete {key : GoString} (hc : IsWf c) (h : c.delete key = .ok c') : IsWf c' := by
  obtain ⟨w, rfl⟩ := hc
  rw [w.cache_delete] at h
  exact ⟨_, Except.ok.inj h⟩

theorem CacheOutcome.isWf {writes : Bool} {errors : List Bytes} {now : Time} {cmd : List Value}
    {reply : Bytes} (h : CacheOutcome writes errors now cmd c reply c') (hc : IsWf c) :
    IsWf c' := by
  cases h with
  | refused => exact hc
  | set _ _ hset => exact hc.set hset
  | get hget => exact hc.get hget
  | delete _ _ hdelete => exact hc.delete hdelete

end Cache

/-! ## The immediate commands -/

/-- What the second `switch` does with a command other than `EXEC`. -/
theorem switchCommand_cases {s s' : Server} {st st' : ConnectionState} {reply : Bytes}
    {resultSlice : List Value} {clock : Nat → Time} {command : Value}
    (hexec : isCommand command "EXEC" = false) (hc : IsWf s.cache)
    (h : switchCommand s st clock command resultSlice = .ok (reply, s', st')) :
    IsWf s'.cache ∧
      ((isCommand command "MULTI" = true ∧ (reply, st') = handleMulti st) ∨
        (isCommand command "DISCARD" = true ∧ (reply, st') = handleDiscard st) ∨
        isCommand command "MULTI" = false ∧ isCommand command "DISCARD" = false ∧ st' = st) := by
  cases switchCommand_outcome hexec h with
  | set hname hset =>
    obtain rfl := isCommand_iff.mp hname
    exact ⟨(handleSet_outcome hset).isWf hc, .inr (.inr ⟨rfl, rfl, rfl⟩)⟩
  | get hname hget =>
    obtain rfl := isCommand_iff.mp hname
    exact ⟨(handleGet_outcome hget).1.isWf hc, .inr (.inr ⟨rfl, rfl, rfl⟩)⟩
  | delete hname hdelete =>
    obtain rfl := isCommand_iff.mp hname
    exact ⟨(handleDelete_outcome 0 hdelete).isWf hc, .inr (.inr ⟨rfl, rfl, rfl⟩)⟩
  | dbSize hname =>
    obtain rfl := isCommand_iff.mp hname
    exact ⟨hc, .inr (.inr ⟨rfl, rfl, rfl⟩)⟩
  | ping hname =>
    obtain rfl := isCommand_iff.mp hname
    exact ⟨hc, .inr (.inr ⟨rfl, rfl, rfl⟩)⟩
  | multi hname => exact ⟨hc, .inl ⟨hname, rfl⟩⟩
  | discard hname => exact ⟨hc, .inr (.inl ⟨hname, rfl⟩)⟩
  | unknown _ hmulti hdiscard => exact ⟨hc, .inr (.inr ⟨hmulti, hdiscard, rfl⟩)⟩

/-! ## Migrations -/

section Migrations

variable {ω : Type} {net : Network ω} {hash : Bytes → UInt32} {sched : Schedule} {c c' : Cache}
  {hr hr' : HashRing} {w w' : ω} {err : Option Bytes}

/-- A task reads and deletes keys of the cache, however it ends. -/
private theorem isWf_migrateTask {i : Nat} {task : MigrationTask} {addr : GoString} (hc : IsWf c)
    (h : migrateTask net hash sched i task addr c w = .ok (err, c', w')) : IsWf c' := by
  obtain ⟨source, rfl⟩ := hc
  unfold migrateTask at h
  generalize source.cache.getKeysInHashRange _ _ _ _ = keys at h
  split at h
  · cases h
    exact source.isWf
  · obtain ⟨values, c₁, hread, -, -⟩ := readValues_eq (sched.clock i) keys 0 source ∅
    rw [hread] at h
    change transferKeysBatch net addr w keys values 100 >>= _ = _ at h
    obtain ⟨⟨transferErr, w₁⟩, -, h⟩ := bind_eq_ok.mp h
    cases transferErr with
    | some text =>
      cases h
      exact c₁.isWf
    | none =>
      obtain ⟨⟨verifyErr, w₂⟩, -, h⟩ := bind_eq_ok.mp h
      cases verifyErr with
      | some text =>
        cases h
        exact c₁.isWf
      | none =>
        obtain ⟨c₂, hdelete, -, -⟩ := deleteKeys_eq keys c₁
        obtain ⟨c₃, hdelete', h⟩ := bind_eq_ok.mp h
        rw [hdelete] at hdelete'
        cases hdelete'
        cases h
        exact c₂.isWf

private theorem isWf_migrateTasks {addr : MigrationTask → GoString} (i : Nat)
    (tasks : List MigrationTask) (hc : IsWf c)
    (h : migrateTasks net hash sched addr i tasks c w = .ok (err, c', w')) : IsWf c' := by
  induction tasks generalizing i c w with
  | nil =>
    cases h
    exact hc
  | cons task tasks ih =>
    rw [migrateTasks] at h
    obtain ⟨⟨taskErr, c₁, w₁⟩, htask, h⟩ := bind_eq_ok.mp h
    have hc₁ := isWf_migrateTask hc htask
    cases taskErr with
    | some text =>
      cases h
      exact hc₁
    | none => exact ih (i + 1) hc₁ h

private theorem isWf_migrateToNewNode {id addr : GoString} (hc : IsWf c)
    (h : migrateToNewNode net hash sched id addr c hr w = .ok (err, c', hr', w')) : IsWf c' := by
  obtain ⟨tasks, -, h⟩ := bind_eq_ok.mp h
  obtain ⟨⟨e, c₁, w₁⟩, htasks, h⟩ := bind_eq_ok.mp h
  cases h
  exact isWf_migrateTasks 0 tasks hc htasks

private theorem isWf_migrateFromLeavingNode {id : GoString} (hc : IsWf c)
    (h : migrateFromLeavingNode net hash sched id c hr w = .ok (err, c', hr', w')) : IsWf c' := by
  obtain ⟨tasks, -, h⟩ := bind_eq_ok.mp h
  split at h
  · cases h
    exact hc
  · obtain ⟨⟨e, c₁, w₁⟩, htasks, h⟩ := bind_eq_ok.mp h
    have hc₁ := isWf_migrateTasks 0 tasks hc htasks
    cases e <;> cases h <;> exact hc₁

end Migrations

/-! ## Cluster commands -/

section Cluster

variable {ω : Type} {net : Network ω} {hash : Bytes → UInt32} {n n' : ServerNode ω}
  {reply : Bytes} {command : List Value}

theorem isWf_handleClusterCommand {choices : Choices} (hc : IsWf n.cache)
    (h : handleClusterCommand net hash n choices command = .ok (reply, n')) : IsWf n'.cache := by
  cases handleClusterCommand_outcome h with
  | usage | unknown | nodes | health => exact hc
  | addNode _ hadd =>
    cases hadd with
    | usage | present | unreachable | uninitialized => exact hc
    | failed _ _ _ _ hmigrate | added _ _ _ _ hmigrate => exact isWf_migrateToNewNode hc hmigrate
  | removeNode _ hremove =>
    cases hremove with
    | usage | absent | uninitialized => exact hc
    | failed _ _ _ _ hmigrate | removed _ _ _ _ hmigrate =>
      exact isWf_migrateFromLeavingNode hc hmigrate
  | topology _ htopology => cases htopology <;> exact hc

end Cluster

/-! ## Requests outside a transaction -/

section Outside

variable {ω : Type} {exec : ExecHandler} {net : Network ω} {hash : Bytes → UInt32} {conn : ConnID}
  {n n' : ServerNode ω}
  {st st' : ConnectionState} {choices : Choices} {command : Value} {resultSlice : List Value}
  {reply : Bytes}

private theorem mode_handleSubscribe {ps ps' : PubSub}
    (h : handleSubscribe conn ps st resultSlice = .ok (reply, ps', st')) :
    ∃ mode, st' = { st with subscriberMode := mode } := by
  unfold handleSubscribe at h
  split at h
  · obtain ⟨⟨r, finished, ps₁⟩, -, h⟩ := bind_eq_ok.mp h
    cases h
    split
    · exact ⟨true, rfl⟩
    · exact ⟨st.subscriberMode, rfl⟩
  · cases h
    exact ⟨st.subscriberMode, rfl⟩

private theorem mode_handleUnsubscribe {order : Finset GoString → List GoString} {ps ps' : PubSub}
    (h : handleUnsubscribe conn order ps st resultSlice = .ok (reply, ps', st')) :
    ∃ mode, st' = { st with subscriberMode := mode } := by
  unfold handleUnsubscribe at h
  split at h
  · obtain ⟨⟨r, finished, ps₁⟩, -, h⟩ := bind_eq_ok.mp h
    cases h
    exact ⟨false, rfl⟩
  · obtain ⟨⟨r, finished, ps₁⟩, -, h⟩ := bind_eq_ok.mp h
    cases h
    split
    · exact ⟨false, rfl⟩
    · exact ⟨st.subscriberMode, rfl⟩

/-- A redirection is an error. -/
theorem head?_movedTo {s : Server} {key : GoString} {moved : Bytes}
    (h : movedTo s command key = some moved) : moved.head? = some (byte '-') := by
  unfold movedTo at h
  split at h
  · obtain ⟨target, -, rfl⟩ := Option.map_eq_some_iff.mp h
    rfl
  · exact nomatch h

/-- A request that no transaction queues: `MULTI` opens one, and nothing else
    touches the fields of the connection that belong to transactions. -/
theorem dispatch_outside
    (hexec : ∀ s st clock, st.inTransaction = false →
      exec s st clock = .ok (encodeError (ascii "ERR EXEC without MULTI"), s, st))
    (hout : st.inTransaction = false) (hc : IsWf n.cache)
    (h : n.dispatch exec net hash conn st choices command resultSlice = .ok (reply, n', st')) :
    IsWf n'.cache ∧
      ((isCommand command "MULTI" = true ∧ reply = replyOK ∧ st' = { st with
          inTransaction := true, commandQueue := [], transactionError := none }) ∨
        ¬ (isCommand command "MULTI" = true ∧ reply = replyOK) ∧
          ∃ mode, st' = { st with subscriberMode := mode }) := by
  cases dispatch_outcome h with
  | subscribe hname hhandle =>
    obtain rfl := isCommand_iff.mp hname
    exact ⟨hc, .inr ⟨(fun hmulti => nomatch hmulti.1), mode_handleSubscribe hhandle⟩⟩
  | unsubscribe hname hhandle =>
    obtain rfl := isCommand_iff.mp hname
    exact ⟨hc, .inr ⟨(fun hmulti => nomatch hmulti.1), mode_handleUnsubscribe hhandle⟩⟩
  | publish hname hhandle =>
    obtain rfl := isCommand_iff.mp hname
    exact ⟨hc, .inr ⟨(fun hmulti => nomatch hmulti.1), st.subscriberMode, rfl⟩⟩
  | cluster hname hhandle =>
    obtain rfl := isCommand_iff.mp hname
    exact ⟨isWf_handleClusterCommand hc hhandle,
      .inr ⟨(fun hmulti => nomatch hmulti.1), st.subscriberMode, rfl⟩⟩
  | moved _ _ hmoved =>
    refine ⟨hc, .inr ⟨fun hmulti => ?_, st.subscriberMode, rfl⟩⟩
    have hhead := head?_movedTo hmoved
    rw [hmulti.2] at hhead
    exact absurd hhead (by decide)
  | exec hname hhandle =>
    obtain rfl := isCommand_iff.mp hname
    rw [hexec _ _ _ hout] at hhandle
    cases hhandle
    exact ⟨hc, .inr ⟨(fun hmulti => nomatch hmulti.1), st.subscriberMode, rfl⟩⟩
  | switch _ _ hname hswitch =>
    obtain ⟨hwf, hmulti | hdiscard | hother⟩ := switchCommand_cases hname hc hswitch
    · rw [handleMulti, hout, if_neg Bool.false_ne_true] at hmulti
      cases hmulti.2
      exact ⟨hwf, .inl ⟨hmulti.1, rfl, rfl⟩⟩
    · rw [handleDiscard, hout, if_neg Bool.false_ne_true] at hdiscard
      cases hdiscard.2
      obtain rfl := isCommand_iff.mp hdiscard.1
      exact ⟨hwf, .inr ⟨(fun h => nomatch h.1), st.subscriberMode, rfl⟩⟩
    · refine ⟨hwf, .inr ⟨fun h => ?_, st.subscriberMode, hother.2.2⟩⟩
      rw [hother.1] at h
      exact nomatch h.1

end Outside

/-- A network in which no node answers. -/
def noNetwork : Network Unit := ⟨fun _ _ => .error [], fun _ _ _ => .error []⟩

end GoCache.Spec
