import GoCache.Spec.Execution

/-!
# What `EXEC` logs

`handleExec` runs the queue, and then goes through it a second time to replicate
and log it. The second loop reads the arguments anew and looks at no response, so
a `SET` that was refused for its TTL is logged all the same. For every other
queue that gets through both loops, the log is what was done to the cache.

## Key results

- `executes_logged`: the two loops on one command
- `exec_logs_iff`: when `EXEC` logs exactly what it did
-/

namespace GoCache.Spec

open GoCache.Native Recency WriteLog

/-! ## Mutating calls at their times -/

/-- The write to the map that a mutating call is at its time. -/
def stampedWrite : Mutation × Time → Write GoString SnapshotEntry
  | (.set key value ttl, now) => ⟨key, some ⟨value, Cache.expiry ttl now⟩⟩
  | (.del key, _) => ⟨key, none⟩

namespace WfCache

/-- A mutating call at its time. -/
def mutate (c : WfCache) : Mutation × Time → WfCache
  | (.set key value ttl, now) => c.set key value ttl now
  | (.del key, _) => c.delete key

/-- A sequence of mutating calls, each at its time. -/
def mutateAt (c : WfCache) (ops : List (Mutation × Time)) : WfCache := ops.foldl mutate c

theorem evictions_le_mutate (c : WfCache) (op : Mutation × Time) :
    c.evictions ≤ (c.mutate op).evictions := by
  obtain ⟨m, now⟩ := op
  cases m with
  | set key value ttl => exact evictions_le_set ..
  | del key => exact (evictions_delete c key).symm.le

theorem evictions_le_mutateAt (c : WfCache) (ops : List (Mutation × Time)) :
    c.evictions ≤ (c.mutateAt ops).evictions := by
  induction ops generalizing c with
  | nil => exact le_rfl
  | cons op ops ih => exact (evictions_le_mutate c op).trans (ih (c.mutate op))

theorem item?_mutate {c : WfCache} {op : Mutation × Time}
    (hev : (c.mutate op).evictions = c.evictions) :
    (c.mutate op).item? = apply c.item? (stampedWrite op) := by
  obtain ⟨m, now⟩ := op
  cases m with
  | set key value ttl => exact item?_set c key value ttl now hev
  | del key => exact item?_delete c key

/-- Without an eviction, mutating calls are writes to the map. -/
theorem item?_mutateAt {c : WfCache} {ops : List (Mutation × Time)}
    (hev : (c.mutateAt ops).evictions = c.evictions) :
    (c.mutateAt ops).item? = applyAll c.item? (ops.map stampedWrite) := by
  induction ops generalizing c with
  | nil => rfl
  | cons op ops ih =>
    -- the counter never goes down, so neither this call nor a later one evicts
    have hfirst := evictions_le_mutate c op
    have hrest := evictions_le_mutateAt (c.mutate op) ops
    have hev : ((c.mutate op).mutateAt ops).evictions = c.evictions := hev
    show ((c.mutate op).mutateAt ops).item? = _
    rw [ih (by omega), item?_mutate (by omega)]
    rfl

end WfCache

section Effects

variable {clock : Nat → Time} {i : Nat} {c c' : WfCache} {now : Time} {cmd : List Value}
  {queue : List (List Value)} {response : Bytes} {responses : List Bytes}
  {mutation : Option Mutation} {ops : List (Mutation × Time)}

/-- Apart from its mutating call, a command leaves the map as it is. -/
theorem item?_of_executes (h : Executes c now cmd response mutation c')
    (hev : c'.evictions = c.evictions) :
    c'.item? =
      applyAll c.item? ((mutation.map fun m => (m, now)).toList.map stampedWrite) := by
  cases h with
  | set key value rest ttl hrest httl => exact WfCache.item?_set c key value ttl now hev
  | refused key value rest text hrest httl => rfl
  | del key => exact WfCache.item?_delete c key
  | get key => exact WfCache.item?_get c key now
  | other name args response hname hresponse => rfl

theorem evictions_le_of_executes (h : Executes c now cmd response mutation c') :
    c.evictions ≤ c'.evictions := by
  cases h with
  | set key value rest ttl hrest httl => exact WfCache.evictions_le_set ..
  | refused key value rest text hrest httl => exact le_rfl
  | del key => exact (WfCache.evictions_delete c key).symm.le
  | get key => exact (WfCache.evictions_get c key now).symm.le
  | other name args response hname hresponse => exact le_rfl

theorem evictions_le_of_executesAll (h : ExecutesAll clock i c queue responses ops c') :
    c.evictions ≤ c'.evictions := by
  induction h with
  | nil i c => exact le_rfl
  | cons hcmd _ ih => exact (evictions_le_of_executes hcmd).trans ih

/-- Without an eviction, a queue writes its mutating calls to the map. -/
theorem item?_of_executesAll (h : ExecutesAll clock i c queue responses ops c')
    (hev : c'.evictions = c.evictions) :
    c'.item? = applyAll c.item? (ops.map stampedWrite) := by
  induction h with
  | nil i c => rfl
  | cons hcmd hqueue ih =>
    have hfirst := evictions_le_of_executes hcmd
    have hrest := evictions_le_of_executesAll hqueue
    rw [ih (by omega), item?_of_executes hcmd (by omega), List.map_append, applyAll_append]

/-! ## One command in both loops -/

/-- The TTL of a `SET` is one that `EXEC` applies: none, a number of seconds, or
    `EX` and a number of seconds. -/
def ttlParses : List Value → Bool
  | [] => true
  | [.str seconds] => (atoi seconds.bytes).isSome
  | [.str qualifier, .str seconds] => isEX qualifier && (atoi seconds.bytes).isSome
  | _ => false

/-- `EXEC` gets through the command, and if it is a `SET`, its TTL is applied. -/
def logsFaithfully (cmd : List Value) : Bool :=
  completes cmd &&
    match cmd with
    | .str name :: _ :: _ :: rest => decide (name ≠ lit "SET") || ttlParses rest
    | _ => true

/-- The TTL of a `SET` as the two loops read it. -/
private theorem ttl_cases {rest : List GoString} (hrest : rest.length ≤ 2) :
    ∃ ttlSeconds, loggedTTL (strs rest) = .ok ttlSeconds ∧
      ((ttlParses (strs rest) = true ∧
          parseTTL notInteger notInteger (strs rest) = .ok (.ok (ttlSeconds * second))) ∨
        (ttlParses (strs rest) = false ∧
          ∃ text, parseTTL notInteger notInteger (strs rest) = .ok (.error text))) := by
  match rest, hrest with
  | [], _ => exact ⟨0, rfl, .inl ⟨rfl, rfl⟩⟩
  | [seconds], _ =>
    refine ⟨(atoi seconds.bytes).getD 0, rfl, ?_⟩
    have hparse := parseTTL_one notInteger notInteger seconds
    rw [ttlOf] at hparse
    cases hatoi : atoi seconds.bytes with
    | none =>
      rw [hatoi] at hparse
      exact .inr ⟨by simp [ttlParses, strs, hatoi], _, hparse⟩
    | some ttlSec =>
      rw [hatoi] at hparse
      exact .inl ⟨by simp [ttlParses, strs, hatoi], hparse⟩
  | [qualifier, seconds], _ =>
    refine ⟨(atoi seconds.bytes).getD 0, rfl, ?_⟩
    have hparse := parseTTL_two notInteger notInteger qualifier seconds
    rw [ttlOf] at hparse
    cases hex : isEX qualifier with
    | false =>
      rw [hex] at hparse
      exact .inr ⟨by simp [ttlParses, strs, hex], _, hparse⟩
    | true =>
      rw [hex, if_pos rfl] at hparse
      cases hatoi : atoi seconds.bytes with
      | none =>
        rw [hatoi] at hparse
        exact .inr ⟨by simp [ttlParses, strs, hatoi], _, hparse⟩
      | some ttlSec =>
        rw [hatoi] at hparse
        exact .inl ⟨by simp [ttlParses, strs, hex, hatoi], hparse⟩

/-- A command that makes its mutating call is logged as that call; a `SET` that
    is refused is logged although it makes none. -/
theorem executes_logged (h : Executes c now cmd response mutation c')
    (hcmd : completes cmd = true) :
    (logsFaithfully cmd = true ∧ (record? cmd).map recordMutation = mutation) ∨
      (logsFaithfully cmd = false ∧ mutation = none ∧ (record? cmd).isSome = true) := by
  cases h with
  | set key value rest ttl hrest httl =>
    obtain ⟨ss, hss⟩ := strs_of_completes hcmd (by decide)
    rcases ss with _ | ⟨_, _ | ⟨_, rest⟩⟩ <;> cases hss
    obtain ⟨ttlSeconds, hlogged, ⟨hparses, hok⟩ | ⟨_, text, herr⟩⟩ :=
      ttl_cases (by simpa using hrest)
    · rw [httl] at hok
      cases hok
      left
      constructor
      · simp only [logsFaithfully, hcmd, hparses, Bool.or_true, Bool.and_self]
      · rw [record?_set, hlogged]
        rfl
    · rw [httl] at herr
      cases herr
  | refused key value rest text hrest httl =>
    obtain ⟨ss, hss⟩ := strs_of_completes hcmd (by decide)
    rcases ss with _ | ⟨_, _ | ⟨_, rest⟩⟩ <;> cases hss
    obtain ⟨ttlSeconds, hlogged, ⟨_, hok⟩ | ⟨hparses, _⟩⟩ := ttl_cases (by simpa using hrest)
    · rw [httl] at hok
      cases hok
    · right
      constructor
      · simp [logsFaithfully, hcmd, hparses]
      · rw [record?_set, hlogged]
        exact ⟨rfl, rfl⟩
  | del key | get key => exact .inl ⟨rfl, rfl⟩
  | other name args response hname hresponse =>
    simp only [List.mem_cons, List.not_mem_nil, or_false, not_or] at hname
    left
    constructor
    · unfold logsFaithfully
      rw [hcmd, Bool.true_and]
      split
      · next heq =>
        cases heq
        simp [hname.1]
      · rfl
    · rw [record?_other args hname.1 hname.2.2.1]
      rfl

/-- If every command is logged faithfully, the log is what was done. -/
theorem records_of_logsFaithfully (h : ExecutesAll clock i c queue responses ops c')
    (hcmds : ∀ cmd ∈ queue, logsFaithfully cmd = true) :
    (queue.filterMap record?).map recordMutation = ops.map Prod.fst := by
  induction h with
  | nil i c => rfl
  | @cons i c c₁ c' cmd queue response responses mutation ops hcmd hqueue ih =>
    have hfirst := hcmds cmd List.mem_cons_self
    have hcompletes : completes cmd = true := (Bool.and_eq_true_iff.mp hfirst).1
    have hrest := ih fun cmd h => hcmds cmd (List.mem_cons_of_mem _ h)
    rcases executes_logged hcmd hcompletes with ⟨_, hrecord⟩ | ⟨hfalse, _⟩
    · rw [← hrecord, List.map_append, ← hrest, List.filterMap_cons]
      cases record? cmd <;> rfl
    · rw [hfirst] at hfalse
      exact nomatch hfalse

/-- Every mutating call is logged, and if nothing else is, every command is
    logged faithfully. -/
theorem logsFaithfully_of_length (h : ExecutesAll clock i c queue responses ops c')
    (hcmds : ∀ cmd ∈ queue, completes cmd = true) :
    ops.length ≤ (queue.filterMap record?).length ∧
      (ops.length = (queue.filterMap record?).length →
        ∀ cmd ∈ queue, logsFaithfully cmd = true) := by
  induction h with
  | nil i c => exact ⟨le_rfl, fun _ cmd hcmd => absurd hcmd List.not_mem_nil⟩
  | @cons i c c₁ c' cmd queue response responses mutation ops hcmd hqueue ih =>
    obtain ⟨hle, hall⟩ := ih fun cmd h => hcmds cmd (List.mem_cons_of_mem _ h)
    rcases executes_logged hcmd (hcmds cmd List.mem_cons_self) with ⟨hfaithful, hrecord⟩ |
      ⟨_, hnone, hsome⟩
    · have hlen : (mutation.map fun m => (m, clock i)).toList.length =
          (record? cmd).toList.length := by
        rw [← hrecord]
        cases record? cmd <;> rfl
      have hcons : ((cmd :: queue).filterMap record?).length =
          (record? cmd).toList.length + (queue.filterMap record?).length := by
        rw [List.filterMap_cons]
        cases record? cmd <;> simp [Nat.add_comm]
      rw [List.length_append, hlen, hcons]
      refine ⟨by omega, fun heq cmd' hmem => ?_⟩
      rcases List.mem_cons.mp hmem with rfl | hmem
      · exact hfaithful
      · exact hall (by omega) cmd' hmem
    · -- a refused `SET` leaves the log longer than the calls
      obtain ⟨r, hr⟩ := Option.isSome_iff_exists.mp hsome
      have hlt : ops.length < ((cmd :: queue).filterMap record?).length := by
        simp only [List.filterMap_cons, hr, List.length_cons]
        omega
      rw [hnone]
      refine ⟨hlt.le, fun heq => ?_⟩
      have heq : ops.length = ((cmd :: queue).filterMap record?).length := heq
      omega

end Effects

/-! ## The log of a transaction -/

/-- `EXEC` replies, and what it replicates and logs is, in order, what it did to
    the cache: the mutating calls `ops`, with the TTLs applied. So whoever starts
    from the same map and applies the log comes to the same map. -/
def LogsWhatItDid (s : Server) (c : WfCache) (queue : List (List Value)) (clock : Nat → Time) :
    Prop :=
  ∃ responses ops records, ∃ c' : WfCache,
    ExecutesAll clock 0 c queue responses ops c' ∧
    handleExec { s with cache := c.cache } (queueing queue) clock =
      .ok (execReply responses, logAll { s with cache := c'.cache } records, .new) ∧
    records.map recordMutation = ops.map Prod.fst ∧
    (c'.evictions = c.evictions → ∀ f : WfCache, f.item? = c.item? →
      (f.mutateAt ops).evictions = f.evictions → (f.mutateAt ops).item? = c'.item?)

section Logs

variable {s : Server} {c : WfCache} {queue : List (List Value)} {clock : Nat → Time}

/-- A log determines the number of its records. -/
private theorem length_eq_of_encodeLog_eq {records records' : List Record}
    (h : encodeLog records = encodeLog records') : records.length = records'.length := by
  have hread := readOperations_encodeLog records []
  have hread' := readOperations_encodeLog records' []
  rw [h, hread'] at hread
  have hnil : readOperations [] = .ok [] := rfl
  rw [hnil] at hread
  have heq := Except.ok.inj hread
  simp only [List.append_nil] at heq
  have hlen := congrArg List.length heq
  rw [List.length_map, List.length_map] at hlen
  exact hlen.symm

private theorem logs_of_faithful (hq : ∀ cmd ∈ queue, Queueable cmd)
    (h : ∀ cmd ∈ queue, logsFaithfully cmd = true) : LogsWhatItDid s c queue clock := by
  have hcompletes : ∀ cmd ∈ queue, completes cmd = true :=
    fun cmd hcmd => (Bool.and_eq_true_iff.mp (h cmd hcmd)).1
  obtain ⟨responses, ops, c', hexec⟩ := executesAll_of_completes clock 0 c hq hcompletes
  refine ⟨responses, ops, queue.filterMap record?, c', hexec, ?_, ?_, ?_⟩
  · exact handleExec_of_completes (s := { s with cache := c.cache }) hq hcompletes rfl hexec
  · exact records_of_logsFaithfully hexec h
  · intro hev f hf hfev
    rw [WfCache.item?_mutateAt hfev, item?_of_executesAll hexec hev, hf]

private theorem faithful_of_logs (hq : ∀ cmd ∈ queue, Queueable cmd)
    (h : LogsWhatItDid s c queue clock) : ∀ cmd ∈ queue, logsFaithfully cmd = true := by
  obtain ⟨responses, ops, records, c', hexec, hhandle, hrecords, _⟩ := h
  have hcompletes := completes_of_handleExec hq hhandle
  -- the log is that of the second loop, so it has as many records as there were calls
  rw [handleExec_of_completes (s := { s with cache := c.cache }) hq hcompletes rfl hexec]
    at hhandle
  have hserver := congrArg (fun r : Bytes × Server × ConnectionState => r.2.1.aof)
    (Except.ok.inj hhandle)
  simp only [aof_logAll, List.append_cancel_left_eq] at hserver
  have hlen := length_eq_of_encodeLog_eq hserver
  have hops := congrArg List.length hrecords
  rw [List.length_map, List.length_map] at hops
  exact (logsFaithfully_of_length hexec hcompletes).2 (by omega)

end Logs

/-- For every cache and every queue of commands that passed queueing, `EXEC`
    logs exactly what it did if and only if every command is one it gets through
    and every `SET` among them has a TTL that is applied. -/
theorem exec_logs_iff (s : Server) (c : WfCache) (queue : List (List Value)) (clock : Nat → Time)
    (hq : ∀ cmd ∈ queue, Queueable cmd) :
    LogsWhatItDid s c queue clock ↔ ∀ cmd ∈ queue, logsFaithfully cmd = true :=
  ⟨faithful_of_logs hq, logs_of_faithful hq⟩

/-- A queue with a TTL, a read and a deletion. -/
theorem exec_logs_iff_mixed :
    LogsWhatItDid ⟨Cache.new 10, [], .new 2, none, .leader, false, fun _ _ => none⟩ (WfCache.new 10)
      [strs [lit "SET", lit "k", lit "v", lit "ex", lit "5"], strs [lit "GET", lit "k"],
        strs [lit "DEL", lit "k"]] (fun _ => 7) :=
  (exec_logs_iff _ _ _ _ (by decide)).mpr (by decide)

/-- `SET k v PX 5` is queued, refused with a syntax error, and then logged as if
    `k` had been set for five seconds. -/
theorem exec_logs_refused_set :
    Queueable (strs [lit "SET", lit "k", lit "v", lit "PX", lit "5"]) ∧
    (∃ s', handleExec ⟨Cache.new 10, [], .new 2, none, .leader, false, fun _ _ => none⟩
        (queueing [strs [lit "SET", lit "k", lit "v", lit "PX", lit "5"]]) (fun _ => 7) =
          .ok (execReply [encodeError (ascii "ERR syntax error")], s', .new) ∧
      s'.cache.contents (lit "k") = none ∧
      s'.aof = encodeLog [.set (lit "k") (lit "v") 5]) ∧
    ¬ LogsWhatItDid ⟨Cache.new 10, [], .new 2, none, .leader, false, fun _ _ => none⟩
      (WfCache.new 10) [strs [lit "SET", lit "k", lit "v", lit "PX", lit "5"]] (fun _ => 7) := by
  have hq : Queueable (strs [lit "SET", lit "k", lit "v", lit "PX", lit "5"]) := by decide
  refine ⟨hq, ⟨_, rfl, rfl, rfl⟩, fun h => ?_⟩
  have hfaithful := faithful_of_logs (fun cmd hcmd => List.mem_singleton.mp hcmd ▸ hq) h _
    List.mem_cons_self
  exact absurd hfaithful (by decide)

end GoCache.Spec
