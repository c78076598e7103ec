import GoCache.Native.Locking
import GoCache.Spec.Recovery
import GoCache.Spec.Transactions

/-!
# What the two loops of `handleExec` do

The commands that get into the queue of a transaction have few shapes. For each
of them, `Executes` says what the first loop makes of it, and `record?` what the
second loop replicates and logs. A queue gets through both loops exactly if every
command of it does.

## Key results

- `Queueable.cases`: the shapes of the queued commands
- `executes_of_completes`, `persistCommand_of_completes`: one command, in the
  first and in the second loop
- `handleExec_of_completes`, `completes_of_handleExec`: a whole queue
-/

namespace GoCache.Spec

open GoCache.Native

/-! ## Queued commands -/

/-- A command that `handleConnection` puts into a queue. -/
def Queueable (cmd : List Value) : Prop :=
  ∃ name args, cmd = .str name :: args ∧ canQueueCommand name = true ∧
    validationErr name cmd.length = none

instance (cmd : List Value) : Decidable (Queueable cmd) :=
  match cmd with
  | .str name :: args =>
    decidable_of_iff
      (canQueueCommand name = true ∧ validationErr name (.str name :: args).length = none)
      ⟨fun h => ⟨name, args, rfl, h⟩, fun ⟨_, _, heq, h⟩ => by cases heq; exact h⟩
  | [] => .isFalse fun ⟨_, _, h, _⟩ => nomatch h
  | .int _ :: _ => .isFalse fun ⟨_, _, h, _⟩ => nomatch h
  | .arr _ :: _ => .isFalse fun ⟨_, _, h, _⟩ => nomatch h
  | .nilArr :: _ => .isFalse fun ⟨_, _, h, _⟩ => nomatch h

/-- The shapes of the queued commands: the number of elements is checked for the
    five commands that `EXEC` knows. -/
theorem Queueable.cases {cmd : List Value} (h : Queueable cmd) :
    (∃ key value rest, cmd = .str (lit "SET") :: key :: value :: rest ∧ rest.length ≤ 2) ∨
    (∃ key, cmd = [.str (lit "GET"), key]) ∨ (∃ key, cmd = [.str (lit "DEL"), key]) ∨
    cmd = [.str (lit "DBSIZE")] ∨
    (∃ name args, cmd = .str name :: args ∧
      name ∉ [lit "SET", lit "GET", lit "DEL", lit "DBSIZE"]) := by
  obtain ⟨name, args, rfl, _, hvalid⟩ := h
  rw [List.length_cons] at hvalid
  by_cases hset : name = lit "SET"
  · subst hset
    obtain ⟨key, value, rest, rfl, hrest⟩ := exists_of_valid_set hvalid
    exact .inl ⟨key, value, rest, rfl, hrest⟩
  by_cases hget : name = lit "GET"
  · subst hget
    have hlen : args.length = 1 := by simpa using length_of_valid_get hvalid
    obtain ⟨key, rfl⟩ := List.length_eq_one_iff.mp hlen
    exact .inr (.inl ⟨key, rfl⟩)
  by_cases hdel : name = lit "DEL"
  · subst hdel
    have hlen : args.length = 1 := by simpa using length_of_valid_del hvalid
    obtain ⟨key, rfl⟩ := List.length_eq_one_iff.mp hlen
    exact .inr (.inr (.inl ⟨key, rfl⟩))
  by_cases hdbsize : name = lit "DBSIZE"
  · subst hdbsize
    have hlen : args.length = 0 := by simpa using length_of_valid_dbsize hvalid
    rw [List.length_eq_zero_iff.mp hlen]
    exact .inr (.inr (.inr (.inl rfl)))
  · have hname : name ∉ [lit "SET", lit "GET", lit "DEL", lit "DBSIZE"] := by
      simp [hset, hget, hdel, hdbsize]
    exact .inr (.inr (.inr (.inr ⟨name, args, rfl, hname⟩)))

/-- A value that passes the type assertion to a string. -/
def isString : Value → Bool
  | .str _ => true
  | .int _ | .arr _ | .nilArr => false

/-- `EXEC` gets through the command: it is no `DBSIZE`, which waits for the lock,
    and the elements that are asserted to be strings are strings. -/
def completes : List Value → Bool
  | .str name :: args =>
    if name = lit "DBSIZE" then false
    else if name ∈ [lit "SET", lit "GET", lit "DEL"] then args.all isString
    else true
  | _ => false

theorem completes_of_mem {name : GoString} (args : List Value)
    (hname : name ∈ [lit "SET", lit "GET", lit "DEL"]) :
    completes (.str name :: args) = args.all isString := by
  have hdbsize : name ≠ lit "DBSIZE" := by
    rintro rfl
    exact absurd hname (by decide)
  rw [completes, if_neg hdbsize, if_pos hname]

theorem eq_str_of_isString {v : Value} (h : isString v = true) : ∃ s, v = .str s := by
  cases v with
  | str s => exact ⟨s, rfl⟩
  | int _ | arr _ | nilArr => exact nomatch h

theorem isString_of_asString {v : Value} {s : GoString} (h : asString v = .ok s) :
    v = .str s := by
  cases v with
  | str t => exact congrArg Value.str (Except.ok.inj h)
  | int _ | arr _ | nilArr => exact nomatch h

theorem eq_strs_of_all_isString {vs : List Value} (h : vs.all isString = true) :
    ∃ ss : List GoString, vs = strs ss := by
  induction vs with
  | nil => exact ⟨[], rfl⟩
  | cons v vs ih =>
    rw [List.all_cons, Bool.and_eq_true] at h
    obtain ⟨s, rfl⟩ := eq_str_of_isString h.1
    obtain ⟨ss, rfl⟩ := ih h.2
    exact ⟨s :: ss, rfl⟩

theorem strs_of_completes {name : GoString} {args : List Value}
    (h : completes (.str name :: args) = true) (hname : name ∈ [lit "SET", lit "GET", lit "DEL"]) :
    ∃ ss, args = strs ss :=
  eq_strs_of_all_isString (completes_of_mem args hname ▸ h)

/-- The shapes of the queued commands that `EXEC` gets through. -/
theorem Queueable.cases_of_completes {cmd : List Value} (h : Queueable cmd)
    (hcmd : completes cmd = true) :
    (∃ key value rest, cmd = .str (lit "SET") :: .str key :: .str value :: strs rest ∧
      rest.length ≤ 2) ∨
    (∃ key, cmd = [.str (lit "GET"), .str key]) ∨ (∃ key, cmd = [.str (lit "DEL"), .str key]) ∨
    (∃ name args, cmd = .str name :: args ∧
      name ∉ [lit "SET", lit "GET", lit "DEL", lit "DBSIZE"]) := by
  rcases h.cases with ⟨key, value, rest, rfl, hrest⟩ | ⟨key, rfl⟩ | ⟨key, rfl⟩ | rfl | hother
  · obtain ⟨ss, hss⟩ := strs_of_completes hcmd (by decide)
    rcases ss with _ | ⟨k, _ | ⟨v, ss⟩⟩ <;> cases hss
    exact .inl ⟨k, v, ss, rfl, by simpa using hrest⟩
  · obtain ⟨ss, hss⟩ := strs_of_completes hcmd (by decide)
    rcases ss with _ | ⟨k, _ | ⟨_, _⟩⟩ <;> cases hss
    exact .inr (.inl ⟨k, rfl⟩)
  · obtain ⟨ss, hss⟩ := strs_of_completes hcmd (by decide)
    rcases ss with _ | ⟨k, _ | ⟨_, _⟩⟩ <;> cases hss
    exact .inr (.inr (.inl ⟨k, rfl⟩))
  · exact absurd hcmd (by decide)
  · exact .inr (.inr (.inr hother))

/-! ## The first loop -/

/-- What executing a queued command is to the cache: the mutating call it makes,
    if it makes one, and the cache behind it. A `SET` makes its call exactly if it
    is answered `OK`. -/
inductive Executes (c : WfCache) (now : Time) :
    List Value → Bytes → Option Mutation → WfCache → Prop where
  | set (key value : GoString) (rest : List Value) (ttl : Duration) (hrest : rest.length ≤ 2)
      (httl : parseTTL notInteger notInteger rest = .ok (.ok ttl)) :
      Executes c now (.str (lit "SET") :: .str key :: .str value :: rest) replyOK
        (some (.set key value ttl)) (c.set key value ttl now)
  | refused (key value : GoString) (rest : List Value) (text : Bytes) (hrest : rest.length ≤ 2)
      (httl : parseTTL notInteger notInteger rest = .ok (.error text)) :
      Executes c now (.str (lit "SET") :: .str key :: .str value :: rest) (encodeError text) none c
  | del (key : GoString) :
      Executes c now [.str (lit "DEL"), .str key] replyDel (some (.del key)) (c.delete key)
  | get (key : GoString) :
      Executes c now [.str (lit "GET"), .str key] (replyGet (c.get key now).1) none
        (c.get key now).2
  | other (name : GoString) (args : List Value) (response : Bytes)
      (hname : name ∉ [lit "SET", lit "GET", lit "DEL", lit "DBSIZE"])
      (hresponse : executeCommand c.cache now (.str name :: args) = .ok (response, c.cache)) :
      Executes c now (.str name :: args) response none c

section Commands

variable {c c' : WfCache} {now : Time} {cmd : List Value} {response : Bytes}
  {mutation : Option Mutation}

private theorem executeCommand_set (c : Cache) (now : Time) (args : List Value) :
    executeCommand c now (.str (lit "SET") :: args) =
      executeSetCommand c now (.str (lit "SET") :: args) := rfl

private theorem executeCommand_get (c : Cache) (now : Time) (args : List Value) :
    executeCommand c now (.str (lit "GET") :: args) =
      executeGetCommand c now (.str (lit "GET") :: args) := rfl

private theorem executeCommand_del (c : Cache) (now : Time) (args : List Value) :
    executeCommand c now (.str (lit "DEL") :: args) =
      executeDeleteCommand c (.str (lit "DEL") :: args) := rfl

theorem executeCommand_dbsize (c : Cache) (now : Time) (args : List Value) :
    executeCommand c now (.str (lit "DBSIZE") :: args) = .error .deadlock := rfl

private theorem executeCommand_other (c : Cache) (now : Time) {name : GoString}
    (args : List Value) (hname : name ∉ [lit "SET", lit "GET", lit "DEL", lit "DBSIZE"]) :
    ∃ response, executeCommand c now (.str name :: args) = .ok (response, c) := by
  simp only [List.mem_cons, List.not_mem_nil, or_false, not_or] at hname
  obtain ⟨hset, hget, hdel, hdbsize⟩ := hname
  rw [executeCommand_str, if_neg hset, if_neg hget, if_neg hdel, if_neg hdbsize]
  by_cases hping : name = lit "PING"
  · exact ⟨_, if_pos hping⟩
  · exact ⟨_, if_neg hping⟩

/-- The relation is what `executeCommand` computes. -/
theorem executeCommand_of_executes (h : Executes c now cmd response mutation c') :
    executeCommand c.cache now cmd = .ok (response, c'.cache) := by
  cases h with
  | set key value rest ttl hrest httl =>
    have hinternal : c.cache.setInternal key value ttl now = .ok (c.set key value ttl now).cache :=
      WfCache.cache_set ..
    have hlen : ¬ 2 < rest.length := by omega
    rw [executeCommand_set, executeSetCommand, if_neg hlen]
    simp only [asString, httl, hinternal, bind, Except.bind]
    rfl
  | refused key value rest text hrest httl =>
    have hlen : ¬ 2 < rest.length := by omega
    rw [executeCommand_set, executeSetCommand, if_neg hlen]
    simp only [asString, httl, bind, Except.bind]
    rfl
  | del key =>
    have hinternal : c.cache.deleteInternal key = .ok (c.delete key).cache :=
      WfCache.cache_delete ..
    rw [executeCommand_del, executeDeleteCommand]
    simp only [asString, hinternal, bind, Except.bind]
    rfl
  | get key =>
    have hinternal : c.cache.getInternal key now =
        .ok ((c.get key now).1, (c.get key now).2.cache) := WfCache.cache_get ..
    rw [executeCommand_get, executeGetCommand]
    simp only [asString, hinternal, bind, Except.bind]
    rfl
  | other name args response hname hresponse => exact hresponse

/-- A queued command that `EXEC` gets through is executed. -/
theorem executes_of_completes (c : WfCache) (now : Time) (hq : Queueable cmd)
    (hcmd : completes cmd = true) :
    ∃ response mutation c', Executes c now cmd response mutation c' := by
  rcases hq.cases_of_completes hcmd with ⟨key, value, rest, rfl, hrest⟩ | ⟨key, rfl⟩ | ⟨key, rfl⟩ |
    ⟨name, args, rfl, hname⟩
  · have hlen : (strs rest).length ≤ 2 := by simpa using hrest
    rcases parseTTL_strs hrest with ⟨ttl, hok⟩ | herr
    · exact ⟨_, _, _, .set key value (strs rest) ttl hlen (hok _ _)⟩
    · obtain ⟨text, httl⟩ := herr notInteger notInteger
      exact ⟨_, _, _, .refused key value (strs rest) text hlen httl⟩
  · exact ⟨_, _, _, .get key⟩
  · exact ⟨_, _, _, .del key⟩
  · obtain ⟨response, hresponse⟩ := executeCommand_other c.cache now args hname
    exact ⟨_, _, _, .other name args response hname hresponse⟩

end Commands

/-! ## The second loop -/

/-- The record that is replicated and logged for a queued command. -/
def record? : List Value → Option Record
  | .str name :: .str key :: .str value :: rest =>
    if name = lit "SET" then (loggedTTL rest).toOption.map (.set key value) else none
  | [.str name, .str key] => if name = lit "DEL" then some (.del key) else none
  | _ => none

theorem record?_set (key value : GoString) (rest : List Value) :
    record? (.str (lit "SET") :: .str key :: .str value :: rest) =
      (loggedTTL rest).toOption.map (.set key value) := by
  simp only [record?, if_true]

theorem record?_other {name : GoString} (args : List Value) (hset : name ≠ lit "SET")
    (hdel : name ≠ lit "DEL") : record? (.str name :: args) = none := by
  unfold record?
  split
  · next heq =>
    cases heq
    exact if_neg hset
  · next heq =>
    cases heq
    exact if_neg hdel
  · rfl

/-- Records that are replicated and logged, one after the other. -/
def logAll (s : Server) (records : List Record) : Server :=
  records.foldl (fun s r => (s.replicate r).append r) s

theorem logAll_append (s : Server) (records records' : List Record) :
    logAll s (records ++ records') = logAll (logAll s records) records' := List.foldl_append

theorem cache_logAll (s : Server) (records : List Record) :
    (logAll s records).cache = s.cache := by
  induction records generalizing s with
  | nil => rfl
  | cons r records ih =>
    show (logAll ((s.replicate r).append r) records).cache = _
    rw [ih, cache_persist]

theorem aof_logAll (s : Server) (records : List Record) :
    (logAll s records).aof = s.aof ++ encodeLog records := by
  induction records generalizing s with
  | nil => simp [logAll, encodeLog]
  | cons r records ih =>
    have happend : ((s.replicate r).append r).aof = s.aof ++ r.encode := by
      unfold Server.append Server.replicate
      split <;> rfl
    show (logAll ((s.replicate r).append r) records).aof = _
    rw [ih, happend, encodeLog, encodeLog, List.flatMap_cons, List.append_assoc]

section Commands

variable {s s' : Server} {cmd : List Value}

/-- What the second loop does for a command that `EXEC` gets through. -/
theorem persistCommand_of_completes (s : Server) (hq : Queueable cmd)
    (hcmd : completes cmd = true) :
    persistCommand s cmd = .ok (logAll s (record? cmd).toList) := by
  rcases hq.cases_of_completes hcmd with ⟨key, value, rest, rfl, hrest⟩ | ⟨key, rfl⟩ | ⟨key, rfl⟩ |
    ⟨name, args, rfl, hname⟩
  · obtain ⟨ttlSeconds, httl⟩ := loggedTTL_strs hrest
    rw [persistCommand_set, record?_set, httl]
    rfl
  · rfl
  · rfl
  · simp only [List.mem_cons, List.not_mem_nil, or_false, not_or] at hname
    have hpersist : persistCommand s (.str name :: args) = .ok s := by
      simp only [persistCommand, if_neg hname.1, if_neg hname.2.2.1]
    rw [hpersist, record?_other args hname.1 hname.2.2.1]
    rfl

/-- A command that gets through both loops has strings where they are asserted. -/
theorem completes_of_ok {c : Cache} {now : Time} {r : Bytes × Cache} (hq : Queueable cmd)
    (hexecute : executeCommand c now cmd = .ok r) (hpersist : persistCommand s cmd = .ok s') :
    completes cmd = true := by
  rcases hq.cases with ⟨key, value, rest, rfl, hrest⟩ | ⟨key, rfl⟩ | ⟨key, rfl⟩ | rfl |
    ⟨name, args, rfl, hname⟩
  · have hlen : ¬ 2 < rest.length := by omega
    rw [executeCommand_set, executeSetCommand, if_neg hlen, bind_eq_ok] at hexecute
    obtain ⟨k, hkey, hexecute⟩ := hexecute
    obtain ⟨v, hvalue, hexecute⟩ := bind_eq_ok.mp hexecute
    obtain ⟨ttl, httl, _⟩ := bind_eq_ok.mp hexecute
    obtain rfl := isString_of_asString hkey
    obtain rfl := isString_of_asString hvalue
    rw [persistCommand_set, bind_eq_ok] at hpersist
    obtain ⟨ttlSeconds, hlogged, _⟩ := hpersist
    rw [completes_of_mem _ (by decide)]
    -- the qualifier is asserted by the first loop, the seconds by the second
    match rest, hlogged, httl with
    | [], _, _ => rfl
    | [seconds], hlogged, _ =>
      obtain ⟨_, hseconds, _⟩ := bind_eq_ok.mp hlogged
      obtain rfl := isString_of_asString hseconds
      rfl
    | [qualifier, seconds], hlogged, httl =>
      obtain ⟨_, hseconds, _⟩ := bind_eq_ok.mp hlogged
      obtain ⟨_, hqualifier, _⟩ := bind_eq_ok.mp httl
      obtain rfl := isString_of_asString hseconds
      obtain rfl := isString_of_asString hqualifier
      rfl
  · rw [executeCommand_get, executeGetCommand, bind_eq_ok] at hexecute
    obtain ⟨k, hkey, _⟩ := hexecute
    obtain rfl := isString_of_asString hkey
    rfl
  · rw [executeCommand_del, executeDeleteCommand, bind_eq_ok] at hexecute
    obtain ⟨k, hkey, _⟩ := hexecute
    obtain rfl := isString_of_asString hkey
    rfl
  · rw [executeCommand_dbsize] at hexecute
    exact nomatch hexecute
  · simp only [List.mem_cons, List.not_mem_nil, or_false, not_or] at hname
    obtain ⟨hset, hget, hdel, hdbsize⟩ := hname
    rw [completes, if_neg hdbsize, if_neg (by simp [hset, hget, hdel])]

end Commands

/-! ## Whole queues -/

/-- What executing a queue is to the cache: the responses, the mutating calls in
    order, each with its time, and the cache behind them. -/
inductive ExecutesAll (clock : Nat → Time) :
    Nat → WfCache → List (List Value) → List Bytes → List (Mutation × Time) → WfCache → Prop where
  | nil (i : Nat) (c : WfCache) : ExecutesAll clock i c [] [] [] c
  | cons {i : Nat} {c c₁ c' : WfCache} {cmd : List Value} {queue : List (List Value)}
      {response : Bytes} {responses : List Bytes} {mutation : Option Mutation}
      {ops : List (Mutation × Time)} (hcmd : Executes c (clock i) cmd response mutation c₁)
      (hqueue : ExecutesAll clock (i + 1) c₁ queue responses ops c') :
      ExecutesAll clock i c (cmd :: queue) (response :: responses)
        ((mutation.map fun m => (m, clock i)).toList ++ ops) c'

section Queue

variable {clock : Nat → Time} {i : Nat} {c c' : WfCache} {queue : List (List Value)}
  {responses : List Bytes} {ops : List (Mutation × Time)} {s s' : Server}

/-- The relation is what the first loop of `handleExec` computes. -/
theorem executeQueue_of_executesAll (h : ExecutesAll clock i c queue responses ops c') :
    executeQueue clock i c.cache queue = .ok (responses, c'.cache) := by
  induction h with
  | nil i c => rfl
  | cons hcmd _ ih =>
    rw [executeQueue_cons, executeCommand_of_executes hcmd]
    show (executeQueue _ _ _ _ >>= fun r => _) = _
    rw [ih]
    rfl

theorem executesAll_of_completes (clock : Nat → Time) (i : Nat) (c : WfCache)
    (hq : ∀ cmd ∈ queue, Queueable cmd) (hcmds : ∀ cmd ∈ queue, completes cmd = true) :
    ∃ responses ops c', ExecutesAll clock i c queue responses ops c' := by
  induction queue generalizing i c with
  | nil => exact ⟨[], [], c, .nil i c⟩
  | cons cmd queue ih =>
    obtain ⟨response, mutation, c₁, hcmd⟩ := executes_of_completes c (clock i)
      (hq cmd List.mem_cons_self) (hcmds cmd List.mem_cons_self)
    obtain ⟨responses, ops, c', hqueue⟩ := ih (i + 1) c₁
      (fun cmd h => hq cmd (List.mem_cons_of_mem _ h))
      (fun cmd h => hcmds cmd (List.mem_cons_of_mem _ h))
    exact ⟨_, _, c', .cons hcmd hqueue⟩

/-- The second loop replicates and logs the records of the queue in order. -/
theorem foldlM_persistCommand (s : Server)
    (h : ∀ cmd ∈ queue, ∀ s, persistCommand s cmd = .ok (logAll s (record? cmd).toList)) :
    queue.foldlM persistCommand s = .ok (logAll s (queue.filterMap record?)) := by
  induction queue generalizing s with
  | nil => rfl
  | cons cmd queue ih =>
    rw [List.foldlM_cons, h cmd List.mem_cons_self]
    show List.foldlM persistCommand (logAll s (record? cmd).toList) queue = _
    rw [ih _ (fun cmd hcmd => h cmd (List.mem_cons_of_mem _ hcmd)), ← logAll_append,
      List.filterMap_cons]
    cases record? cmd <;> rfl

/-- `EXEC` on a queue it gets through. -/
theorem handleExec_of_completes (hq : ∀ cmd ∈ queue, Queueable cmd)
    (hcmds : ∀ cmd ∈ queue, completes cmd = true) (hc : s.cache = c.cache)
    (h : ExecutesAll clock 0 c queue responses ops c') :
    handleExec s (queueing queue) clock = .ok (execReply responses,
      logAll { s with cache := c'.cache } (queue.filterMap record?), .new) := by
  show (executeQueue clock 0 s.cache queue >>= fun r =>
    queue.foldlM persistCommand { s with cache := r.2 } >>= fun s' =>
      Except.ok (execReply r.1, s', ConnectionState.new)) = _
  rw [hc, executeQueue_of_executesAll h]
  show (queue.foldlM persistCommand { s with cache := c'.cache } >>= fun s' => _) = _
  rw [foldlM_persistCommand _ fun cmd hcmd s =>
    persistCommand_of_completes s (hq cmd hcmd) (hcmds cmd hcmd)]
  rfl

private theorem executeCommand_of_executeQueue {c : Cache} {r : List Bytes × Cache}
    (h : executeQueue clock i c queue = .ok r) :
    ∀ cmd ∈ queue, ∃ c now r, executeCommand c now cmd = .ok r := by
  induction queue generalizing i c r with
  | nil =>
    intro cmd hcmd
    exact absurd hcmd List.not_mem_nil
  | cons cmd queue ih =>
    rw [executeQueue_cons] at h
    obtain ⟨r₁, hfirst, h⟩ := bind_eq_ok.mp h
    obtain ⟨r₂, hrest, _⟩ := bind_eq_ok.mp h
    intro cmd' hcmd
    rcases List.mem_cons.mp hcmd with rfl | hcmd
    · exact ⟨c, clock i, r₁, hfirst⟩
    · exact ih hrest cmd' hcmd

private theorem persistCommand_of_foldlM (h : queue.foldlM persistCommand s = .ok s') :
    ∀ cmd ∈ queue, ∃ s s', persistCommand s cmd = .ok s' := by
  induction queue generalizing s with
  | nil =>
    intro cmd hcmd
    exact absurd hcmd List.not_mem_nil
  | cons cmd queue ih =>
    rw [List.foldlM_cons] at h
    obtain ⟨s₁, hfirst, h⟩ := bind_eq_ok.mp h
    intro cmd' hcmd
    rcases List.mem_cons.mp hcmd with rfl | hcmd
    · exact ⟨s, s₁, hfirst⟩
    · exact ih h cmd' hcmd

/-- A queue that both loops get through. -/
theorem completes_of_loops (hq : ∀ cmd ∈ queue, Queueable cmd) {c : Cache}
    {r : List Bytes × Cache} (hexecute : executeQueue clock i c queue = .ok r)
    (hpersist : queue.foldlM persistCommand s = .ok s') :
    ∀ cmd ∈ queue, completes cmd = true := by
  intro cmd hcmd
  obtain ⟨c, now, r₂, hexecuted⟩ := executeCommand_of_executeQueue hexecute cmd hcmd
  obtain ⟨s₁, s₂, hpersisted⟩ := persistCommand_of_foldlM hpersist cmd hcmd
  exact completes_of_ok (hq cmd hcmd) hexecuted hpersisted

/-- If `EXEC` replies to a queue, it gets through every command of it. -/
theorem completes_of_handleExec {r : Bytes × Server × ConnectionState}
    (hq : ∀ cmd ∈ queue, Queueable cmd) (h : handleExec s (queueing queue) clock = .ok r) :
    ∀ cmd ∈ queue, completes cmd = true := by
  obtain ⟨r₁, hexecute, h⟩ := bind_eq_ok.mp (show (executeQueue clock 0 s.cache queue >>= fun r =>
    queue.foldlM persistCommand { s with cache := r.2 } >>= fun s' =>
      Except.ok (execReply r.1, s', ConnectionState.new)) = .ok r from h)
  obtain ⟨s', hpersist, _⟩ := bind_eq_ok.mp h
  exact completes_of_loops hq hexecute hpersist

end Queue

end GoCache.Spec
