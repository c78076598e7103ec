import GoCache.Native.Handler
import GoCache.Spec.WfCache

/-!
# Transactions against immediate commands

`EXEC` has an implementation of its own for every command. On a standalone
leader, running a queue of commands leaves the cache as sending them one by one
does, and gives the same replies up to the texts of errors.

## Key results

- `execute_agrees`: one command, executed and sent
- `queue_agrees`: a queue of commands, by induction
- `exec_agrees_with_immediate`: whole connections
-/

namespace GoCache.Spec

open GoCache.Native

/-- A command of strings, as `Parse` returns it. -/
abbrev strs (cmd : List GoString) : List Value := cmd.map Value.str

/-- One of the four commands, with a number of elements that is accepted into a
    queue. -/
def Accepted (cmd : List GoString) : Prop :=
  ∃ name args, cmd = name :: args ∧
    name ∈ [lit "SET", lit "GET", lit "DEL", lit "PING"] ∧ validationErr name cmd.length = none

instance (cmd : List GoString) : Decidable (Accepted cmd) :=
  match cmd with
  | [] => .isFalse fun ⟨_, _, h, _⟩ => nomatch h
  | name :: args =>
    decidable_of_iff
      (name ∈ [lit "SET", lit "GET", lit "DEL", lit "PING"] ∧
        validationErr name (name :: args).length = none)
      ⟨fun h => ⟨name, args, rfl, h⟩, fun ⟨_, _, heq, h⟩ => by
        obtain ⟨rfl, rfl⟩ := List.cons.inj heq
        exact h⟩

section Validation

variable {length : Nat}

theorem length_of_valid_set (h : validationErr (lit "SET") length = none) :
    3 ≤ length ∧ length ≤ 5 := by
  rw [validationErr, if_pos rfl] at h
  split at h
  · exact nomatch h
  · omega

theorem length_of_valid_get (h : validationErr (lit "GET") length = none) : length = 2 := by
  rw [validationErr, if_neg (by decide), if_pos rfl] at h
  split at h
  · exact nomatch h
  · omega

theorem length_of_valid_del (h : validationErr (lit "DEL") length = none) : length = 2 := by
  rw [validationErr, if_neg (by decide), if_neg (by decide), if_pos rfl] at h
  split at h
  · exact nomatch h
  · omega

theorem length_of_valid_dbsize (h : validationErr (lit "DBSIZE") length = none) :
    length = 1 := by
  rw [validationErr, if_neg (by decide), if_neg (by decide), if_neg (by decide), if_pos rfl] at h
  split at h
  · exact nomatch h
  · omega

/-- Behind the name of a valid `SET` are a key, a value and at most two elements. -/
theorem exists_of_valid_set {α : Type} {args : List α}
    (h : validationErr (lit "SET") (args.length + 1) = none) :
    ∃ key value rest, args = key :: value :: rest ∧ rest.length ≤ 2 := by
  obtain ⟨hmin, hmax⟩ := length_of_valid_set h
  cases args with
  | nil => simp at hmin
  | cons key args =>
    cases args with
    | nil => simp at hmin
    | cons value rest =>
      simp only [List.length_cons] at hmax
      exact ⟨key, value, rest, rfl, by omega⟩

end Validation

/-- The commands that are accepted, by name. -/
theorem Accepted.cases {cmd : List GoString} (h : Accepted cmd) :
    (∃ key value rest, cmd = lit "SET" :: key :: value :: rest ∧ rest.length ≤ 2) ∨
    (∃ key, cmd = [lit "GET", key]) ∨ (∃ key, cmd = [lit "DEL", key]) ∨
    (∃ args, cmd = lit "PING" :: args) := by
  obtain ⟨name, args, rfl, hname, hvalid⟩ := h
  rw [List.length_cons] at hvalid
  simp only [List.mem_cons, List.not_mem_nil, or_false] at hname
  rcases hname with rfl | rfl | rfl | rfl
  · obtain ⟨key, value, rest, rfl, hrest⟩ := exists_of_valid_set hvalid
    exact .inl ⟨key, value, rest, rfl, hrest⟩
  · have hlen : args.length = 1 := by simpa using length_of_valid_get hvalid
    obtain ⟨key, rfl⟩ := List.length_eq_one_iff.mp hlen
    exact .inr (.inl ⟨key, rfl⟩)
  · have hlen : args.length = 1 := by simpa using length_of_valid_del hvalid
    obtain ⟨key, rfl⟩ := List.length_eq_one_iff.mp hlen
    exact .inr (.inr (.inl ⟨key, rfl⟩))
  · exact .inr (.inr (.inr ⟨args, rfl⟩))

/-! ## One command -/

/-- The response of `EXEC` to a command and the reply to it outside: the same,
    or two errors. -/
def Agrees (response reply : Bytes) : Prop :=
  (isErrorReply reply = false → response = reply) ∧
    isErrorReply response = isErrorReply reply

theorem agrees_refl (reply : Bytes) : Agrees reply reply := ⟨fun _ => rfl, rfl⟩

theorem agrees_encodeError (text text' : Bytes) : Agrees (encodeError text) (encodeError text') :=
  ⟨fun h => absurd h (by simp [encodeError, isErrorReply]), rfl⟩

/-- The seconds of a TTL, or the error for a text that is no integer. -/
def ttlOf (noInteger : Bytes) (seconds : GoString) : Except Bytes Duration :=
  match atoi seconds.bytes with
  | some ttlSec => .ok (ttlSec * second)
  | none => .error noInteger

theorem parseTTL_one (a b : Bytes) (seconds : GoString) :
    parseTTL a b [.str seconds] = .ok (ttlOf a seconds) := by
  show (match atoi seconds.bytes with
    | some ttlSec => Except.ok (Except.ok (ttlSec * second))
    | none => .ok (.error a)) = .ok (ttlOf a seconds)
  unfold ttlOf
  cases atoi seconds.bytes <;> rfl

theorem parseTTL_two (a b : Bytes) (qualifier seconds : GoString) :
    parseTTL a b [.str qualifier, .str seconds] =
      .ok (if isEX qualifier then ttlOf b seconds else .error (ascii "ERR syntax error")) := by
  show (if isEX qualifier then
      match atoi seconds.bytes with
      | some ttlSec => Except.ok (Except.ok (ttlSec * second))
      | none => .ok (.error b)
    else .ok (.error (ascii "ERR syntax error"))) = _
  unfold ttlOf
  cases isEX qualifier <;> cases atoi seconds.bytes <;> rfl

private theorem ttlOf_cases (seconds : GoString) :
    (∃ ttl, ∀ a, ttlOf a seconds = .ok ttl) ∨ ∀ a, ttlOf a seconds = .error a := by
  unfold ttlOf
  cases atoi seconds.bytes with
  | some ttlSec => exact .inl ⟨_, fun _ => rfl⟩
  | none => exact .inr fun _ => rfl

/-- The TTL is parsed alike, whatever the texts of the errors. -/
theorem parseTTL_strs {rest : List GoString} (h : rest.length ≤ 2) :
    (∃ ttl, ∀ a b, parseTTL a b (strs rest) = .ok (.ok ttl)) ∨
      ∀ a b, ∃ text, parseTTL a b (strs rest) = .ok (.error text) := by
  match rest, h with
  | [], _ => exact .inl ⟨0, fun _ _ => rfl⟩
  | [seconds], _ =>
    rcases ttlOf_cases seconds with ⟨ttl, hok⟩ | herr
    · exact .inl ⟨ttl, fun a b => (parseTTL_one a b seconds).trans (by rw [hok])⟩
    · exact .inr fun a b => ⟨a, (parseTTL_one a b seconds).trans (by rw [herr])⟩
  | [qualifier, seconds], _ =>
    cases hex : isEX qualifier with
    | false =>
      exact .inr fun a b => ⟨_, (parseTTL_two a b qualifier seconds).trans (by rw [hex]; rfl)⟩
    | true =>
      rcases ttlOf_cases seconds with ⟨ttl, hok⟩ | herr
      · exact .inl ⟨ttl, fun a b =>
          (parseTTL_two a b qualifier seconds).trans (by rw [hex, hok]; rfl)⟩
      · exact .inr fun a b =>
          ⟨b, (parseTTL_two a b qualifier seconds).trans (by rw [hex, herr]; rfl)⟩

/-! ## Dispatch -/

section Dispatch

variable (other : OtherHandlers) {s : Server} {st : ConnectionState}

/-- A node in no cluster, on which no write is refused. -/
structure Standalone (s : Server) : Prop where
  clusterMode : s.clusterMode = false
  role : s.role = .leader

/-- A connection that neither subscribes nor queues. -/
structure Immediate (st : ConnectionState) : Prop where
  subscriberMode : st.subscriberMode = false
  inTransaction : st.inTransaction = false

theorem movedTo_eq_none (hs : Standalone s) (command : Value) (key : GoString) :
    movedTo s command key = none := by
  unfold movedTo
  rw [hs.clusterMode]
  exact if_neg fun h => nomatch h.1

/-- A command of strings that is none of the pub/sub and cluster commands and is not redirected
    gets to the second `switch`. -/
theorem dispatch_strs (clock : Nat → Time) {name : GoString} {args : List GoString}
    (hname :
      ["SUBSCRIBE", "UNSUBSCRIBE", "PUBLISH", "CLUSTER"].any (isCommand (.str name)) = false)
    (hhere : movedTo s (.str name) (args.headD GoString.empty) = none) :
    dispatch other s st clock (.str name) (strs (name :: args)) =
      switchCommand s st clock (.str name) (strs (name :: args)) := by
  unfold dispatch
  rw [hname]
  cases args with
  | nil =>
    rw [List.headD_nil] at hhere
    simp only [Bool.false_eq_true, if_false, List.map_cons, List.map_nil, bind, Except.bind, hhere]
  | cons key args =>
    rw [List.headD_cons] at hhere
    simp only [Bool.false_eq_true, if_false, List.map_cons, asString, bind, Except.bind, hhere]

theorem handleCommand_immediate (hst : Immediate st) (clock : Nat → Time) {name : GoString}
    {args : List GoString}
    (hname :
      ["SUBSCRIBE", "UNSUBSCRIBE", "PUBLISH", "CLUSTER"].any (isCommand (.str name)) = false)
    (hhere : movedTo s (.str name) (args.headD GoString.empty) = none) :
    handleCommand other s st clock (strs (name :: args)) =
      switchCommand s st clock (.str name) (strs (name :: args)) := by
  rw [← dispatch_strs other clock hname hhere]
  unfold handleCommand
  simp only [List.map_cons, hst.subscriberMode, hst.inTransaction, Bool.false_and]
  rfl

/-- Replicating and logging a write leaves the cache as it is. -/
theorem cache_persist (s : Server) (r : Record) :
    ((s.replicate r).append r).cache = s.cache := by
  unfold Server.append Server.replicate
  split <;> rfl

private theorem Standalone.persist (hs : Standalone s) (r : Record) :
    Standalone ((s.replicate r).append r) := by
  unfold Server.append Server.replicate
  split <;> exact ⟨hs.clusterMode, hs.role⟩

private theorem Standalone.withCache (hs : Standalone s) (c : Cache) :
    Standalone { s with cache := c } := ⟨hs.clusterMode, hs.role⟩

variable {c : WfCache} (now : Time)

/-- `handleSet` and `executeSetCommand`. -/
private theorem set_agrees (hs : Standalone s) (hc : s.cache = c.cache) (key value : GoString)
    {rest : List GoString} (hrest : rest.length ≤ 2) :
    ∃ reply response s', ∃ c' : WfCache,
      handleSet s now (strs (lit "SET" :: key :: value :: rest)) = .ok (reply, s') ∧
      Standalone s' ∧ s'.cache = c'.cache ∧
      executeSetCommand c.cache now (strs (lit "SET" :: key :: value :: rest)) =
        .ok (response, c'.cache) ∧ Agrees response reply := by
  have hlen : ¬ 2 < (strs rest).length := by
    rw [List.length_map]
    omega
  have hrole : ¬ s.role = .follower := by
    rw [hs.role]
    decide
  -- up to the parsing of the TTL the two read the same arguments
  unfold handleSet executeSetCommand
  rw [if_neg hrole]
  simp only [List.map_cons, if_neg hlen, asString, bind, Except.bind]
  rcases parseTTL_strs hrest with ⟨ttl, hok⟩ | herr
  · have hinternal : c.cache.setInternal key value ttl now = .ok (c.set key value ttl now).cache :=
      WfCache.cache_set ..
    rw [hok, hok, hc]
    simp only [WfCache.cache_set, hinternal]
    exact ⟨_, _, _, c.set key value ttl now, rfl, (hs.withCache _).persist _, cache_persist _ _,
      rfl, agrees_refl _⟩
  · obtain ⟨text, htext⟩ := herr (ascii "Couldn't convert seconds to a string")
      (ascii "ERR value is not an integer")
    obtain ⟨text', htext'⟩ := herr notInteger notInteger
    rw [htext, htext']
    exact ⟨_, _, s, c, rfl, hs, hc, rfl, agrees_encodeError _ _⟩

/-- `handleGet` and `executeGetCommand`. -/
private theorem get_agrees (hs : Standalone s) (hc : s.cache = c.cache) (key : GoString) :
    ∃ reply s', ∃ c' : WfCache, handleGet s now (strs [lit "GET", key]) = .ok (reply, s') ∧
      Standalone s' ∧ s'.cache = c'.cache ∧
      executeGetCommand c.cache now (strs [lit "GET", key]) = .ok (reply, c'.cache) := by
  have hhandle : handleGet s now (strs [lit "GET", key]) = s.cache.get key now >>= fun r =>
    .ok (replyGet r.1, { s with cache := r.2 }) := rfl
  have hexecute : executeGetCommand c.cache now (strs [lit "GET", key]) =
    c.cache.get key now >>= fun r => .ok (replyGet r.1, r.2) := rfl
  rw [hhandle, hexecute, hc, WfCache.cache_get]
  exact ⟨_, _, (c.get key now).2, rfl, hs.withCache _, rfl, rfl⟩

/-- `handleDelete` and `executeDeleteCommand`. -/
private theorem delete_agrees (hs : Standalone s) (hc : s.cache = c.cache) (key : GoString) :
    ∃ reply s', ∃ c' : WfCache, handleDelete s (strs [lit "DEL", key]) = .ok (reply, s') ∧
      Standalone s' ∧ s'.cache = c'.cache ∧
      executeDeleteCommand c.cache (strs [lit "DEL", key]) = .ok (reply, c'.cache) := by
  have hhandle : handleDelete s (strs [lit "DEL", key]) = s.cache.delete key >>= fun c =>
      .ok (replyDel, ({ s with cache := c }.replicate (.del key)).append (.del key)) := by
    unfold handleDelete
    rw [if_neg (by rw [hs.role]; exact fun h => nomatch h)]
    rfl
  have hexecute : executeDeleteCommand c.cache (strs [lit "DEL", key]) =
    c.cache.delete key >>= fun c => .ok (replyDel, c) := rfl
  rw [hhandle, hexecute, hc, WfCache.cache_delete]
  exact ⟨_, _, c.delete key, rfl, (hs.withCache _).persist _, cache_persist _ _, rfl⟩

/-- A command sent on its own, and executed from a queue. -/
theorem execute_agrees (hs : Standalone s) (hst : Immediate st) (hc : s.cache = c.cache)
    {cmd : List GoString} (hcmd : Accepted cmd) :
    ∃ reply response s', ∃ c' : WfCache,
      handleCommand other s st (fun _ => now) (strs cmd) = .ok (reply, s', st) ∧
      Standalone s' ∧ s'.cache = c'.cache ∧
      executeCommand c.cache now (strs cmd) = .ok (response, c'.cache) ∧
      Agrees response reply := by
  rcases hcmd.cases with ⟨key, value, rest, rfl, hrest⟩ | ⟨key, rfl⟩ | ⟨key, rfl⟩ | ⟨args, rfl⟩
  · obtain ⟨reply, response, s', c', hhandle, hs', hc', hexecute, hagrees⟩ :=
      set_agrees now hs hc key value hrest
    refine ⟨reply, response, s', c', ?_, hs', hc', hexecute, hagrees⟩
    rw [handleCommand_immediate other hst _ (by decide) (movedTo_eq_none hs _ _)]
    show (handleSet s now (strs (lit "SET" :: key :: value :: rest)) >>= _) = _
    rw [hhandle]
    rfl
  · obtain ⟨reply, s', c', hhandle, hs', hc', hexecute⟩ := get_agrees now hs hc key
    refine ⟨reply, reply, s', c', ?_, hs', hc', hexecute, agrees_refl _⟩
    rw [handleCommand_immediate other hst _ (by decide) (movedTo_eq_none hs _ _)]
    show (handleGet s now (strs [lit "GET", key]) >>= _) = _
    rw [hhandle]
    rfl
  · obtain ⟨reply, s', c', hhandle, hs', hc', hexecute⟩ := delete_agrees hs hc key
    refine ⟨reply, reply, s', c', ?_, hs', hc', hexecute, agrees_refl _⟩
    rw [handleCommand_immediate other hst _ (by decide) (movedTo_eq_none hs _ _)]
    show (handleDelete s (strs [lit "DEL", key]) >>= _) = _
    rw [hhandle]
    rfl
  · exact ⟨handlePing, executePingCommand, s, c,
      handleCommand_immediate other hst _ (by decide) (movedTo_eq_none hs _ _), hs, hc, rfl,
      agrees_refl _⟩

end Dispatch

/-! ## Queues -/

section Queue

variable (other : OtherHandlers) (now : Time)

/-- A sequence of commands as a connection delivers it, all handled at one time. -/
def sendAll (cmds : List (List GoString)) : List (Value × (Nat → Time)) :=
  cmds.map fun cmd => (.arr (strs cmd), fun _ => now)

/-- One turn of the loop of `handleConnection`. -/
private theorem handleConnection_cons (s : Server) (st : ConnectionState) (cmd : List GoString)
    (msgs : List (Value × (Nat → Time))) :
    handleConnection other s st ((.arr (strs cmd), fun _ => now) :: msgs) =
      handleCommand other s st (fun _ => now) (strs cmd) >>= fun r =>
        (handleConnection other r.2.1 r.2.2 msgs).map fun r' => (r.1 :: r'.1, r'.2) := by
  show (handleCommand other s st (fun _ => now) (strs cmd) >>= fun r =>
    handleConnection other r.2.1 r.2.2 msgs >>= fun r' =>
      Except.ok (r.1 :: r'.1, r'.2.1, r'.2.2)) = _
  refine congrArg (_ >>= ·) (funext fun r => ?_)
  cases handleConnection other r.2.1 r.2.2 msgs <;> rfl

/-- The commands sent one by one, and executed as a queue. -/
theorem queue_agrees {s : Server} {st : ConnectionState} {c : WfCache} (hs : Standalone s)
    (hst : Immediate st) (hc : s.cache = c.cache) {cmds : List (List GoString)}
    (hcmds : ∀ cmd ∈ cmds, Accepted cmd) (i : Nat) :
    ∃ replies responses s', ∃ c' : WfCache,
      handleConnection other s st (sendAll now cmds) = .ok (replies, s', st) ∧
      s'.cache = c'.cache ∧
      executeQueue (fun _ => now) i c.cache (cmds.map strs) = .ok (responses, c'.cache) ∧
      List.Forall₂ Agrees responses replies := by
  induction cmds generalizing s c i with
  | nil => exact ⟨[], [], s, c, rfl, hc, rfl, .nil⟩
  | cons cmd cmds ih =>
    obtain ⟨reply, response, s₁, c₁, hhandle, hs₁, hc₁, hexecute, hagrees⟩ :=
      execute_agrees other now hs hst hc (hcmds cmd List.mem_cons_self)
    obtain ⟨replies, responses, s', c', hconn, hc', hqueue, hall⟩ :=
      ih hs₁ hc₁ (fun cmd hcmd => hcmds cmd (List.mem_cons_of_mem _ hcmd)) (i + 1)
    refine ⟨reply :: replies, response :: responses, s', c', ?_, hc', ?_, .cons hagrees hall⟩
    · rw [sendAll, List.map_cons, handleConnection_cons, hhandle]
      show (handleConnection other s₁ st (sendAll now cmds)).map _ = _
      rw [hconn]
      rfl
    · show (executeCommand c.cache now (strs cmd) >>= fun r =>
        executeQueue (fun _ => now) (i + 1) r.2 (cmds.map strs) >>= fun r' =>
          Except.ok (r.1 :: r'.1, r'.2)) = _
      rw [hexecute]
      show (executeQueue (fun _ => now) (i + 1) c₁.cache (cmds.map strs) >>= fun r' => _) = _
      rw [hqueue]
      rfl

/-- A connection in a transaction, with the commands queued so far. -/
abbrev queueing (queue : List (List Value)) : ConnectionState := ⟨false, true, queue, none⟩

variable {s : Server} {queue : List (List Value)} {cmd : List GoString}
  {cmds : List (List GoString)}

private theorem handleCommand_queue (clock : Nat → Time) (hcmd : Accepted cmd) :
    handleCommand other s (queueing queue) clock (strs cmd) =
      .ok (replyQueued, s, queueing (queue ++ [strs cmd])) := by
  obtain ⟨name, args, rfl, hname, hvalid⟩ := hcmd
  have hcontrol : ¬ (name = lit "EXEC" ∨ name = lit "DISCARD") ∧ canQueueCommand name = true := by
    simp only [List.mem_cons, List.not_mem_nil, or_false] at hname
    rcases hname with rfl | rfl | rfl | rfl <;> decide
  have hqueue : queueCommandForTransaction (queueing queue) name (strs (name :: args)) =
      (replyQueued, queueing (queue ++ [strs (name :: args)])) := by
    have hlen : (strs (name :: args)).length = (name :: args).length := List.length_map _
    simp only [queueCommandForTransaction, hlen, hvalid]
  show (if name = lit "EXEC" ∨ name = lit "DISCARD" then _
    else if canQueueCommand name then
      Except.ok ((queueCommandForTransaction (queueing queue) name (strs (name :: args))).1, s,
        (queueCommandForTransaction (queueing queue) name (strs (name :: args))).2)
    else _) = _
  rw [if_neg hcontrol.1, if_pos hcontrol.2, hqueue]

/-- The commands of a transaction are queued in order. -/
private theorem handleConnection_queue (hcmds : ∀ cmd ∈ cmds, Accepted cmd)
    (rest : List (Value × (Nat → Time))) :
    handleConnection other s (queueing queue) (sendAll now cmds ++ rest) =
      (handleConnection other s (queueing (queue ++ cmds.map strs)) rest).map fun r =>
        (cmds.map (fun _ => replyQueued) ++ r.1, r.2) := by
  induction cmds generalizing queue with
  | nil =>
    show handleConnection other s (queueing queue) rest =
      (handleConnection other s (queueing (queue ++ [])) rest).map _
    rw [List.append_nil]
    cases handleConnection other s (queueing queue) rest <;> rfl
  | cons cmd cmds ih =>
    have hrest : ∀ cmd ∈ cmds, Accepted cmd :=
      fun cmd hcmd => hcmds cmd (List.mem_cons_of_mem _ hcmd)
    rw [sendAll, List.map_cons, List.cons_append, handleConnection_cons,
      handleCommand_queue other _ (hcmds cmd List.mem_cons_self)]
    show (handleConnection other s (queueing (queue ++ [strs cmd]))
      (sendAll now cmds ++ rest)).map _ = _
    rw [ih hrest, List.append_assoc]
    show _ =
      (handleConnection other s (queueing (queue ++ ([strs cmd] ++ cmds.map strs))) rest).map _
    cases handleConnection other s (queueing (queue ++ ([strs cmd] ++ cmds.map strs))) rest <;> rfl

/-- The TTL logged is read from the last argument, whatever the qualifier. -/
theorem loggedTTL_strs {rest : List GoString} (hrest : rest.length ≤ 2) :
    ∃ ttlSeconds, loggedTTL (strs rest) = .ok ttlSeconds := by
  match rest, hrest with
  | [], _ => exact ⟨_, rfl⟩
  | [seconds], _ => exact ⟨_, rfl⟩
  | [qualifier, seconds], _ => exact ⟨_, rfl⟩

theorem persistCommand_set (s : Server) (key value : GoString) (rest : List Value) :
    persistCommand s (.str (lit "SET") :: .str key :: .str value :: rest) =
      loggedTTL rest >>= fun ttlSeconds =>
        .ok ((s.replicate (.set key value ttlSeconds)).append (.set key value ttlSeconds)) := by
  unfold persistCommand
  exact if_pos rfl

/-- What is replicated and logged does not touch the cache. -/
private theorem persistCommand_ok (s : Server) (hcmd : Accepted cmd) :
    ∃ s', persistCommand s (strs cmd) = .ok s' ∧ s'.cache = s.cache := by
  rcases hcmd.cases with ⟨key, value, rest, rfl, hrest⟩ | ⟨key, rfl⟩ | ⟨key, rfl⟩ | ⟨args, rfl⟩
  · obtain ⟨ttlSeconds, httl⟩ := loggedTTL_strs hrest
    rw [strs, List.map_cons, List.map_cons, List.map_cons, persistCommand_set, ← strs, httl]
    exact ⟨_, rfl, cache_persist _ _⟩
  · exact ⟨s, rfl, rfl⟩
  · exact ⟨_, rfl, cache_persist _ _⟩
  · exact ⟨s, rfl, rfl⟩

private theorem persistAll_ok (s : Server) (hcmds : ∀ cmd ∈ cmds, Accepted cmd) :
    ∃ s', (cmds.map strs).foldlM persistCommand s = .ok s' ∧ s'.cache = s.cache := by
  induction cmds generalizing s with
  | nil => exact ⟨s, rfl, rfl⟩
  | cons cmd cmds ih =>
    obtain ⟨s₁, hpersist, hc₁⟩ := persistCommand_ok s (hcmds cmd List.mem_cons_self)
    obtain ⟨s', hrest, hc'⟩ := ih s₁ fun cmd hcmd => hcmds cmd (List.mem_cons_of_mem _ hcmd)
    refine ⟨s', ?_, hc'.trans hc₁⟩
    rw [List.map_cons, List.foldlM_cons, hpersist]
    exact hrest

/-- The reply of `EXEC`: an array of the responses. -/
def execReply (responses : List Bytes) : Bytes :=
  byte '*' :: itoa (Int64.ofNat responses.length) ++ crlf ++ responses.flatten

theorem switchCommand_exec (s : Server) (st : ConnectionState) (clock : Nat → Time)
    (resultSlice : List Value) :
    switchCommand s st clock (.str (lit "EXEC")) resultSlice = handleExec s st clock := rfl

/-- `EXEC` on a queue of accepted commands. -/
private theorem handleExec_queue (s : Server) (hcmds : ∀ cmd ∈ cmds, Accepted cmd)
    {responses : List Bytes} {c : Cache}
    (hexecute : executeQueue (fun _ => now) 0 s.cache (cmds.map strs) = .ok (responses, c)) :
    ∃ s', handleExec s (queueing (cmds.map strs)) (fun _ => now) =
        .ok (execReply responses, s', .new) ∧ s'.cache = c := by
  obtain ⟨s', hpersist, hc'⟩ := persistAll_ok { s with cache := c } hcmds
  refine ⟨s', ?_, hc'⟩
  show (executeQueue (fun _ => now) 0 s.cache (cmds.map strs) >>= fun r =>
    (cmds.map strs).foldlM persistCommand { s with cache := r.2 } >>= fun s' =>
      Except.ok (execReply r.1, s', ConnectionState.new)) = _
  rw [hexecute]
  show ((cmds.map strs).foldlM persistCommand { s with cache := c } >>= fun s' => _) = _
  rw [hpersist]
  rfl

end Queue

/-- On a standalone leader, `MULTI`, a list of accepted commands and `EXEC`, all
    at one time, leave the cache as the commands sent one by one do. The reply to
    `EXEC` is an array with one response per command: the reply to the command
    outside the transaction, or an error exactly if that is one. -/
theorem exec_agrees_with_immediate (other : OtherHandlers) (c : WfCache) (aof : Bytes)
    (trigger : RewriteTrigger) (leader : Option Leader)
    (forward : GoString → Bool → Option (GoString × GoString)) (now : Time)
    (cmds : List (List GoString)) (hcmds : ∀ cmd ∈ cmds, Accepted cmd) :
    ∃ replies responses s₁ s₂,
      handleConnection other ⟨c.cache, aof, trigger, leader, .leader, false, forward⟩ .new
        (sendAll now cmds) = .ok (replies, s₁, .new) ∧
      handleConnection other ⟨c.cache, aof, trigger, leader, .leader, false, forward⟩ .new
        (sendAll now ([lit "MULTI"] :: cmds ++ [[lit "EXEC"]])) =
          .ok (replyOK :: cmds.map (fun _ => replyQueued) ++ [execReply responses], s₂, .new) ∧
      s₂.cache = s₁.cache ∧
      List.Forall₂ (fun response reply =>
        (isErrorReply reply = false → response = reply) ∧
          isErrorReply response = isErrorReply reply) responses replies := by
  let s : Server := ⟨c.cache, aof, trigger, leader, .leader, false, forward⟩
  have hs : Standalone s := ⟨rfl, rfl⟩
  have hst : Immediate ConnectionState.new := ⟨rfl, rfl⟩
  obtain ⟨replies, responses, s₁, c', himmediate, hc₁, hexecute, hagrees⟩ :=
    queue_agrees other now hs hst rfl hcmds 0
  obtain ⟨s₂, hexec, hc₂⟩ := handleExec_queue now s hcmds hexecute
  refine ⟨replies, responses, s₁, s₂, himmediate, ?_, hc₂.trans hc₁.symm, hagrees⟩
  have hmulti : handleCommand other s .new (fun _ => now) (strs [lit "MULTI"]) =
      .ok (replyOK, s, queueing []) := by
    rw [handleCommand_immediate other hst _ (by decide) (movedTo_eq_none hs _ _)]
    rfl
  have hexec' : handleCommand other s (queueing (cmds.map strs)) (fun _ => now)
      (strs [lit "EXEC"]) = .ok (execReply responses, s₂, .new) := by
    -- control commands are not queued
    show dispatch other s (queueing (cmds.map strs)) (fun _ => now) (.str (lit "EXEC"))
      (strs [lit "EXEC"]) = _
    rw [dispatch_strs other _ (by decide) (movedTo_eq_none hs _ _), switchCommand_exec, hexec]
  have hlast : handleConnection other s (queueing ([] ++ cmds.map strs))
      (sendAll now [[lit "EXEC"]]) = .ok ([execReply responses], s₂, .new) := by
    rw [sendAll, List.map_singleton, handleConnection_cons, List.nil_append, hexec']
    rfl
  have hsplit : sendAll now ([lit "MULTI"] :: cmds ++ [[lit "EXEC"]]) =
      (.arr (strs [lit "MULTI"]), fun _ => now) ::
        (sendAll now cmds ++ sendAll now [[lit "EXEC"]]) := by
    simp [sendAll]
  rw [hsplit, handleConnection_cons, hmulti]
  show (handleConnection other s (queueing [])
    (sendAll now cmds ++ sendAll now [[lit "EXEC"]])).map _ = _
  rw [handleConnection_queue other now hcmds, hlast]
  rfl

/-- A transaction whose third command is refused, in and outside `EXEC`. -/
theorem exec_agrees_with_immediate_refused :
    ∃ replies responses s₁ s₂,
      handleConnection (fun s st _ => ([], s, st))
        ⟨Cache.new 10, [], .new 2, none, .leader, false, fun _ _ => none⟩ .new
        (sendAll 7 [[lit "SET", lit "k", lit "v", lit "ex", lit "5"], [lit "GET", lit "k"],
          [lit "SET", lit "k", lit "w", lit "soon"], [lit "PING"]]) = .ok (replies, s₁, .new) ∧
      handleConnection (fun s st _ => ([], s, st))
        ⟨Cache.new 10, [], .new 2, none, .leader, false, fun _ _ => none⟩ .new
        (sendAll 7 [[lit "MULTI"], [lit "SET", lit "k", lit "v", lit "ex", lit "5"],
          [lit "GET", lit "k"], [lit "SET", lit "k", lit "w", lit "soon"], [lit "PING"],
          [lit "EXEC"]]) =
        .ok ([replyOK, replyQueued, replyQueued, replyQueued, replyQueued, execReply responses], s₂,
          .new) ∧
      s₂.cache = s₁.cache ∧
      List.Forall₂ (fun response reply =>
        (isErrorReply reply = false → response = reply) ∧
          isErrorReply response = isErrorReply reply) responses replies :=
  exec_agrees_with_immediate (fun s st _ => ([], s, st)) (WfCache.new 10) [] (.new 2) none
    (fun _ _ => none) 7
    [[lit "SET", lit "k", lit "v", lit "ex", lit "5"], [lit "GET", lit "k"],
      [lit "SET", lit "k", lit "w", lit "soon"], [lit "PING"]] (by decide)

end GoCache.Spec
