import GoCache.ForStd.Reaches
import GoCache.Spec.Requests

/-!
# Transactions over the life of a connection

Beside the connection stands the transaction as the client sees it: it is opened
by a `MULTI` that is answered `OK`, it collects the commands that are answered
`QUEUED`, it has failed once a command had the wrong number of arguments, and
`EXEC` and `DISCARD` close it. In every state that a sequence of requests leads
to, the fields of the connection are those of that transaction.

A node of a cluster answers an `EXEC` or `DISCARD` with a redirection if its second
element is a key of another node. The transaction then stays open.

## Key results

- `handleExec_performs`: `EXEC` on a queue of strings, without waiting for a lock
- `Tracks.step`: one request
- `transactions_exact`: all requests of a connection
-/

namespace GoCache.Spec

open GoCache.Native Transition

/-! ## Executing a queue -/

/-- What executing a queue is to the cache, if no lock has to be waited for: every
    command once, in order, with the responses. -/
inductive PerformsAll (clock : Nat → Time) :
    Nat → WfCache → List (List Value) → List Bytes → WfCache → Prop where
  | nil (i : Nat) (c : WfCache) : PerformsAll clock i c [] [] c
  | command {i : Nat} {c c₁ c' : WfCache} {cmd : List Value} {queue : List (List Value)}
      {response : Bytes} {responses : List Bytes} {mutation : Option Mutation}
      (hcmd : Executes c (clock i) cmd response mutation c₁)
      (hqueue : PerformsAll clock (i + 1) c₁ queue responses c') :
      PerformsAll clock i c (cmd :: queue) (response :: responses) c'
  | dbsize {i : Nat} {c c' : WfCache} {queue : List (List Value)} {responses : List Bytes}
      (hqueue : PerformsAll clock (i + 1) c queue responses c') :
      PerformsAll clock i c ([.str (lit "DBSIZE")] :: queue)
        (replyDBSize c.cache.len :: responses) c'

section Exec

variable {clock : Nat → Time} {i : Nat} {c c' : WfCache} {queue : List (List Value)}
  {responses : List Bytes} {s : Server}

/-- Strings that can be queued: `EXEC` gets through all of them but `DBSIZE`. -/
private theorem completes_strs {cmd : List GoString} (hq : Queueable (strs cmd)) :
    strs cmd = [.str (lit "DBSIZE")] ∨ completes (strs cmd) = true := by
  have hall : ∀ {name : GoString} {args : List Value}, strs cmd = .str name :: args →
      args.all isString = true := by
    intro name args heq
    cases cmd with
    | nil => exact nomatch heq
    | cons head tail =>
      cases heq
      simp [isString]
  rcases hq.cases with ⟨key, value, rest, heq, -⟩ | ⟨key, heq⟩ | ⟨key, heq⟩ | heq |
    ⟨name, args, heq, hname⟩
  · right
    rw [heq, completes_of_mem _ (by decide), hall heq]
  · right
    rw [heq, completes_of_mem _ (by decide), hall heq]
  · right
    rw [heq, completes_of_mem _ (by decide), hall heq]
  · exact .inl heq
  · right
    simp only [List.mem_cons, List.not_mem_nil, or_false, not_or] at hname
    rw [heq, completes, if_neg hname.2.2.2, if_neg (by simp [hname])]

private theorem performsAll_strs (clock : Nat → Time) (i : Nat) (c : WfCache)
    {queue : List (List GoString)} (hq : ∀ cmd ∈ queue, Queueable (strs cmd)) :
    ∃ responses c', PerformsAll clock i c (queue.map strs) responses c' := by
  induction queue generalizing i c with
  | nil => exact ⟨[], c, .nil i c⟩
  | cons cmd queue ih =>
    have hrest : ∀ cmd ∈ queue, Queueable (strs cmd) :=
      fun cmd hcmd => hq cmd (List.mem_cons_of_mem _ hcmd)
    rw [List.map_cons]
    rcases completes_strs (hq cmd List.mem_cons_self) with heq | hcmd
    · obtain ⟨responses, c', hqueue⟩ := ih (i + 1) c hrest
      rw [heq]
      exact ⟨_, c', .dbsize hqueue⟩
    · obtain ⟨response, mutation, c₁, hexecutes⟩ :=
        executes_of_completes c (clock i) (hq cmd List.mem_cons_self) hcmd
      obtain ⟨responses, c', hqueue⟩ := ih (i + 1) c₁ hrest
      exact ⟨_, c', .command hexecutes hqueue⟩

private theorem executeCommandIn_of_executes {cmd : List Value} {now : Time} {response : Bytes}
    {mutation : Option Mutation} (h : Executes c now cmd response mutation c')
    (dbSize : Cache → Except Panic Bytes) :
    executeCommandIn dbSize c.cache now cmd = .ok (response, c'.cache) := by
  have hexecute := executeCommand_of_executes h
  match cmd with
  | .str name :: args =>
    have hname : name ≠ lit "DBSIZE" := by
      rintro rfl
      rw [executeCommand_dbsize] at hexecute
      exact nomatch hexecute
    rw [← hexecute, executeCommandIn, executeCommand_str, if_neg hname, if_neg hname]
    rfl
  | [] => exact nomatch hexecute
  | .int _ :: _ => exact nomatch hexecute
  | .arr _ :: _ => exact nomatch hexecute
  | .nilArr :: _ => exact nomatch hexecute

/-- The relation is what the first loop computes. -/
private theorem executeQueueIn_of_performsAll
    (h : PerformsAll clock i c queue responses c') :
    executeQueueIn (m := Except Panic) (fun c => pure (replyDBSize c.len)) clock i c.cache queue =
      .ok (responses, c'.cache) := by
  induction h with
  | nil i c => rfl
  | command hcmd _ ih =>
    rw [executeQueueIn, executeCommandIn_of_executes hcmd]
    show (executeQueueIn (m := Except Panic) _ clock _ _ _ >>= fun r => _) = _
    rw [ih]
    rfl
  | dbsize _ ih =>
    rw [executeQueueIn, executeCommandIn, if_pos rfl]
    show (executeQueueIn (m := Except Panic) _ clock _ _ _ >>= fun r => _) = _
    rw [ih]
    rfl

/-- `EXEC` on a queue of strings executes it, and replicates and logs it. -/
theorem handleExec_performs (clock : Nat → Time) {queue : List (List GoString)}
    (hq : ∀ cmd ∈ queue, Queueable (strs cmd)) (hc : s.cache = c.cache) :
    ∃ responses c', PerformsAll clock 0 c (queue.map strs) responses c' ∧
      handleExecUnlocked s (queueing (queue.map strs)) clock = .ok (execReply responses,
        logAll { s with cache := c'.cache } ((queue.map strs).filterMap record?), .new) := by
  obtain ⟨responses, c', hperforms⟩ := performsAll_strs clock 0 c hq
  refine ⟨responses, c', hperforms, ?_⟩
  have hpersist : ∀ cmd ∈ queue.map strs, ∀ s,
      persistCommand s cmd = .ok (logAll s (record? cmd).toList) := by
    intro cmd hcmd s
    obtain ⟨cmd, hmem, rfl⟩ := List.mem_map.mp hcmd
    rcases completes_strs (hq cmd hmem) with heq | hcompletes
    · rw [heq]
      rfl
    · exact persistCommand_of_completes s (hq cmd hmem) hcompletes
  show (executeQueueIn (m := Except Panic) (fun c => pure (replyDBSize c.len)) clock 0 s.cache
    (queue.map strs) >>= fun r =>
      (queue.map strs).foldlM persistCommand { s with cache := r.2 } >>= fun s' =>
        Except.ok (execReply r.1, s', ConnectionState.new)) = _
  rw [hc, executeQueueIn_of_performsAll hperforms]
  show ((queue.map strs).foldlM persistCommand { s with cache := c'.cache } >>= fun s' => _) = _
  rw [foldlM_persistCommand _ hpersist]
  rfl

end Exec

/-! ## The transaction of a connection -/

/-- A transaction as the client sees it: the commands that were answered `QUEUED`,
    and whether a command failed the validation. -/
structure Transaction where
  queued : List (List GoString)
  failed : Bool
  deriving DecidableEq

/-- The transaction behind a request and its reply. -/
def Transaction.track (tx : Option Transaction) (request : List GoString) (reply : Bytes) :
    Option Transaction :=
  match request, tx with
  | [], _ => tx
  | name :: _, none => if name = lit "MULTI" ∧ reply = replyOK then some ⟨[], false⟩ else none
  | name :: _, some t =>
    if name = lit "EXEC" ∨ name = lit "DISCARD" then none
    else some {
      queued := if reply = replyQueued then t.queued ++ [request] else t.queued
      failed := t.failed ||
        (canQueueCommand name && (validationErr name request.length).isSome) }

/-- A connection to a node, with its transaction. -/
structure Session (ω : Type) where
  node : ServerNode ω
  st : ConnectionState
  tx : Option Transaction

section Session

variable {ω : Type} (net : Network ω) (hash : Bytes → UInt32) (conn : ConnID)

/-- The node is in a cluster and sends the client of an `EXEC` or `DISCARD` to the
    node of its second element. -/
def redirected (n : ServerNode ω) : List GoString → Bool
  | name :: key :: _ =>
    (name = lit "EXEC" || name = lit "DISCARD") && n.state.isClusterMode &&
      key ≠ GoString.empty && (n.state.shouldForwardRequest hash key false).isSome
  | _ => false

/-- One request of the client. -/
def Session.step (s : Session ω) (request : Choices × List GoString) : Option (Session ω) :=
  match s.node.handleCommand handleExecUnlocked net hash conn s.st request.1 (strs request.2) with
  | .ok (reply, n, st) => some ⟨n, st, Transaction.track s.tx request.2 reply⟩
  | .error _ => none

/-- In a transaction, the request is not redirected. -/
def Session.Direct (s : Session ω) (request : Choices × List GoString) : Prop :=
  s.st.inTransaction = true → redirected hash s.node request.2 = false

instance (s : Session ω) (request : Choices × List GoString) : Decidable (s.Direct hash request) :=
  inferInstanceAs (Decidable (_ → _))

/-- The fields of a connection, and its transaction. -/
inductive Tracks : ConnectionState → Option Transaction → Prop where
  | outside (mode : Bool) : Tracks ⟨mode, false, [], none⟩ none
  | queueing (queue : List (List GoString)) (hq : ∀ cmd ∈ queue, Queueable (strs cmd)) :
      Tracks (queueing (queue.map strs)) (some ⟨queue, false⟩)
  | failed (queue : List (List Value)) (queued : List (List GoString)) (text : Bytes) :
      Tracks ⟨false, true, queue, some text⟩ (some ⟨queued, true⟩)

/-- The reply of `EXEC` to a transaction that has failed. -/
def execAbort : Bytes :=
  encodeError (ascii "EXECABORT Transaction discarded because of previous errors.")

/-- What a request in a transaction may do to the node: only `EXEC` changes it, and
    by nothing but the commands of the transaction, each once and in order. -/
structure Exact (n : ServerNode ω) (t : Transaction) (clock : Nat → Time) (name : GoString)
    (reply : Bytes) (n' : ServerNode ω) : Prop where
  untouched : name ≠ lit "EXEC" → n' = n
  abort_iff : name = lit "EXEC" → (reply = execAbort ↔ t.failed = true)
  aborted : name = lit "EXEC" → t.failed = true → n' = n
  executed : name = lit "EXEC" → t.failed = false → ∃ c responses c',
    n.cache = WfCache.cache c ∧ PerformsAll clock 0 c (t.queued.map strs) responses c' ∧
      reply = execReply responses ∧
      n' = n.update (logAll { n.server hash with cache := c'.cache }
        ((t.queued.map strs).filterMap record?))

end Session

section Steps

variable {ω : Type} {net : Network ω} {hash : Bytes → UInt32} {conn : ConnID}
  {n : ServerNode ω} {st : ConnectionState} {choices : Choices} {name : GoString}
  {args : List GoString}

private theorem handleExecUnlocked_outside (s : Server) (st : ConnectionState)
    (clock : Nat → Time) (hout : st.inTransaction = false) :
    handleExecUnlocked s st clock =
      .ok (encodeError (ascii "ERR EXEC without MULTI"), s, st) := by
  unfold handleExecUnlocked handleExecIn
  rw [hout]
  rfl

/-- `EXEC` and `DISCARD` are redirected as reads are. -/
private theorem movedTo_eq_none_iff {key : GoString} {rest : List GoString}
    (hname : name = lit "EXEC" ∨ name = lit "DISCARD") :
    movedTo (n.server hash) (.str name) key = none ↔
      redirected hash n (name :: key :: rest) = false := by
  have hread : isCommand (.str name) "SET" = false ∧ isCommand (.str name) "DEL" = false := by
    rcases hname with rfl | rfl <;> decide
  unfold movedTo
  rw [hread.1, hread.2]
  split
  · next hcluster =>
    show (n.state.shouldForwardRequest hash key false).map _ = none ↔ _
    simp [redirected, hname, hcluster.2, show n.state.isClusterMode = true from hcluster.1]
  · next hcluster =>
    have hnot : ¬(n.state.isClusterMode = true ∧ key ≠ GoString.empty) := hcluster
    simp only [redirected, true_iff]
    by_cases hmode : n.state.isClusterMode = true
    · simp [Classical.byContradiction fun hkey => hnot ⟨hmode, hkey⟩]
    · simp [hmode]

section Control

variable {exec : ExecHandler}

private theorem dispatch_control (hname : name = lit "EXEC" ∨ name = lit "DISCARD") :
    n.dispatch exec net hash conn st choices (.str name) (strs (name :: args)) =
      routingKey (strs (name :: args)) >>= fun key =>
        match movedTo (n.server hash) (.str name) key with
        | some moved => .ok (moved, n, st)
        | none => n.switchCommand exec hash st choices.clock (.str name) (strs (name :: args)) := by
  apply dispatch_other
  all_goals rcases hname with rfl | rfl <;> decide

/-- `EXEC` and `DISCARD` get to the second `switch`. -/
theorem dispatch_direct (hname : name = lit "EXEC" ∨ name = lit "DISCARD")
    (hdirect : redirected hash n (name :: args) = false) :
    n.dispatch exec net hash conn st choices (.str name) (strs (name :: args)) =
      n.switchCommand exec hash st choices.clock (.str name) (strs (name :: args)) := by
  rw [dispatch_control hname]
  cases args with
  | nil =>
    have hnone : movedTo (n.server hash) (.str name) GoString.empty = none :=
      if_neg fun h => h.2 rfl
    simp only [routingKey, List.map_cons, List.map_nil, bind, Except.bind, hnone]
  | cons key rest =>
    simp only [routingKey, List.map_cons, asString, bind, Except.bind,
      (movedTo_eq_none_iff hname).mpr hdirect]

/-- `EXEC` and `DISCARD` with a key of another node. -/
theorem dispatch_redirected (hname : name = lit "EXEC" ∨ name = lit "DISCARD")
    (hred : redirected hash n (name :: args) = true) :
    ∃ moved, n.dispatch exec net hash conn st choices (.str name) (strs (name :: args)) =
      .ok (moved, n, st) := by
  rw [dispatch_control hname]
  cases args with
  | nil => simp [redirected] at hred
  | cons key rest =>
    cases hmoved : movedTo (n.server hash) (.str name) key with
    | none => exact nomatch ((movedTo_eq_none_iff hname).mp hmoved).symm.trans hred
    | some moved =>
      simp only [routingKey, List.map_cons, asString, bind, Except.bind, hmoved]
      exact ⟨moved, rfl⟩

end Control

/-- In a transaction, `EXEC` and `DISCARD` get to the second `switch`. -/
private theorem handleCommand_control (hname : name = lit "EXEC" ∨ name = lit "DISCARD")
    (hdirect : redirected hash n (name :: args) = false) (queue : List (List Value))
    (err : Option Bytes) :
    n.handleCommand handleExecUnlocked net hash conn ⟨false, true, queue, err⟩ choices
        (strs (name :: args)) =
      n.switchCommand handleExecUnlocked hash ⟨false, true, queue, err⟩ choices.clock (.str name)
        (strs (name :: args)) := by
  show (if name = lit "EXEC" ∨ name = lit "DISCARD" then _ else _) = _
  rw [if_pos hname]
  exact dispatch_direct hname hdirect

/-- In a transaction, a command that can be queued is. -/
private theorem handleCommand_queueable (hname : ¬ (name = lit "EXEC" ∨ name = lit "DISCARD"))
    (hcan : canQueueCommand name = true) (queue : List (List Value)) (err : Option Bytes) :
    n.handleCommand handleExecUnlocked net hash conn ⟨false, true, queue, err⟩ choices
        (strs (name :: args)) =
      .ok ((queueCommandForTransaction ⟨false, true, queue, err⟩ name (strs (name :: args))).1, n,
        (queueCommandForTransaction ⟨false, true, queue, err⟩ name (strs (name :: args))).2) := by
  show (if name = lit "EXEC" ∨ name = lit "DISCARD" then _ else _) = _
  rw [if_neg hname, if_pos hcan]

/-- In a transaction, all other commands are rejected. -/
private theorem handleCommand_rejected (hname : ¬ (name = lit "EXEC" ∨ name = lit "DISCARD"))
    (hcan : canQueueCommand name = false) (queue : List (List Value)) (err : Option Bytes) :
    ∃ text, n.handleCommand handleExecUnlocked net hash conn ⟨false, true, queue, err⟩ choices
      (strs (name :: args)) = .ok (encodeError text, n, ⟨false, true, queue, err⟩) := by
  show ∃ text, (if name = lit "EXEC" ∨ name = lit "DISCARD" then _ else _) = _
  rw [if_neg hname, hcan, if_neg Bool.false_ne_true]
  exact ⟨_, rfl⟩

/-- An error is none of the replies that transactions are about. -/
private theorem encodeError_ne (text : Bytes) :
    encodeError text ≠ replyQueued ∧ encodeError text ≠ replyOK := by
  have hhead : some (byte '-') ≠ some (byte '+') := by decide
  exact ⟨fun heq => hhead (congrArg List.head? heq), fun heq => hhead (congrArg List.head? heq)⟩

/-- A request in a transaction is handled: what it does to the node, and where it
    leads. -/
structure Handled (net : Network ω) (hash : Bytes → UInt32) (conn : ConnID) (n : ServerNode ω)
    (st : ConnectionState) (t : Transaction) (choices : Choices) (name : GoString)
    (args : List GoString) (reply : Bytes) (n' : ServerNode ω) (st' : ConnectionState) : Prop where
  eq : n.handleCommand handleExecUnlocked net hash conn st choices (strs (name :: args)) =
    .ok (reply, n', st')
  exact : Exact hash n t choices.clock name reply n'
  tracks : Tracks st' (Transaction.track (some t) (name :: args) reply)
  isWf : IsWf n'.cache

variable {t : Transaction}

private theorem Tracks.exec (hc : IsWf n.cache) (h : Tracks st (some t))
    (hdirect : redirected hash n (lit "EXEC" :: args) = false) :
    ∃ reply n' st', Handled net hash conn n st t choices (lit "EXEC") args reply n' st' := by
  cases h with
  | queueing queue hq =>
    obtain ⟨c, hcache⟩ := hc
    obtain ⟨responses, c', hperforms, hexec⟩ := handleExec_performs (s := n.server hash)
      choices.clock hq hcache.symm
    refine ⟨execReply responses, n.update (logAll { n.server hash with cache := c'.cache }
      ((queue.map strs).filterMap record?)), .new, ?_, ⟨fun hne => absurd rfl hne, ?_, ?_, ?_⟩,
      .outside false, c', ?_⟩
    · rw [handleCommand_control (.inl rfl) hdirect]
      show (handleExecUnlocked (n.server hash) (Spec.queueing (queue.map strs)) choices.clock >>=
        fun r => _) = _
      rw [hexec]
      rfl
    · intro _
      have hhead : some (byte '*') ≠ some (byte '-') := by decide
      exact ⟨fun heq => absurd (congrArg List.head? heq) hhead, fun hfailed => nomatch hfailed⟩
    · exact fun _ hfailed => nomatch hfailed
    · exact fun _ _ => ⟨c, responses, c', hcache.symm, hperforms, rfl, rfl⟩
    · rw [ServerNode.update, cache_logAll]
  | failed queue queued text =>
    refine ⟨execAbort, n, .new, ?_,
      ⟨fun hne => absurd rfl hne, fun _ => ⟨fun _ => rfl, fun _ => rfl⟩, fun _ _ => rfl,
        fun _ hfailed => nomatch hfailed⟩, .outside false, hc⟩
    rw [handleCommand_control (.inl rfl) hdirect]
    rfl

/-- Any other command than `EXEC` leaves the node as it is. -/
private theorem exact_of_ne {clock : Nat → Time} {reply : Bytes} (hname : name ≠ lit "EXEC") :
    Exact hash n t clock name reply n where
  untouched _ := rfl
  abort_iff heq := absurd heq hname
  aborted heq := absurd heq hname
  executed heq := absurd heq hname

private theorem Tracks.discard (hc : IsWf n.cache) (h : Tracks st (some t))
    (hdirect : redirected hash n (lit "DISCARD" :: args) = false) :
    ∃ reply n' st', Handled net hash conn n st t choices (lit "DISCARD") args reply n' st' := by
  refine ⟨replyOK, n, .new, ?_, exact_of_ne (by decide), .outside false, hc⟩
  cases h with
  | queueing queue hq =>
    rw [handleCommand_control (.inr rfl) hdirect]
    rfl
  | failed queue queued text =>
    rw [handleCommand_control (.inr rfl) hdirect]
    rfl

private theorem track_other {reply : Bytes}
    (hname : ¬ (name = lit "EXEC" ∨ name = lit "DISCARD")) :
    Transaction.track (some t) (name :: args) reply = some
      ⟨if reply = replyQueued then t.queued ++ [name :: args] else t.queued,
        t.failed || (canQueueCommand name && (validationErr name (name :: args).length).isSome)⟩ :=
  if_neg hname

private theorem Tracks.queue_or_reject (hc : IsWf n.cache) (h : Tracks st (some t))
    (hname : ¬ (name = lit "EXEC" ∨ name = lit "DISCARD")) :
    ∃ reply n' st', Handled net hash conn n st t choices name args reply n' st' := by
  have hexact : ∀ reply, Exact hash n t choices.clock name reply n :=
    fun reply => exact_of_ne fun heq => hname (.inl heq)
  have hlen : (strs (name :: args)).length = (name :: args).length := List.length_map _
  by_cases hcan : canQueueCommand name = true
  · cases h with
    | queueing queue hq =>
      cases hvalid : validationErr name (name :: args).length with
      | none =>
        refine ⟨replyQueued, n, Spec.queueing ((queue ++ [name :: args]).map strs), ?_, hexact _,
          ?_, hc⟩
        · rw [handleCommand_queueable hname hcan, queueCommandForTransaction, hlen,
            hvalid, List.map_append]
          rfl
        · rw [track_other hname, if_pos rfl, hvalid, hcan]
          refine .queueing _ fun cmd hcmd => ?_
          rcases List.mem_append.mp hcmd with hold | hnew
          · exact hq cmd hold
          · rw [List.mem_singleton.mp hnew]
            exact ⟨name, strs args, rfl, hcan, by rw [hlen, hvalid]⟩
      | some text =>
        refine ⟨encodeError text, n, ⟨false, true, queue.map strs, some text⟩, ?_, hexact _, ?_,
          hc⟩
        · rw [handleCommand_queueable hname hcan, queueCommandForTransaction, hlen,
            hvalid]
        · rw [track_other hname, if_neg (encodeError_ne text).1, hvalid, hcan]
          exact .failed _ _ text
    | failed queue queued text =>
      refine ⟨replyQueued, n, ⟨false, true, queue, some text⟩, ?_, hexact _, ?_, hc⟩
      · rw [handleCommand_queueable hname hcan, queueCommandForTransaction]
      · rw [track_other hname, Bool.true_or]
        exact .failed queue _ text
  · -- the command cannot be used in a transaction
    rw [Bool.not_eq_true] at hcan
    cases h with
    | queueing queue hq =>
      obtain ⟨text, hreject⟩ := handleCommand_rejected hname hcan (queue.map strs) none
      refine ⟨encodeError text, n, Spec.queueing (queue.map strs), hreject, hexact _, ?_, hc⟩
      rw [track_other hname, if_neg (encodeError_ne text).1, hcan]
      exact .queueing queue hq
    | failed queue queued err =>
      obtain ⟨text, hreject⟩ := handleCommand_rejected hname hcan queue (some err)
      refine ⟨encodeError text, n, ⟨false, true, queue, some err⟩, hreject, hexact _, ?_, hc⟩
      rw [track_other hname, if_neg (encodeError_ne text).1, Bool.true_or]
      exact .failed queue queued err

/-- A request in a transaction. -/
theorem Tracks.inside (hc : IsWf n.cache) (h : Tracks st (some t))
    (hdirect : redirected hash n (name :: args) = false) :
    ∃ reply n' st', Handled net hash conn n st t choices name args reply n' st' := by
  by_cases hexec : name = lit "EXEC"
  · subst hexec
    exact h.exec hc hdirect
  by_cases hdiscard : name = lit "DISCARD"
  · subst hdiscard
    exact h.discard hc hdirect
  · exact h.queue_or_reject hc (not_or.mpr ⟨hexec, hdiscard⟩)

/-- A request outside a transaction. -/
private theorem Tracks.outside_step {reply : Bytes} {n' : ServerNode ω} {st' : ConnectionState}
    (hc : IsWf n.cache) (h : Tracks st none)
    (hhandle : n.handleCommand handleExecUnlocked net hash conn st choices
      (strs (name :: args)) = .ok (reply, n', st')) :
    Tracks st' (Transaction.track none (name :: args) reply) ∧ IsWf n'.cache := by
  have hmulti : isCommand (.str name) "MULTI" = true ↔ name = lit "MULTI" := by
    rw [isCommand_iff, Value.str.injEq]
  have htrack : Transaction.track none (name :: args) reply =
      if name = lit "MULTI" ∧ reply = replyOK then some ⟨[], false⟩ else none := rfl
  cases h with
  | outside mode =>
    cases handleCommand_outcome hhandle with
    | refused =>
      rw [htrack, if_neg fun h => (encodeError_ne _).2 h.2]
      exact ⟨.outside mode, hc⟩
    | queued hin | notQueued hin => exact nomatch hin
    | dispatched hallowed _ hdispatch =>
      obtain ⟨hwf, hopen | hother⟩ := dispatch_outside handleExecUnlocked_outside rfl hc hdispatch
      · -- a subscriber may not send it
        obtain rfl := hmulti.mp hopen.1
        have hmode : mode = false := by
          cases mode with
          | false => rfl
          | true => exact absurd (hallowed rfl) (by decide)
        rw [htrack, if_pos ⟨rfl, hopen.2.1⟩, hopen.2.2, hmode]
        exact ⟨.queueing [] fun cmd hcmd => absurd hcmd List.not_mem_nil, hwf⟩
      · obtain ⟨mode', rfl⟩ := hother.2
        rw [htrack, if_neg fun h => hother.1 ⟨hmulti.mpr h.1, h.2⟩]
        exact ⟨.outside mode', hwf⟩

end Steps

/-! ## Runs -/

section Runs

variable {ω : Type} {net : Network ω} {hash : Bytes → UInt32} {conn : ConnID}

/-- What a request preserves. -/
private theorem Session.step_invariant (s s' : Session ω) (request : Choices × List GoString)
    (hinv : Tracks s.st s.tx ∧ IsWf s.node.cache) (hdirect : s.Direct hash request)
    (hstep : s.step net hash conn request = some s') :
    Tracks s'.st s'.tx ∧ IsWf s'.node.cache := by
  obtain ⟨n, st, tx⟩ := s
  obtain ⟨htracks, hc⟩ := hinv
  obtain ⟨choices, request⟩ := request
  unfold Session.step at hstep
  split at hstep
  · next reply n' st' hhandle =>
    cases hstep
    match request, tx with
    | [], _ => exact nomatch hhandle
    | name :: args, none => exact htracks.outside_step hc hhandle
    | name :: args, some t =>
      have hinside : st.inTransaction = true := by
        cases htracks <;> rfl
      obtain ⟨reply', n'', st'', hhandled⟩ := htracks.inside hc (hdirect hinside)
      have heq := hhandled.eq.symm.trans hhandle
      cases heq
      exact ⟨hhandled.tracks, hhandled.isWf⟩
  · exact nomatch hstep

/-- On every connection whose requests in a transaction are not redirected, in every
    state it gets to: nothing of a transaction is left when it is closed, and a
    request in it does what it should. -/
theorem transactions_exact {n : ServerNode ω} {s : Session ω} (hc : IsWf n.cache)
    (hreach : Reaches (Session.step net hash conn) (Session.Direct hash) ⟨n, .new, none⟩ s) :
    (s.st.inTransaction = true ↔ s.tx ≠ none) ∧
      (s.st.inTransaction = false →
        s.st.commandQueue = [] ∧ s.st.transactionError = none) ∧
      ∀ t, s.tx = some t → ∀ choices name args,
        redirected hash s.node (name :: args) = false →
          ∃ reply n' st',
            s.node.handleCommand handleExecUnlocked net hash conn s.st choices
              (strs (name :: args)) = .ok (reply, n', st') ∧
            Exact hash s.node t choices.clock name reply n' := by
  have hinv : Tracks s.st s.tx ∧ IsWf s.node.cache := hreach.invariant ⟨.outside false, hc⟩
    fun s request s' => Session.step_invariant s s' request
  obtain ⟨htracks, hwf⟩ := hinv
  obtain ⟨node, st, tx⟩ := s
  refine ⟨?_, ?_, fun t ht choices name args hdirect => ?_⟩
  · cases htracks <;> simp
  · cases htracks <;> simp
  · cases ht
    obtain ⟨reply, n', st', hhandled⟩ := htracks.inside hwf hdirect
    exact ⟨reply, n', st', hhandled.eq, hhandled.exact⟩

end Runs

/-! ## Two nodes -/

/-- A request in which every reading of the clock is zero and no map is looped over. -/
def request (args : List String) : Choices × List GoString :=
  (⟨fun _ => 0, ⟨fun _ _ => [], fun _ _ => 0⟩, fun _ => [], fun _ => [], []⟩, args.map lit)

/-- The first of two nodes. All keys have the same hash, and belong to the other. -/
def firstOfTwo : ServerNode Unit where
  cache := Cache.new 10
  aof := []
  trigger := .new 2
  state := NodeState.clusterState (fun _ => 0) ⟨lit "n1",
    [⟨lit "n1", lit "host1", 7000, by decide⟩, ⟨lit "n2", lit "host2", 7000, by decide⟩],
    [⟨lit "s1", lit "n1", []⟩, ⟨lit "s2", lit "n2", []⟩]⟩ none ⟨∅⟩
  ps := .new
  world := ()

/-- A transaction with one command, before its `EXEC`. -/
theorem transactions_exact_set :
    ∃ s : Session Unit, Reaches (Session.step noNetwork (fun _ => 0) 0)
        (Session.Direct fun _ => 0) ⟨firstOfTwo, .new, none⟩ s ∧
      s.tx = some ⟨[[lit "SET", lit "k", lit "v"]], false⟩ ∧
      ∃ reply n' st',
        s.node.handleCommand handleExecUnlocked noNetwork (fun _ => 0) 0 s.st
          (request ["EXEC"]).1 (strs [lit "EXEC"]) = .ok (reply, n', st') ∧
        Exact (fun _ => 0) s.node ⟨[[lit "SET", lit "k", lit "v"]], false⟩
          (request ["EXEC"]).1.clock (lit "EXEC") reply n' := by
  have hrun : (runAll (Session.step noNetwork (fun _ => 0) 0) (Session.Direct fun _ => 0)
      ⟨firstOfTwo, .new, none⟩ [request ["MULTI"], request ["SET", "k", "v"]]).any
        (fun s => s.tx = some ⟨[[lit "SET", lit "k", lit "v"]], false⟩) = true := by
    decide +kernel
  obtain ⟨s, _, hreach, htx⟩ := exists_reaches_of_any hrun
  obtain ⟨_, _, hexact⟩ := transactions_exact (WfCache.new 10).isWf hreach
  exact ⟨s, hreach, of_decide_eq_true htx, hexact _ (of_decide_eq_true htx) _ _ _ rfl⟩

/-- `EXEC k` is redirected to the node of `k`: the command is not executed, and the
    transaction stays open. -/
theorem exec_redirected :
    ∃ s : Session Unit, Reaches (Session.step noNetwork (fun _ => 0) 0) (fun _ _ => True)
        ⟨firstOfTwo, .new, none⟩ s ∧
      s.tx = some ⟨[[lit "SET", lit "k", lit "v"]], false⟩ ∧
      ∃ n' st',
        s.node.handleCommand handleExecUnlocked noNetwork (fun _ => 0) 0 s.st
          (request ["EXEC", "k"]).1 (strs [lit "EXEC", lit "k"]) =
            .ok (ascii "-MOVED n2 host2:7000" ++ crlf, n', st') ∧
        n'.cache.contents (lit "k") = none ∧ st'.inTransaction = true := by
  have hrun : (runAll (Session.step noNetwork (fun _ => 0) 0) (fun _ _ => True)
      ⟨firstOfTwo, .new, none⟩ [request ["MULTI"], request ["SET", "k", "v"]]).any
        (fun s => s.tx = some ⟨[[lit "SET", lit "k", lit "v"]], false⟩ ∧
          (s.node.handleCommand handleExecUnlocked noNetwork (fun _ => 0) 0 s.st
            (request ["EXEC", "k"]).1 (strs [lit "EXEC", lit "k"])).map
              (fun r => (r.1, r.2.1.cache.contents (lit "k"), r.2.2.inTransaction)) =
            .ok (ascii "-MOVED n2 host2:7000" ++ crlf, none, true)) = true := by
    decide +kernel
  obtain ⟨s, _, hreach, hcheck⟩ := exists_reaches_of_any hrun
  obtain ⟨htx, hexec⟩ := of_decide_eq_true hcheck
  obtain ⟨⟨reply, n', st'⟩, hhandle, hshows⟩ := map_eq_ok.mp hexec
  simp only [Prod.mk.injEq] at hshows
  exact ⟨s, hreach, htx, n', st', by rw [hhandle, hshows.1], hshows.2.1, hshows.2.2⟩

end GoCache.Spec
