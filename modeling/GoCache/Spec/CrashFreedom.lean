import GoCache.ForStd.Reaches
import GoCache.Spec.ClusterSafety
import GoCache.Spec.ParserSafety

/-!
# Which requests a node survives

From the bytes of its clients to their replies: a node with any number of
connections, each with the bytes that it still sends. A turn of a connection
parses one value and handles it. `fitsOn` and `valueSafe` say exactly which turns end
with a reply or with the connection, by the bytes, the command, the mode of the
connection and the node; all others end the process, wait for ever or write nothing.

## Key results

- `handleCommand_settles`: the requests that are answered
- `turn_settles`: from the bytes
- `client_cannot_crash`: every turn of every run
-/

namespace GoCache.Spec

open GoCache.Native Transition

/-! ## Requests that are answered -/

/-- What stands behind the value of a `SET` has strings where they are asserted. -/
def ttlSafe : List Value → Bool
  | [] => true
  | [seconds] => isString seconds
  | .str qualifier :: seconds :: _ => !isEX qualifier || isString seconds
  | _ :: _ :: _ => false

/-- A `SET` that is answered: the role and the number of elements are checked first. -/
def setSafe (role : Role) : List Value → Bool
  | key :: value :: rest =>
    decide (role = .follower) || decide (2 < rest.length) ||
      (isString key && (isString value && ttlSafe rest))
  | _ => true

/-- The second `switch` is gone through. -/
def switchSafe (role : Role) (st : ConnectionState) (command : Value) (args : List Value) : Bool :=
  if isCommand command "SET" then setSafe role args
  else if isCommand command "EXEC" then
    !st.inTransaction || st.transactionError.isSome || st.commandQueue.all completes
  else isString command

section Safe

variable {ω : Type} (net : Network ω) (hash : Bytes → UInt32) (conn : ConnID)
  (n : ServerNode ω) (st : ConnectionState)

/-- A command that is none of the pub/sub and cluster commands is answered: its second
    element is a string if there is one, and it is redirected or goes through the `switch`. -/
def routedSafe (command : Value) (args : List Value) : Bool :=
  match routingKey (command :: args) with
  | .ok key => (movedTo (n.server hash) command key).isSome ||
      switchSafe n.state.role st command args
  | .error _ => false

/-- A request that is not queued is answered. -/
def dispatchSafe (command : Value) (args : List Value) : Bool :=
  if isCommand command "SUBSCRIBE" || isCommand command "PUBLISH" then true
  else if isCommand command "UNSUBSCRIBE" then args ≠ [] || n.ps.channelSet conn ≠ ∅
  else if isCommand command "CLUSTER" then clusterSafe net n (command :: args)
  else routedSafe hash n st command args

/-- A request is answered. -/
def requestSafe : List Value → Bool
  | [] => false
  | command :: args =>
    if st.subscriberMode && !allowedSubscribed command then true
    else
      match command, st.inTransaction with
      | .str name, true =>
        if name = lit "EXEC" ∨ name = lit "DISCARD" then
          dispatchSafe net hash conn n st command args
        else true
      | _, _ => dispatchSafe net hash conn n st command args

/-- A value that the parser returns is answered, or closes the connection because it is no
    array. -/
def valueSafe : Value → Bool
  | .arr resultSlice => requestSafe net hash conn n st resultSlice
  | .nilArr => false
  | .str _ | .int _ => true

end Safe

/-- What is queued went through the validation. -/
def Queued (st : ConnectionState) : Prop := ∀ cmd ∈ st.commandQueue, Queueable cmd

/-! ## Immediate commands -/

section Immediate

variable {s : Server} {st : ConnectionState} {now : Time} {c : Cache}

private theorem IsWf.set_returns (hc : IsWf c) (key value : GoString) (ttl : Duration)
    (now : Time) : Returns (c.set key value ttl now) IsWf := by
  obtain ⟨w, rfl⟩ := hc
  exact ⟨_, w.cache_set .., WfCache.isWf _⟩

private theorem IsWf.get_returns (hc : IsWf c) (key : GoString) (now : Time) :
    Returns (c.get key now) fun r => IsWf r.2 := by
  obtain ⟨w, rfl⟩ := hc
  exact ⟨_, w.cache_get .., WfCache.isWf _⟩

private theorem IsWf.delete_returns (hc : IsWf c) (key : GoString) :
    Returns (c.delete key) IsWf := by
  obtain ⟨w, rfl⟩ := hc
  exact ⟨_, w.cache_delete .., WfCache.isWf _⟩

@[simp] theorem encodeArray_ne_nil (elements : List Element) : encodeArray elements ≠ [] := by
  simp [encodeArray]

@[simp] theorem encodeBulkString_ne_nil (t : GoString) (isNull : Bool) :
    encodeBulkString t isNull ≠ [] := by
  unfold encodeBulkString
  split
  · simp [crlf]
  · simp

private theorem replyGet_ne_nil (result : GoString × Bool) : replyGet result ≠ [] := by
  unfold replyGet
  split <;> simp

private theorem replyDel_ne_nil : replyDel ≠ [] := by decide

/-- The TTL is read, or the error is one of its texts. -/
private theorem parseTTL_settles (noInteger noIntegerEX : Bytes) (rest : List Value) :
    Settles (ttlSafe rest = true) (parseTTL noInteger noIntegerEX rest) (fun _ => True)
      fun _ => True := by
  rcases rest with _ | ⟨first, _ | ⟨seconds, rest⟩⟩
  · exact .ok trivial (iff_true_intro rfl)
  · refine Settles.congr (settles_asString fun seconds _ => ?_) (and_iff_left trivial).symm
    split <;> exact .ok trivial Iff.rfl
  cases first with
  | int _ | arr _ | nilArr => exact .error (by simp [ttlSafe])
  | str qualifier =>
    rw [ttlSafe]
    show Settles _ (if isEX qualifier then _ else _) _ _
    cases isEX qualifier with
    | true =>
      refine Settles.congr (settles_asString fun seconds _ => ?_) (and_iff_left trivial).symm
      split <;> exact .ok trivial Iff.rfl
    | false => exact .ok trivial (iff_true_intro rfl)

private theorem handleSet_settles (hc : IsWf s.cache) (command : Value) (args : List Value) :
    Settles (setSafe s.role args = true) (handleSet s now (command :: args)) Written
      fun r => IsWf r.2.cache := by
  unfold handleSet
  by_cases hrole : s.role = .follower
  · rw [if_pos hrole]
    refine settles_written hc (encodeError_ne_nil _) ?_
    match args with
    | [] | [_] => rfl
    | _ :: _ :: _ => rw [setSafe, decide_eq_true hrole, Bool.true_or, Bool.true_or]
  rw [if_neg hrole]
  match args with
  | [] | [_] => exact settles_written hc (encodeError_ne_nil _) rfl
  | key :: value :: rest =>
    rw [setSafe, decide_eq_false hrole, Bool.false_or]
    dsimp only
    by_cases hlen : 2 < rest.length
    · rw [if_pos hlen, decide_eq_true hlen]
      exact settles_written hc (encodeError_ne_nil _) rfl
    rw [if_neg hlen, decide_eq_false hlen, Bool.false_or, Bool.and_eq_true, Bool.and_eq_true]
    refine settles_asString fun key _ => settles_asString fun value _ => ?_
    refine (parseTTL_settles _ _ rest).bind fun ttl _ => ?_
    cases ttl with
    | error text => exact .ok ⟨by simp [Written], hc⟩
    | ok ttl =>
      refine (hc.set_returns key value ttl now).bind fun c hc' => ?_
      exact .ok ⟨by simp [Written], by rw [cache_persist]; exact hc'⟩

private theorem handleGet_returns (hc : IsWf s.cache) (command : Value) {args : List Value}
    (hkey : args.head?.all isString = true) :
    Returns (handleGet s now (command :: args)) fun r => Written r ∧ IsWf r.2.cache := by
  match args with
  | [] | _ :: _ :: _ => exact .ok ⟨encodeError_ne_nil _, hc⟩
  | [key] =>
    obtain ⟨key, rfl⟩ := eq_str_of_isString hkey
    refine .ok_bind ((hc.get_returns key now).bind fun r hr => ?_)
    exact .ok ⟨replyGet_ne_nil _, hr⟩

private theorem handleDelete_returns (hc : IsWf s.cache) (command : Value) {args : List Value}
    (hkey : args.head?.all isString = true) :
    Returns (handleDelete s (command :: args)) fun r => Written r ∧ IsWf r.2.cache := by
  unfold handleDelete
  split
  · exact .ok ⟨encodeError_ne_nil _, hc⟩
  match args with
  | [] | _ :: _ :: _ => exact .ok ⟨encodeError_ne_nil _, hc⟩
  | [key] =>
    obtain ⟨key, rfl⟩ := eq_str_of_isString hkey
    refine .ok_bind ((hc.delete_returns key).bind fun c hc' => ?_)
    exact .ok ⟨replyDel_ne_nil, by rw [cache_persist]; exact hc'⟩

/-- A server whose cache is one of the methods of `Cache`, and a connection whose queue went
    through the validation. -/
def Switched (r : Bytes × Server × ConnectionState) : Prop := IsWf r.2.1.cache ∧ Queued r.2.2

private theorem queued_reset (st : ConnectionState) : Queued st.reset :=
  fun _ hcmd => absurd hcmd List.not_mem_nil

private theorem handleExec_settles (hc : IsWf s.cache) (hq : Queued st) (clock : Nat → Time) :
    Settles ((!st.inTransaction || st.transactionError.isSome ||
      st.commandQueue.all completes) = true) (handleExec s st clock) Written Switched := by
  rw [handleExec_eq]
  cases st.inTransaction with
  | false => exact settles_written ⟨hc, hq⟩ (encodeError_ne_nil _) rfl
  | true =>
    cases st.transactionError with
    | some text => exact settles_written ⟨hc, queued_reset st⟩ (encodeError_ne_nil _) rfl
    | none =>
      refine .of_returns (fun hsafe => ?_) fun r hr => ?_
      · have hcmds := List.all_eq_true.mp hsafe
        obtain ⟨c, hcache⟩ := hc
        obtain ⟨responses, ops, c', hexecutes⟩ := executesAll_of_completes clock 0 c hq hcmds
        show Returns (executeQueue clock 0 s.cache st.commandQueue >>= _) _
        rw [← hcache, executeQueue_of_executesAll hexecutes]
        refine .ok_bind ?_
        dsimp only
        rw [foldlM_persistCommand _ fun cmd hcmd s =>
          persistCommand_of_completes s (hq cmd hcmd) (hcmds cmd hcmd)]
        refine .ok ⟨by simp [Written], ?_, queued_reset st⟩
        rw [cache_logAll]
        exact c'.isWf
      · -- a reply means that both loops have got through the queue
        obtain ⟨r₁, hexecute, hr⟩ := bind_eq_ok.mp hr
        obtain ⟨s', hpersist, -⟩ := bind_eq_ok.mp hr
        exact List.all_eq_true.mpr (completes_of_loops hq hexecute hpersist)

/-- The second `switch`, but for `EXEC`. -/
private theorem switchCommand_settles (hc : IsWf s.cache) (hq : Queued st) (clock : Nat → Time)
    {command : Value} {args : List Value} (hexec : isCommand command "EXEC" = false)
    (hkey : args.head?.all isString = true) :
    Settles (switchSafe s.role st command args = true)
      (switchCommand s st clock command (command :: args)) Written Switched := by
  unfold switchSafe switchCommand
  split
  · exact (handleSet_settles hc command args).bind fun r hr => .ok ⟨Iff.rfl, hr, hq⟩
  rw [hexec, if_neg Bool.false_ne_true, if_neg Bool.false_ne_true]
  -- the names of the commands are strings
  have hstring : ∀ {name}, isCommand command name = true → isString command = true := by
    intro name hname
    rw [isCommand_iff.mp hname]
    rfl
  split
  · next hname =>
    refine .of_returns (fun _ => ?_) fun _ _ => hstring hname
    exact (handleGet_returns hc command hkey).bind fun r hr => .ok ⟨hr.1, hr.2, hq⟩
  split
  · next hname =>
    refine .of_returns (fun _ => ?_) fun _ _ => hstring hname
    exact (handleDelete_returns hc command hkey).bind fun r hr => .ok ⟨hr.1, hr.2, hq⟩
  split
  · next hname =>
    exact settles_written ⟨hc, hq⟩ (by simp [handleDBSize, encodeInteger]) (hstring hname)
  split
  · next hname =>
    exact settles_written ⟨hc, hq⟩ (by simp [handlePing, encodeSimpleString]) (hstring hname)
  split
  · next hname =>
    unfold handleMulti
    split
    · exact settles_written ⟨hc, hq⟩ (encodeError_ne_nil _) (hstring hname)
    · refine settles_written ⟨hc, fun _ hcmd => ?_⟩ replyOK_ne_nil (hstring hname)
      exact absurd hcmd List.not_mem_nil
  split
  · next hname =>
    unfold handleDiscard
    split
    · exact settles_written ⟨hc, queued_reset st⟩ replyOK_ne_nil (hstring hname)
    · exact settles_written ⟨hc, hq⟩ (encodeError_ne_nil _) (hstring hname)
  · refine Settles.congr (settles_asString fun name _ => ?_) (and_iff_left trivial).symm
    exact settles_written ⟨hc, hq⟩ (encodeError_ne_nil _) trivial

end Immediate

/-! ## Pub/sub commands -/

section PubSub

variable {ps : PubSub} {st : ConnectionState} (conn : ConnID)

private theorem subscribeLoop_returns (channels : List Value) (h : Consistent ps) :
    Returns (subscribeLoop conn channels ps)
      fun r => (channels ≠ [] → r.1 ≠ []) ∧ Consistent r.2.2 := by
  induction channels generalizing ps with
  | nil => exact .ok ⟨fun hne => absurd rfl hne, h⟩
  | cons channel channels ih =>
    cases channel with
    | str channel =>
      obtain ⟨ps₁, hsub, h₁, _⟩ := h.subscribe conn channel
      rw [subscribeLoop, hsub]
      refine .ok_bind ((ih h₁).bind fun r hr => .ok ⟨fun _ => ?_, hr.2⟩)
      simp [encodeSubscribeConfirmation]
    | int _ | arr _ | nilArr => exact .ok ⟨fun _ => encodeError_ne_nil _, h⟩

private theorem encodeUnsubscribeConfirmation_ne_nil (channel : GoString) (count : Nat) :
    encodeUnsubscribeConfirmation channel count ≠ [] := by
  unfold encodeUnsubscribeConfirmation
  split <;> simp

private theorem unsubscribeLoop_returns (channels : List Value) (h : Consistent ps) :
    Returns (unsubscribeLoop conn channels ps)
      fun r => (channels ≠ [] → r.1 ≠ []) ∧ Consistent r.2.2 := by
  induction channels generalizing ps with
  | nil => exact .ok ⟨fun hne => absurd rfl hne, h⟩
  | cons channel channels ih =>
    cases channel with
    | str channel =>
      obtain ⟨err, ps₁, hunsub, h₁, _⟩ := h.unsubscribe conn channel
      rw [unsubscribeLoop, hunsub]
      refine .ok_bind ((ih h₁).bind fun r hr => .ok ⟨fun _ => ?_, hr.2⟩)
      simp [encodeUnsubscribeConfirmation_ne_nil]
    | int _ | arr _ | nilArr => exact .ok ⟨fun _ => encodeError_ne_nil _, h⟩

/-- Consistent maps, and the queue as it was. -/
def Delivered (st : ConnectionState) (r : Bytes × PubSub × ConnectionState) : Prop :=
  Consistent r.2.1 ∧ r.2.2.commandQueue = st.commandQueue

private theorem handleSubscribe_returns (h : Consistent ps) (command : Value) (args : List Value) :
    Returns (handleSubscribe conn ps st (command :: args))
      fun r => Written r ∧ Delivered st r := by
  cases args with
  | nil => exact .ok ⟨encodeError_ne_nil _, h, rfl⟩
  | cons channel channels =>
    refine (subscribeLoop_returns conn (channel :: channels) h).bind fun r hr => ?_
    refine .ok ⟨hr.1 (List.cons_ne_nil _ _), hr.2, ?_⟩
    dsimp only
    split <;> rfl

/-- A loop over the channels of a connection goes through all of them. -/
def EnumeratesChannels (choices : Choices) : Prop :=
  ∀ channels channel, channel ∈ choices.channels channels ↔ channel ∈ channels

/-- An `UNSUBSCRIBE` from all of no channels writes nothing. -/
private theorem handleUnsubscribe_settles {choices : Choices}
    (hchoices : EnumeratesChannels choices) (h : Consistent ps) (command : Value)
    (args : List Value) :
    Settles (args ≠ [] ∨ ps.channelSet conn ≠ ∅)
      (handleUnsubscribe conn choices.channels ps st (command :: args)) Written
      (Delivered st) := by
  cases args with
  | nil =>
    by_cases hempty : ps.channelSet conn = ∅
    · have hnone : choices.channels ∅ = [] := by
        rw [List.eq_nil_iff_forall_not_mem]
        exact fun channel hmem => absurd ((hchoices ∅ channel).mp hmem) (by simp)
      show Settles _ (unsubscribeLoop conn ((choices.channels (ps.channelSet conn)).map .str) ps >>=
        _) _ _
      rw [hempty, hnone]
      exact .ok ⟨h, rfl⟩ (by simp [Written])
    · obtain ⟨channel, hmem⟩ := Finset.nonempty_iff_ne_empty.mpr hempty
      have hne : (choices.channels (ps.channelSet conn)).map Value.str ≠ [] := by
        rw [ne_eq, List.map_eq_nil_iff]
        exact List.ne_nil_of_mem ((hchoices _ channel).mpr hmem)
      refine .of_returns (fun _ => ?_) fun _ _ => .inr hempty
      refine (unsubscribeLoop_returns conn _ h).bind fun r hr => ?_
      exact .ok ⟨hr.1 hne, hr.2, rfl⟩
  | cons channel channels =>
    refine .of_returns (fun _ => ?_) fun _ _ => .inl (List.cons_ne_nil _ _)
    refine (unsubscribeLoop_returns conn (channel :: channels) h).bind fun r hr => ?_
    refine .ok ⟨hr.1 (List.cons_ne_nil _ _), hr.2, ?_⟩
    dsimp only
    split <;> rfl

private theorem handlePublish_returns (order : Finset ConnID → List ConnID) (h : Consistent ps)
    (resultSlice : List Value) :
    Returns (handlePublish order ps resultSlice) fun r => Written r ∧ Consistent r.2 := by
  unfold handlePublish
  split
  · next channel message =>
    obtain ⟨count, ps', hpublish, h', _⟩ := h.publish channel order message
    rw [hpublish]
    exact .ok ⟨by simp [Written, encodeInteger], h'⟩
  · exact .ok ⟨encodeError_ne_nil _, h⟩
  · exact .ok ⟨encodeError_ne_nil _, h⟩
  · exact .ok ⟨encodeError_ne_nil _, h⟩

end PubSub

/-! ## Requests -/

section Requests

variable {ω : Type} {net : Network ω} {hash : Bytes → UInt32} {conn : ConnID}
  {n : ServerNode ω} {st : ConnectionState} {choices : Choices}

/-- A node that serves clients, and a connection whose queue went through the validation. -/
def RequestKept (hash : Bytes → UInt32) (r : Bytes × ServerNode ω × ConnectionState) : Prop :=
  Serving hash r.2.1 ∧ Queued r.2.2

private theorem Serving.update (h : Serving hash n) {s : Server} (hc : IsWf s.cache) :
    Serving hash (n.update s) := ⟨hc, h.ps, h.ring, h.config⟩

private theorem Serving.withPubSub (h : Serving hash n) {ps : PubSub} (hps : Consistent ps) :
    Serving hash { n with ps := ps } := ⟨h.cache, hps, h.ring, h.config⟩

private theorem nodeSwitch_settles (h : Serving hash n) (hq : Queued st) (clock : Nat → Time)
    {command : Value} {args : List Value} (hkey : args.head?.all isString = true) :
    Settles (switchSafe n.state.role st command args = true)
      (n.switchCommand handleExec hash st clock command (command :: args)) Written
      (RequestKept hash) := by
  have hswitched : Settles (switchSafe n.state.role st command args = true)
      (if isCommand command "EXEC" then handleExec (n.server hash) st clock
      else switchCommand (n.server hash) st clock command (command :: args)) Written
      Switched := by
    split
    · next hexec =>
      obtain rfl := isCommand_iff.mp hexec
      exact handleExec_settles h.cache hq clock
    · next hexec =>
      exact switchCommand_settles (s := n.server hash) h.cache hq clock
        (Bool.eq_false_iff.mpr hexec) hkey
  rw [switchCommand_eq]
  exact hswitched.bind fun r hr => .ok ⟨Iff.rfl, h.update hr.1, hr.2⟩

/-- A command that is none of the pub/sub and cluster commands. -/
private theorem routed_settles (h : Serving hash n) (hq : Queued st) (clock : Nat → Time)
    (command : Value) (args : List Value) :
    Settles (routedSafe hash n st command args = true)
      (routingKey (command :: args) >>= fun key =>
        match movedTo (n.server hash) command key with
        | some moved => .ok (moved, n, st)
        | none => n.switchCommand handleExec hash st clock command (command :: args)) Written
      (RequestKept hash) := by
  unfold routedSafe
  cases hrouted : routingKey (command :: args) with
  | error p => exact .error nofun
  | ok key =>
    have hkey : args.head?.all isString = true := by
      match args, hrouted with
      | [], _ => rfl
      | .str _ :: _, _ => rfl
    show Settles (((movedTo (n.server hash) command key).isSome ||
        switchSafe n.state.role st command args) = true)
      (match movedTo (n.server hash) command key with | some _ => _ | none => _) _ _
    cases hmoved : movedTo (n.server hash) command key with
    | some moved =>
      refine settles_written ⟨h, hq⟩ ?_ rfl
      rintro rfl
      exact nomatch head?_movedTo hmoved
    | none => exact nodeSwitch_settles h hq clock hkey

/-- A request that is not queued. -/
private theorem dispatch_settles (conn : ConnID) (hnet : AnswersAll net)
    (hchoices : EnumeratesChannels choices) (h : Serving hash n) (hq : Queued st)
    (command : Value) (args : List Value) :
    Settles (dispatchSafe net hash conn n st command args = true)
      (n.dispatch handleExec net hash conn st choices command (command :: args)) Written
      (RequestKept hash) := by
  have hqueued : ∀ {st' : ConnectionState}, st'.commandQueue = st.commandQueue → Queued st' := by
    intro st' heq
    rw [Queued, heq]
    exact hq
  by_cases hsub : isCommand command "SUBSCRIBE" = true
  · obtain rfl := isCommand_iff.mp hsub
    refine .of_returns (fun _ => ?_) fun _ _ => rfl
    exact (handleSubscribe_returns conn h.ps _ args).bind fun r hr =>
      .ok ⟨hr.1, h.withPubSub hr.2.1, hqueued hr.2.2⟩
  by_cases hunsub : isCommand command "UNSUBSCRIBE" = true
  · obtain rfl := isCommand_iff.mp hunsub
    rw [dispatchSafe, if_neg (by decide), if_pos (by decide)]
    refine Settles.congr ?_ (show _ ↔ args ≠ [] ∨ n.ps.channelSet conn ≠ ∅ by simp)
    exact (handleUnsubscribe_settles conn hchoices h.ps _ args).bind fun r hr =>
      .ok ⟨Iff.rfl, h.withPubSub hr.1, hqueued hr.2⟩
  by_cases hpublish : isCommand command "PUBLISH" = true
  · obtain rfl := isCommand_iff.mp hpublish
    refine .of_returns (fun _ => ?_) fun _ _ => rfl
    exact (handlePublish_returns _ h.ps _).bind fun r hr =>
      .ok ⟨hr.1, h.withPubSub hr.2, hq⟩
  by_cases hcluster : isCommand command "CLUSTER" = true
  · obtain rfl := isCommand_iff.mp hcluster
    exact (handleClusterCommand_settles hnet h choices _).bind fun r hr => .ok ⟨Iff.rfl, hr, hq⟩
  rw [dispatchSafe, if_neg (by simp [hsub, hpublish]), if_neg hunsub, if_neg hcluster,
    dispatch_other (Bool.eq_false_iff.mpr hsub) (Bool.eq_false_iff.mpr hunsub)
      (Bool.eq_false_iff.mpr hpublish) (Bool.eq_false_iff.mpr hcluster)]
  exact routed_settles h hq _ command args

private theorem replyQueued_ne_nil : replyQueued ≠ [] := by decide

/-- What is queued in a transaction went through the validation. -/
private theorem queued_queueCommand (hq : Queued st) {name : GoString} {args : List Value}
    (hcan : canQueueCommand name = true) :
    (queueCommandForTransaction st name (.str name :: args)).1 ≠ [] ∧
      Queued (queueCommandForTransaction st name (.str name :: args)).2 := by
  unfold queueCommandForTransaction
  split
  · exact ⟨replyQueued_ne_nil, hq⟩
  · split
    · exact ⟨encodeError_ne_nil _, hq⟩
    · next hvalid =>
      refine ⟨replyQueued_ne_nil, fun cmd hcmd => ?_⟩
      rcases List.mem_append.mp hcmd with hold | hnew
      · exact hq cmd hold
      · rw [List.mem_singleton.mp hnew]
        exact ⟨name, args, rfl, hcan, hvalid⟩

/-- The requests that are answered. -/
theorem handleCommand_settles (hnet : AnswersAll net) (hchoices : EnumeratesChannels choices)
    (h : Serving hash n) (hq : Queued st) (resultSlice : List Value) :
    Settles (requestSafe net hash conn n st resultSlice = true)
      (n.handleCommand handleExec net hash conn st choices resultSlice) Written
      (RequestKept hash) := by
  match resultSlice with
  | [] => exact .error nofun
  | command :: args =>
    have hdispatch := dispatch_settles conn hnet hchoices h hq command args
    show Settles ((if st.subscriberMode && !allowedSubscribed command then true else _) = true)
      (if st.subscriberMode && !allowedSubscribed command then _ else _) _ _
    by_cases hmode : (st.subscriberMode && !allowedSubscribed command) = true
    · rw [if_pos hmode, if_pos hmode]
      exact settles_written ⟨h, hq⟩ (encodeError_ne_nil _) rfl
    rw [if_neg hmode, if_neg hmode]
    cases hin : st.inTransaction with
    | false => cases command <;> exact hdispatch
    | true =>
      cases command with
      | str name =>
        dsimp only
        by_cases hcontrol : name = lit "EXEC" ∨ name = lit "DISCARD"
        · rw [if_pos hcontrol, if_pos hcontrol]
          exact hdispatch
        rw [if_neg hcontrol, if_neg hcontrol]
        split
        · next hcan =>
          obtain ⟨hreply, hqueued⟩ := queued_queueCommand hq hcan
          exact .ok ⟨h, hqueued⟩ ⟨fun _ => hreply, fun _ => rfl⟩
        · exact settles_written ⟨h, hq⟩ (encodeError_ne_nil _) rfl
      | int _ | arr _ | nilArr => exact hdispatch

/-- The deferred calls when a connection is closed. -/
private theorem closeConnection_returns (hchoices : EnumeratesChannels choices)
    (h : Serving hash n) :
    Returns (n.closeConnection conn choices) (Serving hash) := by
  obtain ⟨ps', hremove, h', _⟩ := h.ps.removeConnection conn hchoices
  unfold ServerNode.closeConnection
  rw [hremove]
  exact .ok (h.withPubSub h')

/-- The next bytes of a connection are answered, or close it: the machine can parse the
    value that they begin with, and a request is answered. -/
structure InputSafe (m : Machine) (net : Network ω) (hash : Bytes → UInt32) (conn : ConnID)
    (n : ServerNode ω) (st : ConnectionState) (input : Bytes) : Prop where
  fits : fitsOn m input = true
  request : ∀ v rest, parse input = .ok v rest → valueSafe net hash conn n st v = true

/-- A turn of a connection that ends with a reply, in front of less than it began with, or
    with the connection. -/
def Ended (input : Bytes) (r : Option (Bytes × ConnectionState × Bytes) × ServerNode ω) : Prop :=
  ∀ reply st rest, r.1 = some (reply, st, rest) → reply ≠ [] ∧ rest.length < input.length

/-- A node that serves clients, and a connection whose queue went through the validation. -/
def TurnKept (hash : Bytes → UInt32)
    (r : Option (Bytes × ConnectionState × Bytes) × ServerNode ω) : Prop :=
  Serving hash r.2 ∧ ∀ reply st rest, r.1 = some (reply, st, rest) → Queued st

/-- One turn of a connection. -/
theorem turn_settles (m : Machine) (conn : ConnID) (hnet : AnswersAll net)
    (hchoices : EnumeratesChannels choices) (h : Serving hash n) (hq : Queued st)
    (input : Bytes) :
    Settles (InputSafe m net hash conn n st input)
      (n.turnOn handleExec net hash conn m st choices input) (Ended input) (TurnKept hash) := by
  unfold ServerNode.turnOn ServerNode.turnWith
  cases hfits : fitsOn m input with
  | false =>
    obtain ⟨p, hp⟩ := (guards_parse m).aborts input hfits
    rw [hp]
    exact .error fun hsafe => nomatch hfits.symm.trans hsafe.fits
  | true =>
    obtain ⟨hsame, hends⟩ := (guards_parse m).same input hfits
    rw [hsame]
    -- what does not begin with an array closes the connection
    have hclosed : (∀ v rest, parse input = .ok v rest → valueSafe net hash conn n st v = true) →
        Settles (InputSafe m net hash conn n st input) (n.closeConnection conn choices >>= fun n =>
          .ok (none, n)) (Ended input) (TurnKept hash) := by
      intro hrequest
      refine .of_returns (fun _ => ?_) fun _ _ => ⟨hfits, hrequest⟩
      exact (closeConnection_returns hchoices h).bind fun n hn =>
        .ok ⟨nofun, hn, nofun⟩
    cases hparse : parse input with
    | abort p => exact absurd hparse (hends p)
    | err e rest => exact hclosed fun v rest hv => nomatch hparse.symm.trans hv
    | ok v rest =>
      have hrequest : InputSafe m net hash conn n st input ↔
          valueSafe net hash conn n st v = true := by
        refine ⟨fun hsafe => hsafe.request v rest hparse, fun hv => ⟨hfits, fun v' rest' h' => ?_⟩⟩
        cases hparse.symm.trans h'
        exact hv
      cases v with
      | nilArr => exact .error fun hsafe => nomatch hrequest.mp hsafe
      | str _ | int _ => exact hclosed (hrequest.mpr rfl).request
      | arr resultSlice =>
        refine ((handleCommand_settles hnet hchoices h hq resultSlice).congr hrequest).bind
          fun r hr => .ok ⟨⟨fun hended => (hended _ _ _ rfl).1, fun hwritten _ _ _ hsome => ?_⟩,
            hr.1, fun _ _ _ hsome => ?_⟩
        · cases hsome
          exact ⟨hwritten, length_lt_of_parse hparse⟩
        · cases hsome
          exact hr.2

end Requests

/-! ## Runs -/

/-- A node with its connections: the state of each, and the bytes it still sends. -/
structure System (ω : Type) where
  node : ServerNode ω
  clients : ConnID → Option (ConnectionState × Bytes)

/-- A node that has just started, in no cluster or in one. -/
structure Started {ω : Type} (hash : Bytes → UInt32) (n : ServerNode ω) : Prop where
  cache : IsWf n.cache
  ps : n.ps = .new
  mode : (n.state.hashRing = none ∧ n.state.config = none) ∨
    ∃ hr config, n.state.hashRing = some hr ∧ NodeRing hash hr ∧ n.state.config = some config

section Runs

variable {ω : Type} (net : Network ω) (hash : Bytes → UInt32)

/-- The connections before the first of their bytes is read. -/
def System.start (n : ServerNode ω) (inputs : ConnID → Option Bytes) : System ω where
  node := n
  clients conn := (inputs conn).map fun input => (.new, input)

/-- A turn of a connection, with a `Parse`. -/
def System.stepWith (parse : Native.Reader Value) (s : System ω) (turn : ConnID × Choices) :
    Option (System ω) :=
  match s.clients turn.1 with
  | none => none
  | some (st, input) =>
    match s.node.turnWith handleExec net hash turn.1 parse st turn.2 input with
    | .error _ => none
    | .ok (none, n) => some ⟨n, Function.update s.clients turn.1 none⟩
    | .ok (some (_, st, rest), n) => some ⟨n, Function.update s.clients turn.1 (some (st, rest))⟩

/-- A turn of a connection. -/
def System.step : System ω → ConnID × Choices → Option (System ω) :=
  System.stepWith net hash parse

/-- A turn of a connection, on a machine. -/
def System.stepOn (m : Machine) : System ω → ConnID × Choices → Option (System ω) :=
  System.stepWith net hash m.parse

/-- The peers answer every command with one RESP value that the machine can parse, or with
    part of one and then close the connection. -/
def AnswersOn (m : Machine) : Prop :=
  ∀ world addr cmd answer world', net.write world addr cmd = .ok (answer, world') →
    (∃ v, m.parse answer = .ok v []) ∨ ∃ e, m.parse answer = .err e []

variable {net hash}

/-- What holds between the turns. -/
structure System.Inv (hash : Bytes → UInt32) (s : System ω) : Prop where
  serving : Serving hash s.node
  queued : ∀ conn st input, s.clients conn = some (st, input) → Queued st

theorem Started.serving {n : ServerNode ω} (h : Started hash n) : Serving hash n where
  cache := h.cache
  ps := by
    rw [h.ps]
    exact consistent_new
  ring hr hring := by
    rcases h.mode with ⟨hnone, _⟩ | ⟨hr', _, hsome, hring', _⟩
    · exact nomatch hnone.symm.trans hring
    · cases hsome.symm.trans hring
      exact hring'
  config hring := by
    rcases h.mode with ⟨hnone, _⟩ | ⟨_, config, _, _, hconfig⟩
    · exact absurd hnone hring
    · rw [hconfig]
      exact fun hnone => nomatch hnone

private theorem System.inv_start {n : ServerNode ω} (h : Started hash n)
    (inputs : ConnID → Option Bytes) : (System.start n inputs).Inv hash where
  serving := h.serving
  queued conn st input hclient := by
    obtain ⟨_, _, heq⟩ := Option.map_eq_some_iff.mp hclient
    cases heq
    exact fun _ hcmd => absurd hcmd List.not_mem_nil

/-- What a machine parses, every machine does. -/
theorem AnswersOn.answersAll {m : Machine} (h : AnswersOn net m) : AnswersAll net := by
  intro world addr cmd answer world' hwrite
  have hanswer := h world addr cmd answer world' hwrite
  cases hfits : fitsOn m answer with
  | true => rwa [((guards_parse m).same answer hfits).1] at hanswer
  | false =>
    obtain ⟨p, hp⟩ := (guards_parse m).aborts answer hfits
    rw [hp] at hanswer
    rcases hanswer with ⟨v, hv⟩ | ⟨e, he⟩
    · exact nomatch hv
    · exact nomatch he

/-- What a turn preserves, whether it is answered or not. -/
private theorem System.inv_step {m : Machine} (hnet : AnswersAll net) (s s' : System ω)
    (turn : ConnID × Choices) (hinv : s.Inv hash) (hchoices : EnumeratesChannels turn.2)
    (hstep : s.stepOn net hash m turn = some s') : s'.Inv hash := by
  obtain ⟨conn, choices⟩ := turn
  unfold System.stepOn System.stepWith at hstep
  split at hstep
  · exact nomatch hstep
  next st input hclient =>
  have hsettles := turn_settles m conn hnet hchoices hinv.serving
    (hinv.queued conn st input hclient) input
  -- the other connections stay as they are
  have hupdate : ∀ client, (∀ st input, client = some (st, input) → Queued st) →
      ∀ c st input, Function.update s.clients conn client c = some (st, input) → Queued st := by
    intro client hnew c st input hc
    by_cases heq : c = conn
    · rw [heq, Function.update_self] at hc
      exact hnew st input hc
    · rw [Function.update_of_ne heq] at hc
      exact hinv.queued c st input hc
  split at hstep
  · exact nomatch hstep
  · next n' hturn =>
    cases hstep
    exact ⟨(hsettles.keeps _ hturn).1, hupdate none fun _ _ hsome => nomatch hsome⟩
  · next reply st' rest n' hturn =>
    cases hstep
    obtain ⟨hserving, hqueued⟩ := hsettles.keeps _ hturn
    refine ⟨hserving, hupdate _ fun st input hsome => ?_⟩
    cases hsome
    exact hqueued reply st' rest rfl

/-- However many connections send whatever they like to a node on a machine, in every state
    that a run of their turns leads to: a further turn returns, with a reply in front of fewer
    bytes than before or with the end of the connection, if and only if the machine can
    parse what the connection sends and the node can answer it. -/
theorem client_cannot_crash (m : Machine) (hnet : AnswersOn net m) {n : ServerNode ω}
    (hn : Started hash n) (inputs : ConnID → Option Bytes) {s : System ω}
    (hreach : Reaches (System.stepOn net hash m) (fun _ turn => EnumeratesChannels turn.2)
      (System.start n inputs) s)
    (conn : ConnID) (choices : Choices) (hchoices : EnumeratesChannels choices)
    (st : ConnectionState) (input : Bytes) (hclient : s.clients conn = some (st, input)) :
    (∃ r n', s.node.turnOn handleExec net hash conn m st choices input = .ok (r, n') ∧
      ∀ reply st' rest, r = some (reply, st', rest) →
        reply ≠ [] ∧ rest.length < input.length) ↔
    InputSafe m net hash conn s.node st input := by
  have hinv : s.Inv hash := hreach.invariant (System.inv_start hn inputs)
    fun s turn s' hinv henum => System.inv_step hnet.answersAll s s' turn hinv henum
  have hsettles := turn_settles m conn hnet.answersAll hchoices hinv.serving
    (hinv.queued conn st input hclient) input
  constructor
  · rintro ⟨r, n', hturn, hended⟩
    exact hsettles.only _ hturn hended
  · intro hsafe
    obtain ⟨⟨r, n'⟩, hturn, hended⟩ := hsettles.returns hsafe
    exact ⟨r, n', hturn, hended⟩

end Runs

/-! ## One node -/

/-- A node in no cluster, with an empty cache. -/
def aloneNode : ServerNode Unit where
  cache := Cache.new 10
  aof := []
  trigger := .new 2
  state := ⟨.leader, none, none, none, false, none⟩
  ps := .new
  world := ()

/-- A clock that stands still, and loops over all keys in some order. -/
noncomputable def someChoices : Choices where
  clock _ := 0
  sched := ⟨fun _ _ => [], fun _ _ => 0⟩
  channels channels := channels.toList
  connections connections := connections.toList
  nodes := []

private theorem started_aloneNode : Started (fun _ => 0) aloneNode where
  cache := (WfCache.new 10).isWf
  ps := rfl
  mode := .inl ⟨rfl, rfl⟩

/-- A machine that grants a gibibyte at once, with room for a thousand calls. -/
def smallMachine : Machine := ⟨2 ^ 30, 1000⟩

/-- A client that subscribes to a channel. -/
theorem client_cannot_crash_subscribe :
    ∃ r n', aloneNode.turnOn handleExec noNetwork (fun _ => 0) 1 smallMachine .new someChoices
        (encodeArray [.str (lit "SUBSCRIBE"), .str (lit "a")]) = .ok (r, n') ∧
      ∀ reply st' rest, r = some (reply, st', rest) → reply ≠ [] ∧
        rest.length < (encodeArray [.str (lit "SUBSCRIBE"), .str (lit "a")]).length := by
  have hnet : AnswersOn noNetwork smallMachine := fun _ _ _ _ _ hwrite => nomatch hwrite
  have hparse : parse (encodeArray [.str (lit "SUBSCRIBE"), .str (lit "a")]) =
      .ok (.arr [.str (lit "SUBSCRIBE"), .str (lit "a")]) [] := rfl
  refine (client_cannot_crash smallMachine hnet started_aloneNode
    (fun conn => if conn = 1 then some (encodeArray [.str (lit "SUBSCRIBE"), .str (lit "a")])
      else none) .refl 1 someChoices (fun _ _ => Finset.mem_toList) _ _ rfl).mpr
    ⟨by decide +kernel, fun v rest hv => ?_⟩
  rw [hparse] at hv
  cases hv
  rfl

private theorem eq_error_of_map {α : Type} {x : Except Panic α} {p : Panic}
    (h : x.map (fun _ => ()) = .error p) : x = .error p := by
  cases x with
  | error q =>
    cases h
    rfl
  | ok a => exact nomatch h

/-- An empty array, a negative length, one that the machine has no memory for, a command
    that is no string, and a change of the topology where there is none: each ends the
    process. -/
theorem five_crashes :
    Started (fun _ => 0) aloneNode ∧
    aloneNode.turnOn handleExec noNetwork (fun _ => 0) 1 smallMachine .new someChoices
      (ascii "*0\r\n") = .error .indexOutOfRange ∧
    aloneNode.turnOn handleExec noNetwork (fun _ => 0) 1 smallMachine .new someChoices
      (ascii "$-2\r\n") = .error .makeSlice ∧
    aloneNode.turnOn handleExec noNetwork (fun _ => 0) 1 smallMachine .new someChoices
      (ascii "$1000000000000\r\n") = .error .outOfMemory ∧
    aloneNode.turnOn handleExec noNetwork (fun _ => 0) 1 smallMachine .new someChoices
      (ascii "*1\r\n:1\r\n") = .error .typeAssertion ∧
    aloneNode.turnOn handleExec noNetwork (fun _ => 0) 1 smallMachine .new someChoices
      (encodeArray [.str (lit "CLUSTER"), .str (lit "TOPOLOGY"), .str (lit "ADD"),
        .str (lit "n"), .str (lit "host:1")]) = .error .nilDereference :=
  ⟨started_aloneNode, eq_error_of_map (by decide +kernel), eq_error_of_map (by decide +kernel),
    eq_error_of_map (by decide +kernel), eq_error_of_map (by decide +kernel),
    eq_error_of_map (by decide +kernel)⟩

end GoCache.Spec
