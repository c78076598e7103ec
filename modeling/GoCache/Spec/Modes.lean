import GoCache.Spec.CrashFreedom

/-!
# The modes of a connection and its subscriptions

`subscriberMode` is a field of the connection, and the channels of the connection are in
the maps of `PubSub`. The loops of `handleSubscribe` and `handleUnsubscribe` change the
maps channel by channel, and return at an element that is no string before they have
looked at the mode.

## Key results

- `handleCommand_modeEffect`: the requests behind which mode and maps still agree
- `modes_match_iff`: the runs of a node in which they always do
- `modes_differ`: a subscriber that is not in subscriber mode
-/

namespace GoCache.Spec

open GoCache.Native Transition

/-- The strings before the first element that is none. -/
def leading : List Value → List GoString
  | .str s :: vs => s :: leading vs
  | _ => []

/-- A `PubSub` after calls for one connection: only its channels have changed. -/
structure Rechanneled (conn : ConnID) (ps ps' : PubSub) (channels : Finset GoString) : Prop where
  consistent : Consistent ps'
  own : ps'.channelSet conn = channels
  others : ∀ c, c ≠ conn → ps'.channelSet c = ps.channelSet c

/-! ## The loops -/

section Loops

variable {conn : ConnID} {ps ps' : PubSub} {reply : Bytes} {finished : Bool}

private theorem rechanneled_refl (h : Consistent ps) :
    Rechanneled conn ps ps (ps.channelSet conn) := ⟨h, rfl, fun _ _ => rfl⟩

private theorem Rechanneled.trans {ps₁ : PubSub} {channels₁ channels : Finset GoString}
    (h₁ : Rechanneled conn ps ps₁ channels₁) (h : Rechanneled conn ps₁ ps' channels) :
    Rechanneled conn ps ps' channels :=
  ⟨h.consistent, h.own, fun c hc => (h.others c hc).trans (h₁.others c hc)⟩

private theorem rechanneled_of_channelSet {channels : Finset GoString} (h : Consistent ps')
    (hset : ∀ c, ps'.channelSet c = if c = conn then channels else ps.channelSet c) :
    Rechanneled conn ps ps' channels where
  consistent := h
  own := by rw [hset, if_pos rfl]
  others c hc := by rw [hset, if_neg hc]

/-- The loop of `handleSubscribe` adds the channels up to the first element that is no
    string. -/
private theorem subscribeLoop_rechanneled (args : List Value) (h : Consistent ps)
    (hloop : subscribeLoop conn args ps = .ok (reply, finished, ps')) :
    Rechanneled conn ps ps' (ps.channelSet conn ∪ (leading args).toFinset) ∧
      finished = args.all isString := by
  induction args generalizing ps reply with
  | nil =>
    cases hloop
    refine ⟨?_, rfl⟩
    simpa [leading] using rechanneled_refl h
  | cons v args ih =>
    cases v with
    | str channel =>
      obtain ⟨ps₁, hsub, hloop⟩ := bind_eq_ok.mp hloop
      obtain ⟨⟨r, f, ps₂⟩, hrest, heq⟩ := bind_eq_ok.mp hloop
      cases heq
      obtain ⟨ps₁', hok, hcons, hset⟩ := h.subscribe conn channel
      cases hok.symm.trans hsub
      have hfirst := rechanneled_of_channelSet hcons hset
      obtain ⟨hlater, hfinished⟩ := ih hcons hrest
      rw [hfirst.own] at hlater
      refine ⟨?_, by simpa [isString] using hfinished⟩
      have hunion : ps.channelSet conn ∪ (leading (.str channel :: args)).toFinset =
          insert channel (ps.channelSet conn) ∪ (leading args).toFinset := by
        simp [leading]
      rw [hunion]
      exact hfirst.trans hlater
    | _ =>
      cases hloop
      refine ⟨?_, rfl⟩
      simpa [leading] using rechanneled_refl h

/-- The loops of `handleUnsubscribe` remove the channels up to the first element that is no
    string. -/
private theorem unsubscribeLoop_rechanneled (args : List Value) (h : Consistent ps)
    (hloop : unsubscribeLoop conn args ps = .ok (reply, finished, ps')) :
    Rechanneled conn ps ps' (ps.channelSet conn \ (leading args).toFinset) ∧
      finished = args.all isString := by
  induction args generalizing ps reply with
  | nil =>
    cases hloop
    refine ⟨?_, rfl⟩
    simpa [leading] using rechanneled_refl h
  | cons v args ih =>
    cases v with
    | str channel =>
      obtain ⟨⟨err, ps₁⟩, hunsub, hloop⟩ := bind_eq_ok.mp hloop
      obtain ⟨⟨r, f, ps₂⟩, hrest, heq⟩ := bind_eq_ok.mp hloop
      cases heq
      obtain ⟨err', ps₁', hok, hcons, hset⟩ := h.unsubscribe conn channel
      cases hok.symm.trans hunsub
      have hfirst := rechanneled_of_channelSet hcons hset
      obtain ⟨hlater, hfinished⟩ := ih hcons hrest
      rw [hfirst.own] at hlater
      refine ⟨?_, by simpa [isString] using hfinished⟩
      have hdiff : ps.channelSet conn \ (leading (.str channel :: args)).toFinset =
          (ps.channelSet conn).erase channel \ (leading args).toFinset := by
        ext c
        simp only [leading, List.toFinset_cons, Finset.mem_sdiff, Finset.mem_insert,
          List.mem_toFinset, Finset.mem_erase]
        tauto
      rw [hdiff]
      exact hfirst.trans hlater
    | _ =>
      cases hloop
      refine ⟨?_, rfl⟩
      simpa [leading] using rechanneled_refl h

private theorem leading_eq_nil_iff {args : List Value} (h : args.all isString = true) :
    leading args = [] ↔ args = [] := by
  cases args with
  | nil => simp [leading]
  | cons v args =>
    rw [List.all_cons, Bool.and_eq_true] at h
    obtain ⟨s, rfl⟩ := eq_str_of_isString h.1
    simp [leading]

private theorem leading_map_str (channels : List GoString) :
    leading (channels.map .str) = channels := by
  induction channels with
  | nil => rfl
  | cons c channels ih => rw [List.map_cons, leading, ih]

/-! ## The handlers -/

variable {st st' : ConnectionState} {command : Value} {args : List Value}

/-- `handleSubscribe` enters subscriber mode at the end of its loop. -/
private theorem handleSubscribe_rechanneled (h : Consistent ps)
    (hok : handleSubscribe conn ps st (command :: args) = .ok (reply, ps', st')) :
    Rechanneled conn ps ps' (ps.channelSet conn ∪ (leading args).toFinset) ∧
      st' = { st with
        subscriberMode := st.subscriberMode || (!args.isEmpty && args.all isString) } := by
  cases args with
  | nil =>
    cases hok
    refine ⟨?_, by simp⟩
    simpa [leading] using rechanneled_refl h
  | cons v args =>
    obtain ⟨⟨r, f, ps₁⟩, hloop, heq⟩ := bind_eq_ok.mp hok
    cases heq
    obtain ⟨hchannels, hfinished⟩ := subscribeLoop_rechanneled _ h hloop
    refine ⟨hchannels, ?_⟩
    rw [← hfinished]
    cases f <;> simp

/-- `handleUnsubscribe` without channels leaves subscriber mode. -/
private theorem handleUnsubscribe_all {choices : Choices} (hchoices : EnumeratesChannels choices)
    (h : Consistent ps)
    (hok : handleUnsubscribe conn choices.channels ps st [command] = .ok (reply, ps', st')) :
    Rechanneled conn ps ps' ∅ ∧ st' = { st with subscriberMode := false } := by
  obtain ⟨⟨r, f, ps₁⟩, hloop, heq⟩ := bind_eq_ok.mp hok
  cases heq
  obtain ⟨hchannels, _⟩ := unsubscribeLoop_rechanneled _ h hloop
  refine ⟨?_, rfl⟩
  have hempty : ps.channelSet conn \
      (leading ((choices.channels (ps.channelSet conn)).map .str)).toFinset = ∅ := by
    rw [leading_map_str, Finset.sdiff_eq_empty_iff_subset]
    intro channel hmem
    exact List.mem_toFinset.mpr ((hchoices _ channel).mpr hmem)
  rw [hempty] at hchannels
  exact hchannels

/-- `handleUnsubscribe` leaves it at the end of its loop, if no channel is left. -/
private theorem handleUnsubscribe_some {order : Finset GoString → List GoString}
    (h : Consistent ps) (hargs : args ≠ [])
    (hok : handleUnsubscribe conn order ps st (command :: args) = .ok (reply, ps', st')) :
    Rechanneled conn ps ps' (ps.channelSet conn \ (leading args).toFinset) ∧
      st' = { st with
        subscriberMode := st.subscriberMode &&
          !(args.all isString && decide (ps.channelSet conn ⊆ (leading args).toFinset)) } := by
  cases args with
  | nil => exact absurd rfl hargs
  | cons v args =>
    obtain ⟨⟨r, f, ps₁⟩, hloop, heq⟩ := bind_eq_ok.mp hok
    cases heq
    obtain ⟨hchannels, hfinished⟩ := unsubscribeLoop_rechanneled (v :: args) h hloop
    refine ⟨hchannels, ?_⟩
    have hcount : ps'.subscribedCount conn = 0 ↔
        ps.channelSet conn ⊆ (leading (v :: args)).toFinset := by
      rw [PubSub.subscribedCount, hchannels.own, Finset.card_eq_zero,
        Finset.sdiff_eq_empty_iff_subset]
    have hdecide : decide (ps'.subscribedCount conn = 0) =
        decide (ps.channelSet conn ⊆ (leading (v :: args)).toFinset) := decide_eq_decide.mpr hcount
    rw [← hfinished, ← hdecide]
    split
    next hleft => simp [hleft]
    next hleft => simp [hleft]

end Loops

/-! ## Requests -/

/-- The mode of a connection matches its subscriptions, and it is not in a transaction as
    well. -/
structure Matches (ps : PubSub) (conn : ConnID) (st : ConnectionState) : Prop where
  mode : st.subscriberMode = true ↔ (ps.channelSet conn).Nonempty
  exclusive : ¬ (st.subscriberMode = true ∧ st.inTransaction = true)

/-- A request behind which they still match. Of a `SUBSCRIBE` that enters subscriber mode
    either all channels are strings or not even the first is; a channel of an `UNSUBSCRIBE`
    in subscriber mode may be no string only if a channel of the connection is left. -/
def KeepsMode (channels : Finset GoString) (st : ConnectionState) : List Value → Prop
  | [] => True
  | command :: args =>
    (isCommand command "SUBSCRIBE" = true → st.subscriberMode = false →
      st.inTransaction = false → args.all isString = true ∨ leading args = []) ∧
    (isCommand command "UNSUBSCRIBE" = true → st.subscriberMode = true →
      args.all isString = true ∨ ¬ channels ⊆ (leading args).toFinset)

section Requests

variable {ω : Type} {net : Network ω} {hash : Bytes → UInt32} {conn : ConnID}
  {n n' : ServerNode ω} {st st' : ConnectionState} {choices : Choices} {command : Value}
  {args : List Value} {reply : Bytes}

private theorem isCommand_absurd {name : String} {p : Prop}
    (hno : isCommand command name = false) (h : isCommand command name = true) : p :=
  Bool.noConfusion (hno.symm.trans h)

/-- A command that is neither `SUBSCRIBE` nor `UNSUBSCRIBE`. -/
private theorem keepsMode_of_other {channels : Finset GoString}
    (hsub : isCommand command "SUBSCRIBE" = false)
    (hunsub : isCommand command "UNSUBSCRIBE" = false) :
    KeepsMode channels st (command :: args) :=
  ⟨fun h => isCommand_absurd hsub h, fun h => isCommand_absurd hunsub h⟩

/-- What a request does to the modes of its connection and to the subscriptions of all. -/
structure ModeEffect (conn : ConnID) (n : ServerNode ω) (st : ConnectionState)
    (resultSlice : List Value) (n' : ServerNode ω) (st' : ConnectionState) : Prop where
  consistent : Consistent n'.ps
  others : ∀ c, c ≠ conn → n'.ps.channelSet c = n.ps.channelSet c
  matches_iff : Matches n'.ps conn st' ↔ KeepsMode (n.ps.channelSet conn) st resultSlice

/-- A request that leaves the subscriptions and the mode as they are, and opens no
    transaction in subscriber mode. -/
private theorem ModeEffect.of_same {resultSlice : List Value} (h : Consistent n'.ps)
    (hm : Matches n.ps conn st) (hchannels : n'.ps.channelSet = n.ps.channelSet)
    (hmode : st'.subscriberMode = st.subscriberMode)
    (hin : st.subscriberMode = true → st'.inTransaction = true → st.inTransaction = true)
    (hkeeps : KeepsMode (n.ps.channelSet conn) st resultSlice) :
    ModeEffect conn n st resultSlice n' st' where
  consistent := h
  others c _ := by rw [hchannels]
  matches_iff := by
    refine ⟨fun _ => hkeeps, fun _ => ⟨?_, ?_⟩⟩
    · rw [hmode, hchannels]
      exact hm.mode
    · rw [hmode]
      exact fun ⟨htrue, hin'⟩ => hm.exclusive ⟨htrue, hin htrue hin'⟩

private theorem ModeEffect.subscribe {ps' : PubSub} (hname : isCommand command "SUBSCRIBE" = true)
    (h : Consistent n.ps) (hm : Matches n.ps conn st) (hin : st.inTransaction = false)
    (hok : handleSubscribe conn n.ps st (command :: args) = .ok (reply, ps', st')) :
    ModeEffect conn n st (command :: args) { n with ps := ps' } st' := by
  obtain ⟨hchannels, rfl⟩ := handleSubscribe_rechanneled h hok
  refine ⟨hchannels.consistent, hchannels.others, ?_⟩
  have hunsub : isCommand command "UNSUBSCRIBE" = false := by
    rw [isCommand_iff.mp hname]
    rfl
  have hexclusive : ∀ b : Bool, ¬ (b = true ∧ st.inTransaction = true) := by
    rw [hin]
    exact fun _ h => Bool.noConfusion h.2
  cases hmode : st.subscriberMode with
  | true =>
    -- in subscriber mode already
    obtain ⟨channel, hmem⟩ := hm.mode.mp hmode
    refine ⟨fun _ => ⟨fun _ hfalse => Bool.noConfusion (hmode.symm.trans hfalse),
      fun h' => isCommand_absurd hunsub h'⟩, fun _ => ⟨?_, hexclusive _⟩⟩
    rw [hchannels.own]
    simp only [Bool.true_or, true_iff]
    exact ⟨channel, Finset.mem_union_left _ hmem⟩
  | false =>
    have hempty : n.ps.channelSet conn = ∅ := by
      rw [← Finset.not_nonempty_iff_eq_empty, ← hm.mode, hmode]
      exact Bool.false_ne_true
    have hnonempty : (n.ps.channelSet conn ∪ (leading args).toFinset).Nonempty ↔
        leading args ≠ [] := by
      rw [hempty, Finset.empty_union, List.toFinset_nonempty_iff]
    have hkeeps : KeepsMode (n.ps.channelSet conn) st (command :: args) ↔
        args.all isString = true ∨ leading args = [] :=
      ⟨fun h => h.1 hname hmode hin,
        fun h => ⟨fun _ _ _ => h, fun h' => isCommand_absurd hunsub h'⟩⟩
    rw [hkeeps]
    constructor
    · intro hmatches
      have hiff := hmatches.mode
      rw [hchannels.own, hnonempty] at hiff
      by_cases hleading : leading args = []
      · exact .inr hleading
      · have htrue := hiff.mpr hleading
        rw [Bool.false_or, Bool.and_eq_true] at htrue
        exact .inl htrue.2
    · intro h
      refine ⟨?_, hexclusive _⟩
      rw [hchannels.own, hnonempty]
      by_cases hall : args.all isString = true
      · rw [hall, Bool.false_or, Bool.and_true, Ne, leading_eq_nil_iff hall]
        simp
      · simp [Bool.eq_false_iff.mpr hall, h.resolve_left hall]

private theorem ModeEffect.unsubscribe {ps' : PubSub}
    (hname : isCommand command "UNSUBSCRIBE" = true) (hchoices : EnumeratesChannels choices)
    (h : Consistent n.ps) (hm : Matches n.ps conn st) (hin : st.inTransaction = false)
    (hok : handleUnsubscribe conn choices.channels n.ps st (command :: args) =
      .ok (reply, ps', st')) :
    ModeEffect conn n st (command :: args) { n with ps := ps' } st' := by
  have hsub : isCommand command "SUBSCRIBE" = false := by
    rw [isCommand_iff.mp hname]
    rfl
  have hexclusive : ∀ b : Bool, ¬ (b = true ∧ st.inTransaction = true) := by
    rw [hin]
    exact fun _ h => Bool.noConfusion h.2
  have hkeeps : KeepsMode (n.ps.channelSet conn) st (command :: args) ↔
      (st.subscriberMode = true → args.all isString = true ∨
        ¬ n.ps.channelSet conn ⊆ (leading args).toFinset) :=
    ⟨fun h hmode => h.2 hname hmode,
      fun h => ⟨fun h' => isCommand_absurd hsub h', fun _ => h⟩⟩
  by_cases hargs : args = []
  · subst hargs
    obtain ⟨hchannels, rfl⟩ := handleUnsubscribe_all hchoices h hok
    refine ⟨hchannels.consistent, hchannels.others, ?_⟩
    rw [hkeeps]
    refine ⟨fun _ _ => .inl rfl, fun _ => ⟨?_, hexclusive _⟩⟩
    rw [hchannels.own]
    simp
  · obtain ⟨hchannels, rfl⟩ := handleUnsubscribe_some h hargs hok
    refine ⟨hchannels.consistent, hchannels.others, ?_⟩
    have hnonempty : (n.ps.channelSet conn \ (leading args).toFinset).Nonempty ↔
        ¬ n.ps.channelSet conn ⊆ (leading args).toFinset := by
      rw [Finset.nonempty_iff_ne_empty, Ne, Finset.sdiff_eq_empty_iff_subset]
    rw [hkeeps]
    constructor
    · intro hmatches hmode
      have hiff := hmatches.mode
      rw [hchannels.own, hnonempty, hmode] at hiff
      by_cases hall : n.ps.channelSet conn ⊆ (leading args).toFinset
      · -- none is left, so the loop must have got to its end
        exact .inl (by simpa [hall] using hiff)
      · exact .inr hall
    · intro h
      refine ⟨?_, hexclusive _⟩
      rw [hchannels.own, hnonempty]
      by_cases hall : n.ps.channelSet conn ⊆ (leading args).toFinset
      · cases hmode : st.subscriberMode with
        | true => simp [hall, (h hmode).resolve_right (not_not.mpr hall)]
        | false => simp [hall]
      · have hmode : st.subscriberMode = true := by
          rw [hm.mode, Finset.nonempty_iff_ne_empty]
          rintro hempty
          exact hall (hempty ▸ Finset.empty_subset _)
        simp [hall, hmode]

/-- The second `switch` touches no mode but that of a transaction, which only `MULTI`
    opens. -/
private theorem switchCommand_modes {s s' : Server} {clock : Nat → Time}
    {resultSlice : List Value} (hexec : isCommand command "EXEC" = false)
    (h : switchCommand s st clock command resultSlice = .ok (reply, s', st')) :
    st'.subscriberMode = st.subscriberMode ∧
      (isCommand command "MULTI" = false → st'.inTransaction = true →
        st.inTransaction = true) := by
  cases switchCommand_outcome hexec h with
  | multi hname =>
    refine ⟨?_, fun hmulti => Bool.noConfusion (hmulti.symm.trans hname)⟩
    unfold handleMulti
    split <;> rfl
  | discard hname =>
    unfold handleDiscard
    split
    · exact ⟨rfl, fun _ h => Bool.noConfusion h⟩
    · exact ⟨rfl, fun _ h => h⟩
  | _ => exact ⟨rfl, fun _ h => h⟩

private theorem handleExec_modes {s s' : Server} {clock : Nat → Time}
    (h : handleExec s st clock = .ok (reply, s', st')) :
    st'.subscriberMode = st.subscriberMode ∧
      (st'.inTransaction = true → st.inTransaction = true) := by
  rw [handleExec_eq] at h
  split at h
  · cases h
    exact ⟨rfl, id⟩
  · split at h
    · cases h
      exact ⟨rfl, fun h => Bool.noConfusion h⟩
    · obtain ⟨r, _, h⟩ := bind_eq_ok.mp h
      obtain ⟨s₁, _, h⟩ := bind_eq_ok.mp h
      cases h
      exact ⟨rfl, fun h => Bool.noConfusion h⟩

/-- The cluster commands do not touch the subscriptions. -/
private theorem ps_handleClusterCommand {command : List Value}
    (h : handleClusterCommand net hash n choices command = .ok (reply, n')) : n'.ps = n.ps := by
  cases handleClusterCommand_outcome h with
  | addNode _ h | removeNode _ h | topology _ h => cases h <;> rfl
  | _ => rfl

private theorem handlePublish_same {ps ps' : PubSub} {order : Finset ConnID → List ConnID}
    {resultSlice : List Value} (h : Consistent ps)
    (hok : handlePublish order ps resultSlice = .ok (reply, ps')) :
    Consistent ps' ∧ ps'.channelSet = ps.channelSet := by
  unfold handlePublish at hok
  split at hok
  · obtain ⟨⟨count, ps₁⟩, hpublish, hok⟩ := bind_eq_ok.mp hok
    cases hok
    obtain ⟨count', ps₁', hpublish', hcons, hset⟩ := h.publish _ _ _
    cases hpublish'.symm.trans hpublish
    exact ⟨hcons, hset⟩
  · cases hok
    exact ⟨h, rfl⟩
  · cases hok
    exact ⟨h, rfl⟩
  · cases hok
    exact ⟨h, rfl⟩

private theorem not_allowed_multi (h : allowedSubscribed command = true) :
    isCommand command "MULTI" = false := by
  cases hmulti : isCommand command "MULTI" with
  | false => rfl
  | true =>
    rw [isCommand_iff.mp hmulti] at h
    exact absurd h (by decide)

/-- A request that is not queued. -/
private theorem ModeEffect.dispatch (hchoices : EnumeratesChannels choices)
    (h : Consistent n.ps) (hm : Matches n.ps conn st)
    (hmode : st.subscriberMode = true → isCommand command "MULTI" = false)
    (hin : st.inTransaction = true →
      isCommand command "SUBSCRIBE" = false ∧ isCommand command "UNSUBSCRIBE" = false)
    (hok : n.dispatch handleExec net hash conn st choices command (command :: args) =
      .ok (reply, n', st')) :
    ModeEffect conn n st (command :: args) n' st' := by
  cases dispatch_outcome hok with
  | subscribe hname hhandle =>
    have hout : st.inTransaction = false := by
      by_contra hne
      exact Bool.noConfusion ((hin (Bool.eq_true_of_not_eq_false hne)).1.symm.trans hname)
    exact .subscribe hname h hm hout hhandle
  | unsubscribe hname hhandle =>
    have hout : st.inTransaction = false := by
      by_contra hne
      exact Bool.noConfusion ((hin (Bool.eq_true_of_not_eq_false hne)).2.symm.trans hname)
    exact .unsubscribe hname hchoices h hm hout hhandle
  | publish hname hhandle =>
    obtain ⟨hcons, hset⟩ := handlePublish_same h hhandle
    obtain rfl := isCommand_iff.mp hname
    exact .of_same hcons hm hset rfl (fun _ h => h) (keepsMode_of_other rfl rfl)
  | cluster hname hhandle =>
    have hps := ps_handleClusterCommand hhandle
    obtain rfl := isCommand_iff.mp hname
    exact .of_same (hps ▸ h) hm (by rw [hps]) rfl (fun _ h => h) (keepsMode_of_other rfl rfl)
  | moved hsub hunsub _ =>
    exact .of_same h hm rfl rfl (fun _ h => h) (keepsMode_of_other hsub hunsub)
  | exec hname hhandle =>
    obtain ⟨hmode', hin'⟩ := handleExec_modes hhandle
    obtain rfl := isCommand_iff.mp hname
    exact .of_same h hm rfl hmode' (fun _ => hin') (keepsMode_of_other rfl rfl)
  | switch hsub hunsub hexec hswitch =>
    obtain ⟨hmode', hin'⟩ := switchCommand_modes hexec hswitch
    exact .of_same h hm rfl hmode' (fun htrue => hin' (hmode htrue))
      (keepsMode_of_other hsub hunsub)

private theorem modes_queueCommand {name : GoString} {resultSlice : List Value} :
    (queueCommandForTransaction st name resultSlice).2.subscriberMode = st.subscriberMode ∧
      (queueCommandForTransaction st name resultSlice).2.inTransaction = st.inTransaction := by
  unfold queueCommandForTransaction
  split
  · exact ⟨rfl, rfl⟩
  · split <;> exact ⟨rfl, rfl⟩

/-- In a transaction the connection is not in subscriber mode, so nothing is asked of the
    request. -/
private theorem keepsMode_of_inTransaction (hm : Matches n.ps conn st)
    (hin : st.inTransaction = true) : KeepsMode (n.ps.channelSet conn) st (command :: args) :=
  ⟨fun _ _ hout => Bool.noConfusion (hout.symm.trans hin),
    fun _ hmode => absurd ⟨hmode, hin⟩ hm.exclusive⟩

private theorem keepsMode_of_refused {channels : Finset GoString}
    (h : allowedSubscribed command = false) : KeepsMode channels st (command :: args) := by
  apply keepsMode_of_other
  · cases hsub : isCommand command "SUBSCRIBE" with
    | false => rfl
    | true =>
      rw [isCommand_iff.mp hsub] at h
      exact absurd h (by decide)
  · cases hunsub : isCommand command "UNSUBSCRIBE" with
    | false => rfl
    | true =>
      rw [isCommand_iff.mp hunsub] at h
      exact absurd h (by decide)

/-- A command that is no string is refused or redirected; else the type assertion panics. -/
private theorem handleCommand_noString (hstr : isString command = false)
    (hok : n.handleCommand handleExec net hash conn st choices (command :: args) =
      .ok (reply, n', st')) :
    n' = n ∧ st' = st ∧ reply.head? = some (byte '-') := by
  have hname : ∀ name, isCommand command name = false := by
    intro name
    cases command <;> first | rfl | cases hstr
  have hdispatch : ∀ {r}, n.dispatch handleExec net hash conn st choices command
      (command :: args) = .ok r → r.2.1 = n ∧ r.2.2 = st ∧ r.1.head? = some (byte '-') := by
    intro r hr
    obtain ⟨reply, n', st'⟩ := r
    cases dispatch_outcome hr with
    | subscribe h _ | unsubscribe h _ | publish h _ | cluster h _ =>
      exact isCommand_absurd (hname _) h
    | moved _ _ hmoved => exact ⟨rfl, rfl, head?_movedTo hmoved⟩
    | exec h _ => exact isCommand_absurd (hname _) h
    | switch _ _ hexec hswitch =>
      cases switchCommand_outcome hexec hswitch with
      | set h _ | get h _ | delete h _ | dbSize h | ping h | multi h | discard h =>
        exact isCommand_absurd (hname _) h
      | unknown h _ _ =>
        rw [h] at hstr
        cases hstr
  unfold ServerNode.handleCommand at hok
  dsimp only at hok
  split at hok
  · cases hok
    exact ⟨rfl, rfl, rfl⟩
  · split at hok
    · cases hstr
    · exact hdispatch hok

/-- After any request that is answered, the mode of the connection matches its
    subscriptions if and only if the request is one that keeps it so. -/
theorem handleCommand_modeEffect (hchoices : EnumeratesChannels choices) (h : Consistent n.ps)
    (hm : Matches n.ps conn st)
    (hok : n.handleCommand handleExec net hash conn st choices (command :: args) =
      .ok (reply, n', st')) :
    ModeEffect conn n st (command :: args) n' st' := by
  cases hstr : isString command with
  | false =>
    obtain ⟨rfl, rfl, _⟩ := handleCommand_noString hstr hok
    refine .of_same h hm rfl rfl (fun _ h => h) (keepsMode_of_other ?_ ?_)
    · cases command <;> first | rfl | cases hstr
    · cases command <;> first | rfl | cases hstr
  | true =>
    obtain ⟨name, rfl⟩ := eq_str_of_isString hstr
    cases handleCommand_outcome hok with
    | refused hmode hname =>
      exact .of_same h hm rfl rfl (fun _ h => h) (keepsMode_of_refused hname)
    | queued hin hcontrol hcan =>
      obtain ⟨hmode', hin'⟩ := modes_queueCommand
      refine .of_same h hm rfl hmode' (fun _ htrue => ?_) (keepsMode_of_inTransaction hm hin)
      rw [← hin', htrue]
    | notQueued hin hcontrol hcan =>
      exact .of_same h hm rfl rfl (fun _ h => h) (keepsMode_of_inTransaction hm hin)
    | dispatched hmode hin hdispatch =>
      refine .dispatch hchoices h hm (fun htrue => not_allowed_multi (hmode htrue))
        (fun htrue => ?_) hdispatch
      rcases hin htrue with rfl | rfl
      · exact ⟨rfl, rfl⟩
      · exact ⟨rfl, rfl⟩

/-- In subscriber mode only `SUBSCRIBE`, `UNSUBSCRIBE` and `PING` get a reply that is no
    error. -/
private theorem head?_reply_of_subscriber (hmode : st.subscriberMode = true)
    (hin : st.inTransaction = false) (hsub : isCommand command "SUBSCRIBE" = false)
    (hunsub : isCommand command "UNSUBSCRIBE" = false) (hping : isCommand command "PING" = false)
    (hok : n.handleCommand handleExec net hash conn st choices (command :: args) =
      .ok (reply, n', st')) :
    reply.head? = some (byte '-') := by
  cases hstr : isString command with
  | false => exact (handleCommand_noString hstr hok).2.2
  | true =>
    obtain ⟨name, rfl⟩ := eq_str_of_isString hstr
    cases handleCommand_outcome hok with
    | refused => rfl
    | queued hin' => exact Bool.noConfusion (hin.symm.trans hin')
    | notQueued => rfl
    | dispatched hallowed _ hdispatch =>
      have hallowed := hallowed hmode
      have hnot : ∀ other, allowedSubscribed (.str (lit other)) = false →
          isCommand (.str name) other = false := by
        intro other hother
        cases hname : isCommand (.str name) other with
        | false => rfl
        | true =>
          rw [isCommand_iff.mp hname, hother] at hallowed
          cases hallowed
      cases dispatch_outcome hdispatch with
      | subscribe h _ => exact isCommand_absurd hsub h
      | unsubscribe h _ => exact isCommand_absurd hunsub h
      | publish h _ => exact isCommand_absurd (hnot "PUBLISH" (by decide)) h
      | cluster h _ => exact isCommand_absurd (hnot "CLUSTER" (by decide)) h
      | moved _ _ hmoved => exact head?_movedTo hmoved
      | exec h _ => exact isCommand_absurd (hnot "EXEC" (by decide)) h
      | switch _ _ hexec hswitch =>
        cases switchCommand_outcome hexec hswitch with
        | set h _ => exact isCommand_absurd (hnot "SET" (by decide)) h
        | get h _ => exact isCommand_absurd (hnot "GET" (by decide)) h
        | delete h _ => exact isCommand_absurd (hnot "DEL" (by decide)) h
        | dbSize h => exact isCommand_absurd (hnot "DBSIZE" (by decide)) h
        | ping h => exact isCommand_absurd hping h
        | multi h => exact isCommand_absurd (hnot "MULTI" (by decide)) h
        | discard h => exact isCommand_absurd (hnot "DISCARD" (by decide)) h
        | unknown => rfl

end Requests

/-! ## Runs -/

section Runs

variable {ω : Type} (net : Network ω) (hash : Bytes → UInt32)

/-- A turn of a connection; its loops over channels go through all of them. -/
abbrev ModeTurn := ConnID × { choices : Choices // EnumeratesChannels choices }

/-- The step of the system that a turn makes. -/
def modeStep (s : System ω) (turn : ModeTurn) : Option (System ω) :=
  s.step net hash (turn.1, turn.2.1)

/-- For every open connection: the mode matches the subscriptions, and one that gets
    published messages gets no ordinary reply, except to `PING`. -/
def ModesMatch (s : System ω) : Prop :=
  ∀ conn st input, s.clients conn = some (st, input) →
    Matches s.node.ps conn st ∧
    ((s.node.ps.channelSet conn).Nonempty → ∀ choices command args reply n' st',
      isCommand command "SUBSCRIBE" = false → isCommand command "UNSUBSCRIBE" = false →
      isCommand command "PING" = false →
      s.node.handleCommand handleExec net hash conn st choices (command :: args) =
        .ok (reply, n', st') →
      reply.head? = some (byte '-'))

/-- The request of the turn, if it is one, keeps the mode. -/
def TurnKeepsMode (s : System ω) (turn : ModeTurn) : Prop :=
  ∀ st input resultSlice rest, s.clients turn.1 = some (st, input) →
    parse input = .ok (.arr resultSlice) rest →
    KeepsMode (s.node.ps.channelSet turn.1) st resultSlice

/-- The invariant of a run. -/
structure ModeInv (s : System ω) : Prop where
  consistent : Consistent s.node.ps
  matching : ∀ conn st input, s.clients conn = some (st, input) → Matches s.node.ps conn st

variable {net hash} {s s' : System ω}

private theorem ModeInv.modesMatch (h : ModeInv s) : ModesMatch net hash s := by
  intro conn st input hclient
  have hm := h.matching conn st input hclient
  refine ⟨hm, fun hsubscribed choices command args reply n' st' hsub hunsub hping hok => ?_⟩
  have hmode := hm.mode.mpr hsubscribed
  have hin : st.inTransaction = false := by
    cases hin : st.inTransaction with
    | false => rfl
    | true => exact absurd ⟨hmode, hin⟩ hm.exclusive
  exact head?_reply_of_subscriber hmode hin hsub hunsub hping hok

/-- What a turn can be: a request that is answered, or the end of the connection. -/
private theorem turn_cases {n n' : ServerNode ω} {conn : ConnID} {st : ConnectionState}
    {choices : Choices} {input : Bytes} {r : Option (Bytes × ConnectionState × Bytes)}
    (h : n.turn handleExec net hash conn st choices input = .ok (r, n')) :
    (∃ resultSlice rest reply st', parse input = .ok (.arr resultSlice) rest ∧
      n.handleCommand handleExec net hash conn st choices resultSlice = .ok (reply, n', st') ∧
      r = some (reply, st', rest)) ∨
    ((∀ resultSlice rest, parse input ≠ .ok (.arr resultSlice) rest) ∧
      n.closeConnection conn choices = .ok n' ∧ r = none) := by
  unfold ServerNode.turn ServerNode.turnWith at h
  cases hparse : parse input with
  | ok v rest =>
    rw [hparse] at h
    cases v with
    | arr resultSlice =>
      obtain ⟨⟨reply, n₁, st'⟩, hhandle, heq⟩ := bind_eq_ok.mp h
      cases heq
      exact .inl ⟨resultSlice, rest, reply, st', rfl, hhandle, rfl⟩
    | nilArr => cases h
    | str _ =>
      obtain ⟨n₁, hclose, heq⟩ := bind_eq_ok.mp h
      cases heq
      exact .inr ⟨nofun, hclose, rfl⟩
    | int _ =>
      obtain ⟨n₁, hclose, heq⟩ := bind_eq_ok.mp h
      cases heq
      exact .inr ⟨nofun, hclose, rfl⟩
  | err e rest =>
    rw [hparse] at h
    obtain ⟨n₁, hclose, heq⟩ := bind_eq_ok.mp h
    cases heq
    exact .inr ⟨nofun, hclose, rfl⟩
  | abort p =>
    rw [hparse] at h
    cases h

private theorem modeStep_cases {turn : ModeTurn} (h : modeStep net hash s turn = some s') :
    ∃ st input r n', s.clients turn.1 = some (st, input) ∧
      s.node.turn handleExec net hash turn.1 st turn.2.1 input = .ok (r, n') ∧
      s' = ⟨n', Function.update s.clients turn.1 (r.map fun x => (x.2.1, x.2.2))⟩ := by
  unfold modeStep System.step System.stepWith at h
  split at h
  · cases h
  next st input hclient =>
  split at h
  · cases h
  next n' hturn =>
    cases h
    exact ⟨st, input, none, n', hclient, hturn, rfl⟩
  next reply st' rest n' hturn =>
    cases h
    exact ⟨st, input, some (reply, st', rest), n', hclient, hturn, rfl⟩

/-- The clients behind a turn are those before it, except for the one whose turn it was. -/
private theorem matching_update {turn : ModeTurn} {n' : ServerNode ω}
    {client : Option (ConnectionState × Bytes)} (h : ModeInv s)
    (hothers : ∀ c, c ≠ turn.1 → n'.ps.channelSet c = s.node.ps.channelSet c)
    (hclient : ∀ st input, client = some (st, input) → Matches n'.ps turn.1 st) :
    ∀ conn st input, Function.update s.clients turn.1 client conn = some (st, input) →
      Matches n'.ps conn st := by
  intro conn st input hsome
  by_cases hconn : conn = turn.1
  · subst hconn
    rw [Function.update_self] at hsome
    exact hclient st input hsome
  · rw [Function.update_of_ne hconn] at hsome
    have hm := h.matching conn st input hsome
    refine ⟨?_, hm.exclusive⟩
    rw [hothers conn hconn]
    exact hm.mode

/-- A turn that keeps the mode keeps the invariant. -/
private theorem ModeInv.step {turn : ModeTurn} (h : ModeInv s)
    (hstep : modeStep net hash s turn = some s') (hkeeps : TurnKeepsMode s turn) : ModeInv s' := by
  obtain ⟨st, input, r, n', hclient, hturn, rfl⟩ := modeStep_cases hstep
  have hm := h.matching turn.1 st input hclient
  rcases turn_cases hturn with ⟨resultSlice, rest, reply, st', hparse, hhandle, rfl⟩ |
    ⟨_, hclose, rfl⟩
  · cases resultSlice with
    | nil => cases hhandle
    | cons command args =>
      have heffect := handleCommand_modeEffect turn.2.2 h.consistent hm hhandle
      refine ⟨heffect.consistent, matching_update h heffect.others fun st₁ input₁ hsome => ?_⟩
      cases hsome
      exact heffect.matches_iff.mpr (hkeeps st input _ rest hclient hparse)
  · obtain ⟨ps, hremove, heq⟩ := bind_eq_ok.mp hclose
    cases heq
    obtain ⟨ps', hok, hcons, hset⟩ := h.consistent.removeConnection turn.1 turn.2.2
    cases hok.symm.trans hremove
    have hothers : ∀ c, c ≠ turn.1 → ps.channelSet c = s.node.ps.channelSet c :=
      fun c hc => by rw [hset, if_neg hc]
    exact ⟨hcons, matching_update h hothers fun _ _ hsome => nomatch hsome⟩

/-- Any other turn breaks it. -/
private theorem ModeInv.not_modesMatch {turn : ModeTurn} (h : ModeInv s)
    (hstep : modeStep net hash s turn = some s') (hkeeps : ¬ TurnKeepsMode s turn) :
    ¬ ModesMatch net hash s' := by
  obtain ⟨st, input, r, n', hclient, hturn, rfl⟩ := modeStep_cases hstep
  have hm := h.matching turn.1 st input hclient
  intro hmatch
  apply hkeeps
  intro st₁ input₁ resultSlice rest hclient' hparse
  cases hclient.symm.trans hclient'
  rcases turn_cases hturn with ⟨resultSlice', rest', reply, st', hparse', hhandle, rfl⟩ |
    ⟨hnone, _, _⟩
  · cases hparse.symm.trans hparse'
    cases resultSlice with
    | nil => trivial
    | cons command args =>
      have heffect := handleCommand_modeEffect turn.2.2 h.consistent hm hhandle
      have hown := hmatch turn.1 st' rest (Function.update_self turn.1 _ s.clients)
      exact heffect.matches_iff.mp hown.1
  · exact absurd hparse (hnone resultSlice rest)

/-- For every node and whatever its connections send: at every command boundary of a run
    the mode of each connection matches its subscriptions, no connection is in subscriber
    mode and in a transaction, and subscribers get no ordinary reply but to `PING`, if and
    only if each request of the run keeps the mode of its connection. -/
theorem modes_match_iff {n : ServerNode ω} (hps : n.ps = .new) (inputs : ConnID → Option Bytes)
    {turns : List ModeTurn}
    (hrun : turns.foldlM (modeStep net hash) (System.start n inputs) = some s) :
    (∀ pre post mid, turns = pre ++ post →
      pre.foldlM (modeStep net hash) (System.start n inputs) = some mid →
      ModesMatch net hash mid) ↔
    ∀ pre turn post mid, turns = pre ++ turn :: post →
      pre.foldlM (modeStep net hash) (System.start n inputs) = some mid →
      TurnKeepsMode mid turn := by
  have hstart : ModeInv (System.start n inputs) := by
    refine ⟨?_, fun conn st input hclient => ?_⟩
    · show Consistent n.ps
      rw [hps]
      exact consistent_new
    · obtain ⟨_, _, heq⟩ := Option.map_eq_some_iff.mp hclient
      cases heq
      refine ⟨?_, fun hboth => Bool.noConfusion hboth.1⟩
      show ConnectionState.new.subscriberMode = true ↔ (n.ps.channelSet conn).Nonempty
      rw [hps]
      simp [ConnectionState.new, PubSub.new, PubSub.channelSet]
  exact forall_states_iff (fun _ h => h.modesMatch) (fun _ _ _ h hstep hok => h.step hstep hok)
    (fun _ _ _ h hstep hnot => h.not_modesMatch hstep hnot) hstart hrun

end Runs

/-! ## One connection -/

/-- A turn of connection 1. -/
private noncomputable def oneTurn : ModeTurn := (1, ⟨someChoices, fun _ _ => Finset.mem_toList⟩)

/-- Connection 1 sends one request to a node in no cluster. -/
private def oneClient (request : List Element) : System Unit :=
  System.start aloneNode fun conn => if conn = 1 then some (encodeArray request) else none

/-- A `SUBSCRIBE` with one channel enters subscriber mode. -/
theorem modes_match_iff_subscribe : ∃ s,
    [oneTurn].foldlM (modeStep noNetwork fun _ => 0)
      (oneClient [.str (lit "SUBSCRIBE"), .str (lit "a")]) = some s ∧
    ModesMatch noNetwork (fun _ => 0) s := by
  have hsome : ([oneTurn].foldlM (modeStep noNetwork fun _ => 0)
      (oneClient [.str (lit "SUBSCRIBE"), .str (lit "a")])).isSome = true := rfl
  obtain ⟨s, hrun⟩ := Option.isSome_iff_exists.mp hsome
  refine ⟨s, hrun, (modes_match_iff rfl _ hrun).mpr ?_ [oneTurn] [] s rfl hrun⟩
  intro pre turn post mid hsplit hmid
  cases pre with
  | nil =>
    cases hsplit
    cases hmid
    intro st input resultSlice rest hclient hparse
    cases hclient
    cases hparse
    exact ⟨fun _ _ _ => .inl rfl, fun h => Bool.noConfusion h⟩
  | cons first pre => simp at hsplit

/-- With an integer behind the channel it subscribes the connection and does not. -/
theorem modes_differ : ∃ s st rest,
    [oneTurn].foldlM (modeStep noNetwork fun _ => 0)
      (oneClient [.str (lit "SUBSCRIBE"), .str (lit "a"), .int 1]) = some s ∧
    s.clients 1 = some (st, rest) ∧ st.subscriberMode = false ∧ lit "a" ∈ s.node.ps.channelSet 1 :=
  ⟨_, _, _, rfl, rfl, rfl, by decide +kernel⟩

end GoCache.Spec
