import GoCache.ForStd.NestedMap
import GoCache.Native.PubSub

/-!
# The maps of `PubSub`

The three maps of a `PubSub` agree: which channels a connection has, which
connections a channel has, and which `Subscriber` belongs to a connection. No
`Subscriber` that is found through them is closed. So no message is sent to a
closed channel, and none is closed twice.

## Key results

- `Consistent.subscribe`, `Consistent.unsubscribe`, `Consistent.removeConnection`,
  `Consistent.publish`: every operation returns and keeps the maps consistent
- `pubSub_calls_consistent`: so do all sequences of calls
-/

namespace GoCache.Spec

open GoCache.Native

/-- Whether a `Subscriber` on the heap is closed. -/
def closedAt (ps : PubSub) (subscriber : Nat) : Option Bool :=
  (ps.heap[subscriber]?).map Subscriber.closed

/-- The representation invariant. -/
structure Consistent (ps : PubSub) : Prop where
  entry : ∀ channel conn, NestedMap.lookup ps.subscribers channel conn =
    if channel ∈ ps.channelSet conn then ps.connectionToSubscriber.lookup conn else none
  tracked : ∀ conn, ps.connectionToSubscriber.lookup conn = none ↔
    ps.subscriptions.lookup conn = none
  nonempty : ∀ conn channels, ps.subscriptions.lookup conn = some channels → channels.Nonempty
  noEmptyRow : NestedMap.NoEmptyRow ps.subscribers
  live : ∀ conn subscriber, ps.connectionToSubscriber.lookup conn = some subscriber →
    closedAt ps subscriber = some false
  distinct : ∀ conn conn' subscriber, ps.connectionToSubscriber.lookup conn = some subscriber →
    ps.connectionToSubscriber.lookup conn' = some subscriber → conn = conn'

theorem consistent_new : Consistent .new where
  entry _ _ := rfl
  tracked _ := ⟨fun _ => rfl, fun _ => rfl⟩
  nonempty _ _ h := nomatch h
  noEmptyRow _ _ h := nomatch h
  live _ _ h := nomatch h
  distinct _ _ _ h := nomatch h

section Channels

variable {ps : PubSub} {conn : ConnID}

theorem channelSet_of_none (h : ps.subscriptions.lookup conn = none) :
    ps.channelSet conn = ∅ := by
  rw [PubSub.channelSet, h]
  rfl

theorem channelSet_of_some {channels : Finset GoString}
    (h : ps.subscriptions.lookup conn = some channels) : ps.channelSet conn = channels := by
  rw [PubSub.channelSet, h]
  rfl

/-- The channels, where nothing has changed. -/
private theorem channelSet_unchanged {channels : Finset GoString}
    (h : ps.channelSet conn = channels) (c : ConnID) :
    ps.channelSet c = if c = conn then channels else ps.channelSet c := by
  split
  · next heq => rw [heq, h]
  · rfl

/-- The channels, where one connection has got an entry. -/
private theorem channelSet_of_entry {ps' : PubSub} {channels : Finset GoString}
    (h : ∀ c, ps'.subscriptions.lookup c =
      if c = conn then some channels else ps.subscriptions.lookup c) (c : ConnID) :
    ps'.channelSet c = if c = conn then channels else ps.channelSet c := by
  unfold PubSub.channelSet
  rw [h]
  split <;> rfl

/-- The channels, where the entry of one connection has gone. -/
private theorem channelSet_of_no_entry {ps' : PubSub}
    (h : ∀ c, ps'.subscriptions.lookup c = if c = conn then none else ps.subscriptions.lookup c)
    (c : ConnID) : ps'.channelSet c = if c = conn then ∅ else ps.channelSet c := by
  unfold PubSub.channelSet
  rw [h]
  split <;> rfl

end Channels

/-! ## What keeps the maps consistent -/

section Changes

variable {ps ps' : PubSub} {conn : ConnID} {channel : GoString} {subscriber : Nat}

/-- A connection gets a channel, with the `Subscriber` it has or a new one. -/
private theorem Consistent.add (h : Consistent ps)
    (hrows : ps'.subscribers = NestedMap.insert ps.subscribers channel conn subscriber)
    (hsubscriber : ∀ c, ps'.connectionToSubscriber.lookup c =
      if c = conn then some subscriber else ps.connectionToSubscriber.lookup c)
    (hchannels : ∀ c, ps'.subscriptions.lookup c =
      if c = conn then some (insert channel (ps.channelSet conn)) else ps.subscriptions.lookup c)
    (hold : ∀ s, ps.connectionToSubscriber.lookup conn = some s → s = subscriber)
    (hown : ∀ c, ps.connectionToSubscriber.lookup c = some subscriber → c = conn)
    (hheap : ∀ s, closedAt ps s = some false → closedAt ps' s = some false)
    (hlive : closedAt ps' subscriber = some false) : Consistent ps' where
  entry channel' c := by
    rw [hrows, NestedMap.lookup_insert, h.entry, hsubscriber, channelSet_of_entry hchannels]
    by_cases hc : c = conn
    · subst hc
      by_cases hchannel : channel' = channel
      · simp [hchannel]
      · simp only [hchannel, false_and, if_false, if_true, Finset.mem_insert,
          false_or]
        split
        · next hmem =>
          -- a connection with channels has a subscriber
          cases hs : ps.connectionToSubscriber.lookup c with
          | none =>
            rw [channelSet_of_none ((h.tracked c).mp hs)] at hmem
            exact absurd hmem (Finset.notMem_empty _)
          | some s => rw [hold s hs]
        · rfl
    · simp [hc]
  tracked c := by
    rw [hsubscriber, hchannels]
    split
    · simp
    · exact h.tracked c
  nonempty c channels hc := by
    rw [hchannels] at hc
    split at hc
    · cases hc
      exact Finset.insert_nonempty _ _
    · exact h.nonempty c channels hc
  noEmptyRow := by
    rw [hrows]
    exact h.noEmptyRow.insert _ _ _
  live c s hc := by
    rw [hsubscriber] at hc
    split at hc
    · cases hc
      exact hlive
    · exact hheap s (h.live c s hc)
  distinct c c' s hc hc' := by
    rw [hsubscriber] at hc hc'
    split at hc <;> split at hc'
    · next heq heq' => rw [heq, heq']
    · next heq _ =>
      cases hc
      rw [heq, hown c' hc']
    · next _ heq' =>
      cases hc'
      rw [heq', hown c hc]
    · exact h.distinct c c' s hc hc'

/-- A connection loses a channel and keeps others. -/
private theorem Consistent.shrink (h : Consistent ps)
    (hrows : ps'.subscribers = NestedMap.erase ps.subscribers channel conn)
    (hsubscriber : ps'.connectionToSubscriber = ps.connectionToSubscriber)
    (hchannels : ∀ c, ps'.subscriptions.lookup c = if c = conn then
      some ((ps.channelSet conn).erase channel) else ps.subscriptions.lookup c)
    (hne : ((ps.channelSet conn).erase channel).Nonempty) (hheap : ps'.heap = ps.heap) :
    Consistent ps' where
  entry channel' c := by
    rw [hrows, NestedMap.lookup_erase, h.entry, hsubscriber, channelSet_of_entry hchannels]
    by_cases hc : c = conn
    · by_cases hchannel : channel' = channel
      · simp [hc, hchannel]
      · simp [hc, hchannel]
    · simp [hc]
  tracked c := by
    rw [hsubscriber, h.tracked, hchannels]
    split
    · next heq =>
      obtain ⟨channel', hmem⟩ := hne
      have hsome : ps.subscriptions.lookup conn ≠ none := by
        intro hnone
        rw [channelSet_of_none hnone, Finset.erase_empty] at hmem
        exact absurd hmem (Finset.notMem_empty _)
      rw [heq]
      simp [hsome]
    · exact Iff.rfl
  nonempty c channels hc := by
    rw [hchannels] at hc
    split at hc
    · cases hc
      exact hne
    · exact h.nonempty c channels hc
  noEmptyRow := by
    rw [hrows]
    exact h.noEmptyRow.erase _ _
  live c s hc := by
    rw [hsubscriber] at hc
    rw [closedAt, hheap]
    exact h.live c s hc
  distinct c c' s hc hc' := by
    rw [hsubscriber] at hc hc'
    exact h.distinct c c' s hc hc'

/-- A connection goes. -/
private theorem Consistent.drop (h : Consistent ps)
    (hrows : ∀ channel c, NestedMap.lookup ps'.subscribers channel c =
      if c = conn then none else NestedMap.lookup ps.subscribers channel c)
    (hnoEmptyRow : NestedMap.NoEmptyRow ps'.subscribers)
    (hsubscriber : ps'.connectionToSubscriber = ps.connectionToSubscriber.erase conn)
    (hchannels : ∀ c, ps'.subscriptions.lookup c =
      if c = conn then none else ps.subscriptions.lookup c)
    (hheap : ∀ c s, c ≠ conn → ps.connectionToSubscriber.lookup c = some s →
      closedAt ps' s = some false) : Consistent ps' where
  entry channel c := by
    rw [hrows, h.entry, hsubscriber, Finmap.lookup_erase_eq_ite, channelSet_of_no_entry hchannels]
    by_cases hc : c = conn
    · simp [hc]
    · simp [hc]
  tracked c := by
    rw [hsubscriber, Finmap.lookup_erase_eq_ite, hchannels]
    split
    · simp
    · exact h.tracked c
  nonempty c channels hc := by
    rw [hchannels] at hc
    split at hc
    · exact nomatch hc
    · exact h.nonempty c channels hc
  noEmptyRow := hnoEmptyRow
  live c s hc := by
    rw [hsubscriber, Finmap.lookup_erase_eq_ite] at hc
    split at hc
    · exact nomatch hc
    · next hne => exact hheap c s hne hc
  distinct c c' s hc hc' := by
    rw [hsubscriber, Finmap.lookup_erase_eq_ite] at hc hc'
    split at hc
    · exact nomatch hc
    · split at hc'
      · exact nomatch hc'
      · exact h.distinct c c' s hc hc'

end Changes

/-! ## Operations -/

section Operations

variable {ps : PubSub} (conn : ConnID) (channel : GoString)

private theorem addSubscriber_eq {ps : PubSub} {channels : Finset GoString} (subscriber : Nat)
    (h : ps.subscriptions.lookup conn = some channels) :
    ps.addSubscriber conn channel subscriber = .ok { ps with
      subscriptions := ps.subscriptions.insert conn (insert channel channels)
      subscribers := NestedMap.insert ps.subscribers channel conn subscriber } := by
  unfold PubSub.addSubscriber PubSub.addSubscription
  rw [h]
  rfl

private theorem removeFromChannel_eq (ps : PubSub) :
    ps.removeFromChannel conn channel =
      { ps with subscribers := NestedMap.erase ps.subscribers channel conn } := by
  unfold PubSub.removeFromChannel NestedMap.erase
  cases ps.subscribers.lookup channel with
  | none => rfl
  | some conns =>
    dsimp only
    split <;> rfl

private theorem lt_of_closedAt {subscriber : Nat} {closed : Bool}
    (h : closedAt ps subscriber = some closed) : subscriber < ps.heap.length := by
  by_contra hge
  rw [closedAt, List.getElem?_eq_none (by omega)] at h
  exact nomatch h

private theorem Consistent.exists_channels (h : Consistent ps) {conn : ConnID} {subscriber : Nat}
    (hs : ps.connectionToSubscriber.lookup conn = some subscriber) :
    ∃ channels, ps.subscriptions.lookup conn = some channels := by
  apply Option.ne_none_iff_exists'.mp
  intro hnone
  rw [(h.tracked conn).mpr hnone] at hs
  exact nomatch hs

private theorem Consistent.exists_subscriber (h : Consistent ps) {conn : ConnID}
    {channels : Finset GoString} (hchannels : ps.subscriptions.lookup conn = some channels) :
    ∃ subscriber, ps.connectionToSubscriber.lookup conn = some subscriber := by
  apply Option.ne_none_iff_exists'.mp
  intro hnone
  rw [(h.tracked conn).mp hnone] at hchannels
  exact nomatch hchannels

/-- `Subscribe` returns. -/
theorem Consistent.subscribe (h : Consistent ps) :
    ∃ ps', ps.subscribe conn channel = .ok ps' ∧ Consistent ps' ∧
      ∀ c, ps'.channelSet c =
        if c = conn then insert channel (ps.channelSet conn) else ps.channelSet c := by
  unfold PubSub.subscribe
  cases hs : ps.connectionToSubscriber.lookup conn with
  | none =>
    have hnone := (h.tracked conn).mp hs
    dsimp only
    rw [addSubscriber_eq conn channel ps.heap.length (Finmap.lookup_insert _)]
    have hchannels : ∀ c, ((ps.subscriptions.insert conn ∅).insert conn
        (insert channel ∅)).lookup c = if c = conn then some (insert channel (ps.channelSet conn))
          else ps.subscriptions.lookup c := by
      intro c
      rw [Finmap.lookup_insert_eq_ite, Finmap.lookup_insert_eq_ite, channelSet_of_none hnone]
      split <;> rfl
    refine ⟨_, rfl, h.add rfl (Finmap.lookup_insert_eq_ite _ _ · _) hchannels ?_ ?_ ?_ ?_,
      channelSet_of_entry hchannels⟩
    · intro s hsome
      exact nomatch hs.symm.trans hsome
    · -- the new pointer is at the end of the heap, and no other is
      intro c hc
      exact absurd (lt_of_closedAt (h.live c _ hc)) (Nat.lt_irrefl _)
    · intro s hlive
      show ((ps.heap ++ _)[s]?).map _ = _
      rw [List.getElem?_append_left (lt_of_closedAt hlive)]
      exact hlive
    · show ((ps.heap ++ _)[ps.heap.length]?).map _ = _
      rw [List.getElem?_append_right le_rfl, Nat.sub_self]
      rfl
  | some subscriber =>
    dsimp only
    by_cases hmem : channel ∈ ps.channelSet conn
    · rw [if_pos hmem]
      exact ⟨ps, rfl, h, channelSet_unchanged (Finset.insert_eq_of_mem hmem).symm⟩
    · obtain ⟨channels, hchannels⟩ := h.exists_channels hs
      have hlookup : ∀ c, (ps.subscriptions.insert conn (insert channel channels)).lookup c =
          if c = conn then some (insert channel (ps.channelSet conn))
            else ps.subscriptions.lookup c := by
        intro c
        rw [Finmap.lookup_insert_eq_ite, channelSet_of_some hchannels]
      rw [if_neg hmem, addSubscriber_eq conn channel subscriber hchannels]
      refine ⟨_, rfl, h.add rfl (fun c => ?_) hlookup ?_ ?_ (fun s hlive => hlive)
        (h.live conn subscriber hs), channelSet_of_entry hlookup⟩
      · show ps.connectionToSubscriber.lookup c = _
        split
        · next heq => rw [heq, hs]
        · rfl
      · exact fun s hsome => Option.some.inj (hsome.symm.trans hs)
      · exact fun c hc => h.distinct c conn subscriber hc hs

/-- Closing the `Subscriber` of a connection closes none of another. -/
private theorem Consistent.closeSubscriber (h : Consistent ps) {conn : ConnID} {subscriber : Nat}
    (hs : ps.connectionToSubscriber.lookup conn = some subscriber) (ps₁ : PubSub)
    (hheap : ps₁.heap = ps.heap) :
    ∃ heap, ps₁.closeSubscriber subscriber = .ok { ps₁ with heap := heap } ∧
      ∀ c s, c ≠ conn → ps.connectionToSubscriber.lookup c = some s →
        (heap[s]?).map Subscriber.closed = some false := by
  have hlive := h.live conn subscriber hs
  rw [closedAt] at hlive
  obtain ⟨sub, hsub, hopen⟩ := Option.map_eq_some_iff.mp hlive
  unfold PubSub.closeSubscriber
  rw [hheap, hsub]
  dsimp only
  rw [hopen, if_neg Bool.false_ne_true]
  refine ⟨_, rfl, fun c s hne hc => ?_⟩
  have hne' : subscriber ≠ s := by
    rintro rfl
    exact hne (h.distinct c conn subscriber hc hs)
  rw [List.getElem?_set_ne hne']
  exact h.live c s hc

/-- `Unsubscribe` returns. -/
theorem Consistent.unsubscribe (h : Consistent ps) :
    ∃ err ps', ps.unsubscribe conn channel = .ok (err, ps') ∧ Consistent ps' ∧
      ∀ c, ps'.channelSet c =
        if c = conn then (ps.channelSet conn).erase channel else ps.channelSet c := by
  unfold PubSub.unsubscribe
  cases hchannels : ps.subscriptions.lookup conn with
  | none =>
    refine ⟨_, ps, rfl, h, channelSet_unchanged ?_⟩
    rw [channelSet_of_none hchannels, Finset.erase_empty]
  | some channels =>
    dsimp only
    rw [channelSet_of_some hchannels]
    by_cases hmem : channel ∈ channels
    · rw [if_pos hmem, removeFromChannel_eq]
      by_cases hlast : channels.erase channel = ∅
      · -- it was the last channel of the connection
        obtain ⟨subscriber, hs⟩ := h.exists_subscriber hchannels
        obtain ⟨heap, hclose, hheap⟩ := h.closeSubscriber hs { ps with
          subscriptions := ps.subscriptions.insert conn (channels.erase channel)
          subscribers := NestedMap.erase ps.subscribers channel conn } rfl
        have hrows : ∀ channel' c, NestedMap.lookup (NestedMap.erase ps.subscribers channel conn)
            channel' c = if c = conn then none else NestedMap.lookup ps.subscribers channel' c := by
          intro channel' c
          rw [NestedMap.lookup_erase]
          by_cases hc : c = conn
          · by_cases hchannel : channel' = channel
            · simp [hc, hchannel]
            · have hnot : channel' ∉ channels := fun hmem' =>
                absurd (Finset.mem_erase.mpr ⟨hchannel, hmem'⟩) (hlast ▸ Finset.notMem_empty _)
              simp [hc, hchannel, h.entry, channelSet_of_some hchannels, hnot]
          · simp [hc]
        have hentries : ∀ c, ((ps.subscriptions.insert conn (channels.erase channel)).erase
            conn).lookup c = if c = conn then none else ps.subscriptions.lookup c := by
          intro c
          rw [Finmap.lookup_erase_eq_ite, Finmap.lookup_insert_eq_ite]
          split <;> rfl
        rw [if_pos hlast, PubSub.cleanupConnection]
        simp only [hs, hclose, bind, Except.bind]
        refine ⟨none, _, rfl, h.drop hrows (h.noEmptyRow.erase _ _) rfl hentries hheap,
          fun c => (channelSet_of_no_entry hentries c).trans ?_⟩
        rw [hlast]
      · have hentries : ∀ c, (ps.subscriptions.insert conn (channels.erase channel)).lookup c =
            if c = conn then some ((ps.channelSet conn).erase channel)
              else ps.subscriptions.lookup c := by
          intro c
          rw [Finmap.lookup_insert_eq_ite, channelSet_of_some hchannels]
        have hne : ((ps.channelSet conn).erase channel).Nonempty := by
          rw [channelSet_of_some hchannels]
          exact Finset.nonempty_iff_ne_empty.mpr hlast
        rw [if_neg hlast]
        refine ⟨none, _, rfl, h.shrink rfl rfl hentries hne rfl,
          fun c => (channelSet_of_entry hentries c).trans ?_⟩
        rw [channelSet_of_some hchannels]
    · rw [if_neg hmem]
      refine ⟨_, ps, rfl, h, channelSet_unchanged ?_⟩
      rw [channelSet_of_some hchannels, Finset.erase_eq_of_notMem hmem]

/-- A connection goes from the subscribers of several channels. -/
private theorem foldl_removeFromChannel (channels : List GoString) (ps : PubSub) :
    ∃ rows, channels.foldl (fun ps channel => ps.removeFromChannel conn channel) ps =
        { ps with subscribers := rows } ∧
      (NestedMap.NoEmptyRow ps.subscribers → NestedMap.NoEmptyRow rows) ∧
      ∀ channel c, NestedMap.lookup rows channel c =
        if channel ∈ channels ∧ c = conn then none
          else NestedMap.lookup ps.subscribers channel c := by
  induction channels generalizing ps with
  | nil => exact ⟨ps.subscribers, rfl, id, fun channel c => by simp⟩
  | cons first channels ih =>
    obtain ⟨rows, hfold, hrows, hlookup⟩ := ih (ps.removeFromChannel conn first)
    rw [removeFromChannel_eq] at hfold hrows hlookup
    refine ⟨rows, ?_, fun hno => hrows (hno.erase _ _), fun channel c => ?_⟩
    · rw [List.foldl_cons, removeFromChannel_eq]
      exact hfold
    · rw [hlookup, NestedMap.lookup_erase]
      by_cases hc : c = conn
      · by_cases hchannel : channel = first
        · simp [hc, hchannel]
        · simp [hc, hchannel]
      · simp [hc]

/-- `RemoveConnection` returns, whatever the order of its loop. -/
theorem Consistent.removeConnection (h : Consistent ps) {order : Finset GoString → List GoString}
    (horder : ∀ channels channel, channel ∈ order channels ↔ channel ∈ channels) :
    ∃ ps', ps.removeConnection conn order = .ok ps' ∧ Consistent ps' ∧
      ∀ c, ps'.channelSet c = if c = conn then ∅ else ps.channelSet c := by
  unfold PubSub.removeConnection
  cases hs : ps.connectionToSubscriber.lookup conn with
  | none =>
    exact ⟨ps, rfl, h, channelSet_unchanged (channelSet_of_none ((h.tracked conn).mp hs))⟩
  | some subscriber =>
    obtain ⟨channels, hchannels⟩ := h.exists_channels hs
    obtain ⟨rows, hfold, hnoEmptyRow, hlookup⟩ :=
      foldl_removeFromChannel conn (order channels) ps
    obtain ⟨heap, hclose, hheap⟩ := h.closeSubscriber hs { ps with subscribers := rows } rfl
    have hrows : ∀ channel c, NestedMap.lookup rows channel c =
        if c = conn then none else NestedMap.lookup ps.subscribers channel c := by
      intro channel c
      simp only [hlookup, horder]
      by_cases hc : c = conn
      · by_cases hmem : channel ∈ channels
        · simp [hc, hmem]
        · simp [hc, hmem, h.entry, channelSet_of_some hchannels]
      · simp [hc]
    have hentries : ∀ c, (ps.subscriptions.erase conn).lookup c =
        if c = conn then none else ps.subscriptions.lookup c :=
      Finmap.lookup_erase_eq_ite ps.subscriptions conn
    dsimp only
    rw [hchannels]
    dsimp only
    rw [hfold, hclose]
    exact ⟨_, rfl, h.drop hrows (hnoEmptyRow h.noEmptyRow) rfl hentries hheap,
      channelSet_of_no_entry hentries⟩

/-- Consistency depends on the heap by what is closed only. -/
theorem Consistent.withHeap (h : Consistent ps) {heap : List Subscriber}
    (hheap : ∀ s, (heap[s]?).map Subscriber.closed = closedAt ps s) :
    Consistent { ps with heap := heap } :=
  ⟨h.entry, h.tracked, h.nonempty, h.noEmptyRow,
    fun conn s hs => (hheap s).trans (h.live conn s hs), h.distinct⟩

/-- The entry of a channel is the `Subscriber` of a connection with the channel. -/
private theorem Consistent.of_entry (h : Consistent ps) {channel : GoString} {conn : ConnID}
    {subscriber : Nat} (hentry : NestedMap.lookup ps.subscribers channel conn = some subscriber) :
    ps.connectionToSubscriber.lookup conn = some subscriber ∧ channel ∈ ps.channelSet conn := by
  rw [h.entry] at hentry
  split at hentry
  · next hchannel => exact ⟨hentry, hchannel⟩
  · exact nomatch hentry

/-- A `Subscriber` of a channel is that of a connection with the channel. -/
theorem Consistent.exists_conn (h : Consistent ps) {channel : GoString} {subscriber : Nat}
    (hmem : subscriber ∈ ps.subscribersOf channel) :
    ∃ conn, ps.connectionToSubscriber.lookup conn = some subscriber ∧
      channel ∈ ps.channelSet conn := by
  obtain ⟨⟨conn, s⟩, hentry, rfl⟩ := Multiset.mem_map.mp hmem
  refine ⟨conn, h.of_entry ?_⟩
  unfold NestedMap.lookup
  cases hconns : ps.subscribers.lookup channel with
  | none =>
    rw [hconns] at hentry
    exact absurd hentry (Multiset.notMem_zero _)
  | some conns =>
    rw [hconns] at hentry
    exact Finmap.lookup_eq_some_iff.mpr hentry

/-- No `Subscriber` of a channel is closed. -/
theorem Consistent.live_of_mem (h : Consistent ps) {channel : GoString} {subscriber : Nat}
    (hmem : subscriber ∈ ps.subscribersOf channel) : closedAt ps subscriber = some false := by
  obtain ⟨conn, hconn, -⟩ := h.exists_conn hmem
  exact h.live conn subscriber hconn

/-- What happens at one subscriber: a message is queued if there is room, and
    nothing is closed. -/
theorem offer_ok (msg : Message) {subscriber : Nat} (hlive : closedAt ps subscriber = some false) :
    ∃ sub heap, ps.heap[subscriber]? = some sub ∧
      ps.offer msg subscriber =
        .ok (decide (sub.messages.length < messagesCap), { ps with heap := heap }) ∧
      heap = (if sub.messages.length < messagesCap then
        ps.heap.set subscriber { sub with messages := sub.messages ++ [msg] } else ps.heap) ∧
      ∀ s, (heap[s]?).map Subscriber.closed = closedAt ps s := by
  obtain ⟨sub, hsub, hopen⟩ := Option.map_eq_some_iff.mp hlive
  refine ⟨sub, _, hsub, ?_, rfl, fun s => ?_⟩
  · unfold PubSub.offer
    rw [hsub]
    simp only [hopen, Bool.false_eq_true, if_false]
    split
    · next hroom => simp only [hroom, decide_true]
    · next hfull => simp only [hfull, decide_false]
  · split
    · by_cases hs : subscriber = s
      · subst hs
        rw [List.getElem?_set_self (List.getElem?_eq_some_iff.mp hsub).1, closedAt, hsub]
        rfl
      · rw [List.getElem?_set_ne hs, closedAt]
    · rfl

/-- The loop of `Publish` returns if none of the subscribers is closed, and closes
    none. -/
private theorem publishLoop_ok (msg : Message) (subscribers : List Nat) (count : Nat) (ps : PubSub)
    (hlive : ∀ s ∈ subscribers, closedAt ps s = some false) :
    ∃ count' heap, PubSub.publishLoop msg subscribers count ps =
        .ok (count', { ps with heap := heap }) ∧
      ∀ s, (heap[s]?).map Subscriber.closed = closedAt ps s := by
  induction subscribers generalizing count ps with
  | nil => exact ⟨count, ps.heap, rfl, fun s => rfl⟩
  | cons first subscribers ih =>
    obtain ⟨sub, heap₁, -, hoffer, -, hsame⟩ := offer_ok msg (hlive first List.mem_cons_self)
    rw [PubSub.publishLoop, hoffer]
    obtain ⟨count', heap, hloop, hclosed⟩ := ih
      (if decide (sub.messages.length < messagesCap) then count + 1 else count)
      { ps with heap := heap₁ }
      fun s hs => (hsame s).trans (hlive s (List.mem_cons_of_mem _ hs))
    exact ⟨count', heap, hloop, fun s => (hclosed s).trans (hsame s)⟩

/-- `Publish` returns, and changes no map. -/
theorem Consistent.publish (h : Consistent ps) (order : Finset ConnID → List ConnID)
    (message : GoString) :
    ∃ count ps', ps.publish order channel message = .ok (count, ps') ∧ Consistent ps' ∧
      ps'.channelSet = ps.channelSet := by
  unfold PubSub.publish
  cases hconns : ps.subscribers.lookup channel with
  | none => exact ⟨0, ps, rfl, h, rfl⟩
  | some conns =>
    have hlive : ∀ s ∈ (order conns.keys).filterMap conns.lookup, closedAt ps s = some false := by
      intro s hs
      obtain ⟨conn, -, hconn⟩ := List.mem_filterMap.mp hs
      apply h.live_of_mem
      rw [PubSub.subscribersOf, hconns]
      exact Multiset.mem_map.mpr ⟨⟨conn, s⟩, Finmap.mem_lookup_iff.mp hconn, rfl⟩
    obtain ⟨count, heap, hloop, hclosed⟩ := publishLoop_ok ⟨channel, message⟩ _ 0 ps hlive
    exact ⟨count, _, hloop, h.withHeap hclosed, rfl⟩

end Operations

/-! ## Sequences of calls -/

/-- An order for the loop of `RemoveConnection`. -/
abbrev ChannelOrder := { order : Finset GoString → List GoString //
  ∀ channels channel, channel ∈ order channels ↔ channel ∈ channels }

/-- A call that holds the lock for writing. -/
inductive Update where
  | subscribe (conn : ConnID) (channel : GoString)
  | unsubscribe (conn : ConnID) (channel : GoString)
  | removeConnection (conn : ConnID) (order : ChannelOrder)

def Update.run (ps : PubSub) : Update → Except Panic PubSub
  | .subscribe conn channel => ps.subscribe conn channel
  | .unsubscribe conn channel => (ps.unsubscribe conn channel).map Prod.snd
  | .removeConnection conn order => ps.removeConnection conn order.1

theorem Consistent.update {ps : PubSub} (h : Consistent ps) (u : Update) :
    ∃ ps', u.run ps = .ok ps' ∧ Consistent ps' := by
  cases u with
  | subscribe conn channel =>
    obtain ⟨ps', hrun, h', -⟩ := h.subscribe conn channel
    exact ⟨ps', hrun, h'⟩
  | unsubscribe conn channel =>
    obtain ⟨err, ps', hrun, h', -⟩ := h.unsubscribe conn channel
    exact ⟨ps', by rw [Update.run, hrun]; rfl, h'⟩
  | removeConnection conn order =>
    obtain ⟨ps', hrun, h', -⟩ := h.removeConnection conn order.2
    exact ⟨ps', hrun, h'⟩

/-- A call of a `PubSub`. -/
inductive PubSubCall where
  | update (u : Update)
  | publish (order : Finset ConnID → List ConnID) (channel message : GoString)

def PubSubCall.run (ps : PubSub) : PubSubCall → Except Panic PubSub
  | .update u => u.run ps
  | .publish order channel message => (ps.publish order channel message).map Prod.snd

private theorem Consistent.call {ps : PubSub} (h : Consistent ps) (c : PubSubCall) :
    ∃ ps', c.run ps = .ok ps' ∧ Consistent ps' := by
  cases c with
  | update u => exact h.update u
  | publish order channel message =>
    obtain ⟨count, ps', hrun, h', -⟩ := h.publish channel order message
    exact ⟨ps', by rw [PubSubCall.run, hrun]; rfl, h'⟩

private theorem Consistent.calls {ps : PubSub} (h : Consistent ps) (calls : List PubSubCall) :
    ∃ ps', calls.foldlM PubSubCall.run ps = .ok ps' ∧ Consistent ps' := by
  induction calls generalizing ps with
  | nil => exact ⟨ps, rfl, h⟩
  | cons c calls ih =>
    obtain ⟨mid, hrun, hmid⟩ := h.call c
    obtain ⟨ps', hruns, h'⟩ := ih hmid
    refine ⟨ps', ?_, h'⟩
    rw [List.foldlM_cons, hrun]
    exact hruns

/-- Every sequence of calls returns, so nothing is sent to a closed channel and none
    is closed twice, and the three maps agree after it. -/
theorem pubSub_calls_consistent (calls : List PubSubCall) :
    ∃ ps, calls.foldlM PubSubCall.run .new = .ok ps ∧
      (∀ channel conn, channel ∈ ps.channelSet conn ↔
        ∃ conns, ps.subscribers.lookup channel = some conns ∧ conn ∈ conns) ∧
      (∀ conn, conn ∈ ps.connectionToSubscriber ↔ conn ∈ ps.subscriptions) ∧
      (∀ conn channels, ps.subscriptions.lookup conn = some channels → channels.Nonempty) ∧
      (∀ channel conns conn subscriber, ps.subscribers.lookup channel = some conns →
        conns.lookup conn = some subscriber →
        ps.connectionToSubscriber.lookup conn = some subscriber) ∧
      (∀ channel conns, ps.subscribers.lookup channel = some conns → conns ≠ ∅) ∧
      ∀ conn subscriber, ps.connectionToSubscriber.lookup conn = some subscriber →
        ∃ s, ps.heap[subscriber]? = some s ∧ s.closed = false := by
  obtain ⟨ps, hrun, h⟩ := consistent_new.calls calls
  have hentry : ∀ channel conns conn subscriber, ps.subscribers.lookup channel = some conns →
      conns.lookup conn = some subscriber →
      NestedMap.lookup ps.subscribers channel conn = some subscriber := by
    intro channel conns conn subscriber hconns hconn
    rw [NestedMap.lookup, hconns]
    exact hconn
  refine ⟨ps, hrun, fun channel conn => ⟨fun hmem => ?_, ?_⟩, fun conn => ?_, h.nonempty, ?_, ?_,
    ?_⟩
  · -- a connection with a channel has a subscriber, which is the entry
    have hchannels : ps.subscriptions.lookup conn ≠ none := by
      intro hnone
      rw [channelSet_of_none hnone] at hmem
      exact absurd hmem (Finset.notMem_empty _)
    obtain ⟨channels, hchannels⟩ := Option.ne_none_iff_exists'.mp hchannels
    obtain ⟨subscriber, hs⟩ := h.exists_subscriber hchannels
    have hlookup := h.entry channel conn
    rw [if_pos hmem, hs] at hlookup
    obtain ⟨conns, hconns, hconn⟩ := Option.bind_eq_some_iff.mp hlookup
    exact ⟨conns, hconns, Finmap.mem_of_lookup_eq_some hconn⟩
  · rintro ⟨conns, hconns, hconn⟩
    obtain ⟨subscriber, hs⟩ := Finmap.mem_iff.mp hconn
    exact (h.of_entry (hentry channel conns conn subscriber hconns hs)).2
  · have htracked := h.tracked conn
    rw [Finmap.lookup_eq_none, Finmap.lookup_eq_none] at htracked
    exact not_iff_not.mp htracked
  · intro channel conns conn subscriber hconns hconn
    exact (h.of_entry (hentry channel conns conn subscriber hconns hconn)).1
  · intro channel conns hconns hempty
    have hne := h.noEmptyRow channel conns hconns
    rw [hempty] at hne
    exact absurd hne (by simp)
  · intro conn subscriber hs
    exact Option.map_eq_some_iff.mp (h.live conn subscriber hs)

end GoCache.Spec
