import GoCache.ForStd.Reaches
import GoCache.Spec.PubSubInvariant

/-!
# Delivery of published messages

Any number of calls of `Publish` run at once, under the lock for reading, between
calls that hold the lock for writing, and every `Subscriber` has a goroutine that
takes messages from its queue and writes them to its connection. A message that
was counted for a `Subscriber` is written, in the goroutine's hands or queued, in
the order of the counting.

## Key results

- `StepEffect.of_step`: what a step does, by its kind
- `Delivering.step`: what is written, held and queued is what was counted
- `counted_messages_delivered`: so it is in every interleaving, and `Publish`
  returns the number of subscribers with room in their queues
-/

namespace GoCache.Spec

open GoCache.Native Transition

/-! ## Interleavings -/

/-- A call of `Publish` that holds the lock: the subscribers it has still to go
    through, and its count. `tried` is a record for the proofs: those it has gone
    through, with the lengths of their queues then. -/
structure PublishCall where
  msg : Message
  todo : List Nat
  count : Nat
  tried : List (Nat × Nat)

/-- A `PubSub` with its goroutines and the calls in progress. `counted` is a record
    for the proofs: the messages for which a `Publish` has counted a `Subscriber`. -/
structure Broker where
  ps : PubSub
  senders : List Sender
  calls : List PublishCall
  counted : Nat → List Message

inductive BrokerStep where
  /-- A call that holds the lock for writing. -/
  | update (u : Update)
  /-- A call of `Publish` takes the lock; it will go through the subscribers in the
      given order. -/
  | publish (channel message : GoString) (order : List Nat)
  /-- The call goes on to its next subscriber. -/
  | offer (i : Nat)
  /-- The call returns. -/
  | finish (i : Nat)
  /-- The steps of the goroutine of a `Subscriber`. -/
  | receive (s : Nat)
  | stop (s : Nat)
  | write (s : Nat) (failed : Bool)

namespace Broker

def new : Broker := ⟨.new, [], [], fun _ => []⟩

/-- The call has gone to the next subscriber, which has taken the message or not. -/
def offered (b : Broker) (pre : List PublishCall) (call : PublishCall) (s : Nat) (todo : List Nat)
    (post : List PublishCall) (queued : Bool) (ps : PubSub) : Broker :=
  { b with
    ps := ps
    calls := pre ++ { call with
      todo := todo
      count := if queued then call.count + 1 else call.count
      tried := call.tried ++ [(s, ((b.ps.heap[s]?).map (·.messages.length)).getD 0)] } :: post
    counted := fun t => if t = s ∧ queued then b.counted t ++ [call.msg] else b.counted t }

/-- A step of a goroutine, on its state and its `Subscriber`. -/
def senderStep (b : Broker) (s : Nat) (f : Sender → Subscriber → Option (Sender × Subscriber)) :
    Option Broker :=
  match b.senders[s]?, b.ps.heap[s]? with
  | some sender, some sub => (f sender sub).map fun r =>
      { b with senders := b.senders.set s r.1, ps := { b.ps with heap := b.ps.heap.set s r.2 } }
  | _, _ => none

/-- A step, if it is possible now. -/
def step (b : Broker) : BrokerStep → Except Panic (Option Broker)
  | .update u =>
    if b.calls.isEmpty then
      -- a new `Subscriber` comes with its goroutine
      (u.run b.ps).map fun ps => some { b with
        ps := ps
        senders := b.senders ++ List.replicate (ps.heap.length - b.senders.length) .new }
    else .ok none
  | .publish channel message order =>
    if ↑order = b.ps.subscribersOf channel then
      .ok (some { b with calls := b.calls ++ [⟨⟨channel, message⟩, order, 0, []⟩] })
    else .ok none
  | .offer i =>
    match pick i b.calls with
    | none => .ok none
    | some (pre, call, post) =>
      match call.todo with
      | [] => .ok none
      | s :: todo => (b.ps.offer call.msg s).map fun r =>
          some (b.offered pre call s todo post r.1 r.2)
  | .finish i =>
    match pick i b.calls with
    | none => .ok none
    | some (pre, call, post) =>
      .ok (if call.todo.isEmpty then some { b with calls := pre ++ post } else none)
  | .receive s => .ok (b.senderStep s Sender.receive)
  | .stop s => .ok (b.senderStep s fun sender sub => (sender.stop sub).map (·, sub))
  | .write s failed => .ok (b.senderStep s fun sender sub => (sender.write failed).map (·, sub))

/-- A step that does not panic. -/
def next (b : Broker) (a : BrokerStep) : Option Broker :=
  match b.step a with
  | .ok r => r
  | .error _ => none

/-- The goroutine of a `Subscriber`. -/
def senderAt (b : Broker) (s : Nat) : Sender := (b.senders[s]?).getD .new

end Broker

/-! ## Queues -/

/-- The messages queued for a `Subscriber`. -/
def queueAt (ps : PubSub) (s : Nat) : List Message :=
  ((ps.heap[s]?).map Subscriber.messages).getD []

/-- No queue changes, and no `Subscriber` goes. -/
structure KeepsQueues (ps ps' : PubSub) : Prop where
  length : ps.heap.length ≤ ps'.heap.length
  queues : ∀ s, queueAt ps' s = queueAt ps s

section Queues

variable {ps ps' : PubSub}

theorem queueAt_of_getElem? {s : Nat} {sub : Subscriber} (h : ps.heap[s]? = some sub) :
    queueAt ps s = sub.messages := by
  rw [queueAt, h]
  rfl

/-- One queue changes. -/
theorem queueAt_set {s : Nat} {sub : Subscriber} (h : ps.heap[s]? = some sub) (sub' : Subscriber)
    (t : Nat) : queueAt { ps with heap := ps.heap.set s sub' } t =
      if t = s then sub'.messages else queueAt ps t := by
  split
  · next heq =>
    subst heq
    exact queueAt_of_getElem? (List.getElem?_set_self (List.getElem?_eq_some_iff.mp h).1)
  · next hne =>
    show ((List.set _ _ _)[t]?.map _).getD [] = _
    rw [List.getElem?_set_ne (Ne.symm hne)]
    rfl

theorem KeepsQueues.of_heap_eq (h : ps'.heap = ps.heap) : KeepsQueues ps ps' := by
  constructor
  · rw [h]
  · intro s
    rw [queueAt, queueAt, h]

private theorem heap_addSubscriber {conn : ConnID} {channel : GoString} {subscriber : Nat}
    (h : ps.addSubscriber conn channel subscriber = .ok ps') : ps'.heap = ps.heap := by
  unfold PubSub.addSubscriber PubSub.addSubscription at h
  split at h
  · exact nomatch h
  · cases h
    rfl

private theorem KeepsQueues.subscribe {conn : ConnID} {channel : GoString}
    (h : ps.subscribe conn channel = .ok ps') : KeepsQueues ps ps' := by
  unfold PubSub.subscribe at h
  split at h
  · have hheap := heap_addSubscriber h
    constructor
    · rw [hheap]
      simp
    · intro s
      rw [queueAt, queueAt, hheap]
      by_cases hs : s < ps.heap.length
      · rw [List.getElem?_append_left hs]
      · -- the queue of the new `Subscriber` is empty
        rw [List.getElem?_append_right (by omega), List.getElem?_eq_none (l := ps.heap) (by omega)]
        cases s - ps.heap.length <;> rfl
  · split at h
    · cases h
      exact .of_heap_eq rfl
    · exact .of_heap_eq (heap_addSubscriber h)

private theorem KeepsQueues.closeSubscriber {subscriber : Nat}
    (h : ps.closeSubscriber subscriber = .ok ps') : KeepsQueues ps ps' := by
  unfold PubSub.closeSubscriber at h
  split at h
  · exact nomatch h
  · next sub hsub =>
    split at h
    · exact nomatch h
    · cases h
      constructor
      · simp
      · intro s
        rw [queueAt_set hsub]
        split
        · next heq => rw [heq, queueAt_of_getElem? hsub]
        · rfl

private theorem heap_removeFromChannel (ps : PubSub) (conn : ConnID) (channel : GoString) :
    (ps.removeFromChannel conn channel).heap = ps.heap := by
  unfold PubSub.removeFromChannel
  split
  · rfl
  · split <;> rfl

private theorem heap_foldl_removeFromChannel (conn : ConnID) (channels : List GoString)
    (ps : PubSub) :
    (channels.foldl (fun ps channel => ps.removeFromChannel conn channel) ps).heap = ps.heap := by
  induction channels generalizing ps with
  | nil => rfl
  | cons channel channels ih =>
    rw [List.foldl_cons, ih, heap_removeFromChannel]

/-- A `Subscriber` is closed after changes of the maps, and others follow. -/
private theorem KeepsQueues.of_close {ps₁ ps₂ : PubSub} {subscriber : Nat}
    (hbefore : ps₁.heap = ps.heap) (h : ps₁.closeSubscriber subscriber = .ok ps₂)
    (hafter : ps'.heap = ps₂.heap) : KeepsQueues ps ps' := by
  have hclose := KeepsQueues.closeSubscriber h
  constructor
  · rw [← hbefore, hafter]
    exact hclose.length
  · intro s
    have hs := hclose.queues s
    rw [queueAt, queueAt] at hs ⊢
    rw [hafter, hs, hbefore]

private theorem KeepsQueues.unsubscribe {conn : ConnID} {channel : GoString} {err : Option Bytes}
    (h : ps.unsubscribe conn channel = .ok (err, ps')) : KeepsQueues ps ps' := by
  unfold PubSub.unsubscribe at h
  split at h
  · cases h
    exact .of_heap_eq rfl
  · split at h
    · dsimp only at h
      split at h
      · obtain ⟨ps₂, hcleanup, hret⟩ := bind_eq_ok.mp h
        cases hret
        unfold PubSub.cleanupConnection at hcleanup
        split at hcleanup
        · cases hcleanup
          exact .of_heap_eq (heap_removeFromChannel _ _ _)
        · obtain ⟨ps₃, hclose, hforget⟩ := bind_eq_ok.mp hcleanup
          cases hforget
          refine .of_close ?_ hclose rfl
          exact heap_removeFromChannel _ conn channel
      · cases h
        exact .of_heap_eq (heap_removeFromChannel _ _ _)
    · cases h
      exact .of_heap_eq rfl

private theorem KeepsQueues.removeConnection {conn : ConnID}
    {order : Finset GoString → List GoString} (h : ps.removeConnection conn order = .ok ps') :
    KeepsQueues ps ps' := by
  unfold PubSub.removeConnection at h
  split at h
  · cases h
    exact .of_heap_eq rfl
  · split at h
    · cases h
      exact .of_heap_eq rfl
    · obtain ⟨ps₂, hclose, hforget⟩ := bind_eq_ok.mp h
      cases hforget
      exact .of_close (heap_foldl_removeFromChannel _ _ _) hclose rfl

theorem KeepsQueues.update {u : Update} (h : u.run ps = .ok ps') : KeepsQueues ps ps' := by
  cases u with
  | subscribe conn channel => exact .subscribe h
  | unsubscribe conn channel =>
    obtain ⟨⟨err, ps₂⟩, hrun, rfl⟩ := map_eq_ok.mp h
    exact .unsubscribe hrun
  | removeConnection conn order => exact .removeConnection h

end Queues

/-! ## What a step does -/

/-- A goroutine moves messages from its queue to its hands and from there to the
    connection, in order. -/
structure Passes (sender : Sender) (sub : Subscriber) (sender' : Sender) (sub' : Subscriber) :
    Prop where
  messages : sender'.written ++ sender'.held.toList ++ sub'.messages =
    sender.written ++ sender.held.toList ++ sub.messages
  closed : sub'.closed = sub.closed

section Passes

variable {sender sender' : Sender} {sub sub' : Subscriber}

private theorem Passes.receive (h : sender.receive sub = some (sender', sub')) :
    Passes sender sub sender' sub' := by
  unfold Sender.receive at h
  split at h
  · next hselecting =>
    have hheld : sender.held = none := by
      unfold Sender.selecting at hselecting
      simp only [Bool.and_eq_true, Option.isNone_iff_eq_none] at hselecting
      exact hselecting.2
    split at h
    · next msg messages hmessages =>
      cases h
      exact ⟨by simp [hheld, hmessages], rfl⟩
    · split at h
      · cases h
        exact ⟨rfl, rfl⟩
      · cases h
  · cases h

private theorem Passes.stop (h : sender.stop sub = some sender') :
    Passes sender sub sender' sub := by
  unfold Sender.stop at h
  split at h
  · cases h
    exact ⟨rfl, rfl⟩
  · cases h

private theorem Passes.write {failed : Bool} (h : sender.write failed = some sender') :
    Passes sender sub sender' sub := by
  unfold Sender.write at h
  split at h
  · next msg _ hheld =>
    split at h
    · cases h
      exact ⟨rfl, rfl⟩
    · cases h
      exact ⟨by simp [hheld], rfl⟩
  · cases h

end Passes

/-- What a step has done, by the kind of the step. -/
inductive StepEffect (b : Broker) : BrokerStep → Broker → Prop where
  | update {u : Update} {ps : PubSub} (hcalls : b.calls.isEmpty = true)
      (hrun : u.run b.ps = .ok ps) : StepEffect b (.update u) { b with
        ps := ps
        senders := b.senders ++ List.replicate (ps.heap.length - b.senders.length) .new }
  | publish {channel message : GoString} {order : List Nat}
      (horder : ↑order = b.ps.subscribersOf channel) :
      StepEffect b (.publish channel message order)
        { b with calls := b.calls ++ [⟨⟨channel, message⟩, order, 0, []⟩] }
  | offer {i s : Nat} {pre post : List PublishCall} {call : PublishCall} {todo : List Nat}
      {queued : Bool} {ps : PubSub} (hpick : pick i b.calls = some (pre, call, post))
      (htodo : call.todo = s :: todo) (hoffer : b.ps.offer call.msg s = .ok (queued, ps)) :
      StepEffect b (.offer i) (b.offered pre call s todo post queued ps)
  | finish {i : Nat} {pre post : List PublishCall} {call : PublishCall}
      (hpick : pick i b.calls = some (pre, call, post)) :
      StepEffect b (.finish i) { b with calls := pre ++ post }
  | sender {a : BrokerStep} {s : Nat} {sender sender' : Sender} {sub sub' : Subscriber}
      (ha : ∀ i, a ≠ .offer i) (hsender : b.senders[s]? = some sender)
      (hsub : b.ps.heap[s]? = some sub) (hpasses : Passes sender sub sender' sub') :
      StepEffect b a { b with
        senders := b.senders.set s sender'
        ps := { b.ps with heap := b.ps.heap.set s sub' } }

section Effects

variable {b b' : Broker} {a : BrokerStep}

private theorem StepEffect.of_senderStep {s : Nat}
    {f : Sender → Subscriber → Option (Sender × Subscriber)} (ha : ∀ i, a ≠ .offer i)
    (hf : ∀ sender sub sender' sub', f sender sub = some (sender', sub') →
      Passes sender sub sender' sub') (hstep : b.senderStep s f = some b') :
    StepEffect b a b' := by
  unfold Broker.senderStep at hstep
  split at hstep
  · next sender sub hsender hsub =>
    obtain ⟨⟨sender', sub'⟩, hmove, rfl⟩ := Option.map_eq_some_iff.mp hstep
    exact .sender ha hsender hsub (hf sender sub sender' sub' hmove)
  · cases hstep

theorem StepEffect.of_step (hstep : b.step a = .ok (some b')) : StepEffect b a b' := by
  unfold Broker.step at hstep
  cases a with
  | update u =>
    dsimp only at hstep
    split at hstep
    · next hcalls =>
      obtain ⟨ps, hrun, heq⟩ := map_eq_ok.mp hstep
      cases heq
      exact .update hcalls hrun
    · cases hstep
  | publish channel message order =>
    dsimp only at hstep
    split at hstep
    · next horder =>
      cases hstep
      exact .publish horder
    · cases hstep
  | offer i =>
    dsimp only at hstep
    split at hstep
    · cases hstep
    · next pre call post hpick =>
      split at hstep
      · cases hstep
      · next s todo htodo =>
        obtain ⟨⟨queued, ps⟩, hoffer, heq⟩ := map_eq_ok.mp hstep
        cases heq
        exact .offer hpick htodo hoffer
  | finish i =>
    dsimp only at hstep
    split at hstep
    · cases hstep
    · next pre call post hpick =>
      split at hstep
      · cases hstep
        exact .finish hpick
      · cases hstep
  | receive s =>
    exact .of_senderStep (fun _ => BrokerStep.noConfusion)
      (fun sender sub sender' sub' => Passes.receive) (Except.ok.inj hstep)
  | stop s =>
    refine .of_senderStep (fun _ => BrokerStep.noConfusion) ?_ (Except.ok.inj hstep)
    intro sender sub sender' sub' hmove
    obtain ⟨moved, hstop, heq⟩ := Option.map_eq_some_iff.mp hmove
    cases heq
    exact .stop hstop
  | write s failed =>
    refine .of_senderStep (fun _ => BrokerStep.noConfusion) ?_ (Except.ok.inj hstep)
    intro sender sub sender' sub' hmove
    obtain ⟨moved, hwrite, heq⟩ := Option.map_eq_some_iff.mp hmove
    cases heq
    exact .write hwrite

end Effects

/-! ## What was counted -/

/-- A call of `Publish` goes through the subscribers of its channel, and counts those
    with room in their queues. -/
structure PublishCall.Accounts (call : PublishCall) (ps : PubSub) : Prop where
  subscribers : ↑(call.tried.map Prod.fst ++ call.todo) = ps.subscribersOf call.msg.channel
  count : call.count = call.tried.countP fun t => t.2 < messagesCap

/-- What a goroutine has written and holds, and what is queued for it, is what was
    counted, in this order. -/
structure Delivering (b : Broker) : Prop where
  consistent : Consistent b.ps
  started : b.senders.length = b.ps.heap.length
  accounted : ∀ s, (b.senderAt s).written ++ (b.senderAt s).held.toList ++ queueAt b.ps s =
    b.counted s
  calls : ∀ call ∈ b.calls, call.Accounts b.ps

theorem delivering_new : Delivering .new where
  consistent := consistent_new
  started := rfl
  accounted s := by
    simp [Broker.senderAt, Broker.new, PubSub.new, Sender.new, queueAt]
  calls call h := nomatch h

section Steps

variable {b b' : Broker}

private theorem Delivering.update (h : Delivering b) {u : Update} {ps : PubSub}
    (hcalls : b.calls.isEmpty = true) (hrun : u.run b.ps = .ok ps) : Delivering { b with
      ps := ps
      senders := b.senders ++ List.replicate (ps.heap.length - b.senders.length) .new } where
  consistent := by
    obtain ⟨ps', hrun', hps'⟩ := h.consistent.update u
    rw [hrun] at hrun'
    cases hrun'
    exact hps'
  started := by
    have hlength := (KeepsQueues.update hrun).length
    have hstarted := h.started
    simp only [List.length_append, List.length_replicate]
    omega
  accounted s := by
    have hsender : ((b.senders ++ List.replicate (ps.heap.length - b.senders.length)
        Sender.new)[s]?).getD .new = (b.senders[s]?).getD .new := by
      by_cases hs : s < b.senders.length
      · rw [List.getElem?_append_left hs]
      · rw [List.getElem?_append_right (by omega), List.getElem?_replicate,
          List.getElem?_eq_none (l := b.senders) (by omega)]
        split <;> rfl
    rw [Broker.senderAt, hsender, (KeepsQueues.update hrun).queues s]
    exact h.accounted s
  calls call hcall := by
    rw [List.isEmpty_iff.mp hcalls] at hcall
    exact nomatch hcall

private theorem Delivering.publish (h : Delivering b) {channel message : GoString}
    {order : List Nat} (horder : ↑order = b.ps.subscribersOf channel) :
    Delivering { b with calls := b.calls ++ [⟨⟨channel, message⟩, order, 0, []⟩] } where
  consistent := h.consistent
  started := h.started
  accounted := h.accounted
  calls call hcall := by
    rcases List.mem_append.mp hcall with hold | hnew
    · exact h.calls call hold
    · rw [List.mem_singleton.mp hnew]
      exact ⟨horder, rfl⟩

/-- A call in progress goes on to a `Subscriber` of its channel. -/
private theorem Delivering.mem_subscribersOf (h : Delivering b) {call : PublishCall} {s : Nat}
    {todo : List Nat} (hcall : call ∈ b.calls) (htodo : call.todo = s :: todo) :
    s ∈ b.ps.subscribersOf call.msg.channel := by
  rw [← (h.calls call hcall).subscribers, htodo]
  simp

private theorem Delivering.offer (h : Delivering b) {i s : Nat} {pre post : List PublishCall}
    {call : PublishCall} {todo : List Nat} {queued : Bool} {ps : PubSub}
    (hpick : pick i b.calls = some (pre, call, post)) (htodo : call.todo = s :: todo)
    (hoffer : b.ps.offer call.msg s = .ok (queued, ps)) :
    Delivering (b.offered pre call s todo post queued ps) := by
  have hcalls := pick_eq_some hpick
  have hcall : call ∈ b.calls := by
    rw [hcalls]
    simp
  obtain ⟨sub, heap, hsub, hok, hheap, hclosed⟩ :=
    offer_ok call.msg (h.consistent.live_of_mem (h.mem_subscribersOf hcall htodo))
  rw [hoffer] at hok
  cases hok
  have haccounts : ∀ other ∈ b.calls, other.Accounts { b.ps with heap := heap } :=
    fun other hother => ⟨(h.calls other hother).subscribers, (h.calls other hother).count⟩
  constructor
  case consistent => exact h.consistent.withHeap hclosed
  case started =>
    show b.senders.length = heap.length
    rw [h.started, hheap]
    split
    · rw [List.length_set]
    · rfl
  case accounted =>
    intro t
    show (b.senderAt t).written ++ (b.senderAt t).held.toList ++
      queueAt { b.ps with heap := heap } t =
      if t = s ∧ _ then b.counted t ++ [call.msg] else b.counted t
    rw [hheap, ← h.accounted t]
    by_cases hroom : sub.messages.length < messagesCap
    · rw [if_pos hroom, queueAt_set hsub]
      by_cases hts : t = s
      · subst hts
        simp [hroom, queueAt_of_getElem? hsub]
      · simp [hts]
    · simp [hroom]
  case calls =>
    intro other hother
    rcases List.mem_append.mp hother with hpre | hpost
    · exact haccounts other (by rw [hcalls]; simp [hpre])
    · rcases List.mem_cons.mp hpost with rfl | hpost
      · -- the call itself: the subscriber moves from `todo` to `tried`
        have hown := h.calls call hcall
        constructor
        · show ↑((call.tried ++ _).map Prod.fst ++ todo) = b.ps.subscribersOf call.msg.channel
          rw [← hown.subscribers, htodo]
          simp
        · show (if _ then call.count + 1 else call.count) = (call.tried ++ _).countP _
          rw [hown.count, hsub]
          by_cases hroom : sub.messages.length < messagesCap
          · simp [hroom]
          · simp [hroom]
      · exact haccounts other (by rw [hcalls]; simp [hpost])

private theorem Delivering.finish (h : Delivering b) {i : Nat} {pre post : List PublishCall}
    {call : PublishCall} (hpick : pick i b.calls = some (pre, call, post)) :
    Delivering { b with calls := pre ++ post } where
  consistent := h.consistent
  started := h.started
  accounted := h.accounted
  calls other hother := by
    apply h.calls other
    rw [pick_eq_some hpick]
    rcases List.mem_append.mp hother with hpre | hpost
    · simp [hpre]
    · simp [hpost]

private theorem Delivering.senderStep (h : Delivering b) {s : Nat} {sender sender' : Sender}
    {sub sub' : Subscriber} (hsender : b.senders[s]? = some sender)
    (hsub : b.ps.heap[s]? = some sub) (hpasses : Passes sender sub sender' sub') :
    Delivering { b with
      senders := b.senders.set s sender'
      ps := { b.ps with heap := b.ps.heap.set s sub' } } := by
  have hlt := (List.getElem?_eq_some_iff.mp hsub).1
  have hltSender := (List.getElem?_eq_some_iff.mp hsender).1
  constructor
  case consistent =>
    apply h.consistent.withHeap
    intro t
    by_cases hts : s = t
    · subst hts
      rw [List.getElem?_set_self hlt, closedAt, hsub]
      exact congrArg some hpasses.closed
    · rw [List.getElem?_set_ne hts, closedAt]
  case started =>
    show (b.senders.set s sender').length = (b.ps.heap.set s sub').length
    rw [List.length_set, List.length_set, h.started]
  case accounted =>
    intro t
    rw [queueAt_set hsub, Broker.senderAt]
    show _ = b.counted t
    rw [← h.accounted t, Broker.senderAt]
    by_cases hts : t = s
    · subst hts
      rw [if_pos rfl, List.getElem?_set_self hltSender, hsender, queueAt_of_getElem? hsub]
      exact hpasses.messages
    · rw [if_neg hts, List.getElem?_set_ne (Ne.symm hts)]
  case calls =>
    exact fun call hcall => ⟨(h.calls call hcall).subscribers, (h.calls call hcall).count⟩

theorem Delivering.step (h : Delivering b) {a : BrokerStep} (hstep : b.step a = .ok (some b')) :
    Delivering b' := by
  cases StepEffect.of_step hstep with
  | update hcalls hrun => exact h.update hcalls hrun
  | publish horder => exact h.publish horder
  | offer hpick htodo hoffer => exact h.offer hpick htodo hoffer
  | finish hpick => exact h.finish hpick
  | sender _ hsender hsub hpasses => exact h.senderStep hsender hsub hpasses

/-- No step panics. -/
theorem Delivering.returns (h : Delivering b) (a : BrokerStep) : ∃ r, b.step a = .ok r := by
  unfold Broker.step
  cases a with
  | update u =>
    dsimp only
    split
    · obtain ⟨ps, hrun, -⟩ := h.consistent.update u
      rw [hrun]
      exact ⟨_, rfl⟩
    · exact ⟨_, rfl⟩
  | offer i =>
    dsimp only
    split
    · exact ⟨_, rfl⟩
    · next pre call post hpick =>
      split
      · exact ⟨_, rfl⟩
      · next s todo htodo =>
        have hcall : call ∈ b.calls := by
          rw [pick_eq_some hpick]
          simp
        obtain ⟨sub, heap, -, hok, -⟩ :=
          offer_ok call.msg (h.consistent.live_of_mem (h.mem_subscribersOf hcall htodo))
        rw [hok]
        exact ⟨_, rfl⟩
  | publish channel message order =>
    dsimp only
    split <;> exact ⟨_, rfl⟩
  | finish i =>
    dsimp only
    split <;> exact ⟨_, rfl⟩
  | receive s | stop s | write s failed => exact ⟨_, rfl⟩

/-- In this step a call of `Publish` counts a `Subscriber` for its message. -/
def Counts (b : Broker) (a : BrokerStep) (b' : Broker) (s : Nat) (msg : Message) : Prop :=
  ∃ i pre call post todo call', a = .offer i ∧ pick i b.calls = some (pre, call, post) ∧
    call.todo = s :: todo ∧ call.msg = msg ∧ b'.calls = pre ++ call' :: post ∧
    call'.count = call.count + 1

/-- What is recorded as counted is what is counted, for subscribers of the channel. -/
private theorem Delivering.counts (h : Delivering b) {a : BrokerStep}
    (hstep : b.step a = .ok (some b')) (s : Nat) :
    (b'.counted s = b.counted s ∧ ∀ msg, ¬Counts b a b' s msg) ∨
      ∃ msg conn, Counts b a b' s msg ∧ b'.counted s = b.counted s ++ [msg] ∧
        b.ps.connectionToSubscriber.lookup conn = some s ∧
        msg.channel ∈ b.ps.channelSet conn := by
  -- only a call of `Publish` at a subscriber counts
  have hsame (ha : ∀ i, a ≠ .offer i) (hcounted : b'.counted = b.counted) :
      b'.counted s = b.counted s ∧ ∀ msg, ¬Counts b a b' s msg := by
    refine ⟨congrFun hcounted s, ?_⟩
    rintro msg ⟨i, -, -, -, -, -, hi, -⟩
    exact ha i hi
  cases StepEffect.of_step hstep with
  | update | publish | finish => exact .inl (hsame (fun _ => BrokerStep.noConfusion) rfl)
  | sender ha => exact .inl (hsame ha rfl)
  | @offer i next pre post call todo queued ps hpick htodo hoffer =>
    by_cases hs : s = next ∧ queued = true
    · obtain ⟨rfl, rfl⟩ := hs
      have hcall : call ∈ b.calls := by
        rw [pick_eq_some hpick]
        simp
      obtain ⟨conn, hconn, hchannel⟩ :=
        h.consistent.exists_conn (h.mem_subscribersOf hcall htodo)
      refine .inr ⟨call.msg, conn, ?_, if_pos ⟨rfl, rfl⟩, hconn, hchannel⟩
      exact ⟨i, pre, call, post, todo, _, rfl, hpick, htodo, rfl, rfl, rfl⟩
    · refine .inl ⟨if_neg hs, ?_⟩
      rintro msg ⟨j, pre', call₀, post', todo', call', hj, hpick', htodo', -, hcalls, hcount⟩
      cases hj
      rw [hpick] at hpick'
      cases hpick'
      rw [htodo] at htodo'
      cases htodo'
      -- the count has not grown
      have hsame := (List.cons.inj (List.append_cancel_left hcalls)).1
      rw [← hsame] at hcount
      have hqueued : queued = false := by
        cases queued
        · rfl
        · exact absurd ⟨rfl, rfl⟩ hs
      subst hqueued
      exact absurd hcount (Nat.ne_of_lt (Nat.lt_succ_self _))

end Steps

/-! ## Every interleaving -/

theorem delivering_of_reaches {b : Broker} (h : Reaches Broker.next (fun _ _ => True) .new b) :
    Delivering b := by
  apply h.invariant delivering_new
  intro b a b' hb _ hstep
  obtain ⟨r, hr⟩ := hb.returns a
  rw [Broker.next, hr] at hstep
  cases hstep
  exact hb.step hr

/-- In every interleaving: what the goroutine of a `Subscriber` has written, what it
    holds and what is queued are the messages counted for it, in order; it is counted
    for messages of channels that it has at that moment; and a call of `Publish` that
    has gone through its loop has counted the subscribers of the channel whose queues
    were not full. -/
theorem counted_messages_delivered {b : Broker}
    (h : Reaches Broker.next (fun _ _ => True) .new b) :
    (∀ s sub, b.ps.heap[s]? = some sub → ∃ sender, b.senders[s]? = some sender ∧
      sender.written ++ sender.held.toList ++ sub.messages = b.counted s ∧
      sender.written <+: b.counted s) ∧
    (∀ a b', b.next a = some b' → ∀ s,
      (b'.counted s = b.counted s ∧ ∀ msg, ¬Counts b a b' s msg) ∨
        ∃ msg conn, Counts b a b' s msg ∧ b'.counted s = b.counted s ++ [msg] ∧
          b.ps.connectionToSubscriber.lookup conn = some s ∧
          msg.channel ∈ b.ps.channelSet conn) ∧
    ∀ call ∈ b.calls, call.todo = [] →
      ↑(call.tried.map Prod.fst) = b.ps.subscribersOf call.msg.channel ∧
      call.count = call.tried.countP fun t => t.2 < messagesCap := by
  have hb := delivering_of_reaches h
  refine ⟨fun s sub hsub => ?_, fun a b' hstep s => ?_, fun call hcall htodo => ?_⟩
  · have hlt := (List.getElem?_eq_some_iff.mp hsub).1
    rw [← hb.started] at hlt
    have hsender : b.senders[s]? = some b.senders[s] := List.getElem?_eq_getElem hlt
    have hcounted := hb.accounted s
    rw [queueAt_of_getElem? hsub, Broker.senderAt, hsender] at hcounted
    refine ⟨b.senders[s], hsender, hcounted, ?_⟩
    rw [← hcounted]
    simp [List.append_assoc]
  · obtain ⟨r, hr⟩ := hb.returns a
    rw [Broker.next, hr] at hstep
    cases hstep
    exact hb.counts hr s
  · have haccounts := hb.calls call hcall
    have hsubscribers := haccounts.subscribers
    rw [htodo, List.append_nil] at hsubscribers
    exact ⟨hsubscribers, haccounts.count⟩

/-- A message on its way from `Publish` to the connection. -/
theorem counted_messages_delivered_run :
    ∃ b : Broker, Reaches Broker.next (fun _ _ => True) .new b ∧
      (b.senderAt 0).written = [⟨lit "news", lit "first"⟩] ∧
      ∀ s sub, b.ps.heap[s]? = some sub → ∃ sender, b.senders[s]? = some sender ∧
        sender.written ++ sender.held.toList ++ sub.messages = b.counted s ∧
        sender.written <+: b.counted s := by
  have hrun : (runAll Broker.next (fun _ _ => True) .new
      [.update (.subscribe 7 (lit "news")), .publish (lit "news") (lit "first") [0],
        .publish (lit "news") (lit "second") [0], .offer 0, .offer 1, .receive 0, .finish 0,
        .write 0 false, .receive 0]).any
      (fun b => (b.senderAt 0).written == [⟨lit "news", lit "first"⟩]) = true := by
    decide +kernel
  obtain ⟨b, -, hb, hwritten⟩ := exists_reaches_of_any hrun
  exact ⟨b, hb, eq_of_beq hwritten, (counted_messages_delivered hb).1⟩

end GoCache.Spec
