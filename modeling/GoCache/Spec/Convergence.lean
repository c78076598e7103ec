import GoCache.Spec.Delivery

/-!
# Convergence of a registered follower

The cache update of a write and its send to a follower are under different
locks, and the follower applies what arrives without looking at sequence
numbers. As long as the sends keep the order of the cache key by key, the
follower ends with the map of the leader.

## Key results

- `Delivers.seen`: sends in order keep the stream in step with the cache
- `follower_converges`: the follower of a leader without open requests
-/

namespace GoCache.Spec

open GoCache.Native Transition WriteLog

namespace Node

variable {f : Conn} {n n' : Node} {a : Action} {sync : Bytes} {t : Nat} {v : View}
  {ms : List Message} {sent : List Stamped}

/-- The stream of a registered follower, behind the bytes `sync` of the initial
    snapshot: with the writes on their way, the writes `sent` bring all updates
    since the first `t`, in the order of the cache key by key. -/
structure Delivers (sync : Bytes) (t : Nat) (v : View) (ms : List Message) (sent : List Stamped) :
    Prop where
  join : v.join = .registered
  wire : v.wire = sync ++ ms.flatMap Message.encode
  records : ms.filterMap Message.record? = sent.map Stamped.record
  brings : Brings Stamped.write t v.updates (sent ++ v.owed)

private theorem wire_append {wire : Bytes} (hwire : wire = sync ++ ms.flatMap Message.encode)
    (m : Message) : wire ++ m.encode = sync ++ (ms ++ [m]).flatMap Message.encode := by
  rw [hwire, List.flatMap_append, List.flatMap_singleton, List.append_assoc]

/-- Every step keeps the stream in step with the cache. -/
theorem Delivers.seen (h : Delivers sync t (n.view f) ms sent) (hseen : Seen f n a v) :
    ∃ ms' sent', Delivers sync t v ms' sent' := by
  have hjoin : n.join f = .registered := h.join
  cases hseen with
  | nothing => exact ⟨ms, sent, h⟩
  | update _ s =>
    refine ⟨ms, sent, h.join, h.wire, h.records, ?_⟩
    show Brings _ t ((n.view f).updates ++ [s]) (sent ++ ((n.view f).owed ++ [s]))
    rw [← List.append_assoc]
    exact h.brings.append_right s
  | pass _ hnot =>
    -- a request passes by a connection only before it is registered
    rw [hjoin] at hnot
    exact nomatch hnot
  | @send _ pre post e seqNum howed hfirst _ =>
    refine ⟨ms ++ [.replicate seqNum e.record], sent ++ [e], h.join, wire_append h.wire _, ?_, ?_⟩
    · rw [List.filterMap_append, h.records, List.map_append]
      rfl
    · -- the write overtakes writes to other keys only
      have hsame : SameByKey Stamped.write (sent ++ [e] ++ (pre ++ post))
          (sent ++ (n.view f).owed) :=
        SameByKey.emit (fun k => by rw [howed]) hfirst
      exact h.brings.congr hsame
  | heartbeat _ seqNum _ =>
    -- a heartbeat carries no record
    refine ⟨ms ++ [.heartbeat seqNum], sent, h.join, wire_append h.wire _, ?_, h.brings⟩
    rw [List.filterMap_append, h.records]
    exact List.append_nil _
  | syncSnapshot hother | syncEntry _ hother | syncEnd hother | addFollower hother =>
    exact nomatch hjoin.symm.trans hother

/-- When nothing is on its way, the records of the stream bring what the base
    that holds the first `t` updates lacks. -/
theorem Delivers.applyAll_eq (h : Delivers sync t v ms sent) (howed : v.owed = [])
    (m : GoString → Option GoString) :
    applyAll (applyAll m ((v.updates.take t).map Stamped.write))
        ((ms.filterMap Message.record?).map recordWrite) =
      applyAll m (v.updates.map Stamped.write) := by
  have hbrings := h.brings
  rw [howed, List.append_nil] at hbrings
  rw [h.records, List.map_map]
  exact hbrings.applyAll_eq m

/-- Client writes without TTL and eviction, each sent to the connection in order,
    next to any other steps. -/
def sentInOrder (f : Conn) (n : Node) (a : Action) : Bool := n.plain a && n.sendsInOrder f a

end Node

open Node

/-- If all sends to a registered follower keep the order of the cache key by
    key, then once all requests have completed, a follower that started with
    the same map and has applied the whole stream has the map of the leader. -/
theorem follower_converges (c : WfCache) (seqNum : Int64) (followers : List Conn)
    (hnodup : followers.Nodup) (snapshotFile : Option Bytes) (aof : Bytes) (f : Conn)
    (hf : f ∈ followers) {n : Node}
    (hrun : Reaches Node.step (fun n a => n.sentInOrder f a = true)
      (start c seqNum followers snapshotFile aof) n)
    (hdone : n.requests = []) (clock : Nat → Time) (follower : WfFollower)
    (hequal : follower.cache.contents = c.contents) :
    ∃ follower' : Follower,
      Follower.processReplicationStream clock follower.follower (n.wire f) =
        .ok ((follower', some (.parse .eof)), []) ∧
      (follower'.cache.metrics.evictionsTotal = follower.cache.evictions →
        follower'.cache.contents = n.cache.cache.contents) := by
  have htracks : Tracks c.contents n := by
    apply hrun.invariant (tracks_start ..)
    intro n a n' htracks hok hstep
    exact htracks.step (Bool.and_eq_true_iff.mp hok).1 hstep
  have hinv : Connected f n ∧ ∃ ms sent, Delivers [] 0 (n.view f) ms sent := by
    apply hrun.invariant
    · refine ⟨connected_start c seqNum hnodup snapshotFile aof f, [], [], ?_⟩
      exact ⟨if_pos hf, rfl, rfl, brings_of_sameByKey fun _ => rfl⟩
    · rintro n a n' ⟨hconn, ms, sent, hdel⟩ hok hstep
      exact ⟨hconn.step hstep,
        hdel.seen (seen_of_step hconn (Bool.and_eq_true_iff.mp hok).2 hstep)⟩
  obtain ⟨hconn, ms, sent, hdel⟩ := hinv
  -- the bytes on the wire are messages, so the follower reads them to the end
  have hwire : n.wire f = ms.flatMap Message.encode := hdel.wire
  rw [hwire, WfFollower.processReplicationStream_messages]
  refine ⟨_, rfl, fun hev => ?_⟩
  have howed : (n.view f).owed = [] := by
    show owing (owesTo f) n.requests = []
    rw [hdone]
    rfl
  calc (follower.receiveAll clock ms).cache.contents
      = applyAll follower.cache.contents ((ms.filterMap Message.record?).map recordWrite) :=
        follower.contents_receiveAll ms hev
    _ = applyAll c.contents (n.updates.map Stamped.write) := by
        rw [hequal]
        exact hdel.applyAll_eq howed c.contents
    _ = n.cache.contents := htracks.contents.symm

/-- Two writes on a leader with one follower; the second is sent first. -/
private def overtakingSends (key key' : GoString) : List Action :=
  [.set key (lit "1") 0 0, .set key' (lit "2") 0 0, .replicate 0, .replicate 1, .send 1, .send 0,
    .append 0, .append 1, .reply 0, .reply 0]

/-- A follower with an empty cache. -/
private def emptyFollower : WfFollower := ⟨WfCache.new 10, 0, 0⟩

/-- No request is open, a key has one value on the leader, and another on a
    follower that has applied the whole stream without an eviction. -/
private def shows (k leader received : GoString) (n : Node) : Bool :=
  match Follower.processReplicationStream (fun _ => 0) emptyFollower.follower (n.wire 1) with
  | .ok ((follower', some (.parse .eof)), []) =>
    n.requests.isEmpty && n.cache.cache.contents k = some leader &&
      follower'.cache.metrics.evictionsTotal = 0 && follower'.cache.contents k = some received
  | _ => false

private theorem of_shows {k leader received : GoString} {n : Node}
    (h : shows k leader received n = true) :
    ∃ follower' : Follower, n.requests = [] ∧
      Follower.processReplicationStream (fun _ => 0) emptyFollower.follower (n.wire 1) =
        .ok ((follower', some (.parse .eof)), []) ∧
      follower'.cache.metrics.evictionsTotal = 0 ∧
      n.cache.cache.contents k = some leader ∧ follower'.cache.contents k = some received := by
  unfold shows at h
  split at h
  · next follower' hstream =>
    simp only [Bool.and_eq_true, List.isEmpty_iff, decide_eq_true_eq] at h
    exact ⟨follower', h.1.1.1, hstream, h.1.2, h.1.1.2, h.2⟩
  · exact nomatch h

/-- Writes to two keys are sent in the other order, and the follower converges. -/
theorem follower_converges_two_keys :
    ∃ n, ∃ follower' : Follower, Reaches Node.step (fun n a => n.sentInOrder 1 a = true)
        (start (WfCache.new 10) 0 [1] none []) n ∧
      n.requests = [] ∧
      Follower.processReplicationStream (fun _ => 0) emptyFollower.follower (n.wire 1) =
        .ok ((follower', some (.parse .eof)), []) ∧
      follower'.cache.contents (lit "a") = some (lit "1") ∧
      follower'.cache.contents = n.cache.cache.contents := by
  have hrun : (runAll Node.step (fun n a => n.sentInOrder 1 a = true)
      (start (WfCache.new 10) 0 [1] none []) (overtakingSends (lit "a") (lit "b"))).any
        (shows (lit "a") (lit "1") (lit "1")) = true := by
    decide +kernel
  obtain ⟨n, _, hreach, hshows⟩ := exists_reaches_of_any hrun
  obtain ⟨follower', hdone, hstream, hev, _, hval⟩ := of_shows hshows
  obtain ⟨other, hother, hcontents⟩ := follower_converges (WfCache.new 10) 0 [1] (by simp) none []
    1 (by simp) hreach hdone (fun _ => 0) emptyFollower rfl
  obtain rfl : follower' = other := by simpa using hstream.symm.trans hother
  exact ⟨n, follower', hreach, hdone, hstream, hval, hcontents hev⟩

/-- Two writes to one key: the second is sent before the first, so the follower
    ends with the value that the leader has overwritten. -/
theorem send_overtakes :
    ∃ n, ∃ follower' : Follower, Reaches Node.step (fun n a => n.plain a = true)
        (start (WfCache.new 10) 0 [1] none []) n ∧
      n.requests = [] ∧
      Follower.processReplicationStream (fun _ => 0) emptyFollower.follower (n.wire 1) =
        .ok ((follower', some (.parse .eof)), []) ∧
      follower'.cache.metrics.evictionsTotal = 0 ∧
      n.cache.cache.contents (lit "k") = some (lit "2") ∧
      follower'.cache.contents (lit "k") = some (lit "1") := by
  have hrun : (runAll Node.step (fun n a => n.plain a = true)
      (start (WfCache.new 10) 0 [1] none []) (overtakingSends (lit "k") (lit "k"))).any
        (shows (lit "k") (lit "2") (lit "1")) = true := by
    decide +kernel
  obtain ⟨n, _, hreach, hshows⟩ := exists_reaches_of_any hrun
  obtain ⟨follower', hobs⟩ := of_shows hshows
  exact ⟨n, follower', hreach, hobs⟩

end GoCache.Spec
