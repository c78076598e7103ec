import GoCache.Spec.Convergence
import GoCache.Spec.Dump

/-!
# A follower that joins

`handleFollower` takes a snapshot of the cache, sends it, and registers the
follower behind `SYNCEND`. A write is sent to the follower if its request copies
the list after that. So a write reaches the follower in the snapshot, in the
stream, in both, or in neither; in the last case it is lost for the follower.

As long as the requests that copy the list too early are those whose write is in
the snapshot, and the list is copied in the order of the cache key by key, the
stream brings what the snapshot lacks, and at most repeats its last writes.

## Key results

- `Joins.seen`: what every step of the join preserves
- `joined_follower_converges`: a follower that has joined
-/

namespace GoCache.Spec

open GoCache.Native Transition WriteLog

namespace Node

variable {f : Conn} {n : Node} {a : Action} {t : Nat} {v : View}
  {m : GoString → Option GoString}

/-- The write of the request is in the snapshot for the follower, unless that
    has not been taken yet. -/
def inSnapshot (f : Conn) (n : Node) (i : Nat) : Bool :=
  match n.join f, pick i n.requests with
  | .sending stamp _, some (_, r, _) | .ended stamp, some (_, r, _) => r.entry.stamp < stamp
  | _, _ => true

/-- A request that copies the follower list before the follower is in it is the
    oldest on its key to do so, and its write is in the snapshot. -/
def copiesInTime (f : Conn) (n : Node) : Action → Bool
  | .replicate i => (n.join f).isRegistered || (n.inOrder (owesTo f) i && n.inSnapshot f i)
  | _ => true

/-- The records leave the map of the leader after its first `t` updates. -/
def Holds (m : GoString → Option GoString) (t : Nat) (updates : List Stamped)
    (records : List Record) : Prop :=
  applyAll (fun _ => none) (records.map recordWrite) =
    applyAll m ((updates.take t).map Stamped.write)

/-- How far the follower has joined, and what has been sent to it. Until the
    snapshot is taken, the writes on their way are the last ones on every key;
    from then on they bring what the snapshot lacks. -/
inductive Joins (m : GoString → Option GoString) (v : View) : Prop where
  | absent (hjoin : v.join = .absent) (hwire : v.wire = [])
      (hsuffix : ∀ k, onKey Stamped.write k v.owed <:+ onKey Stamped.write k v.updates)
  | sending {t : Nat} {rest : List (GoString × SnapshotEntry)} {ms : List Message}
      (hjoin : v.join = .sending t rest) (hbrings : Brings Stamped.write t v.updates v.owed)
      (hrest : ∀ e ∈ rest, e.2.expiresAt = 0) (hwire : v.wire = ms.flatMap Message.encode)
      (hholds : Holds m t v.updates (ms.filterMap Message.record? ++ rest.map entryRecord))
  | ended {t : Nat} {ms : List Message} {seqNum : Int64} (hjoin : v.join = .ended t)
      (hbrings : Brings Stamped.write t v.updates v.owed)
      (hwire : v.wire = ms.flatMap Message.encode ++ encodeSyncEnd seqNum)
      (hholds : Holds m t v.updates (ms.filterMap Message.record?))
  | registered {t : Nat} {sync ms : List Message} {seqNum : Int64} {sent : List Stamped}
      (hdelivers : Delivers (sync.flatMap Message.encode ++ encodeSyncEnd seqNum) t v ms sent)
      (hholds : Holds m t v.updates (sync.filterMap Message.record?))

/-! ## Steps -/

/-- Later updates do not change the first ones. -/
theorem Holds.update {us : List Stamped} {records : List Record} (h : Holds m t us records)
    (hle : t ≤ us.length) (s : Stamped) : Holds m t (us ++ [s]) records := by
  unfold Holds
  rw [h, List.take_append_of_le_length hle]

theorem Holds.seen {records : List Record} (h : Holds m t (n.view f).updates records)
    (hle : t ≤ (n.view f).updates.length) (hseen : Seen f n a v) : Holds m t v.updates records := by
  cases hseen with
  | update _ s => exact h.update hle s
  | _ => exact h

variable {i : Nat} {pre post : List Request} {e : Stamped}

/-- What the requests owe before one of them copies the list. -/
private theorem owed_eq (hpick : pick i n.requests = some (pre, ⟨e, .replicate⟩, post)) :
    (n.view f).owed = owing (owesTo f) pre ++ e :: owing (owesTo f) post := by
  rw [view, pick_eq_some hpick]
  exact owing_of_pos rfl

private theorem first_of_copiesInTime (hok : n.copiesInTime f (.replicate i) = true)
    (hjoin : (n.join f).isRegistered = false)
    (hpick : pick i n.requests = some (pre, ⟨e, .replicate⟩, post)) :
    NotOnKeyOf Stamped.write e (owing (owesTo f) pre) := by
  rw [copiesInTime, hjoin, Bool.false_or, Bool.and_eq_true] at hok
  exact notOnKeyOf_of_inOrder hok.1 hpick

private theorem stamp_of_copiesInTime (hok : n.copiesInTime f (.replicate i) = true)
    (hjoin : (∃ rest, n.join f = .sending t rest) ∨ n.join f = .ended t)
    (hpick : pick i n.requests = some (pre, ⟨e, .replicate⟩, post)) : e.stamp < t := by
  rcases hjoin with ⟨rest, hjoin⟩ | hjoin
  all_goals
    simp only [copiesInTime, inSnapshot, hjoin, hpick, Join.isRegistered, Bool.false_or,
      Bool.and_eq_true, decide_eq_true_eq] at hok
    exact hok.2

/-- A request whose write is in the snapshot copies the list too early. -/
private theorem brings_pass (htracks : Tracks m n)
    (hbrings : Brings Stamped.write t (n.view f).updates (n.view f).owed)
    (hok : n.copiesInTime f (.replicate i) = true) (hnot : (n.join f).isRegistered = false)
    (hjoin : (∃ rest, n.join f = .sending t rest) ∨ n.join f = .ended t)
    (hpick : pick i n.requests = some (pre, ⟨e, .replicate⟩, post)) :
    Brings Stamped.write t (n.view f).updates
      (owing (owesTo f) pre ++ owing (owesTo f) post) := by
  rw [owed_eq hpick] at hbrings
  exact hbrings.remove (first_of_copiesInTime hok hnot hpick)
    (htracks.notMem_drop (stamp_of_copiesInTime hok hjoin hpick))

/-- The snapshot holds all updates made so far. -/
private theorem holds_snapshot (htracks : Tracks m n) {order : List GoString}
    (horder : n.cache.cache.Enumerates order) :
    Holds m n.updates.length n.updates ((n.cache.cache.snapshot order).map entryRecord) := by
  unfold Holds
  rw [List.take_length, ← htracks.contents]
  funext k
  rw [applyAll_snapshot horder, Option.or_none]

/-- Every step keeps the follower on its way. -/
theorem Joins.seen (h : Joins m (n.view f)) (htracks : Tracks m n)
    (hdeadlines : n.cache.NoDeadlines) (hok : n.copiesInTime f a = true) (hseen : Seen f n a v) :
    Joins m v := by
  cases h with
  | absent hjoin hwire hsuffix =>
    have hjoin : n.join f = .absent := hjoin
    cases hseen with
    | nothing => exact .absent hjoin hwire hsuffix
    | update _ s => exact .absent hjoin hwire (suffix_append_right hsuffix s)
    | pass hpick hnot =>
      refine .absent hjoin hwire fun k => ?_
      have hold := hsuffix k
      rw [owed_eq hpick] at hold
      exact (onKey_suffix_of_remove (first_of_copiesInTime hok hnot hpick) k).trans hold
    | syncSnapshot _ horder =>
      have hwire : (n.view f).wire = ([] : List Message).flatMap Message.encode := hwire
      exact .sending rfl (brings_of_suffix hsuffix) (expiresAt_of_mem_snapshot hdeadlines horder)
        hwire (holds_snapshot htracks horder)
    | send _ _ _ hother | heartbeat _ _ hother => rw [hjoin] at hother; cases hother
    | syncEntry _ hother | syncEnd hother | addFollower hother =>
      cases hjoin.symm.trans hother
  | @sending t rest ms hjoin hbrings hrest hwire hholds =>
    have hjoin : n.join f = .sending t rest := hjoin
    cases hseen with
    | nothing => exact .sending hjoin hbrings hrest hwire hholds
    | update _ s =>
      exact .sending hjoin (hbrings.append_right s) hrest hwire (hholds.update hbrings.le s)
    | pass hpick hnot =>
      exact .sending hjoin (brings_pass htracks hbrings hok hnot (.inl ⟨rest, hjoin⟩) hpick) hrest
        hwire hholds
    | @syncEntry _ e rest' now hother =>
      obtain ⟨rfl, rfl⟩ := Join.sending.inj (hjoin.symm.trans hother)
      -- the entry has no deadline, so it is sent
      rw [dumpEntry_of_expiresAt (hrest e List.mem_cons_self)]
      let message := Message.replicate (n.seqNum + 1) (entryRecord e)
      have hwire' : n.wire f ++ message.encode = (ms ++ [message]).flatMap Message.encode := by
        rw [List.flatMap_append, List.flatMap_singleton, ← hwire]
        rfl
      have hrecords : (ms ++ [message]).filterMap Message.record? ++ rest'.map entryRecord =
          ms.filterMap Message.record? ++ (e :: rest').map entryRecord := by
        simp [message, Message.record?]
      exact .sending rfl hbrings (fun e' he' => hrest e' (List.mem_cons_of_mem _ he')) hwire'
        (hrecords ▸ hholds)
    | syncEnd hother =>
      obtain ⟨rfl, rfl⟩ := Join.sending.inj (hjoin.symm.trans hother)
      rw [List.map_nil, List.append_nil] at hholds
      exact .ended rfl hbrings (congrArg (· ++ encodeSyncEnd n.seqNum) hwire) hholds
    | send _ _ _ hother | heartbeat _ _ hother => rw [hjoin] at hother; cases hother
    | syncSnapshot hother | addFollower hother => cases hjoin.symm.trans hother
  | @ended t ms seqNum hjoin hbrings hwire hholds =>
    have hjoin : n.join f = .ended t := hjoin
    cases hseen with
    | nothing => exact .ended hjoin hbrings hwire hholds
    | update _ s => exact .ended hjoin (hbrings.append_right s) hwire (hholds.update hbrings.le s)
    | pass hpick hnot =>
      exact .ended hjoin (brings_pass htracks hbrings hok hnot (.inr hjoin) hpick) hwire hholds
    | addFollower hother =>
      obtain rfl := Join.ended.inj (hjoin.symm.trans hother)
      have hdelivers : Delivers (ms.flatMap Message.encode ++ encodeSyncEnd seqNum) t
          { n.view f with join := .registered } [] [] :=
        ⟨rfl, hwire.trans (List.append_nil _).symm, rfl, hbrings⟩
      exact .registered hdelivers hholds
    | send _ _ _ hother | heartbeat _ _ hother => rw [hjoin] at hother; cases hother
    | syncSnapshot hother | syncEntry _ hother | syncEnd hother =>
      cases hjoin.symm.trans hother
  | registered hdelivers hholds =>
    obtain ⟨ms', sent', hdelivers'⟩ := hdelivers.seen hseen
    exact .registered hdelivers' (hholds.seen hdelivers.brings.le hseen)

/-- Client writes without TTL and eviction, each copying the follower list and
    sending to the connection in order, next to any other steps. -/
def joinedInOrder (f : Conn) (n : Node) (a : Action) : Bool :=
  n.sentInOrder f a && n.copiesInTime f a

/-- A plain step adds no deadline. -/
theorem noDeadlines_step {n' : Node} (h : n.cache.NoDeadlines) (hplain : n.plain a = true)
    (hstep : n.step a = some n') : n'.cache.NoDeadlines := by
  cases effect_of_step hstep with
  | set key value ttl now =>
    simp only [plain, Bool.and_eq_true, decide_eq_true_eq] at hplain
    obtain rfl := hplain.1
    exact h.set key value now
  | delete key => exact h.delete key
  | _ => exact h

end Node

open Node

/-- If all sends to a joining follower keep the order of the cache key by key,
    and so do the copies of the follower list made before it is registered, and
    these are made by requests whose write is in its snapshot, then once it has
    joined and all requests have completed, a follower that started empty and
    has applied everything sent to it has the map of the leader. -/
theorem joined_follower_converges (c : WfCache) (hdeadlines : c.NoDeadlines) (seqNum : Int64)
    (followers : List Conn) (hnodup : followers.Nodup) (snapshotFile : Option Bytes) (aof : Bytes)
    (f : Conn) (hf : f ∉ followers) {n : Node}
    (hrun : Reaches Node.step (fun n a => n.joinedInOrder f a = true)
      (start c seqNum followers snapshotFile aof) n)
    (hjoined : n.join f = .registered) (hdone : n.requests = []) (clock : Nat → Time)
    (maxSize : Int) (lastSeqNum : Int64) :
    ∃ follower' : Follower,
      Follower.follow clock ⟨Cache.new maxSize, lastSeqNum, 0⟩ (n.wire f) =
        .ok ((follower', some (.parse .eof)), []) ∧
      (follower'.cache.metrics.evictionsTotal = 0 →
        follower'.cache.contents = n.cache.cache.contents) := by
  have hinv : (Tracks c.contents n ∧ n.cache.NoDeadlines) ∧
      Connected f n ∧ Joins c.contents (n.view f) := by
    apply hrun.invariant
    · refine ⟨⟨tracks_start .., hdeadlines⟩, connected_start c seqNum hnodup snapshotFile aof f, ?_⟩
      exact .absent (if_neg hf) rfl fun k => List.suffix_refl _
    · rintro n a n' ⟨⟨htracks, hdeadlines⟩, hconn, hjoins⟩ hok hstep
      simp only [joinedInOrder, sentInOrder, Bool.and_eq_true] at hok
      obtain ⟨⟨hplain, hsends⟩, hcopies⟩ := hok
      exact ⟨⟨htracks.step hplain hstep, noDeadlines_step hdeadlines hplain hstep⟩,
        hconn.step hstep,
        hjoins.seen htracks hdeadlines hcopies (seen_of_step hconn hsends hstep)⟩
  obtain ⟨⟨htracks, _⟩, _, hjoins⟩ := hinv
  cases hjoins with
  | absent hjoin | sending hjoin | ended hjoin => exact nomatch hjoined.symm.trans hjoin
  | @registered t sync ms endSeqNum sent hdelivers hholds =>
    let follower : WfFollower := ⟨WfCache.new maxSize, lastSeqNum, 0⟩
    have hwire : n.wire f = sync.flatMap Message.encode ++
        (encodeSyncEnd endSeqNum ++ ms.flatMap Message.encode) := by
      rw [← List.append_assoc]
      exact hdelivers.wire
    have hfollower : (⟨Cache.new maxSize, lastSeqNum, 0⟩ : Follower) = follower.follower := rfl
    rw [hwire, hfollower, follower.follow_messages]
    refine ⟨_, rfl, fun hev => ?_⟩
    have howed : (n.view f).owed = [] := by
      show owing (owesTo f) n.requests = []
      rw [hdone]
      rfl
    calc (((follower.receiveAll clock sync).seen endSeqNum).receiveAll clock ms).cache.contents
        = applyAll (applyAll (fun _ => none) ((sync.filterMap Message.record?).map recordWrite))
            ((ms.filterMap Message.record?).map recordWrite) :=
          follower.contents_follow sync ms endSeqNum hev
      _ = applyAll c.contents (n.updates.map Stamped.write) := by
          rw [hholds]
          exact hdelivers.applyAll_eq howed c.contents
      _ = n.cache.contents := htracks.contents.symm

/-- The follower on connection 1 has joined and no request is open; a key has one
    value on the leader, and another on the follower, which started empty and has
    applied everything sent to it without an eviction. -/
private def joinShows (k : GoString) (leader received : Option GoString) (n : Node) : Bool :=
  match Follower.follow (fun _ => 0) ⟨Cache.new 10, 0, 0⟩ (n.wire 1), n.join 1 with
  | .ok ((follower', some (.parse .eof)), []), .registered =>
    n.requests.isEmpty && follower'.cache.metrics.evictionsTotal = 0 &&
      n.cache.cache.contents k = leader && follower'.cache.contents k = received
  | _, _ => false

private theorem of_joinShows {k : GoString} {leader received : Option GoString} {n : Node}
    (h : joinShows k leader received n = true) :
    ∃ follower' : Follower, n.join 1 = .registered ∧ n.requests = [] ∧
      Follower.follow (fun _ => 0) ⟨Cache.new 10, 0, 0⟩ (n.wire 1) =
        .ok ((follower', some (.parse .eof)), []) ∧
      follower'.cache.metrics.evictionsTotal = 0 ∧
      n.cache.cache.contents k = leader ∧ follower'.cache.contents k = received := by
  unfold joinShows at h
  split at h
  · next follower' hfollow hjoin =>
    simp only [Bool.and_eq_true, List.isEmpty_iff, decide_eq_true_eq] at h
    exact ⟨follower', hjoin, h.1.1.1, hfollow, h.1.1.2, h.1.2, h.2⟩
  · exact nomatch h

/-- One write reaches the follower in the snapshot, a second one in the stream. -/
theorem joined_follower_converges_both :
    ∃ n, ∃ follower' : Follower, Reaches Node.step (fun n a => n.joinedInOrder 1 a = true)
        (start (WfCache.new 10) 0 [] none []) n ∧
      Follower.follow (fun _ => 0) ⟨Cache.new 10, 0, 0⟩ (n.wire 1) =
        .ok ((follower', some (.parse .eof)), []) ∧
      follower'.cache.contents (lit "b") = some (lit "2") ∧
      follower'.cache.contents = n.cache.cache.contents := by
  have hrun : (runAll Node.step (fun n a => n.joinedInOrder 1 a = true)
      (start (WfCache.new 10) 0 [] none [])
      [.set (lit "a") (lit "1") 0 0, .syncSnapshot 1 [lit "a"], .replicate 0, .syncEntry 1 0,
        .set (lit "b") (lit "2") 0 0, .syncEnd 1, .addFollower 1, .replicate 1, .send 1,
        .append 0, .append 1, .reply 0, .reply 0]).any
        (joinShows (lit "b") (some (lit "2")) (some (lit "2"))) = true := by
    decide +kernel
  obtain ⟨n, _, hreach, hshows⟩ := exists_reaches_of_any hrun
  obtain ⟨follower', hjoin, hdone, hfollow, hev, _, hval⟩ := of_joinShows hshows
  have hdeadlines : (WfCache.new 10).NoDeadlines := fun k e he => nomatch he
  obtain ⟨other, hother, hcontents⟩ := joined_follower_converges (WfCache.new 10) hdeadlines 0 []
    (by simp) none [] 1 (by simp) hreach hjoin hdone (fun _ => 0) 10 0
  obtain rfl : follower' = other := by simpa using hfollow.symm.trans hother
  exact ⟨n, follower', hreach, hfollow, hval, hcontents hev⟩

/-- A write between the snapshot and the registration is in neither: it comes too
    late for the snapshot, and its request copies the list too early. -/
theorem join_loses_write :
    ∃ n, ∃ follower' : Follower, Reaches Node.step (fun n a => n.sentInOrder 1 a = true)
        (start (WfCache.new 10) 0 [] none []) n ∧
      n.join 1 = .registered ∧ n.requests = [] ∧
      Follower.follow (fun _ => 0) ⟨Cache.new 10, 0, 0⟩ (n.wire 1) =
        .ok ((follower', some (.parse .eof)), []) ∧
      follower'.cache.metrics.evictionsTotal = 0 ∧
      n.cache.cache.contents (lit "k") = some (lit "v") ∧
      follower'.cache.contents (lit "k") = none := by
  have hrun : (runAll Node.step (fun n a => n.sentInOrder 1 a = true)
      (start (WfCache.new 10) 0 [] none [])
      [.syncSnapshot 1 [], .set (lit "k") (lit "v") 0 0, .replicate 0, .append 0, .reply 0,
        .syncEnd 1, .addFollower 1]).any (joinShows (lit "k") (some (lit "v")) none) = true := by
    decide +kernel
  obtain ⟨n, _, hreach, hshows⟩ := exists_reaches_of_any hrun
  obtain ⟨follower', hobs⟩ := of_joinShows hshows
  exact ⟨n, follower', hreach, hobs⟩

end GoCache.Spec
