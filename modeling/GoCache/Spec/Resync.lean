import GoCache.Native.Leader
import GoCache.Spec.Compaction
import GoCache.Spec.WireFormat

/-!
# Resynchronisation of a follower

A follower that connects again keeps its cache, and the leader answers its `SYNC`
with a `SET` for every entry of its own. Nothing removes the keys that the leader
does not have: they stay, unless the leader's entries fill the cache and push them
out.

## Key results

- `resync_iff`: when the follower ends with the map of its leader
-/

namespace GoCache.Spec

open GoCache.Native Recency

/-- The leader sends the records of its entries. -/
private theorem sendSnapshot_messages (now : GoString → Time) (seqNum : Int64)
    (snapshot : List (GoString × SnapshotEntry)) :
    ∃ ms : List Message, (sendSnapshot now seqNum snapshot).2 = ms.flatMap Message.encode ∧
      ms.filterMap Message.record? = snapshot.filterMap (dumpEntry now) := by
  induction snapshot generalizing seqNum with
  | nil => exact ⟨[], rfl, rfl⟩
  | cons e snapshot ih =>
    obtain ⟨ms, hbytes, hrecords⟩ := ih (seqNum + 1)
    rw [sendSnapshot, hbytes]
    cases hdump : dumpEntry now e with
    | none =>
      -- an expired entry is not sent
      refine ⟨ms, rfl, ?_⟩
      rw [hrecords, List.filterMap_cons_none hdump]
    | some r =>
      refine ⟨.replicate (seqNum + 1) r :: ms, rfl, ?_⟩
      rw [List.filterMap_cons_some hdump, ← hrecords]
      rfl

/-- What `handleFollower` answers to a request. -/
private theorem handleFollower_request (c : Cache) (order : List GoString)
    (now : GoString → Time) (seqNum : Int64) (req : SyncRequest) :
    handleFollower c order now seqNum (encodeSyncRequest req) =
      .ok (.ok (req, (sendSnapshot now seqNum (c.snapshot order)).1,
        (sendSnapshot now seqNum (c.snapshot order)).2 ++
          encodeSyncEnd (sendSnapshot now seqNum (c.snapshot order)).1)) := by
  have hdecode : decodeSyncRequest (encodeSyncRequest req ++ []) = .ok (.ok req, []) :=
    WireMessage.decodes_syncRequest (.sync req) []
  rw [List.append_nil] at hdecode
  rw [handleFollower, hdecode]
  rfl

namespace WfFollower

theorem le_lastSeqNum_seen (f : WfFollower) (seqNum : Int64) :
    seqNum ≤ (f.seen seqNum).lastSeqNum := by
  unfold seen
  split
  · exact Int64.le_refl _
  · next hle => exact Int64.not_lt.mp hle

end WfFollower

/-- Every key of the follower is one of the leader, unless the leader's cache is full. -/
def NoStaleKeys (leader follower : Cache) : Prop :=
  ∀ key ∈ follower.data, key ∉ leader.data → max 1 leader.maxSize ≤ leader.len

private theorem snapshotKeysKept_iff {leader m : WfCache} (hleader : leader.NoDeadlines)
    (now : GoString → Time) :
    SnapshotKeysKept leader.cache.maxSize now m.cache leader.cache ↔
      NoStaleKeys leader.cache m.cache := by
  unfold SnapshotKeysKept NoStaleKeys
  refine forall_congr' fun key => ?_
  have hmem : key ∈ keys m.cache.entries ↔ key ∈ m.cache.data := (m.mem_data_iff key).symm
  rw [hmem]
  refine imp_congr_right fun _ => imp_congr_right fun _ => and_iff_left ?_
  -- nothing is left out of the dump
  intro k item hitem hdump
  have hfind := leader.lookup_eq k
  rw [hitem] at hfind
  exact absurd (hleader k _ hfind.symm) (deadline_of_dumpEntry_eq_none hdump)

/-- After the handshake the follower has the map of its leader, and a sequence number
    not below the leader's, exactly if it had no key that the leader does not have, or
    the leader's cache is full. -/
theorem resync_iff (leader : WfCache) (hleader : leader.NoDeadlines) (f : WfFollower)
    (hmax : f.cache.cache.maxSize = leader.cache.maxSize) {order : List GoString}
    (horder : leader.cache.Enumerates order) (id : GoString) (seqNum : Int64)
    (now : GoString → Time) (clock : Nat → Time) (rest : Bytes) :
    ∃ finalSeqNum bytes f',
      handleFollower leader.cache order now seqNum (encodeSyncRequest ⟨id, f.lastSeqNum⟩) =
        .ok (.ok (⟨id, f.lastSeqNum⟩, finalSeqNum, bytes)) ∧
      Follower.sendSyncRequest clock f.follower (bytes ++ rest) = .ok ((f', none), rest) ∧
      ((f'.cache.contents = leader.cache.contents ∧ finalSeqNum ≤ f'.lastSeqNum) ↔
        NoStaleKeys leader.cache f.cache.cache) := by
  obtain ⟨ms, hbytes, hrecords⟩ :=
    sendSnapshot_messages now seqNum (leader.cache.snapshot order)
  generalize hfinal : (sendSnapshot now seqNum (leader.cache.snapshot order)).1 = finalSeqNum
  have hanswer := handleFollower_request leader.cache order now seqNum ⟨id, f.lastSeqNum⟩
  rw [hfinal, hbytes] at hanswer
  have hsync := @WfFollower.sendSyncRequest_messages clock f ms finalSeqNum rest
  rw [← List.append_assoc] at hsync
  refine ⟨finalSeqNum, _, _, hanswer, hsync, ?_⟩
  have hseq := (f.receiveAll clock ms).le_lastSeqNum_seen finalSeqNum
  have hcap : leader.capacity = f.cache.capacity := by
    unfold WfCache.capacity capacity
    rw [hmax]
  -- the follower has stored what the leader sent, over what it had
  have hcache := congrArg Prod.snd (@WfFollower.receiveAll_eq clock f ms)
  rw [hrecords] at hcache
  have hpairs : (f.receiveAll clock ms).cache.pairs =
      putAll leader.capacity f.cache.pairs (dumped leader.cache now order) := by
    rw [hcap]
    exact (congrArg WfCache.pairs hcache).trans (pairs_mutateAll_dump ..)
  have hrestored : (f.receiveAll clock ms).cache.contents = leader.contents ↔
      SnapshotKeysKept leader.cache.maxSize now f.cache.cache leader.cache :=
    contents_restored_iff hcap rfl hpairs horder fun k entry hfind hnone =>
      absurd (hleader k entry hfind) (deadline_of_dumpEntry_eq_none hnone)
  rw [snapshotKeysKept_iff hleader] at hrestored
  show (((f.receiveAll clock ms).seen finalSeqNum).cache.contents = leader.contents ∧
    finalSeqNum ≤ ((f.receiveAll clock ms).seen finalSeqNum).lastSeqNum) ↔ _
  rw [WfFollower.cache_seen, and_iff_left hseq]
  exact hrestored

/-- A follower that has an older value of a key of its leader. -/
theorem resync_iff_known_key :
    ∃ finalSeqNum bytes f',
      handleFollower ((WfCache.new 10).set (lit "a") (lit "1") 0 0).cache [lit "a"] (fun _ => 0) 4
        (encodeSyncRequest ⟨lit "f", 0⟩) = .ok (.ok (⟨lit "f", 0⟩, finalSeqNum, bytes)) ∧
      Follower.sendSyncRequest (fun _ => 0)
        (WfFollower.mk ((WfCache.new 10).set (lit "a") (lit "0") 0 0) 0 0).follower (bytes ++ []) =
          .ok ((f', none), []) ∧
      f'.cache.contents (lit "a") = some (lit "1") := by
  have hnew : (WfCache.new 10).NoDeadlines := by
    intro k e he
    rw [WfCache.entries_new] at he
    exact nomatch he
  obtain ⟨finalSeqNum, bytes, f', hanswer, hsync, hiff⟩ :=
    resync_iff ((WfCache.new 10).set (lit "a") (lit "1") 0 0) (hnew.set _ _ 0)
      ⟨(WfCache.new 10).set (lit "a") (lit "0") 0 0, 0, 0⟩ (by decide +kernel)
      (show Cache.Enumerates _ [lit "a"] by decide) (lit "f") 4 (fun _ => 0) (fun _ => 0) []
  have hknown : NoStaleKeys ((WfCache.new 10).set (lit "a") (lit "1") 0 0).cache
      ((WfCache.new 10).set (lit "a") (lit "0") 0 0).cache := by
    -- both caches have the one key
    have hkeys : keys ((WfCache.new 10).set (lit "a") (lit "0") 0 0).entries =
        keys ((WfCache.new 10).set (lit "a") (lit "1") 0 0).entries := by
      decide +kernel
    intro key hkey hgone
    rw [WfCache.mem_data_iff] at hkey hgone
    rw [hkeys] at hkey
    exact absurd hkey hgone
  refine ⟨finalSeqNum, bytes, f', hanswer, hsync, ?_⟩
  rw [(hiff.mpr hknown).1]
  rfl

/-- A key that the leader has deleted: the follower keeps it. -/
theorem resync_keeps_deleted_key :
    ∃ finalSeqNum bytes f',
      handleFollower (Cache.new 10) [] (fun _ => 0) 4 (encodeSyncRequest ⟨lit "f", 1⟩) =
        .ok (.ok (⟨lit "f", 1⟩, finalSeqNum, bytes)) ∧
      Follower.sendSyncRequest (fun _ => 0)
        (WfFollower.mk ((WfCache.new 10).set (lit "k") (lit "v") 0 0) 1 1).follower bytes =
          .ok ((f', none), []) ∧
      (Cache.new 10).contents (lit "k") = none ∧
      f'.cache.contents (lit "k") = some (lit "v") := by
  have hanswer : handleFollower (Cache.new 10) [] (fun _ => 0) 4
      (encodeSyncRequest ⟨lit "f", 1⟩) = .ok (.ok (⟨lit "f", 1⟩, 4, encodeSyncEnd 4)) := rfl
  have hsync : (Follower.sendSyncRequest (fun _ => 0)
      (WfFollower.mk ((WfCache.new 10).set (lit "k") (lit "v") 0 0) 1 1).follower
      (encodeSyncEnd 4)).map (fun r => (r.1.1.cache.contents (lit "k"), r.1.2, r.2)) =
        .ok (some (lit "v"), none, []) := by
    decide +kernel
  obtain ⟨⟨⟨f', err⟩, rest⟩, hsync, hshows⟩ := map_eq_ok.mp hsync
  simp only [Prod.mk.injEq] at hshows
  obtain ⟨hkept, rfl, rfl⟩ := hshows
  exact ⟨4, encodeSyncEnd 4, f', hanswer, hsync, rfl, hkept⟩

end GoCache.Spec
