import GoCache.Spec.Resync
import GoCache.Spec.Seconds

/-!
# Deadlines through files and followers

An entry with a deadline is written out with the whole seconds it has left, and
those who read it take zero seconds for no deadline. An entry in its last second
comes back without a deadline.

## Key results

- `seconds_mul_pos_iff`, `second_le_until_iff`: the remaining time in whole seconds
- `deadline_kept_iff`: when an entry that is written out keeps a deadline
-/

namespace GoCache.Spec

open GoCache.Native Recency

/-! ## Whole seconds -/

theorem seconds_mul_pos_iff {d : Duration} (h : 0 ≤ d) :
    0 < d.seconds * second ↔ second ≤ d := by
  have hpos : 0 ≤ d.toInt := Int64.le_iff_toInt_le.mp h
  obtain ⟨hnonneg, hfits⟩ := toInt_seconds_nonneg_fits hpos
  have hiff := seconds_pos_iff hpos
  rw [Int64.lt_iff_toInt_lt, Int64.le_iff_toInt_le, toInt_mul_second hnonneg hfits, toInt_second,
    Int64.toInt_zero]
  omega

section Until

variable {t now : Nat}

/-- The difference of two instants, cut off at the limits. -/
theorem toInt_until :
    (Time.until t now).toInt = max (-2 ^ 63) (min (2 ^ 63 - 1) ((t : Int) - now)) := by
  unfold Time.until
  dsimp only
  split
  · rw [Int64.toInt_minValue]
    omega
  · split
    · rw [Int64.toInt_maxValue]
      omega
    · rw [Int64.toInt_ofInt_of_le (by omega) (by omega)]
      omega

theorem until_neg_iff : Time.until t now < 0 ↔ t < now := by
  rw [Int64.lt_iff_toInt_lt, toInt_until, Int64.toInt_zero]
  omega

theorem second_le_until_iff : second ≤ Time.until t now ↔ now + 1000000000 ≤ t := by
  rw [Int64.le_iff_toInt_le, toInt_until, toInt_second]
  omega

end Until

/-! ## An entry that is written out -/

/-- The cache has an entry with a deadline for the key. -/
def HasDeadline (c : Cache) (key : GoString) : Prop :=
  ∃ item, c.data.lookup key = some item ∧ item.expiresAt ≠ 0

/-- An entry that is set has a deadline if it is set with a TTL. -/
private theorem hasDeadline_set (c : WfCache) (key value : GoString) (ttl : Duration) (now : Time) :
    HasDeadline (c.set key value ttl now).cache key ↔ 0 < ttl := by
  have hlookup := (c.set key value ttl now).lookup_eq key
  rw [WfCache.entries_set, find?_put_self] at hlookup
  obtain ⟨item, hitem, hentry⟩ := Option.map_eq_some_iff.mp hlookup
  have hexpires : item.expiresAt = Cache.expiry ttl now := congrArg SnapshotEntry.expiresAt hentry
  have hadd : 0 < ttl → now.add ttl ≠ 0 := by
    intro hpos hzero
    have hpos : 0 < ttl.toInt := Int64.lt_iff_toInt_lt.mp hpos
    have hsum : (now : Int) + ttl.toInt ≤ 0 := Int.toNat_eq_zero.mp hzero
    have hnow : 0 ≤ (now : Int) := Int.natCast_nonneg now
    omega
  constructor
  · rintro ⟨item', hitem', hne⟩
    rw [hitem] at hitem'
    cases hitem'
    by_contra hnot
    rw [hexpires, Cache.expiry, if_neg hnot] at hne
    exact hne rfl
  · intro hpos
    refine ⟨item, hitem, ?_⟩
    rw [hexpires, Cache.expiry, if_pos hpos]
    exact hadd hpos

/-- The entry has expired when it is written out, or has a second left at least. -/
def NotInLastSecond (expiresAt now : Nat) : Prop :=
  expiresAt < now ∨ now + 1000000000 ≤ expiresAt

/-- What is written for an entry with a deadline, and whether that gives it a deadline
    again. -/
private theorem dumpEntry_deadline {e : GoString × SnapshotEntry} (he : e.2.expiresAt ≠ 0)
    (now : GoString → Time) :
    (dumpEntry now e = none ∧ NotInLastSecond e.2.expiresAt (now e.1)) ∨
      ∃ ttlSeconds, dumpEntry now e = some (.set e.1 e.2.value ttlSeconds) ∧
        (0 < ttlSeconds * second ↔ NotInLastSecond e.2.expiresAt (now e.1)) := by
  have hzero : e.2.expiresAt.isZero = false := by
    unfold Time.isZero
    simpa using he
  unfold dumpEntry
  rw [hzero, if_neg Bool.false_ne_true]
  split
  · next hneg => exact .inl ⟨rfl, .inl (until_neg_iff.mp hneg)⟩
  · next hpos =>
    refine .inr ⟨_, rfl, ?_⟩
    rw [seconds_mul_pos_iff (Int64.not_lt.mp hpos), second_le_until_iff]
    exact (or_iff_right (fun hlt => hpos (until_neg_iff.mpr hlt))).symm

section Readers

variable {key : GoString} {entry : SnapshotEntry} {now : Time}

/-- Nothing is written, or a record that sets the key. -/
private theorem dump_cases (he : entry.expiresAt ≠ 0) :
    (dump (fun _ => now) [(key, entry)] = [] ∧ NotInLastSecond entry.expiresAt now) ∨
      ∃ ttlSeconds,
        dump (fun _ => now) [(key, entry)] = encodeLog [.set key entry.value ttlSeconds] ∧
        dump (fun _ => now) [(key, entry)] ≠ [] ∧
        (0 < ttlSeconds * second ↔ NotInLastSecond entry.expiresAt now) := by
  rcases @dumpEntry_deadline (key, entry) he fun _ => now with ⟨hnone, hcond⟩ | ⟨s, hsome, hcond⟩
  · refine .inl ⟨?_, hcond⟩
    rw [dump, List.filterMap_cons_none hnone]
    rfl
  · have hdump : dump (fun _ => now) [(key, entry)] = encodeLog [.set key entry.value s] := by
      rw [dump, List.filterMap_cons_some hsome]
      rfl
    refine .inr ⟨s, hdump, ?_, hcond⟩
    rw [hdump, encodeLog, List.flatMap_singleton]
    exact encode_ne_nil _

private theorem loadSnapshot_keeps_iff (he : entry.expiresAt ≠ 0) (c : WfCache)
    (clock : Nat → Time) :
    ∃ n c', loadSnapshot clock c.cache (dump (fun _ => now) [(key, entry)]) = .ok (n, c') ∧
      ((dump (fun _ => now) [(key, entry)] = [] ∨ HasDeadline c' key) ↔
        NotInLastSecond entry.expiresAt now) := by
  rcases @dump_cases key entry now he with ⟨hnil, hcond⟩ | ⟨s, hdump, hne, hcond⟩
  · rw [hnil]
    exact ⟨0, c.cache, rfl, iff_of_true (.inl rfl) hcond⟩
  · refine ⟨1, (c.set key entry.value (s * second) (clock 0)).cache, ?_, ?_⟩
    · rw [hdump, loadSnapshot_eq, snapshotMutations_encodeLog]
      rfl
    · rw [or_iff_right hne, hasDeadline_set]
      exact hcond

private theorem recoverAOF_keeps_iff (he : entry.expiresAt ≠ 0) (c : WfCache)
    (clock : Nat → Time) :
    ∃ c', recoverAOF clock c.cache none (some (dump (fun _ => now) [(key, entry)])) = .ok c' ∧
      ((dump (fun _ => now) [(key, entry)] = [] ∨ HasDeadline c' key) ↔
        NotInLastSecond entry.expiresAt now) := by
  rcases @dump_cases key entry now he with ⟨hnil, hcond⟩ | ⟨s, hdump, hne, hcond⟩
  · rw [hnil]
    exact ⟨c.cache, rfl, iff_of_true (.inl rfl) hcond⟩
  · refine ⟨(c.set key entry.value (s * second) (clock 0)).cache, ?_, ?_⟩
    · rw [hdump, recoverAOF_eq, recoveryMutations_encodeLog]
      rfl
    · rw [or_iff_right hne, hasDeadline_set]
      exact hcond

private theorem sendSyncRequest_keeps_iff (he : entry.expiresAt ≠ 0) (f : WfFollower)
    (clock : Nat → Time) (seqNum : Int64) :
    ∃ f', Follower.sendSyncRequest clock f.follower
        ((sendSnapshot (fun _ => now) seqNum [(key, entry)]).2 ++ encodeSyncEnd (seqNum + 1)) =
          .ok ((f', none), []) ∧
      (((sendSnapshot (fun _ => now) seqNum [(key, entry)]).2 = [] ∨ HasDeadline f'.cache key) ↔
        NotInLastSecond entry.expiresAt now) := by
  rcases @dumpEntry_deadline (key, entry) he fun _ => now with ⟨hnone, hcond⟩ | ⟨s, hsome, hcond⟩
  · have hbytes : (sendSnapshot (fun _ => now) seqNum [(key, entry)]).2 = [] := by
      rw [sendSnapshot, hnone]
      rfl
    have hsync := @WfFollower.sendSyncRequest_messages clock f [] (seqNum + 1) []
    rw [List.append_nil] at hsync
    rw [hbytes]
    exact ⟨_, hsync, iff_of_true (.inl rfl) hcond⟩
  · have hbytes : (sendSnapshot (fun _ => now) seqNum [(key, entry)]).2 =
        [Message.replicate (seqNum + 1) (.set key entry.value s)].flatMap Message.encode := by
      rw [sendSnapshot, hsome]
      rfl
    have hne : (sendSnapshot (fun _ => now) seqNum [(key, entry)]).2 ≠ [] := by
      rw [hbytes]
      exact List.cons_ne_nil _ _
    have hsync := @WfFollower.sendSyncRequest_messages clock f
      [.replicate (seqNum + 1) (.set key entry.value s)] (seqNum + 1) []
    rw [List.append_nil, ← hbytes] at hsync
    refine ⟨_, hsync, ?_⟩
    rw [or_iff_right hne]
    show HasDeadline (WfFollower.seen (WfFollower.seen _ _) _).cache.cache key ↔ _
    rw [WfFollower.cache_seen, WfFollower.cache_seen, hasDeadline_set]
    exact hcond

end Readers

/-- An entry with a deadline is written out at some time, to the snapshot file, the
    log or a follower, and is read into any cache: it is left out or has a deadline
    again exactly if it was not in its last second. -/
theorem deadline_kept_iff (key : GoString) (entry : SnapshotEntry) (he : entry.expiresAt ≠ 0)
    (now : Time) (c : WfCache) (f : WfFollower) (clock : Nat → Time) (seqNum : Int64) :
    (∃ n c', loadSnapshot clock c.cache (dump (fun _ => now) [(key, entry)]) = .ok (n, c') ∧
      ((dump (fun _ => now) [(key, entry)] = [] ∨ HasDeadline c' key) ↔
        NotInLastSecond entry.expiresAt now)) ∧
    (∃ c', recoverAOF clock c.cache none (some (dump (fun _ => now) [(key, entry)])) = .ok c' ∧
      ((dump (fun _ => now) [(key, entry)] = [] ∨ HasDeadline c' key) ↔
        NotInLastSecond entry.expiresAt now)) ∧
    ∃ f', Follower.sendSyncRequest clock f.follower
        ((sendSnapshot (fun _ => now) seqNum [(key, entry)]).2 ++ encodeSyncEnd (seqNum + 1)) =
          .ok ((f', none), []) ∧
      (((sendSnapshot (fun _ => now) seqNum [(key, entry)]).2 = [] ∨ HasDeadline f'.cache key) ↔
        NotInLastSecond entry.expiresAt now) :=
  ⟨loadSnapshot_keeps_iff he c clock, recoverAOF_keeps_iff he c clock,
    sendSyncRequest_keeps_iff he f clock seqNum⟩

/-- An entry with five seconds left, read from the log. -/
theorem deadline_kept_iff_five_seconds :
    ∃ c', recoverAOF (fun _ => 9) (Cache.new 10) none
        (some (dump (fun _ => 1) [(lit "k", ⟨lit "v", 5000000001⟩)])) = .ok c' ∧
      (dump (fun _ => 1) [(lit "k", ⟨lit "v", 5000000001⟩)] = [] ∨ HasDeadline c' (lit "k")) := by
  obtain ⟨c', hc', hiff⟩ := (deadline_kept_iff (lit "k") ⟨lit "v", 5000000001⟩ (by decide) 1
    (WfCache.new 10) ⟨WfCache.new 10, 0, 0⟩ (fun _ => 9) 0).2.1
  exact ⟨c', hc', hiff.mpr (.inr (by decide))⟩

/-- An entry with half a second left comes back without a deadline, from the snapshot
    file, from the log and at a follower. -/
theorem deadline_lost_in_last_second :
    ∃ c₁ c₂ f₃ item₁ item₂ item₃,
      loadSnapshot (fun _ => 9) (Cache.new 10)
        (dump (fun _ => 1) [(lit "k", ⟨lit "v", 500000001⟩)]) = .ok (1, c₁) ∧
      recoverAOF (fun _ => 9) (Cache.new 10) none
        (some (dump (fun _ => 1) [(lit "k", ⟨lit "v", 500000001⟩)])) = .ok c₂ ∧
      Follower.sendSyncRequest (fun _ => 9) ⟨Cache.new 10, 0, 0⟩
        ((sendSnapshot (fun _ => 1) 0 [(lit "k", ⟨lit "v", 500000001⟩)]).2 ++ encodeSyncEnd 1) =
          .ok ((f₃, none), []) ∧
      c₁.data.lookup (lit "k") = some item₁ ∧ item₁.expiresAt = 0 ∧
      c₂.data.lookup (lit "k") = some item₂ ∧ item₂.expiresAt = 0 ∧
      f₃.cache.data.lookup (lit "k") = some item₃ ∧ item₃.expiresAt = 0 :=
  ⟨_, _, _, _, _, _, rfl, rfl, rfl, rfl, rfl, rfl, rfl, rfl, rfl⟩

end GoCache.Spec
