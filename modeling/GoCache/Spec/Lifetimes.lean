import GoCache.Spec.Dump
import GoCache.Spec.Expiry
import GoCache.Spec.LeaderRuns
import GoCache.Spec.Node

/-!
# Lifetimes across a restart

Both files store a TTL as a number of whole seconds, counted from the moment at which
the record was made: the moment of the `SET` in the AOF, and the moment at which the
key was written out in the snapshot file. Recovery counts them again from the moment
at which it reads the record. So a restart gives every key back the time that has
passed since, up to the fraction of a second that was cut off; and a key in its last
second comes back without a deadline, since a TTL of zero seconds means none. The runs
here are those in which no append starts a rewrite of the AOF, which would count the
seconds anew.

## Key results

- `find?_restored`: the entry of a key comes from its last record
- `Disk.tracks_run`: what the files and the cache of a run hold
- `lifetime_kept_iff`: when a key that recovery brings back lives no longer than before
-/

namespace GoCache.Spec

open GoCache.Native Recency

/-! ## Runs with snapshots -/

/-- What happens on a leader: a request is handled, or `CreateSnapshot` visits the keys
    in some order and writes each of them at some time. -/
inductive LeaderEvent where
  | ask (a : Ask) (now : Time)
  | snapshot (order : List GoString) (now : GoString → Time)

/-- A leader and its snapshot file. -/
structure Disk where
  server : Server
  snapshotFile : Option Bytes

section Step

variable (other : OtherHandlers)

/-- The leader after an event. -/
def Disk.step (d : Disk) : LeaderEvent → Option Disk
  | .ask a now =>
    match handleCommand other d.server .new (fun _ => now) a.elements with
    | .ok (_, s, _) => some { d with server := s }
    | .error _ => none
  | .snapshot order now =>
    if d.server.cache.Enumerates order then
      let files := (createSnapshot now (d.server.cache.snapshot order)).foldl Files.apply
        ⟨d.snapshotFile, none, some d.server.aof⟩
      some ⟨{ d.server with aof := files.aof.getD [] }, files.snapshot⟩
    else none

/-- The leader after a sequence of events. -/
def Disk.run (d : Disk) (events : List LeaderEvent) : Option Disk :=
  events.foldlM (Disk.step other) d

end Step

/-- The deadlines that the events have given to the keys: that of the last `SET`, if
    the key was not deleted since. -/
def issued (events : List LeaderEvent) : GoString → Option Time :=
  events.foldl (fun m event => match event with
    | .ask (.set key _ rest) now =>
      Function.update m key (some (Cache.expiry ((ttlArgument rest).getD 0) now))
    | .ask (.del key) _ => Function.update m key none
    | .ask (.get _) _ | .ask .dbSize _ | .snapshot .. => m) fun _ => none

/-! ## The records of the files -/

/-- A record of a file, and the time at which it was made. -/
structure Made where
  record : Record
  time : Time

/-- The cache of the leader, and the records of its files. -/
structure Trace where
  cache : WfCache
  dumped : Option (List Made)
  logged : List Made

/-- The records of both files, in the order in which they are recovered. -/
def Trace.records (t : Trace) : List Made := t.dumped.getD [] ++ t.logged

/-- The records after an event. -/
def Trace.step (t : Trace) : LeaderEvent → Trace
  | .ask a now =>
    { t with cache := t.cache.ask now a, logged := t.logged ++ a.records.map (⟨·, now⟩) }
  | .snapshot order now =>
    { t with
      dumped := some ((t.cache.cache.snapshot order).filterMap fun e =>
        (dumpEntry now e).map (⟨·, now e.1⟩))
      logged := [] }

/-- The records after a sequence of events on a leader with empty files. -/
def traceOf (maxSize : Int) (events : List LeaderEvent) : Trace :=
  events.foldl Trace.step ⟨.new maxSize, none, []⟩

/-- The bytes of a file with these records. -/
def fileOf (records : List Made) : Bytes := encodeLog (records.map Made.record)

/-- What a run leaves in the cache and the files. -/
structure Disk.Tracks (d : Disk) (s : Server) (t : Trace) : Prop where
  cache : d.server.cache = t.cache.cache
  aof : d.server.aof = fileOf t.logged
  snapshotFile : d.snapshotFile = t.dumped.map fileOf
  role : d.server.role = .leader
  movedTo : ∀ command key, movedTo d.server command key = movedTo s command key

/-- `CreateSnapshot` replaces the snapshot file and empties the AOF. -/
private theorem foldl_createSnapshot (now : GoString → Time)
    (snapshot : List (GoString × SnapshotEntry)) (file : Option Bytes) (aof : Bytes) :
    (createSnapshot now snapshot).foldl Files.apply ⟨file, none, some aof⟩ =
      ⟨some (dump now snapshot), none, some []⟩ := by
  have hwrites : ∀ (rs : List Record) (temp : Bytes),
      (rs.map fun r => FileOp.writeTemp r.encode).foldl Files.apply ⟨file, some temp, some aof⟩ =
        ⟨file, some (temp ++ rs.flatMap Record.encode), some aof⟩ := by
    intro rs
    induction rs with
    | nil =>
      intro temp
      rw [List.flatMap_nil, List.append_nil]
      rfl
    | cons r rs ih =>
      intro temp
      rw [List.flatMap_cons, ← List.append_assoc, ← ih]
      rfl
  rw [createSnapshot, List.foldl_append]
  show List.foldl Files.apply (List.foldl Files.apply ⟨file, some [], some aof⟩
    ((snapshot.filterMap (dumpEntry now)).map fun r => FileOp.writeTemp r.encode)) _ = _
  rw [hwrites]
  rfl

/-- A `SET` of the run has a positive TTL that fits a `time.Duration`. -/
def Ask.Expiring : Ask → Prop
  | .set _ _ rest => ∃ n : Int64, ttlArgument rest = some (n * second) ∧ 0 < n.toInt ∧
      n.toInt * 1000000000 < 2 ^ 63
  | .get _ | .del _ | .dbSize => True

/-- A request that the leader answers itself. -/
def LeaderEvent.Answered (s : Server) : LeaderEvent → Prop
  | .ask a _ => a.Valid ∧ a.Expiring ∧ movedTo s (.str a.name) a.key = none
  | .snapshot .. => True

section Run

variable {other : OtherHandlers} {s : Server} {d d' : Disk} {t : Trace} {event : LeaderEvent}

theorem Disk.Tracks.step (h : d.Tracks s t) (hok : event.Answered s)
    (hstep : d.step other event = some d') : d'.Tracks s (t.step event) := by
  cases event with
  | ask a now =>
    obtain ⟨hvalid, _, hhere⟩ := hok
    have hhandle : handleCommand other d.server .new (fun _ => now) a.elements = _ :=
      handleCommand_ask other immediate_new h.role h.cache hvalid ((h.movedTo _ _).trans hhere) _
    rw [Disk.step, hhandle] at hstep
    cases hstep
    refine ⟨cache_logAll .., ?_, h.snapshotFile, (logAll_fixed ..).1.trans h.role, fun _ _ => ?_⟩
    · rw [aof_logAll, Trace.step, fileOf, List.map_append, List.map_map]
      show d.server.aof ++ _ = _
      rw [h.aof, fileOf, encodeLog, encodeLog, encodeLog, List.flatMap_append]
      simp [Function.comp_def]
    · rw [movedTo_logAll, h.movedTo]
  | snapshot order now =>
    rw [Disk.step] at hstep
    split at hstep
    · rw [foldl_createSnapshot] at hstep
      cases hstep
      refine ⟨h.cache, rfl, ?_, h.role, h.movedTo⟩
      show some (dump now _) = some (fileOf _)
      rw [h.cache, fileOf, List.map_filterMap, dump, encodeLog]
      simp [Option.map_map, Function.comp_def]
    · cases hstep

end Run

/-! ## The last record of a key -/

/-- The last record of a key, and the records before it. -/
def LastOf (records : List Made) (k : GoString) (pre : List Made) (made : Made) : Prop :=
  ∃ post, records = pre ++ made :: post ∧ made.record.key = k ∧ ∀ x ∈ post, x.record.key ≠ k

section LastOf

variable {records pre : List Made} {k : GoString} {made m : Made}

theorem lastOf_concat_self (records : List Made) (m : Made) :
    LastOf (records ++ [m]) m.record.key records m :=
  ⟨[], rfl, rfl, fun _ hx => absurd hx List.not_mem_nil⟩

theorem LastOf.concat (h : LastOf records k pre made) (hm : m.record.key ≠ k) :
    LastOf (records ++ [m]) k pre made := by
  obtain ⟨post, rfl, hkey, hpost⟩ := h
  refine ⟨post ++ [m], by simp, hkey, fun x hx => ?_⟩
  rcases List.mem_append.mp hx with hx | hx
  · exact hpost x hx
  · rw [List.mem_singleton.mp hx]
    exact hm

theorem LastOf.of_concat (h : LastOf (records ++ [m]) k pre made) :
    (made = m ∧ m.record.key = k) ∨ (m.record.key ≠ k ∧ LastOf records k pre made) := by
  obtain ⟨post, heq, hkey, hpost⟩ := h
  rcases List.eq_nil_or_concat' post with rfl | ⟨post, x, rfl⟩
  · obtain ⟨_, hm⟩ := List.append_inj' heq rfl
    cases hm
    exact .inl ⟨rfl, hkey⟩
  · right
    rw [← List.cons_append, ← List.append_assoc] at heq
    obtain ⟨hrecords, hm⟩ := List.append_inj' heq rfl
    cases hm
    exact ⟨hpost m (by simp), post, hrecords, hkey,
      fun y hy => hpost y (List.mem_append_left _ hy)⟩

theorem LastOf.mem (h : LastOf records k pre made) : made ∈ records ∧ made.record.key = k := by
  obtain ⟨post, rfl, hkey, _⟩ := h
  exact ⟨by simp, hkey⟩

end LastOf

/-- The number of readings of the clock that the replay of the records makes. -/
def readings (records : List Made) : Nat := records.countP fun m => isSetRecord m.record

section Replayed

variable (clock : Nat → Time) (maxSize : Int)

/-- The recovered cache. -/
def restored (records : List Made) : Nat × WfCache :=
  WfCache.mutateAll clock 0 (.new maxSize) (records.map fun m => recordMutation m.record)

theorem restored_concat (records : List Made) (m : Made) :
    restored clock maxSize (records ++ [m]) =
      WfCache.mutateAll clock (restored clock maxSize records).1 (restored clock maxSize records).2
        [recordMutation m.record] := by
  rw [restored, List.map_append, WfCache.mutateAll_append]
  rfl

theorem readings_restored (records : List Made) :
    (restored clock maxSize records).1 = readings records := by
  induction records using List.reverseRecOn with
  | nil => rfl
  | append_singleton records m ih =>
    rw [restored_concat, ih, readings, readings, List.countP_append]
    obtain ⟨record, time⟩ := m
    cases record <;> rfl

/-- The entry of a key comes from its last record. -/
theorem find?_restored {records : List Made} {k : GoString} {e : SnapshotEntry}
    (h : find? k (restored clock maxSize records).2.entries = some e) :
    ∃ pre time ttlSeconds, LastOf records k pre ⟨.set k e.value ttlSeconds, time⟩ ∧
      e.expiresAt = Cache.expiry (ttlSeconds * second) (clock (readings pre)) := by
  induction records using List.reverseRecOn with
  | nil =>
    have hnil : (restored clock maxSize []).2.entries = [] := WfCache.entries_new maxSize
    rw [hnil] at h
    cases h
  | append_singleton records m ih =>
    obtain ⟨record, time⟩ := m
    rw [restored_concat] at h
    cases record with
    | set key value ttlSeconds =>
      by_cases hk : k = key
      · have hset := WfCache.entries_set (restored clock maxSize records).2 key value
          (ttlSeconds * second) (clock (restored clock maxSize records).1)
        have hself : find? k (put (restored clock maxSize records).2.capacity key
            (⟨value, Cache.expiry (ttlSeconds * second)
              (clock (restored clock maxSize records).1)⟩ : SnapshotEntry)
            (restored clock maxSize records).2.entries) = some e := hset ▸ h
        rw [hk, find?_put_self] at hself
        cases hself
        refine ⟨records, time, ttlSeconds, hk ▸ lastOf_concat_self _ _, ?_⟩
        rw [readings_restored]
      · obtain ⟨pre, time', n, hlast, hexp⟩ := ih (WfCache.find?_of_set hk h)
        exact ⟨pre, time', n, hlast.concat fun heq => hk heq.symm, hexp⟩
    | del key =>
      have hdelete : find? k (erase key (restored clock maxSize records).2.entries) = some e :=
        (WfCache.entries_delete (restored clock maxSize records).2 key) ▸ h
      by_cases hk : k = key
      · rw [hk, find?_erase_self] at hdelete
        cases hdelete
      · rw [find?_erase_of_ne hk] at hdelete
        obtain ⟨pre, time', n, hlast, hexp⟩ := ih hdelete
        exact ⟨pre, time', n, hlast.concat fun heq => hk heq.symm, hexp⟩

/-- Recovery applies the records of both files. -/
theorem recoverAOF_records (t : Trace) (hset : ∀ m ∈ t.dumped.getD [], isSetRecord m.record) :
    recoverAOF clock (Cache.new maxSize) (t.dumped.map fileOf) (some (fileOf t.logged)) =
      .ok (restored clock maxSize t.records).2.cache := by
  have hsnapshot : snapshotFileMutations (t.dumped.map fileOf) =
      .ok ((t.dumped.getD []).map fun m => recordMutation m.record) := by
    cases hd : t.dumped with
    | none => rfl
    | some dumped =>
      rw [hd] at hset
      have hall : (dumped.map Made.record).filter isSetRecord = dumped.map Made.record := by
        rw [List.filter_eq_self]
        intro r hr
        obtain ⟨m, hm, rfl⟩ := List.mem_map.mp hr
        exact hset m hm
      show snapshotMutations (encodeLog _) = _
      rw [snapshotMutations_encodeLog, hall, List.map_map]
      rfl
  have h := recoverAOF_eq clock (.new maxSize) (t.dumped.map fileOf) (some (fileOf t.logged))
  rw [fileOf, recoveryMutations_encodeLog, hsnapshot] at h
  rw [restored, Trace.records, List.map_append]
  rw [fileOf]
  refine h.trans ?_
  simp only [Except.map, List.map_map]
  rfl

end Replayed

/-! ## Deadlines of a run -/

/-- The event reads the clock at this time. -/
def LeaderEvent.At : LeaderEvent → Time → Prop
  | .ask _ now, time => time = now
  | .snapshot _ now, time => ∃ k, time = now k

/-- The clock does not go back. -/
def InOrder (events : List LeaderEvent) : Prop :=
  events.Pairwise fun e e' => ∀ time time', e.At time → e'.At time' → time ≤ time'

/-- The seconds of a record are those between the time at which it was made and the
    deadline of its key; a key that was deleted has none. -/
def Describes (deadline : Option Time) (made : Made) : Prop :=
  match made.record with
  | .set _ _ ttlSeconds => ∃ d : Nat, deadline = some d ∧ made.time ≤ d ∧
      d < made.time + 2 ^ 63 ∧ ttlSeconds = Duration.seconds (Time.until d made.time)
  | .del _ => deadline = none

/-- The cache holds the deadlines that were issued, and the files the seconds that were
    left of them when their records were made. -/
structure Lives (events : List LeaderEvent) (t : Trace) : Prop where
  held : ∀ k e, find? k t.cache.entries = some e →
    issued events k = some e.expiresAt ∧ e.expiresAt ≠ 0 ∧
      ∃ event ∈ events, ∃ time : Nat, event.At time ∧ e.expiresAt < time + 2 ^ 63
  dumped : ∀ m ∈ t.dumped.getD [], isSetRecord m.record = true
  source : ∀ k pre made, LastOf t.records k pre made → Describes (issued events k) made

section Lives

variable {events : List LeaderEvent} {t : Trace}

/-- The time that is left until a deadline that is not out of range. -/
private theorem toInt_until_of_le {d now : Nat} (hle : now ≤ d) (hlt : d < now + 2 ^ 63) :
    (Time.until d now).toInt = (d : Int) - now := by
  rw [toInt_until]
  omega

/-- What is written out for an entry with a deadline. -/
private theorem dumpEntry_expiring {now : GoString → Time} {k : GoString} {e : SnapshotEntry}
    {r : Record} (hne : e.expiresAt ≠ 0) (h : dumpEntry now (k, e) = some r) :
    now k ≤ e.expiresAt ∧
      r = .set k e.value (Duration.seconds (Time.until e.expiresAt (now k))) := by
  have hzero : e.expiresAt.isZero = false := beq_eq_false_iff_ne.mpr hne
  rw [dumpEntry, hzero, if_neg Bool.false_ne_true] at h
  split at h
  · cases h
  · next hneg => exact ⟨Nat.le_of_not_lt fun hlt => hneg (until_neg_iff.mpr hlt),
      (Option.some.inj h).symm⟩

private theorem at_concat {event : LeaderEvent} {p : Nat → Prop}
    (h : ∃ e ∈ events, ∃ time : Nat, e.At time ∧ p time) :
    ∃ e ∈ events ++ [event], ∃ time : Nat, e.At time ∧ p time := by
  obtain ⟨e, he, h⟩ := h
  exact ⟨e, List.mem_append_left _ he, h⟩

/-- One more record, which describes the new deadline of its key. -/
private theorem describes_concat {records : List Made} {deadline : GoString → Option Time}
    (h : ∀ k pre made, LastOf records k pre made → Describes (deadline k) made) {m : Made}
    {new : Option Time} (hm : Describes new m) (k : GoString) (pre : List Made) (made : Made)
    (hlast : LastOf (records ++ [m]) k pre made) :
    Describes (Function.update deadline m.record.key new k) made := by
  rcases hlast.of_concat with ⟨rfl, rfl⟩ | ⟨hne, hlast⟩
  · rw [Function.update_self]
    exact hm
  · rw [Function.update_of_ne (Ne.symm hne)]
    exact h k pre made hlast

theorem issued_concat (events : List LeaderEvent) (event : LeaderEvent) :
    issued (events ++ [event]) = match event with
      | .ask (.set key _ rest) now => Function.update (issued events) key
          (some (Cache.expiry ((ttlArgument rest).getD 0) now))
      | .ask (.del key) _ => Function.update (issued events) key none
      | .ask (.get _) _ | .ask .dbSize _ | .snapshot .. => issued events := by
  rw [issued, List.foldl_append]
  rfl

/-- A `SET` records the deadline it gives. -/
private theorem Lives.set (h : Lives events t) {key value : GoString} {rest : List GoString}
    {now : Nat} (hexp : (Ask.set key value rest).Expiring) :
    Lives (events ++ [.ask (.set key value rest) now])
      (t.step (.ask (.set key value rest) now)) := by
  obtain ⟨n, httl, hpos, hfits⟩ := hexp
  obtain ⟨hdeadline, hseconds⟩ := expiry_seconds hpos hfits now
  have hexpiry : Cache.expiry ((ttlArgument rest).getD 0) now =
      now + n.toInt.toNat * 1000000000 := by rw [httl, hdeadline]; rfl
  have hne : now + n.toInt.toNat * 1000000000 ≠ 0 := by omega
  have hlt : now + n.toInt.toNat * 1000000000 < now + 2 ^ 63 := by omega
  have hrecords : (t.step (.ask (.set key value rest) now)).records =
      t.records ++ [⟨.set key value n, now⟩] := by
    rw [Trace.records, Trace.step, Trace.records, List.append_assoc, Ask.records, httl,
      Option.getD_some, hseconds]
    rfl
  refine ⟨fun k e he => ?_, h.dumped, fun k pre made hlast => ?_⟩
  · rw [issued_concat]
    by_cases hk : k = key
    · have hentry := t.cache.entries_set key value ((ttlArgument rest).getD 0) now
      rw [show (t.step (.ask (.set key value rest) now)).cache.entries = _ from hentry, hk,
        find?_put_self, Option.some.injEq] at he
      subst he hk
      exact ⟨Function.update_self .., hexpiry ▸ hne, _, List.mem_append_right _
        (List.mem_singleton.mpr rfl), now, rfl, hexpiry ▸ hlt⟩
    · obtain ⟨hissued, hne, hat⟩ := h.held k e (WfCache.find?_of_set hk he)
      exact ⟨(Function.update_of_ne hk ..).trans hissued, hne, at_concat hat⟩
  · rw [hrecords] at hlast
    rw [issued_concat]
    refine describes_concat h.source (m := ⟨.set key value n, now⟩) ?_ k pre made hlast
    have huntil : Time.until (now + n.toInt.toNat * 1000000000) now = n * second := by
      apply Int64.toInt_inj.mp
      rw [toInt_until_of_le (Nat.le_add_right ..) hlt, toInt_mul_second hpos.le hfits]
      omega
    exact ⟨_, congrArg some hexpiry, Nat.le_add_right .., hlt, by rw [huntil, hseconds]⟩

/-- A `DEL` records that there is no deadline. -/
private theorem Lives.del (h : Lives events t) (key : GoString) (now : Nat) :
    Lives (events ++ [.ask (.del key) now]) (t.step (.ask (.del key) now)) := by
  have hrecords : (t.step (.ask (.del key) now)).records = t.records ++ [⟨.del key, now⟩] := by
    rw [Trace.records, Trace.step, Trace.records, List.append_assoc]
    rfl
  refine ⟨fun k e he => ?_, h.dumped, fun k pre made hlast => ?_⟩
  · rw [issued_concat]
    rw [show (t.step (.ask (.del key) now)).cache.entries = _ from t.cache.entries_delete key] at he
    by_cases hk : k = key
    · rw [hk, find?_erase_self] at he
      cases he
    · rw [find?_erase_of_ne hk] at he
      obtain ⟨hissued, hne, hat⟩ := h.held k e he
      exact ⟨(Function.update_of_ne hk ..).trans hissued, hne, at_concat hat⟩
  · rw [hrecords] at hlast
    rw [issued_concat]
    exact describes_concat h.source (m := ⟨.del key, now⟩) rfl k pre made hlast

/-- A read changes no deadline and records nothing. -/
private theorem Lives.read (h : Lives events t) {a : Ask} (hrecords : a.records = []) (now : Nat)
    (hissued : issued (events ++ [.ask a now]) = issued events)
    (hheld : ∀ k, find? k (t.cache.ask now a).entries = find? k t.cache.entries) :
    Lives (events ++ [.ask a now]) (t.step (.ask a now)) := by
  have hsame : (t.step (.ask a now)).records = t.records := by
    rw [Trace.records, Trace.step, hrecords, List.map_nil, List.append_nil]
    rfl
  refine ⟨fun k e he => ?_, h.dumped, fun k pre made hlast => ?_⟩
  · obtain ⟨hdeadline, hne, hat⟩ := h.held k e ((hheld k).symm.trans he)
    exact ⟨(congrFun hissued k).trans hdeadline, hne, at_concat hat⟩
  · rw [hissued]
    exact h.source k pre made (hsame ▸ hlast)

/-- A snapshot records the time that is left. -/
private theorem Lives.snapshot (h : Lives events t) {order : List GoString}
    {now : GoString → Time} (horder : t.cache.cache.Enumerates order)
    (hinOrder : InOrder (events ++ [.snapshot order now])) :
    Lives (events ++ [.snapshot order now]) (t.step (.snapshot order now)) := by
  have hmade : ∀ m ∈ (t.step (.snapshot order now)).records, ∃ k e,
      find? k t.cache.entries = some e ∧ dumpEntry now (k, e) = some m.record ∧ m.time = now k := by
    intro m hm
    have hm : m ∈ (t.cache.cache.snapshot order).filterMap fun e =>
        (dumpEntry now e).map (⟨·, now e.1⟩) :=
      (List.mem_append.mp hm).resolve_right List.not_mem_nil
    obtain ⟨⟨k, e⟩, he, hdump⟩ := List.mem_filterMap.mp hm
    obtain ⟨record, hrecord, rfl⟩ := Option.map_eq_some_iff.mp hdump
    exact ⟨k, e, (mem_snapshot horder).mp he, hrecord, rfl⟩
  refine ⟨fun k e he => ?_, fun m hm => ?_, fun k pre made hlast => ?_⟩
  · obtain ⟨hissued, hne, hat⟩ := h.held k e he
    exact ⟨(congrFun (issued_concat ..) k).trans hissued, hne, at_concat hat⟩
  · obtain ⟨k, e, _, hdump, _⟩ := hmade m (List.mem_append_left _ hm)
    obtain ⟨n, hn⟩ := dumpEntry_eq_some hdump
    rw [hn]
    rfl
  · obtain ⟨hmem, hkey⟩ := hlast.mem
    obtain ⟨k', e, he, hdump, htime⟩ := hmade made hmem
    obtain ⟨hissued, hne, event, hevent, time, hat, hlt⟩ := h.held k' e he
    obtain ⟨hlive, hrecord⟩ := dumpEntry_expiring hne hdump
    have hk : k = k' := by
      rw [← hkey, hrecord]
      rfl
    subst hk
    -- the clock has not gone back since the deadline was given
    have hle : time ≤ now k := by
      rw [InOrder, List.pairwise_append] at hinOrder
      exact hinOrder.2.2 event hevent _ (List.mem_singleton.mpr rfl) time (now k) hat ⟨k, rfl⟩
    have hfits : e.expiresAt < now k + 2 ^ 63 := lt_of_lt_of_le hlt (Nat.add_le_add_right hle _)
    rw [issued_concat]
    unfold Describes
    rw [hrecord, htime]
    exact ⟨e.expiresAt, hissued, hlive, hfits, rfl⟩

end Lives

/-- Every run keeps the deadlines. -/
theorem Disk.tracks_run {other : OtherHandlers} {maxSize : Int} {s : Server}
    (hrole : s.role = .leader) (hcache : s.cache = Cache.new maxSize)
    (haof : s.aof = []) {events : List LeaderEvent} (hanswered : ∀ e ∈ events, e.Answered s)
    (hinOrder : InOrder events) {d : Disk} (hrun : Disk.run other ⟨s, none⟩ events = some d) :
    d.Tracks s (traceOf maxSize events) ∧ Lives events (traceOf maxSize events) := by
  induction events using List.reverseRecOn generalizing d with
  | nil =>
    cases hrun
    refine ⟨⟨hcache, haof, rfl, hrole, fun _ _ => rfl⟩, fun k e he => ?_, fun m hm => ?_,
      fun k pre made hlast => ?_⟩
    · rw [show (traceOf maxSize []).cache = .new maxSize from rfl, WfCache.entries_new] at he
      cases he
    · cases hm
    · cases hlast.mem.1
  | append_singleton events event ih =>
    rw [Disk.run, List.foldlM_append] at hrun
    obtain ⟨mid, hmid, hstep⟩ := Option.bind_eq_some_iff.mp hrun
    have hstep : mid.step other event = some d := by simpa using hstep
    obtain ⟨htracks, hlives⟩ := ih (fun e he => hanswered e (List.mem_append_left _ he))
      (List.pairwise_append.mp hinOrder).1 hmid
    have hok := hanswered event (List.mem_append_right _ (List.mem_singleton.mpr rfl))
    have htrace : traceOf maxSize (events ++ [event]) = (traceOf maxSize events).step event := by
      rw [traceOf, List.foldl_append]
      rfl
    rw [htrace]
    refine ⟨htracks.step hok hstep, ?_⟩
    cases event with
    | snapshot order now =>
      have horder : mid.server.cache.Enumerates order := by
        by_contra hnot
        rw [Disk.step, if_neg hnot] at hstep
        cases hstep
      exact hlives.snapshot (htracks.cache ▸ horder) hinOrder
    | ask a now =>
      cases a with
      | set key value rest => exact hlives.set hok.2.1
      | del key => exact hlives.del key now
      | get key =>
        exact hlives.read rfl now (issued_concat ..) fun k =>
          congrFun ((traceOf maxSize events).cache.item?_get key now) k
      | dbSize => exact hlives.read rfl now (issued_concat ..) fun _ => rfl

/-! ## Recovery -/

/-- A recovered entry has a deadline that is not later than that which the key had, and
    that deadline had not passed at the crash. -/
def LifetimeKept (deadline crash : Time) (e : SnapshotEntry) : Prop :=
  e.expiresAt ≠ 0 ∧ e.expiresAt ≤ deadline ∧ crash ≤ deadline

private theorem lifetimeKept_iff {d made r crash : Nat} (value : GoString)
    (hle : made ≤ d) (hlt : d < made + 2 ^ 63) (hcrash : crash ≤ r) :
    LifetimeKept d crash
        ⟨value, Cache.expiry (Duration.seconds (Time.until d made) * second) r⟩ ↔
      made + 1000000000 ≤ d ∧ r + (secondsFloat (d - made)).truncate * 1000000000 ≤ d := by
  have huntil := toInt_until_of_le hle hlt
  have hnonneg : 0 ≤ (Time.until d made).toInt := by omega
  have hpos := seconds_pos_iff hnonneg
  have hfits := (toInt_seconds_nonneg_fits hnonneg).2
  have hseconds := toInt_seconds hnonneg
  rw [show (Time.until d made).toInt.toNat = d - made by omega] at hseconds
  generalize Duration.seconds (Time.until d made) = n at *
  by_cases hn : 0 < n.toInt
  · obtain ⟨hexpiry, _⟩ := expiry_seconds hn hfits r
    rw [LifetimeKept, ← hexpiry]
    show r + n.toInt.toNat * 1000000000 ≠ 0 ∧ r + n.toInt.toNat * 1000000000 ≤ d ∧ crash ≤ d ↔ _
    omega
  · have hzero : n = 0 := by
      apply Int64.toInt_inj.mp
      rw [Int64.toInt_zero]
      omega
    rw [hzero]
    constructor
    · exact fun h => absurd rfl h.1
    · intro h
      omega

/-- A leader with empty files handles `SET` requests with positive TTLs, `DEL` requests
    and reads, and makes snapshots, and no append starts a rewrite. Whatever a later
    recovery from its files brings back comes from the last record of its key. It lives no
    longer than before exactly if the key had a second left when that record was made, and
    the record is replayed so early that the seconds it has end before the deadline. -/
theorem lifetime_kept_iff (other : OtherHandlers) (maxSize maxSize' : Int) (s : Server)
    (hrole : s.role = .leader)
    (hcache : s.cache = Cache.new maxSize) (haof : s.aof = []) (events : List LeaderEvent)
    (hanswered : ∀ e ∈ events, e.Answered s) (hinOrder : InOrder events) (d : Disk)
    (hrun : Disk.run other ⟨s, none⟩ events = some d) (file : Bytes)
    (hfile : d.server.aofFile = some file) (crash : Time) (clock : Nat → Time)
    (hcrash : ∀ i, crash ≤ clock i) :
    d.snapshotFile = (traceOf maxSize events).dumped.map fileOf ∧
    file = fileOf (traceOf maxSize events).logged ∧
    ∃ c, recoverAOF clock (Cache.new maxSize') d.snapshotFile (some file) = .ok c ∧
      ∀ k e, find? k c.entries = some e → ∃ deadline pre made,
        issued events k = some deadline ∧
        LastOf (traceOf maxSize events).records k pre made ∧
        (LifetimeKept deadline crash e ↔ made.time + 1000000000 ≤ deadline ∧
          clock (readings pre) + (secondsFloat (deadline - made.time)).truncate * 1000000000 ≤
            deadline) := by
  obtain ⟨htracks, hlives⟩ := Disk.tracks_run hrole hcache haof hanswered hinOrder hrun
  have hlog := (aof_of_aofFile hfile).symm.trans htracks.aof
  refine ⟨htracks.snapshotFile, hlog,
    (restored clock maxSize' (traceOf maxSize events).records).2.cache, ?_, fun k e he => ?_⟩
  · rw [htracks.snapshotFile, hlog]
    exact recoverAOF_records clock maxSize' _ hlives.dumped
  · obtain ⟨pre, time, n, hlast, hexpiry⟩ := find?_restored clock maxSize' he
    obtain ⟨deadline, hissued, hle, hlt, hn⟩ := hlives.source k pre _ hlast
    refine ⟨deadline, pre, _, hissued, hlast, ?_⟩
    have hkept := lifetimeKept_iff e.value hle hlt (hcrash (readings pre))
    rw [← hn, ← hexpiry] at hkept
    exact hkept

/-- A client sets a key for the given number of seconds, one second after the start. -/
def setsFor (seconds : String) : LeaderEvent :=
  .ask (.set (lit "k") (lit "v") [lit "EX", lit seconds]) 1000000000

/-- `CreateSnapshot` runs half a second later. -/
def snapshotAfter : LeaderEvent := .snapshot [lit "k"] fun _ => 1500000000

/-- The fraction of a second that the snapshot cuts off covers a recovery that comes
    soon enough. -/
theorem lifetime_kept_iff_soon :
    ∃ d file c e, Disk.run noOther ⟨leaderOfTwo, none⟩ [setsFor "5", snapshotAfter] = some d ∧
      d.server.aofFile = some file ∧
      recoverAOF (fun _ => 1900000000) (Cache.new 2) d.snapshotFile (some file) = .ok c ∧
      find? (lit "k") c.entries = some e ∧ LifetimeKept 6000000000 1600000000 e := by
  have hcheck : ((Disk.run noOther ⟨leaderOfTwo, none⟩ [setsFor "5", snapshotAfter]).any fun d =>
      d.server.aofFile.isSome ∧
      (recoverAOF (fun _ => 1900000000) (Cache.new 2) d.snapshotFile d.server.aofFile).map
        (fun c => (find? (lit "k") c.entries).isSome) = .ok true) = true := by
    decide +kernel
  obtain ⟨d, hrun, hcheck⟩ := (Option.any_eq_true _ _).mp hcheck
  obtain ⟨hfile, hrecovered⟩ := of_decide_eq_true hcheck
  obtain ⟨file, hfile⟩ := Option.isSome_iff_exists.mp hfile
  rw [hfile] at hrecovered
  obtain ⟨c', hc', hsome⟩ := map_eq_ok.mp hrecovered
  obtain ⟨e, he⟩ := Option.isSome_iff_exists.mp hsome
  have hanswered : ∀ event ∈ [setsFor "5", snapshotAfter], event.Answered leaderOfTwo := by
    intro event hevent
    rcases List.mem_pair.mp hevent with rfl | rfl
    · exact ⟨⟨by decide, by decide⟩, ⟨5, by decide, by decide, by decide⟩,
        movedTo_eq_none ⟨rfl, rfl⟩ _ _⟩
    · trivial
  have hinOrder : InOrder [setsFor "5", snapshotAfter] := by
    refine List.pairwise_pair.mpr fun time time' h h' => ?_
    obtain ⟨_, rfl⟩ := h'
    cases h
    show 1000000000 ≤ 1500000000
    decide
  obtain ⟨_, _, c, hc, hkept⟩ := lifetime_kept_iff noOther 2 2 leaderOfTwo rfl rfl rfl
    [setsFor "5", snapshotAfter] hanswered hinOrder d hrun file hfile 1600000000
    (fun _ => 1900000000) (fun _ => by decide)
  cases hc.symm.trans hc'
  obtain ⟨deadline, pre, made, hissued, hlast, hiff⟩ := hkept _ _ he
  have hdeadline : issued [setsFor "5", snapshotAfter] (lit "k") = some 6000000000 := by
    decide +kernel
  cases hdeadline.symm.trans hissued
  -- the snapshot file has the one record
  have htimes : (traceOf 2 [setsFor "5", snapshotAfter]).records.map Made.time = [1500000000] := by
    decide +kernel
  obtain ⟨post, hrecords, _, _⟩ := hlast
  have htime : made.time = 1500000000 := by
    rw [hrecords, List.map_append, List.map_cons] at htimes
    cases pre with
    | nil => exact (List.cons.inj htimes).1
    | cons x pre => simp at htimes
  rw [htime] at hiff
  exact ⟨d, file, _, e, hrun, hfile, hc', he, hiff.mpr (by decide)⟩

/-- A key that was set for a second comes back four seconds after its deadline, for
    another second; and without a deadline if a snapshot was made in its last second. -/
theorem lifetime_extended :
    (∃ d file c, Disk.run noOther ⟨leaderOfTwo, none⟩ [setsFor "1"] = some d ∧
      issued [setsFor "1"] (lit "k") = some 2000000000 ∧ d.server.aofFile = some file ∧
      recoverAOF (fun _ => 6000000000) (Cache.new 2) d.snapshotFile (some file) = .ok c ∧
      find? (lit "k") c.entries = some ⟨lit "v", 7000000000⟩) ∧
    ∃ d file c, Disk.run noOther ⟨leaderOfTwo, none⟩ [setsFor "1", snapshotAfter] = some d ∧
      issued [setsFor "1", snapshotAfter] (lit "k") = some 2000000000 ∧
      d.server.aofFile = some file ∧
      recoverAOF (fun _ => 6000000000) (Cache.new 2) d.snapshotFile (some file) = .ok c ∧
      find? (lit "k") c.entries = some ⟨lit "v", 0⟩ := by
  have hcase : ∀ events e, ((Disk.run noOther ⟨leaderOfTwo, none⟩ events).any fun d =>
      issued events (lit "k") = some 2000000000 ∧ d.server.aofFile.isSome ∧
      (recoverAOF (fun _ => 6000000000) (Cache.new 2) d.snapshotFile d.server.aofFile).map
        (fun c => find? (lit "k") c.entries) = .ok (some e)) = true →
      ∃ d file c, Disk.run noOther ⟨leaderOfTwo, none⟩ events = some d ∧
        issued events (lit "k") = some 2000000000 ∧ d.server.aofFile = some file ∧
        recoverAOF (fun _ => 6000000000) (Cache.new 2) d.snapshotFile (some file) = .ok c ∧
        find? (lit "k") c.entries = some e := by
    intro events e h
    obtain ⟨d, hrun, hcheck⟩ := (Option.any_eq_true _ _).mp h
    obtain ⟨hissued, hfile, hrecovered⟩ := of_decide_eq_true hcheck
    obtain ⟨file, hfile⟩ := Option.isSome_iff_exists.mp hfile
    rw [hfile] at hrecovered
    obtain ⟨c, hc, hfind⟩ := map_eq_ok.mp hrecovered
    exact ⟨d, file, c, hrun, hissued, hfile, hc, hfind⟩
  exact ⟨hcase _ _ (by decide +kernel), hcase _ _ (by decide +kernel)⟩

end GoCache.Spec
