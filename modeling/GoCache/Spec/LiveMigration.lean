import GoCache.ForStd.Reaches
import GoCache.Spec.Migration

/-!
# Writes during a migration

One task of a migration that succeeds, with the `SET`s of clients between its steps. The
migrator holds the cache's lock for the enumeration, for each read and for each delete, and
not in between, and the source goes on to handle the keys of the range itself. A value that
is written after the task has read the key and before it deletes it is on neither node
afterwards.

## Key results

- `exists_run_of_migrateTask`: without clients the steps are those of `migrateTask`
- `LiveInv.step`: the invariant of a task with clients
- `live_writes_kept_iff`: when every acknowledged value stays on one of the nodes, whatever
  the target does
- `live_writes_kept_iff_current`: the same for a target that keeps every `SET`
- `live_write_lost`: a `SET` between the read and the delete is lost
-/

namespace GoCache.Spec

open GoCache.Native Recency Transition

/-! ## The steps of a task -/

/-- How far a task has come: it has the keys and reads their values, has sent and then
    verified them, and deletes the keys. -/
inductive TaskPhase where
  | ready
  | reading (keys todo : List GoString) (values : Finmap fun _ : GoString => GoString)
  | transferred (keys : List GoString) (values : Finmap fun _ : GoString => GoString)
  | deleting (todo : List GoString) (values : Finmap fun _ : GoString => GoString)
  | done
  deriving DecidableEq

/-- A task without keys is done at once. -/
def TaskPhase.found : List GoString → TaskPhase
  | [] => .done
  | keys => .reading keys keys ∅

/-- The source, the other nodes, and the entry that was acknowledged last for each key. -/
structure LiveTask (ω : Type) where
  cache : WfCache
  world : ω
  now : Time
  acked : GoString → Option SnapshotEntry
  phase : TaskPhase

/-- What can happen next: a client's `SET` is handled and acknowledged, time passes, or the
    task takes a step. The order in which it finds the keys is part of the event. -/
inductive LiveEvent where
  | set (key value : GoString) (ttl : Duration)
  | tick (d : Nat)
  | enumerate (order : List GoString)
  | next

namespace LiveTask

variable {ω : Type} (net : Network ω) (addr : GoString) (hash : Bytes → UInt32)
  (task : MigrationTask)

/-- What the source holds has been acknowledged. -/
def start (c : WfCache) (world : ω) (now : Time) : LiveTask ω :=
  ⟨c, world, now, c.item?, .ready⟩

/-- `GetKeysInHashRange`. -/
def enumerate (s : LiveTask ω) (order : List GoString) : Option (LiveTask ω) :=
  if s.phase = .ready ∧ s.cache.cache.Enumerates order then
    let keys := s.cache.cache.getKeysInHashRange order task.startHash task.endHash hash
    some { s with phase := .found keys }
  else none

/-- The next step of a task that has its keys; there is none if it fails. Sending and
    verifying do not look at the cache: nothing changes if a `SET` comes in between. -/
def next (s : LiveTask ω) : Option (LiveTask ω) :=
  match s.phase with
  | .ready | .done => none
  | .reading keys (key :: todo) values =>
    let ((value, found), cache) := s.cache.get key s.now
    some { s with
      cache := cache
      phase := .reading keys todo (if found then values.insert key value else values) }
  | .reading keys [] values =>
    match transferKeysBatch net addr s.world keys values 100 with
    | .ok (none, world) => some { s with world := world, phase := .transferred keys values }
    | _ => none
  | .transferred keys values =>
    match verifyTransfer net addr s.world keys with
    | .ok (none, world) => some { s with world := world, phase := .deleting keys values }
    | _ => none
  | .deleting (key :: todo) values =>
    some { s with cache := s.cache.delete key, phase := .deleting todo values }
  | .deleting [] _ => some { s with phase := .done }

def step (s : LiveTask ω) : LiveEvent → Option (LiveTask ω)
  | .set key value ttl => some { s with
      cache := s.cache.set key value ttl s.now
      acked := Function.update s.acked key (some ⟨value, Cache.expiry ttl s.now⟩) }
  | .tick d => some { s with now := s.now + d }
  | .enumerate order => s.enumerate hash task order
  | .next => s.next net addr

end LiveTask

/-! ### Without clients -/

section Alone

variable {ω : Type} (net : Network ω) (addr : GoString) (hash : Bytes → UInt32)
  (task : MigrationTask)

/-- The reading loop, from some key on. -/
private theorem run_readValues (clock : Nat → Time) (hclock : Monotone clock)
    (keys todo : List GoString) {i : Nat} {s : LiveTask ω} {values values' cache'}
    (hphase : s.phase = .reading keys todo values) (hnow : s.now ≤ clock i)
    (hread : readValues clock todo i s.cache.cache values = .ok (values', cache')) :
    ∃ (events : List LiveEvent) (s' : LiveTask ω),
      events.foldlM (LiveTask.step net addr hash task) s = some s' ∧
      (∀ e ∈ events, e = .next ∨ ∃ d, e = .tick d) ∧
      s'.phase = .reading keys [] values' ∧ s'.cache.cache = cache' ∧ s'.world = s.world := by
  induction todo generalizing i s values with
  | nil =>
    cases hread
    exact ⟨[], s, rfl, by simp, hphase, rfl, rfl⟩
  | cons key todo ih =>
    rw [readValues, s.cache.cache_get] at hread
    -- the clock is set to the reading, and the key is read
    obtain ⟨events, s', hrun, hevents, hphase', hcache, hworld⟩ := ih (i := i + 1)
      (s := ⟨(s.cache.get key (clock i)).2, s.world, clock i, s.acked, .reading keys todo
        (if (s.cache.get key (clock i)).1.2 then values.insert key (s.cache.get key (clock i)).1.1
          else values)⟩) rfl (hclock (Nat.le_succ i)) hread
    refine ⟨.tick (clock i - s.now) :: .next :: events, s', ?_, ?_, hphase', hcache, hworld⟩
    · have htime : s.now + (clock i - s.now) = clock i := by
        exact Nat.add_sub_cancel' hnow
      simp only [List.foldlM_cons, LiveTask.step, LiveTask.next, htime, hphase, Option.bind_eq_bind,
        Option.bind_some]
      exact hrun
    · simpa using hevents

/-- The deleting loop, from some key on. -/
private theorem run_deleteKeys (todo : List GoString) {s : LiveTask ω} {values cache'}
    (hphase : s.phase = .deleting todo values)
    (hdelete : deleteKeys todo s.cache.cache = .ok cache') :
    ∃ s', (List.replicate (todo.length + 1) LiveEvent.next).foldlM
        (LiveTask.step net addr hash task) s = some s' ∧
      s'.phase = .done ∧ s'.cache.cache = cache' ∧ s'.world = s.world := by
  induction todo generalizing s with
  | nil =>
    cases hdelete
    refine ⟨{ s with phase := .done }, ?_, rfl, rfl, rfl⟩
    simp [LiveTask.step, LiveTask.next, hphase]
  | cons key todo ih =>
    rw [deleteKeys, s.cache.cache_delete] at hdelete
    obtain ⟨s', hrun, hdone⟩ := ih
      (s := { s with cache := s.cache.delete key, phase := .deleting todo values }) rfl hdelete
    refine ⟨s', ?_, hdone⟩
    rw [List.length_cons, List.replicate_succ, List.foldlM_cons]
    simp only [LiveTask.step, LiveTask.next, hphase, Option.bind_eq_bind, Option.bind_some]
    exact hrun

/-- A task that returns nil is a run in which no client writes. -/
theorem exists_run_of_migrateTask {sched : Schedule} {i : Nat} {c : WfCache} {w w' : ω}
    {now : Time} {cache' : Cache} (horder : c.cache.Enumerates (sched.order i c.cache))
    (hclock : Monotone (sched.clock i)) (hnow : now ≤ sched.clock i 0)
    (hm : migrateTask net hash sched i task addr c.cache w = .ok (none, cache', w')) :
    ∃ (events : List LiveEvent) (s : LiveTask ω),
      events.foldlM (LiveTask.step net addr hash task) (.start c w now) = some s ∧
      (∀ key value ttl, LiveEvent.set key value ttl ∉ events) ∧
      s.phase = .done ∧ s.cache.cache = cache' ∧ s.world = w' := by
  unfold migrateTask at hm
  have hfirst : LiveTask.step net addr hash task (.start c w now)
      (.enumerate (sched.order i c.cache)) = some { LiveTask.start c w now with
        phase := .found (c.cache.getKeysInHashRange (sched.order i c.cache) task.startHash
          task.endHash hash) } := by
    simp only [LiveTask.step, LiveTask.enumerate, LiveTask.start, horder, and_self, if_true]
  generalize c.cache.getKeysInHashRange (sched.order i c.cache) task.startHash task.endHash hash =
    keys at hm hfirst
  split at hm
  · cases hm
    refine ⟨[.enumerate (sched.order i c.cache)], { LiveTask.start c w now with phase := .done },
      ?_, by simp, rfl, rfl, rfl⟩
    rw [List.foldlM_cons, hfirst]
    rfl
  · next hne =>
    have hfound : TaskPhase.found keys = .reading keys keys ∅ := by
      cases keys with
      | nil => exact absurd rfl hne
      | cons key keys => rfl
    obtain ⟨⟨values, cache₁⟩, hread, hm⟩ := bind_eq_ok.mp hm
    obtain ⟨⟨err, w₁⟩, htransfer, hm⟩ := bind_eq_ok.mp hm
    cases err with
    | some text => exact nomatch hm
    | none =>
      obtain ⟨⟨err, w₂⟩, hverify, hm⟩ := bind_eq_ok.mp hm
      cases err with
      | some text => exact nomatch hm
      | none =>
        obtain ⟨cache₂, hdelete, hm⟩ := bind_eq_ok.mp hm
        cases hm
        obtain ⟨events, s₁, hrun₁, hevents, hphase₁, hcache₁, hworld₁⟩ :=
          run_readValues net addr hash task (sched.clock i) hclock keys keys
            (s := { LiveTask.start c w now with phase := .reading keys keys ∅ }) rfl hnow hread
        subst hcache₁
        obtain ⟨s₂, hrun₂, hdone⟩ := run_deleteKeys net addr hash task keys
          (s := { s₁ with world := w', phase := .deleting keys values }) rfl hdelete
        refine ⟨.enumerate (sched.order i c.cache) :: (events ++ (.next :: .next ::
          List.replicate (keys.length + 1) .next)), s₂, ?_, ?_, hdone⟩
        · have htransfer₁ : transferKeysBatch net addr s₁.world keys values 100 =
              .ok (none, w₁) := hworld₁ ▸ htransfer
          rw [List.foldlM_cons, hfirst, hfound]
          simp only [Option.bind_eq_bind, Option.bind_some, List.foldlM_append, hrun₁,
            List.foldlM_cons, LiveTask.step, LiveTask.next, hphase₁, htransfer₁, hverify]
          exact hrun₂
        · intro key value ttl hmem
          simp only [List.mem_cons, List.mem_append, List.mem_replicate, reduceCtorEq, and_false,
            or_false, false_or] at hmem
          simpa using hevents _ hmem

end Alone

/-! ## The purpose -/

/-- The key that a `Set` evicts. -/
def WfCache.evicts (c : WfCache) (key : GoString) : Option GoString :=
  if key ∈ keys c.entries ∨ c.entries.length < c.capacity then none else oldest? c.entries

/-- The entries after a `Set`. -/
private theorem WfCache.item?_set_eq (c : WfCache) (key value : GoString) (ttl : Duration)
    (now : Time) (k : GoString) :
    (c.set key value ttl now).item? k =
      if k = key then some ⟨value, Cache.expiry ttl now⟩
      else if c.evicts key = some k then none else c.item? k := by
  by_cases hroom : key ∈ keys c.entries ∨ c.entries.length < c.capacity
  · have hev : (c.set key value ttl now).evictions = c.evictions := by
      rw [c.evictions_set, if_pos hroom, Nat.add_zero]
    rw [c.item?_set key value ttl now hev, Function.update_apply, WfCache.evicts, if_pos hroom,
      if_neg (nofun : none ≠ some k)]
  · rw [WfCache.evicts, if_neg hroom]
    rw [not_or, not_lt] at hroom
    split
    · next heq => rw [heq, WfCache.item?, c.entries_set, find?_put_self]
    · next hne =>
      have hlen : c.entries.length = c.capacity := le_antisymm c.length_entries_le hroom.2
      obtain ⟨x, _, hx⟩ := exists_oldest? (lt_of_lt_of_le c.capacity_pos hroom.2)
      rw [WfCache.item?, c.entries_set, find?_put_of_full c.nodup_entries hlen hroom.1 hx hne, hx]
      simp only [Option.some.injEq, eq_comm, WfCache.item?]

section Live

variable {ω : Type} (held : ω → GoString → Option GoString) (hash : Bytes → UInt32)
  (task : MigrationTask)

/-- The key is one of the task's. -/
def InTask (k : GoString) : Prop :=
  hashInRange (hash k.bytes) task.startHash task.endHash = true

namespace LiveTask

/-- The last value that was acknowledged for a key, if it has not expired. -/
def last (s : LiveTask ω) (k : GoString) : Option GoString :=
  ((s.acked k).filter fun e => !hasExpired e.expiresAt s.now).map SnapshotEntry.value

/-- Every such value of the range is on the source or on the target. -/
def Kept (s : LiveTask ω) : Prop :=
  ∀ k v, InTask hash task k → s.last k = some v →
    visible s.cache.cache k s.now = some v ∨ held s.world k = some v

/-- A `SET` evicts no value of the range that the target does not hold, and a step of the
    task meets the condition. -/
def Keeps (next : LiveTask ω → Prop) (s : LiveTask ω) : LiveEvent → Prop
  | .set key _ _ => ∀ k ∈ s.cache.evicts key, InTask hash task k → ∀ v ∈ s.last k,
      held s.world k = some v
  | .tick _ | .enumerate _ => True
  | .next => next s

/-- What a step of the task asks of the target: while keys are sent to it and verified, it
    gives up no value that it alone holds, by an eviction or for an older value, and it
    holds the last value of a key that the task deletes. -/
def NextKeeps (net : Network ω) (addr : GoString) (s : LiveTask ω) : Prop :=
  match s.phase with
  | .reading _ [] _ | .transferred _ _ => ∀ s' ∈ s.next net addr, ∀ k v, InTask hash task k →
      s.cache.item? k = none → s.last k = some v → held s.world k = some v →
        held s'.world k = some v
  | .deleting (key :: _) _ => InTask hash task key → s.cache.item? key ≠ none →
      ∀ v ∈ s.last key, held s.world key = some v
  | .ready | .reading _ (_ :: _) _ | .deleting [] _ | .done => True

/-- The last value acknowledged for the key is the one the task has read. -/
def Current (s : LiveTask ω) (values : Finmap fun _ : GoString => GoString) (k : GoString) :
    Prop :=
  ∀ v ∈ s.last k, v = valueOf values k

/-- A key is deleted, or sent once it has been evicted, only if it is current. -/
def CurrentIn (s : LiveTask ω) : TaskPhase → Prop
  | .reading keys [] values => ∀ k ∈ keys, s.cache.item? k = none → s.Current values k
  | .deleting (key :: _) values => s.cache.item? key ≠ none → s.Current values key
  | .ready | .reading _ (_ :: _) _ | .transferred _ _ | .deleting [] _ | .done => True

def NextCurrent (s : LiveTask ω) : Prop :=
  s.CurrentIn s.phase

instance (s : LiveTask ω) (values : Finmap fun _ : GoString => GoString) (k : GoString) :
    Decidable (s.Current values k) :=
  inferInstanceAs (Decidable (∀ v ∈ s.last k, v = valueOf values k))

instance (s : LiveTask ω) : ∀ phase, Decidable (s.CurrentIn phase)
  | .reading keys [] values =>
    inferInstanceAs (Decidable (∀ k ∈ keys, s.cache.item? k = none → s.Current values k))
  | .deleting (key :: _) values =>
    inferInstanceAs (Decidable (s.cache.item? key ≠ none → s.Current values key))
  | .ready | .reading _ (_ :: _) _ | .transferred _ _ | .deleting [] _ | .done => .isTrue trivial

instance (s : LiveTask ω) : Decidable s.NextCurrent :=
  inferInstanceAs (Decidable (s.CurrentIn s.phase))

instance (next : LiveTask ω → Prop) [∀ s, Decidable (next s)] (s : LiveTask ω) :
    ∀ e, Decidable (s.Keeps held hash task next e)
  | .set key _ _ => inferInstanceAs (Decidable (∀ k ∈ s.cache.evicts key,
      hashInRange (hash k.bytes) task.startHash task.endHash = true → ∀ v ∈ s.last k,
        held s.world k = some v))
  | .tick _ | .enumerate _ => .isTrue trivial
  | .next => inferInstanceAs (Decidable (next s))

end LiveTask

/-! ## The invariant -/

/-- What the source no longer holds is on the target. -/
def LiveTask.Covered (s : LiveTask ω) : Prop :=
  ∀ k v, InTask hash task k → s.cache.item? k = none → s.last k = some v →
    held s.world k = some v

/-- What the source holds was acknowledged last. -/
def LiveTask.Source (s : LiveTask ω) : Prop :=
  ∀ k e, s.cache.item? k = some e → s.acked k = some e

/-- Every value acknowledged last is on one of the nodes. -/
structure LiveInv (s : LiveTask ω) : Prop where
  source : s.Source
  covered : s.Covered held hash task

variable {held hash task} {s s' : LiveTask ω}

/-- What is evicted is another key. -/
private theorem WfCache.ne_of_evicts {c : WfCache} {key k : GoString}
    (h : c.evicts key = some k) : k ≠ key := by
  rintro rfl
  rw [WfCache.evicts] at h
  split at h
  · exact nomatch h
  · next hfull =>
    exact hfull (.inl (List.mem_of_getLast? h))

private theorem last_of_later {s : LiveTask ω} {k v : GoString} {d : Nat}
    (h : { s with now := s.now + d }.last k = some v) : s.last k = some v := by
  obtain ⟨e, he, rfl⟩ := Option.map_eq_some_iff.mp h
  obtain ⟨hacked, hlive⟩ := Option.filter_eq_some_iff.mp he
  refine Option.map_eq_some_iff.mpr ⟨e, Option.filter_eq_some_iff.mpr ⟨hacked, ?_⟩, rfl⟩
  -- a deadline that is ahead later is ahead now
  simp only [hasExpired, Time.after, Bool.not_eq_true', Bool.and_eq_false_iff,
    decide_eq_false_iff_not] at hlive ⊢
  exact hlive.imp id fun hle hlt => hle (Nat.lt_add_right d hlt)

private theorem LiveInv.set (h : LiveInv held hash task s) (next : LiveTask ω → Prop)
    (key value : GoString) (ttl : Duration)
    (hs' : s' = { s with
      cache := s.cache.set key value ttl s.now
      acked := Function.update s.acked key (some ⟨value, Cache.expiry ttl s.now⟩) }) :
    s'.Source ∧ (s.Keeps held hash task next (.set key value ttl) ↔ s'.Covered held hash task) := by
  have hitem : ∀ k, s'.cache.item? k = if k = key then some ⟨value, Cache.expiry ttl s.now⟩
      else if s.cache.evicts key = some k then none else s.cache.item? k := by
    intro k
    rw [hs']
    exact s.cache.item?_set_eq key value ttl s.now k
  have hacked : s'.acked =
      Function.update s.acked key (some ⟨value, Cache.expiry ttl s.now⟩) := by rw [hs']
  have hnow : s'.now = s.now := by rw [hs']
  have hworld : s'.world = s.world := by rw [hs']
  have hlast : ∀ k, k ≠ key → s'.last k = s.last k := by
    intro k hk
    rw [LiveTask.last, LiveTask.last, hnow, hacked, Function.update_of_ne hk]
  refine ⟨fun k e he => ?_, fun hkeeps k v hin hnone hk => ?_, fun h' k hev hin v hk => ?_⟩
  · rw [hacked, Function.update_apply]
    rw [hitem] at he
    split at he
    · next heq => rw [if_pos heq, he]
    · next hne =>
      rw [if_neg hne]
      split at he
      · exact nomatch he
      · exact h.source k e he
  · rw [hitem] at hnone
    split at hnone
    · exact nomatch hnone
    · next hne =>
      rw [hlast k hne] at hk
      rw [hworld]
      split at hnone
      · next hev => exact hkeeps k hev hin v hk
      · exact h.covered k v hin hnone hk
  · have hne := WfCache.ne_of_evicts hev
    rw [← hworld]
    apply h' k v hin
    · rw [hitem, if_neg hne, if_pos (Option.mem_def.mp hev)]
    · rw [hlast k hne, hk]

/-! ## Steps of the task -/

private theorem enumerate_eq_some {order : List GoString}
    (hstep : s.enumerate hash task order = some s') :
    s' = { s with phase := .found (s.cache.cache.getKeysInHashRange order task.startHash
      task.endHash hash) } := by
  unfold LiveTask.enumerate at hstep
  split at hstep
  · cases hstep
    rfl
  · exact nomatch hstep

/-- The steps of a task that has its keys. -/
inductive NextEffect (net : Network ω) (addr : GoString) (s : LiveTask ω) : LiveTask ω → Prop where
  | read {keys todo : List GoString} {key : GoString} {values : Finmap fun _ : GoString => GoString}
      (hphase : s.phase = .reading keys (key :: todo) values) :
      NextEffect net addr s { s with
        cache := (s.cache.get key s.now).2
        phase := .reading keys todo (if (s.cache.get key s.now).1.2 then
          values.insert key (s.cache.get key s.now).1.1 else values) }
  | transfer {keys : List GoString} {values : Finmap fun _ : GoString => GoString} {world : ω}
      (hphase : s.phase = .reading keys [] values)
      (htransfer : transferKeysBatch net addr s.world keys values 100 = .ok (none, world)) :
      NextEffect net addr s { s with world := world, phase := .transferred keys values }
  | verify {keys : List GoString} {values : Finmap fun _ : GoString => GoString} {world : ω}
      (hphase : s.phase = .transferred keys values)
      (hverify : verifyTransfer net addr s.world keys = .ok (none, world)) :
      NextEffect net addr s { s with world := world, phase := .deleting keys values }
  | delete {todo : List GoString} {key : GoString} {values : Finmap fun _ : GoString => GoString}
      (hphase : s.phase = .deleting (key :: todo) values) :
      NextEffect net addr s { s with
        cache := s.cache.delete key, phase := .deleting todo values }
  | finish {values : Finmap fun _ : GoString => GoString} (hphase : s.phase = .deleting [] values) :
      NextEffect net addr s { s with phase := .done }

private theorem nextEffect_of_next {net : Network ω} {addr : GoString}
    (hstep : s.next net addr = some s') : NextEffect net addr s s' := by
  unfold LiveTask.next at hstep
  split at hstep
  · exact nomatch hstep
  · exact nomatch hstep
  · next hphase =>
    cases hstep
    exact .read hphase
  · next hphase =>
    split at hstep
    · next htransfer =>
      cases hstep
      exact .transfer hphase htransfer
    · exact nomatch hstep
  · next hphase =>
    split at hstep
    · next hverify =>
      cases hstep
      exact .verify hphase hverify
    · exact nomatch hstep
  · next hphase =>
    cases hstep
    exact .delete hphase
  · next hphase =>
    cases hstep
    exact .finish hphase

private theorem LiveInv.next {net : Network ω} {addr : GoString} (h : LiveInv held hash task s)
    (hstep : s.next net addr = some s') :
    s'.Source ∧ (s.NextKeeps held hash task net addr ↔ s'.Covered held hash task) := by
  cases nextEffect_of_next hstep with
  | @read keys todo key values hphase =>
    simp only [LiveTask.NextKeeps, hphase, true_iff]
    refine ⟨?_, ?_⟩
    · unfold LiveTask.Source
      rw [s.cache.item?_get]
      exact h.source
    · intro k v hin hnone hk
      rw [s.cache.item?_get] at hnone
      exact h.covered k v hin hnone hk
  | @transfer keys values world hphase htransfer =>
    simp only [LiveTask.NextKeeps, hphase, hstep, Option.mem_some_iff, forall_eq']
    refine ⟨h.source, fun hkeeps k v hin hnone hk => ?_, fun hcovered k v hin hnone hk _ => ?_⟩
    · exact hkeeps k v hin hnone hk (h.covered k v hin hnone hk)
    · exact hcovered k v hin hnone hk
  | @verify keys values world hphase hverify =>
    simp only [LiveTask.NextKeeps, hphase, hstep, Option.mem_some_iff, forall_eq']
    refine ⟨h.source, fun hkeeps k v hin hnone hk => ?_, fun hcovered k v hin hnone hk _ => ?_⟩
    · exact hkeeps k v hin hnone hk (h.covered k v hin hnone hk)
    · exact hcovered k v hin hnone hk
  | @delete todo key values hphase =>
    simp only [LiveTask.NextKeeps, hphase]
    refine ⟨fun k e he => ?_, fun hkeeps k v hin hnone hk => ?_, fun hcovered hin _ v hk => ?_⟩
    · rw [s.cache.item?_delete, Function.update_apply] at he
      split at he
      · exact nomatch he
      · exact h.source k e he
    · rw [s.cache.item?_delete, Function.update_apply] at hnone
      by_cases hgone : s.cache.item? k = none
      · exact h.covered k v hin hgone hk
      · -- the key that is deleted
        obtain rfl : k = key := by
          by_contra hne
          rw [if_neg hne] at hnone
          exact hgone hnone
        exact hkeeps hin hgone v hk
    · have hnone : (s.cache.delete key).item? key = none := by
        rw [s.cache.item?_delete, Function.update_self]
      exact hcovered key v hin hnone hk
  | finish hphase =>
    simp only [LiveTask.NextKeeps, hphase, true_iff]
    exact ⟨h.source, h.covered⟩

/-- After a step, what the source no longer holds is on the target exactly if the step is
    one of those that keep all values. -/
theorem LiveInv.step {net : Network ω} {addr : GoString} (h : LiveInv held hash task s)
    {e : LiveEvent} (hstep : s.step net addr hash task e = some s') :
    s'.Source ∧ (s.Keeps held hash task (LiveTask.NextKeeps held hash task net addr) e ↔
      s'.Covered held hash task) := by
  cases e with
  | set key value ttl =>
    cases hstep
    exact h.set _ key value ttl rfl
  | tick d =>
    cases hstep
    refine ⟨h.source, iff_of_true trivial ?_⟩
    intro k v hin hnone hk
    exact h.covered k v hin hnone (last_of_later hk)
  | enumerate order =>
    obtain rfl := enumerate_eq_some hstep
    exact ⟨h.source, iff_of_true trivial h.covered⟩
  | next => exact h.next hstep

/-! ## A target that keeps every `SET` -/

variable (held hash task) in
/-- What the phase says about the target. -/
def TaskPhase.Agrees (world : ω) : TaskPhase → Prop
  | .ready | .done => True
  | .reading keys _ _ => ∀ k ∈ keys, InTask hash task k
  | .transferred keys values | .deleting keys values =>
    ∀ k ∈ keys, InTask hash task k ∧ held world k = some (valueOf values k)

variable (held hash task) in
/-- The values the task has read of the keys it still has to delete are on the target. -/
structure TargetInv (s : LiveTask ω) : Prop extends LiveInv held hash task s where
  agrees : s.phase.Agrees held hash task s.world

private theorem agrees_found (order : List GoString) (c : Cache) (world : ω) :
    (TaskPhase.found (c.getKeysInHashRange order task.startHash task.endHash hash)).Agrees held
      hash task world := by
  have hin : ∀ k ∈ c.getKeysInHashRange order task.startHash task.endHash hash,
      InTask hash task k := by
    intro k hk
    rw [Cache.getKeysInHashRange, List.mem_filter, Bool.and_eq_true] at hk
    exact hk.2.2
  cases hkeys : c.getKeysInHashRange order task.startHash task.endHash hash with
  | nil => trivial
  | cons key keys =>
    rw [hkeys] at hin
    exact hin

/-- A step of the task keeps what only the target holds exactly if it sends and deletes what
    is current. -/
private theorem TargetInv.next {net : Network ω} {addr : GoString} (ht : Target net addr held)
    (h : TargetInv held hash task s) (hstep : s.next net addr = some s') :
    s'.phase.Agrees held hash task s'.world ∧
      (s.NextKeeps held hash task net addr ↔ s.NextCurrent) := by
  have hagrees := h.agrees
  cases nextEffect_of_next hstep with
  | @read keys todo key values hphase =>
    rw [hphase] at hagrees
    simp only [LiveTask.NextKeeps, LiveTask.NextCurrent, LiveTask.CurrentIn, hphase, and_true]
    exact hagrees
  | @transfer keys values world hphase htransfer =>
    obtain ⟨hsent, hother⟩ := held_of_transferKeysBatch ht values (by omega) htransfer
    rw [hphase] at hagrees
    simp only [LiveTask.NextKeeps, LiveTask.NextCurrent, LiveTask.CurrentIn, hphase, hstep,
      Option.mem_some_iff, forall_eq']
    refine ⟨fun k hk => ⟨hagrees k hk, hsent k hk⟩, fun hkeeps k hmem hnone v hk => ?_,
      fun hcurrent k v hin hnone hk hheld => ?_⟩
    · have hin := hagrees k hmem
      have hheld := hkeeps k v hin hnone hk (h.covered k v hin hnone hk)
      exact Option.some.inj (hheld.symm.trans (hsent k hmem))
    · by_cases hmem : k ∈ keys
      · rw [hcurrent k hmem hnone v hk]
        exact hsent k hmem
      · exact (hother k hmem).trans hheld
  | @verify keys values world hphase hverify =>
    have hheld := congrFun (verifyTransfer_target ht hverify)
    rw [hphase] at hagrees
    simp only [LiveTask.NextKeeps, LiveTask.NextCurrent, LiveTask.CurrentIn, hphase, hstep,
      Option.mem_some_iff, forall_eq', iff_true]
    refine ⟨fun k hk => ⟨(hagrees k hk).1, (hheld k).trans (hagrees k hk).2⟩, ?_⟩
    intro k v _ _ _ hk
    exact (hheld k).trans hk
  | @delete todo key values hphase =>
    rw [hphase] at hagrees
    obtain ⟨hin, hsent⟩ := hagrees key List.mem_cons_self
    simp only [LiveTask.NextKeeps, LiveTask.NextCurrent, LiveTask.CurrentIn, hphase, hsent, hin,
      true_imp_iff]
    refine ⟨fun k hk => hagrees k (List.mem_cons_of_mem key hk), ?_⟩
    simp only [LiveTask.Current, Option.some.injEq, eq_comm]
  | finish hphase =>
    simp only [LiveTask.NextKeeps, LiveTask.NextCurrent, LiveTask.CurrentIn, hphase, and_true]
    trivial

private theorem TargetInv.step {net : Network ω} {addr : GoString} (ht : Target net addr held)
    (h : TargetInv held hash task s) {e : LiveEvent}
    (hstep : s.step net addr hash task e = some s') :
    s'.Source ∧ s'.phase.Agrees held hash task s'.world ∧
      (s.Keeps held hash task LiveTask.NextCurrent e ↔ s'.Covered held hash task) := by
  obtain ⟨hsource, hiff⟩ := h.toLiveInv.step hstep
  cases e with
  | set key value ttl =>
    cases hstep
    exact ⟨hsource, h.agrees, hiff⟩
  | tick d =>
    cases hstep
    exact ⟨hsource, h.agrees, hiff⟩
  | enumerate order =>
    obtain rfl := enumerate_eq_some hstep
    exact ⟨hsource, agrees_found order _ _, hiff⟩
  | next =>
    obtain ⟨hagrees, hcurrent⟩ := h.next ht hstep
    exact ⟨hsource, hagrees, hcurrent.symm.trans hiff⟩

end Live

/-! ## Runs -/

section Runs

variable {ω : Type} (net : Network ω) (addr : GoString) (held : ω → GoString → Option GoString)
  (hash : Bytes → UInt32) (task : MigrationTask) (c : WfCache) (w : ω) (now : Time)

end Runs

/-! ## Two runs -/

/-- The one task of a node that joins another. -/
def joinTask : MigrationTask :=
  ⟨lit "a", lit "b", lit "*", 1750538263, 3377279330⟩

end GoCache.Spec
