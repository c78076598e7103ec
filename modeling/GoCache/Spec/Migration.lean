import GoCache.Native.Migrator
import GoCache.Spec.MigrationPlans
import GoCache.Spec.ProtocolCorrect
import GoCache.Spec.Transfers
import GoCache.Spec.WfCache

/-!
# Migration

What a migration to a new node does to the contents of the source and of the
target. A key of a task is sent as a plain `SET`: an entry that has a deadline
loses it, and one whose deadline has passed is sent with the empty value. All
other entries are the target's afterwards as they were the source's before.

## Key results

- `migrateTask_moves`, `migrateTasks_moves`: the entries that change hands
- `migration_conserves_iff`: when the contents of both nodes together stay
-/

namespace GoCache.Spec

open GoCache.Native Recency Circle

/-- A node that holds a map, applies every `SET` it receives and answers `OK`. What
    it answers to a `GET` is left open, as is whether it accepts a connection. -/
structure Target {ω : Type} (net : Network ω) (addr : GoString)
    (held : ω → GoString → Option GoString) : Prop where
  dial : ∀ w w', net.dial w addr = .ok w' → held w' = held w
  set : ∀ w k v, ∃ w',
    net.write w addr (encodeArray [.str (lit "SET"), .str k, .str v]) =
        .ok (encodeSimpleString (ascii "OK"), w') ∧
      held w' = Function.update (held w) k (some v)
  get : ∀ w k answer w',
    net.write w addr (encodeArray [.str (lit "GET"), .str k]) = .ok (answer, w') →
      held w' = held w

/-! ## Transfer -/

section Transfer

variable {ω : Type} {net : Network ω} {addr : GoString} {held : ω → GoString → Option GoString}

private theorem parse_replyOK :
    parse (encodeSimpleString (ascii "OK")) = .ok (.str (lit "OK")) [] := rfl

/-- Every key is set, and none fails. -/
private theorem transferLoop_target (ht : Target net addr held)
    (values : Finmap fun _ : GoString => GoString) (keys : List GoString) (failCount : Nat)
    (w : ω) :
    ∃ w', transferLoop net addr values keys failCount ⟨w, []⟩ = .ok (failCount, ⟨w', []⟩) ∧
      (∀ k ∈ keys, held w' k = some (valueOf values k)) ∧
      ∀ k ∉ keys, held w' k = held w k := by
  induction keys generalizing w with
  | nil => exact ⟨w, rfl, fun k hk => absurd hk List.not_mem_nil, fun k _ => rfl⟩
  | cons key keys ih =>
    obtain ⟨w₁, hwrite, hset⟩ := ht.set w key (valueOf values key)
    obtain ⟨w', hloop, hsent, hother⟩ := ih w₁
    refine ⟨w', ?_, fun k hk => ?_, fun k hk => ?_⟩
    · rw [transferLoop, exchange, hwrite]
      simp only [List.nil_append, parse_replyOK]
      exact hloop
    · by_cases hlater : k ∈ keys
      · exact hsent k hlater
      · obtain rfl := (List.mem_cons.mp hk).resolve_right hlater
        rw [hother k hlater, hset, Function.update_self]
    · rw [List.mem_cons, not_or] at hk
      rw [hother k hk.2, hset, Function.update_of_ne hk.1]

/-- A transfer to a target that accepts the connection sets every key. -/
private theorem transferKeysBatch_target (ht : Target net addr held)
    (values : Finmap fun _ : GoString => GoString) (keys : List GoString) {w w₁ : ω} {size : Nat}
    (hsize : 0 < size) (hdial : net.dial w addr = .ok w₁) :
    ∃ w', transferKeysBatch net addr w keys values size = .ok (none, w') ∧
      (∀ k ∈ keys, held w' k = some (valueOf values k)) ∧ ∀ k ∉ keys, held w' k = held w k := by
  obtain ⟨w', hloop, hsent, hother⟩ := transferLoop_target ht values keys 0 w₁
  refine ⟨w', (transferKeysBatch_eq_none hsize).mpr ⟨w₁, _, hdial, hloop, rfl⟩, hsent,
    fun k hk => ?_⟩
  rw [hother k hk, ht.dial w w₁ hdial]

/-- A transfer that returns nil has set every key. -/
theorem held_of_transferKeysBatch (ht : Target net addr held)
    (values : Finmap fun _ : GoString => GoString) {keys : List GoString} {w w' : ω} {size : Nat}
    (hsize : 0 < size)
    (htransfer : transferKeysBatch net addr w keys values size = .ok (none, w')) :
    (∀ k ∈ keys, held w' k = some (valueOf values k)) ∧ ∀ k ∉ keys, held w' k = held w k := by
  obtain ⟨w₁, _, hdial, -⟩ := (transferKeysBatch_eq_none hsize).mp htransfer
  obtain ⟨w₂, htransfer', hheld⟩ := transferKeysBatch_target ht values keys hsize hdial
  cases htransfer'.symm.trans htransfer
  exact hheld

private theorem Target.keepsReading (ht : Target net addr held) :
    KeepsReading net addr (fun _ => True) fun w w' => held w' = held w where
  refl _ := rfl
  trans h h' := h'.trans h
  dial hdial := ⟨ht.dial _ _ hdial, trivial⟩
  get _ hwrite := ⟨ht.get _ _ _ _ hwrite, trivial⟩

/-- A verification leaves the target as it is. -/
theorem verifyTransfer_target (ht : Target net addr held) {keys : List GoString} {w w' : ω}
    (hverify : verifyTransfer net addr w keys = .ok (none, w')) : held w' = held w := by
  have hkept := verifyTransfer_keeps ht.keepsReading hverify
  exact hkept

/-- A target that is up: it accepts every connection, and answers every `GET` with a
    value. -/
structure Up (net : Network ω) (addr : GoString) : Prop where
  dial : ∀ w, ∃ w', net.dial w addr = .ok w'
  get : ∀ w k, ∃ answer v w', net.write w addr (encodeArray [.str (lit "GET"), .str k]) =
    .ok (answer, w') ∧ parse answer = .ok v []

private theorem verifyLoop_up (hup : Up net addr) (keys : List GoString) (w : ω) :
    ∃ w', verifyLoop net addr keys ⟨w, []⟩ = .ok (none, ⟨w', []⟩) := by
  induction keys generalizing w with
  | nil => exact ⟨w, rfl⟩
  | cons key keys ih =>
    obtain ⟨answer, v, w₁, hwrite, hparse⟩ := hup.get w key
    obtain ⟨w', hloop⟩ := ih w₁
    refine ⟨w', ?_⟩
    rw [verifyLoop, hwrite]
    simp only [List.nil_append, hparse]
    exact hloop

private theorem verifyTransfer_up (hup : Up net addr) (keys : List GoString) (w : ω) :
    ∃ w', verifyTransfer net addr w keys = .ok (none, w') := by
  obtain ⟨w₁, hdial⟩ := hup.dial w
  obtain ⟨w', hloop⟩ := verifyLoop_up hup keys w₁
  refine ⟨w', ?_⟩
  unfold verifyTransfer
  rw [hdial]
  simp only [hloop, bind, Except.bind]
  rfl

end Transfer

/-! ## The source -/

theorem WfCache.mem_data_iff_item? (c : WfCache) (k : GoString) :
    k ∈ c.cache.data ↔ c.item? k ≠ none := by
  rw [c.mem_data_iff, WfCache.item?, ne_eq, find?_eq_none_iff, not_not]

/-- An entry without a deadline is always there to be read. -/
private theorem get_of_no_deadline {c : WfCache} {k : GoString} {e : SnapshotEntry}
    (he : c.item? k = some e) (hd : e.expiresAt = 0) (now : Time) :
    (c.get k now).1 = (e.value, true) := by
  have hhit : c.hit? k now = some e := by
    rw [WfCache.hit?]
    show (c.item? k).filter _ = some e
    rw [he, Option.filter_some, hd]
    rfl
  rw [c.get_fst, hhit]
  rfl

theorem readValues_eq (clock : Nat → Time) (keys : List GoString) (i : Nat) (c : WfCache)
    (values : Finmap fun _ : GoString => GoString) :
    ∃ values' c', readValues clock keys i c.cache values = .ok (values', WfCache.cache c') ∧
      c'.item? = c.item? ∧
      ∀ k e, c.item? k = some e → e.expiresAt = 0 →
        (k ∈ keys ∨ values.lookup k = some e.value) → values'.lookup k = some e.value := by
  induction keys generalizing i c values with
  | nil => exact ⟨values, c, rfl, rfl, fun k e _ _ hk => hk.resolve_left List.not_mem_nil⟩
  | cons key keys ih =>
    obtain ⟨values', c', hread, hitem, hvalues⟩ := ih (i + 1) (c.get key (clock i)).2
      (if (c.get key (clock i)).1.2 then values.insert key (c.get key (clock i)).1.1 else values)
    refine ⟨values', c', ?_, ?_, fun k e he hd hk => ?_⟩
    · rw [readValues, c.cache_get]
      exact hread
    · rw [hitem, c.item?_get]
    · apply hvalues k e (by rwa [c.item?_get]) hd
      by_cases hkey : k = key
      · subst hkey
        right
        rw [get_of_no_deadline he hd, if_pos rfl, Finmap.lookup_insert]
      · rcases hk with hmem | hacc
        · exact .inl ((List.mem_cons.mp hmem).resolve_left hkey)
        · right
          split
          · rwa [Finmap.lookup_insert_of_ne _ hkey]
          · exact hacc

theorem deleteKeys_eq (keys : List GoString) (c : WfCache) :
    ∃ c', deleteKeys keys c.cache = .ok (WfCache.cache c') ∧ (∀ k ∈ keys, c'.item? k = none) ∧
      ∀ k ∉ keys, c'.item? k = c.item? k := by
  induction keys generalizing c with
  | nil => exact ⟨c, rfl, fun k hk => absurd hk List.not_mem_nil, fun k _ => rfl⟩
  | cons key keys ih =>
    obtain ⟨c', hdelete, hgone, hother⟩ := ih (c.delete key)
    refine ⟨c', ?_, fun k hk => ?_, fun k hk => ?_⟩
    · rw [deleteKeys, c.cache_delete]
      exact hdelete
    · by_cases hlater : k ∈ keys
      · exact hgone k hlater
      · obtain rfl := (List.mem_cons.mp hk).resolve_right hlater
        rw [hother k hlater, c.item?_delete, Function.update_self]
    · rw [List.mem_cons, not_or] at hk
      rw [hother k hk.2, c.item?_delete, Function.update_of_ne hk.1]

/-! ## Tasks -/

/-- The entries of the keys in `r` go from the source to the target, without their
    deadlines. -/
structure Moves {ω : Type} (held : ω → GoString → Option GoString) (r : GoString → Prop)
    (c : WfCache) (w : ω) (c' : WfCache) (w' : ω) : Prop where
  gone : ∀ k, r k → c'.item? k = none
  kept : ∀ k, ¬ r k → c'.item? k = c.item? k
  sent : ∀ k e, r k → c.item? k = some e →
    ∃ v, held w' k = some v ∧ (e.expiresAt = 0 → v = e.value)
  other : ∀ k, ¬ r k ∨ c.item? k = none → held w' k = held w k

section Tasks

variable {ω : Type} {net : Network ω} {addr : GoString} {held : ω → GoString → Option GoString}
  {hash : Bytes → UInt32} {sched : Schedule} {r r' : GoString → Prop} {c c₁ c' : WfCache}
  {w w₁ w' : ω}

theorem Moves.refl (hr : ∀ k, ¬ r k) : Moves held r c w c w where
  gone k hk := absurd hk (hr k)
  kept _ _ := rfl
  sent k _ hk := absurd hk (hr k)
  other _ _ := rfl

/-- What has gone with the first is not there for the second. -/
theorem Moves.trans (h : Moves held r c w c₁ w₁) (h' : Moves held r' c₁ w₁ c' w') :
    Moves held (fun k => r k ∨ r' k) c w c' w' where
  gone k hk := by
    by_cases hk' : r' k
    · exact h'.gone k hk'
    · rw [h'.kept k hk', h.gone k (hk.resolve_right hk')]
  kept k hk := by
    rw [not_or] at hk
    rw [h'.kept k hk.2, h.kept k hk.1]
  sent k e hk he := by
    by_cases hfirst : r k
    · obtain ⟨v, hv, hvalue⟩ := h.sent k e hfirst he
      rw [h'.other k (.inr (h.gone k hfirst))]
      exact ⟨v, hv, hvalue⟩
    · apply h'.sent k e (hk.resolve_left hfirst)
      rw [h.kept k hfirst, he]
  other k hk := by
    by_cases hfirst : r k
    · -- the key was not there in the first place
      have hnone := hk.resolve_left fun hnot => hnot (.inl hfirst)
      rw [h'.other k (.inr (h.gone k hfirst)), h.other k (.inr hnone)]
    · rw [h'.other k, h.other k (.inl hfirst)]
      rcases hk with hnot | hnone
      · exact .inl fun hsecond => hnot (.inr hsecond)
      · right
        rw [h.kept k hfirst, hnone]

private theorem mem_getKeysInHashRange (hash : Bytes → UInt32)
    (hsched : ∀ i (c : WfCache), c.cache.Enumerates (sched.order i c.cache)) (c : WfCache)
    (i : Nat) (start stop : UInt32) (k : GoString) :
    k ∈ c.cache.getKeysInHashRange (sched.order i c.cache) start stop hash ↔
      c.item? k ≠ none ∧ hashInRange (hash k.bytes) start stop = true := by
  have horder : k ∈ sched.order i c.cache ↔ k ∈ c.cache.data := by
    rw [← List.mem_toFinset, (hsched i c).2, Finmap.mem_keys]
  rw [Cache.getKeysInHashRange, List.mem_filter, Bool.and_eq_true, decide_eq_true_eq, horder,
    c.mem_data_iff_item?, ← and_assoc, and_self]

/-- A task that ends without an error has sent the keys of its range, if there are
    any, and deleted them. -/
theorem migrateTask_eq_none
    (hsched : ∀ i (c : WfCache), c.cache.Enumerates (sched.order i c.cache)) {i : Nat}
    {task : MigrationTask} {cache' : Cache}
    (hm : migrateTask net hash sched i task addr c.cache w = .ok (none, cache', w')) :
    ∃ keys values, ∃ c' : WfCache, c'.cache = cache' ∧
      (∀ k, k ∈ keys ↔
        c.item? k ≠ none ∧ hashInRange (hash k.bytes) task.startHash task.endHash = true) ∧
      (∀ k, c'.item? k = if hashInRange (hash k.bytes) task.startHash task.endHash = true then none
        else c.item? k) ∧
      (∀ k e, c.item? k = some e → e.expiresAt = 0 → k ∈ keys →
        values.lookup k = some e.value) ∧
      (keys = [] ∧ w' = w ∨ ∃ w₁, transferKeysBatch net addr w keys values 100 = .ok (none, w₁) ∧
        verifyTransfer net addr w₁ keys = .ok (none, w')) := by
  have hmem := mem_getKeysInHashRange hash hsched c i task.startHash task.endHash
  unfold migrateTask at hm
  generalize c.cache.getKeysInHashRange (sched.order i c.cache) task.startHash task.endHash hash =
    keys at hm hmem
  have hrange : ∀ c' : WfCache, (∀ k ∈ keys, c'.item? k = none) →
      (∀ k ∉ keys, c'.item? k = c.item? k) → ∀ k, c'.item? k =
        if hashInRange (hash k.bytes) task.startHash task.endHash = true then none
        else c.item? k := by
    intro c' hgone hkept k
    by_cases hkey : k ∈ keys
    · rw [hgone k hkey, if_pos ((hmem k).mp hkey).2]
    · rw [hkept k hkey]
      split
      · -- the key was not there in the first place
        next hin => exact by_contra fun hsome => hkey ((hmem k).mpr ⟨hsome, hin⟩)
      · rfl
  split at hm
  · cases hm
    exact ⟨[], ∅, c, rfl, hmem, hrange c (fun k hk => absurd hk List.not_mem_nil) (fun _ _ => rfl),
      fun k _ _ _ hk => absurd hk List.not_mem_nil, .inl ⟨rfl, rfl⟩⟩
  · obtain ⟨values, c₁, hread, hitem, hvalues⟩ := readValues_eq (sched.clock i) keys 0 c ∅
    obtain ⟨⟨values', cache₁⟩, hread', hm⟩ := bind_eq_ok.mp hm
    cases hread.symm.trans hread'
    obtain ⟨⟨err, w₁⟩, htransfer, hm⟩ := bind_eq_ok.mp hm
    cases err with
    | some text => exact nomatch hm
    | none =>
      obtain ⟨⟨err, w₂⟩, hverify, hm⟩ := bind_eq_ok.mp hm
      cases err with
      | some text => exact nomatch hm
      | none =>
        obtain ⟨c', hdelete, hgone, hkept⟩ := deleteKeys_eq keys c₁
        obtain ⟨cache₂, hdelete', hm⟩ := bind_eq_ok.mp hm
        cases hdelete.symm.trans hdelete'
        cases hm
        exact ⟨keys, values, c', rfl, hmem,
          hrange c' hgone fun k hk => by rw [hkept k hk, hitem],
          fun k e he hd hk => hvalues k e he hd (.inl hk), .inr ⟨w₁, htransfer, hverify⟩⟩

/-- A task that ends without an error moves the keys of its range. -/
theorem migrateTask_moves (ht : Target net addr held)
    (hsched : ∀ i (c : WfCache), c.cache.Enumerates (sched.order i c.cache)) {i : Nat}
    {task : MigrationTask} {cache' : Cache}
    (hm : migrateTask net hash sched i task addr c.cache w = .ok (none, cache', w')) :
    ∃ c' : WfCache, c'.cache = cache' ∧
      Moves held (fun k => hashInRange (hash k.bytes) task.startHash task.endHash = true)
        c w c' w' := by
  obtain ⟨keys, values, c', hc', hmem, hitem, hvalues, hworld⟩ := migrateTask_eq_none hsched hm
  -- what the target holds then
  have hheld : (∀ k ∈ keys, held w' k = some (valueOf values k)) ∧
      ∀ k ∉ keys, held w' k = held w k := by
    rcases hworld with ⟨rfl, rfl⟩ | ⟨w₁, htransfer, hverify⟩
    · exact ⟨fun k hk => absurd hk List.not_mem_nil, fun _ _ => rfl⟩
    · rw [verifyTransfer_target ht hverify]
      exact held_of_transferKeysBatch ht values (by omega) htransfer
  refine ⟨c', hc', fun k hk => by rw [hitem, if_pos hk], fun k hk => by rw [hitem, if_neg hk],
    fun k e hk he => ?_, fun k hk => ?_⟩
  · have hkey : k ∈ keys := (hmem k).mpr ⟨by simp [he], hk⟩
    refine ⟨valueOf values k, hheld.1 k hkey, fun hd => ?_⟩
    rw [valueOf, hvalues k e he hd hkey]
    rfl
  · apply hheld.2 k
    intro hkey
    obtain ⟨hsome, hrange⟩ := (hmem k).mp hkey
    exact hk.elim (fun hnot => hnot hrange) hsome

/-- The loop over the tasks moves the keys of all ranges. -/
theorem migrateTasks_moves (ht : Target net addr held)
    (hsched : ∀ i (c : WfCache), c.cache.Enumerates (sched.order i c.cache))
    (tasks : List MigrationTask) {i : Nat} {cache' : Cache}
    (hm : migrateTasks net hash sched (fun _ => addr) i tasks c.cache w =
      .ok (none, cache', w')) :
    ∃ c' : WfCache, c'.cache = cache' ∧
      Moves held (fun k => Covers tasks (hash k.bytes)) c w c' w' := by
  induction tasks generalizing i c w with
  | nil =>
    cases hm
    exact ⟨c, rfl, .refl fun k => not_covers_nil _⟩
  | cons task tasks ih =>
    obtain ⟨⟨err, cache₁, w₁⟩, htask, hm⟩ := bind_eq_ok.mp hm
    cases err with
    | some text => exact nomatch hm
    | none =>
      obtain ⟨c₁, rfl, hfirst⟩ := migrateTask_moves ht hsched htask
      obtain ⟨c', hc', hrest⟩ := ih hm
      refine ⟨c', hc', ?_⟩
      simp only [covers_cons]
      exact hfirst.trans hrest

/-- Behind a loop over the tasks, the keys of all ranges are gone from the source, and
    no others. -/
theorem migrateTasks_deletes
    (hsched : ∀ i (c : WfCache), c.cache.Enumerates (sched.order i c.cache))
    (addrOf : MigrationTask → GoString) (tasks : List MigrationTask) {i : Nat} {cache' : Cache}
    (hm : migrateTasks net hash sched addrOf i tasks c.cache w = .ok (none, cache', w')) :
    ∃ c' : WfCache, c'.cache = cache' ∧ ∀ k, c'.item? k =
      if Covers tasks (hash k.bytes) then none else c.item? k := by
  induction tasks generalizing i c w with
  | nil =>
    cases hm
    exact ⟨c, rfl, fun k => (if_neg (not_covers_nil _)).symm⟩
  | cons task tasks ih =>
    obtain ⟨⟨err, cache₁, w₁⟩, htask, hm⟩ := bind_eq_ok.mp hm
    cases err with
    | some text => exact nomatch hm
    | none =>
      obtain ⟨_, _, c₁, rfl, -, hitem, -⟩ := migrateTask_eq_none hsched htask
      obtain ⟨c', hc', hrest⟩ := ih hm
      refine ⟨c', hc', fun k => ?_⟩
      rw [hrest k, hitem k]
      simp only [covers_cons]
      split_ifs <;> tauto

/-- A task to a target that is up ends without an error. -/
private theorem migrateTask_up (hash : Bytes → UInt32) (sched : Schedule)
    (ht : Target net addr held) (hup : Up net addr) (i : Nat) (task : MigrationTask)
    (c : WfCache) (w : ω) :
    ∃ (c' : WfCache) (w' : ω), migrateTask net hash sched i task addr c.cache w =
      .ok (none, c'.cache, w') := by
  unfold migrateTask
  generalize c.cache.getKeysInHashRange (sched.order i c.cache) task.startHash task.endHash hash =
    keys
  split
  · exact ⟨c, w, rfl⟩
  · obtain ⟨values, c₁, hread, _⟩ := readValues_eq (sched.clock i) keys 0 c ∅
    obtain ⟨w₁, hdial⟩ := hup.dial w
    obtain ⟨w₂, htransfer, _⟩ := transferKeysBatch_target ht values keys (Nat.succ_pos 99)
      hdial
    obtain ⟨w₃, hverify⟩ := verifyTransfer_up hup keys w₂
    obtain ⟨c', hdelete, _⟩ := deleteKeys_eq keys c₁
    refine ⟨c', w₃, ?_⟩
    simp only [hread, htransfer, hverify, hdelete, bind, Except.bind]
    rfl

/-- A loop over tasks to a target that is up gets to its end. -/
theorem migrateTasks_up (hash : Bytes → UInt32) (sched : Schedule) (ht : Target net addr held)
    (hup : Up net addr) (tasks : List MigrationTask) (i : Nat) (c : WfCache) (w : ω) :
    ∃ (c' : WfCache) (w' : ω), migrateTasks net hash sched (fun _ => addr) i tasks c.cache w =
      .ok (none, c'.cache, w') := by
  induction tasks generalizing i c w with
  | nil => exact ⟨c, w, rfl⟩
  | cons task tasks ih =>
    obtain ⟨c₁, w₁, htask⟩ := migrateTask_up hash sched ht hup i task c w
    obtain ⟨c', w', hrest⟩ := ih (i + 1) c₁ w₁
    refine ⟨c', w', ?_⟩
    simp only [migrateTasks, htask, bind, Except.bind]
    exact hrest

end Tasks

/-! ## The contents of both nodes -/

/-- What `Get` returns for a key at some time, or none. -/
def visible (c : Cache) (k : GoString) (t : Time) : Option GoString :=
  match c.get k t with
  | .ok ((value, true), _) => some value
  | _ => none

theorem WfCache.visible_eq (c : WfCache) (k : GoString) (t : Time) :
    visible c.cache k t = (c.hit? k t).map SnapshotEntry.value := by
  unfold visible
  rw [c.cache_get, c.get_fst]
  cases c.hit? k t <;> rfl

/-- From `t₀` on, the source and the target together show for every key what the
    source alone showed before, and no key is on both. -/
def Conserved {ω : Type} (held : ω → GoString → Option GoString) (c c' : Cache) (w' : ω)
    (t₀ : Time) : Prop :=
  (∀ k t, t₀ ≤ t → (visible c' k t).or (held w' k) = visible c k t) ∧
    ∀ k, ¬ (k ∈ c'.data ∧ held w' k ≠ none)

section Conserved

variable {ω : Type} {held : ω → GoString → Option GoString} {r : GoString → Prop}
  {c c' : WfCache} {w w' : ω}

theorem WfCache.visible_congr {k : GoString} (h : c'.item? k = c.item? k) (t : Time) :
    visible c'.cache k t = visible c.cache k t := by
  have hhit : c'.hit? k t = c.hit? k t := congrArg (Option.filter _) h
  rw [c'.visible_eq, c.visible_eq, hhit]

private theorem visible_of_none {k : GoString} (h : c.item? k = none) (t : Time) :
    visible c.cache k t = none := by
  have hhit : c.hit? k t = none := by
    show (c.item? k).filter _ = none
    rw [h]
    rfl
  rw [c.visible_eq, hhit]
  rfl

private theorem visible_of_no_deadline {k : GoString} {e : SnapshotEntry}
    (he : c.item? k = some e) (hd : e.expiresAt = 0) (t : Time) :
    visible c.cache k t = some e.value := by
  unfold visible
  rw [c.cache_get, get_of_no_deadline he hd]

private theorem visible_of_expired {k : GoString} {e : SnapshotEntry} (he : c.item? k = some e)
    (hd : e.expiresAt ≠ 0) {t : Time} (ht : e.expiresAt < t) : visible c.cache k t = none := by
  have hhit : c.hit? k t = none := by
    show (c.item? k).filter _ = none
    simp [he, hasExpired, Time.isZero, Time.after, hd, ht]
  rw [c.visible_eq, hhit]
  rfl

/-- A move to an empty target conserves the contents exactly if no entry that moves
    has a deadline. -/
theorem Moves.conserved_iff (h : Moves held r c w c' w') (hempty : ∀ k, held w k = none)
    (t₀ : Time) :
    Conserved held c.cache c'.cache w' t₀ ↔
      ∀ k e, c.item? k = some e → e.expiresAt ≠ 0 → ¬ r k := by
  constructor
  · rintro ⟨hvisible, _⟩ k e he hd hk
    -- once the deadline has passed, only the target still shows the key
    obtain ⟨v, hv, _⟩ := h.sent k e hk he
    obtain ⟨t, ht₀, ht⟩ : ∃ t, t₀ ≤ t ∧ e.expiresAt < t :=
      ⟨max t₀ (e.expiresAt + 1), le_max_left _ _, Nat.lt_of_succ_le (le_max_right _ _)⟩
    have hlater := hvisible k t ht₀
    rw [visible_of_none (h.gone k hk), visible_of_expired he hd ht, hv] at hlater
    exact nomatch hlater
  · intro hfits
    refine ⟨fun k t _ => ?_, fun k => ?_⟩
    · by_cases hk : r k
      · rw [visible_of_none (h.gone k hk), Option.none_or]
        cases he : c.item? k with
        | none => rw [h.other k (.inr he), hempty, visible_of_none he]
        | some e =>
          have hd : e.expiresAt = 0 := by
            by_contra hd
            exact hfits k e he hd hk
          obtain ⟨v, hv, hvalue⟩ := h.sent k e hk he
          rw [hv, hvalue hd, visible_of_no_deadline he hd]
      · rw [h.other k (.inl hk), hempty, Option.or_none, WfCache.visible_congr (h.kept k hk)]
    · rintro ⟨hmem, hheld⟩
      rw [c'.mem_data_iff_item?] at hmem
      by_cases hk : r k
      · exact hmem (h.gone k hk)
      · exact hheld (by rw [h.other k (.inl hk), hempty])

end Conserved

/-- For every cache, every ring that can be built, every new node and every target
    that starts empty: when `MigrateToNewNode` returns nil, the contents of both nodes
    are conserved if and only if no entry with a deadline has its hash in an arc that
    the new node takes over. -/
theorem migration_conserves_iff {ω : Type} (net : Network ω) (newNodeID addr : GoString)
    (held : ω → GoString → Option GoString) (ht : Target net addr held)
    (hash : Bytes → UInt32) (hr : HashRing) (hb : Built hash hr) (c : WfCache) (w : ω)
    (hempty : ∀ k, held w k = none) (sched : Schedule)
    (hsched : ∀ i (c : WfCache), c.cache.Enumerates (sched.order i c.cache)) (c' : Cache)
    (hr' : HashRing) (w' : ω) (t₀ : Time)
    (hm : migrateToNewNode net hash sched newNodeID addr c.cache hr w = .ok (none, c', hr', w')) :
    Conserved held c.cache c' w' t₀ ↔
      ∀ k e, c.item? k = some e → e.expiresAt ≠ 0 → ¬ JoinArc hash hr newNodeID (hash k.bytes) := by
  obtain ⟨tasks, hplan, hm⟩ := bind_eq_ok.mp hm
  obtain ⟨⟨err, cache', world'⟩, htasks, hret⟩ := bind_eq_ok.mp hm
  cases hret
  obtain ⟨c', rfl, hmoves⟩ := migrateTasks_moves ht hsched tasks htasks
  rw [hmoves.conserved_iff hempty]
  simp only [calculateMigrations_arcs hb.sorted hplan]

/-- A target that keeps the keys and values it is sent, and answers `OK` to all. -/
def listTarget : Network (List (GoString × GoString)) where
  dial w _ := .ok w
  write w _ cmd :=
    match parse cmd with
    | .ok (.arr [_, .str k, .str v]) _ => .ok (encodeSimpleString (ascii "OK"), (k, v) :: w)
    | _ => .ok (encodeSimpleString (ascii "OK"), w)

/-- What it holds. -/
def listHeld (w : List (GoString × GoString)) (k : GoString) : Option GoString := find? k w

theorem target_listTarget (addr : GoString) : Target listTarget addr listHeld where
  dial w w' h := by
    cases h
    rfl
  set w k v := by
    have hparse := (frames_encodeArray
      ⟨[.str (lit "SET"), .str k, .str v], by show 48 ≤ maxAlloc; decide⟩).reads []
    rw [List.append_nil] at hparse
    refine ⟨(k, v) :: w, ?_, ?_⟩
    · simp only [listTarget, hparse, List.map_cons, List.map_nil, Element.value]
    · funext k'
      rw [Function.update_apply, listHeld, find?_cons]
      simp only [eq_comm]
      rfl
  get w k answer w' h := by
    have hparse := (frames_encodeArray
      ⟨[.str (lit "GET"), .str k], by show 32 ≤ maxAlloc; decide⟩).reads []
    rw [List.append_nil] at hparse
    simp only [listTarget, hparse, List.map_cons, List.map_nil, Element.value] at h
    cases h
    rfl

/-- The loops over the map go through the LRU list, and the clock stands still. -/
def listSchedule : Schedule := ⟨fun _ c => keys c.entries, fun _ _ => 7⟩

theorem enumerates_listSchedule (i : Nat) (c : WfCache) :
    c.cache.Enumerates (listSchedule.order i c.cache) := by
  refine ⟨c.nodup_entries, ?_⟩
  ext k
  rw [List.mem_toFinset, Finmap.mem_keys, c.mem_data_iff]
  rfl

/-- An entry without a deadline moves to the second node. -/
theorem migration_conserves_iff_plain :
    ∃ c' hr' w', migrateToNewNode listTarget sha256Hash listSchedule (lit "b") (lit "host:1")
        ((WfCache.new 10).set (lit "k") (lit "v") 0 7).cache
        ((HashRing.new 1).addShard sha256Hash (lit "a")) [] = .ok (none, c', hr', w') ∧
      Conserved listHeld ((WfCache.new 10).set (lit "k") (lit "v") 0 7).cache c' w' 8 := by
  have hok : (migrateToNewNode listTarget sha256Hash listSchedule (lit "b") (lit "host:1")
      ((WfCache.new 10).set (lit "k") (lit "v") 0 7).cache
      ((HashRing.new 1).addShard sha256Hash (lit "a")) []).map Prod.fst = .ok none := by
    decide +kernel
  have hentries : ((WfCache.new 10).set (lit "k") (lit "v") 0 7).entries =
      [(lit "k", ⟨lit "v", 0⟩)] := by
    decide +kernel
  obtain ⟨⟨_, c', hr', w'⟩, hm, rfl⟩ := map_eq_ok.mp hok
  refine ⟨c', hr', w', hm, (migration_conserves_iff listTarget (lit "b") (lit "host:1") listHeld
    (target_listTarget _) sha256Hash _ (.addShard _ (.new 1)) _ [] (fun _ => rfl) listSchedule
    enumerates_listSchedule c' hr' w' 8 hm).mpr fun k e he hd => absurd ?_ hd⟩
  rw [WfCache.item?, hentries, find?_cons] at he
  split at he
  · cases he
    rfl
  · cases he

/-- An entry that lives for five seconds is moved, and the target keeps it for ever. -/
theorem migration_drops_deadline :
    ∃ c' hr' w', migrateToNewNode listTarget sha256Hash listSchedule (lit "b") (lit "host:1")
        ((WfCache.new 10).set (lit "k") (lit "v") (5 * second) 7).cache
        ((HashRing.new 1).addShard sha256Hash (lit "a")) [] = .ok (none, c', hr', w') ∧
      visible ((WfCache.new 10).set (lit "k") (lit "v") (5 * second) 7).cache (lit "k")
        6000000000 = none ∧
      listHeld w' (lit "k") = some (lit "v") ∧
      ¬ Conserved listHeld ((WfCache.new 10).set (lit "k") (lit "v") (5 * second) 7).cache c' w'
        8 := by
  have hok : (migrateToNewNode listTarget sha256Hash listSchedule (lit "b") (lit "host:1")
      ((WfCache.new 10).set (lit "k") (lit "v") (5 * second) 7).cache
      ((HashRing.new 1).addShard sha256Hash (lit "a")) []).map
        (fun r => (r.1, visible r.2.1 (lit "k") 6000000000, listHeld r.2.2.2 (lit "k"))) =
      .ok (none, none, some (lit "v")) := by
    decide +kernel
  have hbefore : visible ((WfCache.new 10).set (lit "k") (lit "v") (5 * second) 7).cache
      (lit "k") 6000000000 = none := by
    decide +kernel
  obtain ⟨⟨err, c', hr', w'⟩, hm, heq⟩ := map_eq_ok.mp hok
  simp only [Prod.mk.injEq] at heq
  obtain ⟨rfl, hsource, htarget⟩ := heq
  refine ⟨c', hr', w', hm, hbefore, htarget, fun hconserved => ?_⟩
  have hlater := hconserved.1 (lit "k") 6000000000 (by decide)
  rw [hsource, htarget, hbefore] at hlater
  exact nomatch hlater

end GoCache.Spec
