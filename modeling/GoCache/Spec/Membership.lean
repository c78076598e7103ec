import GoCache.Spec.Ring

/-!
# Arbitrary calls on the ring

`AddShard` and `RemoveShard` do not look whether the shard is there. A shard that
is added twice stands on the ring twice, and a position that two shards share
stands there twice as well, while the map has room for one entry. `RemoveShard`
takes one occurrence from the slice and the entry from the map, so the other
occurrence remains, with no shard behind it.

## Key results

- `Routed.add`, `Routed.remove`: every position keeps leading to a member, as long
  as a removal clears the positions of its shard
- `routes_to_members`: such calls, in any number and any order
- `readded_shard_leaves_positions`: a shard that is added twice and removed once
-/

namespace GoCache.Spec

open GoCache.Native Circle

/-- A call on a ring, with the shards that were added and not removed since. -/
def call (hash : Bytes → UInt32) (ring : HashRing × Finset GoString) :
    Change → HashRing × Finset GoString
  | .add shardID => (ring.1.addShard hash shardID, insert shardID ring.2)
  | .remove shardID => (ring.1.removeShard hash shardID, ring.2.erase shardID)

/-- No position of the shard stands on the ring more often than the shard has
    virtual nodes there, so that `RemoveShard` leaves none of them. -/
def Clears (hash : Bytes → UInt32) (hr : HashRing) (m : GoString) : Prop :=
  ∀ p ∈ vnodeHashes hash hr.virtualNodes m,
    hr.hashValues.count p ≤ (vnodeHashes hash hr.virtualNodes m).count p

/-- What is asked of a call, in the state before it. -/
def Change.Clean (hash : Bytes → UInt32) (ring : HashRing × Finset GoString) : Change → Prop
  | .add _ => True
  | .remove shardID => Clears hash ring.1 shardID

/-- Every position on the ring leads to a member that has it. -/
structure Routed (hash : Bytes → UInt32) (hr : HashRing) (members : Finset GoString) : Prop where
  sorted : hr.hashValues.Pairwise (· ≤ ·)
  lookup : ∀ p ∈ hr.hashValues, ∃ m ∈ members,
    hr.hashToShard.lookup p = some m ∧ p ∈ shardPositions hash hr.virtualNodes m

section Routed

variable {hash : Bytes → UInt32} {hr : HashRing} {members : Finset GoString} {m : GoString}

theorem routed_new (hash : Bytes → UInt32) (v : Int64) : Routed hash (HashRing.new v) ∅ where
  sorted := .nil
  lookup _ hp := absurd hp List.not_mem_nil

/-- `AddShard` of any shard. -/
theorem Routed.add (h : Routed hash hr members) (m : GoString) :
    Routed hash (hr.addShard hash m) (insert m members) where
  sorted := sorted_addShard hash hr m
  lookup p hp := by
    rw [addShard_virtualNodes]
    by_cases hpm : p ∈ shardPositions hash hr.virtualNodes m
    · exact ⟨m, Finset.mem_insert_self m members, lookup_addShard_of_mem hpm, hpm⟩
    · have hold := ((mem_addShard hash hr m p).mp hp).resolve_right hpm
      obtain ⟨m', hm', hlookup, hpm'⟩ := h.lookup p hold
      exact ⟨m', Finset.mem_insert_of_mem hm', (lookup_addShard_of_notMem hpm).trans hlookup, hpm'⟩

/-- A removal that clears the positions of its shard leaves none of them. -/
theorem Clears.notMem (h : Clears hash hr m) {p : UInt32}
    (hp : p ∈ (hr.removeShard hash m).hashValues) :
    p ∉ shardPositions hash hr.virtualNodes m := by
  intro hpm
  have hmem := (mem_vnodeHashes hr.virtualNodes m p).mpr hpm
  have hcount := h p hmem
  rw [removeShard_hashValues] at hp
  have hpos := List.count_pos_iff.mpr hp
  rw [List.count_diff] at hpos
  omega

/-- On a ring that holds the virtual nodes of its members once, every removal clears
    the positions of its shard. -/
theorem Represents.clears {v : Int64} (h : Represents hash v hr members) (m : GoString) :
    Clears hash hr m := by
  intro p hp
  have hnodup : hr.hashValues.Nodup := h.sorted.imp ne_of_lt
  have hle := List.nodup_iff_count_le_one.mp hnodup p
  have hpos := List.count_pos_iff.mpr hp
  omega

/-- `RemoveShard` of a shard whose positions it clears. -/
theorem Routed.remove (h : Routed hash hr members) (hclears : Clears hash hr m) :
    Routed hash (hr.removeShard hash m) (members.erase m) where
  sorted := h.sorted.sublist (removeShard_sublist hash hr m)
  lookup p hp := by
    rw [removeShard_virtualNodes]
    have hpm := hclears.notMem hp
    obtain ⟨m', hm', hlookup, hpm'⟩ := h.lookup p ((removeShard_sublist hash hr m).subset hp)
    have hne : m' ≠ m := fun heq => hpm (heq ▸ hpm')
    exact ⟨m', Finset.mem_erase.mpr ⟨hne, hm'⟩, (lookup_removeShard_of_notMem hpm).trans hlookup,
      hpm'⟩

/-- A ring with positions gives every key to a member. -/
theorem Routed.exists_member (h : Routed hash hr members) (hne : hr.hashValues ≠ [])
    (key : GoString) : ∃ m ∈ members, hr.responsible hash key = .ok m := by
  obtain ⟨p, hfirst, hresponsible⟩ :=
    exists_first_responsible hash h.sorted (List.length_pos_of_ne_nil hne) key
  obtain ⟨m, hm, hlookup, _⟩ := h.lookup p hfirst.mem
  refine ⟨m, hm, ?_⟩
  rw [hresponsible, HashRing.shardAt, hlookup]
  rfl

/-- Without members there are no positions. -/
theorem Routed.hashValues_eq_nil (h : Routed hash hr ∅) : hr.hashValues = [] := by
  rw [List.eq_nil_iff_forall_not_mem]
  intro p hp
  obtain ⟨m, hm, _⟩ := h.lookup p hp
  exact absurd hm (Finset.notMem_empty m)

end Routed

/-- The rings, with their members, that calls meeting the condition lead to. -/
def CleanRun (hash : Bytes → UInt32) (v : Int64) (hr : HashRing) (members : Finset GoString) :
    Prop :=
  Transition.Reaches (fun ring c => some (call hash ring c)) (fun ring c => c.Clean hash ring)
    (HashRing.new v, ∅) (hr, members)

section CleanRun

variable {hash : Bytes → UInt32} {v : Int64} {hr : HashRing} {members : Finset GoString}

theorem CleanRun.add (h : CleanRun hash v hr members) (m : GoString) :
    CleanRun hash v (hr.addShard hash m) (insert m members) := h.step (.add m) trivial rfl

theorem CleanRun.remove (h : CleanRun hash v hr members) {m : GoString}
    (hclears : Clears hash hr m) : CleanRun hash v (hr.removeShard hash m) (members.erase m) :=
  h.step (.remove m) hclears rfl

/-- The invariant along every such run. -/
theorem CleanRun.routed (h : CleanRun hash v hr members) : Routed hash hr members := by
  let inv := fun ring : HashRing × Finset GoString => Routed hash ring.1 ring.2
  have hinv : inv (hr, members) := by
    apply Transition.Reaches.invariant h
    · exact routed_new hash v
    rintro ⟨hr, members⟩ c ring' hrouted hclean hstep
    cases hstep
    cases c with
    | add m => exact hrouted.add m
    | remove m => exact hrouted.remove hclean
  exact hinv

end CleanRun

/-- In every run of `AddShard` and `RemoveShard` calls in which each removal clears
    the positions of its shard, a ring with positions gives every key to a shard
    that was added and not removed since, and a ring whose shards are all removed
    gives the error of the empty ring. -/
theorem routes_to_members (hash : Bytes → UInt32) (v : Int64) (hr : HashRing)
    (members : Finset GoString) (h : CleanRun hash v hr members) :
    (hr.hashValues ≠ [] → ∀ key, ∃ m ∈ members, hr.getShard hash key = .ok m) ∧
    (members = ∅ → ∀ key, hr.getShard hash key = .error (ascii "hash ring is empty")) := by
  have hrouted := h.routed
  refine ⟨fun hne key => hrouted.exists_member hne key, ?_⟩
  rintro rfl key
  exact responsible_of_nil hrouted.hashValues_eq_nil key

/-- Two shards are added, and the second is removed. -/
theorem routes_to_members_two : ∃ hr,
    CleanRun sha256Hash 1 hr {lit "a"} ∧ hr.getShard sha256Hash (lit "k") = .ok (lit "a") := by
  have hnew : CleanRun sha256Hash 1 (HashRing.new 1) ∅ := .refl
  have hrep := ((reachable_two (lit "a") (lit "b") (by decide) (by decide)
    (by decide)).represents noCollision_two).1
  have hremove := ((hnew.add (lit "a")).add (lit "b")).remove (hrep.clears (lit "b"))
  have hmembers : Finset.erase {lit "b", lit "a"} (lit "b") = {lit "a"} := by decide
  rw [show insert (lit "b") (insert (lit "a") ∅) = {lit "b", lit "a"} from rfl, hmembers]
    at hremove
  obtain ⟨m, hm, hget⟩ := (routes_to_members _ _ _ _ hremove).1 (by decide +kernel) (lit "k")
  rw [Finset.mem_singleton.mp hm] at hget
  exact ⟨_, hremove, hget⟩

/-- A shard is added, added again and removed: no shard is left, but keys are given
    to the shard with the empty ID. -/
theorem readded_shard_leaves_positions :
    let ring := [Change.add (lit "a"), .add (lit "a"), .remove (lit "a")].foldl (call sha256Hash)
      (HashRing.new 1, ∅)
    ring.2 = ∅ ∧ ring.1.hashValues ≠ [] ∧
      ring.1.getShard sha256Hash (lit "k") = .ok GoString.empty := by
  decide +kernel

end GoCache.Spec
