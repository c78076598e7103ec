import GoCache.ForStd.Circle
import GoCache.ForStd.Reaches
import GoCache.Native.HashRing
import GoCache.Spec.ProtocolCorrect

/-!
# The ring as a set of members

A ring that is built by adding absent and removing present shards is determined
by its members: the sorted slice holds the positions of their virtual nodes, the
map takes each position to its member. So a key belongs to the member whose
position comes first in a clockwise walk from the key's hash.

The hash function is arbitrary. What is assumed of it is that the names of the
virtual nodes in play do not collide.

## Key results

- `virtualKey_inj`: the names of virtual nodes are different
- `Represents.add`, `Represents.remove`: both operations keep the invariant
- `ring_is_successor_map`: lookups on every reachable ring
- `minimal_disruption`: which keys change hands when a shard comes or goes
-/

namespace GoCache.Spec

open GoCache.Native Circle

/-- Words of 32 bits are linearly ordered. -/
instance linearOrderUInt32 : LinearOrder UInt32 where
  le_refl := UInt32.le_refl
  le_trans _ _ _ := UInt32.le_trans
  lt_iff_le_not_ge _ _ := by
    rw [UInt32.lt_iff_toNat_lt, UInt32.le_iff_toNat_le, UInt32.le_iff_toNat_le]
    omega
  le_antisymm _ _ := UInt32.le_antisymm
  le_total := UInt32.le_total
  toDecidableLE := inferInstance

/-! ## Names of virtual nodes -/

/-- The number of virtual nodes of a shard. -/
def vnodeCount (virtualNodes : Int64) : Nat := virtualNodes.toInt.toNat

theorem vnodeCount_lt (v : Int64) : vnodeCount v < 2 ^ 63 := by
  have hlt := Int64.toInt_lt v
  unfold vnodeCount
  omega

private theorem toInt_ofNat {i : Nat} (hi : i < 2 ^ 63) : (Int64.ofNat i).toInt = i :=
  Int64.toInt_ofNat_of_lt hi

/-- The number of a virtual node is written in digits only. -/
private theorem dash_notMem_itoa {i : Nat} (hi : i < 2 ^ 63) :
    byte '-' ∉ itoa (Int64.ofNat i) := by
  intro hmem
  rw [itoa, toInt_ofNat hi] at hmem
  have hrange := (Decimal.formatNat_range hmem).1
  exact absurd hrange (by decide)

/-- What stands in front of the last dash, and what stands behind it. -/
private theorem append_dash_inj {a a' d d' : Bytes} {b : UInt8} (hd : b ∉ d) (hd' : b ∉ d')
    (h : a ++ b :: d = a' ++ b :: d') : a = a' ∧ d = d' := by
  have hrev := congrArg List.reverse h
  simp only [List.reverse_append, List.reverse_cons, List.append_assoc, List.singleton_append]
    at hrev
  -- read backwards, the digits end at the first dash
  have hdigits : d.reverse = d'.reverse := by
    have htake := congrArg (List.takeWhile (· ≠ b)) hrev
    rw [List.takeWhile_append_of_pos, List.takeWhile_append_of_pos] at htake
    · simpa using htake
    · intro x hx
      simp only [decide_eq_true_eq]
      rintro rfl
      exact hd' (List.mem_reverse.mp hx)
    · intro x hx
      simp only [decide_eq_true_eq]
      rintro rfl
      exact hd (List.mem_reverse.mp hx)
  rw [hdigits, List.append_cancel_left_eq, List.cons.injEq] at hrev
  exact ⟨List.reverse_injective hrev.2, List.reverse_injective hdigits⟩

/-- Different virtual nodes have different names, whatever the shards are called. -/
theorem virtualKey_inj {m m' : GoString} {i i' : Nat} (hi : i < 2 ^ 63) (hi' : i' < 2 ^ 63)
    (h : virtualKey m i = virtualKey m' i') : m = m' ∧ i = i' := by
  obtain ⟨hbytes, hdigits⟩ := append_dash_inj (dash_notMem_itoa hi) (dash_notMem_itoa hi') h
  have hnum := congrArg atoi hdigits
  rw [atoi_itoa, atoi_itoa, Option.some.injEq] at hnum
  have htoInt := congrArg Int64.toInt hnum
  rw [toInt_ofNat hi, toInt_ofNat hi'] at htoInt
  exact ⟨GoString.ext hbytes, by omega⟩

/-! ## Positions -/

section Hash

variable (hash : Bytes → UInt32)

/-- The position of a virtual node. -/
def position (m : GoString) (i : Nat) : UInt32 := hash (virtualKey m i)

/-- The positions of the virtual nodes of a shard. -/
def shardPositions (v : Int64) (m : GoString) : Set UInt32 :=
  {p | ∃ i < vnodeCount v, p = position hash m i}

/-- The positions of the virtual nodes of a shard one after the other, with those
    that coincide. -/
def vnodeHashes (v : Int64) (m : GoString) : List UInt32 :=
  (List.range (vnodeCount v)).map (position hash m)

/-- The positions of the virtual nodes of a set of members. -/
def positions (v : Int64) (members : Finset GoString) : Set UInt32 :=
  {p | ∃ m ∈ members, p ∈ shardPositions hash v m}

/-- No two different names of virtual nodes of these shards have the same hash. -/
def NoCollision (v : Int64) (shards : Set GoString) : Prop :=
  ∀ m ∈ shards, ∀ m' ∈ shards, ∀ i < vnodeCount v, ∀ i' < vnodeCount v,
    hash (virtualKey m i) = hash (virtualKey m' i') → virtualKey m i = virtualKey m' i'

variable {hash} {v : Int64} {shards : Set GoString} {m m' : GoString} {members : Finset GoString}

theorem NoCollision.position_inj (h : NoCollision hash v shards) (hm : m ∈ shards)
    (hm' : m' ∈ shards) {i i' : Nat} (hi : i < vnodeCount v) (hi' : i' < vnodeCount v)
    (heq : position hash m i = position hash m' i') : m = m' ∧ i = i' := by
  have hlt := vnodeCount_lt v
  exact virtualKey_inj (by omega) (by omega) (h m hm m' hm' i hi i' hi' heq)

/-- Without collisions, a position belongs to one shard. -/
theorem NoCollision.owner_unique (h : NoCollision hash v shards) (hm : m ∈ shards)
    (hm' : m' ∈ shards) {p : UInt32} (hp : p ∈ shardPositions hash v m)
    (hp' : p ∈ shardPositions hash v m') : m = m' := by
  obtain ⟨i, hi, rfl⟩ := hp
  obtain ⟨i', hi', heq⟩ := hp'
  exact (h.position_inj hm hm' hi hi' heq).1

theorem positions_insert (m : GoString) (members : Finset GoString) :
    positions hash v (insert m members) = positions hash v members ∪ shardPositions hash v m := by
  ext p
  simp only [positions, Finset.mem_insert, Set.mem_ofPred_eq, Set.mem_union]
  constructor
  · rintro ⟨m', rfl | hm', hp⟩
    · exact .inr hp
    · exact .inl ⟨m', hm', hp⟩
  · rintro (⟨m', hm', hp⟩ | hp)
    · exact ⟨m', .inr hm', hp⟩
    · exact ⟨m, .inl rfl, hp⟩

/-! ## The invariant -/

/-- The ring holds the virtual nodes of these members. -/
structure Represents (hash : Bytes → UInt32) (v : Int64) (hr : HashRing)
    (members : Finset GoString) : Prop where
  virtualNodes : hr.virtualNodes = v
  sorted : hr.hashValues.Pairwise (· < ·)
  mem_iff : ∀ p, p ∈ hr.hashValues ↔ p ∈ positions hash v members
  lookup : ∀ m ∈ members, ∀ p ∈ shardPositions hash v m, hr.hashToShard.lookup p = some m

theorem represents_new (v : Int64) : Represents hash v (HashRing.new v) ∅ where
  virtualNodes := rfl
  sorted := .nil
  mem_iff p := by simp [HashRing.new, positions]
  lookup m hm := absurd hm (Finset.notMem_empty m)

/-- The loop of `AddShard`: every virtual node is entered in the map and appended
    to the slice. -/
private theorem foldl_addVirtualNode (hash : Bytes → UInt32) (m : GoString) (is : List Nat)
    (hr : HashRing) :
    (is.foldl (HashRing.addVirtualNode hash m) hr).virtualNodes = hr.virtualNodes ∧
    ((is.foldl (HashRing.addVirtualNode hash m) hr).shardToNodes = hr.shardToNodes ∧
      (is.foldl (HashRing.addVirtualNode hash m) hr).nodeAddresses = hr.nodeAddresses) ∧
    (is.foldl (HashRing.addVirtualNode hash m) hr).hashValues =
      hr.hashValues ++ is.map (position hash m) ∧
    ∀ p, (is.foldl (HashRing.addVirtualNode hash m) hr).hashToShard.lookup p =
      if p ∈ is.map (position hash m) then some m else hr.hashToShard.lookup p := by
  induction is generalizing hr with
  | nil => simp
  | cons i is ih =>
    obtain ⟨hvirtual, hnodes, hvalues, hlookup⟩ := ih (hr.addVirtualNode hash m i)
    rw [List.foldl_cons]
    refine ⟨hvirtual, hnodes, ?_, fun p => ?_⟩
    · rw [hvalues, List.map_cons]
      show (hr.hashValues ++ [position hash m i]) ++ _ = _
      rw [List.append_assoc, List.singleton_append]
    · rw [hlookup p, List.map_cons]
      show (if p ∈ is.map (position hash m) then some m
        else (hr.hashToShard.insert (position hash m i) m).lookup p) = _
      by_cases hp : p ∈ is.map (position hash m)
      · rw [if_pos hp, if_pos (List.mem_cons_of_mem _ hp)]
      · rw [if_neg hp]
        by_cases hpi : p = position hash m i
        · rw [hpi, Finmap.lookup_insert, if_pos List.mem_cons_self]
        · rw [Finmap.lookup_insert_of_ne _ hpi, if_neg (by simp [hpi, hp])]

theorem mem_vnodeHashes (v : Int64) (m : GoString) (p : UInt32) :
    p ∈ vnodeHashes hash v m ↔ p ∈ shardPositions hash v m := by
  simp only [vnodeHashes, List.mem_map, List.mem_range, shardPositions, Set.mem_ofPred_eq]
  constructor
  · rintro ⟨i, hi, rfl⟩
    exact ⟨i, hi, rfl⟩
  · rintro ⟨i, hi, rfl⟩
    exact ⟨i, hi, rfl⟩

section AddShard

variable (hash) (hr : HashRing) (m : GoString)

theorem addShard_virtualNodes : (hr.addShard hash m).virtualNodes = hr.virtualNodes :=
  (foldl_addVirtualNode hash m hr.vnodes hr).1

theorem addShard_shardToNodes : (hr.addShard hash m).shardToNodes = hr.shardToNodes :=
  (foldl_addVirtualNode hash m hr.vnodes hr).2.1.1

theorem addShard_nodeAddresses : (hr.addShard hash m).nodeAddresses = hr.nodeAddresses :=
  (foldl_addVirtualNode hash m hr.vnodes hr).2.1.2

theorem perm_addShard : (hr.addShard hash m).hashValues.Perm
    (hr.hashValues ++ vnodeHashes hash hr.virtualNodes m) := by
  show (List.insertionSort (· ≤ ·) _).Perm _
  rw [(foldl_addVirtualNode hash m hr.vnodes hr).2.2.1]
  exact List.perm_insertionSort _ _

theorem sorted_addShard : (hr.addShard hash m).hashValues.Pairwise (· ≤ ·) :=
  List.pairwise_insertionSort _ _

/-- The positions of the shard come to those the ring has. -/
theorem mem_addShard (p : UInt32) : p ∈ (hr.addShard hash m).hashValues ↔
    p ∈ hr.hashValues ∨ p ∈ shardPositions hash hr.virtualNodes m := by
  rw [(perm_addShard hash hr m).mem_iff, List.mem_append, mem_vnodeHashes]

variable {hash hr m}

theorem lookup_addShard_of_mem {p : UInt32} (hp : p ∈ shardPositions hash hr.virtualNodes m) :
    (hr.addShard hash m).hashToShard.lookup p = some m := by
  have hlookup := (foldl_addVirtualNode hash m hr.vnodes hr).2.2.2 p
  exact hlookup.trans (if_pos ((mem_vnodeHashes hr.virtualNodes m p).mpr hp))

theorem lookup_addShard_of_notMem {p : UInt32} (hp : p ∉ shardPositions hash hr.virtualNodes m) :
    (hr.addShard hash m).hashToShard.lookup p = hr.hashToShard.lookup p := by
  have hlookup := (foldl_addVirtualNode hash m hr.vnodes hr).2.2.2 p
  exact hlookup.trans (if_neg (mt (mem_vnodeHashes hr.virtualNodes m p).mp hp))

end AddShard

private theorem nodup_vnodeHashes (h : NoCollision hash v shards) (hm : m ∈ shards) :
    (vnodeHashes hash v m).Nodup := by
  apply List.Nodup.map_on
  · intro i hi i' hi' heq
    rw [List.mem_range] at hi hi'
    exact (h.position_inj hm hm hi hi' heq).2
  · exact List.nodup_range

/-- `AddShard` of an absent shard. -/
theorem Represents.add {hr : HashRing} (h : Represents hash v hr members)
    (hc : NoCollision hash v shards) (hsub : ∀ m ∈ members, m ∈ shards) (hm : m ∈ shards)
    (hnew : m ∉ members) : Represents hash v (hr.addShard hash m) (insert m members) := by
  -- the new positions are different from each other and from the old ones
  have hother : ∀ m' ∈ members, ∀ p ∈ shardPositions hash v m', p ∉ shardPositions hash v m := by
    intro m' hm' p hp hpm
    exact hnew (hc.owner_unique (hsub m' hm') hm hp hpm ▸ hm')
  have hnodup : (hr.hashValues ++ vnodeHashes hash v m).Nodup := by
    rw [List.nodup_append]
    refine ⟨h.sorted.imp ne_of_lt, nodup_vnodeHashes hc hm, ?_⟩
    rintro p hp q hq rfl
    obtain ⟨m', hm', hp'⟩ := (h.mem_iff p).mp hp
    exact hother m' hm' p hp' ((mem_vnodeHashes v m p).mp hq)
  refine ⟨(addShard_virtualNodes hash hr m).trans h.virtualNodes, ?_, fun p => ?_,
    fun m' hm' p hp => ?_⟩
  · have hne : (hr.addShard hash m).hashValues.Pairwise (· ≠ ·) := by
      have hperm := perm_addShard hash hr m
      rw [h.virtualNodes] at hperm
      exact hperm.nodup_iff.mpr hnodup
    exact ((sorted_addShard hash hr m).and hne).imp fun ⟨hle, hne⟩ => lt_of_le_of_ne hle hne
  · rw [mem_addShard, h.virtualNodes, positions_insert, h.mem_iff, Set.mem_union]
  · rcases Finset.mem_insert.mp hm' with rfl | hm'
    · rw [lookup_addShard_of_mem]
      rw [h.virtualNodes]
      exact hp
    · rw [lookup_addShard_of_notMem]
      · exact h.lookup m' hm' p hp
      · rw [h.virtualNodes]
        exact hother m' hm' p hp

/-- The loop of `RemoveShard`: every virtual node goes from the map, and one
    occurrence of it from the slice. -/
private theorem foldl_removeVirtualNode (hash : Bytes → UInt32) (m : GoString) (is : List Nat)
    (hr : HashRing) :
    (is.foldl (HashRing.removeVirtualNode hash m) hr).virtualNodes = hr.virtualNodes ∧
    ((is.foldl (HashRing.removeVirtualNode hash m) hr).shardToNodes = hr.shardToNodes ∧
      (is.foldl (HashRing.removeVirtualNode hash m) hr).nodeAddresses = hr.nodeAddresses) ∧
    (is.foldl (HashRing.removeVirtualNode hash m) hr).hashValues =
      hr.hashValues.diff (is.map (position hash m)) ∧
    ∀ p, (is.foldl (HashRing.removeVirtualNode hash m) hr).hashToShard.lookup p =
      if p ∈ is.map (position hash m) then none else hr.hashToShard.lookup p := by
  induction is generalizing hr with
  | nil => simp
  | cons i is ih =>
    obtain ⟨hvirtual, hnodes, hvalues, hlookup⟩ := ih (hr.removeVirtualNode hash m i)
    rw [List.foldl_cons]
    refine ⟨hvirtual, hnodes, ?_, fun p => ?_⟩
    · rw [hvalues, List.map_cons, List.diff_cons]
      rfl
    · rw [hlookup p, List.map_cons]
      show (if p ∈ is.map (position hash m) then none
        else (hr.hashToShard.erase (position hash m i)).lookup p) = _
      by_cases hp : p ∈ is.map (position hash m)
      · rw [if_pos hp, if_pos (List.mem_cons_of_mem _ hp)]
      · rw [if_neg hp]
        by_cases hpi : p = position hash m i
        · rw [hpi, Finmap.lookup_erase, if_pos List.mem_cons_self]
        · rw [Finmap.lookup_erase_ne hpi, if_neg (by simp [hpi, hp])]

section RemoveShard

variable (hash) (hr : HashRing) (m : GoString)

theorem removeShard_virtualNodes : (hr.removeShard hash m).virtualNodes = hr.virtualNodes :=
  (foldl_removeVirtualNode hash m hr.vnodes hr).1

theorem removeShard_shardToNodes : (hr.removeShard hash m).shardToNodes = hr.shardToNodes :=
  (foldl_removeVirtualNode hash m hr.vnodes hr).2.1.1

theorem removeShard_nodeAddresses : (hr.removeShard hash m).nodeAddresses = hr.nodeAddresses :=
  (foldl_removeVirtualNode hash m hr.vnodes hr).2.1.2

theorem removeShard_hashValues : (hr.removeShard hash m).hashValues =
    hr.hashValues.diff (vnodeHashes hash hr.virtualNodes m) :=
  (foldl_removeVirtualNode hash m hr.vnodes hr).2.2.1

theorem removeShard_sublist : (hr.removeShard hash m).hashValues.Sublist hr.hashValues := by
  rw [removeShard_hashValues]
  exact List.diff_sublist _ _

variable {hash hr m} {p : UInt32}

theorem lookup_removeShard_of_mem (hp : p ∈ shardPositions hash hr.virtualNodes m) :
    (hr.removeShard hash m).hashToShard.lookup p = none := by
  have hlookup := (foldl_removeVirtualNode hash m hr.vnodes hr).2.2.2 p
  exact hlookup.trans (if_pos ((mem_vnodeHashes hr.virtualNodes m p).mpr hp))

theorem lookup_removeShard_of_notMem (hp : p ∉ shardPositions hash hr.virtualNodes m) :
    (hr.removeShard hash m).hashToShard.lookup p = hr.hashToShard.lookup p := by
  have hlookup := (foldl_removeVirtualNode hash m hr.vnodes hr).2.2.2 p
  exact hlookup.trans (if_neg (mt (mem_vnodeHashes hr.virtualNodes m p).mp hp))

/-- Positions of other shards stay. -/
theorem mem_removeShard_of_notMem (hp : p ∉ shardPositions hash hr.virtualNodes m) :
    p ∈ (hr.removeShard hash m).hashValues ↔ p ∈ hr.hashValues := by
  rw [removeShard_hashValues]
  constructor
  · intro hmem
    exact (List.diff_sublist _ _).subset hmem
  · intro hmem
    exact List.mem_diff_of_mem hmem (mt (mem_vnodeHashes hr.virtualNodes m p).mp hp)

end RemoveShard

/-- `RemoveShard`, of a member or not. -/
theorem Represents.remove {hr : HashRing} (h : Represents hash v hr members)
    (hc : NoCollision hash v shards) (hsub : ∀ m ∈ members, m ∈ shards) (hm : m ∈ shards) :
    Represents hash v (hr.removeShard hash m) (members.erase m) := by
  obtain ⟨rfl, hsorted, hmem, hlookup⟩ := h
  refine ⟨removeShard_virtualNodes hash hr m, hsorted.sublist (removeShard_sublist hash hr m),
    fun p => ?_, ?_⟩
  · have hnodup : hr.hashValues.Nodup := hsorted.imp ne_of_lt
    rw [removeShard_hashValues, hnodup.mem_sdiff_iff, hmem, mem_vnodeHashes]
    constructor
    · rintro ⟨⟨m', hm', hp⟩, hnot⟩
      have hne : m' ≠ m := fun heq => hnot (heq ▸ hp)
      exact ⟨m', Finset.mem_erase.mpr ⟨hne, hm'⟩, hp⟩
    · rintro ⟨m', hm', hp⟩
      obtain ⟨hne, hm'⟩ := Finset.mem_erase.mp hm'
      exact ⟨⟨m', hm', hp⟩, fun hpm => hne (hc.owner_unique (hsub m' hm') hm hp hpm)⟩
  · intro m' hm' p hp
    obtain ⟨hne, hm'⟩ := Finset.mem_erase.mp hm'
    rw [lookup_removeShard_of_notMem]
    · exact hlookup m' hm' p hp
    · exact fun hpm => hne (hc.owner_unique (hsub m' hm') hm hp hpm)

/-! ## Lookup -/

/-- The member whose position comes first from the hash on. -/
def Owns (hash : Bytes → UInt32) (v : Int64) (members : Finset GoString) (h : UInt32)
    (m : GoString) : Prop :=
  m ∈ members ∧ ∃ p ∈ shardPositions hash v m, First (h ≤ ·) (positions hash v members) p

theorem Owns.unique (hc : NoCollision hash v shards) (hsub : ∀ m ∈ members, m ∈ shards)
    {h : UInt32} (ho : Owns hash v members h m) (ho' : Owns hash v members h m') : m = m' := by
  obtain ⟨hm, p, hp, hfirst⟩ := ho
  obtain ⟨hm', p', hp', hfirst'⟩ := ho'
  obtain rfl := hfirst.unique hfirst'
  exact hc.owner_unique (hsub m hm) (hsub m' hm') hp hp'

section Lookup

variable {hr hr' : HashRing}

/-! ### Rings whose positions may coincide -/

/-- A lookup returns the shard at the first position from the key's hash on. -/
theorem exists_first_responsible (hash : Bytes → UInt32) (hsorted : hr.hashValues.Pairwise (· ≤ ·))
    (hne : 0 < hr.hashValues.length) (key : GoString) :
    ∃ p, First (hash key.bytes ≤ ·) {p | p ∈ hr.hashValues} p ∧
      hr.responsible hash key = .ok (hr.shardAt p) := by
  have hidx := HashRing.wrapIndex_lt (hr.searchIndex (hash key.bytes)) hne
  refine ⟨hr.hashValues.get ⟨_, hidx⟩, ?_, ?_⟩
  · apply first_getElem hsorted hidx
    · intro a b hab ha
      exact ha.trans hab
    · unfold HashRing.wrapIndex
      split
      · next hge => exact .inr ⟨hge, rfl⟩
      · exact .inl rfl
  · unfold HashRing.responsible
    rw [dif_pos hne]
    rfl

theorem responsible_of_first (hsorted : hr.hashValues.Pairwise (· ≤ ·)) {key : GoString}
    {p : UInt32} (hfirst : First (hash key.bytes ≤ ·) {p | p ∈ hr.hashValues} p) :
    hr.responsible hash key = .ok (hr.shardAt p) := by
  obtain ⟨q, hq, hlookup⟩ :=
    exists_first_responsible hash hsorted (List.length_pos_of_mem hfirst.mem) key
  rw [hlookup, hq.unique hfirst]

theorem responsible_of_nil (hempty : hr.hashValues = []) (key : GoString) :
    hr.responsible hash key = .error (ascii "hash ring is empty") := by
  unfold HashRing.responsible
  rw [dif_neg (by simp [hempty])]

/-- A key with the hash of a position belongs to the shard there. -/
theorem responsible_of_mem (hsorted : hr.hashValues.Pairwise (· ≤ ·)) {key : GoString}
    (hmem : hash key.bytes ∈ hr.hashValues) :
    hr.responsible hash key = .ok (hr.shardAt (hash key.bytes)) :=
  responsible_of_first hsorted (first_self hmem)

/-- Rings with the same positions, and the same shards at them, agree on every key. -/
theorem responsible_congr (hsorted : hr.hashValues.Pairwise (· ≤ ·))
    (hsorted' : hr'.hashValues.Pairwise (· ≤ ·))
    (hmem : ∀ p, p ∈ hr'.hashValues ↔ p ∈ hr.hashValues)
    (hat : ∀ p ∈ hr.hashValues, hr'.shardAt p = hr.shardAt p) (key : GoString) :
    hr'.responsible hash key = hr.responsible hash key := by
  rcases Nat.eq_zero_or_pos hr.hashValues.length with hzero | hpos
  · have hnil := List.length_eq_zero_iff.mp hzero
    have hnil' : hr'.hashValues = [] := by
      rw [List.eq_nil_iff_forall_not_mem]
      intro p hp
      rw [hmem, hnil] at hp
      exact absurd hp List.not_mem_nil
    rw [responsible_of_nil hnil, responsible_of_nil hnil']
  · obtain ⟨p, hfirst, hlookup⟩ := exists_first_responsible hash hsorted hpos key
    have hset : {p | p ∈ hr'.hashValues} = {p | p ∈ hr.hashValues} := Set.ext hmem
    rw [hlookup, ← hat p hfirst.mem]
    exact responsible_of_first hsorted' (hset ▸ hfirst)

/-! ### Rings that hold a set of members -/

theorem Represents.setOf_hashValues (h : Represents hash v hr members) :
    {p | p ∈ hr.hashValues} = positions hash v members := Set.ext h.mem_iff

/-- The slice is empty exactly if there is no member. -/
theorem Represents.length_pos_iff (h : Represents hash v hr members) (hv : 0 < vnodeCount v) :
    0 < hr.hashValues.length ↔ members.Nonempty := by
  rw [List.length_pos_iff_exists_mem]
  constructor
  · rintro ⟨p, hp⟩
    obtain ⟨m, hm, _⟩ := (h.mem_iff p).mp hp
    exact ⟨m, hm⟩
  · rintro ⟨m, hm⟩
    exact ⟨position hash m 0, (h.mem_iff _).mpr ⟨m, hm, 0, hv, rfl⟩⟩

/-- The map takes a position to the shard it belongs to. -/
theorem Represents.shardAt (h : Represents hash v hr members) (hm : m ∈ members) {p : UInt32}
    (hp : p ∈ shardPositions hash v m) : hr.shardAt p = m := by
  rw [HashRing.shardAt, h.lookup m hm p hp]
  rfl

theorem Represents.responsible_of_empty (h : Represents hash v hr ∅) (key : GoString) :
    hr.responsible hash key = .error (ascii "hash ring is empty") := by
  apply responsible_of_nil
  rw [List.eq_nil_iff_forall_not_mem]
  intro p hp
  obtain ⟨m, hm, _⟩ := (h.mem_iff p).mp hp
  exact absurd hm (Finset.notMem_empty m)

/-- A lookup on a ring with members returns the one that owns the key. -/
theorem Represents.exists_owner (h : Represents hash v hr members) (hv : 0 < vnodeCount v)
    (hne : members.Nonempty) (key : GoString) :
    ∃ m, Owns hash v members (hash key.bytes) m ∧ hr.responsible hash key = .ok m := by
  obtain ⟨p, hfirst, hlookup⟩ := exists_first_responsible hash (h.sorted.imp le_of_lt)
    ((h.length_pos_iff hv).mpr hne) key
  rw [h.setOf_hashValues] at hfirst
  obtain ⟨m, hm, hp⟩ := hfirst.mem
  refine ⟨m, ⟨hm, p, hp, hfirst⟩, ?_⟩
  rw [hlookup, h.shardAt hm hp]

theorem Represents.responsible_iff (h : Represents hash v hr members)
    (hc : NoCollision hash v shards) (hsub : ∀ m ∈ members, m ∈ shards) (hv : 0 < vnodeCount v)
    (key : GoString) :
    hr.responsible hash key = .ok m ↔ Owns hash v members (hash key.bytes) m := by
  rcases members.eq_empty_or_nonempty with rfl | hne
  · rw [h.responsible_of_empty]
    constructor
    · intro heq
      exact nomatch heq
    · intro ho
      exact absurd ho.1 (Finset.notMem_empty m)
  · obtain ⟨m', ho, heq⟩ := h.exists_owner hv hne key
    rw [heq]
    constructor
    · intro hm
      exact Except.ok.inj hm ▸ ho
    · intro ho'
      rw [ho.unique hc hsub ho']

/-- Rings with the same members agree on every key. -/
theorem Represents.responsible_eq (h : Represents hash v hr members)
    (h' : Represents hash v hr' members) (hc : NoCollision hash v shards)
    (hsub : ∀ m ∈ members, m ∈ shards) (hv : 0 < vnodeCount v) (key : GoString) :
    hr'.responsible hash key = hr.responsible hash key := by
  rcases members.eq_empty_or_nonempty with rfl | hne
  · rw [h.responsible_of_empty, h'.responsible_of_empty]
  · obtain ⟨m, ho, hlookup⟩ := h.exists_owner hv hne key
    rw [hlookup, h'.responsible_iff hc hsub hv]
    exact ho

end Lookup

section Changes

variable {h : UInt32} {n : GoString}

theorem positions_mono {members' : Finset GoString} (hsub : members ⊆ members') :
    positions hash v members ⊆ positions hash v members' :=
  fun _ ⟨m, hm, hp⟩ => ⟨m, hsub hm, hp⟩

/-- With one shard more, a key belongs to that shard or to its owner so far. -/
theorem Owns.of_insert (ho : Owns hash v (insert n members) h m) :
    m = n ∨ Owns hash v members h m := by
  obtain ⟨hm, p, hp, hfirst⟩ := ho
  rcases Finset.mem_insert.mp hm with rfl | hm
  · exact .inl rfl
  · right
    exact ⟨hm, p, hp, hfirst.of_subset (positions_mono (Finset.subset_insert n members))
      ⟨m, hm, hp⟩⟩

/-- A key of another shard keeps its owner when a shard goes. -/
theorem Owns.erase (ho : Owns hash v members h m) (hne : m ≠ n) :
    Owns hash v (members.erase n) h m := by
  obtain ⟨hm, p, hp, hfirst⟩ := ho
  have hm' : m ∈ members.erase n := Finset.mem_erase.mpr ⟨hne, hm⟩
  exact ⟨hm', p, hp, hfirst.of_subset (positions_mono (Finset.erase_subset n members))
    ⟨m, hm', hp⟩⟩

end Changes

end Hash

/-- `GetAllNodes` returns the shards that have a position. -/
theorem mem_getAllNodes {hr : HashRing} {m : GoString} :
    m ∈ hr.getAllNodes ↔ ∃ p, hr.hashToShard.lookup p = some m := by
  unfold HashRing.getAllNodes HashRing.getNodes
  rw [Multiset.mem_toFinset, Multiset.mem_map]
  constructor
  · rintro ⟨⟨p, m⟩, hentry, rfl⟩
    exact ⟨p, Finmap.mem_lookup_iff.mpr hentry⟩
  · rintro ⟨p, hlookup⟩
    exact ⟨⟨p, m⟩, Finmap.mem_lookup_iff.mp hlookup, rfl⟩

/-! ## Every ring -/

/-- The rings that the calls of the package lead to, with any shards in any order. -/
inductive Built (hash : Bytes → UInt32) : HashRing → Prop where
  | new (v : Int64) : Built hash (HashRing.new v)
  | addShard {hr : HashRing} (m : GoString) : Built hash hr → Built hash (hr.addShard hash m)
  | removeShard {hr : HashRing} (m : GoString) : Built hash hr → Built hash (hr.removeShard hash m)
  | setNodeAddress {hr : HashRing} (m addr : GoString) :
    Built hash hr → Built hash (hr.setNodeAddress m addr)
  | setShardNodes {hr : HashRing} (m : GoString) (nodes : List GoString) :
    Built hash hr → Built hash (hr.setShardNodes m nodes)

/-- Positions may coincide, but they are in order. -/
theorem Built.sorted {hash : Bytes → UInt32} {hr : HashRing} (h : Built hash hr) :
    hr.hashValues.Pairwise (· ≤ ·) := by
  induction h with
  | new v => exact .nil
  | addShard m _ _ => exact sorted_addShard hash _ m
  | removeShard m _ ih => exact ih.sublist (removeShard_sublist hash _ m)
  | setNodeAddress m addr _ ih | setShardNodes m nodes _ ih => exact ih

/-! ## Histories -/

/-- A change of the membership. -/
inductive Change where
  | add (shardID : GoString)
  | remove (shardID : GoString)

/-- The shard that comes or goes. -/
def Change.shard : Change → GoString
  | .add shardID => shardID
  | .remove shardID => shardID

/-- A change of a ring with its members: only an absent shard is added, and only
    a present one removed. -/
def change (hash : Bytes → UInt32) (ring : HashRing × Finset GoString) :
    Change → Option (HashRing × Finset GoString)
  | .add shardID =>
    if shardID ∈ ring.2 then none
    else some (ring.1.addShard hash shardID, insert shardID ring.2)
  | .remove shardID =>
    if shardID ∈ ring.2 then some (ring.1.removeShard hash shardID, ring.2.erase shardID)
    else none

/-- The rings, with their members, that changes by these shards lead to. -/
def Reachable (hash : Bytes → UInt32) (v : Int64) (shards : Set GoString) (hr : HashRing)
    (members : Finset GoString) : Prop :=
  Transition.Reaches (change hash) (fun _ a => a.shard ∈ shards) (HashRing.new v, ∅) (hr, members)

section Reachable

variable {hash : Bytes → UInt32} {v : Int64} {shards : Set GoString} {hr : HashRing}
  {members : Finset GoString} {m : GoString}

/-- The invariant along every history. -/
theorem Reachable.represents (h : Reachable hash v shards hr members)
    (hc : NoCollision hash v shards) :
    Represents hash v hr members ∧ ∀ m ∈ members, m ∈ shards := by
  let inv := fun ring : HashRing × Finset GoString =>
    Represents hash v ring.1 ring.2 ∧ ∀ m ∈ ring.2, m ∈ shards
  have hinv : inv (hr, members) := by
    apply Transition.Reaches.invariant h
    · exact ⟨represents_new v, fun m hm => absurd hm (Finset.notMem_empty m)⟩
    rintro ⟨hr, members⟩ a ring' ⟨hrep, hsub⟩ ha hstep
    cases a with
    | add m =>
      simp only [change] at hstep
      split at hstep
      · exact nomatch hstep
      · next hnew =>
        cases hstep
        refine ⟨hrep.add hc hsub ha hnew, fun m' hm' => ?_⟩
        rcases Finset.mem_insert.mp hm' with rfl | hm'
        · exact ha
        · exact hsub m' hm'
    | remove m =>
      simp only [change] at hstep
      split at hstep
      · cases hstep
        exact ⟨hrep.remove hc hsub ha, fun m' hm' => hsub m' (Finset.mem_of_mem_erase hm')⟩
      · exact nomatch hstep
  exact hinv

theorem Reachable.add (h : Reachable hash v shards hr members) (hm : m ∈ shards)
    (hnew : m ∉ members) : Reachable hash v shards (hr.addShard hash m) (insert m members) :=
  h.step (.add m) hm (if_neg hnew)

theorem Reachable.remove (h : Reachable hash v shards hr members) (hm : m ∈ shards)
    (hmem : m ∈ members) : Reachable hash v shards (hr.removeShard hash m) (members.erase m) :=
  h.step (.remove m) hm (if_pos hmem)

end Reachable

theorem vnodeCount_pos {v : Int64} (hv : 1 ≤ v) : 0 < vnodeCount v := by
  have hle : (1 : Int64).toInt ≤ v.toInt := Int64.le_iff_toInt_le.mp hv
  have hone : (1 : Int64).toInt = 1 := by decide
  unfold vnodeCount
  omega

/-- On every ring that is reached by adding absent and removing present shards,
    the slice is strictly sorted and holds the positions of the members' virtual
    nodes; `GetShard` and `GetNode` return the member with the first position that
    is not below the key's hash, or with the least one if there is none; only the
    ring without members gives an error; and the history makes no difference. -/
theorem ring_is_successor_map (hash : Bytes → UInt32) (v : Int64) (hv : 1 ≤ v)
    (shards : Set GoString) (hc : NoCollision hash v shards) (hr : HashRing)
    (members : Finset GoString) (h : Reachable hash v shards hr members) :
    hr.hashValues.Pairwise (· < ·) ∧
    (∀ p, p ∈ hr.hashValues ↔ ∃ m ∈ members, ∃ i < vnodeCount v, p = hash (virtualKey m i)) ∧
    (members.Nonempty → ∀ key, ∃ m ∈ members, ∃ i < vnodeCount v, ∃ p, p = hash (virtualKey m i) ∧
      ((hash key.bytes ≤ p ∧ ∀ q ∈ hr.hashValues, hash key.bytes ≤ q → p ≤ q) ∨
        ((∀ q ∈ hr.hashValues, q < hash key.bytes) ∧ ∀ q ∈ hr.hashValues, p ≤ q)) ∧
      hr.getShard hash key = .ok m ∧ hr.getNode hash key = .ok m) ∧
    (members = ∅ → ∀ key, hr.getShard hash key = .error (ascii "hash ring is empty") ∧
      hr.getNode hash key = .error (ascii "hash ring is empty")) ∧
    (∀ hr', Reachable hash v shards hr' members → ∀ key,
      hr'.getShard hash key = hr.getShard hash key ∧
        hr'.getNode hash key = hr.getNode hash key) := by
  obtain ⟨hrep, hsub⟩ := h.represents hc
  have hpos := vnodeCount_pos hv
  refine ⟨hrep.sorted, hrep.mem_iff, ?_, ?_, ?_⟩
  · intro hne key
    obtain ⟨m, ⟨hm, p, ⟨i, hi, rfl⟩, hfirst⟩, hlookup⟩ := hrep.exists_owner hpos hne key
    rw [← hrep.setOf_hashValues, first_le_iff] at hfirst
    exact ⟨m, hm, i, hi, _, rfl, hfirst.2, hlookup, hlookup⟩
  · rintro rfl key
    exact ⟨hrep.responsible_of_empty key, hrep.responsible_of_empty key⟩
  · intro hr' h' key
    obtain ⟨hrep', _⟩ := h'.represents hc
    have hsame := hrep.responsible_eq hrep' hc hsub hpos key
    exact ⟨hsame, hsame⟩

/-- Two shards with one virtual node each do not collide under SHA-256. -/
theorem noCollision_two : NoCollision sha256Hash 1 {m | m ∈ [lit "a", lit "b"]} := by
  have hcheck : ∀ m ∈ [lit "a", lit "b"], ∀ m' ∈ [lit "a", lit "b"], ∀ i < vnodeCount 1,
      ∀ i' < vnodeCount 1, sha256Hash (virtualKey m i) = sha256Hash (virtualKey m' i') →
        virtualKey m i = virtualKey m' i' := by
    decide +kernel
  exact hcheck

theorem reachable_two (m m' : GoString) (hm : m ∈ [lit "a", lit "b"])
    (hm' : m' ∈ [lit "a", lit "b"]) (hne : m' ≠ m) :
    Reachable sha256Hash 1 {m | m ∈ [lit "a", lit "b"]}
      (((HashRing.new 1).addShard sha256Hash m).addShard sha256Hash m') {m', m} := by
  have hnew : Reachable sha256Hash 1 {m | m ∈ [lit "a", lit "b"]} (HashRing.new 1) ∅ := .refl
  have hfirst := hnew.add (m := m) hm (Finset.notMem_empty m)
  exact hfirst.add hm' (by simpa using hne)

/-- Two shards, added in either order. -/
theorem ring_is_successor_map_two :
    (((HashRing.new 1).addShard sha256Hash (lit "a")).addShard sha256Hash
        (lit "b")).hashValues.Pairwise (· < ·) ∧
    (((HashRing.new 1).addShard sha256Hash (lit "b")).addShard sha256Hash (lit "a")).getShard
        sha256Hash (lit "k") =
      (((HashRing.new 1).addShard sha256Hash (lit "a")).addShard sha256Hash (lit "b")).getShard
        sha256Hash (lit "k") := by
  have h := ring_is_successor_map sha256Hash 1 (by decide) _ noCollision_two _ _
    (reachable_two (lit "a") (lit "b") (by decide) (by decide) (by decide))
  have hother := reachable_two (lit "b") (lit "a") (by decide) (by decide) (by decide)
  rw [Finset.pair_comm] at hother
  exact ⟨h.1, (h.2.2.2.2 _ hother (lit "k")).1⟩

/-! ## Coming and going -/

/-- On every ring that is reached by adding absent and removing present shards,
    adding an absent shard gives a key to that shard or leaves its owner; removing
    a shard leaves the owner of every key that is not its own, and leaves it none;
    and removing a shard that was just added restores every owner. -/
theorem minimal_disruption (hash : Bytes → UInt32) (v : Int64) (hv : 1 ≤ v)
    (shards : Set GoString) (hc : NoCollision hash v shards) (hr : HashRing)
    (members : Finset GoString) (h : Reachable hash v shards hr members) (n : GoString)
    (hn : n ∈ shards) :
    (n ∉ members → ∀ key, (hr.addShard hash n).getShard hash key = hr.getShard hash key ∨
      (hr.addShard hash n).getShard hash key = .ok n) ∧
    (n ∈ members → ∀ key,
      (hr.getShard hash key ≠ .ok n →
        (hr.removeShard hash n).getShard hash key = hr.getShard hash key) ∧
      (hr.removeShard hash n).getShard hash key ≠ .ok n) ∧
    (n ∉ members → ∀ key,
      ((hr.addShard hash n).removeShard hash n).getShard hash key = hr.getShard hash key) := by
  obtain ⟨hrep, hsub⟩ := h.represents hc
  have hpos := vnodeCount_pos hv
  refine ⟨fun hnew key => ?_, fun hmem key => ⟨fun hother => ?_, fun hgone => ?_⟩,
    fun hnew key => ?_⟩
  · obtain ⟨hrep', hsub'⟩ := (h.add hn hnew).represents hc
    obtain ⟨m, ho, hlookup⟩ := hrep'.exists_owner hpos (Finset.insert_nonempty n members) key
    rcases ho.of_insert with rfl | ho
    · exact .inr hlookup
    · left
      exact hlookup.trans ((hrep.responsible_iff hc hsub hpos key).mpr ho).symm
  · obtain ⟨hrep', hsub'⟩ := (h.remove hn hmem).represents hc
    obtain ⟨m, ho, hlookup⟩ := hrep.exists_owner hpos ⟨n, hmem⟩ key
    have hne : m ≠ n := fun heq => hother (heq ▸ hlookup)
    exact ((hrep'.responsible_iff hc hsub' hpos key).mpr (ho.erase hne)).trans hlookup.symm
  · obtain ⟨hrep', hsub'⟩ := (h.remove hn hmem).represents hc
    have ho := (hrep'.responsible_iff hc hsub' hpos key).mp hgone
    exact absurd ho.1 (Finset.notMem_erase n members)
  · have hadd := h.add hn hnew
    obtain ⟨hrep', _⟩ := (hadd.remove hn (Finset.mem_insert_self n members)).represents hc
    rw [Finset.erase_insert hnew] at hrep'
    exact hrep.responsible_eq hrep' hc hsub hpos key

/-- A second shard that comes and goes. -/
theorem minimal_disruption_second :
    ((((HashRing.new 1).addShard sha256Hash (lit "a")).addShard sha256Hash (lit "b")).removeShard
        sha256Hash (lit "b")).getShard sha256Hash (lit "k") =
      ((HashRing.new 1).addShard sha256Hash (lit "a")).getShard sha256Hash (lit "k") := by
  have hnew : Reachable sha256Hash 1 {m | m ∈ [lit "a", lit "b"]} (HashRing.new 1) ∅ := .refl
  have hfirst := hnew.add (m := lit "a") (by decide) (Finset.notMem_empty _)
  exact (minimal_disruption sha256Hash 1 (by decide) _ noCollision_two _ _ hfirst (lit "b")
    (by decide)).2.2 (by decide) (lit "k")

end GoCache.Spec
