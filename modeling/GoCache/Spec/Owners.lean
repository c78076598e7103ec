import GoCache.Spec.Ring

/-!
# Who owns a position

Virtual nodes of different shards may have the same position. `AddShard` then
overwrites the entry of the map, so a position belongs to the shard that was added
last among those with a virtual node there. What a ring gives a key depends only
on these owners, which is how rings with different histories are compared: no
matter how often and in which order their shards were added, rings agree on every
key exactly if every position has the same owner on both.

## Key results

- `LaidOut.add`, `LaidOut.remove`: the owners after `AddShard` and `RemoveShard`
- `LaidOut.responsible_eq`: rings with the same owners agree
- `LaidOut.agree_iff`: and only those
-/

namespace GoCache.Spec

open GoCache.Native Circle

section Owner

variable (hash : Bytes → UInt32) (v : Int64)

/-- The shard that was added last among those with a virtual node at a position. -/
def owner (ids : List GoString) (p : UInt32) : Option GoString :=
  ids.reverse.find? fun id => p ∈ vnodeHashes hash v id

variable {hash v} {ids ids' : List GoString} {id m : GoString} {p : UInt32}

@[simp] theorem owner_nil : owner hash v [] p = none := rfl

theorem owner_append : owner hash v (ids ++ ids') p =
    (owner hash v ids' p).or (owner hash v ids p) := by
  unfold owner
  rw [List.reverse_append, List.find?_append]

theorem owner_concat_of_mem (hp : p ∈ shardPositions hash v id) :
    owner hash v (ids ++ [id]) p = some id := by
  have hmem := (mem_vnodeHashes v id p).mpr hp
  simp [owner, hmem]

theorem owner_concat_of_notMem (hp : p ∉ shardPositions hash v id) :
    owner hash v (ids ++ [id]) p = owner hash v ids p := by
  have hmem := mt (mem_vnodeHashes v id p).mp hp
  simp [owner, hmem]

/-- The owner is one of the shards, and has a virtual node at the position. -/
theorem owner_mem (h : owner hash v ids p = some m) : m ∈ ids ∧ p ∈ shardPositions hash v m := by
  have hmem := List.mem_of_find?_eq_some h
  have hat := List.find?_some h
  rw [List.mem_reverse] at hmem
  rw [decide_eq_true_eq, mem_vnodeHashes] at hat
  exact ⟨hmem, hat⟩

theorem owner_eq_none_iff :
    owner hash v ids p = none ↔ ∀ id ∈ ids, p ∉ shardPositions hash v id := by
  unfold owner
  simp only [List.find?_eq_none, List.mem_reverse, decide_eq_true_eq, mem_vnodeHashes]

theorem owner_ne_none (hid : id ∈ ids) (hp : p ∈ shardPositions hash v id) :
    owner hash v ids p ≠ none :=
  fun hnone => owner_eq_none_iff.mp hnone id hid hp

end Owner

/-! ## The layout of a ring -/

/-- Apart from hidden positions, the ring looks as if these shards had been added in
    this order. -/
structure LaidOut (hash : Bytes → UInt32) (v : Int64) (hidden : Set UInt32)
    (ids : List GoString) (hr : HashRing) : Prop where
  virtualNodes : hr.virtualNodes = v
  sorted : hr.hashValues.Pairwise (· ≤ ·)
  mem_iff : ∀ p ∉ hidden, p ∈ hr.hashValues ↔ owner hash v ids p ≠ none
  lookup : ∀ p ∉ hidden, hr.hashToShard.lookup p = owner hash v ids p

section LaidOut

variable {hash : Bytes → UInt32} {v : Int64} {hidden : Set UInt32} {ids ids' : List GoString}
  {hr hr' : HashRing} {id : GoString}

theorem laidOut_new (hash : Bytes → UInt32) (v : Int64) :
    LaidOut hash v ∅ [] (HashRing.new v) where
  virtualNodes := rfl
  sorted := .nil
  mem_iff p _ := by simp [HashRing.new]
  lookup p _ := by simp [HashRing.new]

/-- `AddShard` puts the shard on top, and brings its positions to light. -/
theorem LaidOut.add (h : LaidOut hash v hidden ids hr) (id : GoString) :
    LaidOut hash v (hidden \ shardPositions hash v id) (ids ++ [id]) (hr.addShard hash id) := by
  obtain ⟨rfl, _, hmem, hlookup⟩ := h
  refine ⟨addShard_virtualNodes hash hr id, sorted_addShard hash hr id, fun p hp => ?_,
    fun p hp => ?_⟩
  · rw [mem_addShard]
    by_cases hat : p ∈ shardPositions hash hr.virtualNodes id
    · simp [hat, owner_concat_of_mem hat]
    · have hseen : p ∉ hidden := fun hhid => hp ⟨hhid, hat⟩
      simp [hat, owner_concat_of_notMem hat, hmem p hseen]
  · by_cases hat : p ∈ shardPositions hash hr.virtualNodes id
    · rw [lookup_addShard_of_mem hat, owner_concat_of_mem hat]
    · have hseen : p ∉ hidden := fun hhid => hp ⟨hhid, hat⟩
      rw [lookup_addShard_of_notMem hat, owner_concat_of_notMem hat, hlookup p hseen]

/-- `RemoveShard` disturbs the positions of the shard, and no others. -/
theorem LaidOut.remove (h : LaidOut hash v hidden ids hr) (id : GoString) :
    LaidOut hash v (hidden ∪ shardPositions hash v id) ids (hr.removeShard hash id) := by
  obtain ⟨rfl, hsorted, hmem, hlookup⟩ := h
  refine ⟨removeShard_virtualNodes hash hr id, hsorted.sublist (removeShard_sublist hash hr id),
    fun p hp => ?_, fun p hp => ?_⟩
  · rw [Set.mem_union, not_or] at hp
    rw [mem_removeShard_of_notMem hp.2, hmem p hp.1]
  · rw [Set.mem_union, not_or] at hp
    rw [lookup_removeShard_of_notMem hp.2, hlookup p hp.1]

/-- More may be hidden. -/
theorem LaidOut.mono {hidden' : Set UInt32} (h : LaidOut hash v hidden ids hr)
    (hsub : hidden ⊆ hidden') : LaidOut hash v hidden' ids hr :=
  ⟨h.virtualNodes, h.sorted, fun p hp => h.mem_iff p fun hmem => hp (hsub hmem),
    fun p hp => h.lookup p fun hmem => hp (hsub hmem)⟩

/-- Addresses and nodes of shards do not matter. -/
theorem LaidOut.of_eq (h : LaidOut hash v hidden ids hr)
    (hvirtual : hr'.virtualNodes = hr.virtualNodes) (hvalues : hr'.hashValues = hr.hashValues)
    (hmap : hr'.hashToShard = hr.hashToShard) : LaidOut hash v hidden ids hr' := by
  refine ⟨hvirtual.trans h.virtualNodes, ?_, fun p hp => ?_, fun p hp => ?_⟩
  · rw [hvalues]
    exact h.sorted
  · rw [hvalues]
    exact h.mem_iff p hp
  · rw [hmap]
    exact h.lookup p hp

/-- A ring with nothing hidden has no other shards. -/
theorem LaidOut.notMem_getAllNodes (h : LaidOut hash v ∅ ids hr) (hid : id ∉ ids) :
    id ∉ hr.getAllNodes := by
  rw [mem_getAllNodes]
  rintro ⟨p, hlookup⟩
  rw [h.lookup p (Set.notMem_empty p)] at hlookup
  exact hid (owner_mem hlookup).1

/-- A loop that adds a shard in every turn. -/
theorem LaidOut.foldl_add {α : Type} (h : LaidOut hash v ∅ ids hr) (idOf : α → GoString)
    (step : HashRing → α → HashRing)
    (hstep : ∀ hr x, (step hr x).virtualNodes = (hr.addShard hash (idOf x)).virtualNodes ∧
      (step hr x).hashValues = (hr.addShard hash (idOf x)).hashValues ∧
      (step hr x).hashToShard = (hr.addShard hash (idOf x)).hashToShard)
    (xs : List α) :
    LaidOut hash v ∅ (ids ++ xs.map idOf) (xs.foldl step hr) := by
  induction xs generalizing ids hr with
  | nil => simpa using h
  | cons x xs ih =>
    obtain ⟨hvirtual, hvalues, hmap⟩ := hstep hr x
    have hadd : LaidOut hash v ∅ (ids ++ [idOf x]) (hr.addShard hash (idOf x)) :=
      (h.add (idOf x)).mono (by simp)
    have hrest := ih (hadd.of_eq hvirtual hvalues hmap)
    rw [List.append_assoc] at hrest
    exact hrest

end LaidOut

/-! ## Lookups -/

section Lookup

variable {hash : Bytes → UInt32} {v : Int64} {ids ids' : List GoString} {hr hr' : HashRing}
  {key m : GoString}

theorem LaidOut.shardAt (h : LaidOut hash v ∅ ids hr) (p : UInt32) :
    hr.shardAt p = (owner hash v ids p).getD GoString.empty := by
  rw [HashRing.shardAt, h.lookup p (Set.notMem_empty p)]

/-- Rings on which every position has the same owner agree on every key. -/
theorem LaidOut.responsible_eq (h : LaidOut hash v ∅ ids hr) (h' : LaidOut hash v ∅ ids' hr')
    (hsame : ∀ p, owner hash v ids' p = owner hash v ids p) (key : GoString) :
    hr'.responsible hash key = hr.responsible hash key := by
  apply responsible_congr h.sorted h'.sorted
  · intro p
    rw [h.mem_iff p (Set.notMem_empty p), h'.mem_iff p (Set.notMem_empty p), hsame]
  · intro p _
    rw [h.shardAt, h'.shardAt, hsame]

/-- A ring without shards gives no key to anybody. -/
theorem LaidOut.responsible_of_empty (h : LaidOut hash v ∅ [] hr) (key : GoString) :
    hr.responsible hash key = .error (ascii "hash ring is empty") := by
  apply responsible_of_nil
  rw [List.eq_nil_iff_forall_not_mem]
  intro p hp
  exact (h.mem_iff p (Set.notMem_empty p)).mp hp rfl

/-- A key belongs to a shard that has a position on the ring. -/
theorem LaidOut.mem_of_responsible (h : LaidOut hash v ∅ ids hr)
    (hkey : hr.responsible hash key = .ok m) : m ∈ ids := by
  rcases Nat.eq_zero_or_pos hr.hashValues.length with hzero | hpos
  · rw [responsible_of_nil (List.length_eq_zero_iff.mp hzero)] at hkey
    exact nomatch hkey
  · obtain ⟨p, hfirst, hlookup⟩ := exists_first_responsible hash h.sorted hpos key
    have howned := (h.mem_iff p (Set.notMem_empty p)).mp hfirst.mem
    obtain ⟨m', howner⟩ := Option.ne_none_iff_exists'.mp howned
    rw [hkey, h.shardAt, howner] at hlookup
    cases hlookup
    exact (owner_mem howner).1

/-- A ring with a shard gives every key to one of its shards. -/
theorem LaidOut.exists_responsible (h : LaidOut hash v ∅ ids hr) (hv : 0 < vnodeCount v)
    (hne : ids ≠ []) (key : GoString) : ∃ id ∈ ids, hr.responsible hash key = .ok id := by
  obtain ⟨id, hid⟩ := List.exists_mem_of_ne_nil ids hne
  have hat : position hash id 0 ∈ shardPositions hash v id := ⟨0, hv, rfl⟩
  have hmem := (h.mem_iff _ (Set.notMem_empty _)).mpr (owner_ne_none hid hat)
  obtain ⟨p, _, hlookup⟩ :=
    exists_first_responsible hash h.sorted (List.length_pos_of_mem hmem) key
  exact ⟨_, h.mem_of_responsible hlookup, hlookup⟩

/-- A key that is the name of a virtual node belongs to the owner of its position. -/
theorem LaidOut.responsible_of_owner (h : LaidOut hash v ∅ ids hr)
    (howner : owner hash v ids (hash key.bytes) = some m) :
    hr.responsible hash key = .ok m := by
  have hmem : hash key.bytes ∈ hr.hashValues := by
    rw [h.mem_iff _ (Set.notMem_empty _), howner]
    exact Option.some_ne_none m
  rw [responsible_of_mem h.sorted hmem, h.shardAt, howner]
  rfl

/-- The names of the shard's virtual nodes can be keys. -/
def NamesFit (v : Int64) (id : GoString) : Prop :=
  ∀ i < vnodeCount v, (virtualKey id i).length ≤ maxAlloc

/-- They can unless the ID almost fills an allocation. -/
theorem namesFit_of_length {id : GoString} (h : id.length + 21 ≤ maxAlloc) : NamesFit v id := by
  intro i _
  have hlen := length_itoa_le (Int64.ofNat i)
  unfold virtualKey
  rw [List.length_append, List.length_cons]
  show id.length + ((itoa (Int64.ofNat i)).length + 1) ≤ maxAlloc
  omega

/-- If a shard gets a key with the hash of one of its virtual nodes, it owns that
    position: it is on the ring with all of its positions. -/
theorem LaidOut.owner_of_responsible (h : LaidOut hash v ∅ ids hr)
    (hat : hash key.bytes ∈ shardPositions hash v m) (hkey : hr.responsible hash key = .ok m) :
    owner hash v ids (hash key.bytes) = some m := by
  have hm := h.mem_of_responsible hkey
  obtain ⟨m', howner⟩ := Option.ne_none_iff_exists'.mp (owner_ne_none hm hat)
  rw [h.responsible_of_owner howner] at hkey
  cases hkey
  exact howner

/-- If rings agree on the keys that are names of virtual nodes, the owners on the one
    are those on the other. -/
private theorem owner_eq_of_agree (h : LaidOut hash v ∅ ids hr) (h' : LaidOut hash v ∅ ids' hr')
    (hfit : ∀ id ∈ ids, NamesFit v id)
    (hagree : ∀ key, hr'.responsible hash key = hr.responsible hash key) {p : UInt32}
    (howner : owner hash v ids p = some m) : owner hash v ids' p = some m := by
  obtain ⟨hm, i, hi, rfl⟩ := owner_mem howner
  let key : GoString := ⟨virtualKey m i, hfit m hm i hi⟩
  have hkey : hr.responsible hash key = .ok m := h.responsible_of_owner howner
  have hkey' := (hagree key).trans hkey
  exact LaidOut.owner_of_responsible h' ⟨i, hi, rfl⟩ hkey'

/-- Rings agree on every key exactly if every position has the same owner on both. -/
theorem LaidOut.agree_iff (h : LaidOut hash v ∅ ids hr) (h' : LaidOut hash v ∅ ids' hr')
    (hfit : ∀ id ∈ ids, NamesFit v id) (hfit' : ∀ id ∈ ids', NamesFit v id) :
    (∀ key, hr'.responsible hash key = hr.responsible hash key) ↔
      ∀ p, owner hash v ids' p = owner hash v ids p := by
  refine ⟨fun hagree p => ?_, fun hsame key => h.responsible_eq h' hsame key⟩
  cases howner : owner hash v ids p with
  | some m => exact owner_eq_of_agree h h' hfit hagree howner
  | none =>
    cases howner' : owner hash v ids' p with
    | none => rfl
    | some m =>
      have hback := owner_eq_of_agree h' h hfit' (fun key => (hagree key).symm) howner'
      rw [howner] at hback
      exact nomatch hback

end Lookup

end GoCache.Spec
