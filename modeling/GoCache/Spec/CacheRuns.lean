import GoCache.Spec.CacheInvariant

/-!
# Runs of the cache

Finite sequences of calls on one cache, starting from `NewCache`. Every call is
made at a time of its own, and a cleanup visits the map in an order of its own;
neither is constrained here, so the results hold for every clock and for every
iteration order Go may choose.

## Key results

- `step_repr`: one call keeps the map and the list in agreement
- `wellLinked_run`: after every run, at the level of pointers
- `memory_run`: after every run, the memory counter and the gauges
-/

namespace GoCache.Spec

open GoCache.Native DoublyLinked Recency

/-- A call on the cache, with the time it reads. -/
inductive Op where
  | set (key value : GoString) (ttl : Duration) (now : Time)
  | setInternal (key value : GoString) (ttl : Duration) (now : Time)
  | get (key : GoString) (now : Time)
  | getInternal (key : GoString) (now : Time)
  | delete (key : GoString)
  | deleteInternal (key : GoString)
  | cleanupExpired (order : List GoString) (now : Time)

/-- The cache after one call. -/
def step (c : Cache) : Op → Except Panic Cache
  | .set key value ttl now => c.set key value ttl now
  | .setInternal key value ttl now => c.setInternal key value ttl now
  | .get key now => (·.2) <$> c.get key now
  | .getInternal key now => (·.2) <$> c.getInternal key now
  | .delete key => c.delete key
  | .deleteInternal key => c.deleteInternal key
  | .cleanupExpired order now => (·.2) <$> c.cleanupExpired order now

/-- The cache after a sequence of calls. -/
def run (c : Cache) : List Op → Except Panic Cache
  | [] => .ok c
  | op :: ops => do
    let c ← step c op
    run c ops

variable {c : Cache} {es : Items}

/-- Every call succeeds on a represented cache and keeps it represented. -/
theorem step_repr (hr : Repr c es) (op : Op) :
    ∃ c' es', step c op = .ok c' ∧ Repr c' es' ∧ c'.maxSize = c.maxSize := by
  cases op with
  | set key value ttl now | setInternal key value ttl now =>
    obtain ⟨c', node, hset, hr', hmax, _⟩ := setInternal_repr hr key value ttl now
    exact ⟨c', _, hset, hr', hmax⟩
  | get key now | getInternal key now =>
    obtain ⟨c', hget, hr', hmax, _⟩ := getInternal_repr hr key now
    exact ⟨c', _, by simp [step, Cache.get, hget], hr', hmax⟩
  | delete key | deleteInternal key =>
    obtain ⟨c', hdel, hr', hmax, _⟩ := deleteInternal_repr hr key
    exact ⟨c', _, hdel, hr', hmax⟩
  | cleanupExpired order now =>
    obtain ⟨n, c', hclean, hr', hmax, _⟩ := cleanupExpired_repr hr order now
    exact ⟨c', _, by simp [step, hclean], hr', hmax⟩

/-- Every run succeeds on a represented cache and keeps it represented. -/
theorem run_repr (hr : Repr c es) (ops : List Op) :
    ∃ c' es', run c ops = .ok c' ∧ Repr c' es' ∧ c'.maxSize = c.maxSize := by
  induction ops generalizing c es with
  | nil => exact ⟨c, es, rfl, hr, rfl⟩
  | cons op ops ih =>
    obtain ⟨c₁, es₁, hstep, hr₁, hmax₁⟩ := step_repr hr op
    obtain ⟨c', es', hrun, hr', hmax'⟩ := ih hr₁
    refine ⟨c', es', ?_, hr', hmax'.trans hmax₁⟩
    simp only [run, hstep, bind, Except.bind, hrun]

/-- The cache is sound at the level of pointers: walking the list forward from
    its head and backward from its tail visits the same distinct nodes in
    opposite orders and ends at nil, the keys of these nodes are distinct and
    are the keys of the map, every map entry points at the node of its own key,
    and the map is no larger than `maxSize` or one entry. -/
structure WellLinked (maxSize : Int) (c : Cache) : Prop where
  walk : ∃ ps : List Ptr, ∃ ks : List GoString,
    FollowNext c.heap c.lru.head ps ∧ FollowPrev c.heap c.lru.tail ps.reverse ∧ ps.Nodup ∧
    ps.map (fun p => (c.heap[p]?).map Cell.key) = ks.map some ∧ ks.Nodup ∧
    ks.toFinset = c.data.keys ∧
    ∀ k item, c.data.lookup k = some item →
      item.node ∈ ps ∧ (c.heap[item.node]?).map Cell.key = some k
  len_le : (c.len : Int) ≤ max 1 maxSize

/-- A represented cache is sound at the level of pointers. -/
theorem Repr.wellLinked (hr : Repr c es) : WellLinked c.maxSize c where
  walk := by
    refine ⟨nodes es, keys es, hr.linked.followNext, hr.linked.followPrev, hr.linked.nodup, ?_,
      hr.nodup, hr.keys_eq.symm, ?_⟩
    · simp only [nodes, keys, List.map_map]
      exact List.map_congr_left hr.keyed
    · intro k item hk
      have hmem := (hr.holds k item).mp hk
      exact ⟨List.mem_map_of_mem hmem, hr.keyed (k, item) hmem⟩
  len_le := by
    have hle := hr.length_le
    rw [hr.len_eq]
    simp only [capacity] at hle
    omega

/-- Whatever is called on a new cache, nothing panics and the map and the list
    stay sound, for every `maxSize`. -/
theorem wellLinked_run (maxSize : Int) (ops : List Op) :
    ∃ c, run (Cache.new maxSize) ops = .ok c ∧ WellLinked maxSize c := by
  obtain ⟨c, es, hrun, hr, hmax⟩ := run_repr (repr_new maxSize) ops
  have hmax : c.maxSize = maxSize := hmax
  exact ⟨c, hrun, hmax ▸ hr.wellLinked⟩

/-! ## Memory accounting -/

/-- What the entries of a map take: their keys and values, and 96 bytes each. -/
def memoryIn (d : ItemMap) : Int :=
  ∑ k ∈ d.keys, match d.lookup k with
    | some item => (k.length : Int) + item.value.length + 96
    | none => 0

/-- The gauges show the number of entries and the memory counter. -/
def Reported (c : Cache) : Prop :=
  c.metrics.itemsCount = c.len ∧ c.metrics.memoryBytes = c.currentMemoryBytes

/-- The call writes or removes an entry. -/
def Mutates (c : Cache) : Op → Prop
  | .set .. | .setInternal .. => True
  | .get .. | .getInternal .. => False
  | .delete key | .deleteInternal key => key ∈ c.data
  | .cleanupExpired order now =>
    ∃ key ∈ order, ∃ item, c.data.lookup key = some item ∧ item.expired now = true

/-- Some call of the sequence writes or removes an entry. -/
def MutatesIn (c : Cache) : List Op → Prop
  | [] => False
  | op :: ops => Mutates c op ∨ ∃ c', step c op = .ok c' ∧ MutatesIn c' ops

/-- The entries take what the map takes. -/
theorem Repr.memoryOf_eq (hr : Repr c es) : memoryOf es = memoryIn c.data := by
  have hterm : ∀ e ∈ es, itemSize e.1 e.2.value =
      match c.data.lookup e.1 with
      | some item => (e.1.length : Int) + item.value.length + 96
      | none => 0 := by
    intro e he
    rw [(hr.holds e.1 e.2).mpr he]
    rfl
  rw [memoryIn, hr.keys_eq, List.sum_toFinset _ hr.nodup, memoryOf, keys, List.map_map]
  exact congrArg List.sum (List.map_congr_left hterm)

/-- Every entry takes something. -/
theorem memoryOf_nonneg (es : Items) : 96 * (es.length : Int) ≤ memoryOf es := by
  induction es with
  | nil => exact le_rfl
  | cons e es ih =>
    rw [memoryOf_cons, List.length_cons, itemSize]
    omega

/-- A number below the bound is what the counter shows. -/
theorem toInt_ofInt_of_lt {x : Int} (hnonneg : 0 ≤ x) (hlt : x < 2 ^ 63) :
    (Int64.ofInt x).toInt = x := by
  rw [Int64.toInt_ofInt, Int.bmod_eq_of_le (by norm_num [Int64.size]; omega)
    (by norm_num [Int64.size]; omega)]

theorem Repr.memory_eq_zero_iff (hr : Repr c es) : memoryOf es = 0 ↔ c.data = ∅ := by
  have hle := memoryOf_nonneg es
  have hlen : c.data = ∅ ↔ es.length = 0 := by
    rw [← hr.len_eq, Cache.len, Finset.card_eq_zero]
    constructor
    · intro hempty
      rw [hempty, Finmap.keys_empty]
    · intro hkeys
      refine Finmap.ext_lookup fun k => ?_
      rw [Finmap.lookup_empty, Finmap.lookup_eq_none, ← Finmap.mem_keys, hkeys]
      exact Finset.notMem_empty k
  rw [hlen]
  constructor
  · intro hzero
    omega
  · intro hzero
    rw [List.eq_nil_of_length_eq_zero hzero]
    rfl

/-- The loop of the cleanup either changes nothing, because none of the keys it visits
    has expired, or counts what it removes. -/
theorem cleanupLoop_counts {now : Time} {order : List GoString} {n n' : Nat} {c' : Cache}
    (h : Cache.cleanupLoop now order n c = .ok (n', c')) :
    n < n' ∨ (n' = n ∧ c' = c ∧
      ¬ ∃ key ∈ order, ∃ item, c.data.lookup key = some item ∧ item.expired now = true) := by
  induction order generalizing c n with
  | nil =>
    cases h
    exact .inr ⟨rfl, rfl, by simp⟩
  | cons key order ih =>
    rw [Cache.cleanupLoop] at h
    cases hk : c.data.lookup key with
    | none =>
      simp only [hk] at h
      simpa [hk] using ih h
    | some item =>
      simp only [hk] at h
      by_cases hexp : item.expired now = true
      · -- the count only grows behind a removal
        rw [if_pos hexp] at h
        cases hrem : c.removeItem key item with
        | error p => simp [hrem, bind, Except.bind] at h
        | ok c₁ =>
          simp only [hrem, bind, Except.bind] at h
          have hgrows := ih h
          omega
      · rw [if_neg hexp] at h
        simpa [hk, hexp] using ih h

/-- A call reports what it changes: if it writes or removes an entry the gauges are
    right behind it, and otherwise they stay right. -/
theorem step_reported {c' : Cache} {op : Op} (h : step c op = .ok c')
    (hc : Mutates c op ∨ Reported c) : Reported c' := by
  cases op with
  | set key value ttl now | setInternal key value ttl now =>
    change c.setInternal key value ttl now = .ok c' at h
    unfold Cache.setInternal at h
    split at h
    · next item hk =>
      obtain ⟨r, hmove, h⟩ := bind_eq_ok.mp h
      cases h
      exact ⟨rfl, rfl⟩
    · obtain ⟨c₁, hroom, h⟩ := bind_eq_ok.mp h
      obtain ⟨r, hadd, h⟩ := bind_eq_ok.mp h
      cases h
      exact ⟨rfl, rfl⟩
  | get key now | getInternal key now =>
    have hc := hc.resolve_left id
    obtain ⟨r, hget, rfl⟩ := map_eq_ok.mp h
    change c.getInternal key now = .ok r at hget
    unfold Cache.getInternal at hget
    split at hget
    · cases hget
      exact hc
    · split at hget
      · cases hget
        exact hc
      · obtain ⟨m, -, hget⟩ := bind_eq_ok.mp hget
        cases hget
        exact hc
  | delete key | deleteInternal key =>
    change c.deleteInternal key = .ok c' at h
    unfold Cache.deleteInternal at h
    split at h
    · next hnone =>
      cases h
      exact hc.resolve_left (Finmap.lookup_eq_none.mp hnone)
    · obtain ⟨c₁, -, h⟩ := bind_eq_ok.mp h
      cases h
      exact ⟨rfl, rfl⟩
  | cleanupExpired order now =>
    obtain ⟨r, hclean, rfl⟩ := map_eq_ok.mp h
    unfold Cache.cleanupExpired at hclean
    obtain ⟨⟨n, c₁⟩, hloop, hclean⟩ := bind_eq_ok.mp hclean
    dsimp only at hclean
    split at hclean
    · cases hclean
      exact ⟨rfl, rfl⟩
    · next hcount =>
      cases hclean
      obtain hlt | ⟨-, rfl, hnone⟩ := cleanupLoop_counts hloop
      · exact absurd hlt hcount
      · exact hc.resolve_left hnone

/-- The gauges behind a run. -/
theorem run_reported {c' : Cache} {ops : List Op} (h : run c ops = .ok c')
    (hc : MutatesIn c ops ∨ Reported c) : Reported c' := by
  induction ops generalizing c with
  | nil =>
    cases h
    exact hc.resolve_left id
  | cons op ops ih =>
    obtain ⟨c₁, hstep, hrun⟩ := bind_eq_ok.mp h
    refine ih hrun ?_
    rcases hc with (hop | ⟨c₂, hstep₂, hops⟩) | hc
    · exact .inr (step_reported hstep (.inl hop))
    · rw [hstep] at hstep₂
      cases hstep₂
      exact .inl hops
    · exact .inr (step_reported hstep (.inr hc))

/-- Whatever is called on a new cache, the memory counter is what the entries take, modulo
    2^64. As long as that is less than 2^63, it is exactly that, so it is zero for the empty
    cache only and never negative. From the first call that writes or removes an entry on,
    the gauges show the counter and the number of entries, whatever they showed before;
    gauges that show zero at first are right throughout. -/
theorem memory_run (maxSize : Int) (metrics : Collector) (ops : List Op) :
    ∃ c, run { Cache.new maxSize with metrics := metrics } ops = .ok c ∧
      c.currentMemoryBytes = Int64.ofInt (memoryIn c.data) ∧
      (memoryIn c.data < 2 ^ 63 →
        c.currentMemoryBytes.toInt = memoryIn c.data ∧ 0 ≤ c.currentMemoryBytes.toInt ∧
        (c.currentMemoryBytes = 0 ↔ c.data = ∅)) ∧
      (MutatesIn { Cache.new maxSize with metrics := metrics } ops ∨
          metrics.itemsCount = 0 ∧ metrics.memoryBytes = 0 →
        c.metrics.itemsCount = c.len ∧ c.metrics.memoryBytes = c.currentMemoryBytes) := by
  have hnew : Repr { Cache.new maxSize with metrics := metrics } [] :=
    (repr_new maxSize).withMetrics metrics
  obtain ⟨c, es, hrun, hr, -⟩ := run_repr hnew ops
  have hmemory : c.currentMemoryBytes = Int64.ofInt (memoryIn c.data) := by
    rw [hr.memory, hr.memoryOf_eq]
  have hnonneg : 0 ≤ memoryIn c.data := by
    have hle := memoryOf_nonneg es
    rw [← hr.memoryOf_eq]
    omega
  refine ⟨c, hrun, hmemory, fun hlt => ?_, fun hc => run_reported hrun hc⟩
  have htoInt : c.currentMemoryBytes.toInt = memoryIn c.data := by
    rw [hmemory, toInt_ofInt_of_lt hnonneg hlt]
  refine ⟨htoInt, htoInt ▸ hnonneg, ?_⟩
  rw [← hr.memory_eq_zero_iff, hr.memoryOf_eq, ← htoInt]
  exact ⟨fun hzero => by rw [hzero]; rfl, fun hzero => Int64.toInt_inj.mp hzero⟩

/-! ## A counter that wraps -/

private theorem run_append (c : Cache) (xs ys : List Op) :
    run c (xs ++ ys) = run c xs >>= fun c => run c ys := by
  induction xs generalizing c with
  | nil => rfl
  | cons op xs ih =>
    rw [List.cons_append, run, run, bind_assoc]
    simp only [ih]

/-- A key of so many bytes. -/
private def paddedKey (i : Nat) : GoString :=
  ⟨List.replicate (min i maxAlloc) 107, by simp⟩

/-- So many keys are set to one value. -/
private def fill (value : GoString) (n : Nat) : List Op :=
  (List.range n).map fun i => .set (paddedKey i) value 0 7

/-- A cache with room for them holds them all. -/
private theorem run_fill (value : GoString) {n : Nat} (maxSize : Nat) (hn : n ≤ maxSize)
    (hmax : maxSize ≤ maxAlloc) :
    ∃ c es, run (Cache.new maxSize) (fill value n) = .ok c ∧ Repr c es ∧
      c.maxSize = maxSize ∧ es.length = n ∧ (∀ k ∈ keys es, k.length < n) ∧
      n * (value.length + 96) ≤ memoryOf es ∧ memoryOf es ≤ n * (value.length + 96 + maxSize) := by
  induction n with
  | zero => exact ⟨_, [], rfl, repr_new _, rfl, rfl, by simp [keys], by simp [memoryOf]⟩
  | succ n ih =>
    obtain ⟨c, es, hrun, hr, hsize, hlen, hkeys, hlow, hhigh⟩ := ih (by omega)
    obtain ⟨c', node, hset, hr', hsize', -⟩ := setInternal_repr hr (paddedKey n) value 0 7
    have hlength : (paddedKey n).length = n := by
      simp only [paddedKey, GoString.length, List.length_replicate]
      omega
    have hnew : paddedKey n ∉ keys es := fun hmem => by
      have hlt := hkeys _ hmem
      omega
    -- there is room, so nothing is cut off
    have hput : put (capacity c) (paddedKey n) ⟨value, Cache.expiry 0 7, node⟩ es =
        (paddedKey n, ⟨value, Cache.expiry 0 7, node⟩) :: es := by
      rw [put, erase_of_notMem hnew, List.take_of_length_le]
      simp only [capacity, hsize]
      omega
    rw [hput] at hr'
    refine ⟨c', _, ?_, hr', hsize'.trans hsize, by simp [hlen], ?_, ?_, ?_⟩
    · rw [fill, List.range_succ, List.map_append, run_append]
      show (run _ (fill value n) >>= _) = _
      rw [hrun]
      show (do let c ← c.setInternal (paddedKey n) value 0 7; run c []) = _
      rw [hset]
      rfl
    · intro k hk
      rcases List.mem_cons.mp hk with rfl | hk
      · exact hlength.trans_lt (Nat.lt_succ_self n)
      · exact (hkeys k hk).trans (Nat.lt_succ_self n)
    · rw [memoryOf_cons, itemSize, hlength]
      push_cast
      linarith
    · rw [memoryOf_cons, itemSize, hlength]
      push_cast
      have hle : (n : Int) ≤ maxSize := by omega
      linarith

/-- One value of a tebibyte under 2^23 keys, which share its memory: the counter is
    negative, although the entries take more than 2^63 bytes. -/
theorem memory_wraps : ∃ (value : GoString) (ops : List Op) (c : Cache),
    value.length = 2 ^ 40 ∧ ops.length = 2 ^ 23 ∧
    (∀ op ∈ ops, ∃ key, op = .set key value 0 7) ∧ run (Cache.new (2 ^ 23)) ops = .ok c ∧
    2 ^ 63 ≤ memoryIn c.data ∧ c.currentMemoryBytes.toInt < 0 := by
  have hlength : (List.replicate (2 ^ 40) (118 : UInt8)).length = 2 ^ 40 := List.length_replicate
  have hfits : (List.replicate (2 ^ 40) (118 : UInt8)).length ≤ maxAlloc := by
    rw [hlength]
    decide
  obtain ⟨c, es, hrun, hr, -, -, -, hlow, hhigh⟩ := run_fill ⟨_, hfits⟩ (n := 2 ^ 23) (2 ^ 23)
    le_rfl (by decide)
  rw [GoString.length, hlength] at hlow hhigh
  refine ⟨⟨_, hfits⟩, fill _ (2 ^ 23), c, hlength, ?_, ?_, hrun, ?_, ?_⟩
  · rw [fill, List.length_map, List.length_range]
  · intro op hop
    obtain ⟨i, -, rfl⟩ := List.mem_map.mp hop
    exact ⟨_, rfl⟩
  · rw [← hr.memoryOf_eq]
    norm_num at hlow
    omega
  · rw [hr.memory, Int64.toInt_ofInt]
    norm_num at hlow hhigh
    rw [Int.bmod_def]
    norm_num [Int64.size]
    omega

end GoCache.Spec
