import GoCache.ForStd.Recency
import GoCache.Native.Cache
import GoCache.Spec.LruInvariant

/-!
# The map and the list agree

`Repr c es` says that the cache `c` holds exactly the entries `es`, most
recently used first: the map has these entries, the list runs through their
nodes, and the memory counter is the sum of their sizes. Every operation takes
a represented cache to a represented cache without a panic, and the lemma about
it says which entries the result holds, in the terms of `Recency`.

## Key results

- `setInternal_repr`: `Set` is `Recency.put`
- `getInternal_repr`: a hit is `Recency.promote`, a miss changes no entry
- `deleteInternal_repr`: `Delete` is `Recency.erase`
- `cleanupExpired_repr`: `CleanupExpired` filters out what has expired
-/

namespace GoCache.Spec

open GoCache.Native DoublyLinked Recency

/-- The entries of a cache, most recently used first. -/
abbrev Items := List (GoString × CacheItem)

/-- The list nodes of the entries, in order. -/
def nodes (es : Items) : List Ptr := es.map fun e => e.2.node

/-- What an entry takes, without a bound. -/
def itemSize (key value : GoString) : Int := key.length + value.length + 96

/-- What the entries take. -/
def memoryOf (es : Items) : Int := (es.map fun e => itemSize e.1 e.2.value).sum

/-- The number of entries a cache settles at: its `maxSize`, but never fewer
    than the entry just written. -/
def capacity (c : Cache) : Nat := (max 1 c.maxSize).toNat

/-- The map holds exactly these entries. -/
def Holds (d : ItemMap) (es : Items) : Prop := ∀ k item, d.lookup k = some item ↔ (k, item) ∈ es

/-- The cache holds the entries `es`, in this order of use; the memory counter wraps. -/
structure Repr (c : Cache) (es : Items) : Prop where
  nodup : (keys es).Nodup
  holds : Holds c.data es
  linked : IsList c.heap c.lru.head c.lru.tail (nodes es)
  keyed : ∀ e ∈ es, (c.heap[e.2.node]?).map Cell.key = some e.1
  length_le : es.length ≤ capacity c
  memory : c.currentMemoryBytes = Int64.ofInt (memoryOf es)

variable {c : Cache} {d : ItemMap} {es xs ys : Items} {key value : GoString} {item : CacheItem}

theorem capacity_pos (c : Cache) : 0 < capacity c := by
  simp only [capacity]
  omega

@[simp] theorem nodes_append (xs ys : Items) : nodes (xs ++ ys) = nodes xs ++ nodes ys :=
  List.map_append

@[simp] theorem nodes_cons (e : GoString × CacheItem) (es : Items) :
    nodes (e :: es) = e.2.node :: nodes es := rfl

@[simp] theorem memoryOf_append (xs ys : Items) :
    memoryOf (xs ++ ys) = memoryOf xs + memoryOf ys := by
  simp [memoryOf]

@[simp] theorem memoryOf_cons (e : GoString × CacheItem) (es : Items) :
    memoryOf (e :: es) = itemSize e.1 e.2.value + memoryOf es := rfl

theorem calculateItemSize_eq (key value : GoString) :
    Cache.calculateItemSize key value = Int64.ofInt (itemSize key value) := by
  rw [itemSize, Int64.ofInt_add, Int64.ofInt_add, Int64.ofInt_eq_ofNat, Int64.ofInt_eq_ofNat,
    Cache.calculateItemSize]
  grind

/-! ## The map -/

theorem Holds.erase (hd : Holds d es) (key : GoString) :
    Holds (d.erase key) (Recency.erase key es) := by
  intro k item
  rw [mem_erase]
  by_cases hk : k = key
  · subst hk
    simp [Finmap.lookup_erase]
  · rw [Finmap.lookup_erase_ne hk, hd k item]
    simp [hk]

theorem Holds.insert (hd : Holds d es) (key : GoString) (item : CacheItem) :
    Holds (d.insert key item) ((key, item) :: Recency.erase key es) := by
  intro k item'
  rw [List.mem_cons, mem_erase]
  by_cases hk : k = key
  · subst hk
    simp [Finmap.lookup_insert, eq_comm]
  · rw [Finmap.lookup_insert_of_ne d hk, hd k item']
    simp [hk]

theorem Repr.lookup_eq (hr : Repr c es) (k : GoString) : c.data.lookup k = find? k es := by
  refine Option.ext fun item => ?_
  rw [hr.holds k item, find?_eq_some_iff hr.nodup]

theorem Repr.mem_iff (hr : Repr c es) (k : GoString) : k ∈ c.data ↔ k ∈ keys es := by
  rw [← Finmap.lookup_isSome, hr.lookup_eq, Option.isSome_iff_ne_none, ne_eq, find?_eq_none_iff,
    not_not]

theorem Repr.keys_eq (hr : Repr c es) : c.data.keys = (keys es).toFinset := by
  ext k
  rw [Finmap.mem_keys, hr.mem_iff, List.mem_toFinset]

theorem Repr.len_eq (hr : Repr c es) : c.len = es.length := by
  rw [Cache.len, hr.keys_eq, List.toFinset_card_of_nodup hr.nodup, length_keys]

/-- An entry of the map stands somewhere in the list. -/
theorem Repr.exists_split (hr : Repr c es) (hk : c.data.lookup key = some item) :
    ∃ xs ys, es = xs ++ (key, item) :: ys ∧ Recency.erase key es = xs ++ ys := by
  obtain ⟨xs, ys, rfl⟩ := List.append_of_mem ((hr.holds key item).mp hk)
  exact ⟨xs, ys, rfl, erase_append_cons hr.nodup⟩

/-- The nodes of the entries are allocated. -/
theorem Repr.node_lt (hr : Repr c es) : ∀ p ∈ nodes es, p < c.heap.length := by
  intro p hp
  obtain ⟨n, hn⟩ := hr.linked.seg.exists_cell hp
  exact (List.getElem?_eq_some_iff.mp hn).1

theorem repr_new (maxSize : Int) : Repr (Cache.new maxSize) [] where
  nodup := List.nodup_nil
  holds := by intro k item; simp [Cache.new]
  linked := isList_nil _
  keyed := fun _ he => nomatch he
  length_le := Nat.zero_le _
  memory := rfl

/-! ## Removing -/

/-- Taking an entry out of the list and the map. -/
theorem removeItem_repr (hr : Repr c es) (hk : c.data.lookup key = some item) :
    ∃ c', c.removeItem key item = .ok c' ∧ Repr c' (Recency.erase key es) ∧
      c'.maxSize = c.maxSize ∧ c'.metrics = c.metrics := by
  obtain ⟨xs, ys, hes, herase⟩ := hr.exists_split hk
  have hlinked := hr.linked
  rw [hes, nodes_append, nodes_cons] at hlinked
  obtain ⟨lru', h', hrem, hl', hkeys⟩ := removeNode_isList hlinked
  refine ⟨{ c with
      currentMemoryBytes := c.currentMemoryBytes - Cache.calculateItemSize key item.value
      lru := lru', heap := h', data := c.data.erase key }, ?_, ?_, rfl, rfl⟩
  · simp only [Cache.removeItem, hrem, bind, Except.bind, pure, Except.pure]
  · constructor
    · exact hr.nodup.sublist (keys_sublist (erase_sublist key es))
    · exact hr.holds.erase key
    · rw [herase, nodes_append]
      exact hl'
    · intro e he
      rw [hkeys]
      exact hr.keyed e (mem_erase.mp he).1
    · exact Nat.le_trans (erase_sublist key es).length_le hr.length_le
    · rw [herase, hr.memory, hes, calculateItemSize_eq, ← Int64.ofInt_sub]
      simp only [memoryOf_append, memoryOf_cons]
      congr 1
      omega

/-- The eviction step of `Set` on an empty cache does nothing. -/
theorem evict_repr_nil (hr : Repr c []) :
    ∃ c', c.evict = .ok c' ∧ Repr c' [] ∧ c'.maxSize = c.maxSize ∧ c'.metrics = c.metrics := by
  have hnone : c.data.lookup GoString.empty = none := hr.lookup_eq _
  refine ⟨{ c with data := c.data.erase GoString.empty }, ?_, ?_, rfl, rfl⟩
  · simp only [Cache.evict, removeLRU_nil hr.linked, bind, Except.bind, hnone, pure, Except.pure]
  · exact ⟨hr.nodup, hr.holds.erase _, hr.linked, hr.keyed, hr.length_le, hr.memory⟩

/-- The eviction step of `Set` drops the entry used longest ago. -/
theorem evict_repr {e : GoString × CacheItem} (hr : Repr c (es ++ [e])) :
    ∃ c', c.evict = .ok c' ∧ Repr c' es ∧ c'.maxSize = c.maxSize ∧
      c'.metrics = c.metrics.recordEviction := by
  have hmem : e ∈ es ++ [e] := by simp
  -- the tail node holds the key of the last entry
  obtain ⟨n, hn, hkey⟩ := Option.map_eq_some_iff.mp (hr.keyed e hmem)
  have hlinked := hr.linked
  rw [nodes_append] at hlinked
  obtain ⟨lru', h', hrem, hl', hkeys⟩ := removeLRU_isList hlinked hn
  have hlookup : c.data.lookup n.key = some e.2 := (hr.holds _ _).mpr (hkey ▸ hmem)
  have herase : Recency.erase e.1 (es ++ [e]) = es := erase_concat hr.nodup
  refine ⟨{ c with
      currentMemoryBytes := c.currentMemoryBytes - Cache.calculateItemSize n.key e.2.value
      lru := lru', heap := h', metrics := c.metrics.recordEviction
      data := c.data.erase n.key }, ?_, ?_, rfl, rfl⟩
  · simp only [Cache.evict, hrem, bind, Except.bind, hlookup, pure, Except.pure]
  · constructor
    · exact hr.nodup.sublist (keys_sublist (List.sublist_append_left es [e]))
    · have h := hr.holds.erase e.1
      rw [herase] at h
      rwa [hkey]
    · exact hl'
    · intro f hf
      rw [hkeys]
      exact hr.keyed f (List.mem_append_left _ hf)
    · exact Nat.le_trans (List.sublist_append_left es [e]).length_le hr.length_le
    · rw [hkey, hr.memory, calculateItemSize_eq, ← Int64.ofInt_sub]
      simp only [memoryOf_append, memoryOf_cons]
      congr 1
      simp [memoryOf]

/-! ## Writing -/

/-- The counters do not matter. -/
theorem Repr.withMetrics (hr : Repr c es) (metrics : Collector) :
    Repr { c with metrics := metrics } es :=
  ⟨hr.nodup, hr.holds, hr.linked, hr.keyed, hr.length_le, hr.memory⟩

/-- Moving the node of an entry to the front moves the entry there. -/
private theorem moveToFront_repr (hr : Repr c es) (hk : c.data.lookup key = some item) :
    ∃ lru' h', c.lru.moveToFront c.heap item.node = .ok (lru', h') ∧
      Repr { c with lru := lru', heap := h' } ((key, item) :: Recency.erase key es) := by
  obtain ⟨xs, ys, hes, herase⟩ := hr.exists_split hk
  have hlinked := hr.linked
  rw [hes, nodes_append, nodes_cons] at hlinked
  obtain ⟨lru', h', hmove, hl', hkeys⟩ := moveToFront_isList hlinked
  -- the entries are the same, in another order
  have hmem : ∀ e, e ∈ (key, item) :: (xs ++ ys) ↔ e ∈ es := by
    intro e
    simp only [hes, List.mem_cons, List.mem_append]
    tauto
  refine ⟨lru', h', hmove, ?_⟩
  rw [herase]
  constructor
  · have hnd := hr.nodup
    rw [hes, keys_append, keys_cons] at hnd
    rw [keys_cons, keys_append]
    exact List.nodup_middle.mp hnd
  · intro k item'
    rw [hr.holds k item', hmem]
  · rw [nodes_cons, nodes_append]
    exact hl'
  · intro e he
    rw [hkeys]
    exact hr.keyed e ((hmem e).mp he)
  · have hlen := hr.length_le
    rw [hes, List.length_append, List.length_cons] at hlen
    rw [List.length_cons, List.length_append]
    exact hlen
  · rw [hr.memory, hes]
    simp only [memoryOf_append, memoryOf_cons]
    congr 1
    omega

/-- Overwriting an entry moves it to the front, on its old node. -/
private theorem setInternal_repr_of_mem (hr : Repr c es) (hk : c.data.lookup key = some item)
    (value : GoString) (ttl : Duration) (now : Time) :
    ∃ c', c.setInternal key value ttl now = .ok c' ∧
      Repr c' ((key, ⟨value, Cache.expiry ttl now, item.node⟩) :: Recency.erase key es) ∧
      c'.maxSize = c.maxSize ∧ c'.metrics.evictionsTotal = c.metrics.evictionsTotal := by
  obtain ⟨lru', h', hmove, hr'⟩ := moveToFront_repr hr hk
  refine ⟨Cache.recordSet { c with
      currentMemoryBytes := c.currentMemoryBytes - Cache.calculateItemSize key item.value
      data := c.data.insert key { item with value := value, expiresAt := Cache.expiry ttl now }
      lru := lru', heap := h' } key value, ?_, ?_, rfl, rfl⟩
  · simp only [Cache.setInternal, hk, hmove, bind, Except.bind, pure, Except.pure]
  · -- the entry keeps its node, so only the map and the memory change
    refine ⟨hr'.nodup, hr.holds.insert key _, hr'.linked, ?_, hr'.length_le, ?_⟩
    · intro e he
      cases List.mem_cons.mp he with
      | inl heq =>
        subst heq
        exact hr'.keyed (key, item) List.mem_cons_self
      | inr hmem => exact hr'.keyed e (List.mem_cons_of_mem _ hmem)
    · have hmemory : c.currentMemoryBytes =
          Int64.ofInt (memoryOf ((key, item) :: Recency.erase key es)) := hr'.memory
      simp only [Cache.recordSet, hmemory, calculateItemSize_eq, ← Int64.ofInt_sub,
        ← Int64.ofInt_add, memoryOf_cons]
      congr 1
      omega

/-- Adding an entry when there is room for it. -/
private theorem insert_repr (hr : Repr c es) (hk : key ∉ keys es) (hroom : es.length < capacity c)
    (value : GoString) (expiresAt : Time) :
    ∃ node lru' h', c.lru.add c.heap key = .ok (node, lru', h') ∧
      Repr (Cache.recordSet { c with
        data := c.data.insert key ⟨value, expiresAt, node⟩, lru := lru', heap := h' } key value)
        ((key, ⟨value, expiresAt, node⟩) :: es) := by
  obtain ⟨lru', h', hadd, hl', hkeys⟩ := add_isList key hr.linked hr.node_lt
  refine ⟨c.heap.length, lru', h', hadd, ?_, ?_, hl', ?_, hroom, ?_⟩
  · exact List.nodup_cons.mpr ⟨hk, hr.nodup⟩
  · have hd := hr.holds.insert key ⟨value, expiresAt, c.heap.length⟩
    rwa [erase_of_notMem hk] at hd
  · intro e he
    simp only [Cache.recordSet]
    rw [hkeys]
    cases List.mem_cons.mp he with
    | inl heq => subst heq; simp
    | inr hmem =>
      -- the new node is behind all others in the heap
      have hlt := hr.node_lt e.2.node (List.mem_map_of_mem hmem)
      rw [List.getElem?_append_left hlt]
      exact hr.keyed e hmem
  · simp only [Cache.recordSet, hr.memory, calculateItemSize_eq, ← Int64.ofInt_add, memoryOf_cons]
    congr 1
    omega

/-- The eviction a `Set` of a new key makes leaves room for it: what remains is
    the front of the list. -/
private theorem makeRoom_repr (hr : Repr c es) :
    ∃ c', c.makeRoom = .ok c' ∧
      Repr c' (es.take (capacity c - 1)) ∧ c'.maxSize = c.maxSize ∧
      c'.metrics.evictionsTotal =
        c.metrics.evictionsTotal + if es.length < capacity c then 0 else 1 := by
  have hlen := hr.len_eq
  have hle := hr.length_le
  by_cases hfull : c.maxSize ≤ c.len
  · rw [Cache.makeRoom, if_pos hfull]
    rcases List.eq_nil_or_concat' es with rfl | ⟨xs, e, rfl⟩
    · -- nothing to evict: `maxSize` is zero or negative
      obtain ⟨c', hev, hr', hmax, hm⟩ := evict_repr_nil hr
      refine ⟨c', hev, by simpa using hr', hmax, ?_⟩
      rw [hm, List.length_nil, if_pos (capacity_pos c), Nat.add_zero]
    · -- the list is not over its capacity, so one eviction is enough
      obtain ⟨c', hev, hr', hmax, hm⟩ := evict_repr hr
      have hcap : capacity c = xs.length + 1 := by
        simp only [List.length_append, List.length_singleton, capacity] at hle hlen ⊢
        omega
      refine ⟨c', hev, ?_, hmax, ?_⟩
      · rw [hcap, Nat.add_sub_cancel, List.take_left']
        · exact hr'
        · rfl
      · rw [hm, hcap]
        simp [Collector.recordEviction]
  · rw [Cache.makeRoom, if_neg hfull]
    have hlt : es.length < capacity c := by
      simp only [capacity]
      omega
    refine ⟨c, rfl, ?_, rfl, ?_⟩
    · rwa [List.take_of_length_le (by omega)]
    · rw [if_pos hlt, Nat.add_zero]

/-- `Set` stores the entry in front and keeps the most recently used others, as
    many as fit. It reports an eviction exactly when it dropped one. -/
theorem setInternal_repr (hr : Repr c es) (key value : GoString) (ttl : Duration) (now : Time) :
    ∃ c' node, c.setInternal key value ttl now = .ok c' ∧
      Repr c' (put (capacity c) key ⟨value, Cache.expiry ttl now, node⟩ es) ∧
      c'.maxSize = c.maxSize ∧
      c'.metrics.evictionsTotal = c.metrics.evictionsTotal +
        if key ∈ keys es ∨ es.length < capacity c then 0 else 1 := by
  cases hk : c.data.lookup key with
  | some item =>
    obtain ⟨c', hset, hr', hmax, hev⟩ := setInternal_repr_of_mem hr hk value ttl now
    have hmem : key ∈ keys es := mem_keys_of_mem ((hr.holds key item).mp hk)
    have hlen := length_erase_of_mem hr.nodup hmem
    -- the old entry is gone, so the rest fits and nothing is cut off
    have htake : (Recency.erase key es).take (capacity c - 1) = Recency.erase key es :=
      List.take_of_length_le (by have := hr.length_le; omega)
    refine ⟨c', item.node, hset, ?_, hmax, ?_⟩
    · rwa [put, htake]
    · rw [hev, if_pos (Or.inl hmem), Nat.add_zero]
  | none =>
    have hnot : key ∉ keys es := by
      rw [hr.lookup_eq] at hk
      exact find?_eq_none_iff.mp hk
    obtain ⟨c₁, hroom, hr₁, hmax, hev⟩ := makeRoom_repr hr
    have hcap : capacity c₁ = capacity c := by simp only [capacity, hmax]
    have hnot₁ : key ∉ keys (es.take (capacity c - 1)) :=
      fun hmem => hnot ((keys_sublist (List.take_sublist _ es)).subset hmem)
    have hlt : (es.take (capacity c - 1)).length < capacity c₁ := by
      have := capacity_pos c
      simp only [List.length_take, hcap]
      omega
    obtain ⟨node, lru', h', hadd, hr'⟩ := insert_repr hr₁ hnot₁ hlt value (Cache.expiry ttl now)
    refine ⟨Cache.recordSet { c₁ with
        data := c₁.data.insert key ⟨value, Cache.expiry ttl now, node⟩
        lru := lru', heap := h' } key value, node, ?_, ?_, hmax, ?_⟩
    · simp only [Cache.setInternal, hk, hroom, bind, Except.bind, hadd, pure, Except.pure]
    · rw [put, erase_of_notMem hnot]
      exact hr'
    · simp only [hnot, false_or]
      exact hev

/-! ## Reading -/

/-- The value of a key that a read at this time hits. -/
def hit? (es : Items) (key : GoString) (now : Time) : Option GoString :=
  ((find? key es).filter fun item => !item.expired now).map CacheItem.value

/-- `Get` returns the value of an unexpired entry and moves it to the front;
    an expired or missing entry is a miss and stays where it is. -/
theorem getInternal_repr (hr : Repr c es) (key : GoString) (now : Time) :
    ∃ c', c.getInternal key now =
        .ok (((hit? es key now).getD GoString.empty, (hit? es key now).isSome), c') ∧
      Repr c' (if (hit? es key now).isSome then promote key es else es) ∧
      c'.maxSize = c.maxSize ∧ c'.metrics.evictionsTotal = c.metrics.evictionsTotal := by
  cases hk : find? key es with
  | none =>
    have hlookup : c.data.lookup key = none := by rw [hr.lookup_eq, hk]
    have hmiss : hit? es key now = none := by simp [hit?, hk]
    refine ⟨{ c with metrics := c.metrics.recordGet.recordCacheMiss }, ?_, ?_, rfl, rfl⟩
    · simp [Cache.getInternal, hlookup, hmiss]
    · rw [hmiss]
      exact hr.withMetrics _
  | some item =>
    have hlookup : c.data.lookup key = some item := by rw [hr.lookup_eq, hk]
    by_cases hexp : item.expired now = true
    · -- an expired entry is reported as a miss, and left for the cleanup
      have hmiss : hit? es key now = none := by simp [hit?, hk, hexp]
      refine ⟨{ c with metrics := c.metrics.recordGet.recordCacheMiss.recordExpiration },
        ?_, ?_, rfl, rfl⟩
      · simp [Cache.getInternal, hlookup, hmiss, hexp]
      · rw [hmiss]
        exact hr.withMetrics _
    · have hhit : hit? es key now = some item.value := by simp [hit?, hk, hexp]
      obtain ⟨lru', h', hmove, hr'⟩ := moveToFront_repr hr hlookup
      have hpromote : promote key es = (key, item) :: Recency.erase key es := by
        simp only [promote, hk]
      refine ⟨{ c with lru := lru', heap := h'
                       metrics := c.metrics.recordGet.recordCacheHit }, ?_, ?_, rfl, rfl⟩
      · simp [Cache.getInternal, hlookup, hhit, hexp, hmove, bind, Except.bind, pure, Except.pure]
      · rw [hhit, Option.isSome_some, if_pos rfl, hpromote]
        exact hr'.withMetrics _

/-! ## Deleting -/

/-- `Delete` erases the entry. -/
theorem deleteInternal_repr (hr : Repr c es) (key : GoString) :
    ∃ c', c.deleteInternal key = .ok c' ∧ Repr c' (Recency.erase key es) ∧
      c'.maxSize = c.maxSize ∧ c'.metrics.evictionsTotal = c.metrics.evictionsTotal := by
  cases hk : c.data.lookup key with
  | none =>
    have hnot : key ∉ keys es := find?_eq_none_iff.mp (hr.lookup_eq key ▸ hk)
    refine ⟨{ c with metrics := c.metrics.recordDelete }, ?_, ?_, rfl, rfl⟩
    · simp only [Cache.deleteInternal, hk]
    · rw [erase_of_notMem hnot]
      exact hr.withMetrics _
  | some item =>
    obtain ⟨c', hrem, hr', hmax, hm⟩ := removeItem_repr hr hk
    refine ⟨{ c' with metrics := c'.metrics.recordDelete.update c'.len c'.currentMemoryBytes },
      ?_, ?_, hmax, ?_⟩
    · simp only [Cache.deleteInternal, hk, hrem, bind, Except.bind, pure, Except.pure]
    · exact hr'.withMetrics _
    · rw [hm]
      rfl

/-- The entries a cleanup that has visited these keys keeps. -/
def unexpired (now : Time) (order : List GoString) (es : Items) : Items :=
  es.filter fun e => !(decide (e.1 ∈ order) && e.2.expired now)

/-- The cleanup loop removes the expired entries among the keys it visits. -/
private theorem cleanupLoop_repr (now : Time) (order : List GoString) (n : Nat)
    (hr : Repr c es) :
    ∃ n' c', Cache.cleanupLoop now order n c = .ok (n', c') ∧
      Repr c' (unexpired now order es) ∧ c'.maxSize = c.maxSize ∧
      c'.metrics.evictionsTotal = c.metrics.evictionsTotal := by
  induction order generalizing c es n with
  | nil =>
    refine ⟨n, c, rfl, ?_, rfl, rfl⟩
    have hall : unexpired now [] es = es := by simp [unexpired]
    rwa [hall]
  | cons key order ih =>
    -- a key that is not removed is filtered out by neither side
    have hskip (hkeep : ∀ item, (key, item) ∈ es → item.expired now = false) :
        unexpired now (key :: order) es = unexpired now order es := by
      refine List.filter_congr fun e he => ?_
      by_cases heq : e.1 = key
      · simp [hkeep e.2 (heq ▸ he)]
      · simp [heq]
    cases hk : c.data.lookup key with
    | none =>
      rw [hskip fun item hmem => by simp [(hr.holds key item).mpr hmem] at hk]
      simp only [Cache.cleanupLoop, hk]
      exact ih n hr
    | some item =>
      by_cases hexp : item.expired now = true
      · obtain ⟨c₁, hrem, hr₁, hmax, hm⟩ := removeItem_repr hr hk
        have hr₂ : Repr { c₁ with metrics := c₁.metrics.recordExpiration }
            (Recency.erase key es) :=
          ⟨hr₁.nodup, hr₁.holds, hr₁.linked, hr₁.keyed, hr₁.length_le, hr₁.memory⟩
        obtain ⟨n', c', hloop, hr', hmax', hm'⟩ := ih (n + 1) hr₂
        have hfilter : unexpired now order (Recency.erase key es) =
            unexpired now (key :: order) es := by
          simp only [unexpired, Recency.erase, List.filter_filter]
          refine List.filter_congr fun e he => ?_
          by_cases heq : e.1 = key
          · have hitem : e.2 = item := by
              have h := (hr.holds key e.2).mpr (heq ▸ he)
              exact Option.some.inj (h.symm.trans hk)
            simp [heq, hitem, hexp]
          · simp [heq]
        refine ⟨n', c', ?_, hfilter ▸ hr', hmax'.trans hmax, ?_⟩
        · simp only [Cache.cleanupLoop, hk, hexp, ↓reduceIte, hrem, bind, Except.bind]
          exact hloop
        · rw [hm', hm]
          rfl
      · have hitem : ∀ item', (key, item') ∈ es → item'.expired now = false := by
          intro item' hmem
          have h := (hr.holds key item').mpr hmem
          rw [Option.some.inj (h.symm.trans hk)]
          simpa using hexp
        rw [hskip hitem]
        simp only [Cache.cleanupLoop, hk, hexp, Bool.false_eq_true, ↓reduceIte]
        exact ih n hr

/-- `CleanupExpired` removes the expired entries, in whatever order it visits
    the map. -/
theorem cleanupExpired_repr (hr : Repr c es) (order : List GoString) (now : Time) :
    ∃ n c', c.cleanupExpired order now = .ok (n, c') ∧ Repr c' (unexpired now order es) ∧
      c'.maxSize = c.maxSize ∧ c'.metrics.evictionsTotal = c.metrics.evictionsTotal := by
  obtain ⟨n, c', hloop, hr', hmax, hm⟩ := cleanupLoop_repr now order 0 hr
  by_cases hn : 0 < n
  · refine ⟨n, { c' with metrics := c'.metrics.update c'.len c'.currentMemoryBytes }, ?_,
      hr'.withMetrics _, hmax, hm⟩
    simp only [Cache.cleanupExpired, hloop, bind, Except.bind, hn, ↓reduceIte, pure, Except.pure]
  · refine ⟨n, c', ?_, hr', hmax, hm⟩
    simp only [Cache.cleanupExpired, hloop, bind, Except.bind, hn, ↓reduceIte, pure, Except.pure]

end GoCache.Spec
