import GoCache.Spec.CacheInvariant

/-!
# Caches that cannot panic

`WfCache` bundles a cache with the fact that its map and list agree, so that
its operations are total functions. `WfCache.entries` is the abstract value of
such a cache: its entries with values and deadlines, most recently used first.
What the operations do to the entries is stated in the terms of `Recency`, and
the code above the cache is reasoned about through these lemmas only.

## Key results

- `entries_set`, `entries_get`, `entries_delete`, `entries_cleanupExpired`:
  each operation on the abstract value
- `item?_set`, `contents_set`: without an eviction, a `Set` is a plain map update
- `evictions_set`: when the eviction counter moves
-/

namespace GoCache.Native

/-- The abstract entry of a map item. -/
def CacheItem.entry (item : CacheItem) : SnapshotEntry := ⟨item.value, item.expiresAt⟩

/-- The entries of the cache in list order, read off by walking the list. -/
def Cache.entries (c : Cache) : List (GoString × SnapshotEntry) :=
  (DoublyLinked.walk c.heap c.heap.length c.lru.head).filterMap fun p =>
    (c.heap[p]?).bind fun n => (c.data.lookup n.key).map fun item => (n.key, item.entry)

/-- The key-to-value map. -/
def Cache.contents (c : Cache) (k : GoString) : Option GoString :=
  (c.data.lookup k).map CacheItem.value

end GoCache.Native

namespace GoCache.Spec

open GoCache.Native Recency

/-- The value of a computation that does not panic. -/
def okValue {α : Type} : (x : Except Panic α) → (∃ a, x = .ok a) → α
  | .ok a, _ => a
  | .error _, h => False.elim (by obtain ⟨a, h⟩ := h; exact nomatch h)

theorem ok_okValue {α : Type} {x : Except Panic α} (h : ∃ a, x = .ok a) :
    x = .ok (okValue x h) := by
  obtain ⟨a, rfl⟩ := h
  rfl

theorem okValue_eq {α : Type} {x : Except Panic α} {a : α} (h : ∃ a, x = .ok a) (ha : x = .ok a) :
    okValue x h = a := by
  subst ha
  rfl

/-- A cache whose map and list agree. -/
structure WfCache where
  cache : Cache
  wf : ∃ es, Repr cache es

namespace WfCache

/-- `NewCache`. -/
def new (maxSize : Int) : WfCache := ⟨Cache.new maxSize, [], repr_new maxSize⟩

private theorem set_ok (c : WfCache) (key value : GoString) (ttl : Duration) (now : Time) :
    ∃ c', c.cache.set key value ttl now = .ok c' := by
  obtain ⟨es, hr⟩ := c.wf
  obtain ⟨c', _, hset, _⟩ := setInternal_repr hr key value ttl now
  exact ⟨c', hset⟩

private theorem get_ok (c : WfCache) (key : GoString) (now : Time) :
    ∃ r, c.cache.get key now = .ok r := by
  obtain ⟨es, hr⟩ := c.wf
  obtain ⟨c', hget, _⟩ := getInternal_repr hr key now
  exact ⟨_, hget⟩

private theorem delete_ok (c : WfCache) (key : GoString) : ∃ c', c.cache.delete key = .ok c' := by
  obtain ⟨es, hr⟩ := c.wf
  obtain ⟨c', hdel, _⟩ := deleteInternal_repr hr key
  exact ⟨c', hdel⟩

private theorem cleanup_ok (c : WfCache) (order : List GoString) (now : Time) :
    ∃ r, c.cache.cleanupExpired order now = .ok r := by
  obtain ⟨es, hr⟩ := c.wf
  obtain ⟨n, c', hclean, _⟩ := cleanupExpired_repr hr order now
  exact ⟨_, hclean⟩

/-- `Set` and `SetInternal`. -/
def set (c : WfCache) (key value : GoString) (ttl : Duration) (now : Time) : WfCache where
  cache := okValue _ (set_ok c key value ttl now)
  wf := by
    obtain ⟨es, hr⟩ := c.wf
    obtain ⟨c', node, hset, hr', _⟩ := setInternal_repr hr key value ttl now
    have hc' : okValue _ (set_ok c key value ttl now) = c' := okValue_eq _ hset
    exact ⟨_, hc' ▸ hr'⟩

/-- `Get` and `GetInternal`. -/
def get (c : WfCache) (key : GoString) (now : Time) : (GoString × Bool) × WfCache where
  fst := (okValue _ (get_ok c key now)).1
  snd :=
    { cache := (okValue _ (get_ok c key now)).2
      wf := by
        obtain ⟨es, hr⟩ := c.wf
        obtain ⟨c', hget, hr', _⟩ := getInternal_repr hr key now
        have hc' : (okValue _ (get_ok c key now)).2 = c' :=
          congrArg Prod.snd (okValue_eq (get_ok c key now) hget)
        exact ⟨_, hc' ▸ hr'⟩ }

/-- `Delete` and `DeleteInternal`. -/
def delete (c : WfCache) (key : GoString) : WfCache where
  cache := okValue _ (delete_ok c key)
  wf := by
    obtain ⟨es, hr⟩ := c.wf
    obtain ⟨c', hdel, hr', _⟩ := deleteInternal_repr hr key
    have hc' : okValue _ (delete_ok c key) = c' := okValue_eq _ hdel
    exact ⟨_, hc' ▸ hr'⟩

/-- `CleanupExpired`. -/
def cleanupExpired (c : WfCache) (order : List GoString) (now : Time) : WfCache where
  cache := (okValue _ (cleanup_ok c order now)).2
  wf := by
    obtain ⟨es, hr⟩ := c.wf
    obtain ⟨n, c', hclean, hr', _⟩ := cleanupExpired_repr hr order now
    rw [okValue_eq _ hclean]
    exact ⟨_, hr'⟩

/-- The bundled operations are the operations of the cache. -/
theorem cache_set (c : WfCache) (key value : GoString) (ttl : Duration) (now : Time) :
    c.cache.set key value ttl now = .ok (c.set key value ttl now).cache := ok_okValue _

theorem cache_get (c : WfCache) (key : GoString) (now : Time) :
    c.cache.get key now = .ok ((c.get key now).1, (c.get key now).2.cache) := ok_okValue _

theorem cache_delete (c : WfCache) (key : GoString) :
    c.cache.delete key = .ok (c.delete key).cache := ok_okValue _

theorem cache_cleanupExpired (c : WfCache) (order : List GoString) (now : Time) :
    ∃ n, c.cache.cleanupExpired order now = .ok (n, (c.cleanupExpired order now).cache) :=
  ⟨_, ok_okValue _⟩

/-! ## The abstract value -/

/-- The entries, most recently used first. -/
def entries (c : WfCache) : List (GoString × SnapshotEntry) := c.cache.entries

/-- The number of entries the cache settles at. -/
def capacity (c : WfCache) : Nat := Spec.capacity c.cache

/-- The eviction counter. -/
def evictions (c : WfCache) : Nat := c.cache.metrics.evictionsTotal

variable (c : WfCache) (key value : GoString) (ttl : Duration) (now : Time)
  (order : List GoString)

/-- Walking the list of a represented cache gives its entries. -/
private theorem entries_of_repr {c : Cache} {es : Items} (hr : Repr c es) :
    c.entries = mapPayload CacheItem.entry es := by
  have hwalk := hr.linked.followNext.walk_eq hr.linked.length_le
  simp only [Cache.entries, hwalk, nodes, List.filterMap_map]
  rw [mapPayload, ← List.filterMap_eq_map]
  refine List.filterMap_congr fun e he => ?_
  obtain ⟨n, hn, hkey⟩ := Option.map_eq_some_iff.mp (hr.keyed e he)
  have hlookup : c.data.lookup n.key = some e.2 := hkey ▸ (hr.holds _ _).mpr he
  simp only [Function.comp_apply, hn, Option.bind_some]
  rw [hlookup, Option.map_some, hkey]

@[simp] theorem entries_new (maxSize : Int) : (new maxSize).entries = [] :=
  entries_of_repr (repr_new maxSize)

theorem nodup_entries : (keys c.entries).Nodup := by
  obtain ⟨es, hr⟩ := c.wf
  rw [entries, entries_of_repr hr, keys_mapPayload]
  exact hr.nodup

theorem length_entries_le : c.entries.length ≤ c.capacity := by
  obtain ⟨es, hr⟩ := c.wf
  rw [entries, entries_of_repr hr, length_mapPayload]
  exact hr.length_le

theorem capacity_pos : 0 < c.capacity := Spec.capacity_pos c.cache

/-- The map as a lookup in the entries. -/
theorem lookup_eq (k : GoString) :
    (c.cache.data.lookup k).map CacheItem.entry = find? k c.entries := by
  obtain ⟨es, hr⟩ := c.wf
  rw [entries, entries_of_repr hr, find?_mapPayload, hr.lookup_eq]

theorem mem_data_iff (k : GoString) : k ∈ c.cache.data ↔ k ∈ keys c.entries := by
  obtain ⟨es, hr⟩ := c.wf
  rw [entries, entries_of_repr hr, keys_mapPayload, hr.mem_iff]

theorem len_eq : c.cache.len = c.entries.length := by
  obtain ⟨es, hr⟩ := c.wf
  rw [entries, entries_of_repr hr, length_mapPayload, hr.len_eq]

/-- The key-to-value map. -/
def contents (c : WfCache) : GoString → Option GoString := c.cache.contents

theorem contents_eq (k : GoString) :
    c.contents k = (find? k c.entries).map SnapshotEntry.value := by
  rw [contents, Cache.contents, ← lookup_eq, Option.map_map]
  rfl

@[simp] theorem contents_new (maxSize : Int) : (new maxSize).contents = fun _ => none := by
  funext k
  rw [contents_eq, entries_new]
  rfl

/-! ## What the operations do to it -/

theorem entries_set : (c.set key value ttl now).entries =
    put c.capacity key ⟨value, Cache.expiry ttl now⟩ c.entries := by
  obtain ⟨es, hr⟩ := c.wf
  obtain ⟨c', node, hset, hr', _⟩ := setInternal_repr hr key value ttl now
  have hc' : (c.set key value ttl now).cache = c' := okValue_eq _ hset
  rw [entries, hc', entries_of_repr hr', entries, entries_of_repr hr, capacity, ← put_mapPayload]
  rfl

@[simp] theorem capacity_set : (c.set key value ttl now).capacity = c.capacity := by
  obtain ⟨es, hr⟩ := c.wf
  obtain ⟨c', node, hset, _, hmax, _⟩ := setInternal_repr hr key value ttl now
  have hc' : (c.set key value ttl now).cache = c' := okValue_eq _ hset
  simp only [capacity, Spec.capacity, hc', hmax]

theorem evictions_set : (c.set key value ttl now).evictions = c.evictions +
    if key ∈ keys c.entries ∨ c.entries.length < c.capacity then 0 else 1 := by
  obtain ⟨es, hr⟩ := c.wf
  obtain ⟨c', node, hset, _, _, hev⟩ := setInternal_repr hr key value ttl now
  have hc' : (c.set key value ttl now).cache = c' := okValue_eq _ hset
  rw [evictions, hc', hev, entries, entries_of_repr hr, keys_mapPayload, length_mapPayload]
  rfl

/-- The entry of a key that a read at this time hits. -/
def hit? (c : WfCache) (key : GoString) (now : Time) : Option SnapshotEntry :=
  (find? key c.entries).filter fun e => !hasExpired e.expiresAt now

private theorem hit?_of_repr {es : Items} (hr : Repr c.cache es) :
    Spec.hit? es key now = (c.hit? key now).map SnapshotEntry.value := by
  rw [hit?, entries, entries_of_repr hr, find?_mapPayload, Spec.hit?]
  cases find? key es with
  | none => rfl
  | some item =>
    simp only [Option.map_some, Option.filter_some, CacheItem.entry, CacheItem.expired]
    split <;> rfl

/-- `Get` returns the value of a live entry. -/
theorem get_fst : (c.get key now).1 =
    (((c.hit? key now).map SnapshotEntry.value).getD GoString.empty, (c.hit? key now).isSome) := by
  obtain ⟨es, hr⟩ := c.wf
  obtain ⟨c', hget, _⟩ := getInternal_repr hr key now
  have hc' : (c.get key now).1 = ((Spec.hit? es key now).getD GoString.empty,
      (Spec.hit? es key now).isSome) := congrArg Prod.fst (okValue_eq (get_ok c key now) hget)
  rw [hc', hit?_of_repr c key now hr, Option.isSome_map]

theorem entries_get : (c.get key now).2.entries =
    if (c.hit? key now).isSome then promote key c.entries else c.entries := by
  obtain ⟨es, hr⟩ := c.wf
  obtain ⟨c', hget, hr', _⟩ := getInternal_repr hr key now
  have hc' : (c.get key now).2.cache = c' := congrArg Prod.snd (okValue_eq (get_ok c key now) hget)
  rw [entries, hc', entries_of_repr hr', hit?_of_repr c key now hr, Option.isSome_map, entries,
    entries_of_repr hr, promote_mapPayload]
  split <;> rfl

@[simp] theorem capacity_get : (c.get key now).2.capacity = c.capacity := by
  obtain ⟨es, hr⟩ := c.wf
  obtain ⟨c', hget, _, hmax, _⟩ := getInternal_repr hr key now
  have hc' : (c.get key now).2.cache = c' := congrArg Prod.snd (okValue_eq (get_ok c key now) hget)
  simp only [capacity, Spec.capacity, hc', hmax]

theorem entries_delete : (c.delete key).entries = erase key c.entries := by
  obtain ⟨es, hr⟩ := c.wf
  obtain ⟨c', hdel, hr', _⟩ := deleteInternal_repr hr key
  have hc' : (c.delete key).cache = c' := okValue_eq _ hdel
  rw [entries, hc', entries_of_repr hr', entries, entries_of_repr hr, erase_mapPayload]

@[simp] theorem capacity_delete : (c.delete key).capacity = c.capacity := by
  obtain ⟨es, hr⟩ := c.wf
  obtain ⟨c', hdel, _, hmax, _⟩ := deleteInternal_repr hr key
  have hc' : (c.delete key).cache = c' := okValue_eq _ hdel
  simp only [capacity, Spec.capacity, hc', hmax]

@[simp] theorem evictions_delete : (c.delete key).evictions = c.evictions := by
  obtain ⟨es, hr⟩ := c.wf
  obtain ⟨c', hdel, _, _, hev⟩ := deleteInternal_repr hr key
  have hc' : (c.delete key).cache = c' := okValue_eq _ hdel
  rw [evictions, hc', hev, evictions]

theorem entries_cleanupExpired : (c.cleanupExpired order now).entries =
    c.entries.filter fun e => !(decide (e.1 ∈ order) && hasExpired e.2.expiresAt now) := by
  obtain ⟨es, hr⟩ := c.wf
  obtain ⟨n, c', hclean, hr', _⟩ := cleanupExpired_repr hr order now
  have hc' : (c.cleanupExpired order now).cache = c' :=
    congrArg Prod.snd (okValue_eq (cleanup_ok c order now) hclean)
  rw [entries, hc', entries_of_repr hr', entries, entries_of_repr hr]
  simp only [unexpired, mapPayload, List.filter_map]
  rfl

@[simp] theorem capacity_cleanupExpired : (c.cleanupExpired order now).capacity = c.capacity := by
  obtain ⟨es, hr⟩ := c.wf
  obtain ⟨n, c', hclean, _, hmax, _⟩ := cleanupExpired_repr hr order now
  have hc' : (c.cleanupExpired order now).cache = c' :=
    congrArg Prod.snd (okValue_eq (cleanup_ok c order now) hclean)
  simp only [capacity, Spec.capacity, hc', hmax]

@[simp] theorem evictions_get : (c.get key now).2.evictions = c.evictions := by
  obtain ⟨es, hr⟩ := c.wf
  obtain ⟨c', hget, _, _, hev⟩ := getInternal_repr hr key now
  have hc' : (c.get key now).2.cache = c' := congrArg Prod.snd (okValue_eq (get_ok c key now) hget)
  rw [evictions, hc', hev, evictions]

/-! ## The map, with and without deadlines -/

/-- The entry of a key. -/
def item? (c : WfCache) (k : GoString) : Option SnapshotEntry := find? k c.entries

/-- A `Set` that evicts nothing is a plain update of the map. -/
theorem item?_set (hev : (c.set key value ttl now).evictions = c.evictions) :
    (c.set key value ttl now).item? =
      Function.update c.item? key (some ⟨value, Cache.expiry ttl now⟩) := by
  have hroom : key ∈ keys c.entries ∨ c.entries.length < c.capacity := by
    by_contra hfull
    rw [evictions_set, if_neg hfull] at hev
    omega
  -- the older entries fit below the capacity, so `put` cuts none of them off
  have hlen : (erase key c.entries).length < c.capacity := by
    have hle := c.length_entries_le
    rcases hroom with hmem | hlt
    · have := length_erase_of_mem c.nodup_entries hmem
      omega
    · have := (erase_sublist key c.entries).length_le
      omega
  funext k
  rw [item?, entries_set, Function.update_apply]
  by_cases hk : k = key
  · rw [if_pos hk, hk, find?_put_self]
  · rw [if_neg hk, find?_put_of_length_lt hk hlen, item?]

theorem item?_get : (c.get key now).2.item? = c.item? := by
  funext k
  rw [item?, entries_get]
  split
  · rw [find?_promote, item?]
  · rfl

theorem item?_delete : (c.delete key).item? = Function.update c.item? key none := by
  funext k
  rw [item?, entries_delete, Function.update_apply]
  by_cases hk : k = key
  · rw [if_pos hk, hk, find?_erase_self]
  · rw [if_neg hk, find?_erase_of_ne hk, item?]

private theorem contents_eq_item? (k : GoString) :
    c.contents k = (c.item? k).map SnapshotEntry.value := contents_eq c k

theorem contents_set (hev : (c.set key value ttl now).evictions = c.evictions) :
    (c.set key value ttl now).contents = Function.update c.contents key (some value) := by
  funext k
  rw [contents_eq_item?, item?_set c key value ttl now hev, Function.update_apply,
    Function.update_apply, contents_eq_item?]
  split <;> rfl

theorem contents_delete : (c.delete key).contents = Function.update c.contents key none := by
  funext k
  rw [contents_eq_item?, item?_delete, Function.update_apply, Function.update_apply,
    contents_eq_item?]
  split <;> rfl

end WfCache

end GoCache.Spec
