import GoCache.ForStd.Inclusion
import GoCache.Spec.Retention

/-!
# Caches of two sizes under one load

The same calls are made on two caches, of which one may hold more. A `Get` that misses
does not load the key, so the two lists are not the stacks of a paging algorithm: a hit
in the larger cache alone reorders it alone. The larger list still has all entries of
the smaller, in their order.

## Key results

- `Encloses.step`: one call keeps the smaller cache enclosed
- `larger_cache_never_worse`: after every load the larger cache has at least the live
  keys and the hits, and at most the evictions, of the smaller
-/

namespace GoCache.Spec

open GoCache.Native Recency

/-! ## One load on two caches -/

/-- The same call. The order in which a cleanup visits the map is left to Go. -/
inductive SameCall : Op → Op → Prop
  | same (op : Op) : SameCall op op
  | cleanup (order order' : List GoString) (now : Time) :
      SameCall (.cleanupExpired order now) (.cleanupExpired order' now)

/-- A cleanup visits every key of the map. -/
def Op.visitsAll (c : Cache) : Op → Bool
  | .cleanupExpired order _ => decide (c.Enumerates order)
  | .set _ _ _ _ | .setInternal _ _ _ _ | .get _ _ | .getInternal _ _ | .delete _
  | .deleteInternal _ => true

/-- Every cleanup of a run visits every key of the map. -/
def visitsAll (c : Cache) : List Op → Bool
  | [] => true
  | op :: ops =>
    op.visitsAll c &&
      match step c op with
      | .ok c' => visitsAll c' ops
      | .error _ => true

/-! ## Counters -/

section Counters

variable {c c' : Cache}

private theorem cacheHits_evict (h : c.evict = .ok c') :
    c'.metrics.cacheHits = c.metrics.cacheHits := by
  unfold Cache.evict at h
  obtain ⟨r, -, h⟩ := bind_eq_ok.mp h
  simp only at h
  split at h <;> cases h <;> rfl

private theorem cacheHits_makeRoom (h : c.makeRoom = .ok c') :
    c'.metrics.cacheHits = c.metrics.cacheHits := by
  unfold Cache.makeRoom at h
  split at h
  · exact cacheHits_evict h
  · cases h
    rfl

private theorem cacheHits_setInternal {key value : GoString} {ttl : Duration} {now : Time}
    (h : c.setInternal key value ttl now = .ok c') :
    c'.metrics.cacheHits = c.metrics.cacheHits := by
  unfold Cache.setInternal at h
  split at h
  · obtain ⟨r, -, h⟩ := bind_eq_ok.mp h
    cases h
    rfl
  · obtain ⟨c₁, hroom, h⟩ := bind_eq_ok.mp h
    obtain ⟨r, -, h⟩ := bind_eq_ok.mp h
    have hsame := cacheHits_makeRoom hroom
    cases h
    exact hsame

private theorem cacheHits_getInternal {key : GoString} {now : Time} {result : GoString × Bool}
    (h : c.getInternal key now = .ok (result, c')) :
    c'.metrics.cacheHits = c.metrics.cacheHits + if result.2 then 1 else 0 := by
  unfold Cache.getInternal at h
  split at h
  · cases h
    rfl
  split at h
  · cases h
    rfl
  · obtain ⟨r, -, h⟩ := bind_eq_ok.mp h
    cases h
    rfl

private theorem metrics_removeItem {key : GoString} {item : CacheItem}
    (h : c.removeItem key item = .ok c') : c'.metrics = c.metrics := by
  unfold Cache.removeItem at h
  obtain ⟨r, -, h⟩ := bind_eq_ok.mp h
  cases h
  rfl

private theorem cacheHits_deleteInternal {key : GoString}
    (h : c.deleteInternal key = .ok c') : c'.metrics.cacheHits = c.metrics.cacheHits := by
  unfold Cache.deleteInternal at h
  split at h
  · cases h
    rfl
  · obtain ⟨c₁, hremove, h⟩ := bind_eq_ok.mp h
    have hsame := congrArg Collector.cacheHits (metrics_removeItem hremove)
    cases h
    exact hsame

/-- A cleanup counts neither hits nor evictions. -/
private theorem metrics_cleanupLoop {now : Time} {order : List GoString} {n n' : Nat}
    (h : Cache.cleanupLoop now order n c = .ok (n', c')) :
    c'.metrics.cacheHits = c.metrics.cacheHits ∧
      c'.metrics.evictionsTotal = c.metrics.evictionsTotal := by
  induction order generalizing c n with
  | nil =>
    cases h
    exact ⟨rfl, rfl⟩
  | cons key order ih =>
    rw [Cache.cleanupLoop] at h
    split at h
    · exact ih h
    split at h
    · obtain ⟨c₁, hremove, h⟩ := bind_eq_ok.mp h
      have hmetrics := ih h
      simp only [Collector.recordExpiration, metrics_removeItem hremove] at hmetrics
      exact hmetrics
    · exact ih h

private theorem metrics_cleanupExpired {now : Time} {order : List GoString} {n : Nat}
    (h : c.cleanupExpired order now = .ok (n, c')) :
    c'.metrics.cacheHits = c.metrics.cacheHits ∧
      c'.metrics.evictionsTotal = c.metrics.evictionsTotal := by
  unfold Cache.cleanupExpired at h
  obtain ⟨⟨n', c₁⟩, hloop, h⟩ := bind_eq_ok.mp h
  have hmetrics := metrics_cleanupLoop hloop
  simp only at h
  split at h <;> cases h <;> exact hmetrics

end Counters

namespace WfCache

/-- The hit counter. -/
def hits (c : WfCache) : Nat := c.cache.metrics.cacheHits

variable (c : WfCache) (key value : GoString) (ttl : Duration) (now : Time)
  (order : List GoString)

@[simp] theorem hits_set : (c.set key value ttl now).hits = c.hits :=
  cacheHits_setInternal (c.cache_set key value ttl now)

theorem hits_get :
    (c.get key now).2.hits = c.hits + if (c.hit? key now).isSome then 1 else 0 := by
  have hcount := cacheHits_getInternal (c.cache_get key now)
  rw [get_fst] at hcount
  exact hcount

@[simp] theorem hits_delete : (c.delete key).hits = c.hits :=
  cacheHits_deleteInternal (c.cache_delete key)

@[simp] theorem hits_cleanupExpired : (c.cleanupExpired order now).hits = c.hits := by
  obtain ⟨n, hclean⟩ := c.cache_cleanupExpired order now
  exact (metrics_cleanupExpired hclean).1

@[simp] theorem evictions_cleanupExpired :
    (c.cleanupExpired order now).evictions = c.evictions := by
  obtain ⟨n, hclean⟩ := c.cache_cleanupExpired order now
  exact (metrics_cleanupExpired hclean).2

/-- A whole cleanup keeps the live entries. -/
theorem entries_cleanupExpired_of_enumerates (h : c.cache.Enumerates order) :
    (c.cleanupExpired order now).entries =
      c.entries.filter fun e => !hasExpired e.2.expiresAt now := by
  rw [entries_cleanupExpired]
  refine List.filter_congr fun e he => ?_
  have hmem : e.1 ∈ order := by
    rw [← List.mem_toFinset, h.2, Finmap.mem_keys, mem_data_iff]
    exact mem_keys_of_mem he
  simp [hmem]

theorem cache_run (c : WfCache) (ops : List Op) :
    run c.cache ops = .ok (ops.foldl step c).cache := by
  induction ops generalizing c with
  | nil => rfl
  | cons op ops ih => simp only [run, cache_step, bind, Except.bind, ih, List.foldl_cons]

theorem visitsAll_cons (c : WfCache) (op : Op) (ops : List Op) :
    visitsAll c.cache (op :: ops) = (op.visitsAll c.cache && visitsAll (c.step op).cache ops) := by
  simp only [visitsAll, cache_step]

end WfCache

/-! ## The larger cache encloses the smaller -/

/-- The second cache may hold more than the first, has its entries in their order, and
    has done no worse so far. -/
structure Encloses (c d : WfCache) : Prop where
  capacity_le : c.capacity ≤ d.capacity
  within : Within (d.capacity - c.capacity) c.entries d.entries
  hits_le : c.hits ≤ d.hits
  evictions_le : d.evictions ≤ c.evictions

namespace Encloses

variable {c d : WfCache}

theorem hit? (h : Encloses c d) {key : GoString} {now : Time} {e : SnapshotEntry}
    (hhit : c.hit? key now = some e) : d.hit? key now = some e := by
  obtain ⟨hfind, hlive⟩ := Option.filter_eq_some_iff.mp hhit
  exact Option.filter_eq_some_iff.mpr ⟨h.within.find? d.nodup_entries hfind, hlive⟩

theorem set (h : Encloses c d) (key value : GoString) (ttl : Duration) (now : Time) :
    Encloses (c.set key value ttl now) (d.set key value ttl now) where
  capacity_le := by simpa using h.capacity_le
  within := by
    have hput := h.within.put c.capacity_pos key ⟨value, Cache.expiry ttl now⟩
    have hsum : c.capacity + (d.capacity - c.capacity) = d.capacity := by
      have := h.capacity_le
      omega
    rw [hsum] at hput
    simpa only [WfCache.capacity_set, WfCache.entries_set] using hput
  hits_le := by simpa using h.hits_le
  evictions_le := by
    -- if the larger cache has no room for the key, the smaller has none
    have hroom : key ∈ keys c.entries ∨ c.entries.length < c.capacity →
        key ∈ keys d.entries ∨ d.entries.length < d.capacity := by
      intro hroom
      cases hroom with
      | inl hmem => exact .inl ((keys_sublist h.within.sublist).subset hmem)
      | inr hlt =>
        have := h.within.length_le
        have := h.capacity_le
        right
        omega
    have := h.evictions_le
    rw [WfCache.evictions_set, WfCache.evictions_set]
    split
    · omega
    · next hfull =>
      rw [if_neg fun hc => hfull (hroom hc)]
      omega

theorem get (h : Encloses c d) (key : GoString) (now : Time) :
    Encloses (c.get key now).2 (d.get key now).2 where
  capacity_le := by simpa using h.capacity_le
  within := by
    simp only [WfCache.capacity_get, WfCache.entries_get]
    cases hc : c.hit? key now with
    | some e =>
      rw [h.hit? hc]
      exact h.within.promote d.nodup_entries key
    | none =>
      cases hd : d.hit? key now with
      | none => exact h.within
      | some e =>
        -- a hit in the larger cache alone: the smaller does not have the key, for the
        -- entry would be the same one
        have hfind := (Option.filter_eq_some_iff.mp hd).1
        have hnone : find? key c.entries = none := by
          cases hkey : find? key c.entries with
          | none => rfl
          | some e' =>
            have hsame := h.within.find? d.nodup_entries hkey
            rw [hfind] at hsame
            cases hsame
            rw [WfCache.hit?, hkey] at hc
            rw [WfCache.hit?, hfind, hc] at hd
            cases hd
        have hpromote := h.within.promote d.nodup_entries key
        have hself : promote key c.entries = c.entries := by simp only [promote, hnone]
        rw [hself] at hpromote
        exact hpromote
  hits_le := by
    have := h.hits_le
    rw [WfCache.hits_get, WfCache.hits_get]
    cases hc : c.hit? key now with
    | some e =>
      rw [h.hit? hc]
      omega
    | none =>
      show c.hits + 0 ≤ _
      omega
  evictions_le := by simpa using h.evictions_le

theorem delete (h : Encloses c d) (key : GoString) : Encloses (c.delete key) (d.delete key) where
  capacity_le := by simpa using h.capacity_le
  within := by
    simp only [WfCache.capacity_delete, WfCache.entries_delete]
    exact h.within.filter _
  hits_le := by simpa using h.hits_le
  evictions_le := by simpa using h.evictions_le

theorem cleanupExpired (h : Encloses c d) {order order' : List GoString}
    (hc : c.cache.Enumerates order) (hd : d.cache.Enumerates order') (now : Time) :
    Encloses (c.cleanupExpired order now) (d.cleanupExpired order' now) where
  capacity_le := by simpa using h.capacity_le
  within := by
    rw [WfCache.entries_cleanupExpired_of_enumerates _ _ _ hc,
      WfCache.entries_cleanupExpired_of_enumerates _ _ _ hd]
    simp only [WfCache.capacity_cleanupExpired]
    exact h.within.filter _
  hits_le := by simpa using h.hits_le
  evictions_le := by simpa using h.evictions_le

/-- The same call on both caches keeps the smaller enclosed. -/
theorem step (h : Encloses c d) {op op' : Op} (hsame : SameCall op op')
    (hc : op.visitsAll c.cache = true) (hd : op'.visitsAll d.cache = true) :
    Encloses (c.step op) (d.step op') := by
  cases hsame with
  | cleanup order order' now =>
    exact h.cleanupExpired (of_decide_eq_true hc) (of_decide_eq_true hd) now
  | same =>
    cases op with
    | set key value ttl now | setInternal key value ttl now => exact h.set key value ttl now
    | get key now | getInternal key now => exact h.get key now
    | delete key | deleteInternal key => exact h.delete key
    | cleanupExpired order now =>
      exact h.cleanupExpired (of_decide_eq_true hc) (of_decide_eq_true hd) now

/-- A whole load. -/
theorem foldl (h : Encloses c d) {ops ops' : List Op} (hsame : List.Forall₂ SameCall ops ops')
    (hc : visitsAll c.cache ops = true) (hd : visitsAll d.cache ops' = true) :
    Encloses (ops.foldl WfCache.step c) (ops'.foldl WfCache.step d) := by
  induction hsame generalizing c d with
  | nil => exact h
  | cons hop hops ih =>
    rw [WfCache.visitsAll_cons, Bool.and_eq_true] at hc hd
    exact ih (h.step hop hc.1 hd.1) hc.2 hd.2

theorem new {maxSize maxSize' : Int} (hle : maxSize ≤ maxSize') :
    Encloses (WfCache.new maxSize) (WfCache.new maxSize') where
  capacity_le := by
    show (max 1 maxSize).toNat ≤ (max 1 maxSize').toNat
    omega
  within := by
    rw [WfCache.entries_new, WfCache.entries_new]
    exact within_nil _
  hits_le := Nat.le_refl _
  evictions_le := Nat.le_refl _

end Encloses

/-- A larger cache is never worse: after the same calls, each cleanup visiting the map in
    an order of its own, every key that is read in the smaller cache is read in the larger
    with the same value; the larger has counted at least as many hits, and at most as many
    evictions. -/
theorem larger_cache_never_worse (maxSize maxSize' : Int) (ops ops' : List Op)
    (hle : maxSize ≤ maxSize') (hsame : List.Forall₂ SameCall ops ops')
    (hall : visitsAll (Cache.new maxSize) ops = true)
    (hall' : visitsAll (Cache.new maxSize') ops' = true) :
    ∃ c c', run (Cache.new maxSize) ops = .ok c ∧ run (Cache.new maxSize') ops' = .ok c' ∧
      (∀ key value now c₁, c.get key now = .ok ((value, true), c₁) →
        ∃ c₂, c'.get key now = .ok ((value, true), c₂)) ∧
      c.metrics.cacheHits ≤ c'.metrics.cacheHits ∧
      c'.metrics.evictionsTotal ≤ c.metrics.evictionsTotal := by
  have hencl := (Encloses.new hle).foldl hsame hall hall'
  refine ⟨_, _, (WfCache.new maxSize).cache_run ops, (WfCache.new maxSize').cache_run ops', ?_,
    hencl.hits_le, hencl.evictions_le⟩
  intro key value now c₁ hget
  rw [WfCache.cache_get, WfCache.get_fst] at hget
  obtain ⟨hresult, -⟩ := Prod.mk.inj (Except.ok.inj hget)
  obtain ⟨hvalue, hfound⟩ := Prod.mk.inj hresult
  obtain ⟨e, hhit⟩ := Option.isSome_iff_exists.mp hfound
  rw [hhit] at hvalue
  rw [WfCache.cache_get, WfCache.get_fst, hencl.hit? hhit]
  exact ⟨_, by rw [← hvalue]; rfl⟩

/-- In a cache of one the second key drives the first out, in a cache of two it is
    read later; the cleanup removes the key whose second is over. -/
theorem larger_cache_never_worse_two :
    ∃ c c', run (Cache.new 1) [.set (lit "a") (lit "1") 0 10, .set (lit "b") (lit "2") second 11,
        .get (lit "a") 12, .cleanupExpired [lit "b"] 2000000000] = .ok c ∧
      run (Cache.new 2) [.set (lit "a") (lit "1") 0 10, .set (lit "b") (lit "2") second 11,
        .get (lit "a") 12, .cleanupExpired [lit "b", lit "a"] 2000000000] = .ok c' ∧
      c.metrics.cacheHits ≤ c'.metrics.cacheHits ∧
      c'.metrics.evictionsTotal ≤ c.metrics.evictionsTotal := by
  obtain ⟨c, c', hrun, hrun', -, hhits, hevictions⟩ := larger_cache_never_worse 1 2 _ _ (by decide)
    (.cons (.same (.set (lit "a") (lit "1") 0 10))
      (.cons (.same (.set (lit "b") (lit "2") second 11))
        (.cons (.same (.get (lit "a") 12))
          (.cons (.cleanup [lit "b"] [lit "b", lit "a"] 2000000000) .nil))))
    (by decide +kernel) (by decide +kernel)
  exact ⟨c, c', hrun, hrun', hhits, hevictions⟩

end GoCache.Spec
