import GoCache.Spec.LeaderRuns

/-!
# Recovery of a cache that evicts

The replay of an AOF evicts by itself. A `GET` that hits makes its key the most
recently used one but is not logged, so the replay evicts the key that was *set*
longest ago, which need not be the key that the leader evicted. The recovered cache
holds what the leader held exactly as long as the two agree.

## Key results

- `sorted_replayed`: a replayed cache is in the order of the `SET` requests
- `agree_ask_iff`: one request
- `eviction_recovered_iff`: every run
-/

namespace GoCache.Spec

open GoCache.Native Recency

/-! ## The values, in order of use -/

namespace WfCache

variable (c : WfCache) (key value : GoString) (ttl : Duration) (now : Time)

/-- The keys and values, most recently used first. -/
def values : List (GoString × GoString) := mapPayload SnapshotEntry.value c.entries

theorem contents_eq_values (k : GoString) : c.contents k = find? k c.values := by
  rw [contents_eq, values, find?_mapPayload]

theorem keys_values : keys c.values = keys c.entries := keys_mapPayload _ _

theorem oldest?_values : oldest? c.values = oldest? c.entries :=
  congrArg List.getLast? c.keys_values

theorem nodup_values : (keys c.values).Nodup := by
  rw [keys_values]
  exact c.nodup_entries

theorem length_values : c.values.length = c.entries.length := length_mapPayload _ _

theorem values_set : (c.set key value ttl now).values = put c.capacity key value c.values := by
  rw [values, entries_set, ← put_mapPayload]
  rfl

theorem values_delete : (c.delete key).values = erase key c.values := by
  rw [values, entries_delete, ← erase_mapPayload]
  rfl

/-- A read changes the order only. -/
theorem find?_values_get (k : GoString) : find? k (c.get key now).2.values = find? k c.values := by
  rw [values, values, find?_mapPayload, find?_mapPayload]
  exact congrArg _ (congrFun (c.item?_get key now) k)

end WfCache

/-! ## The replayed cache -/

section Replay

variable (clock : Nat → Time) (maxSize : Int)

/-- The cache recovered from the AOF of the requests. -/
def replayed (asks : List (Ask × Time)) : WfCache :=
  (WfCache.mutateAll clock 0 (.new maxSize) ((recordsOf asks).map recordMutation)).2

theorem recoverAOF_recordsOf (asks : List (Ask × Time)) :
    recoverAOF clock (Cache.new maxSize) none (some (encodeLog (recordsOf asks))) =
      .ok (replayed clock maxSize asks).cache := by
  have h := recoverAOF_eq clock (.new maxSize) none (some (encodeLog (recordsOf asks)))
  rw [recoveryMutations_encodeLog] at h
  exact h

theorem capacity_replayed (asks : List (Ask × Time)) :
    (replayed clock maxSize asks).capacity = (WfCache.new maxSize).capacity :=
  WfCache.capacity_mutateAll ..

theorem values_replayed_concat (asks : List (Ask × Time)) (a : Ask) (now : Time) :
    (replayed clock maxSize (asks ++ [(a, now)])).values =
      match a with
      | .set key value _ =>
        put (WfCache.new maxSize).capacity key value (replayed clock maxSize asks).values
      | .del key => erase key (replayed clock maxSize asks).values
      | .get _ | .dbSize => (replayed clock maxSize asks).values := by
  have hsplit : recordsOf (asks ++ [(a, now)]) = recordsOf asks ++ a.records := by
    rw [recordsOf, List.flatMap_append, List.flatMap_singleton]
    rfl
  rw [replayed, hsplit, List.map_append, WfCache.mutateAll_append]
  cases a with
  | set key value rest =>
    rw [← capacity_replayed clock maxSize asks]
    exact WfCache.values_set ..
  | del key => exact WfCache.values_delete ..
  | get key => rfl
  | dbSize => rfl

/-- A replayed cache is in the order in which its keys were set. -/
theorem sorted_replayed (asks : List (Ask × Time)) :
    Sorted (setKeys asks) (replayed clock maxSize asks).values := by
  induction asks using List.reverseRecOn with
  | nil => exact sorted_nil _
  | append_singleton asks a ih =>
    obtain ⟨a, now⟩ := a
    rw [values_replayed_concat, setKeys_concat]
    cases a with
    | set key value rest => exact ih.cons_sublist (List.take_sublist ..) value
    | del key => exact ih.sublist (erase_sublist _ _)
    | get key | dbSize => exact ih

end Replay

/-! ## One request -/

/-- A `SET` that evicts, evicts the key that was set longest ago. -/
def DropsFirstSet (sets : List GoString) (c : Cache) : Ask → Prop
  | .set key _ _ => key ∉ c.data → c.len = capacity c →
      ∀ victim ∈ oldest? c.entries, ∀ k ∈ keys c.entries, k ≠ victim →
        sets.idxOf k < sets.idxOf victim
  | .get _ | .del _ | .dbSize => True

instance (sets : List GoString) (c : Cache) (a : Ask) : Decidable (DropsFirstSet sets c a) := by
  unfold DropsFirstSet
  split <;> infer_instance

section Agree

variable {clock : Nat → Time} {maxSize : Int} {asks : List (Ask × Time)}

/-- The recovered cache holds the keys and values of the leader's. -/
def Agree (clock : Nat → Time) (maxSize : Int) (asks : List (Ask × Time)) : Prop :=
  (replayed clock maxSize asks).contents = ((WfCache.new maxSize).askAll asks).contents

private theorem agree_iff : Agree clock maxSize asks ↔ ∀ k,
    find? k ((WfCache.new maxSize).askAll asks).values =
      find? k (replayed clock maxSize asks).values := by
  unfold Agree
  simp only [funext_iff, WfCache.contents_eq_values, eq_comm]

/-- A request keeps the two alike unless it makes them evict different keys. -/
theorem agree_ask_iff (h : Agree clock maxSize asks) (a : Ask) (now : Time) :
    Agree clock maxSize (asks ++ [(a, now)]) ↔
      DropsFirstSet (setKeys asks) ((WfCache.new maxSize).askAll asks).cache a := by
  have hsame := agree_iff.mp h
  rw [agree_iff, WfCache.askAll_concat]
  simp only [values_replayed_concat]
  generalize hc : (WfCache.new maxSize).askAll asks = c at *
  have hcap : c.capacity = (WfCache.new maxSize).capacity := by
    rw [← hc, WfCache.capacity_askAll]
  cases a with
  | set key value rest =>
    have hput : (c.ask now (.set key value rest)).values =
        put (WfCache.new maxSize).capacity key value c.values := by
      rw [← hcap]
      exact c.values_set ..
    have hiff := (sorted_replayed clock maxSize asks).put_agree_iff (WfCache.capacity_pos _)
      c.nodup_values (WfCache.nodup_values _)
      (by rw [c.length_values, ← hcap]; exact c.length_entries_le) hsame key value
    rw [c.keys_values, c.length_values, ← hcap] at hiff
    simp only [hput, ← hcap, hiff, DropsFirstSet, c.mem_data_iff, c.len_eq, c.oldest?_values]
    rfl
  | del key =>
    refine ⟨fun _ => trivial, fun _ k => ?_⟩
    have hdelete : (c.ask now (.del key)).values = erase key c.values := c.values_delete key
    rw [hdelete]
    by_cases hk : k = key
    · rw [hk, find?_erase_self, find?_erase_self]
    · rw [find?_erase_of_ne hk, find?_erase_of_ne hk, hsame]
  | get key => exact ⟨fun _ => trivial, fun _ k => (c.find?_values_get key now k).trans (hsame k)⟩
  | dbSize => exact ⟨fun _ => trivial, fun _ => hsame⟩

end Agree

/-! ## Runs -/

/-- Recovery from the AOF of the server brings back what it holds. -/
def Restores (maxSize : Int) (s : Server) : Prop :=
  ∃ file, s.aofFile = some file ∧ ∀ clock, ∃ c,
    recoverAOF clock (Cache.new maxSize) none (some file) = .ok c ∧
    c.contents = s.cache.contents

/-- A leader starts with an empty cache and AOF and answers requests, and no append starts
    a rewrite. What it holds can be recovered after each of them exactly if each `SET` that
    evicts, evicts the key that was set longest ago. -/
theorem eviction_recovered_iff (other : OtherHandlers) (maxSize : Int) (s : Server)
    (hcache : s.cache = Cache.new maxSize) (haof : s.aof = [])
    (asks : List (Ask × Time)) (h : Answers s asks)
    (hfile : ∀ out s', handleConnection other s .new (sent asks) = .ok (out, s', .new) →
      s'.aofFile.isSome) :
    (∀ p, p <+: asks → ∃ out s', handleConnection other s .new (sent p) = .ok (out, s', .new) ∧
      Restores maxSize s') ↔
    ∀ p a, p ++ [a] <+: asks → ∃ out s',
      handleConnection other s .new (sent p) = .ok (out, s', .new) ∧
      DropsFirstSet (setKeys p) s'.cache a.1 := by
  have hrun : ∀ p, p <+: asks → ∃ out s',
      handleConnection other s .new (sent p) = .ok (out, s', .new) ∧
      s'.cache = ((WfCache.new maxSize).askAll p).cache ∧
      s'.aofFile = some (encodeLog (recordsOf p)) := by
    have hall := hfile _ _ (handleConnection_asks other immediate_new
      (c := .new maxSize) hcache h)
    intro p hp
    have hanswers : Answers s p := h.of_subset hp.subset
    have hrun := handleConnection_asks other immediate_new
      (c := .new maxSize) hcache hanswers
    refine ⟨_, _, hrun, cache_logAll .., ?_⟩
    obtain ⟨rest, rfl⟩ := hp
    rw [recordsOf, List.flatMap_append] at hall
    rw [recordsOf, aofFile_logAll _ _ hall, haof, List.nil_append]
  have hrestores : ∀ p, p <+: asks →
      ((∃ out s', handleConnection other s .new (sent p) = .ok (out, s', .new) ∧
        Restores maxSize s') ↔ ∀ clock, Agree clock maxSize p) := by
    intro p hp
    obtain ⟨out, s', hs', hc, ha⟩ := hrun p hp
    rw [exists_ran_iff hs', Restores, hc, ha]
    simp only [Option.some.injEq, exists_eq_left', recoverAOF_recordsOf, Except.ok.injEq]
    rfl
  have hdrops : ∀ p a, p ++ [a] <+: asks → ((∃ out s',
      handleConnection other s .new (sent p) = .ok (out, s', .new) ∧
        DropsFirstSet (setKeys p) s'.cache a.1) ↔
      DropsFirstSet (setKeys p) ((WfCache.new maxSize).askAll p).cache a.1) := by
    intro p a hp
    obtain ⟨out, s', hs', hc, _⟩ := hrun p ((List.prefix_append p [a]).trans hp)
    rw [← hc]
    exact exists_ran_iff hs' fun s' => DropsFirstSet (setKeys p) s'.cache a.1
  rw [forall₂_congr hrestores, forall₃_congr hdrops]
  refine forall_prefix_iff (P := fun p => ∀ clock, Agree clock maxSize p) (fun _ => rfl) ?_
  intro p a _ hp
  constructor
  · exact fun hnext => (agree_ask_iff (hp fun _ => 0) a.1 a.2).mp (hnext fun _ => 0)
  · exact fun hdrop clock => (agree_ask_iff (hp clock) a.1 a.2).mpr hdrop

/-- A value so long that the AOF does not grow to more than twice the first record. -/
def longValue : GoString :=
  lit "the records of the other two keys do not take up as many bytes as this value does"

/-- A client sets three keys, and reads the given one before it sets the third. -/
def readsBetween (key : GoString) : List (Ask × Time) :=
  [(.set (lit "a") longValue [], 1), (.set (lit "b") (lit "2") [], 2), (.get key, 3),
    (.set (lit "c") (lit "3") [], 4)]

private theorem answers_readsBetween (key : GoString) :
    Answers leaderOfTwo (readsBetween key) := by
  refine ⟨rfl, fun a ha => ?_, fun a _ => movedTo_eq_none ⟨rfl, rfl⟩ _ _⟩
  simp only [readsBetween, List.mem_cons, List.not_mem_nil, or_false] at ha
  rcases ha with rfl | rfl | rfl | rfl
  · exact ⟨by decide, by decide⟩
  · exact ⟨by decide, by decide⟩
  · trivial
  · exact ⟨by decide, by decide⟩

private theorem aofFile_readsBetween (key : GoString)
    (h : (handleConnection noOther leaderOfTwo .new (sent (readsBetween key))).map
      (fun r => r.2.1.aofFile.isSome) = .ok true) (out : List Bytes) (s' : Server)
    (hrun : handleConnection noOther leaderOfTwo .new (sent (readsBetween key)) =
      .ok (out, s', .new)) : s'.aofFile.isSome := by
  rw [hrun] at h
  exact Except.ok.inj h

/-- Reading the key set last does not change which key is evicted. -/
theorem eviction_recovered_iff_last_read :
    ∃ out s', handleConnection noOther leaderOfTwo .new (sent (readsBetween (lit "b"))) =
      .ok (out, s', .new) ∧ Restores 2 s' := by
  have hcheck : ∀ n < 4, ∀ a ∈ (readsBetween (lit "b"))[n]?,
      ((handleConnection noOther leaderOfTwo .new (sent ((readsBetween (lit "b")).take n))).map
        fun r => decide (DropsFirstSet (setKeys ((readsBetween (lit "b")).take n)) r.2.1.cache
          a.1)) = .ok true := by
    decide +kernel
  have hanswers := answers_readsBetween (lit "b")
  exact (eviction_recovered_iff noOther 2 leaderOfTwo rfl rfl _ hanswers
      (aofFile_readsBetween (lit "b") (by decide +kernel))).mpr
    (exists_ran_of_check (c := .new 2) rfl hanswers
      (fun p s a => DropsFirstSet (setKeys p) s.cache a.1) hcheck) _ (List.prefix_refl _)

/-- Reading the key set first does: the leader evicts `b`, and the replay `a`. -/
theorem eviction_not_recovered :
    ∃ out s' file c, handleConnection noOther leaderOfTwo .new (sent (readsBetween (lit "a"))) =
        .ok (out, s', .new) ∧ s'.aofFile = some file ∧
      recoverAOF (fun _ => 5) (Cache.new 2) none (some file) = .ok c ∧
      (s'.cache.contents (lit "a"), s'.cache.contents (lit "b")) = (some longValue, none) ∧
      (c.contents (lit "a"), c.contents (lit "b")) = (none, some (lit "2")) := by
  have hcheck : (handleConnection noOther leaderOfTwo .new (sent (readsBetween (lit "a"))) >>=
      fun r => (recoverAOF (fun _ => 5) (Cache.new 2) none r.2.1.aofFile).map fun c =>
        [(r.2.1.cache.contents (lit "a"), r.2.1.cache.contents (lit "b")),
          (c.contents (lit "a"), c.contents (lit "b"))]) =
      .ok [(some longValue, none), (none, some (lit "2"))] := by
    decide +kernel
  obtain ⟨out, s', hrun⟩ := exists_ran noOther (c := .new 2) rfl (answers_readsBetween (lit "a"))
  obtain ⟨file, hfile⟩ := Option.isSome_iff_exists.mp
    (aofFile_readsBetween (lit "a") (by decide +kernel) out s' hrun)
  rw [hrun] at hcheck
  obtain ⟨c, hc, hcheck⟩ := map_eq_ok.mp hcheck
  obtain ⟨hleader, hrecovered⟩ := List.cons.inj hcheck
  exact ⟨out, s', file, c, hrun, hfile, hfile ▸ hc, hleader, (List.cons.inj hrecovered).1⟩

end GoCache.Spec
