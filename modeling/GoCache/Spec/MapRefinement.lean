import GoCache.ForStd.ExpiringMap
import GoCache.Spec.LeaderRuns

/-!
# The server as a map with expiry

`docs/api.md` describes `SET`, `GET`, `DEL` and `DBSIZE` in terms of a map whose
bindings expire. A server that never has to evict goes through the states of this
map, and its replies to `SET` and `GET` are those of the map. The replies to the
other two are so only in some states: `handleDelete` always says that it has deleted
a key, and `handleDBSize` counts the entries that have expired and are still held.

## Key results

- `bindings_ask`: one request does to the cache what it does to the map
- `reply_iff`: when one reply is the documented one
- `refines_map_iff`: every run
-/

namespace GoCache.Spec

open GoCache.Native Recency ExpiringMap

/-! ## The documented map -/

/-- The map of the documentation. -/
abbrev Bindings := GoString → Option (Binding GoString)

/-- A request as the documentation has it: a `SET` has no TTL, or one in seconds that
    is positive and fits a `time.Duration`. -/
def Ask.Documented : Ask → Prop
  | .set _ _ rest => rest = [] ∨ ∃ qualifier text n, rest = [qualifier, text] ∧
      isEX qualifier = true ∧ atoi text.bytes = some n ∧ 0 < n.toInt ∧
      n.toInt * 1000000000 < 2 ^ 63
  | .get _ | .del _ | .dbSize => True

/-- The moment at which `EX` seconds are over. -/
def exDeadline (now : Time) : List GoString → Option Nat
  | [_, text] => (atoi text.bytes).map fun n => now + n.toInt.toNat * 1000000000
  | _ => none

/-- The map after a request. -/
def Bindings.ask (m : Bindings) (now : Time) : Ask → Bindings
  | .set key value rest => Function.update m key (some ⟨value, exDeadline now rest⟩)
  | .del key => Function.update m key none
  | .get _ | .dbSize => m

/-- The documented reply to a request. -/
noncomputable def Bindings.reply (m : Bindings) (now : Time) : Ask → Bytes
  | .set .. => encodeSimpleString (ascii "OK")
  | .get key =>
    match lookup m now key with
    | some value => encodeBulkString value false
    | none => encodeBulkString GoString.empty true
  | .del key => encodeInteger (if (lookup m now key).isSome then 1 else 0)
  | .dbSize => encodeInteger (Int64.ofNat (size m now))

/-- The map after a sequence of requests. -/
def Bindings.askAll (m : Bindings) (asks : List (Ask × Time)) : Bindings :=
  asks.foldl (fun m a => m.ask a.2 a.1) m

/-- The documented replies to a sequence of requests. -/
noncomputable def Bindings.replies (m : Bindings) : List (Ask × Time) → List Bytes
  | [] => []
  | a :: asks => m.reply a.2 a.1 :: Bindings.replies (m.ask a.2 a.1) asks

/-! ## What the cache stands for -/

/-- The binding an entry of the cache stands for; the zero time is no deadline. -/
def entryBinding (e : SnapshotEntry) : Binding GoString :=
  ⟨e.value, if e.expiresAt = 0 then none else some e.expiresAt⟩

/-- The map the cache stands for. -/
def WfCache.bindings (c : WfCache) : Bindings := ofEntries entryBinding c.entries

theorem live_binding_iff (e : SnapshotEntry) (now : Time) :
    (entryBinding e).Live now ↔ hasExpired e.expiresAt now = false := by
  unfold Binding.Live entryBinding hasExpired Time.isZero Time.after
  by_cases h : e.expiresAt = 0
  · simp [h]
  · simp [h]

private theorem ttlArgument_ex {qualifier text : GoString} {n : Int64} (hex : isEX qualifier = true)
    (hn : atoi text.bytes = some n) : ttlArgument [qualifier, text] = some (n * second) := by
  have hparse : parseTTL [] [] (strs [qualifier, text]) = .ok (.ok (n * second)) := by
    show parseTTL [] [] [.str qualifier, .str text] = _
    rw [parseTTL_two, if_pos hex, ttlOf, hn]
  rw [ttlArgument, hparse]

theorem valid_of_documented {a : Ask} (h : a.Documented) : a.Valid := by
  cases a with
  | get key | del key | dbSize => trivial
  | set key value rest =>
    rcases h with rfl | ⟨qualifier, text, n, rfl, hex, hn, _⟩
    · exact ⟨by decide, rfl⟩
    · exact ⟨by simp, by rw [ttlArgument_ex hex hn]; rfl⟩

/-- The deadline of a documented `SET` is the documented one. -/
private theorem binding_expiry {key value : GoString} {rest : List GoString}
    (h : (Ask.set key value rest).Documented) (now : Nat) :
    entryBinding ⟨value, Cache.expiry ((ttlArgument rest).getD 0) now⟩ =
      ⟨value, exDeadline now rest⟩ := by
  rcases h with rfl | ⟨qualifier, text, n, rfl, hex, hn, hpos, hfits⟩
  · rfl
  · have hdeadline := (expiry_seconds hpos hfits now).1
    have hne : ¬ now + n.toInt.toNat * 1000000000 = 0 := by omega
    rw [ttlArgument_ex hex hn, Option.getD_some, ← hdeadline]
    simp only [entryBinding, if_neg hne, exDeadline, hn, Option.map_some]

section Refines

variable (c : WfCache) (now : Time) (a : Ask)

/-- A request that evicts nothing does to the cache what it does to the map. -/
theorem bindings_ask (hdoc : a.Documented) (hev : (c.ask now a).evictions = c.evictions) :
    (c.ask now a).bindings = Bindings.ask c.bindings now a := by
  funext k
  show (((c.ask now a).item?) k).map entryBinding = Bindings.ask c.bindings now a k
  cases a with
  | set key value rest =>
    have hset : (c.ask now (.set key value rest)).item? = _ := c.item?_set key value _ now hev
    rw [hset, Bindings.ask]
    by_cases hk : k = key
    · rw [hk, Function.update_self, Function.update_self, Option.map_some, binding_expiry hdoc]
    · rw [Function.update_of_ne hk, Function.update_of_ne hk]
      rfl
  | del key =>
    have hdelete : (c.ask now (.del key)).item? = _ := c.item?_delete key
    rw [hdelete, Bindings.ask]
    by_cases hk : k = key
    · rw [hk, Function.update_self, Function.update_self, Option.map_none]
    · rw [Function.update_of_ne hk, Function.update_of_ne hk]
      rfl
  | get key => exact congrArg _ (congrFun (c.item?_get key now) k)
  | dbSize => rfl

/-- The cases in which the reply is the documented one: a `DEL` finds a key that has
    not expired, and a `DBSIZE` no key that has. -/
def Truthful (c : Cache) (now : Time) : Ask → Prop
  | .del key => ∃ e ∈ find? key c.entries, hasExpired e.expiresAt now = false
  | .dbSize => ∀ e ∈ c.entries, hasExpired e.2.expiresAt now = false
  | .set .. | .get _ => True

instance (c : Cache) (now : Time) : (a : Ask) → Decidable (Truthful c now a)
  | .del key =>
    match h : find? key c.entries with
    | none => .isFalse fun ⟨_, he, _⟩ => absurd (h.symm.trans he) (by simp)
    | some e => decidable_of_iff (hasExpired e.expiresAt now = false) (by simp [Truthful, h])
  | .dbSize =>
    inferInstanceAs (Decidable (∀ e ∈ c.entries, hasExpired e.2.expiresAt now = false))
  | .set .. | .get _ => .isTrue trivial

/-- What the map has for a key is what a read of the cache hits. -/
theorem lookup_bindings (key : GoString) :
    lookup c.bindings now key = (c.hit? key now).map SnapshotEntry.value := by
  unfold lookup WfCache.bindings ofEntries WfCache.hit?
  cases find? key c.entries with
  | none => rfl
  | some e =>
    simp only [Option.map_some, Option.filter_some, live_binding_iff]
    cases hasExpired e.expiresAt now <;> rfl

private theorem encodeInteger_inj {i j : Int64} : encodeInteger i = encodeInteger j ↔ i = j := by
  constructor
  · intro h
    have htext : itoa i = itoa j := List.append_cancel_right (List.cons.inj h).2
    have hi := atoi_itoa i
    rw [htext, atoi_itoa] at hi
    exact (Option.some.inj hi).symm
  · exact congrArg _

/-- A reply is the documented one exactly in the cases above. -/
theorem reply_iff (hlen : c.entries.length < 2 ^ 63) :
    a.reply c now = Bindings.reply c.bindings now a ↔ Truthful c.cache now a := by
  cases a with
  | set key value rest => exact ⟨fun _ => trivial, fun _ => rfl⟩
  | get key =>
    refine ⟨fun _ => trivial, fun _ => ?_⟩
    rw [Ask.reply, Bindings.reply, c.get_fst, lookup_bindings, replyGet]
    cases c.hit? key now <;> rfl
  | del key =>
    have hlookup : (lookup c.bindings now key).isSome = true ↔ Truthful c.cache now (.del key) := by
      rw [lookup_bindings, Option.isSome_map, WfCache.hit?, Truthful]
      show _ ↔ ∃ e ∈ find? key c.entries, _
      cases find? key c.entries with
      | none => simp
      | some e => simp [Option.filter_some]
    rw [← hlookup]
    show encodeInteger 1 = encodeInteger _ ↔ _
    rw [encodeInteger_inj]
    split
    · next h => simp [h]
    · next h => exact ⟨fun h => absurd h (by decide), fun h' => absurd h' h⟩
  | dbSize =>
    have hle : size c.bindings now ≤ c.entries.length :=
      size_le_length entryBinding c.nodup_entries
    have hnat : Int64.ofNat c.cache.len = Int64.ofNat (size c.bindings now) ↔
        size c.bindings now = c.entries.length := by
      rw [c.len_eq]
      constructor
      · intro h
        have hint := congrArg Int64.toInt h
        rw [Int64.toInt_ofNat_of_lt hlen, Int64.toInt_ofNat_of_lt (lt_of_le_of_lt hle hlen)] at hint
        omega
      · intro h
        rw [h]
    show encodeInteger _ = encodeInteger _ ↔ _
    rw [encodeInteger_inj, hnat]
    simp only [WfCache.bindings, size_eq_length_iff entryBinding c.nodup_entries,
      live_binding_iff]
    rfl

end Refines

/-! ## Runs -/

section Runs

variable {maxSize : Int} {asks p q : List (Ask × Time)} {a : Ask × Time}

theorem length_replies (c : WfCache) (asks : List (Ask × Time)) :
    (replies c asks).length = asks.length := by
  induction asks generalizing c with
  | nil => rfl
  | cons a asks ih => exact congrArg (· + 1) (ih _)

theorem replies_append (c : WfCache) (p q : List (Ask × Time)) :
    replies c (p ++ q) = replies c p ++ replies (c.askAll p) q := by
  induction p generalizing c with
  | nil => rfl
  | cons a p ih => exact congrArg (a.1.reply c a.2 :: ·) (ih _)

theorem Bindings.length_replies (m : Bindings) (asks : List (Ask × Time)) :
    (Bindings.replies m asks).length = asks.length := by
  induction asks generalizing m with
  | nil => rfl
  | cons a asks ih => exact congrArg (· + 1) (ih _)

theorem Bindings.replies_append (m : Bindings) (p q : List (Ask × Time)) :
    Bindings.replies m (p ++ q) = Bindings.replies m p ++ Bindings.replies (m.askAll p) q := by
  induction p generalizing m with
  | nil => rfl
  | cons a p ih => exact congrArg (m.reply a.2 a.1 :: ·) (ih _)

/-- What the cache holds has been set. -/
theorem mem_setKeys_of_askAll (maxSize : Int) (asks : List (Ask × Time)) {k : GoString}
    (hk : k ∈ keys ((WfCache.new maxSize).askAll asks).entries) : k ∈ setKeys asks := by
  induction asks using List.reverseRecOn with
  | nil =>
    rw [show (WfCache.new maxSize).askAll [] = .new maxSize from rfl, WfCache.entries_new] at hk
    cases hk
  | append_singleton asks a ih =>
    obtain ⟨a, now⟩ := a
    rw [WfCache.askAll_concat] at hk
    rw [setKeys_concat, List.mem_append]
    generalize (WfCache.new maxSize).askAll asks = c at ih hk
    cases a with
    | set key value rest =>
      have hentries : (c.ask now (.set key value rest)).entries = _ := c.entries_set key value _ now
      rw [hentries, put, keys_cons, List.mem_cons] at hk
      rcases hk with rfl | hk
      · exact .inl List.mem_cons_self
      · have hkept := (List.take_sublist (c.capacity - 1) _).trans (erase_sublist key c.entries)
        exact .inr (ih ((keys_sublist hkept).subset hk))
    | del key =>
      have hentries : (c.ask now (.del key)).entries = _ := c.entries_delete key
      rw [hentries] at hk
      exact .inr (ih ((keys_sublist (erase_sublist _ _)).subset hk))
    | get key =>
      refine .inr (ih ?_)
      have hsame : find? k (c.ask now (.get key)).entries = find? k c.entries :=
        congrFun (c.item?_get key now) k
      by_contra hnot
      rw [find?_eq_none_iff.mpr hnot] at hsame
      exact find?_eq_none_iff.mp hsame hk
    | dbSize => exact .inr (ih hk)

theorem setKeys_subset (h : p <+: asks) : setKeys p ⊆ setKeys asks := by
  intro k hk
  rw [setKeys, List.mem_reverse] at hk ⊢
  exact (h.sublist.filterMap _).subset hk

/-- With room for all keys that are set, nothing is evicted. -/
theorem evictions_askAll_concat
    (hkeys : (setKeys asks).toFinset.card ≤ (WfCache.new maxSize).capacity)
    (hpre : p ++ [a] <+: asks) :
    (((WfCache.new maxSize).askAll p).ask a.2 a.1).evictions =
      ((WfCache.new maxSize).askAll p).evictions := by
  obtain ⟨a, now⟩ := a
  have hmem (k : GoString) := mem_setKeys_of_askAll maxSize p (k := k)
  have hcap := (WfCache.new maxSize).capacity_askAll p
  generalize (WfCache.new maxSize).askAll p = c at hmem hcap
  cases a with
  | get key => exact c.evictions_get key now
  | del key => exact c.evictions_delete key
  | dbSize => rfl
  | set key value rest =>
    have hset : (c.ask now (.set key value rest)).evictions = _ := c.evictions_set key value _ now
    rw [hset, if_pos, Nat.add_zero]
    by_contra hfull
    rw [not_or, Nat.not_lt] at hfull
    -- the keys held and the new one are all among those that are set
    have hsub : insert key (keys c.entries).toFinset ⊆ (setKeys asks).toFinset := by
      intro k hk
      apply List.mem_toFinset.mpr
      apply setKeys_subset hpre
      rw [setKeys_concat]
      rcases Finset.mem_insert.mp hk with rfl | hk
      · exact List.mem_cons_self
      · exact List.mem_cons_of_mem _ (hmem k (List.mem_toFinset.mp hk))
    have hcard := Finset.card_le_card hsub
    rw [Finset.card_insert_of_notMem (by rw [List.mem_toFinset]; exact hfull.1),
      List.toFinset_card_of_nodup c.nodup_entries, length_keys] at hcard
    omega

/-- The cache goes through the states of the map. -/
theorem bindings_askAll (hkeys : (setKeys asks).toFinset.card ≤ (WfCache.new maxSize).capacity)
    (hdoc : ∀ a ∈ asks, a.1.Documented) (hp : p <+: asks) :
    ((WfCache.new maxSize).askAll p).bindings = Bindings.askAll (fun _ => none) p := by
  induction p using List.reverseRecOn with
  | nil => rfl
  | append_singleton p a ih =>
    have hprev := ih ((List.prefix_append p [a]).trans hp)
    rw [WfCache.askAll_concat, bindings_ask _ _ _ (hdoc a (hp.subset (by simp)))
      (evictions_askAll_concat hkeys hp), hprev, Bindings.askAll, Bindings.askAll,
      List.foldl_append]
    rfl

/-- All replies are the documented ones if each of them is. -/
theorem replies_iff (hkeys : (setKeys asks).toFinset.card ≤ (WfCache.new maxSize).capacity)
    (hcap : (WfCache.new maxSize).capacity < 2 ^ 63) (hdoc : ∀ a ∈ asks, a.1.Documented) :
    replies (.new maxSize) asks = Bindings.replies (fun _ => none) asks ↔
      ∀ p a, p ++ [a] <+: asks →
        Truthful ((WfCache.new maxSize).askAll p).cache a.2 a.1 := by
  have hpre : replies (.new maxSize) asks = Bindings.replies (fun _ => none) asks ↔
      ∀ p, p <+: asks → replies (.new maxSize) p = Bindings.replies (fun _ => none) p := by
    constructor
    · rintro h p ⟨q, rfl⟩
      rw [replies_append, Bindings.replies_append] at h
      exact (List.append_inj h (by rw [length_replies, Bindings.length_replies])).1
    · exact fun h => h asks (List.prefix_refl _)
  rw [hpre]
  refine forall_prefix_iff rfl fun p a hpre hp => ?_
  have hlen : ((WfCache.new maxSize).askAll p).entries.length < 2 ^ 63 := by
    have := ((WfCache.new maxSize).askAll p).length_entries_le
    rw [WfCache.capacity_askAll] at this
    omega
  rw [← reply_iff _ _ _ hlen, bindings_askAll hkeys hdoc ((List.prefix_append p [a]).trans hpre),
    replies_append, Bindings.replies_append, hp, List.append_cancel_left_eq]
  show [_] = [_] ↔ _
  rw [List.singleton_inj]

end Runs

/-- A standalone leader that has room for all keys that are set replies as
    `docs/api.md` says exactly if every `DEL` is of a key that has not expired and every
    `DBSIZE` comes when the cache holds no key that has. -/
theorem refines_map_iff (other : OtherHandlers) (maxSize : Int) (hmax : maxSize < 2 ^ 63)
    (s : Server) (hs : Standalone s)
    (hcache : s.cache = Cache.new maxSize) (asks : List (Ask × Time))
    (hdoc : ∀ a ∈ asks, a.1.Documented)
    (hkeys : ((setKeys asks).toFinset.card : Int) ≤ maxSize) :
    (∃ s', handleConnection other s .new (sent asks) =
      .ok (Bindings.replies (fun _ => none) asks, s', .new)) ↔
    ∀ p a, p ++ [a] <+: asks → ∃ out s',
      handleConnection other s .new (sent p) = .ok (out, s', .new) ∧
      Truthful s'.cache a.2 a.1 := by
  have hanswers : Answers s asks :=
    ⟨hs.role, fun a ha => valid_of_documented (hdoc a ha), fun a _ => movedTo_eq_none hs _ _⟩
  have hrun (p : List (Ask × Time)) (hp : p <+: asks) :=
    handleConnection_asks other immediate_new (c := .new maxSize) hcache
      (hanswers.of_subset hp.subset)
  have hcapacity : (WfCache.new maxSize).capacity = (max 1 maxSize).toNat := rfl
  rw [hrun asks (List.prefix_refl _)]
  have hroom : (setKeys asks).toFinset.card ≤ (WfCache.new maxSize).capacity := by omega
  have hreplies := replies_iff hroom (by omega) hdoc
  have htruthful : ∀ p a, p ++ [a] <+: asks → ((∃ out s',
      handleConnection other s .new (sent p) = .ok (out, s', .new) ∧ Truthful s'.cache a.2 a.1) ↔
      Truthful ((WfCache.new maxSize).askAll p).cache a.2 a.1) := by
    intro p a hpre
    have hp := hrun p ((List.prefix_append p [a]).trans hpre)
    rw [exists_ran_iff hp fun s' => Truthful s'.cache a.2 a.1, cache_logAll]
  rw [forall₃_congr htruthful, ← hreplies]
  constructor
  · rintro ⟨s', h⟩
    exact (Prod.mk.inj (Except.ok.inj h)).1
  · intro h
    exact ⟨_, by rw [h]⟩

/-- A client sets a key for five seconds, reads it, asks for the size and deletes the
    key, a second after each other. -/
def usesKey : List (Ask × Time) :=
  [(.set (lit "k") (lit "v") [lit "ex", lit "5"], 1000000000), (.get (lit "k"), 2000000000),
    (.dbSize, 3000000000), (.del (lit "k"), 4000000000)]

/-- All four replies are the documented ones. -/
theorem refines_map_iff_in_time :
    ∃ s', handleConnection noOther leaderOfTwo .new (sent usesKey) =
      .ok (Bindings.replies (fun _ => none) usesKey, s', .new) := by
  have hdoc : ∀ a ∈ usesKey, a.1.Documented := by
    simp only [usesKey, List.mem_cons, List.not_mem_nil, or_false]
    rintro a (rfl | rfl | rfl | rfl)
    · exact .inr ⟨lit "ex", lit "5", 5, rfl, by decide, by decide, by decide, by decide⟩
    · trivial
    · trivial
    · trivial
  have hcheck : ∀ n < 4, ∀ a ∈ usesKey[n]?,
      ((handleConnection noOther leaderOfTwo .new (sent (usesKey.take n))).map fun r =>
        decide (Truthful r.2.1.cache a.2 a.1)) = .ok true := by
    decide +kernel
  have hanswers : Answers leaderOfTwo usesKey := ⟨rfl, fun a ha => valid_of_documented (hdoc a ha),
    fun a _ => movedTo_eq_none ⟨rfl, rfl⟩ _ _⟩
  exact (refines_map_iff noOther 2 (by decide) leaderOfTwo ⟨rfl, rfl⟩ rfl usesKey hdoc
    (by decide)).mpr (exists_ran_of_check (c := .new 2) rfl hanswers
      (fun _ s a => Truthful s.cache a.2 a.1) hcheck)

/-- A binding past its deadline is not counted. -/
private theorem size_expired (key value : GoString) {d now : Nat} (h : d < now) :
    size (Function.update (fun _ => none) key (some ⟨value, some d⟩)) now = 0 := by
  have hempty : {k | (lookup (Function.update (fun _ => none) key
      (some (⟨value, some d⟩ : Binding GoString))) now k).isSome} = ∅ := by
    ext k
    by_cases hk : k = key
    · simp [lookup, hk, Binding.Live, h]
    · simp [lookup, hk]
  rw [size, hempty, Set.ncard_empty]

/-- A client sets a key for a second, and asks for the size two seconds later. -/
def sizesLate : List (Ask × Time) :=
  [(.set (lit "k") (lit "v") [lit "EX", lit "1"], 1), (.dbSize, 3000000000)]

/-- `DEL` of a key that was never set is answered `:1`, and `DBSIZE` counts a key whose
    second is over. -/
theorem replies_not_documented :
    (∃ s', handleConnection noOther leaderOfTwo .new (sent [(.del (lit "k"), 1)]) =
        .ok ([encodeInteger 1], s', .new) ∧
      Bindings.replies (fun _ => none) [(.del (lit "k"), 1)] = [encodeInteger 0]) ∧
    ∃ s', handleConnection noOther leaderOfTwo .new (sent sizesLate) =
        .ok ([replyOK, encodeInteger 1], s', .new) ∧
      Bindings.replies (fun _ => none) sizesLate = [replyOK, encodeInteger 0] := by
  constructor
  · exact ⟨_, rfl, rfl⟩
  · have hout : (handleConnection noOther leaderOfTwo .new (sent sizesLate)).map (·.1) =
        .ok [replyOK, encodeInteger 1] := by
      decide +kernel
    have hanswers : Answers leaderOfTwo sizesLate := by
      refine ⟨rfl, fun a ha => ?_, fun a _ => movedTo_eq_none ⟨rfl, rfl⟩ _ _⟩
      simp only [sizesLate, List.mem_cons, List.not_mem_nil, or_false] at ha
      rcases ha with rfl | rfl
      · exact ⟨by decide, by decide⟩
      · trivial
    obtain ⟨out, s', hrun⟩ := exists_ran noOther (c := .new 2) rfl hanswers
    rw [hrun] at hout
    refine ⟨s', hrun.trans ?_, ?_⟩
    · rw [show out = [replyOK, encodeInteger 1] from Except.ok.inj hout]
    · have hdeadline : exDeadline 1 [lit "EX", lit "1"] = some 1000000001 := by decide
      show [replyOK, encodeInteger (Int64.ofNat (size (Function.update (fun _ => none) (lit "k")
        (some ⟨lit "v", exDeadline 1 [lit "EX", lit "1"]⟩)) 3000000000))] = _
      rw [hdeadline, size_expired _ _ (by decide)]
      rfl

end GoCache.Spec
