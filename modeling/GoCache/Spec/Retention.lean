import GoCache.Spec.CacheRuns
import GoCache.Spec.WfCache

/-!
# What an LRU cache retains

A history is a run of the cache together with the keys it touched, most recent
first: every `Set` touches its key, a `Get` touches its key when it hits. The
list order is the order of last touch throughout a history (`Sorted`), so an
entry leaves only by deletion, by expiry, or after as many distinct other keys
were touched as the cache may hold.

## Key results

- `history_sorted`: list order is the order of last touch in every history
- `history_kept`: an entry is held until enough other keys have been touched
- `lru_retention`: what a `Get` returns after a whole history, and which key
  an evicting `Set` picks
-/

namespace GoCache.Spec

open GoCache.Native Recency

/-- The key a call touches. -/
def touched (c : Cache) : Op → List GoString
  | .set key _ _ _ | .setInternal key _ _ _ => [key]
  | .get key now | .getInternal key now =>
    match c.get key now with
    | .ok ((_, true), _) => [key]
    | _ => []
  | .delete _ | .deleteInternal _ | .cleanupExpired _ _ => []

/-- A run that keeps the touched keys, most recent first. -/
def history (c : Cache) (recent : List GoString) : List Op → Except Panic (Cache × List GoString)
  | [] => .ok (c, recent)
  | op :: ops => do
    let c' ← step c op
    history c' (touched c op ++ recent) ops

/-- The call sets the key to the value, with the deadline of the TTL and time. -/
def Op.Sets (key value : GoString) (ttl : Duration) (now : Time) (op : Op) : Prop :=
  op = .set key value ttl now ∨ op = .setInternal key value ttl now

/-- The call sets or deletes the key. -/
def Op.writes (key : GoString) : Op → Bool
  | .set k _ _ _ | .setInternal k _ _ _ | .delete k | .deleteInternal k => k = key
  | .get _ _ | .getInternal _ _ | .cleanupExpired _ _ => false

/-- The time the call reads. -/
def Op.now? : Op → Option Time
  | .set _ _ _ now | .setInternal _ _ _ now | .get _ now | .getInternal _ now
  | .cleanupExpired _ now => some now
  | .delete _ | .deleteInternal _ => none

/-! ## Histories of well-formed caches -/

namespace WfCache

/-- `step`, which cannot panic. -/
def step (c : WfCache) : Op → WfCache
  | .set key value ttl now | .setInternal key value ttl now => c.set key value ttl now
  | .get key now | .getInternal key now => (c.get key now).2
  | .delete key | .deleteInternal key => c.delete key
  | .cleanupExpired order now => c.cleanupExpired order now

theorem cache_step (c : WfCache) (op : Op) : Spec.step c.cache op = .ok (c.step op).cache := by
  cases op with
  | set key value ttl now | setInternal key value ttl now => exact c.cache_set key value ttl now
  | get key now | getInternal key now =>
    have hget := c.cache_get key now
    rw [Cache.get] at hget
    simp only [Spec.step, Cache.get, hget, step]
    rfl
  | delete key | deleteInternal key => exact c.cache_delete key
  | cleanupExpired order now =>
    obtain ⟨n, hclean⟩ := c.cache_cleanupExpired order now
    simp only [Spec.step, hclean, step]
    rfl

theorem capacity_step (c : WfCache) (op : Op) : (c.step op).capacity = c.capacity := by
  cases op with
  | set | setInternal => exact capacity_set ..
  | get | getInternal => exact capacity_get ..
  | delete | deleteInternal => exact capacity_delete ..
  | cleanupExpired => exact capacity_cleanupExpired ..

theorem touched_get (c : WfCache) (key : GoString) (now : Time) :
    touched c.cache (.get key now) = if (c.hit? key now).isSome then [key] else [] := by
  simp only [touched, cache_get, get_fst]
  cases (c.hit? key now).isSome <;> rfl

/-- A call either touches nothing and only drops entries, or puts the key it
    touches in front of what it keeps of the others. -/
theorem entries_step (c : WfCache) (op : Op) :
    touched c.cache op = [] ∧ (c.step op).entries.Sublist c.entries ∨
    ∃ k p fs, touched c.cache op = [k] ∧ (c.step op).entries = (k, p) :: fs ∧
      fs.Sublist (erase k c.entries) := by
  cases op with
  | set key value ttl now | setInternal key value ttl now =>
    refine Or.inr ⟨key, _, _, rfl, entries_set c key value ttl now, List.take_sublist ..⟩
  | get key now | getInternal key now =>
    have htouched := c.touched_get key now
    have hentries := c.entries_get key now
    cases hhit : c.hit? key now with
    | none =>
      rw [hhit, if_neg (by simp)] at htouched hentries
      exact Or.inl ⟨htouched, by rw [step, hentries]⟩
    | some e =>
      rw [hhit, if_pos (by simp)] at htouched hentries
      have hfind : find? key c.entries = some e := (Option.filter_eq_some_iff.mp hhit).1
      rw [promote, hfind] at hentries
      exact Or.inr ⟨key, e, _, htouched, hentries, List.Sublist.refl _⟩
  | delete key | deleteInternal key =>
    exact Or.inl ⟨rfl, by rw [step, entries_delete]; exact erase_sublist _ _⟩
  | cleanupExpired order now =>
    exact Or.inl ⟨rfl, by rw [step, entries_cleanupExpired]; exact List.filter_sublist⟩

/-- `history`, which cannot panic. -/
def history (c : WfCache) (recent : List GoString) : List Op → WfCache × List GoString
  | [] => (c, recent)
  | op :: ops => history (c.step op) (touched c.cache op ++ recent) ops

theorem cache_history (c : WfCache) (recent : List GoString) (ops : List Op) :
    Spec.history c.cache recent ops =
      .ok ((c.history recent ops).1.cache, (c.history recent ops).2) := by
  induction ops generalizing c recent with
  | nil => rfl
  | cons op ops ih =>
    simp only [Spec.history, cache_step, bind, Except.bind, ih, history]

theorem history_append (c : WfCache) (recent : List GoString) (pre post : List Op) :
    c.history recent (pre ++ post) =
      (c.history recent pre).1.history (c.history recent pre).2 post := by
  induction pre generalizing c recent with
  | nil => rfl
  | cons op pre ih => exact ih (c.step op) (touched c.cache op ++ recent)

theorem capacity_history (c : WfCache) (recent : List GoString) (ops : List Op) :
    (c.history recent ops).1.capacity = c.capacity := by
  induction ops generalizing c recent with
  | nil => rfl
  | cons op ops ih => exact (ih (c.step op) _).trans (c.capacity_step op)

variable {c : WfCache} {recent : List GoString}

/-! ## Order of the list -/

theorem step_sorted (hs : Sorted recent c.entries) (op : Op) :
    Sorted (touched c.cache op ++ recent) (c.step op).entries := by
  obtain ⟨htouched, hsub⟩ | ⟨k, p, fs, htouched, hentries, hsub⟩ := c.entries_step op
  · rw [htouched]
    exact hs.sublist hsub
  · rw [htouched, hentries]
    exact hs.cons_sublist hsub p

/-- The list of the cache is in order of last touch after every history. -/
theorem history_sorted (hs : Sorted recent c.entries) (ops : List Op) :
    Sorted (c.history recent ops).2 (c.history recent ops).1.entries := by
  induction ops generalizing c recent with
  | nil => exact hs
  | cons op ops ih => exact ih (step_sorted hs op)

/-! ## Retention -/

/-- The entry is held, or at least as many distinct other keys have been touched
    since its key as the cache may hold. -/
def Kept (key : GoString) (e : SnapshotEntry) (c : WfCache) (recent : List GoString) : Prop :=
  find? key c.entries = some e ∨
  key ∉ keys c.entries ∧ c.capacity ≤ (touchedSince recent key).card

variable {key : GoString} {e : SnapshotEntry}

private theorem hit?_eq_none (h : key ∉ keys c.entries) (now : Time) : c.hit? key now = none := by
  rw [hit?, find?_eq_none_iff.mpr h]
  rfl

/-- Once the key has left the cache, it stays out until it is written, and the
    keys touched since only grow in number. -/
private theorem step_kept_absent (habs : key ∉ keys c.entries)
    (hcard : c.capacity ≤ (touchedSince recent key).card) {op : Op} (hw : op.writes key = false) :
    Kept key e (c.step op) (touched c.cache op ++ recent) := by
  right
  rw [capacity_step]
  obtain ⟨htouched, hsub⟩ | ⟨k, p, fs, htouched, hentries, hsub⟩ := c.entries_step op
  · rw [htouched]
    exact ⟨fun hmem => habs ((keys_sublist hsub).subset hmem), hcard⟩
  · -- only a write or a hit touches a key, and the key is neither written nor held
    have hk : k ≠ key := by
      rintro rfl
      cases op with
      | set key' | setInternal key' =>
        simp only [touched, List.cons.injEq, and_true] at htouched
        simp [Op.writes, htouched] at hw
      | get key' now | getInternal key' now =>
        have hget := htouched.symm.trans (c.touched_get key' now)
        split at hget
        · next hhit =>
          obtain rfl : k = key' := by simpa using hget
          rw [hit?_eq_none habs] at hhit
          exact absurd hhit (by simp)
        · exact nomatch hget
      | delete | deleteInternal | cleanupExpired => exact nomatch htouched
    have hsub := hsub.trans (erase_sublist k c.entries)
    rw [htouched, hentries, List.singleton_append, touchedSince_cons_of_ne hk, keys_cons,
      List.mem_cons, not_or]
    refine ⟨⟨Ne.symm hk, fun hmem => habs ((keys_sublist hsub).subset hmem)⟩, ?_⟩
    exact hcard.trans (Finset.card_le_card (Finset.subset_insert _ _))

/-- A held entry that is not written and does not expire is still held after a
    call, or leaves after enough other keys were touched. -/
private theorem step_kept_present (hs : Sorted recent c.entries)
    (hfind : find? key c.entries = some e) {op : Op} (hw : op.writes key = false)
    (hlive : ∀ now ∈ op.now?, hasExpired e.expiresAt now = false) :
    Kept key e (c.step op) (touched c.cache op ++ recent) := by
  cases op with
  | set key' value ttl now | setInternal key' value ttl now =>
    have hk : key' ≠ key := by simpa [Op.writes] using hw
    have hput := hs.find?_put c.nodup_entries c.capacity_pos c.length_entries_le hk
      ⟨value, Cache.expiry ttl now⟩
    rw [← entries_set] at hput
    obtain hsame | ⟨habs, hcard⟩ := hput
    · exact Or.inl (hsame.trans hfind)
    · refine Or.inr ⟨habs, ?_⟩
      rw [capacity_step, touched, List.singleton_append, touchedSince_cons_of_ne hk]
      exact hcard
  | get key' now | getInternal key' now =>
    -- a read changes the order at most
    left
    rw [step, entries_get]
    split
    · rw [find?_promote, hfind]
    · exact hfind
  | delete key' | deleteInternal key' =>
    have hk : key' ≠ key := by simpa [Op.writes] using hw
    left
    rw [step, entries_delete, find?_erase_of_ne (Ne.symm hk), hfind]
  | cleanupExpired order now =>
    -- the cleanup removes what has expired, and this entry has not
    have hnow := hlive now rfl
    left
    rw [step, entries_cleanupExpired, find?_filter c.nodup_entries, hfind]
    simp [hnow]

theorem step_kept (hs : Sorted recent c.entries) (hkept : Kept key e c recent) {op : Op}
    (hw : op.writes key = false) (hlive : ∀ now ∈ op.now?, hasExpired e.expiresAt now = false) :
    Kept key e (c.step op) (touched c.cache op ++ recent) := by
  obtain hfind | ⟨habs, hcard⟩ := hkept
  · exact step_kept_present hs hfind hw hlive
  · exact step_kept_absent habs hcard hw

/-- Retention over a history in which the key is not written and its entry does
    not expire. -/
theorem history_kept (hs : Sorted recent c.entries) (hkept : Kept key e c recent) {ops : List Op}
    (hw : ∀ op ∈ ops, op.writes key = false)
    (hlive : ∀ op ∈ ops, ∀ now ∈ op.now?, hasExpired e.expiresAt now = false) :
    Kept key e (c.history recent ops).1 (c.history recent ops).2 := by
  induction ops generalizing c recent with
  | nil => exact hkept
  | cons op ops ih =>
    have hstep := step_kept hs hkept (hw op List.mem_cons_self) (hlive op List.mem_cons_self)
    exact ih (step_sorted hs op) hstep (fun op' hop' => hw op' (List.mem_cons_of_mem _ hop'))
      (fun op' hop' => hlive op' (List.mem_cons_of_mem _ hop'))

/-- A read finds an entry that is kept and live, unless enough other keys were
    touched. -/
theorem get_of_kept (hkept : Kept key e c recent) {now : Time}
    (hlive : hasExpired e.expiresAt now = false)
    (hfew : (touchedSince recent key).card < c.capacity) :
    (c.get key now).1 = (e.value, true) := by
  obtain hfind | ⟨_, hmany⟩ := hkept
  · have hhit : c.hit? key now = some e := by simp [hit?, hfind, hlive]
    rw [get_fst, hhit]
    rfl
  · omega

/-- The key of the map that a `Set` takes out was touched longest ago. -/
theorem evicted_oldest (hs : Sorted recent c.entries) {key' value : GoString} {ttl : Duration}
    {now : Time} (hin : key ∈ c.cache.data) (hout : key ∉ (c.set key' value ttl now).cache.data) :
    key ∈ recent ∧ ∀ k ∈ c.cache.data, k ≠ key → recent.idxOf k < recent.idxOf key := by
  rw [mem_data_iff] at hin hout
  rw [entries_set] at hout
  constructor
  · obtain ⟨f, hf, rfl⟩ := List.mem_map.mp hin
    exact hs.used f hf
  · intro k hk hne
    exact hs.idxOf_lt_of_notMem_put c.capacity_pos c.length_entries_le hin hout
      ((c.mem_data_iff k).mp hk) hne

end WfCache

/-- A deadline that lies ahead of every call cannot expire before it. -/
private theorem hasExpired_expiry {ttl : Duration} {t₀ t now : Time} (ht : t ≤ now)
    (hdeadline : 0 < ttl → now ≤ t₀.add ttl) : hasExpired (Cache.expiry ttl t₀) t = false := by
  by_cases httl : 0 < ttl
  · simp only [hasExpired, Cache.expiry, if_pos httl, Time.after, Bool.and_eq_false_iff,
      decide_eq_false_iff_not]
    exact Or.inr (Nat.not_lt.mpr (ht.trans (hdeadline httl)))
  · simp [hasExpired, Cache.expiry, if_neg httl, Time.isZero]

/-- After any history of a new cache: a key whose last write set a value, whose
    deadline lies ahead, and since whose last touch fewer than `maxSize` other
    keys were touched is found with that value; and a `Set` that evicts picks
    the key of the map touched longest ago. -/
theorem lru_retention (maxSize : Int) (ops : List Op) :
    ∃ c recent, history (Cache.new maxSize) [] ops = .ok (c, recent) ∧
      (∀ pre write post key value ttl t₀ now, ops = pre ++ write :: post →
        write.Sets key value ttl t₀ → (∀ op ∈ post, op.writes key = false) →
        (∀ op ∈ post, ∀ t ∈ op.now?, t ≤ now) → (0 < ttl → now ≤ t₀.add ttl) →
        ((touchedSince recent key).card : Int) < maxSize →
        ∃ c', c.get key now = .ok ((value, true), c')) ∧
      (∀ key value ttl now c' evicted, c.set key value ttl now = .ok c' →
        evicted ∈ c.data → evicted ∉ c'.data →
        evicted ∈ recent ∧ ∀ k ∈ c.data, k ≠ evicted → recent.idxOf k < recent.idxOf evicted) := by
  let start := WfCache.new maxSize
  have hnew : Sorted [] start.entries := by
    rw [WfCache.entries_new]
    exact sorted_nil []
  refine ⟨_, _, start.cache_history [] ops, ?_, ?_⟩
  · intro pre write post key value ttl t₀ now hops hsets hw hclock hdeadline hfew
    subst hops
    rw [start.history_append] at hfew ⊢
    -- the state in which the value is written, and the entry it leaves there
    have hpre := WfCache.history_sorted hnew pre
    have hcap : start.capacity = (max 1 maxSize).toNat := rfl
    rw [← start.capacity_history [] pre] at hcap
    generalize start.history [] pre = mid at hpre hfew hcap ⊢
    obtain ⟨c, recent⟩ := mid
    dsimp only [WfCache.history] at hpre hfew hcap ⊢
    let e : SnapshotEntry := ⟨value, Cache.expiry ttl t₀⟩
    have hwritten : WfCache.Kept key e (c.step write) (touched c.cache write ++ recent) := by
      left
      obtain rfl | rfl := hsets <;> rw [WfCache.step, WfCache.entries_set, find?_put_self]
    have hkept := WfCache.history_kept (WfCache.step_sorted hpre write) hwritten hw
      fun op hop t ht => hasExpired_expiry (hclock op hop t ht) hdeadline
    have hget := WfCache.get_of_kept hkept (hasExpired_expiry le_rfl hdeadline) (by
      rw [WfCache.capacity_history, WfCache.capacity_step, hcap]
      omega)
    exact ⟨_, (WfCache.cache_get _ key now).trans (by rw [hget])⟩
  · intro key value ttl now c' evicted hset hin hout
    rw [WfCache.cache_set] at hset
    obtain rfl := Except.ok.inj hset
    exact WfCache.evicted_oldest (WfCache.history_sorted hnew ops) hin hout

/-- A read of the older key saves it from the eviction, in a cache of two. -/
theorem lru_retention_read_saves :
    ∃ c recent, history (Cache.new 2) []
        [.set (lit "a") (lit "1") 0 10, .set (lit "b") (lit "2") 0 11, .get (lit "a") 12,
          .set (lit "c") (lit "3") 0 13] = .ok (c, recent) ∧
      ∃ c', c.get (lit "a") 14 = .ok ((lit "1", true), c') := by
  obtain ⟨c, recent, hrun, hget, _⟩ := lru_retention 2
    [.set (lit "a") (lit "1") 0 10, .set (lit "b") (lit "2") 0 11, .get (lit "a") 12,
      .set (lit "c") (lit "3") 0 13]
  have hrecent : recent = [lit "c", lit "a", lit "b", lit "a"] := by
    have hrun' : (history (Cache.new 2) []
        [.set (lit "a") (lit "1") 0 10, .set (lit "b") (lit "2") 0 11, .get (lit "a") 12,
          .set (lit "c") (lit "3") 0 13]).map Prod.snd =
        .ok [lit "c", lit "a", lit "b", lit "a"] := by rfl
    rw [hrun] at hrun'
    exact Except.ok.inj hrun'
  refine ⟨c, recent, hrun, ?_⟩
  subst hrecent
  exact hget [] _ _ (lit "a") (lit "1") 0 10 14 rfl (Or.inl rfl) (by decide) (by decide)
    (by decide) (by decide)

end GoCache.Spec
