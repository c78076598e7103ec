import GoCache.Spec.Execution
import GoCache.Spec.Seconds

/-!
# Runs of a leader

The requests with which a client uses a leader as a map, handled one at a time. Each
of them is one call on the cache and at most one record in the AOF.

## Key results

- `handleCommand_ask`: one request
- `handleConnection_asks`: all requests of a connection
-/

namespace GoCache.Spec

open GoCache.Native

/-! ## Requests -/

/-- A request to a map; `rest` are the arguments of a `SET` behind the value. -/
inductive Ask where
  | set (key value : GoString) (rest : List GoString)
  | get (key : GoString)
  | del (key : GoString)
  | dbSize

/-- The TTL that the arguments behind the value stand for. -/
def ttlArgument (rest : List GoString) : Option Duration :=
  match parseTTL [] [] (strs rest) with
  | .ok (.ok ttl) => some ttl
  | _ => none

/-- The deadline that `n` seconds give, and the seconds that are logged for them. -/
theorem expiry_seconds {n : Int64} (hpos : 0 < n.toInt) (hfits : n.toInt * 1000000000 < 2 ^ 63)
    (now : Nat) : now + n.toInt.toNat * 1000000000 = Cache.expiry (n * second) now ∧
      Duration.seconds (n * second) = n := by
  have hnanos := toInt_mul_second hpos.le hfits
  have httl : (0 : Int64) < n * second := by
    rw [Int64.lt_iff_toInt_lt, hnanos, Int64.toInt_zero]
    omega
  refine ⟨?_, seconds_mul_second hpos.le hfits⟩
  rw [Cache.expiry, if_pos httl, Time.add, hnanos]
  omega

namespace Ask

/-- The command. -/
def name : Ask → GoString
  | .set .. => lit "SET"
  | .get _ => lit "GET"
  | .del _ => lit "DEL"
  | .dbSize => lit "DBSIZE"

/-- The arguments. -/
def args : Ask → List GoString
  | .set key value rest => key :: value :: rest
  | .get key | .del key => [key]
  | .dbSize => []

/-- The array a client sends. -/
def elements (a : Ask) : List Value := strs (a.name :: a.args)

/-- The key `handleConnection` routes by. -/
def key (a : Ask) : GoString := a.args.headD GoString.empty

/-- The TTL argument can be parsed. -/
def Valid : Ask → Prop
  | .set _ _ rest => rest.length ≤ 2 ∧ (ttlArgument rest).isSome
  | .get _ | .del _ | .dbSize => True

/-- The record of the AOF. -/
def records : Ask → List Record
  | .set key value rest => [.set key value ((ttlArgument rest).getD 0).seconds]
  | .del key => [.del key]
  | .get _ | .dbSize => []

/-- The reply. -/
def reply (c : WfCache) (now : Time) : Ask → Bytes
  | .set .. => replyOK
  | .get key => replyGet (c.get key now).1
  | .del _ => replyDel
  | .dbSize => encodeInteger (Int64.ofNat c.cache.len)

end Ask

/-- The cache after a request. -/
def WfCache.ask (c : WfCache) (now : Time) : Ask → WfCache
  | .set key value rest => c.set key value ((ttlArgument rest).getD 0) now
  | .get key => (c.get key now).2
  | .del key => c.delete key
  | .dbSize => c

/-- The cache after a sequence of requests. -/
def WfCache.askAll (c : WfCache) (asks : List (Ask × Time)) : WfCache :=
  asks.foldl (fun c a => c.ask a.2 a.1) c

theorem WfCache.askAll_concat (c : WfCache) (asks : List (Ask × Time)) (a : Ask × Time) :
    c.askAll (asks ++ [a]) = (c.askAll asks).ask a.2 a.1 := by
  rw [askAll, List.foldl_append, List.foldl_cons, List.foldl_nil]
  rfl

theorem WfCache.capacity_ask (c : WfCache) (now : Time) (a : Ask) :
    (c.ask now a).capacity = c.capacity := by
  cases a with
  | set key value rest => exact capacity_set ..
  | get key => exact capacity_get ..
  | del key => exact capacity_delete ..
  | dbSize => rfl

theorem WfCache.capacity_askAll (c : WfCache) (asks : List (Ask × Time)) :
    (c.askAll asks).capacity = c.capacity := by
  induction asks generalizing c with
  | nil => rfl
  | cons a asks ih => exact (ih (c.ask a.2 a.1)).trans (c.capacity_ask a.2 a.1)

/-- The replies to a sequence of requests. -/
def replies (c : WfCache) : List (Ask × Time) → List Bytes
  | [] => []
  | a :: asks => a.1.reply c a.2 :: replies (c.ask a.2 a.1) asks

/-- The records of a sequence of requests. -/
def recordsOf (asks : List (Ask × Time)) : List Record := asks.flatMap fun a => a.1.records

/-- The keys that the requests set, the last one first. -/
def setKeys (asks : List (Ask × Time)) : List GoString :=
  (asks.filterMap fun a => match a.1 with
    | .set key _ _ => some key
    | .get _ | .del _ | .dbSize => none).reverse

theorem setKeys_concat (asks : List (Ask × Time)) (a : Ask × Time) :
    setKeys (asks ++ [a]) =
      (match a.1 with
        | .set key _ _ => [key]
        | .get _ | .del _ | .dbSize => []) ++ setKeys asks := by
  obtain ⟨a, now⟩ := a
  rw [setKeys, List.filterMap_append, List.reverse_append]
  cases a <;> rfl

/-- What the connection delivers to `handleConnection`. -/
def sent (asks : List (Ask × Time)) : List (Value × (Nat → Time)) :=
  asks.map fun a => (.arr a.1.elements, fun _ => a.2)

/-- A leader of no cluster with room for two keys. -/
def leaderOfTwo : Server := ⟨Cache.new 2, [], .new 2, none, .leader, false, fun _ _ => none⟩

/-- No pub/sub and cluster commands. -/
def noOther (s : Server) (st : ConnectionState) (_ : List Value) :
    Bytes × Server × ConnectionState := ([], s, st)

/-! ## One request -/

section Handle

variable (other : OtherHandlers) {s : Server} {st : ConnectionState} {c : WfCache} {now : Time}

theorem immediate_new : Immediate .new := ⟨rfl, rfl⟩

private theorem parseTTL_of_isSome {rest : List GoString} (hlen : rest.length ≤ 2)
    (h : (ttlArgument rest).isSome) (a b : Bytes) :
    parseTTL a b (strs rest) = .ok (.ok ((ttlArgument rest).getD 0)) := by
  unfold ttlArgument at h ⊢
  rcases parseTTL_strs hlen with ⟨ttl, hok⟩ | herr
  · rw [hok, hok]
    rfl
  · obtain ⟨text, htext⟩ := herr [] []
    rw [htext] at h
    cases h

/-- A `SET` with a TTL that can be parsed, on a node that is no follower. -/
theorem handleSet_ask (hrole : ¬ s.role = .follower) (hc : s.cache = c.cache)
    {key value : GoString} {rest : List GoString} (hlen : rest.length ≤ 2)
    (httl : (ttlArgument rest).isSome) :
    handleSet s now (strs (lit "SET" :: key :: value :: rest)) = .ok (replyOK,
      logAll { s with cache := (c.ask now (.set key value rest)).cache }
        (Ask.set key value rest).records) := by
  have hshort : ¬ 2 < (strs rest).length := by
    rw [List.length_map]
    omega
  have hset : s.cache.set key value ((ttlArgument rest).getD 0) now =
      .ok (c.ask now (.set key value rest)).cache := by
    rw [hc, WfCache.cache_set]
    rfl
  unfold handleSet
  rw [if_neg hrole]
  simp only [List.map_cons, if_neg hshort, asString, bind, Except.bind,
    parseTTL_of_isSome hlen httl, hset]
  rfl

theorem handleGet_ask (hc : s.cache = c.cache) (key : GoString) :
    handleGet s now (strs [lit "GET", key]) =
      .ok (replyGet (c.get key now).1, { s with cache := (c.get key now).2.cache }) := by
  show (s.cache.get key now >>= fun r => .ok (replyGet r.1, { s with cache := r.2 })) = _
  rw [hc, WfCache.cache_get]
  rfl

private theorem handleDelete_ask (hrole : s.role = .leader) (hc : s.cache = c.cache)
    (key : GoString) : handleDelete s (strs [lit "DEL", key]) =
      .ok (replyDel, logAll { s with cache := (c.delete key).cache } [.del key]) := by
  have hfollower : ¬ s.role = .follower := by
    rw [hrole]
    decide
  unfold handleDelete
  rw [if_neg hfollower]
  show (s.cache.delete key >>= fun c => .ok (replyDel,
    ({ s with cache := c }.replicate (.del key)).append (.del key))) = _
  rw [hc, WfCache.cache_delete]
  rfl

/-- What a leader does with a request: one call on the cache, and its record. -/
theorem handleCommand_ask (hst : Immediate st) (hrole : s.role = .leader) (hc : s.cache = c.cache)
    {a : Ask} (hvalid : a.Valid) (hhere : movedTo s (.str a.name) a.key = none)
    (clock : Nat → Time) :
    handleCommand other s st clock a.elements = .ok (a.reply c (clock 0),
      logAll { s with cache := (c.ask (clock 0) a).cache } a.records, st) := by
  rw [Ask.elements, handleCommand_immediate other hst clock (by cases a <;> rfl) hhere]
  cases a with
  | set key value rest =>
    show (handleSet s (clock 0) (strs (lit "SET" :: key :: value :: rest)) >>= fun r =>
      .ok (r.1, r.2, st)) = _
    rw [handleSet_ask (by rw [hrole]; decide) hc hvalid.1 hvalid.2]
    rfl
  | get key =>
    show (handleGet s (clock 0) (strs [lit "GET", key]) >>= fun r => .ok (r.1, r.2, st)) = _
    rw [handleGet_ask hc]
    rfl
  | del key =>
    show (handleDelete s (strs [lit "DEL", key]) >>= fun r => .ok (r.1, r.2, st)) = _
    rw [handleDelete_ask hrole hc]
    rfl
  | dbSize =>
    have hsame : { s with cache := c.cache } = s := by rw [← hc]
    show Except.ok (handleDBSize s, s, st) = .ok (_, { s with cache := c.cache }, st)
    rw [hsame, handleDBSize, hc]
    rfl

/-! ## All requests of a connection -/

/-- A leader that answers the requests itself: none of them is redirected. -/
structure Answers (s : Server) (asks : List (Ask × Time)) : Prop where
  role : s.role = .leader
  valid : ∀ a ∈ asks, a.1.Valid
  here : ∀ a ∈ asks, movedTo s (.str a.1.name) a.1.key = none

theorem Answers.of_subset {asks asks' : List (Ask × Time)} (h : Answers s asks)
    (hsub : asks' ⊆ asks) : Answers s asks' :=
  ⟨h.role, fun a ha => h.valid a (hsub ha), fun a ha => h.here a (hsub ha)⟩

/-- The fields of a server that no request changes. -/
theorem logAll_fixed (s : Server) (records : List Record) :
    (logAll s records).role = s.role ∧ (logAll s records).clusterMode = s.clusterMode ∧
      (logAll s records).forward = s.forward := by
  induction records generalizing s with
  | nil => exact ⟨rfl, rfl, rfl⟩
  | cons r records ih =>
    have hone : ((s.replicate r).append r).role = s.role ∧
        ((s.replicate r).append r).clusterMode = s.clusterMode ∧
        ((s.replicate r).append r).forward = s.forward := by
      unfold Server.append Server.replicate
      split <;> exact ⟨rfl, rfl, rfl⟩
    obtain ⟨hrole, hmode, hforward⟩ := ih ((s.replicate r).append r)
    exact ⟨hrole.trans hone.1, hmode.trans hone.2.1, hforward.trans hone.2.2⟩

/-- Logging and replacing the cache do not interfere. -/
private theorem logAll_withCache (s : Server) (records : List Record) (cache : Cache) :
    { logAll s records with cache := cache } = logAll { s with cache := cache } records := by
  induction records generalizing s with
  | nil => rfl
  | cons r records ih =>
    have hone : { (s.replicate r).append r with cache := cache } =
        (({ s with cache := cache } : Server).replicate r).append r := by
      unfold Server.append Server.replicate
      dsimp only
      split <;> rfl
    show { logAll ((s.replicate r).append r) records with cache := cache } = _
    rw [ih, hone]
    rfl

/-- Once an append has started a rewrite, the content of the file is not known any more. -/
private theorem rewriting_logAll {s : Server} (h : s.trigger.rewriting = true)
    (records : List Record) : (logAll s records).trigger.rewriting = true := by
  induction records generalizing s with
  | nil => exact h
  | cons r records ih =>
    have hone : ((s.replicate r).append r).trigger.rewriting = true := by
      unfold Server.append Server.replicate
      split <;> simp [checkRewriteTrigger, h]
    exact ih hone

/-- So as long as it is, all of the file is what has been logged. -/
theorem aofFile_logAll {s : Server} (cache : Cache) {cache' : Cache} {records : List Record}
    (more : List Record)
    (h : (logAll { s with cache := cache' } (records ++ more)).aofFile.isSome) :
    (logAll { s with cache := cache } records).aofFile = some (s.aof ++ encodeLog records) := by
  have hrewriting : (logAll s records).trigger.rewriting = false := by
    rw [← logAll_withCache, logAll_append] at h
    by_contra hstarted
    have := rewriting_logAll (eq_true_of_ne_false hstarted) more
    simp [Server.aofFile, this] at h
  rw [← logAll_withCache]
  show (logAll s records).aofFile = _
  rw [Server.aofFile, hrewriting, if_neg Bool.false_ne_true, aof_logAll]

theorem aof_of_aofFile {s : Server} {file : Bytes} (h : s.aofFile = some file) : s.aof = file := by
  unfold Server.aofFile at h
  split at h
  · cases h
  · exact Option.some.inj h

theorem movedTo_logAll (s : Server) (cache : Cache) (records : List Record)
    (command : Value) (key : GoString) :
    movedTo (logAll { s with cache := cache } records) command key = movedTo s command key := by
  obtain ⟨_, hmode, hforward⟩ := logAll_fixed { s with cache := cache } records
  unfold movedTo
  rw [hmode, hforward]

/-- A leader answers request after request; its AOF grows by their records. -/
theorem handleConnection_asks (hst : Immediate st) (hc : s.cache = c.cache)
    {asks : List (Ask × Time)} (h : Answers s asks) :
    handleConnection other s st (sent asks) = .ok (replies c asks,
      logAll { s with cache := (c.askAll asks).cache } (recordsOf asks), st) := by
  induction asks generalizing s c with
  | nil =>
    show Except.ok (([] : List Bytes), s, st) = .ok ([], { s with cache := c.cache }, st)
    rw [← hc]
  | cons a asks ih =>
    obtain ⟨a, now⟩ := a
    have hstep : handleCommand other s st (fun _ => now) a.elements = _ :=
      handleCommand_ask other hst h.role hc (h.valid _ List.mem_cons_self)
        (h.here _ List.mem_cons_self) fun _ => now
    let s₁ := logAll { s with cache := (c.ask now a).cache } a.records
    have hanswers : Answers s₁ asks := by
      refine ⟨(logAll_fixed ..).1.trans h.role, fun b hb => h.valid b (List.mem_cons_of_mem _ hb),
        fun b hb => ?_⟩
      rw [movedTo_logAll]
      exact h.here b (List.mem_cons_of_mem _ hb)
    have hrest := ih (cache_logAll ..) hanswers
    show (handleCommand other s st (fun _ => now) a.elements >>= fun r =>
      handleConnection other r.2.1 r.2.2 (sent asks) >>= fun rs =>
        .ok (r.1 :: rs.1, rs.2.1, rs.2.2)) = _
    rw [hstep]
    show (handleConnection other s₁ st (sent asks) >>= fun rs =>
        .ok (a.reply c now :: rs.1, rs.2.1, rs.2.2)) = _
    rw [hrest, logAll_withCache]
    show Except.ok _ = _
    rw [← logAll_append]
    rfl

theorem exists_ran (hc : s.cache = c.cache) {asks : List (Ask × Time)} (h : Answers s asks) :
    ∃ out s', handleConnection other s .new (sent asks) = .ok (out, s', .new) :=
  ⟨_, _, handleConnection_asks other immediate_new hc h⟩

end Handle

/-! ## Prefixes of a run -/

/-- A property of all prefixes of a list, from what it takes to extend a prefix. -/
theorem forall_prefix_iff {α : Type} {P : List α → Prop} {Q : List α → α → Prop} {l : List α}
    (hnil : P []) (hstep : ∀ p a, p ++ [a] <+: l → P p → (P (p ++ [a]) ↔ Q p a)) :
    (∀ p, p <+: l → P p) ↔ ∀ p a, p ++ [a] <+: l → Q p a := by
  constructor
  · intro h p a hpre
    exact (hstep p a hpre (h p ((List.prefix_append p [a]).trans hpre))).mp (h _ hpre)
  · intro h p
    induction p using List.reverseRecOn with
    | nil => exact fun _ => hnil
    | append_singleton p a ih =>
      intro hpre
      exact (hstep p a hpre (ih ((List.prefix_append p [a]).trans hpre))).mpr (h p a hpre)

/-- What holds of the server a connection ends with. -/
theorem exists_ran_iff {ran : Except Panic (List Bytes × Server × ConnectionState)}
    {out : List Bytes} {s : Server} {st : ConnectionState} (h : ran = .ok (out, s, st))
    (P : Server → Prop) : (∃ out' s', ran = .ok (out', s', st) ∧ P s') ↔ P s := by
  constructor
  · rintro ⟨out', s', hran, hP⟩
    cases h.symm.trans hran
    exact hP
  · exact fun hP => ⟨out, s, h, hP⟩

/-- A condition on all requests of a run, checked position by position. -/
theorem exists_ran_of_check {other : OtherHandlers} {s : Server}
    {c : WfCache} (hc : s.cache = c.cache) {asks : List (Ask × Time)} (h : Answers s asks)
    (Q : List (Ask × Time) → Server → Ask × Time → Prop) [∀ p s a, Decidable (Q p s a)]
    (hcheck : ∀ n < asks.length, ∀ a ∈ asks[n]?,
      ((handleConnection other s .new (sent (asks.take n))).map fun r =>
        decide (Q (asks.take n) r.2.1 a)) = .ok true) (p : List (Ask × Time)) (a : Ask × Time)
    (hpre : p ++ [a] <+: asks) :
    ∃ out s', handleConnection other s .new (sent p) = .ok (out, s', .new) ∧ Q p s' a := by
  have hp := (List.prefix_append p [a]).trans hpre
  have hrun := handleConnection_asks other immediate_new hc (h.of_subset hp.subset)
  -- the request is the one at the position behind `p`
  obtain ⟨hlt, hnext⟩ : p.length < asks.length ∧ asks[p.length]? = some a := by
    obtain ⟨post, rfl⟩ := hpre
    simp
  have hcheck := hcheck p.length hlt a hnext
  rw [← List.prefix_iff_eq_take.mp hp, hrun] at hcheck
  exact ⟨_, _, hrun, of_decide_eq_true (Except.ok.inj hcheck)⟩

end GoCache.Spec
