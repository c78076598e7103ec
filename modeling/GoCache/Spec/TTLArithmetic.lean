import GoCache.Spec.LeaderRuns

/-!
# TTL arithmetic

A TTL of `n` seconds is `n * time.Second` as a 64-bit number of nanoseconds. Up to the
largest product that fits, the deadline is exact and so are the seconds that are logged.
Above it the product wraps, no error is reported, and the key gets another deadline or
none at all.

## Key results

- `expiry_ne_of_wraps`: the deadline of a product that does not fit
- `exactOrRefused_set_iff`: the call on the cache that both command paths make
- `ttl_exact_iff`: both paths, with what they log
-/

namespace GoCache.Spec

open GoCache.Native Recency

/-- The arguments behind the value stand for `n` seconds: the number, or `EX` and the
    number. -/
def GivesSeconds (rest : List GoString) (n : Int64) : Prop :=
  (∃ text, rest = [text] ∧ atoi text.bytes = some n) ∨
    ∃ qualifier text, rest = [qualifier, text] ∧ isEX qualifier = true ∧ atoi text.bytes = some n

/-- The time `n` seconds later. -/
def secondsLater (now : Nat) (n : Int64) : Nat := now + n.toInt.toNat * 1000000000

/-- The product fits into 64 bits. -/
def FitsNanoseconds (n : Int64) : Prop := n.toInt * 1000000000 < 2 ^ 63

instance (n : Int64) : Decidable (FitsNanoseconds n) := by
  unfold FitsNanoseconds
  infer_instance

/-- The command is refused and changes nothing, or the key is stored with the deadline. -/
def ExactOrRefused (c c' : Cache) (reply : Bytes) (key value : GoString) (deadline : Time) :
    Prop :=
  (isErrorReply reply = true ∧ c' = c) ∨ find? key c'.entries = some ⟨value, deadline⟩

/-! ## The product -/

/-- A product that wraps gives another deadline, or none. -/
theorem expiry_ne_of_wraps {n : Int64} (hwraps : ¬ FitsNanoseconds n) (now : Nat) :
    secondsLater now n ≠ Cache.expiry (n * second) now := by
  have hlt := Int64.toInt_lt (n * second)
  unfold FitsNanoseconds at hwraps
  unfold secondsLater Cache.expiry
  split
  · show now + _ ≠ ((now : Int) + (n * second).toInt).toNat
    omega
  · show now + _ ≠ 0
    omega

theorem expiry_eq_iff {n : Int64} (hpos : 0 < n.toInt) (now : Nat) :
    secondsLater now n = Cache.expiry (n * second) now ↔ FitsNanoseconds n := by
  constructor
  · intro h
    by_contra hwraps
    exact expiry_ne_of_wraps hwraps now h
  · exact fun hfits => (expiry_seconds hpos hfits now).1

section Paths

variable {rest : List GoString} {n : Int64}

/-- Both paths compute the product. -/
theorem parseTTL_of_givesSeconds (h : GivesSeconds rest n) (a b : Bytes) :
    parseTTL a b (strs rest) = .ok (.ok (n * second)) := by
  rcases h with ⟨text, rfl, hn⟩ | ⟨qualifier, text, rfl, hex, hn⟩
  · show parseTTL a b [.str text] = _
    rw [parseTTL_one, ttlOf, hn]
  · show parseTTL a b [.str qualifier, .str text] = _
    rw [parseTTL_two, if_pos hex, ttlOf, hn]

theorem length_of_givesSeconds (h : GivesSeconds rest n) : rest.length ≤ 2 := by
  rcases h with ⟨text, rfl, _⟩ | ⟨qualifier, text, rfl, _⟩ <;> simp

theorem ttlArgument_of_givesSeconds (h : GivesSeconds rest n) :
    ttlArgument rest = some (n * second) := by
  rw [ttlArgument, parseTTL_of_givesSeconds h]

/-- The second loop of `EXEC` reads the number again. -/
theorem loggedTTL_of_givesSeconds (h : GivesSeconds rest n) : loggedTTL (strs rest) = .ok n := by
  rcases h with ⟨text, rfl, hn⟩ | ⟨qualifier, text, rfl, _, hn⟩
  · show Except.ok ((atoi text.bytes).getD 0) = _
    rw [hn]
    rfl
  · show Except.ok ((atoi text.bytes).getD 0) = _
    rw [hn]
    rfl

end Paths

section Set

variable {key value : GoString} {n : Int64}

private theorem replyOK_noError : ¬ isErrorReply replyOK = true := by decide

/-- What the entry says decides, as neither path refuses the command. -/
theorem exactOrRefused_set_iff (c : WfCache) (hpos : 0 < n.toInt) (now : Nat) :
    ExactOrRefused c.cache (c.set key value (n * second) now).cache replyOK key value
      (secondsLater now n) ↔ FitsNanoseconds n := by
  have hfind : find? key (c.set key value (n * second) now).cache.entries =
      some ⟨value, Cache.expiry (n * second) now⟩ := by
    show find? key (c.set key value (n * second) now).entries = _
    rw [WfCache.entries_set, find?_put_self]
  rw [ExactOrRefused, hfind, ← expiry_eq_iff hpos now]
  constructor
  · rintro (⟨herror, _⟩ | hstored)
    · exact absurd herror replyOK_noError
    · simpa [eq_comm] using hstored
  · intro h
    right
    rw [h]

/-- The immediate command: on a follower it is refused. -/
theorem handleSet_exact_iff {s : Server} {c : WfCache} (hc : s.cache = c.cache)
    {rest : List GoString} (hpos : 0 < n.toInt) (hrest : GivesSeconds rest n) (now : Nat) :
    (∃ reply s', handleSet s now (strs (lit "SET" :: key :: value :: rest)) = .ok (reply, s') ∧
      ExactOrRefused s.cache s'.cache reply key value (secondsLater now n) ∧
      (s' = s ∨ s' = logAll { s with cache := s'.cache } [.set key value n])) ↔
    s.role = .follower ∨ FitsNanoseconds n := by
  by_cases hrole : s.role = .follower
  · refine ⟨fun _ => .inl hrole, fun _ => ⟨readOnly, s, ?_, .inl ⟨by decide, rfl⟩, .inl rfl⟩⟩
    unfold handleSet
    rw [if_pos hrole]
  · have httl := ttlArgument_of_givesSeconds hrest
    have hset : handleSet s now (strs (lit "SET" :: key :: value :: rest)) = _ :=
      handleSet_ask hrole hc (length_of_givesSeconds hrest) (by rw [httl]; rfl)
    simp only [WfCache.ask, Ask.records, httl, Option.getD_some] at hset
    rw [or_iff_right hrole, hset]
    constructor
    · rintro ⟨reply, s', h, hexact, _⟩
      cases h
      rw [cache_logAll, hc] at hexact
      exact (exactOrRefused_set_iff c hpos now).mp hexact
    · intro hfits
      refine ⟨_, _, rfl, ?_, .inr ?_⟩
      · rw [cache_logAll, hc]
        exact (exactOrRefused_set_iff c hpos now).mpr hfits
      · rw [cache_logAll, (expiry_seconds hpos hfits now).2]

end Set

/-! ## Inside `EXEC` -/

theorem ExecutesAll.append {clock : Nat → Time} {i : Nat} {c c₁ c' : WfCache}
    {pre post : List (List Value)} {rs rs' : List Bytes} {ops ops' : List (Mutation × Time)}
    (hpre : ExecutesAll clock i c pre rs ops c₁)
    (hpost : ExecutesAll clock (i + pre.length) c₁ post rs' ops' c') :
    ExecutesAll clock i c (pre ++ post) (rs ++ rs') (ops ++ ops') c' := by
  induction hpre with
  | nil i c => exact hpost
  | cons hcmd _ ih =>
    rw [List.append_assoc]
    refine .cons hcmd (ih ?_)
    rwa [List.length_cons, Nat.add_comm _ 1, ← Nat.add_assoc] at hpost

section Exec

variable {key value : GoString} {rest : List GoString} {n : Int64}

private theorem queueable_set (hrest : rest.length ≤ 2) :
    Queueable (strs (lit "SET" :: key :: value :: rest)) := by
  refine ⟨_, _, rfl, by decide, ?_⟩
  rw [List.length_map, List.length_cons, List.length_cons, List.length_cons, validationErr,
    if_pos rfl, if_neg (by omega)]

private theorem completes_set (ss : List GoString) :
    completes (strs (lit "SET" :: ss)) = true := by
  show completes (.str (lit "SET") :: strs ss) = true
  rw [completes_of_mem _ (by decide), List.all_map]
  exact List.all_eq_true.mpr fun _ _ => rfl

end Exec

/-- For every `n > 0` and every `SET` with `n` seconds: the immediate command is exact
    unless the product wraps and the node is no follower, and inside `EXEC`, at any place of
    a queue that `EXEC` gets through, it is exact unless the product wraps. The TTL that
    `EXEC` logs is always `n`. -/
theorem ttl_exact_iff (s : Server) (c : WfCache) (hc : s.cache = c.cache) (key value : GoString)
    (rest : List GoString) (n : Int64) (hpos : 0 < n.toInt) (hrest : GivesSeconds rest n) :
    (∀ now, (∃ reply s',
        handleSet s now (strs (lit "SET" :: key :: value :: rest)) = .ok (reply, s') ∧
        ExactOrRefused s.cache s'.cache reply key value (secondsLater now n) ∧
        (s' = s ∨ s' = logAll { s with cache := s'.cache } [.set key value n])) ↔
      s.role = .follower ∨ FitsNanoseconds n) ∧
    ∀ clock pre post, (∀ cmd ∈ pre ++ post, Queueable cmd ∧ completes cmd = true) →
      ∃ responses c₁ reply c₂ out c',
        executeQueue clock 0 s.cache pre = .ok (responses, c₁) ∧
        executeCommand c₁ (clock pre.length) (strs (lit "SET" :: key :: value :: rest)) =
          .ok (reply, c₂) ∧
        handleExec s (queueing (pre ++ strs (lit "SET" :: key :: value :: rest) :: post)) clock =
          .ok (out, logAll { s with cache := c' }
            (pre.filterMap record? ++ .set key value n :: post.filterMap record?), .new) ∧
        (ExactOrRefused c₁ c₂ reply key value (secondsLater (clock pre.length) n) ↔
          FitsNanoseconds n) := by
  refine ⟨handleSet_exact_iff hc hpos hrest, fun clock pre post hqueue => ?_⟩
  have hlen := length_of_givesSeconds hrest
  obtain ⟨rs, ops, c₁, hpre⟩ := executesAll_of_completes clock 0 c
    (fun cmd h => (hqueue cmd (List.mem_append_left _ h)).1)
    fun cmd h => (hqueue cmd (List.mem_append_left _ h)).2
  have hcmd : Executes c₁ (clock (0 + pre.length)) _ _ _ _ :=
    .set key value (strs rest) _ (by rwa [List.length_map]) (parseTTL_of_givesSeconds hrest _ _)
  obtain ⟨rs', ops', c', hpost⟩ := executesAll_of_completes clock (0 + pre.length + 1)
    (c₁.set key value (n * second) (clock (0 + pre.length)))
    (fun cmd h => (hqueue cmd (List.mem_append_right _ h)).1)
    fun cmd h => (hqueue cmd (List.mem_append_right _ h)).2
  have hall : ExecutesAll clock 0 c (pre ++ strs (lit "SET" :: key :: value :: rest) :: post) _ _
      c' := hpre.append (.cons hcmd hpost)
  have hmem : ∀ cmd ∈ pre ++ strs (lit "SET" :: key :: value :: rest) :: post,
      Queueable cmd ∧ completes cmd = true := by
    intro cmd h
    rw [List.mem_append, List.mem_cons] at h
    rcases h with h | rfl | h
    · exact hqueue cmd (List.mem_append_left _ h)
    · exact ⟨queueable_set hlen, completes_set _⟩
    · exact hqueue cmd (List.mem_append_right _ h)
  have hexec := handleExec_of_completes (fun cmd h => (hmem cmd h).1) (fun cmd h => (hmem cmd h).2)
    hc hall
  have hrecord : record? (strs (lit "SET" :: key :: value :: rest)) = some (.set key value n) := by
    show record? (.str (lit "SET") :: .str key :: .str value :: strs rest) = _
    rw [record?_set, loggedTTL_of_givesSeconds hrest]
    rfl
  rw [List.filterMap_append, List.filterMap_cons, hrecord] at hexec
  refine ⟨rs, c₁.cache, replyOK, (c₁.set key value (n * second) (clock pre.length)).cache, _,
    c'.cache, ?_, ?_, hexec, ?_⟩
  · rw [hc]
    exact executeQueue_of_executesAll hpre
  · have hone := executeCommand_of_executes hcmd
    rw [Nat.zero_add] at hone
    exact hone
  · exact exactOrRefused_set_iff c₁ hpos _

/-- Five seconds, in an immediate command and behind another one in a transaction. -/
theorem ttl_exact_iff_five :
    (∃ reply s', handleSet leaderOfTwo 7 (strs [lit "SET", lit "k", lit "v", lit "5"]) =
        .ok (reply, s') ∧
      ExactOrRefused leaderOfTwo.cache s'.cache reply (lit "k") (lit "v") 5000000007 ∧
      (s' = leaderOfTwo ∨
        s' = logAll { leaderOfTwo with cache := s'.cache } [.set (lit "k") (lit "v") 5])) ∧
    ∃ responses c₁ reply c₂ out c',
      executeQueue (fun _ => 7) 0 leaderOfTwo.cache [strs [lit "DEL", lit "a"]] =
        .ok (responses, c₁) ∧
      executeCommand c₁ 7 (strs [lit "SET", lit "k", lit "v", lit "5"]) = .ok (reply, c₂) ∧
      handleExec leaderOfTwo (queueing [strs [lit "DEL", lit "a"],
          strs [lit "SET", lit "k", lit "v", lit "5"]]) (fun _ => 7) =
        .ok (out, logAll { leaderOfTwo with cache := c' }
          [.del (lit "a"), .set (lit "k") (lit "v") 5], .new) ∧
      ExactOrRefused c₁ c₂ reply (lit "k") (lit "v") 5000000007 := by
  obtain ⟨himmediate, hexec⟩ := ttl_exact_iff leaderOfTwo (.new 2) rfl (lit "k") (lit "v")
    [lit "5"] 5 (by decide) (.inl ⟨lit "5", rfl, by decide⟩)
  obtain ⟨responses, c₁, reply, c₂, out, c', hqueue, hcommand, hrun, hiff⟩ :=
    hexec (fun _ => 7) [strs [lit "DEL", lit "a"]] [] (by decide)
  exact ⟨(himmediate 7).mpr (.inr (by decide)), responses, c₁, reply, c₂, out, c', hqueue,
    hcommand, hrun, hiff.mpr (by decide)⟩

/-- With 9223372037 seconds the product is negative, and the key gets no deadline. With
    18446744074 it is 290448384, a deadline in less than a third of a second, and the AOF
    has a TTL of zero. Both are answered `OK`. -/
theorem ttl_wraps :
    ((handleSet leaderOfTwo 7 (strs [lit "SET", lit "k", lit "v", lit "9223372037"])).map
      fun r => (r.1, find? (lit "k") r.2.cache.entries)) = .ok (replyOK, some ⟨lit "v", 0⟩) ∧
    ((handleSet leaderOfTwo 7 (strs [lit "SET", lit "k", lit "v", lit "18446744074"])).map
      fun r => (r.1, find? (lit "k") r.2.cache.entries, r.2.aof)) =
      .ok (replyOK, some ⟨lit "v", 290448391⟩, (Record.set (lit "k") (lit "v") 0).encode) ∧
    ((executeCommand leaderOfTwo.cache 7
      (strs [lit "SET", lit "k", lit "v", lit "EX", lit "9223372037"])).map
      fun r => (r.1, find? (lit "k") r.2.entries)) = .ok (replyOK, some ⟨lit "v", 0⟩) := by
  decide +kernel

end GoCache.Spec
