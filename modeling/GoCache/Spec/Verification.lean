import GoCache.Spec.LeaderRuns
import GoCache.Spec.Migration

/-!
# Verification of a transfer

`VerifyTransfer` asks the target for every key and takes a nil response for a missing key.
A missing key is answered with the null bulk string, which `Parse` reads as the empty
string, like the value of a key that is there and empty. No response is nil, so the
verification ends without an error whenever the connection holds.

## Key results

- `parse_replyGet`: what `Parse` makes of the answer to a `GET`
- `verifyTransfer_eq_none_iff`: the verification depends on the connection only
- `verification_sound_iff`: when its result is right
-/

namespace GoCache.Spec

open GoCache.Native Recency

/-- The command that `VerifyTransfer` sends for a key. -/
def getCommand (key : GoString) : Bytes := encodeArray [.str (lit "GET"), .str key]

/-- A node that answers every `GET` it handles as `handleGet` does with its own cache. A
    connection to it, or a write, may fail. -/
structure GetTarget {ω : Type} (net : Network ω) (addr : GoString) (node : ω → Server)
    (now : ω → Time) : Prop where
  isWf : ∀ w, ∃ c : WfCache, (node w).cache = c.cache
  get : ∀ w key answer w', net.write w addr (getCommand key) = .ok (answer, w') →
    handleGet (node w) (now w) (strs [lit "GET", key]) = .ok (answer, node w')

section Verify

variable {ω : Type} (net : Network ω) (addr : GoString) (node : ω → Server) (now : ω → Time)

/-- Every command is written. -/
def Connected : List GoString → ω → Prop
  | [], _ => True
  | key :: keys, w => ∃ answer w', net.write w addr (getCommand key) = .ok (answer, w') ∧
      Connected keys w'

/-- The target has an entry for every key that has not expired when it is asked for it. -/
def LiveWhenAsked : List GoString → ω → Prop
  | [], _ => True
  | key :: keys, w =>
    (∃ e ∈ find? key (node w).cache.entries, hasExpired e.expiresAt (now w) = false) ∧
      ∀ answer w', net.write w addr (getCommand key) = .ok (answer, w') → LiveWhenAsked keys w'

/-- A missing key reads like an empty value. -/
theorem parse_replyGet (result : GoString × Bool) : ∃ value,
    parse (replyGet result) = .ok (.str value) [] := by
  unfold replyGet
  split
  · have hread := (frames_encodeElement (.str result.1)).reads []
    rw [List.append_nil] at hread
    exact ⟨result.1, hread⟩
  · have hread := (frames_encodeNull GoString.empty).reads []
    rw [List.append_nil] at hread
    exact ⟨GoString.empty, hread⟩

variable {net addr node now} {w w' : ω}

/-- The reply to a `GET` is read in full, whatever it says. -/
theorem parse_answer (ht : GetTarget net addr node now) {key : GoString} {answer : Bytes}
    (h : net.write w addr (getCommand key) = .ok (answer, w')) :
    ∃ value, parse answer = .ok (.str value) [] := by
  obtain ⟨c, hc⟩ := ht.isWf w
  have hreply := ht.get w key answer w' h
  rw [handleGet_ask hc, Except.ok.injEq, Prod.mk.injEq] at hreply
  rw [← hreply.1]
  exact parse_replyGet _

theorem verifyLoop_eq_none_iff (ht : GetTarget net addr node now) (keys : List GoString) (w : ω) :
    (∃ conn, verifyLoop net addr keys ⟨w, []⟩ = .ok (none, conn)) ↔
      Connected net addr keys w := by
  induction keys generalizing w with
  | nil => exact ⟨fun _ => trivial, fun _ => ⟨_, rfl⟩⟩
  | cons key keys ih =>
    rw [verifyLoop]
    cases hwrite : net.write w addr (getCommand key) with
    | error text =>
      have hwrite' : net.write w addr (encodeArray [.str (lit "GET"), .str key]) = .error text :=
        hwrite
      simp only [hwrite', Connected, hwrite]
      constructor
      · rintro ⟨conn, h⟩
        cases h
      · rintro ⟨answer, w', h, _⟩
        cases h
    | ok r =>
      obtain ⟨answer, w'⟩ := r
      have hwrite' : net.write w addr (encodeArray [.str (lit "GET"), .str key]) =
          .ok (answer, w') := hwrite
      obtain ⟨value, hparse⟩ := parse_answer ht hwrite
      simp only [hwrite', List.nil_append, hparse, ih w', Connected, hwrite]
      constructor
      · exact fun h => ⟨answer, w', rfl, h⟩
      · rintro ⟨answer, w', h, hrest⟩
        cases h
        exact hrest

/-- What the target holds makes no difference. -/
theorem verifyTransfer_eq_none_iff (ht : GetTarget net addr node now) (keys : List GoString)
    (w : ω) :
    (∃ w', verifyTransfer net addr w keys = .ok (none, w')) ↔
      ∃ w₁, net.dial w addr = .ok w₁ ∧ Connected net addr keys w₁ := by
  unfold verifyTransfer
  cases hdial : net.dial w addr with
  | error text =>
    constructor
    · rintro ⟨w', h⟩
      cases h
    · rintro ⟨w₁, h, _⟩
      cases h
  | ok w₁ =>
    simp only [Except.ok.injEq, exists_eq_left', ← verifyLoop_eq_none_iff ht]
    constructor
    · rintro ⟨w', h⟩
      obtain ⟨⟨err, conn⟩, hloop, hret⟩ := bind_eq_ok.mp h
      cases hret
      exact ⟨conn, hloop⟩
    · rintro ⟨conn, hloop⟩
      refine ⟨conn.world, ?_⟩
      rw [hloop]
      rfl

end Verify

/-- For every target and every list of keys: the verification returns nil exactly if the
    connection holds to the end, whatever the target has. So a nil tells that the target has
    a live entry for every key exactly if the connection fails before the end, so that it
    does not return nil, or the target has them anyway. -/
theorem verification_sound_iff {ω : Type} (net : Network ω) (addr : GoString)
    (node : ω → Server) (now : ω → Time) (ht : GetTarget net addr node now)
    (keys : List GoString) (w : ω) :
    ((∃ w', verifyTransfer net addr w keys = .ok (none, w')) ↔
      ∃ w₁, net.dial w addr = .ok w₁ ∧ Connected net addr keys w₁) ∧
    (((∃ w', verifyTransfer net addr w keys = .ok (none, w')) →
      ∃ w₁, net.dial w addr = .ok w₁ ∧ LiveWhenAsked net addr node now keys w₁) ↔
    (¬ ∃ w₁, net.dial w addr = .ok w₁ ∧ Connected net addr keys w₁) ∨
      ∃ w₁, net.dial w addr = .ok w₁ ∧ LiveWhenAsked net addr node now keys w₁) := by
  refine ⟨verifyTransfer_eq_none_iff ht keys w, ?_⟩
  rw [verifyTransfer_eq_none_iff ht, imp_iff_not_or]

/-- A network of one node with the given cache, which answers `GET` commands only. -/
def getNetwork (now : Time) : Network WfCache where
  dial c _ := .ok c
  write c _ cmd :=
    match parse cmd with
    | .ok (.arr [_, .str key]) _ => .ok (replyGet (c.get key now).1, (c.get key now).2)
    | _ => .error (ascii "connection reset by peer")

/-- The node of such a network. -/
def nodeOf (c : WfCache) : Server := { leaderOfTwo with cache := c.cache }

private theorem write_getNetwork (now : Time) (c : WfCache) (addr key : GoString) :
    (getNetwork now).write c addr (getCommand key) =
      .ok (replyGet (c.get key now).1, (c.get key now).2) := by
  have hlen : 16 * [Element.str (lit "GET"), .str key].length ≤ maxAlloc := by
    show 16 * 2 ≤ maxAlloc
    decide
  have hread := (frames_encodeArray ⟨_, hlen⟩).reads []
  rw [List.append_nil] at hread
  have hparse : parse (getCommand key) = .ok (.arr [.str (lit "GET"), .str key]) [] := hread
  simp only [getNetwork, hparse]

private theorem getTarget_getNetwork (now : Time) (addr : GoString) :
    GetTarget (getNetwork now) addr nodeOf fun _ => now where
  isWf c := ⟨c, rfl⟩
  get c key answer c' h := by
    rw [write_getNetwork] at h
    cases h
    exact handleGet_ask rfl key

/-- The target has the key: the result is right. -/
theorem verification_sound_iff_held :
    (∃ c', verifyTransfer (getNetwork 2) (lit "t:1")
        ((WfCache.new 2).set (lit "k") (lit "v") 0 1) [lit "k"] = .ok (none, c')) ∧
      ∃ c₁, (getNetwork 2).dial ((WfCache.new 2).set (lit "k") (lit "v") 0 1) (lit "t:1") =
        .ok c₁ ∧ LiveWhenAsked (getNetwork 2) (lit "t:1") nodeOf (fun _ => 2) [lit "k"] c₁ := by
  have hverify : ∃ c', verifyTransfer (getNetwork 2) (lit "t:1")
      ((WfCache.new 2).set (lit "k") (lit "v") 0 1) [lit "k"] = .ok (none, c') :=
    (verification_sound_iff _ _ _ _ (getTarget_getNetwork 2 _) _ _).1.mpr
      ⟨_, rfl, _, _, write_getNetwork .., trivial⟩
  refine ⟨hverify, (verification_sound_iff _ _ _ _ (getTarget_getNetwork 2 _) _ _).2.mpr
    (.inr ⟨_, rfl, ⟨⟨lit "v", 0⟩, ?_, rfl⟩, fun _ _ _ => trivial⟩) hverify⟩
  show find? (lit "k") ((WfCache.new 2).set (lit "k") (lit "v") 0 1).entries = _
  rw [WfCache.entries_set, find?_put_self]
  rfl

/-- The target has no key at all, and the verification ends without an error. -/
theorem verification_unsound :
    (∃ c', verifyTransfer (getNetwork 2) (lit "t:1") (.new 2) [lit "k"] = .ok (none, c')) ∧
      find? (lit "k") (nodeOf (.new 2)).cache.entries = none := by
  constructor
  · rw [verifyTransfer_eq_none_iff (getTarget_getNetwork 2 _)]
    exact ⟨_, rfl, _, _, write_getNetwork .., trivial⟩
  · show find? (lit "k") (WfCache.new 2).entries = none
    rw [WfCache.entries_new]
    rfl

end GoCache.Spec
