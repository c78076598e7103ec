import GoCache.Spec.Migration

/-!
# Batched transfer

`TransferKeysBatch` cuts the list of keys into batches and sends one `SET` for each key.
If it returns nil, every key has been sent once, in order, and every command has been
answered `OK`, unless the sum in the ceiling division wraps: then it cuts no batch, sends
nothing and returns nil.

## Key results

- `transferLoop_sends`: what has been written when no key failed
- `transferKeysBatch64_eq`: in a range without overflow, the wrapping arithmetic is exact
- `batches_send_once_iff`: when everything is sent once
-/

namespace GoCache.Spec

open GoCache.Native

/-- The command that is sent for a key. -/
def setCommand (values : Finmap fun _ : GoString => GoString) (key : GoString) : Bytes :=
  encodeArray [.str (lit "SET"), .str key, .str (valueOf values key)]

/-- The network with a list of the commands written to it, and of the answers. -/
def recorded {ω : Type} (net : Network ω) : Network (ω × List (Bytes × Bytes)) where
  dial w addr := (net.dial w.1 addr).map fun w' => (w', w.2)
  write w addr cmd := (net.write w.1 addr cmd).map fun r => (r.1, r.2, w.2 ++ [(cmd, r.1)])

/-- Every command is answered with at most one value: nothing stands behind the first. -/
def AnswersOnce {ω : Type} (net : Network ω) (addr : GoString) : Prop :=
  ∀ w cmd answer w', net.write w addr cmd = .ok (answer, w') →
    ∀ v rest, parse answer = .ok v rest → rest = []

/-- The commands of the keys have been written, in order, and each of them has been
    answered `OK`. -/
structure Sent (values : Finmap fun _ : GoString => GoString) (keys : List GoString)
    (log : List (Bytes × Bytes)) : Prop where
  commands : log.map Prod.fst = keys.map (setCommand values)
  answers : ∀ e ∈ log, parse e.2 = .ok (.str (lit "OK")) []

/-- If no key fails, all are sent. -/
theorem transferLoop_sends {ω : Type} {net : Network ω} {addr : GoString}
    (hone : AnswersOnce net addr) {values : Finmap fun _ : GoString => GoString}
    {keys : List GoString} {failCount : Nat} {w : ω} {log : List (Bytes × Bytes)}
    {conn' : Connection (ω × List (Bytes × Bytes))}
    (h : transferLoop (recorded net) addr values keys failCount ⟨(w, log), []⟩ =
      .ok (failCount, conn')) :
    ∃ more, conn'.world.2 = log ++ more ∧ Sent values keys more := by
  induction keys generalizing w log with
  | nil =>
    cases h
    exact ⟨[], (List.append_nil log).symm, rfl, fun e he => absurd he List.not_mem_nil⟩
  | cons key keys ih =>
    obtain ⟨_, _, rest, hwrite, hparse, h⟩ := transferLoop_cons_complete h
    change (net.write w addr (setCommand values key)).map _ = _ at hwrite
    obtain ⟨⟨answer, w₁⟩, hanswer, heq⟩ := map_eq_ok.mp hwrite
    cases heq
    -- nothing is left unread, so the next command is answered on its own
    obtain rfl := hone w _ answer w₁ hanswer _ rest hparse
    obtain ⟨more, hlog, hsent⟩ := ih h
    refine ⟨(setCommand values key, answer) :: more, ?_, ?_, fun e he => ?_⟩
    · rw [hlog, List.append_assoc]
      rfl
    · rw [List.map_cons, List.map_cons, hsent.commands]
    · rcases List.mem_cons.mp he with rfl | he
      · exact hparse
      · exact hsent.answers e he

/-! ## Wrapping arithmetic -/

section Wrap

variable {keys : List GoString} {size : Nat}

/-- The sum of the ceiling division. -/
private theorem sum_eq (hsize : 0 < size) : Int64.ofNat keys.length + Int64.ofNat size - 1 =
    Int64.ofNat (keys.length + size - 1) := by
  rw [← Int64.ofNat_add, Int64.ofNat_sub _ _ (by omega)]
  rfl

/-- Without overflow the number of batches is the ceiling. -/
theorem numBatches_eq (hsize : 0 < size) (hsize' : size < 2 ^ 63)
    (hfits : keys.length + size - 1 < 2 ^ 63) :
    (numBatches (Int64.ofNat keys.length) (Int64.ofNat size)).toInt.toNat =
      (keys.length + size - 1) / size := by
  have hlt : (keys.length + size - 1) / size < 2 ^ 63 :=
    lt_of_le_of_lt (Nat.div_le_self _ _) hfits
  rw [numBatches, sum_eq hsize, ← Int64.ofNat_div hfits hsize', Int64.toInt_ofNat_of_lt hlt]
  rfl

private theorem toInt_ofNat_of_wraps {n : Nat} (hle : 2 ^ 63 ≤ n) (hlt : n < 2 ^ 64) :
    (Int64.ofNat n).toInt = (n : Int) - 2 ^ 64 := by
  rw [Int64.toInt_ofNat']
  simp only [Int.bmod, Int64.size]
  split <;> omega

/-- With overflow it is not positive. -/
theorem numBatches_of_wraps (hsize : 0 < size) (hsize' : size < 2 ^ 63)
    (hlen : keys.length < 2 ^ 63) (hwraps : ¬ keys.length + size - 1 < 2 ^ 63) :
    (numBatches (Int64.ofNat keys.length) (Int64.ofNat size)).toInt.toNat = 0 := by
  have hne : Int64.ofNat size ≠ -1 := by
    intro h
    have htoInt := congrArg Int64.toInt h
    rw [Int64.toInt_ofNat_of_lt hsize'] at htoInt
    have hminus : ((-1 : Int64)).toInt = -1 := by decide
    omega
  rw [numBatches, sum_eq hsize, Int64.toInt_div_of_ne_right _ _ hne,
    toInt_ofNat_of_wraps (by omega) (by omega), Int64.toInt_ofNat_of_lt hsize']
  have hquot : (((keys.length + size - 1 : Nat) : Int) - 2 ^ 64).tdiv size ≤ 0 := by
    have hpos : (0 : Int) ≤ (-(((keys.length + size - 1 : Nat) : Int) - 2 ^ 64)).tdiv size :=
      Int.tdiv_nonneg (by omega) (by omega)
    rw [Int.neg_tdiv] at hpos
    omega
  omega

/-- Without overflow the slices are those of the batches. -/
theorem batchKeys64_eq (hsize' : size < 2 ^ 63) (hlen : keys.length < 2 ^ 63)
    (hfits : keys.length + size - 1 < 2 ^ 63) {i : Nat} (hstart : i * size < keys.length) :
    batchKeys64 keys (Int64.ofNat size) (Int64.ofNat i) = batchKeys keys size i := by
  have hstop : i * size + size < 2 ^ 63 := by omega
  unfold batchKeys64
  dsimp only
  rw [← Int64.ofNat_mul, ← Int64.ofNat_add]
  have hlt : (Int64.ofNat keys.length < Int64.ofNat (i * size + size)) ↔
      keys.length < i * size + size := by
    rw [Int64.lt_iff_toInt_lt, Int64.toInt_ofNat_of_lt hlen, Int64.toInt_ofNat_of_lt hstop]
    omega
  have hnonneg : ∀ n : Nat, n < 2 ^ 63 → ¬ Int64.ofNat n < 0 := by
    intro n hn
    rw [Int64.lt_iff_toInt_lt, Int64.toInt_ofNat_of_lt hn, Int64.toInt_zero]
    omega
  have hstop' : (if Int64.ofNat keys.length < Int64.ofNat (i * size + size) then
      Int64.ofNat keys.length else Int64.ofNat (i * size + size)) = Int64.ofNat
        (if keys.length < i * size + size then keys.length else i * size + size) := by
    simp only [hlt]
    split <;> rfl
  have hbound : (if keys.length < i * size + size then keys.length else i * size + size) <
      2 ^ 63 := by
    split <;> omega
  rw [hstop', if_neg (not_or.mpr ⟨hnonneg _ (by omega), hnonneg _ hbound⟩),
    Int64.toInt_ofNat_of_lt (by omega), Int64.toInt_ofNat_of_lt hbound]
  rfl

variable {ω : Type} (net : Network ω) (addr : GoString)
  (values : Finmap fun _ : GoString => GoString)

/-- The loop takes the keys of its own batches only. -/
private theorem batchLoop_congr {keysOf keysOf' : Nat → Except Panic (List GoString)}
    {batches i : Nat} (conn : Connection ω)
    (h : ∀ j, j < batches → keysOf (i + j) = keysOf' (i + j)) :
    batchLoop net addr keysOf values batches i conn =
      batchLoop net addr keysOf' values batches i conn := by
  induction batches generalizing i conn with
  | zero => rfl
  | succ batches ih =>
    have hlater : ∀ j, j < batches → keysOf (i + 1 + j) = keysOf' (i + 1 + j) := by
      intro j hj
      rw [Nat.add_assoc, Nat.add_comm 1]
      exact h (j + 1) (by omega)
    rw [batchLoop, batchLoop, show keysOf i = keysOf' i from h 0 (by omega)]
    simp only [ih _ hlater]

/-- Without overflow the wrapping arithmetic makes no difference. -/
theorem transferKeysBatch64_eq (hsize : 0 < size) (hsize' : size < 2 ^ 63)
    (hlen : keys.length < 2 ^ 63) (hfits : keys.length + size - 1 < 2 ^ 63) (w : ω) :
    transferKeysBatch64 net addr w keys values (Int64.ofNat size) =
      transferKeysBatch net addr w keys values size := by
  unfold transferKeysBatch64 transferKeysBatch transferBatches
  rw [numBatches_eq hsize hsize' hfits]
  cases net.dial w addr with
  | error text => rfl
  | ok w₁ =>
    dsimp only
    rw [batchLoop_congr net addr values ⟨w₁, []⟩ fun j hj => ?_]
    rw [Nat.zero_add]
    exact batchKeys64_eq hsize' hlen hfits (batch_start_lt hj)

end Wrap

/-! ## Everything once -/

/-- A slice of keys: as long as one allocation holds, at the 16 bytes a string takes. -/
structure KeySlice where
  keys : List GoString
  length_le : 16 * keys.length ≤ maxAlloc

/-- The slices that `TransferKeysBatch` cuts. -/
def batchSlices (keys : List GoString) (batchSize : Int64) : Except Panic (List (List GoString)) :=
  (List.range (numBatches (Int64.ofNat keys.length) batchSize).toInt.toNat).mapM fun i =>
    batchKeys64 keys batchSize (Int64.ofNat i)

private theorem mapM_batchKeys64 {keys : List GoString} {size : Nat} (hsize' : size < 2 ^ 63)
    (hlen : keys.length < 2 ^ 63) (hfits : keys.length + size - 1 < 2 ^ 63) (batches i : Nat)
    (hlast : BatchesStart keys.length size i batches)
    (hend : keys.length ≤ (i + batches) * size) :
    ∃ slices, ((List.range' i batches).mapM fun i =>
        batchKeys64 keys (Int64.ofNat size) (Int64.ofNat i)) = .ok slices ∧
      slices.flatten = keys.drop (i * size) := by
  induction batches generalizing i with
  | zero =>
    refine ⟨[], rfl, ?_⟩
    rw [List.drop_eq_nil_of_le (by simpa using hend), List.flatten_nil]
  | succ batches ih =>
    obtain ⟨batch, hsliced, hsplit⟩ := sliced_batch hlast.first
    obtain ⟨slices, hrest, hflatten⟩ :=
      ih (i + 1) hlast.next (by rwa [Nat.add_assoc, Nat.add_comm 1])
    refine ⟨batch :: slices, ?_, by rw [List.flatten_cons, hflatten, hsplit]⟩
    rw [List.range'_succ, List.mapM_cons, batchKeys64_eq hsize' hlen hfits hlast.first, batchKeys,
      hsliced, hrest]
    rfl

/-- For every slice of keys, every map of values and every positive batch size: the batches
    are in bounds and make up the list, and a result of nil means that everything was sent
    once and accepted, exactly if the sum of the ceiling division does not overflow. -/
theorem batches_send_once_iff (slice : KeySlice) (values : Finmap fun _ : GoString => GoString)
    (batchSize : Int64) (hpos : 0 < batchSize.toInt) :
    ((∃ slices, batchSlices slice.keys batchSize = .ok slices ∧ slices.flatten = slice.keys) ∧
      ∀ (ω : Type) (net : Network ω) (addr : GoString) (w w' : ω) (log : List (Bytes × Bytes)),
        AnswersOnce net addr →
        transferKeysBatch64 (recorded net) addr (w, []) slice.keys values batchSize =
          .ok (none, w', log) →
        Sent values slice.keys log) ↔
    slice.keys.length + batchSize.toInt - 1 < 2 ^ 63 := by
  obtain ⟨keys, hslice⟩ := slice
  have hmax : maxAlloc < 2 ^ 63 := by decide
  have hlen : keys.length < 2 ^ 63 := by omega
  -- the batch size as a natural number
  obtain ⟨size, hsize', rfl⟩ : ∃ size : Nat, size < 2 ^ 63 ∧ batchSize = Int64.ofNat size := by
    have hlt := Int64.toInt_lt batchSize
    refine ⟨batchSize.toInt.toNat, by omega, ?_⟩
    rw [← Int64.ofInt_eq_ofNat, Int.toNat_of_nonneg (by omega), Int64.ofInt_toInt]
  rw [Int64.toInt_ofNat_of_lt hsize'] at hpos ⊢
  have hsize : 0 < size := by omega
  dsimp only
  constructor
  · rintro ⟨⟨slices, hslices, hflatten⟩, _⟩
    by_contra hwraps
    -- no batch is cut, but there are keys
    rw [batchSlices, numBatches_of_wraps hsize hsize' hlen (by omega)] at hslices
    cases hslices
    have hnone : keys.length = 0 := by
      rw [← hflatten]
      rfl
    omega
  · intro hfits
    have hfits : keys.length + size - 1 < 2 ^ 63 := by omega
    have hend : keys.length ≤ (0 + (keys.length + size - 1) / size) * size := by
      rw [Nat.zero_add]
      exact batch_end_le keys.length hsize
    constructor
    · rw [batchSlices, numBatches_eq hsize hsize' hfits, List.range_eq_range']
      have hslices := mapM_batchKeys64 hsize' hlen hfits _ 0 (batchesStart _ _) hend
      rwa [Nat.zero_mul, List.drop_zero] at hslices
    · intro ω net addr w w' log hone h
      rw [transferKeysBatch64_eq _ _ _ hsize hsize' hlen hfits] at h
      obtain ⟨⟨w₁, log₁⟩, conn', hdial, hloop, hworld⟩ := (transferKeysBatch_eq_none hsize).mp h
      change (net.dial w addr).map _ = _ at hdial
      obtain ⟨w₂, -, heq⟩ := map_eq_ok.mp hdial
      cases heq
      obtain ⟨more, hlog, hsent⟩ := transferLoop_sends hone hloop
      rw [hworld] at hlog
      obtain rfl : log = more := hlog
      exact hsent

/-- A target that answers every command with `OK`. -/
def okNetwork : Network Unit where
  dial _ _ := .ok ()
  write _ _ _ := .ok (encodeSimpleString (ascii "OK"), ())

private theorem answersOnce_okNetwork (addr : GoString) : AnswersOnce okNetwork addr := by
  intro w cmd answer w' h v rest hparse
  cases h
  cases hparse
  rfl

/-- Three keys in batches of two. -/
theorem batches_send_once_iff_three :
    ∃ log, transferKeysBatch64 (recorded okNetwork) (lit "t:1") ((), [])
        [lit "a", lit "b", lit "c"] ∅ 2 = .ok (none, (), log) ∧
      Sent ∅ [lit "a", lit "b", lit "c"] log := by
  have hrun : ∃ log, transferKeysBatch64 (recorded okNetwork) (lit "t:1") ((), [])
      [lit "a", lit "b", lit "c"] ∅ 2 = .ok (none, (), log) := ⟨_, rfl⟩
  obtain ⟨log, hrun⟩ := hrun
  exact ⟨log, hrun, ((batches_send_once_iff ⟨[lit "a", lit "b", lit "c"], by decide⟩ ∅ 2
    (by decide)).mpr (by decide)).2 Unit okNetwork _ _ _ _ (answersOnce_okNetwork _) hrun⟩

/-- Two keys in batches of 2^63 - 1: the sum wraps, nothing is sent, and the result is nil. -/
theorem batches_send_nothing :
    batchSlices [lit "a", lit "b"] 9223372036854775807 = .ok [] ∧
    transferKeysBatch64 (recorded okNetwork) (lit "t:1") ((), []) [lit "a", lit "b"] ∅
      9223372036854775807 = .ok (none, (), []) := by
  decide +kernel

end GoCache.Spec
