import GoCache.Native.Go

/-!
# Durations in whole seconds

`int64(d.Seconds())` goes through `float64`, which has 53 binary digits. The fraction of a
second is dropped as a rule. From 2^24 seconds on, which is half a year, the digits that
are left for it are so few that the last nanoseconds of a second are rounded up.

## Key results

- `truncate_secondsFloat_eq`: when the fraction is dropped
- `toInt_seconds`: the seconds of a duration that is not negative
- `seconds_mul_second`: whole seconds come back
-/

namespace GoCache.Spec

open GoCache.Native

theorem toInt_second : second.toInt = 1000000000 := by decide

section Float

variable {nanoseconds k : Nat}

/-- The fraction of a second as a `float64`. -/
private theorem rounds_fraction (nanoseconds : Nat) :
    Binary64.Rounds ((nanoseconds % 1000000000 : Nat) / 1000000000)
      ((Binary64.ofNat (nanoseconds % 1000000000)).div (.ofNat 1000000000)) := by
  have h := Binary64.rounds_div (.ofNat (nanoseconds % 1000000000))
    (y := .ofNat 1000000000) (by rw [Binary64.value_ofNat]; norm_num)
  rw [Binary64.value_ofNat, Binary64.value_ofNat] at h
  exact_mod_cast h

private theorem fraction_lt_one (nanoseconds : Nat) :
    ((nanoseconds % 1000000000 : Nat) : ℚ) / 1000000000 < 1 := by
  rw [div_lt_one (by norm_num)]
  exact_mod_cast Nat.mod_lt nanoseconds (by decide)

/-- The sum is rounded to a number between the whole seconds and the next. -/
theorem truncate_secondsFloat_mem (nanoseconds : Nat) :
    nanoseconds / 1000000000 ≤ (secondsFloat nanoseconds).truncate ∧
      (secondsFloat nanoseconds).truncate ≤ nanoseconds / 1000000000 + 1 := by
  have hfraction := rounds_fraction nanoseconds
  have hone := hfraction.value_le 1 (by exact_mod_cast (fraction_lt_one nanoseconds).le)
  have hsum := Binary64.rounds_add (.ofNat (nanoseconds / 1000000000))
    ((Binary64.ofNat (nanoseconds % 1000000000)).div (.ofNat 1000000000))
  rw [Binary64.value_ofNat] at hsum
  rw [Binary64.truncate_eq_floor]
  constructor
  · refine Nat.le_floor (hsum.le_value _ ?_)
    exact le_add_of_nonneg_right (Binary64.value_nonneg _)
  · refine Nat.floor_le_of_le (hsum.value_le _ ?_)
    push_cast at hone ⊢
    linarith

/-- The fraction is dropped if what is missing to the next second is more than the
    `float64` can be off. -/
theorem truncate_secondsFloat_eq (hk : nanoseconds / 1000000000 < 2 ^ k)
    (hgap : 1000000000 * (2 ^ k + 1) < (1000000000 - nanoseconds % 1000000000) * 2 ^ 54) :
    (secondsFloat nanoseconds).truncate = nanoseconds / 1000000000 := by
  have hnear := (rounds_fraction nanoseconds).near 0 (by simpa using fraction_lt_one nanoseconds)
  have hsum := Binary64.rounds_add (.ofNat (nanoseconds / 1000000000))
    ((Binary64.ofNat (nanoseconds % 1000000000)).div (.ofNat 1000000000))
  rw [Binary64.value_ofNat] at hsum
  have hgap : ((nanoseconds % 1000000000 : Nat) : ℚ) / 1000000000 + 1 / 2 ^ 54 + 2 ^ k / 2 ^ 54 <
      1 := by
    have hmod : nanoseconds % 1000000000 ≤ 1000000000 := (Nat.mod_lt _ (by decide)).le
    have hgap : (1000000000 : ℚ) * (2 ^ k + 1) <
        (1000000000 - (nanoseconds % 1000000000 : Nat)) * 2 ^ 54 := by
      rw [show (1000000000 : ℚ) = (1000000000 : Nat) by norm_num, ← Nat.cast_sub hmod]
      exact_mod_cast hgap
    linarith
  have hk : ((nanoseconds / 1000000000 : Nat) : ℚ) + 1 ≤ 2 ^ k := by exact_mod_cast hk
  have hpow : (0 : ℚ) < 2 ^ k / 2 ^ 54 := by positivity
  -- the fraction stays so far below one that rounding the sum does not get to the next second
  have hfraction := (abs_le.mp hnear).2
  have hrounded := (abs_le.mp (hsum.near k (by linarith))).2
  refine Nat.le_antisymm ?_ (truncate_secondsFloat_mem nanoseconds).1
  rw [Binary64.truncate_eq_floor]
  refine Nat.lt_succ_iff.mp ((Nat.floor_lt (Binary64.value_nonneg _)).mpr ?_)
  push_cast
  unfold secondsFloat
  linarith

/-- So it is below `2 ^ 24` seconds. -/
theorem truncate_secondsFloat_of_lt (h : nanoseconds < 2 ^ 24 * 1000000000) :
    (secondsFloat nanoseconds).truncate = nanoseconds / 1000000000 :=
  truncate_secondsFloat_eq (k := 24) (by omega) (by omega)

example : (secondsFloat 16777216999999999).truncate = 16777217 := by decide

/-- And for as long as a `time.Duration` can be, if the fraction is not in its last tenth. -/
theorem truncate_secondsFloat_of_mod_lt (h : nanoseconds ≤ 2 ^ 63)
    (hmod : nanoseconds % 1000000000 < 900000000) :
    (secondsFloat nanoseconds).truncate = nanoseconds / 1000000000 :=
  truncate_secondsFloat_eq (k := 34) (by omega) (by omega)

end Float

/-! ## Durations -/

section Durations

variable {d : Duration} {n : Int64}

/-- No more than a second is added, and never so that the seconds do not fit. -/
theorem truncate_secondsFloat_fits {nanoseconds : Nat} (h : nanoseconds ≤ 2 ^ 63) :
    (secondsFloat nanoseconds).truncate * 1000000000 < 2 ^ 63 := by
  have hle := (truncate_secondsFloat_mem nanoseconds).2
  by_cases hlast : nanoseconds / 1000000000 < 9223372036
  · omega
  · -- the largest duration is far from a whole number of seconds
    have := truncate_secondsFloat_of_mod_lt h (by omega)
    omega

/-- The seconds of a duration that is not negative. -/
theorem toInt_seconds (h : 0 ≤ d.toInt) :
    d.seconds.toInt = (secondsFloat d.toInt.toNat).truncate := by
  have hlt := Int64.toInt_lt d
  have hfits := truncate_secondsFloat_fits (show d.toInt.toNat ≤ 2 ^ 63 by omega)
  have habs : d.toInt.natAbs = d.toInt.toNat := by omega
  rcases h.eq_or_lt with hzero | hpos
  · rw [Duration.seconds, ← hzero]
    decide
  · rw [Duration.seconds, habs, Int.sign_eq_one_of_pos hpos, one_mul,
      Int64.toInt_ofInt_of_le (by omega) (by omega)]

theorem toInt_seconds_nonneg_fits (h : 0 ≤ d.toInt) :
    0 ≤ d.seconds.toInt ∧ d.seconds.toInt * 1000000000 < 2 ^ 63 := by
  have hlt := Int64.toInt_lt d
  have hfits := truncate_secondsFloat_fits (show d.toInt.toNat ≤ 2 ^ 63 by omega)
  rw [toInt_seconds h]
  omega

/-- A product that does not wrap. -/
theorem toInt_mul_second (hn : 0 ≤ n.toInt) (hfits : n.toInt * 1000000000 < 2 ^ 63) :
    (n * second).toInt = n.toInt * 1000000000 := by
  rw [Int64.toInt_mul, toInt_second, Int.bmod_eq_of_le] <;> omega

/-- Whole seconds come back. -/
theorem seconds_mul_second (hn : 0 ≤ n.toInt) (hfits : n.toInt * 1000000000 < 2 ^ 63) :
    Duration.seconds (n * second) = n := by
  have hnanos := toInt_mul_second hn hfits
  apply Int64.toInt_inj.mp
  rw [toInt_seconds (by omega), hnanos, truncate_secondsFloat_of_mod_lt (by omega) (by omega)]
  omega

/-- The seconds of a duration are some from the first second on. -/
theorem seconds_pos_iff (h : 0 ≤ d.toInt) : 0 < d.seconds.toInt ↔ 1000000000 ≤ d.toInt := by
  rw [toInt_seconds h]
  have hmem := truncate_secondsFloat_mem d.toInt.toNat
  by_cases hlt : d.toInt.toNat < 1000000000
  · rw [truncate_secondsFloat_of_lt (by omega)]
    omega
  · omega

end Durations

end GoCache.Spec
