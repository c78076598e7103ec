import Mathlib

/-!
# Arithmetic in `binary64`

The `binary64` format of IEEE 754 has 53 significant binary digits, and the result of an
operation is the number of the format nearest to the exact one. This is the part of it
between the smallest normal number and `2 ^ 53`, without signs: there every number is a
whole number of `2 ^ -scale`s.

## Key results

- `rounds_round`: rounding does not cross a whole number, and how far off it is
- `value_ofNat`, `rounds_add`, `rounds_div`: the operations
-/

/-- The number `mantissa / 2 ^ scale`. -/
structure Binary64 where
  mantissa : Nat
  scale : Nat
  deriving DecidableEq

namespace Binary64

/-- The whole number nearest to `a / b`, and the even one of two. -/
def nearest (a b : Nat) : Nat :=
  if 2 * (a % b) < b ∨ 2 * (a % b) = b ∧ a / b % 2 = 0 then a / b else a / b + 1

/-- The number of binary digits behind the point with which `a / b` has 53 in all. -/
def places (a b : Nat) : Nat :=
  let s := 52 + b.log2 - a.log2
  if 2 ^ 52 * b ≤ a * 2 ^ s then s else s + 1

/-- The number nearest to `a / b`. -/
def round (a b : Nat) : Binary64 :=
  if a = 0 then ⟨0, 0⟩ else ⟨nearest (a * 2 ^ places a b) b, places a b⟩

/-- The conversion of a whole number. -/
def ofNat (n : Nat) : Binary64 := round n 1

/-- The sum. -/
def add (x y : Binary64) : Binary64 :=
  round (x.mantissa * 2 ^ y.scale + y.mantissa * 2 ^ x.scale) (2 ^ (x.scale + y.scale))

/-- The quotient. -/
def div (x y : Binary64) : Binary64 :=
  round (x.mantissa * 2 ^ y.scale) (y.mantissa * 2 ^ x.scale)

/-- The conversion to a whole number, which drops the fraction. -/
def truncate (x : Binary64) : Nat := x.mantissa / 2 ^ x.scale

/-- The rational number that is meant. -/
def value (x : Binary64) : ℚ := x.mantissa / 2 ^ x.scale

/-! ## Rounding -/

section Nearest

variable {a b n : Nat}

theorem le_nearest (hb : 0 < b) (h : n * b ≤ a) : n ≤ nearest a b := by
  have hdiv : n ≤ a / b := (Nat.le_div_iff_mul_le hb).mpr h
  unfold nearest
  split <;> omega

theorem nearest_le (hb : 0 < b) (h : a ≤ n * b) : nearest a b ≤ n := by
  rcases Nat.eq_or_lt_of_le h with rfl | hlt
  · rw [nearest, Nat.mul_mod_left, Nat.mul_div_cancel _ hb, if_pos (.inl hb)]
  · have hdiv : a / b < n := (Nat.div_lt_iff_lt_mul hb).mpr hlt
    unfold nearest
    split <;> omega

/-- The nearest whole number is at most a half away. -/
theorem two_mul_nearest (hb : 0 < b) :
    2 * (b * nearest a b) ≤ 2 * a + b ∧ 2 * a ≤ 2 * (b * nearest a b) + b := by
  have hdiv := Nat.div_add_mod a b
  have hmod := Nat.mod_lt a hb
  unfold nearest
  split
  · omega
  · rw [Nat.mul_add]
    omega

end Nearest

section Round

variable {a b k n : Nat}

/-- A number below `2 ^ k` has `53 - k` digits behind the point. -/
theorem le_places (ha : a ≠ 0) (h : a < 2 ^ k * b) : 53 ≤ places a b + k := by
  have hlog : a.log2 ≤ k + b.log2 := by
    have hlt : a < 2 ^ (k + b.log2 + 1) := calc
      a < 2 ^ k * b := h
      _ < 2 ^ k * 2 ^ (b.log2 + 1) := by gcongr; exact Nat.lt_log2_self
      _ = 2 ^ (k + b.log2 + 1) := by ring
    have := (Nat.log2_lt ha).mpr hlt
    omega
  unfold places
  dsimp only
  split
  · next hfits =>
    -- `2 ^ 52 * b ≤ a * 2 ^ s < 2 ^ (k + s) * b`
    have hlt : 2 ^ 52 * b < 2 ^ (k + (52 + b.log2 - a.log2)) * b := calc
      2 ^ 52 * b ≤ a * 2 ^ (52 + b.log2 - a.log2) := hfits
      _ < 2 ^ k * b * 2 ^ (52 + b.log2 - a.log2) := by gcongr
      _ = 2 ^ (k + (52 + b.log2 - a.log2)) * b := by ring
    have := (Nat.pow_lt_pow_iff_right (by decide)).mp (Nat.lt_of_mul_lt_mul_right hlt)
    omega
  · omega

theorem le_value_round (hb : 0 < b) (h : (n : ℚ) ≤ a / b) : (n : ℚ) ≤ (round a b).value := by
  have hmul : n * b ≤ a := by
    rw [le_div_iff₀ (by positivity)] at h
    exact_mod_cast h
  unfold round value
  split
  · next ha =>
    have hn : n = 0 := (Nat.mul_eq_zero.mp (by omega)).resolve_right hb.ne'
    simp [hn]
  · have hnearest : n * 2 ^ places a b ≤ nearest (a * 2 ^ places a b) b := by
      refine le_nearest hb ?_
      calc n * 2 ^ places a b * b = n * b * 2 ^ places a b := by ring
        _ ≤ a * 2 ^ places a b := by gcongr
    rw [le_div_iff₀ (by positivity)]
    exact_mod_cast hnearest

theorem value_round_le (hb : 0 < b) (h : (a : ℚ) / b ≤ n) : (round a b).value ≤ n := by
  have hmul : a ≤ n * b := by
    rw [div_le_iff₀ (by positivity)] at h
    exact_mod_cast h
  unfold round value
  split
  · simp
  · have hnearest : nearest (a * 2 ^ places a b) b ≤ n * 2 ^ places a b := by
      refine nearest_le hb ?_
      calc a * 2 ^ places a b ≤ n * b * 2 ^ places a b := by gcongr
        _ = n * 2 ^ places a b * b := by ring
    rw [div_le_iff₀ (by positivity)]
    exact_mod_cast hnearest

/-- A multiple of `2 ^ -s` that is nearest to `a / b`. -/
theorem abs_nearest_sub_le (hb : 0 < b) (s : Nat) :
    |(nearest (a * 2 ^ s) b : ℚ) / 2 ^ s - a / b| ≤ 1 / (2 * 2 ^ s) := by
  obtain ⟨hle, hge⟩ := two_mul_nearest (a := a * 2 ^ s) hb
  generalize nearest (a * 2 ^ s) b = m at hle hge ⊢
  have hle : 2 * ((b : ℚ) * m) ≤ 2 * (a * 2 ^ s) + b := by exact_mod_cast hle
  have hge : 2 * ((a : ℚ) * 2 ^ s) ≤ 2 * (b * m) + b := by exact_mod_cast hge
  have hb : (0 : ℚ) < b := by exact_mod_cast hb
  have habs : |(b : ℚ) * m - a * 2 ^ s| ≤ b / 2 := abs_le.mpr ⟨by linarith, by linarith⟩
  have heq : (m : ℚ) / 2 ^ s - a / b = (b * m - a * 2 ^ s) / (b * 2 ^ s) := by
    field_simp
  rw [heq, abs_div, abs_of_pos (show (0 : ℚ) < b * 2 ^ s by positivity),
    div_le_div_iff₀ (by positivity) (by positivity)]
  calc |(b : ℚ) * m - a * 2 ^ s| * (2 * 2 ^ s) ≤ b / 2 * (2 * 2 ^ s) := by gcongr
    _ = 1 * (b * 2 ^ s) := by ring

theorem abs_value_round_sub_le (hb : 0 < b) (h : (a : ℚ) / b < 2 ^ k) :
    |(round a b).value - a / b| ≤ 2 ^ k / 2 ^ 54 := by
  have hmul : a < 2 ^ k * b := by
    rw [div_lt_iff₀ (by positivity)] at h
    exact_mod_cast h
  unfold round value
  split
  · next ha =>
    rw [ha]
    simp only [Nat.cast_zero, zero_div, sub_zero, abs_zero]
    positivity
  · next ha =>
    have hplaces := le_places ha hmul
    refine (abs_nearest_sub_le hb _).trans ?_
    rw [div_le_div_iff₀ (by positivity) (by positivity)]
    calc (1 : ℚ) * 2 ^ 54 ≤ 1 * 2 ^ (k + places a b + 1) := by
          gcongr
          · norm_num
          · omega
      _ = 2 ^ k * (2 * 2 ^ places a b) := by ring

end Round

/-! ## Operations -/

/-- What a proof needs to know about the rounding of a number: it does not cross a whole
    number, and below `2 ^ k` it is off by at most `2 ^ (k - 54)`. -/
structure Rounds (q : ℚ) (x : Binary64) : Prop where
  le_value : ∀ n : Nat, (n : ℚ) ≤ q → (n : ℚ) ≤ x.value
  value_le : ∀ n : Nat, q ≤ n → x.value ≤ n
  near : ∀ k : Nat, q < 2 ^ k → |x.value - q| ≤ 2 ^ k / 2 ^ 54

theorem rounds_round {q : ℚ} {a b : Nat} (hb : 0 < b) (hq : (a : ℚ) / b = q) :
    Rounds q (round a b) := by
  subst hq
  exact ⟨fun _ => le_value_round hb, fun _ => value_round_le hb, fun _ =>
    abs_value_round_sub_le hb⟩

theorem value_nonneg (x : Binary64) : 0 ≤ x.value := by
  unfold value
  positivity

theorem truncate_eq_floor (x : Binary64) : x.truncate = ⌊x.value⌋₊ := by
  rw [truncate, value, ← Nat.floor_div_eq_div (K := ℚ)]
  push_cast
  rfl

theorem value_ofNat (n : Nat) : (ofNat n).value = n := by
  have h : Rounds n (ofNat n) := rounds_round Nat.one_pos (by simp)
  exact le_antisymm (h.value_le n le_rfl) (h.le_value n le_rfl)

theorem rounds_add (x y : Binary64) : Rounds (x.value + y.value) (x.add y) := by
  refine rounds_round (by positivity) ?_
  unfold value
  push_cast
  field_simp
  ring

theorem rounds_div (x : Binary64) {y : Binary64} (hy : 0 < y.value) :
    Rounds (x.value / y.value) (x.div y) := by
  have hpos : 0 < y.mantissa := by
    by_contra hzero
    rw [value, Nat.eq_zero_of_not_pos hzero] at hy
    simp at hy
  refine rounds_round (by positivity) ?_
  unfold value
  push_cast
  field_simp

end Binary64
