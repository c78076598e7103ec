import Mathlib

/-!
# Decimal notation in bytes

Integers in decimal, as ASCII bytes: what is written for an integer, and the
integers that are read back, with an optional sign and leading zeros.

## Key results

- `parseInt?_formatInt`: reading undoes writing
- `formatInt_range`: only digits and the minus sign are written
-/

namespace Decimal

/-- The decimal digits of a natural number. -/
def formatNat (n : Nat) : List UInt8 := (Nat.toDigits 10 n).map fun c => c.toNat.toUInt8

/-- An integer in decimal, with a minus sign if it is negative. -/
def formatInt : Int → List UInt8
  | .ofNat n => formatNat n
  | .negSucc n => 45 :: formatNat (n + 1)

/-- The value of a sequence of digits, behind digits of value `acc`. -/
def digitsValue (acc : Nat) : List UInt8 → Option Nat
  | [] => some acc
  | b :: bs =>
    if 48 ≤ b ∧ b ≤ 57 then digitsValue (10 * acc + (b.toNat - 48)) bs else none

/-- The value of a nonempty sequence of digits. -/
def parseNat? : List UInt8 → Option Nat
  | [] => none
  | bs => digitsValue 0 bs

/-- The value of a nonempty sequence of digits behind an optional sign. -/
def parseInt? : List UInt8 → Option Int
  | 45 :: bs => (parseNat? bs).map fun n => -n
  | 43 :: bs => (parseNat? bs).map fun n => n
  | bs => (parseNat? bs).map fun n => n

/-! ## Digits -/

private theorem toNat_of_isDigit {c : Char} (hc : c.isDigit = true) :
    48 ≤ c.toNat ∧ c.toNat ≤ 57 := by
  simp only [Char.isDigit, Bool.and_eq_true, decide_eq_true_eq] at hc
  obtain ⟨hlo, hhi⟩ := hc
  exact ⟨UInt32.le_iff_toNat_le.mp hlo, UInt32.le_iff_toNat_le.mp hhi⟩

private theorem toNat_toUInt8_of_isDigit {c : Char} (hc : c.isDigit = true) :
    c.toNat.toUInt8.toNat = c.toNat := by
  have := toNat_of_isDigit hc
  rw [Nat.toUInt8_eq, UInt8.toNat_ofNat']
  omega

private theorem digitsValue_map (acc : Nat) {cs : List Char} (hcs : ∀ c ∈ cs, c.isDigit = true) :
    digitsValue acc (cs.map fun c => c.toNat.toUInt8) = some (Nat.ofDigitChars 10 cs acc) := by
  induction cs generalizing acc with
  | nil => rfl
  | cons c cs ih =>
    have hc := hcs c List.mem_cons_self
    have hdigit := toNat_of_isDigit hc
    have hbyte : 48 ≤ c.toNat.toUInt8 ∧ c.toNat.toUInt8 ≤ 57 := by
      rw [UInt8.le_iff_toNat_le, UInt8.le_iff_toNat_le, toNat_toUInt8_of_isDigit hc]
      exact hdigit
    have htail : ∀ c ∈ cs, c.isDigit = true := fun c hc => hcs c (List.mem_cons_of_mem _ hc)
    rw [List.map_cons, digitsValue, if_pos hbyte, ih _ htail, Nat.ofDigitChars_cons,
      toNat_toUInt8_of_isDigit hc]
    rfl

/-- Only digits are written for a natural number. -/
theorem formatNat_range {n : Nat} {b : UInt8} (hb : b ∈ formatNat n) : 48 ≤ b ∧ b ≤ 57 := by
  obtain ⟨c, hc, rfl⟩ := List.mem_map.mp hb
  have hdigit := Nat.isDigit_of_mem_toDigits (by decide) (by decide) hc
  rw [UInt8.le_iff_toNat_le, UInt8.le_iff_toNat_le, toNat_toUInt8_of_isDigit hdigit]
  exact toNat_of_isDigit hdigit

theorem formatNat_ne_nil (n : Nat) : formatNat n ≠ [] := by
  rw [formatNat, Ne, List.map_eq_nil_iff]
  exact Nat.toDigits_ne_nil

theorem parseNat?_formatNat (n : Nat) : parseNat? (formatNat n) = some n := by
  have hdigits : ∀ c ∈ Nat.toDigits 10 n, c.isDigit = true :=
    fun c hc => Nat.isDigit_of_mem_toDigits (by decide) (by decide) hc
  have hvalue : digitsValue 0 (formatNat n) = some n := by
    rw [formatNat, digitsValue_map 0 hdigits, Nat.ofDigitChars_ten_toDigits]
  cases hn : formatNat n with
  | nil => exact absurd hn (formatNat_ne_nil n)
  | cons b bs => rwa [hn] at hvalue

private theorem digitsValue_range {acc n : Nat} {bs : List UInt8}
    (h : digitsValue acc bs = some n) : ∀ b ∈ bs, 48 ≤ b ∧ b ≤ 57 := by
  induction bs generalizing acc with
  | nil => simp
  | cons c bs ih =>
    rw [digitsValue] at h
    split at h
    · next hc =>
      intro b hb
      rcases List.mem_cons.mp hb with rfl | hb
      · exact hc
      · exact ih h b hb
    · exact nomatch h

/-- Only a nonempty sequence of digits has a value. -/
theorem parseNat?_range {n : Nat} {bs : List UInt8} (h : parseNat? bs = some n) :
    bs ≠ [] ∧ ∀ b ∈ bs, 48 ≤ b ∧ b ≤ 57 := by
  cases bs with
  | nil => exact nomatch h
  | cons c bs => exact ⟨List.cons_ne_nil c bs, digitsValue_range h⟩

/-! ## Integers -/

/-- Only digits and the minus sign are written for an integer. -/
theorem formatInt_range {n : Int} {b : UInt8} (hb : b ∈ formatInt n) : 45 ≤ b ∧ b ≤ 57 := by
  have hdigit : ∀ m, b ∈ formatNat m → 45 ≤ b ∧ b ≤ 57 := fun m hm =>
    ⟨UInt8.le_trans (by decide) (formatNat_range hm).1, (formatNat_range hm).2⟩
  cases n with
  | ofNat m => exact hdigit m hb
  | negSucc m =>
    cases List.mem_cons.mp hb with
    | inl heq =>
      subst heq
      decide
    | inr hmem => exact hdigit _ hmem

/-- Only digits behind a sign, or without one, are read as an integer. -/
theorem parseInt?_range {n : Int} {bs : List UInt8} (h : parseInt? bs = some n) :
    bs ≠ [] ∧ ∀ b ∈ bs, 43 ≤ b ∧ b ≤ 57 := by
  have hdigits : ∀ ds : List UInt8, parseNat? ds ≠ none →
      ds ≠ [] ∧ ∀ b ∈ ds, 43 ≤ b ∧ b ≤ 57 := by
    intro ds hds
    obtain ⟨m, hm⟩ := Option.ne_none_iff_exists'.mp hds
    obtain ⟨hne, hrange⟩ := parseNat?_range hm
    exact ⟨hne, fun b hb => ⟨UInt8.le_trans (by decide) (hrange b hb).1, (hrange b hb).2⟩⟩
  have hsign : ∀ (c : UInt8) (ds : List UInt8), 43 ≤ c ∧ c ≤ 57 → parseNat? ds ≠ none →
      c :: ds ≠ [] ∧ ∀ b ∈ c :: ds, 43 ≤ b ∧ b ≤ 57 := by
    intro c ds hc hds
    refine ⟨List.cons_ne_nil _ _, fun b hb => ?_⟩
    rcases List.mem_cons.mp hb with rfl | hb
    · exact hc
    · exact (hdigits ds hds).2 b hb
  unfold parseInt? at h
  split at h
  · exact hsign 45 _ (by decide) fun hnone => by simp [hnone] at h
  · exact hsign 43 _ (by decide) fun hnone => by simp [hnone] at h
  · exact hdigits _ fun hnone => by simp [hnone] at h

/-- An integer below `10 ^ k` has at most `k` digits and a sign. -/
theorem length_formatInt_le {n : Int} {k : Nat} (hk : 0 < k) (hn : n.natAbs < 10 ^ k) :
    (formatInt n).length ≤ k + 1 := by
  have hdigits : ∀ m, m < 10 ^ k → (formatNat m).length ≤ k := by
    intro m hm
    rw [formatNat, List.length_map]
    exact (Nat.length_toDigits_le_iff (by decide) hk).mpr hm
  cases n with
  | ofNat m => exact Nat.le_succ_of_le (hdigits m hn)
  | negSucc m => exact Nat.succ_le_succ (hdigits (m + 1) hn)

/-- Reading undoes writing. -/
theorem parseInt?_formatInt (n : Int) : parseInt? (formatInt n) = some n := by
  cases n with
  | negSucc m =>
    rw [formatInt, parseInt?, parseNat?_formatNat]
    rfl
  | ofNat m =>
    rw [formatInt]
    -- the first byte is a digit, so it is not taken for a sign
    cases hm : formatNat m with
    | nil => exact absurd hm (formatNat_ne_nil m)
    | cons b bs =>
      have hb := (formatNat_range (n := m) (b := b) (by rw [hm]; exact List.mem_cons_self)).1
      have hvalue := parseNat?_formatNat m
      rw [hm] at hvalue
      unfold parseInt?
      split
      · exact absurd hb (by simp_all)
      · exact absurd hb (by simp_all)
      · rw [hvalue]
        rfl

end Decimal
