import Mathlib.Order.Lattice

/-!
# Binary search

The first index from which on a predicate holds, by halving an interval.

## Key results

- `search_le`, `search_iff`: what the search returns for a predicate
  that stays true once it is
- `lowerBound_iff`: the search in a sorted list
-/

namespace BinarySearch

/-- The search in the interval from `i` to `j`, for at most the given number of
    steps. -/
def loop (f : Nat → Bool) : Nat → Nat → Nat → Nat
  | 0, i, _ => i
  | fuel + 1, i, j =>
    if i < j then
      if f ((i + j) / 2) then loop f fuel i ((i + j) / 2) else loop f fuel ((i + j) / 2 + 1) j
    else i

/-- The first index below `n` at which `f` is true, or `n`. -/
def search (n : Nat) (f : Nat → Bool) : Nat := loop f n 0 n

/-- The predicate stays true below `n` once it is. -/
def StaysTrue (n : Nat) (f : Nat → Bool) : Prop :=
  ∀ a b, a ≤ b → b < n → f a = true → f b = true

section Search

variable {n : Nat} {f : Nat → Bool}

/-- An index below which `f` is false and from which on it is true. -/
private theorem boundary {i : Nat} (hi : i ≤ n) (hbelow : ∀ k, k < i → f k = false)
    (habove : ∀ k, i ≤ k → k < n → f k = true) :
    i ≤ n ∧ ∀ k, k < n → (f k = true ↔ i ≤ k) := by
  refine ⟨hi, fun k hk => ⟨fun htrue => ?_, fun hik => habove k hik hk⟩⟩
  by_contra hlt
  have hfalse := hbelow k (by omega)
  rw [htrue] at hfalse
  exact nomatch hfalse

/-- The invariant of the loop: below the interval `f` is false, above it `f` is
    true. The interval shrinks with every step, so the fuel does not run out. -/
private theorem loop_spec (hf : StaysTrue n f) {fuel i j : Nat} (hfuel : j ≤ i + fuel) (hij : i ≤ j)
    (hj : j ≤ n) (hbelow : ∀ k, k < i → f k = false)
    (habove : ∀ k, j ≤ k → k < n → f k = true) :
    loop f fuel i j ≤ n ∧ ∀ k, k < n → (f k = true ↔ loop f fuel i j ≤ k) := by
  induction fuel generalizing i j with
  | zero =>
    obtain rfl : i = j := by omega
    exact boundary hj hbelow habove
  | succ fuel ih =>
    rw [loop]
    by_cases hlt : i < j
    · rw [if_pos hlt]
      cases hmid : f ((i + j) / 2) with
      | true =>
        -- everything from the middle on is true
        rw [if_pos rfl]
        apply ih (by omega) (by omega) (by omega) hbelow
        intro k hk hkn
        exact hf _ k hk hkn hmid
      | false =>
        -- everything up to the middle is false
        rw [if_neg (by simp)]
        apply ih (by omega) (by omega) hj _ habove
        intro k hk
        by_contra htrue
        rw [Bool.not_eq_false] at htrue
        have := hf k ((i + j) / 2) (by omega) (by omega) htrue
        rw [hmid] at this
        exact nomatch this
    · obtain rfl : i = j := by omega
      rw [if_neg hlt]
      exact boundary hj hbelow habove

private theorem search_spec (hf : StaysTrue n f) :
    search n f ≤ n ∧ ∀ k, k < n → (f k = true ↔ search n f ≤ k) :=
  loop_spec hf (by omega) (by omega) (Nat.le_refl n) (fun k hk => by omega)
    (fun k hk hkn => by omega)

theorem search_le (hf : StaysTrue n f) : search n f ≤ n := (search_spec hf).1

theorem search_iff (hf : StaysTrue n f) {k : Nat} (hk : k < n) : f k = true ↔ search n f ≤ k :=
  (search_spec hf).2 k hk

end Search

/-! ## Sorted lists -/

section Lists

variable {α : Type} [LinearOrder α]

/-- The index of the first element at which `after` is true, or the length. -/
def lowerBound (l : List α) (after : α → Bool) : Nat :=
  search l.length fun i => (l[i]?).any after

variable {l : List α} {after : α → Bool}

private theorem staysTrue_getElem? (hl : l.Pairwise (· ≤ ·))
    (hafter : ∀ a b, a ≤ b → after a = true → after b = true) :
    StaysTrue l.length fun i => (l[i]?).any after := by
  intro a b hab hb ha
  have hlt : a < l.length := by omega
  simp only [List.getElem?_eq_getElem hb, List.getElem?_eq_getElem hlt, Option.any_some] at ha ⊢
  rcases Nat.lt_or_eq_of_le hab with hab | rfl
  · exact hafter _ _ (List.pairwise_iff_getElem.mp hl a b hlt hb hab) ha
  · exact ha

theorem lowerBound_le (hl : l.Pairwise (· ≤ ·))
    (hafter : ∀ a b, a ≤ b → after a = true → after b = true) : lowerBound l after ≤ l.length :=
  search_le (staysTrue_getElem? hl hafter)

/-- The elements from the lower bound on are those at which `after` is true. -/
theorem lowerBound_iff (hl : l.Pairwise (· ≤ ·))
    (hafter : ∀ a b, a ≤ b → after a = true → after b = true) {k : Nat} (hk : k < l.length) :
    after l[k] = true ↔ lowerBound l after ≤ k := by
  have h := search_iff (staysTrue_getElem? hl hafter) hk
  simp only [List.getElem?_eq_getElem hk, Option.any_some] at h
  exact h

end Lists

end BinarySearch
