import Mathlib.Data.Nat.Notation

/-!
# Computations that return

`Returns x post` is the total correctness of a computation that may throw: it does
not, and its value meets a postcondition. `Settles c x wanted inv` is the exact
condition for it: the computation returns a wanted value exactly if `c` holds, and
whatever it returns keeps an invariant. The rules follow the shape of the program.

## Key results

- `Returns.bind`, `Settles.bind`, `Settles.after`: one computation behind another
-/

variable {ε α β : Type}

/-- The computation returns a value that meets the postcondition. -/
def Returns (x : Except ε α) (post : α → Prop) : Prop := ∃ a, x = .ok a ∧ post a

/-- The computation returns a wanted value exactly under the condition, and keeps the
    invariant whatever it returns. -/
structure Settles (c : Prop) (x : Except ε α) (wanted inv : α → Prop) : Prop where
  returns : c → Returns x wanted
  only : ∀ a, x = .ok a → wanted a → c
  keeps : ∀ a, x = .ok a → inv a

variable {x : Except ε α} {f : α → Except ε β}

namespace Returns

variable {post mid : α → Prop} {goal : β → Prop}

theorem ok {a : α} (h : post a) : Returns (.ok a : Except ε α) post := ⟨a, rfl, h⟩

/-- What the first returns is what the second starts with. -/
theorem bind (hx : Returns x mid) (hf : ∀ a, mid a → Returns (f a) goal) :
    Returns (x >>= f) goal := by
  obtain ⟨a, rfl, ha⟩ := hx
  exact hf a ha

/-- The first has returned. -/
theorem ok_bind {a : α} (h : Returns (f a) goal) : Returns (.ok a >>= f : Except ε β) goal := h

end Returns

namespace Settles

variable {c c' : Prop} {wanted inv mid : α → Prop} {wanted' inv' : β → Prop}

theorem ok {a : α} (hinv : inv a) (h : c ↔ wanted a) :
    Settles c (.ok a : Except ε α) wanted inv where
  returns hc := ⟨a, rfl, h.mp hc⟩
  only b hb hw := by
    cases hb
    exact h.mpr hw
  keeps b hb := by
    cases hb
    exact hinv

theorem error {e : ε} (h : ¬ c) : Settles c (.error e : Except ε α) wanted inv where
  returns hc := absurd hc h
  only _ ha := nomatch ha
  keeps _ ha := nomatch ha

/-- A computation that returns under the condition, and throws otherwise. -/
theorem of_returns (h : c → Returns x fun a => wanted a ∧ inv a) (hok : ∀ a, x = .ok a → c) :
    Settles c x wanted inv where
  returns hc := by
    obtain ⟨a, hx, hw, -⟩ := h hc
    exact ⟨a, hx, hw⟩
  only a hx _ := hok a hx
  keeps a hx := by
    obtain ⟨b, hb, -, hinv⟩ := h (hok a hx)
    cases hb.symm.trans hx
    exact hinv

theorem congr (h : Settles c x wanted inv) (hc : c' ↔ c) : Settles c' x wanted inv where
  returns hc' := h.returns (hc.mp hc')
  only a hx hw := hc.mpr (h.only a hx hw)
  keeps := h.keeps

/-- The second returns what is wanted if the first has. -/
theorem bind (h : Settles c x wanted inv)
    (hf : ∀ a, inv a → Returns (f a) fun b => (wanted' b ↔ wanted a) ∧ inv' b) :
    Settles c (x >>= f) wanted' inv' := by
  cases x with
  | error e =>
    refine error fun hc => ?_
    obtain ⟨a, ha, -⟩ := h.returns hc
    exact nomatch ha
  | ok a =>
    obtain ⟨b, hb, hw, hinv⟩ := hf a (h.keeps a rfl)
    show Settles c (f a) wanted' inv'
    rw [hb]
    refine ok hinv ⟨fun hc => ?_, fun hb' => h.only a rfl (hw.mp hb')⟩
    obtain ⟨a', ha, hwanted⟩ := h.returns hc
    cases ha
    exact hw.mpr hwanted

/-- The first returns anyway. -/
theorem after (hx : Returns x mid) (hf : ∀ a, mid a → Settles c (f a) wanted' inv') :
    Settles c (x >>= f) wanted' inv' := by
  obtain ⟨a, rfl, ha⟩ := hx
  exact hf a ha

/-- What is returned under the condition. -/
theorem ends (h : Settles c x wanted inv) (hc : c) : Returns x fun a => wanted a ∧ inv a := by
  obtain ⟨a, hx, hw⟩ := h.returns hc
  exact ⟨a, hx, hw, h.keeps a hx⟩

end Settles
