import GoCache.ForStd.Reader

/-!
# The turns of a loop

The loops over a sequence, without a bound on the number of their turns. A loop that
reads at least one token in every turn but the last one makes at most one turn more
than there are tokens, so that many are as good as no bound at all.

## Key results

- `Progresses.exists_turns`: the loop stops
- `Turns.loop_eq`: its turns are those of the loop with a bound
-/

namespace Reading

variable {τ ε π α σ ρ : Type} (onErr : σ → ε → Turn σ ρ) (body : σ → α → Except π (Turn σ ρ))
  (p : Reader τ ε π α)

/-- What the next turn of the loop starts with, if there is one. -/
def turn (st : σ) (s : List τ) : Option (σ × List τ) :=
  match p s with
  | .ok v rest =>
    match body st v with
    | .ok (.next st) => some (st, rest)
    | .ok (.stop _) | .error _ => none
  | .err e rest =>
    match onErr st e with
    | .next st => some (st, rest)
    | .stop _ => none
  | .abort _ => none

/-- The loop makes this many turns. The last one stops it, or aborts. -/
inductive Turns : σ → List τ → Nat → Prop where
  | last {st : σ} {s : List τ} (h : turn onErr body p st s = none) : Turns st s 1
  | next {st st' : σ} {s rest : List τ} {n : Nat}
      (h : turn onErr body p st s = some (st', rest)) (hrest : Turns st' rest n) :
      Turns st s (n + 1)

variable {onErr body p} {st st' : σ} {s rest : List τ}

/-- A turn that is not the last one reads a token. -/
theorem Progresses.length_lt (hp : Progresses onErr p)
    (h : turn onErr body p st s = some (st', rest)) : rest.length < s.length := by
  cases hs : p s with
  | ok v mid =>
    have hlt := hp.ok_lt s v mid hs
    simp only [turn, hs] at h
    split at h
    · cases h
      exact hlt
    · cases h
    · cases h
  | err e mid =>
    simp only [turn, hs] at h
    split at h
    · next st₁ hnext =>
      cases h
      exact hp.err_lt s e _ st _ hs hnext
    · cases h
  | abort c =>
    simp only [turn, hs] at h
    cases h

/-- Tokens run out, so the loop stops. -/
theorem Progresses.exists_turns (hp : Progresses onErr p) (body : σ → α → Except π (Turn σ ρ))
    (st : σ) (s : List τ) : ∃ n ≤ s.length + 1, Turns onErr body p st s n := by
  induction hlen : s.length using Nat.strongRecOn generalizing st s with
  | ind len ih =>
    cases hturn : turn onErr body p st s with
    | none => exact ⟨1, by omega, .last hturn⟩
    | some next =>
      obtain ⟨st', rest⟩ := next
      have hlt := hp.length_lt hturn
      obtain ⟨n, hn, hturns⟩ := ih rest.length (by omega) st' rest rfl
      exact ⟨n + 1, by omega, .next hturn hturns⟩

variable {outOfFuel : π}

private theorem loop_succ (fuel : Nat) : loop outOfFuel onErr body p (fuel + 1) st s =
    match turn onErr body p st s with
    | some (st', rest) => loop outOfFuel onErr body p fuel st' rest
    | none => loop outOfFuel onErr body p 1 st s := by
  cases hs : p s with
  | ok v rest =>
    cases hbody : body st v with
    | error c => simp only [loop, turn, hs, hbody]
    | ok t => cases t <;> simp only [loop, turn, hs, hbody]
  | err e rest => cases herr : onErr st e <;> simp only [loop, turn, hs, herr]
  | abort c => simp only [loop, turn, hs]

/-- A bound of so many turns, or more, is none. -/
theorem Turns.loop_eq {n : Nat} (h : Turns onErr body p st s n) {fuel : Nat} (hfuel : n ≤ fuel) :
    loop outOfFuel onErr body p fuel st s = loop outOfFuel onErr body p n st s := by
  induction h generalizing fuel with
  | last hlast =>
    obtain ⟨fuel, rfl⟩ : ∃ m, fuel = m + 1 := ⟨fuel - 1, by omega⟩
    rw [loop_succ, hlast]
  | @next _ _ _ _ n hturn _ ih =>
    obtain ⟨fuel, rfl⟩ : ∃ m, fuel = m + 1 := ⟨fuel - 1, by omega⟩
    rw [loop_succ fuel, loop_succ n, hturn]
    exact ih (by omega)

end Reading
