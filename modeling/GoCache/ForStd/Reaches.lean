import Mathlib.Data.Nat.Notation

/-!
# Runs of a transition system

Runs whose steps all meet a condition, and invariants along them. Also picking
one element out of a list of concurrent activities.

## Key results

- `Reaches.invariant`: what every allowed step preserves holds in every state
  reached
- `forall_states_iff`: when the states of a run are good exactly as long as its
  steps are allowed
-/

namespace Transition

variable {σ α : Type} {step : σ → α → Option σ} {ok : σ → α → Prop}

/-- The states reached by steps that all meet the condition `ok`, which may
    depend on the state before the step. -/
inductive Reaches (step : σ → α → Option σ) (ok : σ → α → Prop) (start : σ) : σ → Prop where
  | refl : Reaches step ok start start
  | step {s s' : σ} (a : α) (hs : Reaches step ok start s) (hok : ok s a)
      (hstep : step s a = some s') : Reaches step ok start s'

/-- What holds at the start and is preserved by every allowed step holds in
    every state reached. -/
theorem Reaches.invariant {start s : σ} (h : Reaches step ok start s) {inv : σ → Prop}
    (hstart : inv start) (hstep : ∀ s a s', inv s → ok s a → step s a = some s' → inv s') :
    inv s := by
  induction h with
  | refl => exact hstart
  | step a _ hok hs' ih => exact hstep _ a _ ih hok hs'

/-- The state after a sequence of steps, if all of them are possible and meet
    the condition. -/
def runAll (step : σ → α → Option σ) (ok : σ → α → Prop) [∀ s a, Decidable (ok s a)]
    (s : σ) (as : List α) : Option σ :=
  as.foldlM (fun s a => if ok s a then step s a else none) s

/-- A sequence of allowed steps reaches its last state. -/
theorem reaches_of_runAll [∀ s a, Decidable (ok s a)] {start s s' : σ} {as : List α}
    (hs : Reaches step ok start s) (h : runAll step ok s as = some s') :
    Reaches step ok start s' := by
  induction as generalizing s with
  | nil => exact Option.some.inj h ▸ hs
  | cons a as ih =>
    rw [runAll, List.foldlM_cons] at h
    by_cases hok : ok s a
    · rw [if_pos hok] at h
      cases hstep : step s a with
      | none => simp [hstep] at h
      | some mid =>
        rw [hstep] at h
        exact ih (hs.step a hok hstep) h
    · simp [hok] at h

/-- Running the steps reaches a state that passes a check. -/
theorem exists_reaches_of_any [∀ s a, Decidable (ok s a)] {start : σ} {as : List α}
    {check : σ → Bool} (h : (runAll step ok start as).any check = true) :
    ∃ s, runAll step ok start as = some s ∧ Reaches step ok start s ∧ check s = true := by
  cases hrun : runAll step ok start as with
  | none =>
    rw [hrun] at h
    exact nomatch h
  | some s =>
    rw [hrun] at h
    exact ⟨s, rfl, reaches_of_runAll .refl hrun, h⟩

/-- Allowed steps keep an invariant under which states are good, and any other step
    leads to a state that is not: the states of a run are all good exactly if its
    steps are all allowed. -/
theorem forall_states_iff {inv good : σ → Prop} (hgood : ∀ s, inv s → good s)
    (hok : ∀ s a s', inv s → step s a = some s' → ok s a → inv s')
    (hbad : ∀ s a s', inv s → step s a = some s' → ¬ok s a → ¬good s')
    {start s : σ} {as : List α} (hstart : inv start) (hrun : as.foldlM step start = some s) :
    (∀ pre post mid, as = pre ++ post → pre.foldlM step start = some mid → good mid) ↔
      ∀ pre a post mid, as = pre ++ a :: post → pre.foldlM step start = some mid → ok mid a := by
  induction as generalizing start with
  | nil =>
    constructor
    · intro _ pre a post mid hsplit
      simp at hsplit
    · intro _ pre post mid hsplit hmid
      obtain ⟨rfl, rfl⟩ := List.append_eq_nil_iff.mp hsplit.symm
      cases hmid
      exact hgood start hstart
  | cons a as ih =>
    rw [List.foldlM_cons] at hrun
    obtain ⟨next, hnext, hrun⟩ := Option.bind_eq_some_iff.mp hrun
    constructor
    · intro hall
      have hfirst : ok start a := by
        apply Classical.byContradiction
        intro hnot
        exact hbad start a next hstart hnext hnot (hall [a] as next rfl (by simp [hnext]))
      intro pre b post mid hsplit hmid
      cases pre with
      | nil =>
        cases hsplit
        cases hmid
        exact hfirst
      | cons c pre =>
        obtain ⟨rfl, rfl⟩ := List.cons.inj hsplit
        rw [List.foldlM_cons, hnext] at hmid
        refine (ih (hok start a next hstart hnext hfirst) hrun).mp ?_ pre b post mid rfl hmid
        intro pre' post' mid' hsplit' hmid'
        refine hall (a :: pre') post' mid' (by rw [hsplit']; rfl) ?_
        rw [List.foldlM_cons, hnext]
        exact hmid'
    · intro hall
      have hinv := hok start a next hstart hnext (hall [] a as start rfl rfl)
      intro pre post mid hsplit hmid
      cases pre with
      | nil =>
        cases hmid
        exact hgood start hstart
      | cons c pre =>
        obtain ⟨rfl, rfl⟩ := List.cons.inj hsplit
        rw [List.foldlM_cons, hnext] at hmid
        refine (ih hinv hrun).mpr ?_ pre post mid rfl hmid
        intro pre' b post' mid' hsplit' hmid'
        refine hall (a :: pre') b post' mid' (by rw [hsplit']; rfl) ?_
        rw [List.foldlM_cons, hnext]
        exact hmid'

/-! ## Picking one of several -/

variable {β : Type}

/-- The element at an index, with those before and behind it. -/
def pick : Nat → List β → Option (List β × β × List β)
  | _, [] => none
  | 0, b :: bs => some ([], b, bs)
  | i + 1, b :: bs => (pick i bs).map fun (pre, c, post) => (b :: pre, c, post)

theorem pick_eq_some {i : Nat} {bs pre post : List β} {b : β}
    (h : pick i bs = some (pre, b, post)) : bs = pre ++ b :: post := by
  induction bs generalizing i pre with
  | nil => simp [pick] at h
  | cons c bs ih =>
    cases i with
    | zero =>
      obtain ⟨rfl, rfl, rfl⟩ : [] = pre ∧ c = b ∧ bs = post := by simpa [pick] using h
      rfl
    | succ i =>
      obtain ⟨⟨pre', b', post'⟩, hpick, heq⟩ := Option.map_eq_some_iff.mp h
      obtain ⟨rfl, rfl, rfl⟩ : c :: pre' = pre ∧ b' = b ∧ post' = post := by simpa using heq
      rw [ih hpick]
      rfl

end Transition
