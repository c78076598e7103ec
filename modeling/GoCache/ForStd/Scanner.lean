import Mathlib.Data.List.Infix

/-!
# Scanners of a buffer

A scanner reads a value at a position of a buffer and returns it with the position behind
it, or raises an error. The position may be any integer. Some of the errors ask for more
data.

`Scans more f xs v` says that `f` reads the frame `xs` as `v` wherever it stands, and that
it asks for more where the buffer ends within the frame. `Refuses more f xs` says that `f`
raises another error on the frame, and some error where the buffer ends within it.

## Key results

- `Scans.bind`, `Scans.bind_refuses`, `Refuses.bind`: frames of a sequence of scanners
-/

namespace Scanning

/-- A scanner of a buffer of tokens `τ`, with errors `ε`. -/
def Scanner (τ ε α : Type) : Type := List τ → Int → Except ε (α × Int)

variable {τ ε α β : Type}

namespace Scanner

/-- Return a value without reading. -/
protected def pure (v : α) : Scanner τ ε α := fun _ pos => .ok (v, pos)

/-- Read one value and go on behind it. -/
protected def bind (f : Scanner τ ε α) (g : α → Scanner τ ε β) : Scanner τ ε β := fun data pos =>
  match f data pos with
  | .ok (v, pos) => g v data pos
  | .error e => .error e

instance : Monad (Scanner τ ε) where
  pure := Scanner.pure
  bind := Scanner.bind

/-- Raise an error. -/
def raise (e : ε) : Scanner τ ε α := fun _ _ => .error e

end Scanner

open Scanner (raise)

variable {more : ε → Prop} {f : Scanner τ ε α} {g : α → Scanner τ ε β} {xs ys : List τ} {v : α}
  {w : β} {data : List τ} {pos : Int}

private theorem bind_of_ok {pos' : Int} (h : f data pos = .ok (v, pos')) :
    (f >>= g) data pos = g v data pos' := by
  show Scanner.bind f g data pos = _
  rw [Scanner.bind, h]

private theorem bind_of_error {e : ε} (h : f data pos = .error e) :
    (f >>= g) data pos = .error e := by
  show Scanner.bind f g data pos = _
  rw [Scanner.bind, h]

/-! ## Frames that are read -/

/-- `f` reads the frame `xs` as `v`. -/
structure Scans (more : ε → Prop) (f : Scanner τ ε α) (xs : List τ) (v : α) : Prop where
  reads : ∀ pre t, f (pre ++ (xs ++ t)) pre.length = .ok (v, (pre ++ xs).length)
  torn : ∀ pre g, g <+: xs → g ≠ xs → ∃ e, more e ∧ f (pre ++ g) pre.length = .error e

theorem Scans.pure (v : α) : Scans more (pure v : Scanner τ ε α) [] v where
  reads pre t := by
    rw [List.append_nil]
    rfl
  torn pre g hpre hne := absurd (List.prefix_nil.mp hpre) hne

/-- Where a frame of two parts may be cut: in the first part, or in the second one. -/
private theorem torn_append {g : List τ} (hpre : g <+: xs ++ ys) (hne : g ≠ xs ++ ys) :
    (g <+: xs ∧ g ≠ xs) ∨ ∃ c, g = xs ++ c ∧ c <+: ys ∧ c ≠ ys := by
  obtain ⟨t, ht⟩ := hpre
  obtain ⟨a, rfl, rfl⟩ | ⟨c, rfl, rfl⟩ := List.append_eq_append_iff.mp ht
  · by_cases ha : a = []
    · subst ha
      refine .inr ⟨[], by simp, List.nil_prefix, ?_⟩
      intro hnil
      exact hne (by simp [← hnil])
    · exact .inl ⟨List.prefix_append g a, by simp [ha]⟩
  · refine .inr ⟨c, rfl, List.prefix_append c t, ?_⟩
    intro heq
    exact hne (by rw [← heq])

theorem Scans.bind (hf : Scans more f xs v) (hg : Scans more (g v) ys w) :
    Scans more (f >>= g) (xs ++ ys) w where
  reads pre t := by
    have hfirst := hf.reads pre (ys ++ t)
    have hsecond := hg.reads (pre ++ xs) t
    simp only [List.append_assoc] at hfirst hsecond ⊢
    rw [bind_of_ok hfirst, hsecond]
  torn pre c hpre hne := by
    obtain ⟨hpre, hne⟩ | ⟨d, rfl, hpre, hne⟩ := torn_append hpre hne
    · obtain ⟨e, hmore, he⟩ := hf.torn pre c hpre hne
      exact ⟨e, hmore, bind_of_error he⟩
    · obtain ⟨e, hmore, he⟩ := hg.torn (pre ++ xs) d hpre hne
      refine ⟨e, hmore, ?_⟩
      rw [bind_of_ok (hf.reads pre d), ← List.append_assoc, he]

theorem Scans.map (hf : Scans more f xs v) (h : α → β) : Scans more (h <$> f) xs (h v) := by
  have hbind := hf.bind (g := fun v => Pure.pure (h v)) (Scans.pure (h v))
  rw [List.append_nil] at hbind
  exact hbind

/-! ## Frames that are refused -/

/-- `f` raises an error on the frame `xs` that does not ask for more. -/
structure Refuses (more : ε → Prop) (f : Scanner τ ε α) (xs : List τ) : Prop where
  whole : ∀ pre t, ∃ e, ¬ more e ∧ f (pre ++ (xs ++ t)) pre.length = .error e
  torn : ∀ pre g, g <+: xs → g ≠ xs → ∃ e, f (pre ++ g) pre.length = .error e

theorem Refuses.raise {e : ε} (h : ¬ more e) (xs : List τ) :
    Refuses more (raise e : Scanner τ ε α) xs where
  whole _ _ := ⟨e, h, rfl⟩
  torn _ _ _ _ := ⟨e, rfl⟩

/-- The first part is refused. -/
theorem Refuses.bind (hf : Refuses more f xs) (g : α → Scanner τ ε β) (ys : List τ) :
    Refuses more (f >>= g) (xs ++ ys) where
  whole pre t := by
    obtain ⟨e, hmore, he⟩ := hf.whole pre (ys ++ t)
    rw [List.append_assoc]
    exact ⟨e, hmore, bind_of_error he⟩
  torn pre c hpre hne := by
    obtain ⟨hpre, hne⟩ | ⟨d, rfl, _⟩ := torn_append hpre hne
    · obtain ⟨e, he⟩ := hf.torn pre c hpre hne
      exact ⟨e, bind_of_error he⟩
    · obtain ⟨e, _, he⟩ := hf.whole pre d
      exact ⟨e, bind_of_error he⟩

/-- The first part is read and the second one refused. -/
theorem Scans.bind_refuses (hf : Scans more f xs v) (hg : Refuses more (g v) ys) :
    Refuses more (f >>= g) (xs ++ ys) where
  whole pre t := by
    obtain ⟨e, hmore, he⟩ := hg.whole (pre ++ xs) t
    refine ⟨e, hmore, ?_⟩
    have hfirst := hf.reads pre (ys ++ t)
    simp only [List.append_assoc] at hfirst he ⊢
    rw [bind_of_ok hfirst, he]
  torn pre c hpre hne := by
    obtain ⟨hpre, hne⟩ | ⟨d, rfl, hpre, hne⟩ := torn_append hpre hne
    · obtain ⟨e, _, he⟩ := hf.torn pre c hpre hne
      exact ⟨e, bind_of_error he⟩
    · obtain ⟨e, he⟩ := hg.torn (pre ++ xs) d hpre hne
      refine ⟨e, ?_⟩
      rw [bind_of_ok (hf.reads pre d), ← List.append_assoc, he]

theorem Refuses.map (hf : Refuses more f xs) (h : α → β) : Refuses more (h <$> f) xs := by
  have hbind := hf.bind (fun v => Pure.pure (h v)) []
  rw [List.append_nil] at hbind
  exact hbind

end Scanning
