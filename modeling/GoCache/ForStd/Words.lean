import Mathlib.Data.List.Basic

/-!
# Words and separators

Splitting a list into words. A separator may be several elements long, so what
separates words is given by a function that says how many elements of a separator a
list begins with.

## Key results

- `fields_cons`, `fields_word`: the words of a list that is put together from words
- `flatten_fields_sublist`: words are parts of the list
- `trimLoop_of_width`, `trimLoop_append`: what is cut off in front
- `length_le_of_mem_splitOn`: the parts of a list at a separating element
-/

namespace Words

variable {α : Type} (width : List α → Nat)

/-- The word that is complete, unless it is empty. -/
def flush : List α → List (List α)
  | [] => []
  | word => [word]

/-- The scan for words: the elements of a separator that are still to be skipped, and
    the word so far. -/
def fieldsLoop : Nat → List α → List α → List (List α)
  | _, word, [] => flush word
  | skip + 1, word, _ :: rest => fieldsLoop skip word rest
  | 0, word, x :: rest =>
    match width (x :: rest) with
    | 0 => fieldsLoop 0 (word ++ [x]) rest
    | skip + 1 => flush word ++ fieldsLoop skip [] rest

/-- The words between the separators. -/
def fields (s : List α) : List (List α) := fieldsLoop width 0 [] s

/-- What is left without the separators in front. -/
def trimLoop : Nat → List α → List α
  | _, [] => []
  | skip + 1, _ :: rest => trimLoop skip rest
  | 0, x :: rest =>
    match width (x :: rest) with
    | 0 => x :: rest
    | skip + 1 => trimLoop skip rest

/-- No separator begins in the word when `t` follows. -/
def Clear (word t : List α) : Prop :=
  ∀ u v, word = u ++ v → v ≠ [] → width (v ++ t) = 0

variable {width} {word sep s t : List α} {x : α}

theorem flush_of_ne (h : word ≠ []) : flush word = [word] := by
  cases word with
  | nil => exact absurd rfl h
  | cons x word => rfl

theorem Clear.of_cons (h : Clear width (x :: word) t) : Clear width word t := by
  intro u v huv hv
  refine h (x :: u) v ?_ hv
  rw [huv, List.cons_append]

theorem Clear.append {word' : List α} (h : Clear width word (word' ++ t))
    (h' : Clear width word' t) : Clear width (word ++ word') t := by
  intro u v huv hv
  rcases List.append_eq_append_iff.mp huv with ⟨a, rfl, rfl⟩ | ⟨a, rfl, rfl⟩
  · exact h' a v rfl hv
  · cases a with
    | nil => exact h' [] word' rfl hv
    | cons x a =>
      rw [List.append_assoc]
      exact h u (x :: a) rfl (List.cons_ne_nil x a)

theorem fieldsLoop_clear (h : Clear width word t) (acc : List α) :
    fieldsLoop width 0 acc (word ++ t) = fieldsLoop width 0 (acc ++ word) t := by
  induction word generalizing acc with
  | nil => rw [List.nil_append, List.append_nil]
  | cons x word ih =>
    have hhead : width (x :: (word ++ t)) = 0 := h [] (x :: word) rfl (List.cons_ne_nil _ _)
    rw [List.cons_append, fieldsLoop, hhead]
    show fieldsLoop width 0 (acc ++ [x]) (word ++ t) = _
    rw [ih h.of_cons, List.append_assoc, List.singleton_append]

private theorem fieldsLoop_skip (acc : List α) :
    fieldsLoop width sep.length acc (sep ++ t) = fieldsLoop width 0 acc t := by
  induction sep with
  | nil => rfl
  | cons x sep ih => exact ih

/-- A word, a separator and more. -/
theorem fields_cons (hword : word ≠ []) (h : Clear width word (sep ++ t)) (hsep : sep ≠ [])
    (hwidth : width (sep ++ t) = sep.length) :
    fields width (word ++ (sep ++ t)) = word :: fields width t := by
  rw [fields, fieldsLoop_clear h, List.nil_append]
  cases sep with
  | nil => exact absurd rfl hsep
  | cons x sep =>
    rw [List.cons_append] at hwidth ⊢
    rw [fieldsLoop, hwidth, List.length_cons]
    show flush word ++ fieldsLoop width sep.length [] (sep ++ t) = _
    rw [flush_of_ne hword, fieldsLoop_skip, List.singleton_append, fields]

/-- A word at the end. -/
theorem fields_word (hword : word ≠ []) (h : Clear width word []) :
    fields width word = [word] := by
  have hloop := fieldsLoop_clear h []
  rw [List.append_nil, List.nil_append] at hloop
  rw [fields, hloop, fieldsLoop, flush_of_ne hword]

private theorem flatten_flush (word : List α) : (flush word).flatten = word := by
  cases word with
  | nil => rfl
  | cons x word => simp [flush]

/-- The words are parts of the list, in its order. -/
theorem flatten_fields_sublist (s : List α) : (fields width s).flatten.Sublist s := by
  have hloop : ∀ skip acc (s : List α),
      (fieldsLoop width skip acc s).flatten.Sublist (acc ++ s) := by
    intro skip acc s
    induction s generalizing skip acc with
    | nil =>
      rw [fieldsLoop, flatten_flush, List.append_nil]
    | cons x s ih =>
      cases skip with
      | succ skip => exact (ih skip acc).trans ((List.sublist_cons_self x s).append_left acc)
      | zero =>
        rw [fieldsLoop]
        split
        · have hrest := ih 0 (acc ++ [x])
          rwa [List.append_assoc, List.singleton_append] at hrest
        · next skip _ =>
          rw [List.flatten_append, flatten_flush]
          exact ((ih skip []).trans (List.sublist_cons_self x s)).append_left acc
  exact hloop 0 [] s

theorem trimLoop_suffix (skip : Nat) (s : List α) : trimLoop width skip s <:+ s := by
  induction s generalizing skip with
  | nil => exact List.suffix_refl _
  | cons x rest ih =>
    cases skip with
    | succ skip => exact (ih skip).trans (List.suffix_cons x rest)
    | zero =>
      rw [trimLoop]
      split
      · exact List.suffix_refl _
      · next skip _ => exact (ih skip).trans (List.suffix_cons x rest)

theorem trimLoop_of_width (h : width s = 0) : trimLoop width 0 s = s := by
  cases s with
  | nil => rfl
  | cons x rest => rw [trimLoop, h]

theorem trimLoop_append (hsep : sep ≠ []) (h : width (sep ++ t) = sep.length) :
    trimLoop width 0 (sep ++ t) = trimLoop width 0 t := by
  have hskip : ∀ sep : List α, trimLoop width sep.length (sep ++ t) = trimLoop width 0 t := by
    intro sep
    induction sep with
    | nil => rfl
    | cons x sep ih => exact ih
  cases sep with
  | nil => exact absurd rfl hsep
  | cons x sep =>
    rw [List.cons_append] at h ⊢
    rw [trimLoop, h]
    exact hskip sep

private theorem length_le_intercalate {ls : List (List α)} {l : List α} (hl : l ∈ ls) :
    l.length ≤ ([x].intercalate ls).length := by
  induction ls with
  | nil => exact nomatch hl
  | cons m ls ih =>
    cases ls with
    | nil =>
      obtain rfl := List.mem_singleton.mp hl
      simp [List.intercalate]
    | cons m' ls =>
      have hjoin : [x].intercalate (m :: m' :: ls) = m ++ ([x] ++ [x].intercalate (m' :: ls)) := by
        simp [List.intercalate]
      rw [hjoin, List.length_append, List.length_append]
      rcases List.mem_cons.mp hl with rfl | hl
      · omega
      · have hle := ih hl
        omega

/-- The parts are not longer than the whole. -/
theorem length_le_of_mem_splitOn [DecidableEq α] {l : List α} (h : l ∈ s.splitOn x) :
    l.length ≤ s.length := by
  have hle := length_le_intercalate (x := x) h
  rwa [List.intercalate_splitOn] at hle

end Words
