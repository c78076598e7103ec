import Mathlib.Data.List.Nodup
import Mathlib.Data.List.Perm.Subperm

/-!
# Doubly linked lists on a heap

A heap of cells with two nullable pointers each, and the predicate `IsList`
that a sequence of pointers is linked both ways between a head and a tail.
Nothing here fixes what a cell's key is or who writes the pointers.

## Key results

- `Seg.append_iff`: a segment splits at any point
- `Seg.frame`: a segment only depends on its own cells
- `Seg.setPrev_head` / `Seg.setNext_last`: redirecting either end of a segment
- `IsList.followNext` / `IsList.followPrev`: what walking the pointers visits
-/

namespace DoublyLinked

/-- A heap cell: a key and the pointers to its neighbours, `none` for nil. -/
structure Cell (κ : Type*) where
  key : κ
  prev : Option Nat
  next : Option Nat
  deriving DecidableEq

/-- A heap of cells. A pointer is an index into it. -/
abbrev Heap (κ : Type*) := List (Cell κ)

variable {κ : Type*} {h h' : Heap κ} {a b : Option Nat} {p q : Nat} {ps xs ys : List Nat}

/-! ## Writing through a pointer -/

/-- Overwrite the `prev` field of the cell at `p`. -/
def setPrev (h : Heap κ) (p : Nat) (a : Option Nat) : Heap κ :=
  h.modify p fun c => { c with prev := a }

/-- Overwrite the `next` field of the cell at `p`. -/
def setNext (h : Heap κ) (p : Nat) (b : Option Nat) : Heap κ :=
  h.modify p fun c => { c with next := b }

theorem getElem?_setPrev (h : Heap κ) (p q : Nat) (a : Option Nat) :
    (setPrev h p a)[q]? = if p = q then (h[q]?).map fun c => { c with prev := a } else h[q]? := by
  rw [setPrev, List.getElem?_modify]
  split <;> simp

theorem getElem?_setNext (h : Heap κ) (p q : Nat) (b : Option Nat) :
    (setNext h p b)[q]? = if p = q then (h[q]?).map fun c => { c with next := b } else h[q]? := by
  rw [setNext, List.getElem?_modify]
  split <;> simp

/-- Two heaps allocate the same cells and agree on every key. -/
def SameKeys (h h' : Heap κ) : Prop := ∀ q : Nat, (h'[q]?).map Cell.key = (h[q]?).map Cell.key

theorem SameKeys.refl (h : Heap κ) : SameKeys h h := fun _ => rfl

theorem SameKeys.trans {h₁ h₂ h₃ : Heap κ} (h₁₂ : SameKeys h₁ h₂) (h₂₃ : SameKeys h₂ h₃) :
    SameKeys h₁ h₃ := fun q => (h₂₃ q).trans (h₁₂ q)

theorem SameKeys.lt_length (hk : SameKeys h h') (hlt : p < h.length) : p < h'.length := by
  have hp := hk p
  rw [List.getElem?_eq_getElem hlt, Option.map_some, Option.map_eq_some_iff] at hp
  obtain ⟨c, hc, _⟩ := hp
  exact (List.getElem?_eq_some_iff.mp hc).1

theorem sameKeys_setPrev (h : Heap κ) (p : Nat) (a : Option Nat) : SameKeys h (setPrev h p a) := by
  intro q
  rw [getElem?_setPrev]
  split
  · rw [Option.map_map]; rfl
  · rfl

theorem sameKeys_setNext (h : Heap κ) (p : Nat) (b : Option Nat) : SameKeys h (setNext h p b) := by
  intro q
  rw [getElem?_setNext]
  split
  · rw [Option.map_map]; rfl
  · rfl

/-! ## Segments -/

/-- `Seg h a ps b`: the cells `ps` are linked to each other both ways, the
    first one's `prev` is `a` and the last one's `next` is `b`. -/
def Seg (h : Heap κ) : Option Nat → List Nat → Option Nat → Prop
  | _, [], _ => True
  | a, p :: ps, b =>
    (∃ c, h[p]? = some c ∧ c.prev = a ∧ c.next = ps.head?.or b) ∧ Seg h (some p) ps b

/-- A segment splits at any point. -/
theorem Seg.append_iff :
    Seg h a (xs ++ ys) b ↔ Seg h a xs (ys.head?.or b) ∧ Seg h (xs.getLast?.or a) ys b := by
  induction xs generalizing a with
  | nil => simp [Seg]
  | cons x xs ih =>
    simp only [List.cons_append, Seg, ih, List.head?_append, List.getLast?_cons, Option.some_or,
      Option.or_assoc, and_assoc]
    cases xs.getLast? <;> simp

/-- A segment only depends on the cells it runs through. -/
theorem Seg.frame (hs : Seg h a ps b) (heq : ∀ p ∈ ps, h'[p]? = h[p]?) : Seg h' a ps b := by
  induction ps generalizing a with
  | nil => trivial
  | cons p ps ih =>
    obtain ⟨⟨c, hc, hprev, hnext⟩, hrest⟩ := hs
    refine ⟨⟨c, ?_, hprev, hnext⟩, ih hrest fun q hq => heq q (List.mem_cons_of_mem _ hq)⟩
    rw [heq p List.mem_cons_self, hc]

theorem Seg.setPrev_of_notMem (hs : Seg h a ps b) (hp : p ∉ ps) (q : Option Nat) :
    Seg (setPrev h p q) a ps b := by
  refine hs.frame fun r hr => ?_
  rw [getElem?_setPrev, if_neg fun heq : p = r => hp (heq ▸ hr)]

theorem Seg.setNext_of_notMem (hs : Seg h a ps b) (hp : p ∉ ps) (q : Option Nat) :
    Seg (setNext h p q) a ps b := by
  refine hs.frame fun r hr => ?_
  rw [getElem?_setNext, if_neg fun heq : p = r => hp (heq ▸ hr)]

/-- Redirecting the `prev` of the first cell. -/
theorem Seg.setPrev_head (hs : Seg h a (p :: ps) b) (hp : p ∉ ps) (a' : Option Nat) :
    Seg (setPrev h p a') a' (p :: ps) b := by
  obtain ⟨⟨c, hc, _, hnext⟩, hrest⟩ := hs
  refine ⟨⟨{ c with prev := a' }, ?_, rfl, hnext⟩, hrest.setPrev_of_notMem hp a'⟩
  rw [getElem?_setPrev, if_pos rfl, hc]
  rfl

/-- Redirecting the `next` of the last cell. -/
theorem Seg.setNext_last (hs : Seg h a (xs ++ [p]) b) (hp : p ∉ xs) (b' : Option Nat) :
    Seg (setNext h p b') a (xs ++ [p]) b' := by
  obtain ⟨hxs, ⟨c, hc, hprev, _⟩, _⟩ := Seg.append_iff.mp hs
  refine Seg.append_iff.mpr ⟨?_, ⟨{ c with next := b' }, ?_, hprev, rfl⟩, trivial⟩
  · exact hxs.setNext_of_notMem hp b'
  · rw [getElem?_setNext, if_pos rfl, hc]
    rfl

/-- Every cell of a segment is allocated. -/
theorem Seg.exists_cell (hs : Seg h a ps b) (hp : p ∈ ps) : ∃ c, h[p]? = some c := by
  induction ps generalizing a with
  | nil => exact nomatch hp
  | cons x ps ih =>
    obtain ⟨⟨c, hc, _, _⟩, hrest⟩ := hs
    cases List.mem_cons.mp hp with
    | inl heq => exact ⟨c, heq ▸ hc⟩
    | inr hmem => exact ih hrest hmem

/-! ## Whole lists -/

/-- The cells `ps`, in this order, are the doubly linked list from `head` to
    `tail`: distinct, linked both ways, nil at either end. -/
structure IsList (h : Heap κ) (head tail : Option Nat) (ps : List Nat) : Prop where
  nodup : ps.Nodup
  head_eq : head = ps.head?
  tail_eq : tail = ps.getLast?
  seg : Seg h none ps none

theorem isList_nil (h : Heap κ) : IsList h none none [] := ⟨List.nodup_nil, rfl, rfl, trivial⟩

theorem IsList.frame {head tail : Option Nat} (hl : IsList h head tail ps)
    (heq : ∀ p ∈ ps, h'[p]? = h[p]?) : IsList h' head tail ps :=
  ⟨hl.nodup, hl.head_eq, hl.tail_eq, hl.seg.frame heq⟩

/-- Following `next` from a pointer visits exactly these cells and then nil. -/
inductive FollowNext (h : Heap κ) : Option Nat → List Nat → Prop
  | nil : FollowNext h none []
  | cons {p : Nat} {ps : List Nat} {c : Cell κ} (hc : h[p]? = some c)
      (hrest : FollowNext h c.next ps) : FollowNext h (some p) (p :: ps)

/-- Following `prev` from a pointer visits exactly these cells and then nil. -/
inductive FollowPrev (h : Heap κ) : Option Nat → List Nat → Prop
  | nil : FollowPrev h none []
  | cons {p : Nat} {ps : List Nat} {c : Cell κ} (hc : h[p]? = some c)
      (hrest : FollowPrev h c.prev ps) : FollowPrev h (some p) (p :: ps)

/-- Walk `next` for at most `n` cells. -/
def walk (h : Heap κ) : Nat → Option Nat → List Nat
  | n + 1, some p =>
    match h[p]? with
    | some c => p :: walk h n c.next
    | none => []
  | _, _ => []

theorem FollowNext.walk_eq (hf : FollowNext h a ps) {n : Nat} (hn : ps.length ≤ n) :
    walk h n a = ps := by
  induction hf generalizing n with
  | nil => cases n <;> rfl
  | cons hc _ ih =>
    cases n with
    | zero => simp at hn
    | succ n => simp only [walk, hc, ih (Nat.le_of_succ_le_succ hn)]

/-- Walking forward through a segment and on from where it leads. -/
theorem Seg.followNext (hs : Seg h a ps b) (hb : FollowNext h b xs) :
    FollowNext h (ps.head?.or b) (ps ++ xs) := by
  induction ps generalizing a with
  | nil => exact hb
  | cons p ps ih =>
    obtain ⟨⟨c, hc, _, hnext⟩, hrest⟩ := hs
    exact .cons hc (hnext ▸ ih hrest)

/-- Walking backward through a segment and on from where it came from. -/
theorem Seg.followPrev (hs : Seg h a ps b) (ha : FollowPrev h a xs) :
    FollowPrev h (ps.getLast?.or a) (ps.reverse ++ xs) := by
  induction ps generalizing a xs with
  | nil => exact ha
  | cons p ps ih =>
    obtain ⟨⟨c, hc, hprev, _⟩, hrest⟩ := hs
    have hp : FollowPrev h (some p) (p :: xs) := .cons hc (hprev ▸ ha)
    have hps := ih hrest hp
    rw [List.reverse_cons, List.append_assoc, List.singleton_append, List.getLast?_cons]
    cases hlast : ps.getLast? <;> simpa [hlast] using hps

theorem IsList.followNext {head tail : Option Nat} (hl : IsList h head tail ps) :
    FollowNext h head ps := by
  have hf := hl.seg.followNext FollowNext.nil
  rw [Option.or_none, List.append_nil] at hf
  exact hl.head_eq ▸ hf

theorem IsList.followPrev {head tail : Option Nat} (hl : IsList h head tail ps) :
    FollowPrev h tail ps.reverse := by
  have hf := hl.seg.followPrev FollowPrev.nil
  rw [Option.or_none, List.append_nil] at hf
  exact hl.tail_eq ▸ hf

/-- A list visits no more cells than the heap has. -/
theorem IsList.length_le {head tail : Option Nat} (hl : IsList h head tail ps) :
    ps.length ≤ h.length := by
  have hsub : ps ⊆ List.range h.length := by
    intro p hp
    obtain ⟨c, hc⟩ := hl.seg.exists_cell hp
    exact List.mem_range.mpr (List.getElem?_eq_some_iff.mp hc).1
  have hle := (List.subperm_of_subset hl.nodup hsub).length_le
  rwa [List.length_range] at hle

end DoublyLinked
