import GoCache.Native.Lru

/-!
# The LRU list stays well linked

Every operation of `GoCache.Native.LRU` takes a well-linked list to a
well-linked list and dereferences no nil pointer on the way. Each lemma says
which sequence of nodes the result is, and that no key changed.

## Key results

- `removeNode_isList`: unlinking a node, in all four pointer cases
- `addToFront_isList` / `add_isList`: linking a node in front
- `moveToFront_isList`: the sequence with one node moved to its head
- `removeLRU_nil` / `removeLRU_isList`: the tail goes, and its key is returned
-/

namespace GoCache.Spec

open GoCache.Native GoCache.Native.LRU DoublyLinked

variable {lru : LRU} {h : Heap} {xs ys ps : List Ptr} {p : Ptr}

theorem deref_some {n : Node} (hn : h[p]? = some n) : deref h (some p) = .ok n := by
  simp only [deref, Option.bind_some, hn]

/-- The cell in the middle of a segment, with both of its neighbours. -/
private theorem seg_cell {a b : Option Ptr} (xs ys : List Ptr) (hs : Seg h a (xs ++ p :: ys) b) :
    ∃ n, h[p]? = some n ∧ n.prev = xs.getLast?.or a ∧ n.next = ys.head?.or b := by
  obtain ⟨_, ⟨n, hn, hprev, hnext⟩, _⟩ := Seg.append_iff.mp hs
  exact ⟨n, hn, hprev, hnext⟩

/-- Unlinking the only node. -/
private theorem removeNode_only (hl : IsList h lru.head lru.tail [p]) :
    removeNode lru h p = .ok (⟨none, none⟩, h) := by
  have hhead : lru.head = some p := hl.head_eq
  have htail : lru.tail = some p := hl.tail_eq
  simp only [removeNode, hhead, htail, and_self, ↓reduceIte]

/-- Unlinking the first of several nodes. -/
private theorem removeNode_head {y : Ptr} (hl : IsList h lru.head lru.tail (p :: y :: ys)) :
    removeNode lru h p = .ok (⟨some y, lru.tail⟩, setPrev h y none) ∧
      IsList (setPrev h y none) (some y) lru.tail (y :: ys) := by
  obtain ⟨hp, hnd⟩ := List.nodup_cons.mp hl.nodup
  have hhead : lru.head = some p := hl.head_eq
  have htail : lru.tail = (y :: ys).getLast? := by rw [hl.tail_eq, List.getLast?_cons_cons]
  have hne : lru.tail ≠ some p := fun heq => hp (List.mem_of_getLast? (htail ▸ heq))
  obtain ⟨n, hn, _, hnext⟩ := seg_cell [] _ hl.seg
  refine ⟨?_, hnd, rfl, htail, hl.seg.2.setPrev_head (List.nodup_cons.mp hnd).1 none⟩
  simp only [List.head?_cons, Option.some_or] at hnext
  simp only [removeNode, hhead, hne, and_false, ↓reduceIte, deref_some hn, bind, Except.bind,
    hnext, storePrev, pure, Except.pure]

/-- Unlinking the last of several nodes. -/
private theorem removeNode_tail {x : Ptr} (hl : IsList h lru.head lru.tail (xs ++ [x] ++ [p])) :
    removeNode lru h p = .ok (⟨lru.head, some x⟩, setNext h x none) ∧
      IsList (setNext h x none) lru.head (some x) (xs ++ [x]) := by
  obtain ⟨hnd, _, hdisj⟩ := List.nodup_append'.mp hl.nodup
  have hp : p ∉ xs ++ [x] := fun hmem => hdisj hmem List.mem_cons_self
  have hhead : lru.head = (xs ++ [x]).head? := by rw [hl.head_eq]; simp
  have hne : lru.head ≠ some p := fun heq => hp (List.mem_of_head? (hhead ▸ heq))
  have htail : lru.tail = some p := by rw [hl.tail_eq, List.getLast?_concat]
  obtain ⟨n, hn, hprev, _⟩ := seg_cell _ [] hl.seg
  have hx : x ∉ xs := fun hmem => (List.nodup_append'.mp hnd).2.2 hmem List.mem_cons_self
  have hseg := (Seg.append_iff.mp hl.seg).1.setNext_last hx none
  refine ⟨?_, hnd, hhead, (List.getLast?_concat ..).symm, hseg⟩
  simp only [List.getLast?_append, List.getLast?_singleton, Option.some_or] at hprev
  simp only [removeNode, hne, false_and, htail, ↓reduceIte, deref_some hn, bind, Except.bind,
    hprev, storeNext, pure, Except.pure]

/-- Unlinking a node that has both neighbours. -/
private theorem removeNode_middle {x y : Ptr}
    (hl : IsList h lru.head lru.tail (xs ++ [x] ++ p :: y :: ys)) :
    removeNode lru h p = .ok (lru, setPrev (setNext h x (some y)) y (some x)) ∧
      IsList (setPrev (setNext h x (some y)) y (some x)) lru.head lru.tail
        (xs ++ [x] ++ y :: ys) := by
  obtain ⟨hndx, hndp, hdisj⟩ := List.nodup_append'.mp hl.nodup
  obtain ⟨hp, hndy⟩ := List.nodup_cons.mp hndp
  have hpx : p ∉ xs ++ [x] := fun hmem => hdisj hmem List.mem_cons_self
  have hhead : lru.head = (xs ++ [x] ++ y :: ys).head? := by rw [hl.head_eq]; cases xs <;> simp
  have htail : lru.tail = (xs ++ [x] ++ y :: ys).getLast? := by
    rw [hl.tail_eq]
    simp [List.getLast?_append]
  have hneh : lru.head ≠ some p := by
    rw [hl.head_eq]
    exact fun heq => hpx (List.mem_of_head? (by cases xs <;> simpa using heq))
  have hnet : lru.tail ≠ some p := by
    rw [htail]
    intro heq
    rcases List.mem_append.mp (List.mem_of_getLast? heq) with hmem | hmem
    · exact hpx hmem
    · exact hp hmem
  obtain ⟨n, hn, hprev, hnext⟩ := seg_cell _ _ hl.seg
  simp only [List.getLast?_append, List.getLast?_singleton, Option.some_or] at hprev
  simp only [List.head?_cons, Option.some_or] at hnext
  have hxp : x ≠ p := fun heq => hpx (by simp [heq])
  -- the two segments around `p`, each redirected at its inner end
  have hx : x ∉ xs := fun hmem => (List.nodup_append'.mp hndx).2.2 hmem List.mem_cons_self
  have hyx : y ∉ xs ++ [x] := fun hmem => hdisj hmem (by simp)
  have hxy : x ∉ y :: ys := fun hmem => hdisj (by simp) (List.mem_cons_of_mem _ hmem)
  obtain ⟨hleft, _, hright⟩ := Seg.append_iff.mp hl.seg
  have hleft' := (hleft.setNext_last hx (some y)).setPrev_of_notMem hyx (some x)
  have hright' := (hright.setNext_of_notMem hxy (some y)).setPrev_head
    (List.nodup_cons.mp hndy).1 (some x)
  have hdisj' : (xs ++ [x]).Disjoint (y :: ys) :=
    fun _ hl' hr' => hdisj hl' (List.mem_cons_of_mem _ hr')
  refine ⟨?_, List.nodup_append'.mpr ⟨hndx, hndy, hdisj'⟩, hhead, htail, ?_⟩
  · have hn' : (setNext h x (some y))[p]? = some n := by
      rw [getElem?_setNext, if_neg hxp, hn]
    simp only [removeNode, hneh, false_and, hnet, ↓reduceIte, deref_some hn, bind, Except.bind,
      hprev, hnext, storeNext, deref_some hn', storePrev, pure, Except.pure]
  · refine Seg.append_iff.mpr ⟨hleft', ?_⟩
    simpa using hright'

/-- `RemoveNode` unlinks any node of the list, wherever it stands. -/
theorem removeNode_isList (hl : IsList h lru.head lru.tail (xs ++ p :: ys)) :
    ∃ lru' h', removeNode lru h p = .ok (lru', h') ∧
      IsList h' lru'.head lru'.tail (xs ++ ys) ∧ SameKeys h h' := by
  rcases List.eq_nil_or_concat' xs with rfl | ⟨xs, x, rfl⟩
  · cases ys with
    | nil => exact ⟨_, _, removeNode_only hl, isList_nil h, SameKeys.refl h⟩
    | cons y ys =>
      obtain ⟨heq, hl'⟩ := removeNode_head hl
      exact ⟨_, _, heq, hl', sameKeys_setPrev _ _ _⟩
  · cases ys with
    | nil =>
      obtain ⟨heq, hl'⟩ := removeNode_tail hl
      exact ⟨_, _, heq, by rwa [List.append_nil], sameKeys_setNext _ _ _⟩
    | cons y ys =>
      obtain ⟨heq, hl'⟩ := removeNode_middle hl
      exact ⟨_, _, heq, hl', (sameKeys_setNext _ _ _).trans (sameKeys_setPrev _ _ _)⟩

/-- `addToFront` links an allocated node in front, whatever its stale pointers. -/
theorem addToFront_isList (hl : IsList h lru.head lru.tail ps) (hp : p ∉ ps)
    (hlt : p < h.length) :
    ∃ lru' h', addToFront lru h p = .ok (lru', h') ∧
      IsList h' lru'.head lru'.tail (p :: ps) ∧ SameKeys h h' := by
  have hn : h[p]? = some h[p] := List.getElem?_eq_getElem hlt
  cases ps with
  | nil =>
    have hhead : lru.head = none := hl.head_eq
    have htail : lru.tail = none := hl.tail_eq
    have hcell : (setPrev (setNext h p none) p none)[p]? = some ⟨h[p].key, none, none⟩ := by
      simp [getElem?_setPrev, getElem?_setNext, hn]
    refine ⟨⟨some p, some p⟩, setPrev (setNext h p none) p none, ?_,
      ⟨List.nodup_singleton p, rfl, rfl, ⟨_, hcell, rfl, rfl⟩, trivial⟩,
      (sameKeys_setNext _ _ _).trans (sameKeys_setPrev _ _ _)⟩
    simp only [addToFront, hhead, htail, and_self, ↓reduceIte, storeNext, storePrev, bind,
      Except.bind, pure, Except.pure]
  | cons q qs =>
    have hhead : lru.head = some q := hl.head_eq
    have hpq : q ≠ p := fun heq => hp (heq ▸ List.mem_cons_self)
    have hcell : (setPrev (setNext (setPrev h p none) p (some q)) q (some p))[p]? =
        some ⟨h[p].key, none, some q⟩ := by
      simp [getElem?_setPrev, getElem?_setNext, hn, hpq]
    -- the old list keeps its cells but for the `prev` of its first one
    have hrest := ((hl.seg.setPrev_of_notMem hp none).setNext_of_notMem hp (some q)).setPrev_head
      (List.nodup_cons.mp hl.nodup).1 (some p)
    refine ⟨⟨some p, lru.tail⟩, setPrev (setNext (setPrev h p none) p (some q)) q (some p), ?_,
      ⟨List.nodup_cons.mpr ⟨hp, hl.nodup⟩, rfl, ?_, ⟨_, hcell, rfl, rfl⟩, hrest⟩,
      ((sameKeys_setPrev _ _ _).trans (sameKeys_setNext _ _ _)).trans (sameKeys_setPrev _ _ _)⟩
    · simp only [addToFront, hhead, reduceCtorEq, false_and, ↓reduceIte, storeNext, storePrev,
        bind, Except.bind, pure, Except.pure]
    · rw [hl.tail_eq, List.getLast?_cons_cons]

/-- `MoveToFront` moves a node of the list to its head. -/
theorem moveToFront_isList (hl : IsList h lru.head lru.tail (xs ++ p :: ys)) :
    ∃ lru' h', moveToFront lru h p = .ok (lru', h') ∧
      IsList h' lru'.head lru'.tail (p :: (xs ++ ys)) ∧ SameKeys h h' := by
  by_cases hhead : lru.head = some p
  · -- already in front, so nothing precedes it
    have hxs : xs = [] := by
      cases xs with
      | nil => rfl
      | cons x xs =>
        have hx : x = p := Option.some.inj (hl.head_eq.symm.trans hhead)
        exact absurd (by simp [hx]) (List.nodup_cons.mp hl.nodup).1
    subst hxs
    exact ⟨lru, h, by simp only [moveToFront, hhead, ↓reduceIte], hl, SameKeys.refl h⟩
  · obtain ⟨lru₁, h₁, hrem, hl₁, hk₁⟩ := removeNode_isList hl
    have hp : p ∉ xs ++ ys := by
      have hnd := List.nodup_middle.mp hl.nodup
      exact (List.nodup_cons.mp hnd).1
    obtain ⟨n, hn⟩ := hl.seg.exists_cell (p := p) (by simp)
    have hlt := hk₁.lt_length (List.getElem?_eq_some_iff.mp hn).1
    obtain ⟨lru₂, h₂, hadd, hl₂, hk₂⟩ := addToFront_isList hl₁ hp hlt
    refine ⟨lru₂, h₂, ?_, hl₂, hk₁.trans hk₂⟩
    simp only [moveToFront, hhead, ↓reduceIte, hrem, bind, Except.bind, hadd]

/-- `RemoveLRU` on the empty list returns the empty key and changes nothing. -/
theorem removeLRU_nil (hl : IsList h lru.head lru.tail []) :
    removeLRU lru h = .ok (GoString.empty, lru, h) := by
  have htail : lru.tail = none := hl.tail_eq
  simp only [removeLRU, htail]

/-- `RemoveLRU` unlinks the tail and returns its key. -/
theorem removeLRU_isList {n : Node} (hl : IsList h lru.head lru.tail (xs ++ [p]))
    (hn : h[p]? = some n) :
    ∃ lru' h', removeLRU lru h = .ok (n.key, lru', h') ∧
      IsList h' lru'.head lru'.tail xs ∧ SameKeys h h' := by
  have htail : lru.tail = some p := by rw [hl.tail_eq, List.getLast?_concat]
  obtain ⟨lru', h', hrem, hl', hk⟩ := removeNode_isList hl
  refine ⟨lru', h', ?_, by rwa [List.append_nil] at hl', hk⟩
  simp only [removeLRU, htail, deref_some hn, bind, Except.bind, hrem, pure, Except.pure]

/-- `Add` allocates a node for the key and links it in front. The cells that
    were there keep their keys. -/
theorem add_isList (key : GoString) (hl : IsList h lru.head lru.tail ps)
    (hlt : ∀ p ∈ ps, p < h.length) :
    ∃ lru' h', add lru h key = .ok (h.length, lru', h') ∧
      IsList h' lru'.head lru'.tail (h.length :: ps) ∧
      SameKeys (h ++ [⟨key, none, none⟩]) h' := by
  have hl₁ : IsList (h ++ [⟨key, none, none⟩]) lru.head lru.tail ps :=
    hl.frame fun p hp => List.getElem?_append_left (hlt p hp)
  have hfresh : h.length ∉ ps := fun hmem => Nat.lt_irrefl _ (hlt _ hmem)
  obtain ⟨lru', h', hadd, hl', hk⟩ := addToFront_isList hl₁ hfresh (by simp)
  refine ⟨lru', h', ?_, hl', hk⟩
  simp only [add, hadd, bind, Except.bind, pure, Except.pure]

end GoCache.Spec
