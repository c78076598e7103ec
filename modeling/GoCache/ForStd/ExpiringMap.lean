import GoCache.ForStd.Recency
import Mathlib.Data.Set.Card

/-!
# Maps with deadlines

A map whose bindings may have a deadline, over arbitrary keys and values. Nothing
leaves the map when time passes: a binding past its deadline is no longer seen.

## Key results

- `lookup_ofEntries`, `size_ofEntries`: the map that a list of entries stands for
- `size_eq_length_iff`: when the list holds nothing that is no longer seen
-/

namespace ExpiringMap

open Recency

variable {K V P : Type*}

/-- A value, and the last moment at which it is seen. -/
structure Binding (V : Type*) where
  value : V
  deadline : Option Nat

/-- The binding is seen at this moment. -/
def Binding.Live (b : Binding V) (now : Nat) : Prop := ∀ d ∈ b.deadline, now ≤ d

instance (b : Binding V) (now : Nat) : Decidable (b.Live now) := by
  unfold Binding.Live
  infer_instance

/-- What is seen under a key. -/
def lookup (m : K → Option (Binding V)) (now : Nat) (k : K) : Option V :=
  ((m k).filter fun b => b.Live now).map Binding.value

/-- The number of keys under which something is seen. -/
noncomputable def size (m : K → Option (Binding V)) (now : Nat) : Nat :=
  {k | (lookup m now k).isSome}.ncard

/-! ## Lists of entries -/

section Entries

variable [DecidableEq K] (f : P → Binding V) {es : List (K × P)} {now : Nat}

/-- The map a list of entries stands for. -/
def ofEntries (es : List (K × P)) (k : K) : Option (Binding V) := (find? k es).map f

/-- The entries that are seen. -/
def liveEntries (now : Nat) (es : List (K × P)) : List (K × P) :=
  es.filter fun e => (f e.2).Live now

theorem lookup_ofEntries (hnd : (keys es).Nodup) (k : K) :
    lookup (ofEntries f es) now k = (find? k (liveEntries f now es)).map fun p => (f p).value := by
  unfold lookup ofEntries liveEntries
  rw [find?_filter hnd]
  cases find? k es with
  | none => rfl
  | some p =>
    simp only [Option.map_some, Option.filter_some]
    split <;> rfl

theorem size_ofEntries (hnd : (keys es).Nodup) :
    size (ofEntries f es) now = (liveEntries f now es).length := by
  have hkeys : {k | (lookup (ofEntries f es) now k).isSome} =
      ((keys (liveEntries f now es)).toFinset : Set K) := by
    ext k
    rw [Set.mem_ofPred_eq, lookup_ofEntries f hnd, Option.isSome_map, Finset.mem_coe,
      List.mem_toFinset, Option.isSome_iff_ne_none, ne_eq, find?_eq_none_iff, not_not]
  have hlive : (keys (liveEntries f now es)).Nodup :=
    hnd.sublist (keys_sublist List.filter_sublist)
  rw [size, hkeys, Set.ncard_coe_finset, List.toFinset_card_of_nodup hlive, length_keys]

theorem size_le_length (hnd : (keys es).Nodup) : size (ofEntries f es) now ≤ es.length := by
  rw [size_ofEntries f hnd]
  exact List.length_filter_le _ _

theorem size_eq_length_iff (hnd : (keys es).Nodup) :
    size (ofEntries f es) now = es.length ↔ ∀ e ∈ es, (f e.2).Live now := by
  rw [size_ofEntries f hnd, liveEntries, List.length_filter_eq_length_iff]
  simp only [decide_eq_true_eq]

end Entries

end ExpiringMap
