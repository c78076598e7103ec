import Mathlib.Data.List.Infix

/-!
# UTF-8 in lists of bytes

The encoding of the standard library, on lists. A byte below 128 stands for itself and is
in the middle of no character, so a text can be cut in front of it.

## Key results

- `decode_encode`: decoding undoes encoding
- `IsUtf8.of_append`, `IsUtf8.of_cons`: a text cut in front of an ASCII byte, and behind it
-/

namespace Utf8

/-- The bytes of a sequence of characters. -/
def encode (cs : List Char) : List UInt8 := cs.flatMap String.utf8EncodeChar

/-- The characters of a sequence of bytes, unless it is no UTF-8. -/
def decode (bs : List UInt8) : Option (List Char) := bs.toByteArray.utf8Decode?.map Array.toList

/-- The bytes are those of some characters. -/
def IsUtf8 (bs : List UInt8) : Prop := ∃ cs, encode cs = bs

theorem decode_encode (cs : List Char) : decode (encode cs) = some cs := by
  show (List.utf8Encode cs).utf8Decode?.map Array.toList = some cs
  rw [List.utf8Decode?_utf8Encode, Option.map_some]

theorem IsUtf8.append {xs ys : List UInt8} (hxs : IsUtf8 xs) (hys : IsUtf8 ys) :
    IsUtf8 (xs ++ ys) := by
  obtain ⟨cs, rfl⟩ := hxs
  obtain ⟨ds, rfl⟩ := hys
  exact ⟨cs ++ ds, List.flatMap_append⟩

theorem IsUtf8.exists_decode {bs : List UInt8} (h : IsUtf8 bs) :
    ∃ cs, decode bs = some cs ∧ encode cs = bs := by
  obtain ⟨cs, rfl⟩ := h
  exact ⟨cs, decode_encode cs, rfl⟩

private theorem and_128_eq_zero {b : UInt8} (h : b < 128) : b &&& 128 = 0 := by
  have hlt : b.toNat < 2 ^ 7 := h
  apply UInt8.toNat_inj.mp
  rw [UInt8.toNat_and]
  show b.toNat &&& 2 ^ 7 = 0
  apply Nat.eq_of_testBit_eq
  intro i
  rw [Nat.testBit_and, Nat.testBit_two_pow, Nat.zero_testBit]
  by_cases hi : 7 = i
  · subst hi
    rw [Nat.testBit_lt_two_pow hlt, Bool.false_and]
  · simp [hi]

/-- The bytes of a character behind the first are not ASCII. -/
private theorem le_of_utf8EncodeChar {c : Char} {x y : List UInt8} {b : UInt8}
    (h : String.utf8EncodeChar c = x ++ b :: y) (hx : x ≠ []) : ¬ b < 128 := by
  have hlen : x.length < (String.utf8EncodeChar c).length := by
    rw [h, List.length_append, List.length_cons]
    omega
  have hb : (String.utf8EncodeChar c)[x.length] = b := by
    simp [h]
  intro hlt
  have hfirst : b.IsUTF8FirstByte := .inl (and_128_eq_zero hlt)
  rw [← hb, UInt8.isUTF8FirstByte_getElem_utf8EncodeChar] at hfirst
  exact hx (List.length_eq_zero_iff.mp hfirst)

/-- A text can be cut in front of an ASCII byte. -/
theorem IsUtf8.of_append {xs ys : List UInt8} (h : IsUtf8 (xs ++ ys))
    (hys : ∀ b ∈ ys.head?, b < 128) : IsUtf8 xs ∧ IsUtf8 ys := by
  obtain ⟨cs, hcs⟩ := h
  induction cs generalizing xs with
  | nil =>
    obtain ⟨rfl, rfl⟩ := List.append_eq_nil_iff.mp hcs.symm
    exact ⟨⟨[], rfl⟩, ⟨[], rfl⟩⟩
  | cons c cs ih =>
    rw [encode, List.flatMap_cons] at hcs
    obtain ⟨zs, hxs, hcs⟩ | ⟨zs, hc, hzs⟩ := List.append_eq_append_iff.mp hcs
    · -- the character is in front of the cut
      obtain ⟨⟨ds, hds⟩, hys⟩ := ih hcs
      refine ⟨⟨c :: ds, ?_⟩, hys⟩
      rw [hxs, ← hds]
      rfl
    · cases zs with
      | nil =>
        rw [List.append_nil] at hc
        refine ⟨⟨[c], ?_⟩, ⟨cs, ?_⟩⟩
        · rw [encode, List.flatMap_singleton, hc]
        · rw [hzs, encode, List.nil_append]
      | cons b zs =>
        -- the cut is in the character, and so at its beginning
        have hb : b < 128 := hys b (by rw [hzs]; rfl)
        have hxs : xs = [] := by
          by_contra hne
          exact le_of_utf8EncodeChar hc hne hb
        subst hxs
        refine ⟨⟨[], rfl⟩, ⟨c :: cs, ?_⟩⟩
        rw [hzs, encode, List.flatMap_cons, hc]
        rfl

/-- The first byte of a character that has others is not ASCII. -/
private theorem eq_nil_of_utf8EncodeChar {c : Char} {b : UInt8} {x : List UInt8}
    (h : String.utf8EncodeChar c = b :: x) (hb : b < 128) : x = [] := by
  have hlarge : ∀ n, 128 ≤ n → n < 256 → ¬ UInt8.ofNat n < 128 := by
    intro n hlo hhi hlt
    have hnat : n % 256 < 128 := hlt
    omega
  unfold String.utf8EncodeChar at h
  simp only at h
  split at h
  · cases h
    rfl
  · split at h
    · cases h
      exact absurd hb (hlarge _ (by omega) (by omega))
    · split at h
      · cases h
        exact absurd hb (hlarge _ (by omega) (by omega))
      · cases h
        exact absurd hb (hlarge _ (by omega) (by omega))

/-- A text can be cut behind an ASCII byte. -/
theorem IsUtf8.of_cons {b : UInt8} {xs : List UInt8} (h : IsUtf8 (b :: xs)) (hb : b < 128) :
    IsUtf8 xs := by
  obtain ⟨cs, hcs⟩ := h
  cases cs with
  | nil => cases hcs
  | cons c cs =>
    rw [encode, List.flatMap_cons] at hcs
    cases hc : String.utf8EncodeChar c with
    | nil => exact absurd hc String.utf8EncodeChar_ne_nil
    | cons d x =>
      rw [hc, List.cons_append] at hcs
      obtain ⟨rfl, hxs⟩ := List.cons.inj hcs
      rw [eq_nil_of_utf8EncodeChar hc hb] at hxs
      exact ⟨cs, hxs⟩

/-- A sequence of texts that begin with ASCII bytes, behind one another. -/
theorem IsUtf8.of_flatMap {α : Type*} {text : α → List UInt8}
    (hfirst : ∀ a, ∃ b bs, text a = b :: bs ∧ b < 128) {as : List α}
    (h : IsUtf8 (as.flatMap text)) : ∀ a ∈ as, IsUtf8 (text a) := by
  induction as with
  | nil => exact fun a ha => absurd ha List.not_mem_nil
  | cons a as ih =>
    rw [List.flatMap_cons] at h
    have hhead : ∀ b ∈ (as.flatMap text).head?, b < 128 := by
      cases as with
      | nil => exact fun b hb => nomatch hb
      | cons a' as =>
        intro b hb
        obtain ⟨c, bs, htext, hc⟩ := hfirst a'
        rw [List.flatMap_cons, htext] at hb
        cases hb
        exact hc
    obtain ⟨ha, hrest⟩ := h.of_append hhead
    intro x hx
    rcases List.mem_cons.mp hx with rfl | hx
    · exact ha
    · exact ih hrest x hx

end Utf8
