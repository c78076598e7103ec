import GoCache.Native.Protocol

/-!
# The parser reads what the encoder writes

Every encoded value is a frame of `parse`: it is read back exactly, whatever
follows it, and a frame cut anywhere is an error that leaves nothing unread.

## Key results

- `parse_eq`: `parse` as the recursive function of the source, without a bound
- `frames_encodeArray`: encoded arrays are frames of `parse`
- `parse_encodeArray`: the round trip, of one array and of any sequence of them
-/

namespace GoCache.Native

/-- What `Parse` returns for an element: an integer is an `int` again. -/
def Element.value : Element → Value
  | .str s => .str s
  | .int n => .int n
  | .int64 n => .int n

end GoCache.Native

namespace GoCache.Spec

open GoCache.Native Reading

/-! ## The parts of the parser -/

/-- A text of bounded length without a line feed. -/
def LineOf (bound : Nat) (text : Bytes) : Prop := byte '\n' ∉ text ∧ text.length ≤ bound

instance decidableLineOf (bound : Nat) (text : Bytes) : Decidable (LineOf bound text) :=
  inferInstanceAs (Decidable (_ ∧ _))

/-- The text of an error that can be quoted on a line. -/
def ShortText (text : String) : Prop := LineOf 64 (ascii text)

/-- A property of the readers that the parser is put together from. -/
structure OfParts (grants : Nat → Bool) (P : ∀ {α : Type}, Native.Reader α → Prop) : Prop
    extends Inherited P where
  fail : ∀ {α : Type} {text}, ShortText text → P (Reader.fail (.new text) : Native.Reader α)
  readString : ∀ delim, P (readString delim)
  readLineWithin : P readLine → P (readLineWithin grants)
  readFull : ∀ size, P (readFull size)
  expectByte : ∀ b {text}, ShortText text → P (expectByte b text)

section Parts

variable {grants : Nat → Bool} {P : ∀ {α : Type}, Native.Reader α → Prop} {p : Native.Reader Value}

theorem OfParts.readLine (h : OfParts grants P) : P readLine := by
  refine h.bind (h.readString _) fun line => ?_
  split
  · exact h.pure _
  · exact h.fail (by decide : LineOf 64 _)

theorem OfParts.line (h : OfParts grants P) : P (Native.readLineWithin grants) :=
  h.readLineWithin h.readLine

private theorem OfParts.toGoString (h : OfParts grants P) (bytes : Bytes) :
    P (toGoString bytes) := by
  unfold Native.toGoString
  split
  · exact h.pure _
  · exact h.abort _

theorem OfParts.make (h : OfParts grants P) (size : Nat) (length : Int64) :
    P (make grants size length) := by
  unfold Native.make
  split
  · exact h.abort _
  · split
    · exact h.pure _
    · exact h.abort _

private theorem OfParts.parseBulkString (h : OfParts grants P) : P (parseBulkString grants) := by
  refine h.bind h.line fun line => ?_
  split
  · exact h.fail (by decide : LineOf 64 _)
  · split
    · exact h.pure _
    · refine h.bind (h.make _ _) fun _ => h.bind (h.readFull _) fun data => ?_
      refine h.bind (h.expectByte _ (by decide : LineOf 64 _)) fun _ => ?_
      exact h.bind (h.expectByte _ (by decide : LineOf 64 _)) fun _ => h.toGoString data

theorem OfParts.parseElements (h : OfParts grants P) (hp : P p) (length : Nat) :
    P (parseElements p length) := by
  induction length with
  | zero => exact h.pure _
  | succ length ih => exact h.bind hp fun _ => h.bind ih fun _ => h.pure _

theorem OfParts.parseTyped (h : OfParts grants P) (hp : P p) (first : UInt8) :
    P (parseTyped grants p first) := by
  unfold Native.parseTyped
  split
  · exact h.map (h.bind h.line h.toGoString) _
  split
  · exact h.map (h.bind h.line h.toGoString) _
  split
  · refine h.map (h.bind h.line fun line => ?_) _
    split
    · exact h.fail (by decide : LineOf 64 _)
    · exact h.pure _
  split
  · exact h.map h.parseBulkString _
  split
  · refine h.bind h.line fun line => ?_
    split
    · exact h.fail (by decide : LineOf 64 _)
    · split
      · exact h.pure _
      · exact h.bind (h.make _ _) fun _ => h.map (h.parseElements hp _) _
  · exact h.fail (by decide : LineOf 64 _)

theorem OfParts.parseFuel (h : OfParts grants P) (hbyte : P readByte) (fuel : Nat) :
    P (parseFuel grants fuel) := by
  induction fuel with
  | zero => exact h.abort _
  | succ fuel ih => exact h.bind hbyte fun first => h.parseTyped ih first

end Parts

/-! ## The depth bound -/

theorem tails_parts (grants : Nat → Bool) : OfParts grants Tails where
  toInherited := inherited_tails
  fail _ := .fail _
  readString delim s := by
    unfold readString
    split
    · exact (List.tail_suffix _).trans (List.dropWhile_suffix _)
    · exact List.nil_suffix
  readLineWithin h s := by
    unfold readLineWithin
    split
    · exact h s
    · exact List.nil_suffix
  readFull size s := by
    unfold readFull
    split
    · exact List.drop_suffix _ _
    · split <;> exact List.nil_suffix
  expectByte b text _ s := by
    cases s with
    | nil => exact List.suffix_rfl
    | cons c s =>
      simp only [expectByte]
      split <;> exact List.suffix_cons c s

theorem tails_parseFuel (grants : Nat → Bool) (fuel : Nat) : Tails (parseFuel grants fuel) :=
  (tails_parts grants).parseFuel (Tails.next _) fuel

theorem tails_parse : Tails parse := fun s => tails_parseFuel grantAll (s.length + 1) s

section Depth

variable {p q : Reader Value} {n : Nat} {grants : Nat → Bool}

private theorem agree_parseElements (h : AgreeUpTo n p q) (hp : Tails p) (length : Nat) :
    AgreeUpTo n (parseElements p length) (parseElements q length) := by
  induction length with
  | zero => exact AgreeUpTo.refl _ _
  | succ length ih =>
    exact h.bind hp.shrinks fun _ => ih.bind ((tails_parts grantAll).parseElements hp _).shrinks
      fun _ => AgreeUpTo.refl _ _

/-- The switch only depends on how its elements parse. -/
private theorem agree_parseTyped (h : AgreeUpTo n p q) (hp : Tails p) (first : UInt8) :
    AgreeUpTo n (parseTyped grants p first) (parseTyped grants q first) := by
  unfold parseTyped
  split; · exact AgreeUpTo.refl _ _
  split; · exact AgreeUpTo.refl _ _
  split; · exact AgreeUpTo.refl _ _
  split; · exact AgreeUpTo.refl _ _
  split
  · refine (AgreeUpTo.refl n (readLineWithin grants)).bind
      (tails_parts grants).line.shrinks fun line => ?_
    split
    · exact AgreeUpTo.refl _ _
    · split
      · exact AgreeUpTo.refl _ _
      · have hparts := tails_parts grants
        refine (AgreeUpTo.refl n (make grants _ _)).bind (hparts.make _ _).shrinks fun _ => ?_
        exact (agree_parseElements h hp _).bind (hparts.parseElements hp _).shrinks fun _ =>
          AgreeUpTo.refl _ _
  · exact AgreeUpTo.refl _ _

private theorem parseFuel_nil (fuel : Nat) : parseFuel grants (fuel + 1) [] = .err .eof [] := rfl

theorem parseFuel_cons (fuel : Nat) (first : UInt8) (rest : Bytes) :
    parseFuel grants (fuel + 1) (first :: rest) =
      parseTyped grants (parseFuel grants fuel) first rest := rfl

/-- A bound above the number of bytes is as good as any larger one. -/
theorem agree_parseFuel (n m : Nat) (h : n ≤ m) :
    AgreeUpTo n (parseFuel grants (n + 1)) (parseFuel grants (m + 1)) := by
  induction n generalizing m with
  | zero =>
    intro s hs
    rw [List.eq_nil_of_length_eq_zero (Nat.le_zero.mp hs), parseFuel_nil, parseFuel_nil]
  | succ n ih =>
    intro s hs
    obtain ⟨m, rfl⟩ : ∃ m', m = m' + 1 := ⟨m - 1, by omega⟩
    cases s with
    | nil => rw [parseFuel_nil, parseFuel_nil]
    | cons first rest =>
      -- the first byte is gone when the elements are parsed
      have hagree := ih m (by omega)
      rw [List.length_cons] at hs
      rw [parseFuel_cons, parseFuel_cons]
      exact agree_parseTyped hagree (tails_parseFuel grants _) first rest (by omega)

/-- `parse` satisfies the equation of the source. -/
theorem parse_eq : parse = readByte >>= parseTyped grantAll parse := by
  funext s
  cases s with
  | nil => rfl
  | cons first rest =>
    have hagree : AgreeUpTo rest.length parse (parseFuel grantAll (rest.length + 1)) :=
      fun t ht => agree_parseFuel t.length rest.length ht t le_rfl
    exact (agree_parseTyped hagree tails_parse first rest le_rfl).symm

theorem parse_cons (first : UInt8) (rest : Bytes) :
    parse (first :: rest) = parseTyped grantAll parse first rest := by
  conv_lhs => rw [parse_eq]
  rfl

theorem parse_nil : parse [] = .err .eof [] := rfl

/-- A value takes at least one byte. -/
theorem length_lt_of_parse {s rest : Bytes} {v : Value} (h : parse s = .ok v rest) :
    rest.length < s.length := by
  cases s with
  | nil => exact nomatch h
  | cons first s =>
    have hshrinks := ((tails_parts grantAll).parseTyped tails_parse first).shrinks s
    rw [parse_cons] at h
    rw [h] at hshrinks
    exact Nat.lt_succ_of_le hshrinks

/-- Every call of `Parse` that does not report the end of the input reads at
    least one byte. -/
theorem progresses_parse {σ ρ : Type} {onErr : σ → ParseError → Turn σ ρ}
    (heof : ∀ st, ∃ r, onErr st .eof = .stop r) : Progresses onErr parse where
  ok_lt _ _ _ hok := length_lt_of_parse hok
  err_lt s e rest st st' herr hnext := by
    cases s with
    | nil =>
      cases herr
      obtain ⟨r, hr⟩ := heof st
      rw [hr] at hnext
      exact nomatch hnext
    | cons first s =>
      have hshrinks := ((tails_parts grantAll).parseTyped tails_parse first).shrinks s
      rw [parse_cons] at herr
      rw [herr] at hshrinks
      exact Nat.lt_succ_of_le hshrinks

end Depth

/-! ## Decimal conversion -/

/-- `Atoi` undoes `Itoa` on every 64-bit integer. -/
theorem atoi_itoa (n : Int64) : atoi (itoa n) = some n := by
  have hlo := Int64.le_toInt n
  have hhi := Int64.toInt_lt n
  rw [atoi, itoa, Decimal.parseInt?_formatInt]
  show (if -2 ^ 63 ≤ n.toInt ∧ n.toInt < 2 ^ 63 then some (Int64.ofInt n.toInt) else none) = some n
  rw [if_pos ⟨hlo, hhi⟩, Int64.ofInt_toInt]

/-- `Atoi` accepts only digits behind a sign, or without one. -/
theorem atoi_range {text : Bytes} {n : Int64} (h : atoi text = some n) :
    text ≠ [] ∧ ∀ b ∈ text, 43 ≤ b ∧ b ≤ 57 := by
  unfold atoi at h
  split at h
  · exact nomatch h
  · next m hm => exact Decimal.parseInt?_range hm

/-- No line that `Atoi` accepts contains a line feed. -/
theorem newline_notMem_of_atoi {text : Bytes} {n : Int64} (h : atoi text = some n) :
    byte '\n' ∉ text := by
  intro hmem
  have hrange := ((atoi_range h).2 _ hmem).1
  exact absurd hrange (by decide)

/-- No line of decimal digits contains a line feed. -/
theorem newline_notMem_itoa (n : Int64) : byte '\n' ∉ itoa n :=
  newline_notMem_of_atoi (atoi_itoa n)

/-- A length in memory is written as the 64-bit integer it is: not negative, and
    so not the null marker. -/
theorem ofNat_length {len : Nat} (h : len ≤ maxAlloc) :
    (Int64.ofNat len).toInt.toNat = len ∧ Int64.ofNat len ≠ -1 ∧ ¬ Int64.ofNat len < 0 := by
  have hmax : maxAlloc < 2 ^ 63 := by decide
  have htoInt : (Int64.ofNat len).toInt = len := Int64.toInt_ofNat_of_lt (by omega)
  have hnonneg : ¬ Int64.ofNat len < 0 := by
    rw [Int64.lt_iff_toInt_lt, htoInt]
    show ¬ ((len : Int) < 0)
    omega
  refine ⟨by rw [htoInt, Int.toNat_natCast], ?_, hnonneg⟩
  intro heq
  exact hnonneg (heq ▸ by decide)

/-! ## Frames -/

theorem frames_readString {delim : UInt8} {line : Bytes} (h : delim ∉ line) :
    Frames (readString delim) (line ++ [delim]) (line ++ [delim]) where
  reads t := by
    have hne : ∀ b ∈ line, decide (b ≠ delim) = true := by
      intro b hb
      exact decide_eq_true fun heq => h (heq ▸ hb)
    rw [readString, if_pos (by simp), List.append_assoc, List.takeWhile_append_of_pos hne,
      List.dropWhile_append_of_pos hne]
    simp
  torn g hpre hne := by
    have hg : g <+: line := by
      rcases List.prefix_concat_iff.mp hpre with heq | hpre'
      · exact absurd heq hne
      · exact hpre'
    refine ⟨.eof, ?_⟩
    rw [readString, if_neg fun hmem => h (hg.subset hmem)]

/-- A line without a line feed is read up to its terminator. -/
theorem frames_readLine {line : Bytes} (h : byte '\n' ∉ line) :
    Frames readLine (line ++ crlf) line := by
  have hline : byte '\n' ∉ line ++ [byte '\r'] := by
    rw [List.mem_append, not_or]
    exact ⟨h, by decide⟩
  have hread : Frames (readString (byte '\n')) (line ++ crlf) (line ++ crlf) := by
    have hframes := frames_readString hline
    rwa [List.append_assoc] at hframes
  have hsuffix : crlf.isSuffixOf (line ++ crlf) = true :=
    List.isSuffixOf_iff_suffix.mpr (List.suffix_append _ _)
  rw [← List.append_nil (line ++ crlf)]
  refine hread.bind ?_
  rw [if_pos hsuffix, List.length_append, Nat.add_sub_cancel, List.take_left]
  exact Frames.pure line

/-- A line is read off exactly those bytes that begin with it and its terminator. -/
theorem readLine_eq_ok {s line rest : Bytes} :
    readLine s = .ok line rest ↔ byte '\n' ∉ line ∧ s = line ++ crlf ++ rest := by
  constructor
  · intro h
    unfold readLine at h
    rw [bind_apply] at h
    by_cases hmem : byte '\n' ∈ s
    · -- the first line feed ends the line, and a carriage return stands before it
      obtain ⟨pre, post, rfl, hpre⟩ := List.eq_append_cons_of_mem hmem
      have hread := (frames_readString hpre).reads post
      rw [List.append_assoc, List.singleton_append] at hread
      rw [hread] at h
      simp only at h
      split at h
      · next hsuffix =>
        obtain ⟨t, ht⟩ := List.isSuffixOf_iff_suffix.mp hsuffix
        have hcr : pre = t ++ [byte '\r'] := by
          have hsplit : t ++ crlf = (t ++ [byte '\r']) ++ [byte '\n'] := by simp [crlf]
          rw [hsplit] at ht
          exact (List.append_inj_left' ht rfl).symm
        rw [← ht, List.length_append, Nat.add_sub_cancel, List.take_left] at h
        obtain ⟨rfl, rfl⟩ : t = line ∧ post = rest := by
          simpa [Pure.pure, Reader.pure] using h
        subst hcr
        rw [List.mem_append, not_or] at hpre
        exact ⟨hpre.1, by simp [crlf]⟩
      · exact nomatch h
    · rw [readString, if_neg hmem] at h
      exact nomatch h
  · rintro ⟨hline, rfl⟩
    exact (frames_readLine hline).reads rest

theorem frames_readFull (data : Bytes) : Frames (readFull data.length) data data where
  reads t := by
    rw [readFull, if_pos (by simp), List.take_left, List.drop_left]
  torn g hpre hne := by
    have hlt : g.length < data.length := by
      have hle := hpre.length_le
      by_contra hge
      exact hne (hpre.eq_of_length (by omega))
    rw [readFull, if_neg (by omega)]
    by_cases hg : g = []
    · exact ⟨.eof, if_pos hg⟩
    · exact ⟨.unexpectedEOF, if_neg hg⟩

theorem frames_expectByte (b : UInt8) (text : String) :
    Frames (expectByte b text) [b] () where
  reads t := if_pos rfl
  torn g hpre hne := by
    cases g with
    | nil => exact ⟨_, rfl⟩
    | cons c g =>
      obtain ⟨rfl, hg⟩ := List.cons_prefix_cons.mp hpre
      exact absurd (by rw [List.prefix_nil.mp hg]) hne

private theorem frames_toGoString (s : GoString) : Frames (toGoString s.bytes) [] s := by
  rw [toGoString, dif_pos s.length_le]
  exact Frames.pure s

/-- A line that is read as a number. -/
theorem frames_integerLine {text : Bytes} {n : Int64} (h : atoi text = some n) :
    Frames (parseInteger grantAll) (text ++ crlf) n := by
  rw [← List.append_nil (text ++ crlf)]
  refine (frames_readLine (newline_notMem_of_atoi h)).bind ?_
  rw [h]
  exact Frames.pure n

theorem frames_parseInteger (n : Int64) : Frames (parseInteger grantAll) (itoa n ++ crlf) n :=
  frames_integerLine (atoi_itoa n)

/-- A slice of a length in memory is granted. -/
private theorem frames_make {size len : Nat} (hlen : len ≤ maxAlloc)
    (hfits : size * len ≤ maxAlloc) : Frames (make grantAll size (Int64.ofNat len)) [] () := by
  obtain ⟨htoNat, -, hnonneg⟩ := ofNat_length hlen
  have hle : ¬ maxAlloc < size * (Int64.ofNat len).toInt.toNat := by
    rw [htoNat]
    omega
  rw [make, if_neg (not_or.mpr ⟨hnonneg, hle⟩)]
  exact Frames.pure ()

/-- A bulk string behind a line that is read as its length. -/
theorem frames_bulkLine {text : Bytes} (s : GoString)
    (h : atoi text = some (Int64.ofNat s.length)) :
    Frames (parseBulkString grantAll) (text ++ crlf ++ (s.bytes ++ crlf)) s := by
  unfold GoString.length at h
  obtain ⟨hlen, hnull, -⟩ := ofNat_length s.length_le
  refine (frames_readLine (newline_notMem_of_atoi h)).bind ?_
  rw [h]
  show Frames (if Int64.ofNat s.bytes.length = -1 then _ else _) ([] ++ _) _
  rw [if_neg hnull, hlen]
  refine (frames_make s.length_le (by rw [Nat.one_mul]; exact s.length_le)).bind ?_
  refine (frames_readFull s.bytes).bind ?_
  show Frames _ ([byte '\r'] ++ ([byte '\n'] ++ [])) _
  exact (frames_expectByte _ _).bind ((frames_expectByte _ _).bind (frames_toGoString s))

theorem frames_parseBulkString (s : GoString) :
    Frames (parseBulkString grantAll)
      (itoa (Int64.ofNat s.length) ++ crlf ++ (s.bytes ++ crlf)) s :=
  frames_bulkLine s (atoi_itoa _)

/-- A null bulk string is read as the empty one. -/
theorem frames_nullLine {text : Bytes} (h : atoi text = some (-1)) :
    Frames (parseBulkString grantAll) (text ++ crlf) GoString.empty := by
  rw [← List.append_nil (text ++ crlf)]
  refine (frames_readLine (newline_notMem_of_atoi h)).bind ?_
  rw [h]
  exact Frames.pure _

/-! ## Values -/

/-- A frame of the switch, behind its type byte. -/
theorem frames_typed (first : UInt8) {xs : Bytes} {v : Value}
    (h : Frames (parseTyped grantAll parse first) xs v) : Frames parse (first :: xs) v := by
  rw [parse_eq]
  exact (Frames.next .eof first).bind h

/-- Every encoded element is a frame of `parse`. -/
theorem frames_encodeElement (e : Element) : Frames parse (encodeElement e) e.value := by
  cases e with
  | str s =>
    have hframes := frames_typed (byte '$') ((frames_parseBulkString s).map Value.str)
    simpa [encodeElement, encodeBulkString, Element.value, List.append_assoc] using hframes
  | int n | int64 n => exact frames_typed (byte ':') ((frames_parseInteger n).map Value.int)

theorem frames_parseElements {α : Type} {p : Native.Reader Value} {enc : α → Bytes}
    {val : α → Value} (h : ∀ a, Frames p (enc a) (val a)) (as : List α) :
    Frames (parseElements p as.length) (as.flatMap enc) (as.map val) := by
  induction as with
  | nil => exact Frames.pure _
  | cons a as ih =>
    rw [List.flatMap_cons, List.length_cons, List.map_cons]
    refine (h a).bind ?_
    rw [← List.append_nil (as.flatMap enc)]
    exact ih.bind (Frames.pure _)

/-- An array behind a line that is read as its length is a frame if its elements are. -/
theorem frames_arrayLine {text xs : Bytes} {vs : List Value}
    (htext : atoi text = some (Int64.ofNat vs.length)) (hle : 16 * vs.length ≤ maxAlloc)
    (h : Frames (parseElements parse vs.length) xs vs) :
    Frames parse (byte '*' :: text ++ crlf ++ xs) (.arr vs) := by
  have hlength : vs.length ≤ maxAlloc := by omega
  obtain ⟨hlen, hnull, -⟩ := ofNat_length hlength
  have harray : Frames (parseArray grantAll parse) (text ++ crlf ++ xs) (.arr vs) := by
    refine (frames_readLine (newline_notMem_of_atoi htext)).bind ?_
    rw [htext]
    show Frames (if Int64.ofNat vs.length = -1 then _ else _) ([] ++ _) _
    rw [if_neg hnull, hlen]
    exact (frames_make hlength hle).bind (h.map Value.arr)
  exact frames_typed (byte '*') harray

/-- An array is a frame if its elements are. -/
theorem frames_array {xs : Bytes} {vs : List Value} (hle : 16 * vs.length ≤ maxAlloc)
    (h : Frames (parseElements parse vs.length) xs vs) :
    Frames parse (byte '*' :: itoa (Int64.ofNat vs.length) ++ crlf ++ xs) (.arr vs) :=
  frames_arrayLine (atoi_itoa _) hle h

/-- Every encoded array is a frame of `parse`. -/
theorem frames_encodeArray (es : ElementSlice) :
    Frames parse (encodeArray es.elements) (.arr (es.elements.map Element.value)) := by
  have hframes := frames_parseElements frames_encodeElement es.elements
  have hle := es.length_le
  rw [← List.length_map Element.value] at hframes hle
  have harray := frames_array hle hframes
  rwa [List.length_map] at harray

/-- A simple string without a line feed. -/
theorem frames_encodeSimpleString (s : GoString) (h : byte '\n' ∉ s.bytes) :
    Frames parse (encodeSimpleString s.bytes) (.str s) := by
  have hline := (frames_readLine h).bind (frames_toGoString s)
  rw [List.append_nil] at hline
  exact frames_typed (byte '+') (hline.map Value.str)

/-- An error without a line feed. -/
theorem frames_encodeError (s : GoString) (h : byte '\n' ∉ s.bytes) :
    Frames parse (encodeError s.bytes) (.str s) := by
  have hline := (frames_readLine h).bind (frames_toGoString s)
  rw [List.append_nil] at hline
  exact frames_typed (byte '-') (hline.map Value.str)

/-- The null bulk string is read as the empty one. -/
theorem frames_encodeNull (s : GoString) :
    Frames parse (encodeBulkString s true) (.str GoString.empty) :=
  frames_typed (byte '$') ((frames_nullLine (atoi_itoa (-1))).map Value.str)

/-- `Parse` reads an encoded array back and leaves what follows it unread, and
    reads a sequence of encoded arrays back in order. -/
theorem parse_encodeArray :
    (∀ (es : ElementSlice) (rest : Bytes), parse (encodeArray es.elements ++ rest) =
      .ok (.arr (es.elements.map Element.value)) rest) ∧
    (∀ (ess : List ElementSlice) (rest : Bytes),
      parseElements parse ess.length (ess.flatMap (fun es => encodeArray es.elements) ++ rest) =
        .ok (ess.map fun es => .arr (es.elements.map Element.value)) rest) := by
  constructor
  · intro es rest
    exact (frames_encodeArray es).reads rest
  · intro ess rest
    exact (frames_parseElements frames_encodeArray ess).reads rest

end GoCache.Spec
