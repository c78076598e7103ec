import GoCache.Native.PythonClient
import GoCache.Spec.Grammar

/-!
# Two parsers of RESP

The parser of the Python client on the messages that `Parse` accepts. It finds the same
lines, numbers and data, wherever a message stands in the buffer, and asks for more where
the buffer ends within it. What it cannot do is what its interpreter does not allow: call
itself once for each array around a value, and convert a text of any number of digits.

## Key results

- `scans_parse`: a message that the interpreter has room for
- `refuses_parse`: any other message
- `python_parses_iff`: both parsers on the same bytes, and the encoder of commands
- `python_recursion`: a message that only `Parse` reads
-/

namespace GoCache.Spec

open GoCache.Native Scanning Utf8

/-! ## What a message takes -/

/-- The text is short enough to be converted. -/
def Python.Converts (py : Python.Interpreter) (line : Bytes) : Prop :=
  py.maxStrDigits = 0 ∨ Python.digitCount line ≤ py.maxStrDigits

namespace Resp

/-- All texts of the message are UTF-8. -/
def Utf8 : Resp → Prop
  | .simple text _ | .error text _ => IsUtf8 text.bytes
  | .integer line _ _ | .nullBulk line _ | .nullArray line _ => IsUtf8 line
  | .bulk line data _ => IsUtf8 line ∧ IsUtf8 data.bytes
  | .array line _ _ _ elements => IsUtf8 line ∧ ∀ i, (elements i).Utf8

/-- The characters of a text. -/
def chars (text : Bytes) : List Char := (decode text).getD []

/-- The corresponding value of the Python client. -/
def pyValue : Resp → Python.Value
  | .simple text _ => .str (chars text.bytes)
  | .error text _ => .exception (chars text.bytes)
  | .integer _ n _ => .int n.toInt
  | .nullBulk _ _ | .nullArray _ _ => .none
  | .bulk _ data _ => .str (chars data.bytes)
  | .array _ length _ _ elements =>
    .list ((List.finRange length).map fun i => (elements i).pyValue)

/-- How many arrays stand around the innermost value. -/
def depth : Resp → Nat
  | .simple _ _ | .error _ _ | .integer _ _ _ | .nullBulk _ _ | .bulk _ _ _ | .nullArray _ _ => 0
  | .array _ _ _ _ elements => Finset.univ.sup fun i => (elements i).depth + 1

/-- The lines that are read as numbers. -/
def numbers : Resp → List Bytes
  | .simple _ _ | .error _ _ => []
  | .integer line _ _ | .nullBulk line _ | .bulk line _ _ | .nullArray line _ => [line]
  | .array line length _ _ elements =>
    line :: (List.finRange length).flatMap fun i => (elements i).numbers

/-- There is a frame for each array, one for the innermost value and one for `_read_line`,
    and all numbers can be converted. -/
def Fits (py : Python.Interpreter) (frames : Nat) (m : Resp) : Prop :=
  m.depth + 2 ≤ frames ∧ ∀ line ∈ m.numbers, Python.Converts py line

theorem fits_array_iff {py : Python.Interpreter} {frames : Nat} {line : Bytes} {length : Nat}
    {reads : atoi line = some (Int64.ofNat length)} {le : 16 * length ≤ maxAlloc}
    {elements : Fin length → Resp} :
    (Resp.array line length reads le elements).Fits py (frames + 1) ↔
      0 < frames ∧ Python.Converts py line ∧ ∀ i, (elements i).Fits py frames := by
  have hdepth : (Resp.array line length reads le elements).depth + 2 ≤ frames + 1 ↔
      0 < frames ∧ ∀ i, (elements i).depth + 2 ≤ frames := by
    rw [depth]
    constructor
    · intro h
      refine ⟨by omega, fun i => ?_⟩
      have hle : (elements i).depth + 1 ≤ Finset.univ.sup fun i => (elements i).depth + 1 :=
        Finset.le_sup (f := fun i => (elements i).depth + 1) (Finset.mem_univ i)
      omega
    · rintro ⟨hpos, hall⟩
      have : (Finset.univ.sup fun i => (elements i).depth + 1) ≤ frames - 1 := by
        apply Finset.sup_le
        intro i _
        have := hall i
        omega
      omega
  rw [Fits, hdepth, numbers, List.forall_mem_cons, List.forall_mem_flatMap]
  constructor
  · rintro ⟨⟨hpos, hdepth⟩, hline, hnumbers⟩
    exact ⟨hpos, hline, fun i => ⟨hdepth i, hnumbers i (List.mem_finRange i)⟩⟩
  · rintro ⟨hpos, hline, hall⟩
    exact ⟨⟨hpos, fun i => (hall i).1⟩, hline, fun i _ => (hall i).2⟩

end Resp

/-! ## Texts -/

private theorem decode_eq_chars {text : Bytes} (h : IsUtf8 text) :
    decode text = some (Resp.chars text) ∧ encode (Resp.chars text) = text := by
  obtain ⟨cs, hcs, hencode⟩ := h.exists_decode
  rw [Resp.chars, hcs]
  exact ⟨rfl, hencode⟩

/-- A text in front of its terminator, and what is behind it. -/
private theorem utf8_line {text rest : Bytes} (h : IsUtf8 (text ++ crlf ++ rest)) :
    IsUtf8 text ∧ IsUtf8 rest := by
  rw [List.append_assoc] at h
  obtain ⟨htext, hcrlf⟩ := h.of_append (by
    intro b hb
    cases hb
    decide)
  have hlf : IsUtf8 (byte '\n' :: rest) := hcrlf.of_cons (by decide)
  exact ⟨htext, hlf.of_cons (by decide)⟩

private theorem utf8_lastLine {text : Bytes} (h : IsUtf8 (text ++ crlf)) : IsUtf8 text := by
  rw [← List.append_nil (text ++ crlf)] at h
  exact (utf8_line h).1

private theorem first_wire (m : Resp) : ∃ b bs, m.wire = b :: bs ∧ b < 128 := by
  cases m <;> exact ⟨_, _, rfl, by decide⟩

/-- If the bytes of a message are UTF-8, its texts are. -/
theorem utf8_of_wire (m : Resp) (h : IsUtf8 m.wire) : m.Utf8 := by
  induction m with
  | simple text plain | error text plain | integer line n reads | nullBulk line reads
  | nullArray line reads => exact utf8_lastLine (h.of_cons (by decide))
  | bulk line data reads =>
    obtain ⟨hline, hdata⟩ := utf8_line (h.of_cons (by decide))
    exact ⟨hline, utf8_lastLine hdata⟩
  | array line length reads le elements ih =>
    obtain ⟨hline, helements⟩ := utf8_line (h.of_cons (by decide))
    refine ⟨hline, fun i => ih i ?_⟩
    exact IsUtf8.of_flatMap (fun i => first_wire (elements i)) helements i (List.mem_finRange i)

/-! ## The parts of the parser -/

section Parts

/-- `_IncompleteData`. -/
def Python.AsksForMore : Python.Error → Prop
  | .incompleteData _ => True
  | .unknownType _ _ | .recursion | .unicodeDecode | .invalidInt _ => False

open Python (AsksForMore)

theorem sliceBound_length (pre rest : Bytes) :
    Python.sliceBound (pre ++ rest).length pre.length = pre.length := by
  rw [Python.sliceBound, if_neg (by omega), Int.toNat_natCast, List.length_append]
  omega

private theorem item_natCast (data : Bytes) (n : Nat) : Python.item data n = data[n]? := by
  have hnonneg : ¬ (n : Int) < 0 := by omega
  simp only [Python.item, if_neg hnonneg, Int.toNat_natCast]

private theorem scans_readType (b : UInt8) : Scans AsksForMore Python.readType [b] b where
  reads pre t := by
    have hitem : Python.item (pre ++ ([b] ++ t)) pre.length = some b := by
      simp [item_natCast]
    rw [Python.readType, hitem, List.length_append]
    rfl
  torn pre g hpre hne := by
    have hg : g = [] := by
      cases g with
      | nil => rfl
      | cons c g =>
        obtain ⟨rfl, hg⟩ := List.cons_prefix_cons.mp hpre
        exact absurd (by rw [List.prefix_nil.mp hg]) hne
    subst hg
    have hitem : Python.item (pre ++ []) pre.length = none := by
      simp [item_natCast]
    exact ⟨.incompleteData .typeByte, trivial, by rw [Python.readType, hitem]⟩

/-! ### Lines -/

private theorem find_crlf_append {text : Bytes} (h : byte '\n' ∉ text) (rest : Bytes) :
    Python.find crlf (text ++ (crlf ++ rest)) = some text.length := by
  induction text with
  | nil => rfl
  | cons b text ih =>
    rw [List.mem_cons, not_or] at h
    have hnot : ¬ crlf.isPrefixOf (b :: (text ++ (crlf ++ rest))) = true := by
      intro hpre
      obtain ⟨_, hpre⟩ := List.cons_prefix_cons.mp (List.isPrefixOf_iff_prefix.mp hpre)
      -- the line feed would be the next byte of the text, or the carriage return behind it
      cases text with
      | nil =>
        obtain ⟨heq, _⟩ := List.cons_prefix_cons.mp hpre
        exact absurd heq (by decide)
      | cons c text =>
        obtain ⟨rfl, _⟩ := List.cons_prefix_cons.mp hpre
        exact h.2 List.mem_cons_self
    rw [List.cons_append, Python.find, if_neg hnot, ih h.2, List.length_cons]
    rfl

private theorem find_crlf_eq_none {text : Bytes} (h : byte '\n' ∉ text) :
    Python.find crlf text = none := by
  induction text with
  | nil => rfl
  | cons b text ih =>
    rw [List.mem_cons, not_or] at h
    have hnot : ¬ crlf.isPrefixOf (b :: text) = true := by
      intro hpre
      obtain ⟨_, hpre⟩ := List.cons_prefix_cons.mp (List.isPrefixOf_iff_prefix.mp hpre)
      exact h.2 (hpre.subset List.mem_cons_self)
    rw [Python.find, if_neg hnot, ih h.2]
    rfl

/-- A slice within the buffer. -/
private theorem slice_append (pre text rest : Bytes) :
    Python.slice (pre ++ (text ++ rest)) pre.length ((pre.length : Int) + text.length) = text := by
  have hstop : Python.sliceBound (pre ++ (text ++ rest)).length
      ((pre.length : Int) + text.length) = (pre ++ text).length := by
    rw [← List.append_assoc, ← sliceBound_length (pre ++ text) rest, List.length_append]
    simp
  rw [Python.slice, hstop, sliceBound_length, ← List.append_assoc, List.take_left, List.drop_left]

private theorem scans_readLine {text : Bytes} (hplain : byte '\n' ∉ text) (hutf8 : IsUtf8 text)
    (frames : Nat) :
    Scans AsksForMore (Python.readLine (frames + 1)) (text ++ crlf) (Resp.chars text) where
  reads pre t := by
    have hindex : Python.index (pre ++ (text ++ crlf ++ t)) crlf pre.length =
        some ((pre.length : Int) + text.length) := by
      rw [Python.index, sliceBound_length, List.drop_left, List.append_assoc,
        find_crlf_append hplain]
      rfl
    simp only [Python.readLine, hindex]
    rw [List.append_assoc, slice_append, (decode_eq_chars hutf8).1]
    simp only [List.length_append, Nat.cast_add]
    congr 2
  torn pre g hpre hne := by
    -- a line that is cut has no line feed
    have hg : byte '\n' ∉ g := by
      have hshort : g <+: text ++ [byte '\r'] := by
        have hcut : g <+: (text ++ [byte '\r']) ++ [byte '\n'] := by simpa [crlf] using hpre
        rcases List.prefix_concat_iff.mp hcut with heq | hshort
        · exact absurd (by simp [heq, crlf]) hne
        · exact hshort
      intro hmem
      have := hshort.subset hmem
      rw [List.mem_append] at this
      rcases this with hmem | hmem
      · exact hplain hmem
      · exact absurd hmem (by decide)
    have hindex : Python.index (pre ++ g) crlf pre.length = none := by
      rw [Python.index, sliceBound_length, List.drop_left, find_crlf_eq_none hg]
      rfl
    exact ⟨.incompleteData .terminator, trivial, by simp only [Python.readLine, hindex]⟩

/-! ### Bulk strings -/

private theorem scans_readBulk {data : Bytes} (hutf8 : IsUtf8 data) :
    Scans AsksForMore (Python.readBulk data.length) (data ++ crlf) (Resp.chars data) where
  reads pre t := by
    have hroom : ¬ ((pre ++ (data ++ crlf ++ t)).length : Int) <
        (pre.length : Int) + data.length + 2 := by
      simp only [List.length_append, Nat.cast_add]
      show ¬ _ + (_ + (2 : Int) + _) < _
      omega
    rw [Python.readBulk, if_neg hroom, List.append_assoc, slice_append, (decode_eq_chars hutf8).1]
    simp only [List.length_append, Nat.cast_add]
    congr 2
  torn pre g hpre hne := by
    have hlt : g.length < (data ++ crlf).length := by
      have hle := hpre.length_le
      by_contra hge
      exact hne (hpre.eq_of_length (by omega))
    have hshort : ((pre ++ g).length : Int) < (pre.length : Int) + data.length + 2 := by
      rw [List.length_append] at hlt ⊢
      have hcrlf : crlf.length = 2 := rfl
      omega
    exact ⟨.incompleteData (.bulkString data.length), trivial, by
      rw [Python.readBulk, if_pos hshort]⟩

/-! ### Numbers -/

/-- `Atoi` reads decimal notation. -/
private theorem parseInt?_of_atoi {line : Bytes} {n : Int64} (h : atoi line = some n) :
    Decimal.parseInt? line = some n.toInt := by
  unfold atoi at h
  split at h
  · cases h
  · next m hm =>
    split at h
    · next hrange =>
      cases h
      rw [hm, Int64.toInt_ofInt_of_le hrange.1 hrange.2]
    · cases h

variable {py : Python.Interpreter} {line ys : Bytes} {n : Int64}

private theorem int_line (hreads : atoi line = some n) (hutf8 : IsUtf8 line) :
    py.int (Resp.chars line) =
      if py.maxStrDigits = 0 ∨ Python.digitCount line ≤ py.maxStrDigits then some n.toInt
      else none := by
  have hencode := (decode_eq_chars hutf8).2
  have hint := py.int_decimal (Resp.chars line) n.toInt
  rw [hencode] at hint
  exact hint (parseInt?_of_atoi hreads)

private theorem scans_toInt (hreads : atoi line = some n) (hutf8 : IsUtf8 line)
    (h : Python.Converts py line) : Scans AsksForMore (py.toInt (Resp.chars line)) [] n.toInt := by
  unfold Python.Converts at h
  rw [Python.Interpreter.toInt, int_line hreads hutf8, if_pos h]
  exact Scans.pure n.toInt

private theorem refuses_toInt (hreads : atoi line = some n) (hutf8 : IsUtf8 line)
    (h : ¬ Python.Converts py line) (ys : Bytes) :
    Refuses AsksForMore (py.toInt (Resp.chars line)) ys := by
  unfold Python.Converts at h
  rw [Python.Interpreter.toInt, int_line hreads hutf8, if_neg h]
  exact Refuses.raise id ys

variable {α : Type} {k : Int → Python.Scanner α} {v : α}

/-- A line that is read as a number, and what is read behind it. -/
private theorem scans_number (hreads : atoi line = some n) (hutf8 : IsUtf8 line) (frames : Nat)
    (h : Python.Converts py line) (hk : Scans AsksForMore (k n.toInt) ys v) :
    Scans AsksForMore (do
      let text ← Python.readLine (frames + 1)
      let n ← py.toInt text
      k n) (line ++ crlf ++ ys) v :=
  (scans_readLine (newline_notMem_of_atoi hreads) hutf8 frames).bind
    ((scans_toInt hreads hutf8 h).bind hk)

private theorem refuses_number (hreads : atoi line = some n) (hutf8 : IsUtf8 line) (frames : Nat)
    (hk : Python.Converts py line → Refuses AsksForMore (k n.toInt) ys) :
    Refuses AsksForMore (do
      let text ← Python.readLine (frames + 1)
      let n ← py.toInt text
      k n) (line ++ crlf ++ ys) := by
  have hline := scans_readLine (newline_notMem_of_atoi hreads) hutf8 frames
  by_cases h : Python.Converts py line
  · exact hline.bind_refuses ((scans_toInt hreads hutf8 h).bind_refuses (hk h))
  · refine hline.bind_refuses ?_
    have hint := (refuses_toInt hreads hutf8 h []).bind k ys
    exact hint

/-! ### Arrays -/

variable {p : Python.Scanner Python.Value} {ι : Type} {wire : ι → Bytes} {val : ι → Python.Value}

private theorem scans_readItems (h : ∀ i, Scans AsksForMore p (wire i) (val i)) (is : List ι) :
    Scans AsksForMore (Python.readItems p is.length) (is.flatMap wire) (is.map val) := by
  induction is with
  | nil => exact Scans.pure _
  | cons i is ih =>
    rw [List.flatMap_cons, List.length_cons, List.map_cons]
    refine (h i).bind ?_
    rw [← List.append_nil (is.flatMap wire)]
    exact ih.bind (Scans.pure _)

/-- The first element that is refused ends the loop. -/
private theorem refuses_readItems
    (h : ∀ i, Scans AsksForMore p (wire i) (val i) ∨ Refuses AsksForMore p (wire i)) {is : List ι}
    (his : ∃ i ∈ is, Refuses AsksForMore p (wire i)) :
    Refuses AsksForMore (Python.readItems p is.length) (is.flatMap wire) := by
  induction is with
  | nil =>
    obtain ⟨i, hi, _⟩ := his
    exact absurd hi List.not_mem_nil
  | cons i is ih =>
    rw [List.flatMap_cons, List.length_cons]
    rcases h i with hscans | hrefuses
    · -- the refused element is a later one, or this one after all
      by_cases hlater : ∃ j ∈ is, Refuses AsksForMore p (wire j)
      · refine hscans.bind_refuses ?_
        rw [← List.append_nil (is.flatMap wire)]
        exact (ih hlater).bind _ []
      · obtain ⟨j, hj, hrefuses⟩ := his
        rcases List.mem_cons.mp hj with rfl | hj
        · exact hrefuses.bind _ _
        · exact absurd ⟨j, hj, hrefuses⟩ hlater
    · exact hrefuses.bind _ _

end Parts

/-! ## Messages -/

section Messages

open Python (AsksForMore)

variable {py : Python.Interpreter} {frames : Nat}

private theorem scans_typed (first : UInt8) {xs : Bytes} {v : Python.Value}
    (h : Scans AsksForMore
      (Python.parseTyped py (Python.parse py frames) (Python.readLine frames) first) xs v) :
    Scans AsksForMore (Python.parse py (frames + 1)) (first :: xs) v :=
  (scans_readType first).bind h

private theorem refuses_typed (first : UInt8) {xs : Bytes}
    (h : Refuses AsksForMore
      (Python.parseTyped py (Python.parse py frames) (Python.readLine frames) first) xs) :
    Refuses AsksForMore (Python.parse py (frames + 1)) (first :: xs) :=
  (scans_readType first).bind_refuses h

/-- A length in memory as the integer that Python reads. -/
private theorem toInt_ofNat_length {len : Nat} (h : len ≤ maxAlloc) :
    (Int64.ofNat len).toInt = len := by
  have hmax : maxAlloc < 2 ^ 63 := by decide
  exact Int64.toInt_ofNat_of_lt (by omega)

/-- Every message takes two frames. -/
private theorem Resp.Fits.two {m : Resp} (h : m.Fits py frames) : ∃ f, frames = f + 2 := by
  have := h.1
  exact ⟨frames - 2, by omega⟩

/-- A message that the interpreter has room for is read wherever it stands. -/
theorem scans_parse (m : Resp) (hutf8 : m.Utf8) (h : m.Fits py frames) :
    Scans AsksForMore (Python.parse py frames) m.wire m.pyValue := by
  induction m generalizing frames with
  | simple text plain =>
    obtain ⟨frames, rfl⟩ := h.two
    exact scans_typed (byte '+') ((scans_readLine plain hutf8 frames).map Python.Value.str)
  | error text plain =>
    obtain ⟨frames, rfl⟩ := h.two
    exact scans_typed (byte '-') ((scans_readLine plain hutf8 frames).map Python.Value.exception)
  | integer line n reads =>
    obtain ⟨frames, rfl⟩ := h.two
    apply scans_typed (byte ':')
    rw [← List.append_nil (line ++ crlf)]
    refine scans_number reads hutf8 frames (h.2 line List.mem_cons_self) ?_
    exact Scans.pure _
  | nullBulk line reads =>
    obtain ⟨frames, rfl⟩ := h.two
    apply scans_typed (byte '$')
    rw [← List.append_nil (line ++ crlf)]
    refine scans_number reads hutf8 frames (h.2 line List.mem_cons_self) ?_
    exact Scans.pure _
  | bulk line data reads =>
    obtain ⟨frames, rfl⟩ := h.two
    apply scans_typed (byte '$')
    refine scans_number reads hutf8.1 frames (h.2 line List.mem_cons_self) ?_
    rw [GoString.length, toInt_ofNat_length data.length_le, if_neg (by omega)]
    exact (scans_readBulk hutf8.2).map Python.Value.str
  | nullArray line reads =>
    obtain ⟨frames, rfl⟩ := h.two
    apply scans_typed (byte '*')
    rw [← List.append_nil (line ++ crlf)]
    refine scans_number reads hutf8 frames (h.2 line List.mem_cons_self) ?_
    exact Scans.pure _
  | array line length reads le elements ih =>
    obtain ⟨frames, rfl⟩ := h.two
    obtain ⟨_, hline, helements⟩ := Resp.fits_array_iff.mp h
    have hitems := scans_readItems (fun i => ih i (hutf8.2 i) (helements i)) (List.finRange length)
    rw [List.length_finRange] at hitems
    apply scans_typed (byte '*')
    refine scans_number reads hutf8.1 frames hline ?_
    rw [toInt_ofNat_length (by omega), if_neg (by omega), Int.toNat_natCast]
    exact hitems.map Python.Value.list

/-- Without a frame for `_read_line`, every branch ends in `RecursionError`. -/
private theorem refuses_readLine_zero {α : Type} (k : List Char → Python.Scanner α) (xs : Bytes) :
    Refuses AsksForMore (Python.readLine 0 >>= k) xs := by
  have hraise : Refuses AsksForMore (Python.readLine 0) xs := Refuses.raise id xs
  rw [← List.append_nil xs]
  exact hraise.bind k []

private theorem refuses_of_lt_two (m : Resp) (h : frames < 2) :
    Refuses AsksForMore (Python.parse py frames) m.wire := by
  obtain _ | _ | frames := frames
  · exact Refuses.raise id _
  · cases m <;> exact refuses_typed _ (refuses_readLine_zero _ _)
  · omega

/-- A message of one number that is refused although there are frames for it. -/
private theorem not_converts {m : Resp} {line : Bytes} (h : ¬ m.Fits py (frames + 2))
    (hdepth : m.depth = 0) (hnumbers : m.numbers = [line]) : ¬ Python.Converts py line := by
  intro hline
  refine h ⟨by omega, fun l hl => ?_⟩
  rw [hnumbers, List.mem_singleton] at hl
  rwa [hl]

/-- Any other message is refused. -/
theorem refuses_parse (m : Resp) (hutf8 : m.Utf8) (h : ¬ m.Fits py frames) :
    Refuses AsksForMore (Python.parse py frames) m.wire := by
  induction m generalizing frames with
  | simple text plain =>
    refine refuses_of_lt_two _ (Nat.lt_of_not_le fun hle => h ⟨?_, ?_⟩)
    · exact hle
    · simp [Resp.numbers]
  | error text plain =>
    refine refuses_of_lt_two _ (Nat.lt_of_not_le fun hle => h ⟨?_, ?_⟩)
    · exact hle
    · simp [Resp.numbers]
  | integer line n reads =>
    obtain _ | _ | frames := frames
    · exact refuses_of_lt_two _ (by omega)
    · exact refuses_of_lt_two _ (by omega)
    · apply refuses_typed (byte ':')
      rw [← List.append_nil (line ++ crlf)]
      exact refuses_number reads hutf8 frames fun hline => absurd hline (not_converts h rfl rfl)
  | nullBulk line reads =>
    obtain _ | _ | frames := frames
    · exact refuses_of_lt_two _ (by omega)
    · exact refuses_of_lt_two _ (by omega)
    · apply refuses_typed (byte '$')
      rw [← List.append_nil (line ++ crlf)]
      exact refuses_number reads hutf8 frames fun hline => absurd hline (not_converts h rfl rfl)
  | bulk line data reads =>
    obtain _ | _ | frames := frames
    · exact refuses_of_lt_two _ (by omega)
    · exact refuses_of_lt_two _ (by omega)
    · apply refuses_typed (byte '$')
      exact refuses_number reads hutf8.1 frames fun hline => absurd hline (not_converts h rfl rfl)
  | nullArray line reads =>
    obtain _ | _ | frames := frames
    · exact refuses_of_lt_two _ (by omega)
    · exact refuses_of_lt_two _ (by omega)
    · apply refuses_typed (byte '*')
      rw [← List.append_nil (line ++ crlf)]
      exact refuses_number reads hutf8 frames fun hline => absurd hline (not_converts h rfl rfl)
  | array line length reads le elements ih =>
    obtain _ | _ | frames := frames
    · exact refuses_of_lt_two _ (by omega)
    · exact refuses_of_lt_two _ (by omega)
    · apply refuses_typed (byte '*')
      refine refuses_number reads hutf8.1 frames fun hline => ?_
      rw [toInt_ofNat_length (by omega), if_neg (by omega), Int.toNat_natCast]
      -- some element does not fit
      obtain ⟨i, hi⟩ : ∃ i, ¬ (elements i).Fits py (frames + 1) := by
        by_contra hall
        rw [not_exists] at hall
        refine h (Resp.fits_array_iff.mpr ⟨by omega, hline, fun i => ?_⟩)
        exact not_not.mp (hall i)
      have heach : ∀ j, Scans AsksForMore (Python.parse py (frames + 1)) (elements j).wire
          (elements j).pyValue ∨
          Refuses AsksForMore (Python.parse py (frames + 1)) (elements j).wire := by
        intro j
        by_cases hj : (elements j).Fits py (frames + 1)
        · exact .inl (scans_parse (elements j) (hutf8.2 j) hj)
        · exact .inr (ih j (hutf8.2 j) hj)
      have hitems := refuses_readItems heach ⟨i, List.mem_finRange i, ih i (hutf8.2 i) hi⟩
      rw [List.length_finRange] at hitems
      exact hitems.map Python.Value.list

/-- `_parse` returns the value of a message and the position behind it exactly if the
    message fits. -/
private theorem parse_wire_iff (m : Resp) (hutf8 : m.Utf8) (rest : Bytes) :
    Python.parse py frames (m.wire ++ rest) 0 = .ok (m.pyValue, m.wire.length) ↔
      m.Fits py frames := by
  constructor
  · intro hok
    by_contra hfits
    obtain ⟨e, _, herror⟩ := (refuses_parse m hutf8 hfits).whole [] rest
    cases hok.symm.trans herror
  · intro hfits
    exact (scans_parse m hutf8 hfits).reads [] rest

end Messages

/-! ## Commands -/

/-- The arguments of a command: as many as memory holds, each of a size that it holds. -/
structure Arguments where
  args : List (List Python.CodePoint)
  length_le : 16 * args.length ≤ maxAlloc
  size_le : ∀ arg ∈ args, ∀ bytes, Python.encodeStr arg = some bytes → bytes.length ≤ maxAlloc

/-- The strings that have the UTF-8 bytes of the arguments. -/
def Arguments.Encodes (a : Arguments) (strings : List GoString) : Prop :=
  a.args.map Python.encodeStr = strings.map fun s => some s.bytes

private theorem encodeArgs_eq {args : List (List Python.CodePoint)} {strings : List GoString}
    (h : args.map Python.encodeStr = strings.map fun s => some s.bytes) :
    Python.encodeArgs args = some ((strings.map Element.str).flatMap encodeElement) := by
  induction args generalizing strings with
  | nil =>
    cases strings with
    | nil => rfl
    | cons s strings => cases h
  | cons arg args ih =>
    cases strings with
    | nil => cases h
    | cons s strings =>
      rw [List.map_cons, List.map_cons] at h
      obtain ⟨harg, hargs⟩ := List.cons.inj h
      have hlength : itoa (Int64.ofNat s.length) = Decimal.formatNat s.bytes.length := by
        rw [itoa, GoString.length, toInt_ofNat_length s.length_le]
        rfl
      rw [Python.encodeArgs, harg, ih hargs]
      simp [encodeElement, encodeBulkString, hlength]

/-- `encode_command` writes what `EncodeArray` writes for the strings. -/
private theorem encodeCommand_eq (a : Arguments) {strings : List GoString}
    (h : a.Encodes strings) :
    Python.encodeCommand a.args = some (encodeArray (strings.map Element.str)) := by
  have hlength : a.args.length = strings.length := by
    have := congrArg List.length h
    simpa using this
  have hitoa : itoa (Int64.ofNat (strings.map Element.str).length) =
      Decimal.formatNat a.args.length := by
    have hle := a.length_le
    rw [itoa, List.length_map, ← hlength, toInt_ofNat_length (by omega)]
    rfl
  rw [Python.encodeCommand, encodeArgs_eq h, encodeArray, hitoa]
  rfl

/-- The string has no surrogates. -/
def Encodable (arg : List Python.CodePoint) : Prop := ∀ n, Python.CodePoint.surrogate n ∉ arg

private theorem encodeStr_eq_none_iff (arg : List Python.CodePoint) :
    Python.encodeStr arg = none ↔ ¬ Encodable arg := by
  unfold Encodable
  induction arg with
  | nil => simp [Python.encodeStr]
  | cons p arg ih =>
    cases p with
    | scalar c => simp [Python.encodeStr, ih]
    | surrogate n => exact iff_of_true rfl fun hall => hall n List.mem_cons_self

/-- An argument that cannot be encoded ends the loop. -/
private theorem encodeArgs_eq_none {args : List (List Python.CodePoint)}
    {arg : List Python.CodePoint} (harg : arg ∈ args) (h : Python.encodeStr arg = none) :
    Python.encodeArgs args = none := by
  induction args with
  | nil => exact absurd harg List.not_mem_nil
  | cons first args ih =>
    rcases List.mem_cons.mp harg with rfl | harg
    · rw [Python.encodeArgs, h]
      rfl
    · rw [Python.encodeArgs, ih harg]
      cases Python.encodeStr first <;> rfl

private theorem exists_strings {args : List (List Python.CodePoint)}
    (hsize : ∀ arg ∈ args, ∀ bytes, Python.encodeStr arg = some bytes → bytes.length ≤ maxAlloc)
    (h : ∀ arg ∈ args, Encodable arg) :
    ∃ strings : List GoString, args.map Python.encodeStr = strings.map fun s => some s.bytes := by
  induction args with
  | nil => exact ⟨[], rfl⟩
  | cons arg args ih =>
    obtain ⟨strings, hstrings⟩ := ih (fun arg harg => hsize arg (List.mem_cons_of_mem _ harg))
      (fun arg harg => h arg (List.mem_cons_of_mem _ harg))
    cases hbytes : Python.encodeStr arg with
    | none => exact absurd (h arg List.mem_cons_self) ((encodeStr_eq_none_iff arg).mp hbytes)
    | some bytes =>
      refine ⟨⟨bytes, hsize arg List.mem_cons_self bytes hbytes⟩ :: strings, ?_⟩
      rw [List.map_cons, hbytes, hstrings, List.map_cons]

/-- `Parse` reads a command back exactly if the arguments have UTF-8 bytes. -/
private theorem parse_encodeCommand_iff (a : Arguments) :
    (∃ bytes strings, Python.encodeCommand a.args = some bytes ∧ a.Encodes strings ∧
      parse bytes = .ok (.arr (strings.map Value.str)) []) ↔ ∀ arg ∈ a.args, Encodable arg := by
  constructor
  · rintro ⟨bytes, strings, hbytes, _⟩ arg harg
    by_contra hnot
    have hnone := encodeArgs_eq_none harg ((encodeStr_eq_none_iff arg).mpr hnot)
    rw [Python.encodeCommand, hnone] at hbytes
    cases hbytes
  · intro hall
    obtain ⟨strings, hstrings⟩ := exists_strings a.size_le hall
    refine ⟨_, strings, encodeCommand_eq a hstrings, hstrings, ?_⟩
    have hlength : a.args.length = strings.length := by
      have := congrArg List.length hstrings
      simpa using this
    have hle : 16 * (strings.map Element.str).length ≤ maxAlloc := by
      rw [List.length_map, ← hlength]
      exact a.length_le
    have hparse := (frames_encodeArray ⟨strings.map Element.str, hle⟩).reads []
    rw [List.append_nil, List.map_map] at hparse
    exact hparse

/-! ## Both sides -/

/-- Whatever `Parse` accepts in UTF-8 is a message, for which `_parse` returns the
    corresponding value and the same position exactly if the interpreter has a frame for each
    array around a value and converts the numbers. `Parse` reads every command of arguments
    that have UTF-8 bytes. -/
theorem python_parses_iff (py : Python.Interpreter) :
    (∀ s v rest, parse s = .ok v rest → IsUtf8 (s.take (s.length - rest.length)) →
      ∃ m : Resp, s = m.wire ++ rest ∧ m.value = v ∧
        (Python.parse py py.frames s 0 = .ok (m.pyValue, (s.length - rest.length : Nat)) ↔
          m.Fits py py.frames)) ∧
    ∀ a : Arguments, (∃ bytes strings, Python.encodeCommand a.args = some bytes ∧
      a.Encodes strings ∧ parse bytes = .ok (.arr (strings.map Value.str)) []) ↔
        ∀ arg ∈ a.args, Encodable arg := by
  refine ⟨fun s v rest hparse hutf8 => ?_, parse_encodeCommand_iff⟩
  obtain ⟨m, rfl, rfl⟩ := parse_eq_ok_iff.mp hparse
  rw [List.length_append, Nat.add_sub_cancel] at hutf8 ⊢
  rw [List.take_left] at hutf8
  exact ⟨m, rfl, rfl, parse_wire_iff m (utf8_of_wire m hutf8) rest⟩

/-! ## One interpreter -/

/-- CPython with its default limits. Other notations than decimal are left out. -/
def cpython : Python.Interpreter where
  frames := 1000
  maxStrDigits := 4300
  int line :=
    match Decimal.parseInt? (encode line) with
    | none => none
    | some n => if Python.digitCount (encode line) ≤ 4300 then some n else none
  int_decimal line n h := by
    rw [h]
    simp

/-- A null bulk string. -/
theorem python_parses_iff_null :
    parse (ascii "$-1\r\n") = .ok (.str GoString.empty) [] ∧
      ∃ m : Resp, ascii "$-1\r\n" = m.wire ++ [] ∧ m.value = .str GoString.empty ∧
        (Python.parse cpython cpython.frames (ascii "$-1\r\n") 0 = .ok (m.pyValue, 5) ↔
          m.Fits cpython cpython.frames) := by
  have hparse : parse (ascii "$-1\r\n") = .ok (.str GoString.empty) [] := rfl
  exact ⟨hparse, (python_parses_iff cpython).1 _ _ _ hparse
    ⟨['$', '-', '1', '\r', '\n'], by decide⟩⟩

/-- The number one in arrays of one element. -/
def nested : Nat → Resp
  | 0 => .integer (ascii "1") 1 (by decide)
  | depth + 1 => .array (ascii "1") 1 (by decide) (by decide) fun _ => nested depth

theorem depth_nested (depth : Nat) : (nested depth).depth = depth := by
  induction depth with
  | zero => rfl
  | succ depth ih => simp [nested, Resp.depth, ih]

theorem wire_nested (depth : Nat) : (nested depth).wire =
    (List.replicate depth (ascii "*1\r\n")).flatten ++ ascii ":1\r\n" := by
  induction depth with
  | zero => rfl
  | succ depth ih =>
    rw [List.replicate_succ, List.flatten_cons, List.append_assoc, ← ih]
    have hone : List.finRange 1 = [0] := rfl
    rw [nested, Resp.wire, hone, List.flatMap_singleton]
    rfl

theorem utf8_nested (depth : Nat) :
    IsUtf8 ((List.replicate depth (ascii "*1\r\n")).flatten ++ ascii ":1\r\n") := by
  induction depth with
  | zero => exact ⟨[':', '1', '\r', '\n'], by decide⟩
  | succ depth ih =>
    rw [List.replicate_succ, List.flatten_cons, List.append_assoc]
    exact IsUtf8.append ⟨['*', '1', '\r', '\n'], by decide⟩ ih

/-- `Parse` reads a number in a thousand arrays, and `_parse` raises an exception that is not
    `_IncompleteData`. -/
theorem python_recursion : ∃ s v e,
    s = (List.replicate 1000 (ascii "*1\r\n")).flatten ++ ascii ":1\r\n" ∧
    parse s = .ok v [] ∧ IsUtf8 s ∧
    Python.parse cpython cpython.frames s 0 = .error e ∧ ¬ Python.AsksForMore e := by
  have hutf8 := utf8_nested 1000
  rw [← wire_nested] at hutf8
  have hfits : ¬ (nested 1000).Fits cpython cpython.frames := by
    rintro ⟨hdepth, _⟩
    rw [depth_nested] at hdepth
    exact absurd hdepth (by decide)
  obtain ⟨e, hmore, herror⟩ := (refuses_parse _ (utf8_of_wire _ hutf8) hfits).whole [] []
  have hparse := (frames_wire (nested 1000)).reads []
  rw [List.append_nil] at hparse herror
  exact ⟨_, _, e, wire_nested 1000, hparse, hutf8, herror, hmore⟩

end GoCache.Spec
