import GoCache.Spec.ProtocolCorrect

/-!
# The messages of RESP

A message as it is written: its texts, the lines that are read as numbers, and the messages
in an array. The parser accepts exactly the bytes of messages. A message says more than the
value that `Parse` returns for it, which is the same for a string and an error, and for the
null bulk string and the empty one.

## Key results

- `frames_wire`: the bytes of a message are a frame of `parse`
- `parse_eq_ok_iff`: what `parse` accepts
- `parse_self_delimiting`: what it has read decides the value
-/

namespace GoCache.Spec

open GoCache.Native Reading

/-- A message. Numbers are any lines that `Atoi` accepts, with a sign or leading zeros. -/
inductive Resp where
  | simple (text : GoString) (plain : byte '\n' ∉ text.bytes)
  | error (text : GoString) (plain : byte '\n' ∉ text.bytes)
  | integer (line : Bytes) (n : Int64) (reads : atoi line = some n)
  | nullBulk (line : Bytes) (reads : atoi line = some (-1))
  | bulk (line : Bytes) (data : GoString) (reads : atoi line = some (Int64.ofNat data.length))
  | nullArray (line : Bytes) (reads : atoi line = some (-1))
  | array (line : Bytes) (length : Nat) (reads : atoi line = some (Int64.ofNat length))
      (le : 16 * length ≤ maxAlloc) (elements : Fin length → Resp)

namespace Resp

/-- The bytes of a message. -/
def wire : Resp → Bytes
  | .simple text _ => byte '+' :: (text.bytes ++ crlf)
  | .error text _ => byte '-' :: (text.bytes ++ crlf)
  | .integer line _ _ => byte ':' :: (line ++ crlf)
  | .nullBulk line _ => byte '$' :: (line ++ crlf)
  | .bulk line data _ => byte '$' :: (line ++ crlf ++ (data.bytes ++ crlf))
  | .nullArray line _ => byte '*' :: (line ++ crlf)
  | .array line length _ _ elements =>
    byte '*' :: (line ++ crlf ++ (List.finRange length).flatMap fun i => (elements i).wire)

/-- The value that `Parse` returns for a message. -/
def value : Resp → Value
  | .simple text _ | .error text _ => .str text
  | .integer _ n _ => .int n
  | .nullBulk _ _ => .str GoString.empty
  | .bulk _ data _ => .str data
  | .nullArray _ _ => .nilArr
  | .array _ length _ _ elements => .arr ((List.finRange length).map fun i => (elements i).value)

end Resp

/-! ## Messages are accepted -/

private theorem frames_line (text : GoString) (h : byte '\n' ∉ text.bytes) :
    Frames (do let line ← readLine; toGoString line) (text.bytes ++ crlf) text := by
  rw [← List.append_nil (text.bytes ++ crlf)]
  refine (frames_readLine h).bind ?_
  rw [toGoString, dif_pos text.length_le]
  exact Frames.pure text

/-- The bytes of a message are a frame of `parse`. -/
theorem frames_wire (m : Resp) : Frames parse m.wire m.value := by
  induction m with
  | simple text plain => exact frames_typed (byte '+') ((frames_line text plain).map Value.str)
  | error text plain => exact frames_typed (byte '-') ((frames_line text plain).map Value.str)
  | integer line n reads => exact frames_typed (byte ':') ((frames_integerLine reads).map Value.int)
  | nullBulk line reads => exact frames_typed (byte '$') ((frames_nullLine reads).map Value.str)
  | bulk line data reads =>
    exact frames_typed (byte '$') ((frames_bulkLine data reads).map Value.str)
  | nullArray line reads =>
    have harray : Frames (parseArray grantAll parse) (line ++ crlf) .nilArr := by
      rw [← List.append_nil (line ++ crlf)]
      refine (frames_readLine (newline_notMem_of_atoi reads)).bind ?_
      rw [reads]
      exact Frames.pure _
    exact frames_typed (byte '*') harray
  | array line length reads le elements ih =>
    have hframes := frames_parseElements ih (List.finRange length)
    have hlength : ((List.finRange length).map fun i => (elements i).value).length = length := by
      simp
    rw [List.length_finRange] at hframes
    apply frames_arrayLine
    · rwa [hlength]
    · rwa [hlength]
    · rwa [hlength]

/-! ## Nothing else is -/

/-- What `p` accepts is a message. -/
private def Recognizes (p : Native.Reader Value) : Prop :=
  ∀ s v rest, p s = .ok v rest → ∃ m : Resp, s = m.wire ++ rest ∧ m.value = v

section Recognizes

variable {p : Native.Reader Value} {s rest : Bytes} {grants : Nat → Bool}

private theorem readLineWithin_eq_ok {line : Bytes} (h : readLineWithin grants s = .ok line rest) :
    byte '\n' ∉ line ∧ s = line ++ crlf ++ rest := by
  unfold readLineWithin at h
  split at h
  · exact readLine_eq_ok.mp h
  · exact nomatch h

private theorem line_eq_ok {text : GoString}
    (h : (do let line ← readLineWithin grants; toGoString line : Native.Reader GoString) s =
      .ok text rest) :
    byte '\n' ∉ text.bytes ∧ s = text.bytes ++ crlf ++ rest := by
  obtain ⟨line, mid, hline, h⟩ := bind_ok_iff.mp h
  rw [toGoString] at h
  split at h
  · cases h
    exact readLineWithin_eq_ok hline
  · cases h

private theorem number_eq_ok {α : Type} {f : Int64 → Native.Reader α} {e : ParseError} {v : α}
    (h : (do
      let line ← readLineWithin grants
      match atoi line with
      | none => Reader.fail e
      | some n => f n : Native.Reader α) s = .ok v rest) :
    ∃ line n mid, atoi line = some n ∧ s = line ++ crlf ++ mid ∧ f n mid = .ok v rest := by
  obtain ⟨line, mid, hline, hmatch⟩ := bind_ok_iff.mp h
  obtain ⟨_, rfl⟩ := readLineWithin_eq_ok hline
  cases hn : atoi line with
  | none =>
    rw [hn] at hmatch
    cases hmatch
  | some n =>
    rw [hn] at hmatch
    exact ⟨line, n, mid, hn, rfl, hmatch⟩

private theorem expectByte_eq_ok {b : UInt8} {text : String}
    (h : expectByte b text s = .ok () rest) : s = b :: rest := by
  cases s with
  | nil => cases h
  | cons c s =>
    rw [expectByte] at h
    split at h
    · next heq =>
      cases h
      rw [heq]
    · cases h

/-- A length that is not negative is written in the line. -/
private theorem ofNat_toNat {n : Int64} (h : ¬ n < 0) : Int64.ofNat n.toInt.toNat = n := by
  rw [Int64.lt_iff_toInt_lt] at h
  have hhi := Int64.toInt_lt n
  apply Int64.toInt_inj.mp
  rw [Int64.toInt_ofNat_of_lt (by omega)]
  exact Int.toNat_of_nonneg (not_lt.mp h)

/-- A slice that is granted. -/
theorem make_eq_ok {size : Nat} {n : Int64} {u : Unit} (h : make grants size n s = .ok u rest) :
    rest = s ∧ ¬ n < 0 ∧ size * n.toInt.toNat ≤ maxAlloc := by
  unfold make at h
  split at h
  · cases h
  · next hrange =>
    obtain ⟨hnonneg, hlimit⟩ := not_or.mp hrange
    split at h
    · cases h
      exact ⟨rfl, hnonneg, not_lt.mp hlimit⟩
    · cases h

private theorem bulk_eq_ok {text : GoString} (h : parseBulkString grants s = .ok text rest) :
    ∃ m : Resp, byte '$' :: s = m.wire ++ rest ∧ m.value = .str text := by
  obtain ⟨line, n, mid, hn, rfl, hbody⟩ := number_eq_ok h
  split at hbody
  · next hnull =>
    cases hbody
    exact ⟨.nullBulk line (by rw [hn, hnull]), by simp [Resp.wire], rfl⟩
  · obtain ⟨_, mid₀, hmake, hfilled⟩ := bind_ok_iff.mp hbody
    obtain ⟨rfl, hnonneg, -⟩ := make_eq_ok hmake
    obtain ⟨data, mid₁, hdata, hcrlf⟩ := bind_ok_iff.mp hfilled
    obtain ⟨_, mid₂, hcr, hbehind⟩ := bind_ok_iff.mp hcrlf
    obtain ⟨_, mid₃, hlf, htext⟩ := bind_ok_iff.mp hbehind
    unfold readFull at hdata
    split at hdata
    · next hle =>
      cases hdata
      -- the data is followed by the terminator
      have hmid : mid₀.drop n.toInt.toNat = crlf ++ mid₃ := by
        rw [expectByte_eq_ok hcr, expectByte_eq_ok hlf]
        rfl
      rw [toGoString] at htext
      split at htext
      · next hmax =>
        cases htext
        refine ⟨.bulk line ⟨mid₀.take n.toInt.toNat, hmax⟩ ?_, ?_, rfl⟩
        · rw [hn, GoString.length, List.length_take_of_le hle, ofNat_toNat hnonneg]
        · have hdata : mid₀ = mid₀.take n.toInt.toNat ++ (crlf ++ rest) := by
            rw [← hmid, List.take_append_drop]
          conv => lhs; rw [hdata]
          simp [Resp.wire]
      · cases htext
    · split at hdata <;> cases hdata

private theorem elements_eq_ok (hp : Recognizes p) {length : Nat} {vs : List Value}
    (h : parseElements p length s = .ok vs rest) :
    ∃ ms : List Resp, ms.length = length ∧ s = ms.flatMap Resp.wire ++ rest ∧
      ms.map Resp.value = vs := by
  induction length generalizing s vs with
  | zero =>
    cases h
    exact ⟨[], rfl, rfl, rfl⟩
  | succ length ih =>
    obtain ⟨v, mid, hv, h⟩ := bind_ok_iff.mp h
    obtain ⟨vs, mid', hvs, h⟩ := bind_ok_iff.mp h
    cases h
    obtain ⟨m, rfl, rfl⟩ := hp _ _ _ hv
    obtain ⟨ms, rfl, rfl, rfl⟩ := ih hvs
    exact ⟨m :: ms, rfl, by simp, rfl⟩

private theorem array_eq_ok (hp : Recognizes p) {v : Value}
    (h : parseArray grants p s = .ok v rest) :
    ∃ m : Resp, byte '*' :: s = m.wire ++ rest ∧ m.value = v := by
  obtain ⟨line, n, mid, hn, rfl, hbody⟩ := number_eq_ok h
  split at hbody
  · next hnull =>
    cases hbody
    exact ⟨.nullArray line (by rw [hn, hnull]), by simp [Resp.wire], rfl⟩
  · obtain ⟨_, mid₀, hmake, hfilled⟩ := bind_ok_iff.mp hbody
    obtain ⟨rfl, hnonneg, hfits⟩ := make_eq_ok hmake
    obtain ⟨vs, hvs, rfl⟩ := map_ok_iff.mp hfilled
    obtain ⟨ms, hlength, rfl, rfl⟩ := elements_eq_ok hp hvs
    refine ⟨.array line ms.length ?_ (by omega) ms.get, ?_, ?_⟩
    · rw [hn, hlength, ofNat_toNat hnonneg]
    · have hwire : ((List.finRange ms.length).flatMap fun i => (ms.get i).wire) =
          ms.flatMap Resp.wire := by
        conv => rhs; rw [← List.map_get_finRange ms, List.flatMap_map]
      rw [Resp.wire, hwire]
      simp
    · rw [Resp.value]
      congr 1
      conv => rhs; rw [← List.map_get_finRange ms, List.map_map]
      rfl

/-- The switch on the first byte. -/
private theorem typed_eq_ok (hp : Recognizes p) {first : UInt8} {v : Value}
    (h : parseTyped grants p first s = .ok v rest) :
    ∃ m : Resp, first :: s = m.wire ++ rest ∧ m.value = v := by
  unfold parseTyped at h
  split at h
  · next hb =>
    obtain ⟨text, htext, rfl⟩ := map_ok_iff.mp h
    obtain ⟨hplain, rfl⟩ := line_eq_ok htext
    exact ⟨.simple text hplain, by simp [Resp.wire, hb], rfl⟩
  · split at h
    · next hb =>
      obtain ⟨text, htext, rfl⟩ := map_ok_iff.mp h
      obtain ⟨hplain, rfl⟩ := line_eq_ok htext
      exact ⟨.error text hplain, by simp [Resp.wire, hb], rfl⟩
    · split at h
      · next hb =>
        obtain ⟨_, hn, rfl⟩ := map_ok_iff.mp h
        obtain ⟨line, n, mid, hline, rfl, hret⟩ := number_eq_ok hn
        cases hret
        exact ⟨.integer line _ hline, by simp [Resp.wire, hb], rfl⟩
      · split at h
        · next hb =>
          obtain ⟨text, htext, rfl⟩ := map_ok_iff.mp h
          rw [hb]
          exact bulk_eq_ok htext
        · split at h
          · next hb =>
            rw [hb]
            exact array_eq_ok hp h
          · cases h

private theorem recognizes_parseFuel (fuel : Nat) : Recognizes (parseFuel grants fuel) := by
  induction fuel with
  | zero =>
    intro s v rest h
    cases h
  | succ fuel ih =>
    intro s v rest h
    obtain ⟨first, mid, hfirst, htyped⟩ := bind_ok_iff.mp h
    cases s with
    | nil => cases hfirst
    | cons b s =>
      cases hfirst
      exact typed_eq_ok ih htyped

end Recognizes

/-- `Parse` accepts exactly the bytes of messages, and leaves what follows unread. -/
theorem parse_eq_ok_iff {s rest : Bytes} {v : Value} :
    parse s = .ok v rest ↔ ∃ m : Resp, s = m.wire ++ rest ∧ m.value = v := by
  constructor
  · exact recognizes_parseFuel (s.length + 1) s v rest
  · rintro ⟨m, rfl, rfl⟩
    exact (frames_wire m).reads rest

/-! ## Messages are self-delimiting -/

/-- What `Parse` has read off its input for a value decides that value: whatever
    follows stays unread, and on every strict prefix `Parse` returns an error. -/
theorem parse_self_delimiting (s : Bytes) (v : Value) (rest : Bytes)
    (h : parse s = .ok v rest) :
    ∃ frame, s = frame ++ rest ∧ (∀ t, parse (frame ++ t) = .ok v t) ∧
      ∀ g, g <+: frame → g ≠ frame → ∃ e left, parse g = .err e left := by
  obtain ⟨m, rfl, rfl⟩ := parse_eq_ok_iff.mp h
  refine ⟨m.wire, rfl, (frames_wire m).reads, ?_⟩
  intro g hpre hne
  obtain ⟨e, he⟩ := (frames_wire m).torn g hpre hne
  exact ⟨e, [], he⟩

/-- An integer with a sign and leading zeros, and a message behind it. -/
theorem parse_self_delimiting_integer :
    parse (ascii ":+007\r\n+OK\r\n") = .ok (.int 7) (ascii "+OK\r\n") ∧
    ∃ frame, ascii ":+007\r\n+OK\r\n" = frame ++ ascii "+OK\r\n" ∧
      (∀ t, parse (frame ++ t) = .ok (.int 7) t) ∧
      ∀ g, g <+: frame → g ≠ frame → ∃ e left, parse g = .err e left :=
  have h : parse (ascii ":+007\r\n+OK\r\n") = .ok (.int 7) (ascii "+OK\r\n") := by rfl
  ⟨h, parse_self_delimiting _ _ _ h⟩

end GoCache.Spec
