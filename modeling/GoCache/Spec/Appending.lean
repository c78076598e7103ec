import GoCache.Spec.Grammar
import GoCache.Spec.TornTail

/-!
# Which logs can be appended to

`ReadOperations` reads back what is appended to a log exactly if the parser gets to the end
of the log by itself. Where it would read on, the first record behind is taken for the rest of
what it is in, and no other record begins in the bytes that are left of it.

## Key results

- `stops_parse`: the parser stops by itself or reads on
- `appendable_iff`: the logs that can be appended to
- `not_appendable_torn`: a log with a torn record at its end is none of them
-/

namespace GoCache.Spec

open GoCache.Native Reading

/-- Records that are appended to the content are read back. -/
def Appendable (content : Bytes) : Prop :=
  ∀ records : List Record, ∀ r ∈ records,
    ∃ ops, readOperations (content ++ encodeLog records) = .ok ops ∧ r.operation ∈ ops

/-- The content is a sequence of messages and corrupted entries, the end of which the parser
    comes to without a look at what follows. -/
inductive Whole : Bytes → Prop where
  | nil : Whole []
  | message (m : Resp) {rest : Bytes} (hrest : Whole rest) : Whole (m.wire ++ rest)
  | skipped {s rest : Bytes} {e : ParseError} (h : ∀ x, parse (s ++ x) = .err e (rest ++ x))
      (he : e.isEOF = false) (hrest : Whole rest) : Whole s

/-! ## The parser stops by itself or reads on -/

private theorem stops_parts (n : Nat) : OfParts grantAll (Stops n) where
  toInherited := inherited_stops n
  fail _ := .fail _
  readString delim := by
    refine ⟨(tails_parts grantAll).readString delim, fun s _ => ?_⟩
    by_cases hmem : delim ∈ s
    · obtain ⟨line, rest, rfl, hline⟩ := List.eq_append_cons_of_mem hmem
      have hread := (frames_readString hline).reads
      refine .inl fun x => ?_
      rw [List.append_cons, hread, List.append_assoc, hread]
      rfl
    · refine .inr fun t x => ?_
      by_cases hlater : delim ∈ t :: x
      · obtain ⟨line, rest, heq, hline⟩ := List.eq_append_cons_of_mem hlater
        have hnot : delim ∉ s ++ line := by
          rw [List.mem_append, not_or]
          exact ⟨hmem, hline⟩
        rw [heq, ← List.append_assoc, List.append_cons, (frames_readString hnot).reads]
        cases line with
        | nil =>
          cases heq
          exact List.suffix_rfl
        | cons c line =>
          cases heq
          exact ⟨line ++ [delim], by simp [Result.rest]⟩
      · rw [readString, if_neg (by rw [List.mem_append, not_or]; exact ⟨hmem, hlater⟩)]
        exact List.nil_suffix
  readLineWithin h := h
  readFull size := by
    refine ⟨(tails_parts grantAll).readFull size, fun s _ => ?_⟩
    by_cases hle : size ≤ s.length
    · refine .inl fun x => ?_
      rw [readFull, readFull, if_pos hle, if_pos (by rw [List.length_append]; omega),
        List.take_append_of_le_length hle, List.drop_append_of_le_length hle]
      rfl
    · refine .inr fun t x => ?_
      obtain ⟨k, hk⟩ : ∃ k, size - s.length = k + 1 := ⟨size - s.length - 1, by omega⟩
      unfold readFull
      split
      · show (s ++ t :: x).drop size <:+ x
        rw [List.drop_append, List.drop_eq_nil_of_le (by omega), hk]
        exact List.drop_suffix k x
      · split <;> exact List.nil_suffix
  expectByte b text h := by
    refine ⟨(tails_parts grantAll).expectByte b h, fun s _ => ?_⟩
    cases s with
    | nil =>
      refine .inr fun t x => ?_
      rw [List.nil_append, expectByte]
      split <;> exact List.suffix_rfl
    | cons c s =>
      refine .inl fun x => ?_
      rw [List.cons_append, expectByte, expectByte]
      split <;> rfl

/-- By induction on the number of bytes: the elements of an array begin behind its first. -/
theorem stops_parse (n : Nat) : Stops n parse := by
  have hnil : ∀ t x, (parse ([] ++ t :: x)).rest <:+ x := by
    intro t x
    rw [List.nil_append, parse_cons]
    exact (tails_parts grantAll).parseTyped tails_parse t x
  induction n with
  | zero =>
    refine ⟨tails_parse, fun s hs => .inr ?_⟩
    rw [List.eq_nil_of_length_eq_zero (Nat.le_zero.mp hs)]
    exact hnil
  | succ n ih =>
    refine ⟨tails_parse, fun s hs => ?_⟩
    cases s with
    | nil => exact .inr hnil
    | cons first s =>
      simp only [List.cons_append, parse_cons]
      exact ((stops_parts n).parseTyped ih first).ends s (Nat.le_of_succ_le_succ hs)

/-! ## Logs that can be appended to -/

/-- What stands behind a whole content is read as if it stood alone. -/
private theorem Whole.readOperations_append {content : Bytes} (h : Whole content) :
    ∃ ops, ∀ g, readOperations (content ++ g) = (readOperations g).map (ops ++ ·) := by
  induction h with
  | nil =>
    refine ⟨[], fun g => ?_⟩
    rw [List.nil_append]
    cases readOperations g <;> rfl
  | @message m rest _ ih =>
    obtain ⟨ops, hops⟩ := ih
    refine ⟨operationsOf m.value ++ ops, fun g => ?_⟩
    rw [List.append_assoc, readOperations_of_ok ((frames_wire m).reads _), hops]
    cases readOperations g <;> simp [Except.map]
  | skipped h he _ ih =>
    obtain ⟨ops, hops⟩ := ih
    exact ⟨ops, fun g => by rw [readOperations_of_err (h g), he, if_neg Bool.false_ne_true, hops]⟩

theorem Whole.appendable {content : Bytes} (h : Whole content) : Appendable content := by
  intro records r hr
  obtain ⟨ops, hops⟩ := h.readOperations_append
  have hread := readOperations_encodeLog records []
  rw [List.append_nil] at hread
  refine ⟨ops ++ (records.map Record.operation ++ []), ?_, ?_⟩
  · rw [hops, hread]
    rfl
  · rw [List.append_nil]
    exact List.mem_append_right _ (List.mem_map_of_mem hr)

/-- The log of a sequence of records can be appended to. -/
theorem appendable_encodeLog (records : List Record) : Appendable (encodeLog records) := by
  intro added r hr
  refine ⟨(records ++ added).map Record.operation, ?_, List.mem_map_of_mem (by simp [hr])⟩
  have hread := readOperations_encodeLog (records ++ added) []
  rw [List.append_nil] at hread
  rw [encodeLog, encodeLog, ← List.flatMap_append]
  exact hread.trans (by rw [show readOperations [] = .ok [] from rfl]; simp [Except.map])

/-! ## Logs that cannot -/

section Lost

variable {s rest : Bytes} {key c : GoString}

private theorem star_notMem_of_atoi {line : Bytes} {n : Int64} (h : atoi line = some n) :
    byte '*' ∉ line := by
  intro hmem
  exact absurd ((atoi_range h).2 _ hmem).1 (by decide)

private theorem star_notMem_crlf : byte '*' ∉ crlf := by decide

/-- Apart from the string itself, there is no asterisk in the bytes of a string. -/
private theorem wire_of_str {m : Resp} (h : m.value = .str c) :
    ∃ a b, m.wire = a ++ c.bytes ++ b ∧ byte '*' ∉ a ∧ byte '*' ∉ b := by
  cases m with
  | simple text plain | error text plain =>
    cases h
    exact ⟨[_], crlf, rfl, by decide, star_notMem_crlf⟩
  | nullBulk line reads =>
    cases h
    refine ⟨byte '$' :: (line ++ crlf), [], by simp [Resp.wire, GoString.empty], ?_, by simp⟩
    simp only [List.mem_cons, List.mem_append, not_or]
    exact ⟨by decide, star_notMem_of_atoi reads, star_notMem_crlf⟩
  | bulk line data reads =>
    cases h
    refine ⟨byte '$' :: (line ++ crlf), crlf, by simp [Resp.wire], ?_, star_notMem_crlf⟩
    simp only [List.mem_cons, List.mem_append, not_or]
    exact ⟨by decide, star_notMem_of_atoi reads, star_notMem_crlf⟩
  | integer line n reads | nullArray line reads | array line length reads le elements => cases h

private theorem toOperation_eq_del {parts : List GoString} (hne : key ≠ GoString.empty)
    (h : toOperation parts = (Record.del key).operation) :
    ∃ rest, parts = lit "DEL" :: key :: rest := by
  have hkey : ∀ {type}, ⟨type, GoString.empty, GoString.empty, 0⟩ ≠ (Record.del key).operation :=
    fun h => hne (congrArg Operation.key h).symm
  unfold toOperation at h
  split at h
  · split at h
    · next htype =>
      have hset : lit "SET" = lit "DEL" := by
        rw [← htype]
        split at h <;> exact congrArg Operation.type h
      exact absurd hset (by decide)
    · split at h
      · cases h
        exact ⟨_, rfl⟩
      · exact absurd h hkey
  · split at h
    · cases h
      exact ⟨_, rfl⟩
    · exact absurd h hkey
  · exact absurd h hkey
  · exact absurd h hkey

private theorem strs_of_del {vs : List Value} (hne : key ≠ GoString.empty)
    (h : (Record.del key).operation ∈ operationsOf (.arr vs)) :
    ∃ vs', vs = .str (lit "DEL") :: .str key :: vs' := by
  cases vs with
  | nil => cases h
  | cons v vs =>
    obtain ⟨rest, hparts⟩ := toOperation_eq_del hne (List.mem_singleton.mp h).symm
    cases v with
    | str s =>
      obtain ⟨rfl, hkey⟩ := List.cons.inj hparts
      cases vs with
      | nil => cases hkey
      | cons v vs =>
        cases v with
        | str s => exact ⟨vs, by rw [← (List.cons.inj hkey).1]⟩
        | int n | arr es | nilArr => exact absurd (List.cons.inj hkey).1.symm hne
    | int n | arr es | nilArr => exact absurd (List.cons.inj hparts).1 (by decide)

/-- A message that deletes a key has the key in front of any asterisk but its first byte. -/
private theorem wire_of_del (hne : key ≠ GoString.empty) (hstar : byte '*' ∉ key.bytes) {m : Resp}
    (h : (Record.del key).operation ∈ operationsOf m.value) :
    ∃ a b, m.wire = byte '*' :: (a ++ b) ∧ byte '*' ∉ a ∧ key.length ≤ a.length := by
  cases m with
  | array line length reads le elements =>
    obtain ⟨vs, hvs⟩ := strs_of_del hne h
    obtain ⟨i, is, his, htype, hvs⟩ := List.map_eq_cons_iff.mp hvs
    obtain ⟨j, js, rfl, hkey, -⟩ := List.map_eq_cons_iff.mp hvs
    obtain ⟨a, b, hi, ha, hb⟩ := wire_of_str htype
    obtain ⟨a', b', hj, ha', hb'⟩ := wire_of_str hkey
    refine ⟨line ++ crlf ++ ((elements i).wire ++ (elements j).wire),
      js.flatMap fun i => (elements i).wire, ?_, ?_, ?_⟩
    · rw [Resp.wire, his]
      simp only [List.flatMap_cons, List.append_assoc]
    · rw [hi, hj]
      simp only [List.mem_append, not_or]
      exact ⟨⟨star_notMem_of_atoi reads, star_notMem_crlf⟩, ⟨⟨ha, by decide⟩, hb⟩, ⟨ha', hstar⟩,
        hb'⟩
    · rw [hj, GoString.length]
      simp only [List.length_append]
      omega
  | simple text plain | error text plain | integer line n reads | nullBulk line reads
  | bulk line data reads | nullArray line reads => cases h

private theorem prefix_of_star {a b t x : Bytes} (h : a ++ b = t ++ byte '*' :: x)
    (ha : byte '*' ∉ a) : a <+: t := by
  rcases List.append_eq_append_iff.mp h with ⟨z, hz, -⟩ | ⟨z, hz, hx⟩
  · exact ⟨z, hz.symm⟩
  · cases z with
    | nil => rw [hz, List.append_nil]
    | cons y z =>
      cases hx
      exact absurd (hz ▸ List.mem_append_right t List.mem_cons_self) ha

/-- Bytes without an asterisk hold no operation. -/
private theorem readOperations_of_notMem (h : byte '*' ∉ s) {ops : List Operation}
    (hops : readOperations s = .ok ops) : ops = [] := by
  induction hlen : s.length using Nat.strongRecOn generalizing s ops with
  | ind len ih =>
    have htail := tails_parse s
    cases hparse : parse s with
    | ok v rest =>
      rw [hparse] at htail
      rw [readOperations_of_ok hparse] at hops
      obtain ⟨later, hlater, rfl⟩ := map_eq_ok.mp hops
      have hnone : operationsOf v = [] := by
        obtain ⟨m, rfl, rfl⟩ := parse_eq_ok_iff.mp hparse
        cases m with
        | array line length reads le elements => exact absurd List.mem_cons_self h
        | _ => rfl
      rw [hnone, ih _ (hlen ▸ length_lt_of_parse hparse) (fun hmem => h (htail.subset hmem)) hlater
        rfl]
      rfl
    | err e rest =>
      rw [hparse] at htail
      rw [readOperations_of_err hparse] at hops
      split at hops
      · cases hops
        rfl
      · next heof =>
        have hlt := progresses_skipCorrupted.err_lt s e rest () () hparse (if_neg heof)
        exact ih _ (hlen ▸ hlt) (fun hmem => h (htail.subset hmem)) hops rfl
    | abort p =>
      rw [readOperations_of_abort hparse] at hops
      cases hops

private theorem star_notMem_encode (hstar : byte '*' ∉ key.bytes) :
    byte '*' ∉ (Record.del key).encode.tail := by
  have hbulk : ∀ s : GoString, byte '*' ∉ s.bytes → byte '*' ∉ encodeBulkString s false := by
    intro s hs
    rw [encodeBulkString, if_neg Bool.false_ne_true]
    simp only [List.cons_append, List.mem_cons, List.mem_append, not_or]
    exact ⟨by decide, ⟨⟨star_notMem_of_atoi (atoi_itoa _), star_notMem_crlf⟩, hs⟩, star_notMem_crlf⟩
  rw [Record.encode, encodeArray, List.cons_append, List.cons_append, List.tail_cons]
  simp only [Record.parts, List.map_cons, List.map_nil, List.flatMap_cons, List.flatMap_nil,
    List.mem_append, not_or]
  exact ⟨⟨star_notMem_of_atoi (atoi_itoa _), star_notMem_crlf⟩, hbulk _ (by decide), hbulk _ hstar,
    List.not_mem_nil⟩

/-- What is read back behind the content, for a key that is longer than it, is not taken for
    the rest of what the content ends in. -/
private theorem whole_of_mem (hstar : byte '*' ∉ key.bytes) {ops : List Operation}
    (hlong : s.length < key.length) (h : readOperations (s ++ (Record.del key).encode) = .ok ops)
    (hmem : (Record.del key).operation ∈ ops) : Whole s := by
  have hne : key ≠ GoString.empty := by
    rintro rfl
    exact absurd hlong (Nat.not_lt_zero _)
  obtain ⟨x, hx⟩ : ∃ x, (Record.del key).encode = byte '*' :: x := ⟨_, rfl⟩
  have hplain := star_notMem_encode hstar
  rw [hx] at hplain
  induction hlen : s.length using Nat.strongRecOn generalizing s ops with
  | ind len ih =>
    subst hlen
    rcases (stops_parse s.length).ends s le_rfl with hstops | hreads
    · cases hparse : parse s with
      | ok v rest =>
        obtain ⟨m, rfl, rfl⟩ := parse_eq_ok_iff.mp hparse
        have hlt := length_lt_of_parse hparse
        rw [List.append_assoc, readOperations_of_ok ((frames_wire m).reads _)] at h
        obtain ⟨later, hlater, rfl⟩ := map_eq_ok.mp h
        rcases List.mem_append.mp hmem with hmem | hmem
        · obtain ⟨a, b, hwire, -, hle⟩ := wire_of_del hne hstar hmem
          rw [hwire] at hlong
          simp only [List.length_append, List.length_cons] at hlong
          omega
        · exact .message m (ih _ hlt (by omega) hlater hmem rfl)
      | err e rest =>
        have hall : ∀ x, parse (s ++ x) = .err e (rest ++ x) := by
          intro x
          rw [hstops x, hparse]
          rfl
        rw [readOperations_of_err (hall _)] at h
        split at h
        · cases h
          cases hmem
        · next heof =>
          have hlt := progresses_skipCorrupted.err_lt s e rest () () hparse (if_neg heof)
          exact .skipped hall (Bool.not_eq_true _ ▸ heof) (ih _ hlt (by omega) h hmem rfl)
      | abort p =>
        rw [readOperations_of_abort (by rw [hstops, hparse]; rfl)] at h
        cases h
    · cases s with
      | nil => exact .nil
      | cons c s =>
        exfalso
        -- the asterisk of the record is gone, and there is no other
        rw [hx] at h
        have hrest := hreads (byte '*') x
        have hlater : ∀ {later}, readOperations (parse (c :: s ++ byte '*' :: x)).rest = .ok later →
            later = [] := readOperations_of_notMem fun hmem => hplain (hrest.subset hmem)
        cases hparse : parse (c :: s ++ byte '*' :: x) with
        | ok v rest =>
          rw [hparse] at hlater
          rw [readOperations_of_ok hparse] at h
          obtain ⟨later, hread, rfl⟩ := map_eq_ok.mp h
          rw [hlater hread, List.append_nil] at hmem
          obtain ⟨m, hwire, rfl⟩ := parse_eq_ok_iff.mp hparse
          obtain ⟨a, b, hdel, ha, hle⟩ := wire_of_del hne hstar hmem
          rw [hdel, List.cons_append, List.cons_append, List.append_assoc] at hwire
          have hlen := (prefix_of_star (List.cons.inj hwire).2.symm ha).length_le
          rw [List.length_cons] at hlong
          omega
        | err e rest =>
          rw [hparse] at hlater
          rw [readOperations_of_err hparse] at h
          split at h
          · cases h
            cases hmem
          · rw [hlater h] at hmem
            cases hmem
        | abort p =>
          rw [readOperations_of_abort hparse] at h
          cases h

/-- The logs that can be appended to, of any size below that of an allocation. -/
theorem appendable_iff {content : Bytes} (hlen : content.length < maxAlloc) :
    Appendable content ↔ Whole content := by
  refine ⟨fun h => ?_, Whole.appendable⟩
  let key : GoString :=
    ⟨List.replicate (content.length + 1) (byte 'a'), by rwa [List.length_replicate]⟩
  have hkey : byte '*' ∉ key.bytes := fun h => absurd (List.eq_of_mem_replicate h) (by decide)
  have hlong : content.length < key.length := by
    show _ < (List.replicate _ _).length
    rw [List.length_replicate]
    exact Nat.lt_succ_self _
  obtain ⟨ops, hops, hmem⟩ := h [.del key] _ List.mem_cons_self
  rw [encodeLog, List.flatMap_singleton] at hops
  exact whole_of_mem hkey hlong hops hmem

end Lost

/-! ## Torn records -/

/-- A log that ends with a part of a record is not whole. -/
private theorem not_whole_torn (records : List Record) {r : Record} {g : Bytes}
    (hpre : g <+: r.encode) (hne : g ≠ r.encode) (hg : g ≠ []) :
    ¬ Whole (encodeLog records ++ g) := by
  intro h
  generalize hs : encodeLog records ++ g = s at h
  -- with the rest of the record, the parser does not stop at the end of `g`
  have hwhole : ∃ x, x ≠ [] ∧ parse (g ++ x) = .ok r.value [] := by
    obtain ⟨x, hx⟩ := hpre
    refine ⟨x, fun hnil => hne (by rw [← hx, hnil, List.append_nil]), ?_⟩
    have hread := (frames_encode r).reads []
    rwa [List.append_nil, ← hx] at hread
  obtain ⟨x, hx, hparse⟩ := hwhole
  induction h generalizing records with
  | nil => exact hg (List.append_eq_nil_iff.mp hs).2
  | @message m rest _ ih =>
    cases records with
    | nil =>
      obtain rfl : g = m.wire ++ rest := hs
      rw [List.append_assoc, (frames_wire m).reads] at hparse
      exact hx (List.append_eq_nil_iff.mp (Result.ok.inj hparse).2).2
    | cons r₁ records =>
      have hread := (frames_wire m).reads rest
      rw [← hs, encodeLog, List.flatMap_cons, List.append_assoc, (frames_encode r₁).reads] at hread
      exact ih records (Result.ok.inj hread).2
  | @skipped s rest e h he _ ih =>
    cases records with
    | nil =>
      obtain rfl : g = s := hs
      cases (h x).symm.trans hparse
    | cons r₁ records =>
      have hread := h []
      rw [List.append_nil, ← hs, encodeLog, List.flatMap_cons, List.append_assoc,
        (frames_encode r₁).reads] at hread
      cases hread

/-- Nothing that is appended behind a torn record is sure to be read back. -/
theorem not_appendable_torn (records : List Record) {r : Record} {g : Bytes}
    (hpre : g <+: r.encode) (hne : g ≠ r.encode) (hg : g ≠ [])
    (hlen : (encodeLog records ++ g).length < maxAlloc) : ¬ Appendable (encodeLog records ++ g) :=
  fun h => not_whole_torn records hpre hne hg ((appendable_iff hlen).mp h)

end GoCache.Spec
