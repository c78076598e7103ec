import GoCache.Native.Persistence
import GoCache.Spec.ProtocolCorrect

/-!
# Reading a log with a torn tail

`ReadOperations` reads back the records of a log in order, goes on with
whatever follows them, and stops quietly at a record that a crash has cut off.

## Key results

- `frames_encode`: an encoded record is a frame of `parse`
- `readOperations_encodeLog`: a log is read back record by record
- `readOperations_torn`: what stands behind the records of a log
-/

namespace GoCache.Native

/-- What `Parse` returns for a record. -/
def Record.value (r : Record) : Value := .arr (r.parts.map Value.str)

/-- What `ReadOperations` returns for a record. -/
def Record.operation : Record → Operation
  | .set key value ttlSeconds => ⟨lit "SET", key, value, ttlSeconds⟩
  | .del key => ⟨lit "DEL", key, GoString.empty, 0⟩

/-- The content of a log. -/
def encodeLog (records : List Record) : Bytes := records.flatMap Record.encode

end GoCache.Native

namespace GoCache.Spec

open GoCache.Native Reading

/-! ## Records -/

theorem encode_ne_nil (r : Record) : r.encode ≠ [] := by
  unfold Record.encode encodeArray
  exact List.cons_ne_nil _ _

/-- An encoded record is a frame of `parse`. -/
theorem frames_encode (r : Record) : Frames parse r.encode r.value := by
  have hlen : r.parts.length ≤ 4 := by
    cases r <;> simp [Record.parts]
  have hle : 16 * (r.parts.map Element.str).length ≤ maxAlloc := by
    rw [List.length_map]
    exact (Nat.mul_le_mul_left 16 hlen).trans (by decide)
  have hframes := frames_encodeArray ⟨_, hle⟩
  rw [List.map_map] at hframes
  exact hframes

/-- Strings come back from the conversion as they were. -/
private theorem toParts_map_str (parts : List GoString) :
    toParts (parts.map Value.str) = parts := by
  induction parts with
  | nil => rfl
  | cons s parts ih => rw [List.map_cons, toParts, ih]

theorem recordParts_value (r : Record) : recordParts r.value = some r.parts := by
  have hparts := toParts_map_str r.parts
  cases r <;> exact congrArg some hparts

theorem toOperation_parts (r : Record) : toOperation r.parts = r.operation := by
  cases r with
  | set key value ttlSeconds =>
    have httl : atoi (itoaString ttlSeconds).bytes = some ttlSeconds := atoi_itoa ttlSeconds
    simp only [Record.parts, toOperation, if_pos, httl, Option.getD_some, Record.operation]
  | del key =>
    simp only [Record.parts, toOperation, if_pos, Record.operation]

/-! ## Logs -/

theorem progresses_skipCorrupted {σ : Type} :
    Progresses (skipCorrupted : σ → ParseError → Turn σ σ) parse :=
  progresses_parse fun st => ⟨st, rfl⟩

/-- A record at the front of a log is one more operation. -/
private theorem readRecord_value (operations : List Operation) (r : Record) :
    readRecord operations r.value = .ok (.next (operations ++ [r.operation])) := by
  rw [readRecord, recordParts_value]
  show Except.ok (Turn.next (operations ++ [toOperation r.parts])) = _
  rw [toOperation_parts]

/-- The loop behind the records of a log. -/
private theorem loopAll_encodeLog (records : List Record) (g : Bytes) :
    loopAll .outOfFuel skipCorrupted readRecord parse [] (encodeLog records ++ g) =
      loopAll .outOfFuel skipCorrupted readRecord parse (records.map Record.operation) g := by
  have hfold : records.foldl (fun operations r => operations ++ [r.operation]) [] =
      records.map Record.operation := by
    rw [List.foldl_append_eq_append, List.nil_append]
    exact List.map_eq_flatMap.symm
  rw [encodeLog, loopAll_flatMap (f := fun st => st) progresses_skipCorrupted frames_encode
    readRecord_value, hfold]

/-- Operations read before stay in front of those still read. -/
private theorem loopAll_readRecord (operations : List Operation) (g : Bytes) :
    (·.1) <$> loopAll .outOfFuel skipCorrupted readRecord parse operations g =
      (readOperations g).map (operations ++ ·) := by
  have hbody : ∀ before result, readRecord (operations ++ before) result =
      (readRecord before result).map (Turn.map (operations ++ ·) (operations ++ ·)) := by
    intro before result
    simp only [readRecord]
    split
    · rfl
    · simp only [Except.map, Turn.map, List.append_assoc]
  have herr : ∀ before e, skipCorrupted (operations ++ before) e =
      (skipCorrupted before e).map (operations ++ ·) (operations ++ ·) := by
    intro before e
    simp only [skipCorrupted]
    split <;> rfl
  have hmap : loopAll .outOfFuel skipCorrupted readRecord parse (operations ++ []) g = _ :=
    loopAll_map hbody herr [] g
  rw [List.append_nil] at hmap
  rw [hmap, readOperations]
  cases loopAll .outOfFuel skipCorrupted readRecord parse [] g <;> rfl

section Turn

variable {s rest : Bytes}

/-- The operation that is made of a value, if any. -/
def operationsOf (v : Value) : List Operation := ((recordParts v).map toOperation).toList

theorem readOperations_of_ok {v : Value} (h : parse s = .ok v rest) :
    readOperations s = (readOperations rest).map (operationsOf v ++ ·) := by
  have hbody : readRecord [] v = .ok (.next (operationsOf v)) := by
    unfold readRecord operationsOf
    cases recordParts v <;> rfl
  rw [readOperations, loopAll_ok_next progresses_skipCorrupted h hbody]
  exact loopAll_readRecord _ rest

theorem readOperations_of_err {e : ParseError} (h : parse s = .err e rest) :
    readOperations s = if e.isEOF then .ok [] else readOperations rest := by
  rw [readOperations]
  split
  · next heof =>
    rw [loopAll_err_stop h (if_pos heof)]
    rfl
  · next heof =>
    rw [loopAll_err_next progresses_skipCorrupted h (if_neg heof)]
    rfl

theorem readOperations_of_abort {p : Panic} (h : parse s = .abort p) :
    readOperations s = .error p := by
  rw [readOperations, loopAll, loop, h]
  rfl

end Turn

/-- A log is read back, followed by what else the file holds. -/
theorem readOperations_encodeLog (records : List Record) (g : Bytes) :
    readOperations (encodeLog records ++ g) =
      (readOperations g).map (records.map Record.operation ++ ·) := by
  rw [← loopAll_readRecord, readOperations, loopAll_encodeLog]

/-- The rest of a file that is cut off within a record holds no operation. -/
theorem readOperations_strictPrefix (r : Record) {g : Bytes} (hpre : g <+: r.encode)
    (hne : g ≠ r.encode) : readOperations g = .ok [] := by
  have hother : ∀ e, skipCorrupted ([] : List Operation) e = .next [] ∨
      skipCorrupted ([] : List Operation) e = .stop [] := by
    intro e
    cases e with
    | eof => exact Or.inr rfl
    | unexpectedEOF | new text => exact Or.inl rfl
  rw [readOperations, loopAll_torn progresses_skipCorrupted parse_nil rfl hother (frames_encode r)
    hpre hne]
  rfl

/-- Behind the records of a log, `ReadOperations` returns whatever it makes of
    the rest alone, and nothing at all if the rest is a torn record. -/
theorem readOperations_torn (records : List Record) (g : Bytes) :
    readOperations (encodeLog records ++ g) =
      (readOperations g).map (records.map Record.operation ++ ·) ∧
    ∀ r : Record, g <+: r.encode → g ≠ r.encode →
      readOperations (encodeLog records ++ g) = .ok (records.map Record.operation) := by
  refine ⟨readOperations_encodeLog records g, ?_⟩
  intro r hpre hne
  rw [readOperations_encodeLog, readOperations_strictPrefix r hpre hne]
  show Except.ok (records.map Record.operation ++ []) = _
  rw [List.append_nil]

end GoCache.Spec
