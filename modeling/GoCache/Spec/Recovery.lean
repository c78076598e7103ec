import GoCache.ForStd.WriteLog
import GoCache.Spec.TornTail
import GoCache.Spec.WfCache

/-!
# Recovery as a sequence of mutations

A recovery is a sequence of `Set` and `Delete` calls that the two files fix:
first those of the snapshot file, then those of the AOF. Reading the files is
thereby separated from what the calls do to the cache.

## Key results

- `recoverAOF_eq`: `RecoverAOF` applies the mutations of the two files
- `contents_mutateAll`: without an eviction, mutations are writes to a map
-/

namespace GoCache.Spec

open GoCache.Native Recency Reading WriteLog

/-- A mutating call on the cache. -/
inductive Mutation where
  | set (key value : GoString) (ttl : Duration)
  | del (key : GoString)

/-- The write to the key-to-value map that a mutation is. -/
def Mutation.write : Mutation → Write GoString GoString
  | .set key value _ => ⟨key, some value⟩
  | .del key => ⟨key, none⟩

namespace WfCache

/-- The cache after a sequence of mutations, and the number of readings of the
    clock after it: only a `Set` reads the clock. -/
def mutateAll (clock : Nat → Time) : Nat → WfCache → List Mutation → Nat × WfCache
  | i, c, [] => (i, c)
  | i, c, .set key value ttl :: ms => mutateAll clock (i + 1) (c.set key value ttl (clock i)) ms
  | i, c, .del key :: ms => mutateAll clock i (c.delete key) ms

variable (clock : Nat → Time) (i : Nat) (c : WfCache) (ms ms' : List Mutation)

theorem mutateAll_append : mutateAll clock i c (ms ++ ms') =
    mutateAll clock (mutateAll clock i c ms).1 (mutateAll clock i c ms).2 ms' := by
  induction ms generalizing i c with
  | nil => rfl
  | cons m ms ih =>
    cases m with
    | set key value ttl => exact ih (i + 1) _
    | del key => exact ih i _

theorem capacity_mutateAll : (mutateAll clock i c ms).2.capacity = c.capacity := by
  induction ms generalizing i c with
  | nil => rfl
  | cons m ms ih =>
    cases m with
    | set key value ttl => exact (ih (i + 1) _).trans (capacity_set ..)
    | del key => exact (ih i _).trans (capacity_delete ..)

theorem evictions_le_set (key value : GoString) (ttl : Duration) (now : Time) :
    c.evictions ≤ (c.set key value ttl now).evictions := by
  rw [evictions_set]
  exact Nat.le_add_right _ _

theorem evictions_le_mutateAll : c.evictions ≤ (mutateAll clock i c ms).2.evictions := by
  induction ms generalizing i c with
  | nil => exact le_rfl
  | cons m ms ih =>
    cases m with
    | set key value ttl => exact (evictions_le_set ..).trans (ih (i + 1) _)
    | del key => exact (evictions_delete c key).symm.le.trans (ih i _)

variable {clock i c ms}

/-- Without an eviction, a sequence of mutations is a sequence of writes. -/
theorem contents_mutateAll (hev : (mutateAll clock i c ms).2.evictions = c.evictions) :
    (mutateAll clock i c ms).2.contents = applyAll c.contents (ms.map Mutation.write) := by
  induction ms generalizing i c with
  | nil => rfl
  | cons m ms ih =>
    cases m with
    | set key value ttl =>
      -- the counter never goes down, so neither this call nor a later one evicts
      have hset := c.evictions_le_set key value ttl (clock i)
      have hrest := evictions_le_mutateAll clock (i + 1) (c.set key value ttl (clock i)) ms
      have hev : (mutateAll clock (i + 1) (c.set key value ttl (clock i)) ms).2.evictions =
        c.evictions := hev
      have hsame : (c.set key value ttl (clock i)).evictions = c.evictions := by omega
      exact (ih (hev.trans hsame.symm)).trans (by rw [contents_set _ _ _ _ _ hsame]; rfl)
    | del key =>
      exact (ih (hev.trans (evictions_delete c key).symm)).trans (by rw [contents_delete]; rfl)

end WfCache

/-! ## The mutations of a file -/

/-- The mutation one turn of `LoadSnapshot` applies, behind those before. -/
def snapshotRecord (ms : List Mutation) (result : Value) :
    Except Panic (Turn (List Mutation) (List Mutation)) :=
  match snapshotSet result with
  | some (key, value, ttl) => .ok (.next (ms ++ [.set key value ttl]))
  | none => .ok (.next ms)

/-- The mutations `LoadSnapshot` applies. -/
def snapshotMutations (file : Bytes) : Except Panic (List Mutation) :=
  (·.1) <$> loopAll .outOfFuel skipCorrupted snapshotRecord parse [] file

/-- The mutation the replay loop applies for an operation. -/
def operationMutation (op : Operation) : Option Mutation :=
  if op.type = lit "SET" then some (.set op.key op.value (op.ttl * second))
  else if op.type = lit "DEL" then some (.del op.key)
  else none

/-- The mutations of the snapshot file, if there is one. -/
def snapshotFileMutations : Option Bytes → Except Panic (List Mutation)
  | some file => snapshotMutations file
  | none => .ok []

/-- The mutations `RecoverAOF` applies. -/
def recoveryMutations (snapshot aof : Option Bytes) : Except Panic (List Mutation) := do
  let ms ← snapshotFileMutations snapshot
  match aof with
  | some file => do
    let ops ← readOperations file
    return ms ++ ops.filterMap operationMutation
  | none => return ms

section Recover

variable (clock : Nat → Time) (c : WfCache)

/-- The state of `LoadSnapshot` after a sequence of mutations. -/
private def loadState (ms : List Mutation) : Nat × Cache :=
  ((WfCache.mutateAll clock 0 c ms).1, (WfCache.mutateAll clock 0 c ms).2.cache)

private theorem loadRecord_loadState (ms : List Mutation) (result : Value) :
    loadRecord clock (loadState clock c ms) result =
      (snapshotRecord ms result).map (Turn.map (loadState clock c) (loadState clock c)) := by
  unfold loadRecord snapshotRecord
  cases snapshotSet result with
  | none => rfl
  | some call =>
    obtain ⟨key, value, ttl⟩ := call
    simp only [loadState, WfCache.cache_set, Except.map, Turn.map, WfCache.mutateAll_append,
      WfCache.mutateAll]
    rfl

/-- `LoadSnapshot` applies the mutations of the file. -/
theorem loadSnapshot_eq (file : Bytes) : loadSnapshot clock c.cache file =
    (snapshotMutations file).map fun ms =>
      ((WfCache.mutateAll clock 0 c ms).1, (WfCache.mutateAll clock 0 c ms).2.cache) := by
  have herr : ∀ ms e, skipCorrupted (loadState clock c ms) e =
      (skipCorrupted ms e).map (loadState clock c) (loadState clock c) := by
    intro ms e
    simp only [skipCorrupted]
    split <;> rfl
  have hmap : loopAll .outOfFuel skipCorrupted (loadRecord clock) parse (loadState clock c []) file
      = _ := loopAll_map (loadRecord_loadState clock c) herr [] file
  rw [loadSnapshot, snapshotMutations]
  show (·.1) <$> loopAll .outOfFuel skipCorrupted (loadRecord clock) parse
    (loadState clock c []) file = _
  rw [hmap]
  cases loopAll .outOfFuel skipCorrupted snapshotRecord parse [] file <;> rfl

/-- The replay loop applies the mutations of the operations. -/
theorem replay_eq (i : Nat) (ops : List Operation) : replay clock i c.cache ops =
    .ok (WfCache.mutateAll clock i c (ops.filterMap operationMutation)).2.cache := by
  induction ops generalizing i c with
  | nil => rfl
  | cons op ops ih =>
    rw [replay, List.filterMap_cons, operationMutation]
    by_cases hset : op.type = lit "SET"
    · rw [if_pos hset, if_pos hset, WfCache.cache_set]
      exact ih _ _
    · rw [if_neg hset, if_neg hset]
      by_cases hdel : op.type = lit "DEL"
      · rw [if_pos hdel, if_pos hdel, WfCache.cache_delete]
        exact ih _ _
      · rw [if_neg hdel, if_neg hdel]
        exact ih _ _

/-- The first half of `RecoverAOF` applies the mutations of the snapshot file. -/
theorem recoverSnapshot_eq (snapshot : Option Bytes) : recoverSnapshot clock c.cache snapshot =
    (snapshotFileMutations snapshot).map fun ms =>
      ((WfCache.mutateAll clock 0 c ms).1, (WfCache.mutateAll clock 0 c ms).2.cache) := by
  cases snapshot with
  | none => rfl
  | some file => exact loadSnapshot_eq clock c file

/-- `RecoverAOF` applies the mutations of the two files. -/
theorem recoverAOF_eq (snapshot aof : Option Bytes) : recoverAOF clock c.cache snapshot aof =
    (recoveryMutations snapshot aof).map fun ms => (WfCache.mutateAll clock 0 c ms).2.cache := by
  rw [recoverAOF, recoveryMutations, recoverSnapshot_eq]
  cases snapshotFileMutations snapshot with
  | error p => rfl
  | ok ms =>
    cases aof with
    | none => rfl
    | some file =>
      simp only [Except.map, bind, Except.bind]
      cases readOperations file with
      | error p => rfl
      | ok ops =>
        show replay clock _ _ ops =
          .ok (WfCache.mutateAll clock 0 c (ms ++ ops.filterMap operationMutation)).2.cache
        rw [replay_eq, WfCache.mutateAll_append]

end Recover

/-! ## The mutations of a log -/

/-- The mutation a record is replayed as. -/
def recordMutation : Record → Mutation
  | .set key value ttlSeconds => .set key value (ttlSeconds * second)
  | .del key => .del key

/-- The write a record is replayed as. -/
def recordWrite (r : Record) : Write GoString GoString := (recordMutation r).write

private theorem operationMutation_operation (r : Record) :
    operationMutation r.operation = some (recordMutation r) := by
  cases r with
  | set key value ttlSeconds => rfl
  | del key => rfl

theorem filterMap_operationMutation (records : List Record) :
    (records.map Record.operation).filterMap operationMutation = records.map recordMutation := by
  rw [List.filterMap_map, ← List.filterMap_eq_map]
  exact List.filterMap_congr fun r _ => operationMutation_operation r

/-- An AOF that is a log is replayed record by record behind the snapshot. -/
theorem recoveryMutations_encodeLog (snapshot : Option Bytes) (records : List Record) :
    recoveryMutations snapshot (some (encodeLog records)) =
      (snapshotFileMutations snapshot).map (· ++ records.map recordMutation) := by
  have hread := readOperations_encodeLog records []
  rw [List.append_nil] at hread
  rw [recoveryMutations]
  cases snapshotFileMutations snapshot with
  | error p => rfl
  | ok ms =>
    show (readOperations (encodeLog records) >>= fun ops =>
      Except.ok (ms ++ ops.filterMap operationMutation)) = .ok (ms ++ records.map recordMutation)
    rw [hread]
    show Except.ok (ms ++ List.filterMap operationMutation (records.map Record.operation ++ [])) = _
    rw [List.append_nil, filterMap_operationMutation]

/-- The record sets a key. -/
def isSetRecord : Record → Bool
  | .set _ _ _ => true
  | .del _ => false

private theorem snapshotRecord_value (ms : List Mutation) (r : Record) :
    snapshotRecord ms r.value =
      .ok (.next (ms ++ if isSetRecord r then [recordMutation r] else [])) := by
  cases r with
  | set key value ttlSeconds =>
    have httl : atoi (itoaString ttlSeconds).bytes = some ttlSeconds := atoi_itoa ttlSeconds
    simp only [snapshotRecord, snapshotSet, recordParts_value, Record.parts, if_pos, httl,
      Option.getD_some, isSetRecord, recordMutation]
  | del key =>
    simp only [snapshotRecord, snapshotSet, recordParts_value, Record.parts]
    show Except.ok (Turn.next ms) = .ok (.next (ms ++ []))
    rw [List.append_nil]

/-- A snapshot file that is a log loads the keys its records set. -/
theorem snapshotMutations_encodeLog (records : List Record) :
    snapshotMutations (encodeLog records) =
      .ok ((records.filter isSetRecord).map recordMutation) := by
  have hfold : records.foldl (fun ms r => ms ++ if isSetRecord r then [recordMutation r] else []) []
      = (records.filter isSetRecord).map recordMutation := by
    rw [List.foldl_append_eq_append, List.nil_append]
    induction records with
    | nil => rfl
    | cons r records ih =>
      rw [List.map_cons, List.flatten_cons, ih]
      cases hr : isSetRecord r <;> simp [hr]
  rw [snapshotMutations, ← List.append_nil (encodeLog records), encodeLog,
    loopAll_flatMap (f := fun st => st) progresses_skipCorrupted frames_encode
      snapshotRecord_value,
    hfold, loopAll_err_stop parse_nil rfl]
  rfl

end GoCache.Spec
