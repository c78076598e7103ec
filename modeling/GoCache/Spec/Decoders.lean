import GoCache.Spec.WireFormat
import GoCache.Native.Leader

/-!
# Where the decoders of replication index an array

A value that `Parse` returns can be an array of any length, the null array included,
with elements of any type. `DecodeSyncRequest`, `DecodeHeartbeatCommand` and
`DecodeSyncEnd` look at the length first. `DecodeReplicateCommand` looks at it last,
and the three message loops never do.

## Key results

- `decoders_total_iff`: the values on which each of them returns
- `decoders_overrun`: arrays that crash a leader and a follower
-/

namespace GoCache.Spec

open GoCache.Native

/-! ## The elements that are looked at -/

/-- The value is not an array without a first element. -/
def HasFirst (v : Value) : Prop := v ≠ .arr [] ∧ v ≠ .nilArr

/-- The value is not an array that ends where `DecodeReplicateCommand` still looks for an
    element: the command, the sequence number behind `REPLICATE`, the operation behind a
    sequence number, the key behind `SET` or `DELETE`. -/
def replicateComplete : Value → Bool
  | .nilArr | .arr [] => false
  | .arr [cmd] => !Follower.isStr cmd cmdReplicate
  | .arr [cmd, seqNum] => !(Follower.isStr cmd cmdReplicate && (parseInt64 seqNum).isSome)
  | .arr [cmd, seqNum, operation] =>
    !(Follower.isStr cmd cmdReplicate && (parseInt64 seqNum).isSome &&
      (Follower.isStr operation opSet || Follower.isStr operation opDelete))
  | _ => true

/-- The decoders and `ParseInt64` accept the same sequence numbers. -/
private theorem decodeSeqNum_eq_ok {v : Value} {n : Int64} :
    decodeSeqNum v = .ok n ↔ parseInt64 v = some n := by
  cases v with
  | int m => simp [decodeSeqNum, parseInt64]
  | str s => cases h : atoi s.bytes <;> simp [decodeSeqNum, parseInt64, h]
  | arr vs | nilArr => simp [decodeSeqNum, parseInt64]

/-! ## The decoders -/

/-- The panic of a decoder, if any, passes through. -/
private theorem exists_map_eq_ok {α β : Type} {x : Except Panic α} {f : α → β} :
    (∃ r, x.map f = .ok r) ↔ ∃ r, x = .ok r := by
  cases x with
  | error p => exact ⟨nofun, nofun⟩
  | ok a => exact ⟨fun _ => ⟨a, rfl⟩, fun _ => ⟨f a, rfl⟩⟩

/-- The operation, and behind `SET` or `DELETE` a key, have to be there. -/
private theorem decodeOperation_returns_iff {arr : List Value} {n : Int64}
    {fields : List Value} :
    (∃ r, decodeOperation arr n fields = .ok r) ↔
      fields ≠ [] ∧ ∀ operation, fields = [operation] →
        ¬ (Follower.isStr operation opSet || Follower.isStr operation opDelete) := by
  rcases fields with _ | ⟨operation, _ | ⟨key, operands⟩⟩
  · simp [decodeOperation]
  · cases operation with
    | str t =>
      by_cases ht : t = opSet ∨ t = opDelete
      · rcases ht with rfl | rfl <;> simp [decodeOperation, Follower.isStr]
      · simp [decodeOperation, Follower.isStr, not_or.mp ht]
    | _ => simp [decodeOperation, Follower.isStr]
  · cases operation with
    | str t =>
      by_cases ht : t = opSet ∨ t = opDelete
      · cases key <;> simp [decodeOperation, ht]
      · simp [decodeOperation, ht]
    | _ => simp [decodeOperation]

section Decoders

variable {stream rest : Bytes} {v : Value}

/-- A decoder that returns on every array returns on every value. -/
private theorem decodeArray_returns {α : Type} {decode : List Value → Except DecodeError α}
    (h : parse stream = .ok v rest) :
    ∃ r, decodeArray (fun arr => .ok (decode arr)) stream = .ok r := by
  unfold decodeArray
  rw [h]
  cases v with
  | arr arr => exact ⟨(decode arr, rest), rfl⟩
  | nilArr => exact ⟨(decode [], rest), rfl⟩
  | str s | int n => exact ⟨_, rfl⟩

private theorem decodeReplicateCommand_returns_iff (h : parse stream = .ok v rest) :
    (∃ r, decodeReplicateCommand stream = .ok r) ↔ replicateComplete v = true := by
  unfold decodeReplicateCommand decodeArray
  rw [h]
  cases v with
  | int n | str s => simp [replicateComplete]
  | nilArr => simp [replicateComplete, Except.map]
  | arr arr =>
    simp only [exists_map_eq_ok]
    rcases arr with _ | ⟨cmd, fields⟩
    · simp [replicateComplete]
    by_cases hcmd : Follower.isStr cmd cmdReplicate = true
    · simp only [hcmd, if_true]
      rcases fields with _ | ⟨seqNum, fields⟩
      · simp [replicateComplete, hcmd]
      cases hseq : decodeSeqNum seqNum with
      | error e =>
        have hnone : parseInt64 seqNum = none := by
          refine Option.eq_none_iff_forall_ne_some.mpr fun n hn => ?_
          rw [decodeSeqNum_eq_ok.mpr hn] at hseq
          cases hseq
        rcases fields with _ | ⟨operation, _ | ⟨key, operands⟩⟩ <;>
          simp [replicateComplete, hseq, hnone]
      | ok n =>
        have hsome := decodeSeqNum_eq_ok.mp hseq
        simp only [hseq, decodeOperation_returns_iff]
        rcases fields with _ | ⟨operation, _ | ⟨key, operands⟩⟩ <;>
          simp [replicateComplete, hcmd, hsome]
    · -- another command is refused before anything else is looked at
      simp only [hcmd, Bool.false_eq_true, if_false]
      rcases fields with _ | ⟨seqNum, _ | ⟨operation, _ | ⟨key, operands⟩⟩⟩ <;>
        simp [replicateComplete, hcmd]

/-! ## What is returned -/

private theorem decodeOperands_eq_ok {arr operands : List Value} {n : Int64}
    {operation key : GoString} {comm : ReplicateCommand}
    (hop : operation = opSet ∨ operation = opDelete)
    (h : decodeOperands arr n operation key operands = .ok comm) :
    ∃ record, comm = replicateCommand n record := by
  unfold decodeOperands at h
  split at h
  next hset =>
    split at h <;> cases h
    exact ⟨.set key _ _, by rw [hset]; rfl⟩
  next hset =>
    split at h <;> cases h
    exact ⟨.del key, by rw [hop.resolve_left hset]; rfl⟩

private theorem decodeOperation_eq_ok {arr fields : List Value} {n : Int64}
    {comm : ReplicateCommand} (h : decodeOperation arr n fields = .ok (.ok comm)) :
    ∃ record, comm = replicateCommand n record := by
  unfold decodeOperation at h
  split at h
  · cases h
  · split at h
    next hop =>
      split at h
      · cases h
      · exact decodeOperands_eq_ok hop (Except.ok.inj h)
      · cases h
    · cases h
  · cases h

/-- What `DecodeReplicateCommand` returns is a command of a `SET` or a `DELETE`. -/
private theorem exists_replicateCommand {comm : ReplicateCommand} {rest' : Bytes}
    (hdecode : decodeReplicateCommand stream = .ok (.ok comm, rest')) :
    ∃ n record, comm = replicateCommand n record := by
  unfold decodeReplicateCommand decodeArray at hdecode
  split at hdecode
  · obtain ⟨comm', hcomm, heq⟩ := map_eq_ok.mp hdecode
    cases heq
    dsimp only at hcomm
    split at hcomm
    · cases hcomm
    · split at hcomm
      · split at hcomm
        · cases hcomm
        · split at hcomm
          · cases hcomm
          · exact ⟨_, decodeOperation_eq_ok hcomm⟩
      · cases hcomm
  · cases hdecode
  · cases hdecode
  · cases hdecode
  · cases hdecode

/-- Encoding a command that `DecodeReplicateCommand` returned and decoding it again
    gives the command. -/
private theorem decodeReplicateCommand_canonical {comm : ReplicateCommand} {rest' : Bytes}
    (hdecode : decodeReplicateCommand stream = .ok (.ok comm, rest')) :
    ∃ bytes, encodeReplicateCommand comm = .ok bytes ∧
      ∀ behind, decodeReplicateCommand (bytes ++ behind) = .ok (.ok comm, behind) := by
  obtain ⟨n, record, rfl⟩ := exists_replicateCommand hdecode
  exact ⟨_, (WireMessage.replicate n record).encode_eq,
    (WireMessage.replicate n record).decodes_replicateCommand⟩

end Decoders

/-! ## The message loops -/

section Loops

variable {clock : Nat → Time} {f : WfFollower} {v : Value}

/-- The `REPLICATE` branch of the follower checks the length before it looks at the
    elements behind the command. -/
private theorem applyReplicate_returns (arr : List Value) :
    ∃ r, Follower.applyReplicate clock f.follower arr = .ok r := by
  have hcache : f.follower.cache = f.cache.cache := rfl
  unfold Follower.applyReplicate
  split
  · split
    · exact ⟨_, rfl⟩
    · split
      · split
        · split
          · exact ⟨_, rfl⟩
          · rw [hcache, WfCache.cache_set]
            exact ⟨_, rfl⟩
        · exact ⟨_, rfl⟩
        · exact ⟨_, rfl⟩
      · split
        · split
          · rw [hcache, WfCache.cache_delete]
            exact ⟨_, rfl⟩
          · exact ⟨_, rfl⟩
        · exact ⟨_, rfl⟩
    · exact ⟨_, rfl⟩
    · exact ⟨_, rfl⟩
  · exact ⟨_, rfl⟩

/-- A loop that takes the first element without a look at the length. -/
private theorem returns_iff_hasFirst {α : Type} (turn : Value → Except Panic α)
    (hempty : turn (.arr []) = .error .indexOutOfRange)
    (hnil : turn .nilArr = .error .indexOutOfRange)
    (hcons : ∀ command arr, ∃ r, turn (.arr (command :: arr)) = .ok r)
    (hstr : ∀ s, ∃ r, turn (.str s) = .ok r) (hint : ∀ n, ∃ r, turn (.int n) = .ok r) :
    (∃ r, turn v = .ok r) ↔ HasFirst v := by
  cases v with
  | arr arr =>
    cases arr with
    | nil =>
      rw [hempty]
      exact ⟨nofun, fun h => absurd rfl h.1⟩
    | cons command arr => exact ⟨fun _ => ⟨nofun, nofun⟩, fun _ => hcons command arr⟩
  | nilArr =>
    rw [hnil]
    exact ⟨nofun, fun h => absurd rfl h.2⟩
  | str s => exact ⟨fun _ => ⟨nofun, nofun⟩, fun _ => hstr s⟩
  | int n => exact ⟨fun _ => ⟨nofun, nofun⟩, fun _ => hint n⟩

private theorem syncMessage_returns_iff :
    (∃ r, Follower.syncMessage clock f.follower v = .ok r) ↔ HasFirst v := by
  apply returns_iff_hasFirst (Follower.syncMessage clock f.follower) rfl rfl _
    (fun _ => ⟨_, rfl⟩) (fun _ => ⟨_, rfl⟩)
  intro command arr
  unfold Follower.syncMessage
  dsimp only
  split
  · exact applyReplicate_returns _
  · split
    · split <;> exact ⟨_, rfl⟩
    · exact ⟨_, rfl⟩

private theorem streamMessage_returns_iff :
    (∃ r, Follower.streamMessage clock f.follower v = .ok r) ↔ HasFirst v := by
  apply returns_iff_hasFirst (Follower.streamMessage clock f.follower) rfl rfl _
    (fun _ => ⟨_, rfl⟩) (fun _ => ⟨_, rfl⟩)
  intro command arr
  unfold Follower.streamMessage
  dsimp only
  split
  · exact applyReplicate_returns _
  · exact ⟨_, rfl⟩

private theorem followerMessage_returns_iff {now lastHeartbeat : Time} :
    (∃ r, followerMessage now lastHeartbeat v = .ok r) ↔ HasFirst v :=
  returns_iff_hasFirst (followerMessage now lastHeartbeat) rfl rfl (fun _ _ => ⟨_, rfl⟩)
    (fun _ => ⟨_, rfl⟩) (fun _ => ⟨_, rfl⟩)

end Loops

private theorem decodeSyncEnd_of_length {arr : List Value} (h : arr.length ≠ 2) :
    Follower.decodeSyncEnd arr = none := by
  unfold Follower.decodeSyncEnd
  split
  · exact absurd rfl h
  · rfl

/-! ## Results -/

/-- For every value that `Parse` returns. `DecodeReplicateCommand` returns if and only if
    the array does not end where it looks for an element. `DecodeSyncRequest` and
    `DecodeHeartbeatCommand` always return, and `DecodeSyncEnd`, which is a function on
    arrays, refuses those of another length than its own. The loops of `handleFollower`,
    `sendSyncRequest` and `processReplicationStream` return from the turn, or go on, if and
    only if the value is not an array without elements. A command that
    `DecodeReplicateCommand` returns is encoded and decoded to itself. -/
theorem decoders_total_iff {stream rest : Bytes} {v : Value} (h : parse stream = .ok v rest)
    (clock : Nat → Time) (f : WfFollower) (now lastHeartbeat : Time) :
    ((∃ r, decodeReplicateCommand stream = .ok r) ↔ replicateComplete v = true) ∧
    (∃ r, decodeSyncRequest stream = .ok r) ∧
    (∃ r, decodeHeartbeatCommand stream = .ok r) ∧
    (∀ arr : List Value, arr.length ≠ 2 → Follower.decodeSyncEnd arr = none) ∧
    ((∃ r, followerMessage now lastHeartbeat v = .ok r) ↔ HasFirst v) ∧
    ((∃ r, Follower.syncMessage clock f.follower v = .ok r) ↔ HasFirst v) ∧
    ((∃ r, Follower.streamMessage clock f.follower v = .ok r) ↔ HasFirst v) ∧
    ∀ comm rest', decodeReplicateCommand stream = .ok (.ok comm, rest') →
      ∃ bytes, encodeReplicateCommand comm = .ok bytes ∧
        ∀ behind, decodeReplicateCommand (bytes ++ behind) = .ok (.ok comm, behind) :=
  ⟨decodeReplicateCommand_returns_iff h, decodeArray_returns h, decodeArray_returns h,
    fun _ => decodeSyncEnd_of_length, followerMessage_returns_iff, syncMessage_returns_iff,
    streamMessage_returns_iff, fun _ _ => decodeReplicateCommand_canonical⟩

/-- `SYNC` alone is refused by the decoder of `REPLICATE` and passed over by the loop of
    `handleFollower`. -/
theorem decoders_total_iff_sync :
    parse (encodeArray [.str cmdSync]) = .ok (.arr [.str cmdSync]) [] ∧
    (∃ r, decodeReplicateCommand (encodeArray [.str cmdSync]) = .ok r) ∧
    ∃ r, followerMessage 1 0 (.arr [.str cmdSync]) = .ok r := by
  have hparse : parse (encodeArray [.str cmdSync]) = .ok (.arr [.str cmdSync]) [] := rfl
  obtain ⟨hreplicate, _, _, _, hleader, _⟩ :=
    decoders_total_iff hparse (fun _ => 0) ⟨WfCache.new 7, 0, 0⟩ 1 0
  exact ⟨hparse, hreplicate.mpr rfl, hleader.mpr ⟨nofun, nofun⟩⟩

/-- The empty and the null array crash a leader behind the snapshot, a follower in both of
    its loops, and `DecodeReplicateCommand`, which `REPLICATE` alone crashes too. -/
theorem decoders_overrun :
    (∃ f : WfFollower, ∀ v ∈ [Value.arr [], .nilArr],
      followerMessage 1 0 v = .error .indexOutOfRange ∧
      Follower.syncMessage (fun _ => 0) f.follower v = .error .indexOutOfRange ∧
      Follower.streamMessage (fun _ => 0) f.follower v = .error .indexOutOfRange) ∧
    parse (ascii "*0\r\n") = .ok (.arr []) [] ∧
    decodeReplicateCommand (ascii "*0\r\n") = .error .indexOutOfRange ∧
    parse (ascii "*-1\r\n") = .ok .nilArr [] ∧
    decodeReplicateCommand (ascii "*-1\r\n") = .error .indexOutOfRange ∧
    parse (encodeArray [.str cmdReplicate]) = .ok (.arr [.str cmdReplicate]) [] ∧
    decodeReplicateCommand (encodeArray [.str cmdReplicate]) = .error .indexOutOfRange := by
  have hempty : parse (ascii "*0\r\n") = .ok (.arr []) [] := by rfl
  have hnil : parse (ascii "*-1\r\n") = .ok .nilArr [] := by rfl
  have hreplicate : parse (encodeArray [.str cmdReplicate]) = .ok (.arr [.str cmdReplicate]) [] :=
    rfl
  refine ⟨⟨⟨WfCache.new 7, 0, 0⟩, ?_⟩, hempty, ?_, hnil, ?_, hreplicate, ?_⟩
  · intro v hv
    rcases List.mem_pair.mp hv with rfl | rfl
    · exact ⟨rfl, rfl, rfl⟩
    · exact ⟨rfl, rfl, rfl⟩
  · rw [decodeReplicateCommand, decodeArray, hempty]
    rfl
  · rw [decodeReplicateCommand, decodeArray, hnil]
    rfl
  · rw [decodeReplicateCommand, decodeArray, hreplicate]
    rfl

end GoCache.Spec
