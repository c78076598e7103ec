import GoCache.ForStd.Reaches
import GoCache.Native.Rewrite
import GoCache.Spec.Appending

/-!
# The log after a rewrite that failed

Up to the mutex a rewrite works on the temp file, and a call that fails leaves the log and
its handle alone. Behind it the handle is closed, and an error returns with the handle of
the closed file still in `aof.file`.

## Key results

- `Log.RewriteInv`: the invariant of a rewrite with `Append`s between its calls
- `failed_rewrite_usable_iff`: after which failures the log can be used
- `failed_rewrite_refuses`: each failure behind the mutex stops all later `Append`s
-/

namespace GoCache.Native

/-- The call comes behind the mutex. -/
def RewriteCall.swaps : RewriteCall → Bool
  | .closeOld | .rename | .reopen => true
  | .openTemp | .writeTemp _ | .syncTemp | .closeTemp | .lock => false

/-- The records whose `Append` has returned `nil`. -/
def Log.acknowledged (s : Log) : List Record :=
  s.results.filterMap fun x => if x.2 then some x.1 else none

end GoCache.Native

namespace GoCache.Spec

open GoCache.Native Transition

/-! ## The purpose -/

/-- The file recovers as the given content does, and every `Append` from now on returns
    `nil` and is read back. -/
structure LogUsable (s : Log) (content : Bytes) : Prop where
  recovers : ∀ clock c snapshot,
    recoverAOF clock c snapshot (some s.aof) = recoverAOF clock c snapshot (some content)
  appends : ∀ records : List Record, ∃ s',
    (records.map LogEvent.append).foldlM Log.step s = some s' ∧
    s'.results = s.results ++ records.map (·, true) ∧
    ∀ r ∈ records, ∃ ops, readOperations s'.aof = .ok ops ∧ r.operation ∈ ops

/-! ## Appending -/

section Appending

variable {s : Log} {aof : Bytes}

/-- The log is what it was with the records of all `Append`s that returned `nil`, and the
    next one will find it open. -/
structure Intact (aof : Bytes) (s : Log) : Prop where
  fileOpen : s.fileOpen = true
  unlocked : s.locked = false
  content : s.aof = aof ++ encodeLog s.acknowledged

private theorem Intact.write_eq (h : Intact aof s) (r : Record) : s.write r =
    { s with aof := s.aof ++ r.encode, results := s.results ++ [(r, true)] } := by
  rw [Log.write, if_pos h.fileOpen]

private theorem Intact.write (h : Intact aof s) (r : Record) : Intact aof (s.write r) := by
  rw [h.write_eq]
  refine ⟨h.fileOpen, h.unlocked, ?_⟩
  show s.aof ++ r.encode = _
  rw [h.content, List.append_assoc]
  congr 1
  simp [Log.acknowledged, encodeLog]

/-- `Append`s on an intact log all return `nil`, and add their records. -/
private theorem Intact.appends (h : Intact aof s) (records : List Record) : ∃ s',
    (records.map LogEvent.append).foldlM Log.step s = some s' ∧
    s'.results = s.results ++ records.map (·, true) ∧ s'.aof = s.aof ++ encodeLog records := by
  induction records generalizing s with
  | nil => exact ⟨s, rfl, by simp, by simp [encodeLog]⟩
  | cons r records ih =>
    have hstep : s.step (.append r) = some (s.write r) := by
      simp only [Log.step, h.unlocked, Bool.false_eq_true, if_false]
    obtain ⟨s', hrun, hresults, haof⟩ := ih (h.write r)
    refine ⟨s', ?_, ?_, ?_⟩
    · rw [List.map_cons, List.foldlM_cons, hstep]
      exact hrun
    · rw [hresults, h.write_eq]
      simp
    · rw [haof, h.write_eq]
      simp [encodeLog]

/-- An `Append` on a closed file returns an error. -/
private theorem not_usable_of_closed {content : Bytes} (hclosed : s.fileOpen = false) :
    ¬ LogUsable s content := by
  intro h
  obtain ⟨s', hrun, hresults, _⟩ := h.appends [.del GoString.empty]
  have hstep : s.step (.append (.del GoString.empty)) = some s' := by
    simpa using hrun
  simp only [Log.step] at hstep
  split at hstep
  · cases hstep
  · cases hstep
    simp [Log.write, hclosed] at hresults

private theorem Intact.usable_iff (h : Intact aof s) :
    LogUsable s (aof ++ encodeLog s.acknowledged) ↔
      Appendable (aof ++ encodeLog s.acknowledged) := by
  rw [← h.content]
  constructor
  · intro husable records r hr
    obtain ⟨s', hrun, _, hread⟩ := husable.appends records
    obtain ⟨s'', hrun', _, haof⟩ := h.appends records
    rw [hrun] at hrun'
    cases hrun'
    rw [← haof]
    exact hread r hr
  · intro happendable
    refine ⟨fun _ _ _ => rfl, fun records => ?_⟩
    obtain ⟨s', hrun, hresults, haof⟩ := h.appends records
    refine ⟨s', hrun, hresults, fun r hr => ?_⟩
    rw [haof]
    exact happendable records r hr

end Appending

/-! ## The rewrite -/

/-- What holds between two steps of a rewrite, whatever is appended in the meantime. -/
inductive RewriteInv (aof : Bytes) (s : Log) : Prop where
  /-- It works on the temp file. -/
  | early (todo : List RewriteCall) (htodo : ∀ call ∈ todo, call.swaps = false ∧ call ≠ .lock)
      (hprogress : s.progress = .running (todo ++ [.lock, .closeOld, .rename, .reopen]))
      (hintact : Intact aof s)
  | locked (hprogress : s.progress = .running [.closeOld, .rename, .reopen])
      (hlocked : s.locked = true)
  /-- The log has no open file. -/
  | closed (todo : List RewriteCall) (htodo : todo = [.rename, .reopen] ∨ todo = [.reopen])
      (hprogress : s.progress = .running todo) (hclosed : s.fileOpen = false)
      (hlocked : s.locked = true)
  | returning (hprogress : s.progress = .running [])
  | done (hprogress : s.progress = .done)
  | failedEarly (call : RewriteCall) (hcall : call.swaps = false)
      (hprogress : s.progress = .failed call) (hintact : Intact aof s)
  | failedLate (call : RewriteCall) (hcall : call.swaps = true)
      (hprogress : s.progress = .failed call) (hclosed : s.fileOpen = false)

namespace RewriteInv

variable {aof : Bytes} {s s' : Log}

theorem start (temp : Option Bytes) (now : GoString → Time)
    (snapshot : List (GoString × SnapshotEntry)) :
    RewriteInv aof (Log.start aof temp (rewriteCalls now snapshot)) := by
  refine .early (.openTemp :: ((snapshot.filterMap (dumpEntry now)).map fun r =>
    .writeTemp r.encode) ++ [.syncTemp, .closeTemp]) ?_ ?_ ⟨rfl, rfl, ?_⟩
  · intro call hcall
    simp only [List.cons_append, List.mem_cons, List.mem_append, List.mem_map, List.not_mem_nil,
      or_false] at hcall
    obtain rfl | ⟨r, _, rfl⟩ | rfl | rfl := hcall <;> exact ⟨rfl, nofun⟩
  · simp [Log.start, rewriteCalls]
  · simp [Log.start, Log.acknowledged, encodeLog]

/-- The calls on the temp file leave the log alone. -/
private theorem intact_apply {call : RewriteCall} {progress : RewriteProgress}
    (h : Intact aof s) (hcall : call.swaps = false) (hne : call ≠ .lock) :
    Intact aof { s.apply call with progress } := by
  cases call with
  | openTemp | writeTemp bytes | syncTemp | closeTemp => exact ⟨h.fileOpen, h.unlocked, h.content⟩
  | lock => exact absurd rfl hne
  | closeOld | rename | reopen => cases hcall

/-- So does their failure. -/
private theorem intact_abandon {call : RewriteCall} {progress : RewriteProgress}
    (h : Intact aof s) (hcall : call.swaps = false) :
    Intact aof { s.abandon call with progress } := by
  cases call with
  | openTemp => exact ⟨h.fileOpen, h.unlocked, h.content⟩
  | writeTemp bytes | syncTemp | closeTemp | lock => exact ⟨h.fileOpen, rfl, h.content⟩
  | closeOld | rename | reopen => cases hcall

private theorem call (h : RewriteInv aof s) (hstep : s.step .call = some s') :
    RewriteInv aof s' := by
  cases h with
  | early todo htodo hprogress hintact =>
    cases todo with
    | nil =>
      simp only [Log.step, hprogress, List.nil_append] at hstep
      cases hstep
      exact .locked rfl rfl
    | cons call todo =>
      simp only [Log.step, hprogress, List.cons_append] at hstep
      cases hstep
      obtain ⟨hcall, hne⟩ := htodo call List.mem_cons_self
      exact .early todo (fun c hc => htodo c (List.mem_cons_of_mem _ hc)) rfl
        (intact_apply hintact hcall hne)
  | locked hprogress hlocked =>
    simp only [Log.step, hprogress] at hstep
    cases hstep
    exact .closed _ (.inl rfl) rfl rfl hlocked
  | closed todo htodo hprogress hclosed hlocked =>
    rcases htodo with rfl | rfl
    · have hs' : { s.apply .rename with progress := .running [.reopen] } = s' := by
        simpa [Log.step, hprogress] using hstep
      rw [← hs']
      refine .closed _ (.inr rfl) rfl ?_ ?_
      · rw [← hclosed]
        unfold Log.apply
        cases s.temp <;> rfl
      · rw [← hlocked]
        unfold Log.apply
        cases s.temp <;> rfl
    · simp only [Log.step, hprogress] at hstep
      cases hstep
      exact .returning rfl
  | returning hprogress =>
    simp only [Log.step, hprogress] at hstep
    cases hstep
    exact .done rfl
  | done hprogress | failedEarly call hcall hprogress hintact
  | failedLate call hcall hprogress hclosed => simp [Log.step, hprogress] at hstep

private theorem fail (h : RewriteInv aof s) (hstep : s.step .fail = some s') :
    RewriteInv aof s' := by
  cases h with
  | early todo htodo hprogress hintact =>
    cases todo with
    | nil => simp [Log.step, hprogress] at hstep
    | cons call todo =>
      obtain ⟨hcall, hne⟩ := htodo call List.mem_cons_self
      have hs' : { s.abandon call with progress := .failed call } = s' := by
        simpa [Log.step, hprogress, hne] using hstep
      rw [← hs']
      exact .failedEarly call hcall rfl (intact_abandon hintact hcall)
  | locked hprogress hlocked =>
    simp only [Log.step, hprogress] at hstep
    cases hstep
    exact .failedLate .closeOld rfl rfl rfl
  | closed todo htodo hprogress hclosed hlocked =>
    rcases htodo with rfl | rfl
    · simp only [Log.step, hprogress] at hstep
      cases hstep
      exact .failedLate .rename rfl rfl hclosed
    · simp only [Log.step, hprogress] at hstep
      cases hstep
      exact .failedLate .reopen rfl rfl hclosed
  | returning hprogress | done hprogress | failedEarly call hcall hprogress hintact
  | failedLate call hcall hprogress hclosed => simp [Log.step, hprogress] at hstep

private theorem progress_write (r : Record) : (s.write r).progress = s.progress := by
  unfold Log.write
  split <;> rfl

private theorem fileOpen_write (r : Record) : (s.write r).fileOpen = s.fileOpen := by
  unfold Log.write
  split <;> rfl

/-- An `Append` waits for the mutex, so none comes between the last calls. -/
private theorem append {r : Record} (h : RewriteInv aof s)
    (hstep : s.step (.append r) = some s') : RewriteInv aof s' := by
  simp only [Log.step] at hstep
  split at hstep
  next => cases hstep
  next hunlocked =>
    cases hstep
    cases h with
    | early todo htodo hprogress hintact =>
      exact .early todo htodo (by rw [progress_write, hprogress]) (hintact.write r)
    | locked _ hlocked | closed _ _ _ _ hlocked => exact absurd hlocked hunlocked
    | returning hprogress => exact .returning (by rw [progress_write, hprogress])
    | done hprogress => exact .done (by rw [progress_write, hprogress])
    | failedEarly call hcall hprogress hintact =>
      exact .failedEarly call hcall (by rw [progress_write, hprogress]) (hintact.write r)
    | failedLate call hcall hprogress hclosed =>
      exact .failedLate call hcall (by rw [progress_write, hprogress])
        (by rw [fileOpen_write, hclosed])

theorem step (h : RewriteInv aof s) {event : LogEvent} (hstep : s.step event = some s') :
    RewriteInv aof s' := by
  cases event with
  | call => exact h.call hstep
  | fail => exact h.fail hstep
  | append r => exact h.append hstep

end RewriteInv

/-! ## Results -/

/-- For every content of the log, every leftover temp file, every snapshot of the cache, any
    `Append`s before and behind, and whichever call fails: after the error the log recovers
    as it would have without the rewrite, every later `Append` returns `nil` and is read
    back, if and only if the call that failed comes before the old file is closed and
    records that are appended to this content are read back at all. -/
theorem failed_rewrite_usable_iff {aof : Bytes} {temp : Option Bytes} {now : GoString → Time}
    {snapshot : List (GoString × SnapshotEntry)} {s : Log} {call : RewriteCall}
    (hs : Reaches Log.step (fun _ _ => True) (Log.start aof temp (rewriteCalls now snapshot)) s)
    (hfailed : s.progress = .failed call) :
    LogUsable s (aof ++ encodeLog s.acknowledged) ↔
      call.swaps = false ∧ Appendable (aof ++ encodeLog s.acknowledged) := by
  have hinv : RewriteInv aof s :=
    hs.invariant (RewriteInv.start temp now snapshot) fun _ _ _ h _ hstep => h.step hstep
  cases hinv with
  | early _ _ hprogress _ | locked hprogress _ | closed _ _ hprogress _ _ | returning hprogress
  | done hprogress => rw [hprogress] at hfailed; cases hfailed
  | failedEarly call' hcall hprogress hintact =>
    rw [hprogress] at hfailed
    cases hfailed
    rw [hintact.usable_iff]
    exact ⟨fun h => ⟨hcall, h⟩, fun h => h.2⟩
  | failedLate call' hcall hprogress hclosed =>
    rw [hprogress] at hfailed
    cases hfailed
    rw [hcall]
    exact ⟨fun h => absurd h (not_usable_of_closed hclosed), fun h => nomatch h.1⟩

/-- The rewrite of a log with one record, for a cache with its key. -/
private def oneRecordLog : Log :=
  Log.start (encodeLog [.set (lit "a") (lit "1") 0]) none
    (rewriteCalls (fun _ => 0) [(lit "a", ⟨lit "1", 0⟩)])

/-- Another record is appended, and then the temp file cannot be synced. -/
theorem failed_rewrite_usable_iff_sync : ∃ s,
    Reaches Log.step (fun _ _ => True) oneRecordLog s ∧ s.progress = .failed .syncTemp ∧
    LogUsable s (encodeLog [.set (lit "a") (lit "1") 0, .del (lit "b")]) := by
  have hstart : Reaches Log.step (fun _ _ => True) oneRecordLog oneRecordLog := .refl
  have happended := (hstart.step .call trivial rfl).step (.append (.del (lit "b"))) trivial rfl
  have hfailed := (happended.step .call trivial rfl).step .fail trivial rfl
  refine ⟨_, hfailed, rfl, ?_⟩
  exact (failed_rewrite_usable_iff hfailed rfl).mpr ⟨rfl, appendable_encodeLog
    [.set (lit "a") (lit "1") 0, .del (lit "b")]⟩

/-- The rewrite of an empty log, for an empty cache. -/
private def emptyLog : Log := Log.start [] none (rewriteCalls (fun _ => 0) [])

/-- In some run the call fails, and the next `Append` is refused. -/
def RefusesAfter (call : RewriteCall) : Prop := ∃ s s',
  Reaches Log.step (fun _ _ => True) emptyLog s ∧ s.progress = .failed call ∧
  s.step (.append (.del (lit "k"))) = some s' ∧ s'.results = [(.del (lit "k"), false)]

private theorem reaches_locked : Reaches Log.step (fun _ _ => True) emptyLog
    { emptyLog with
      temp := some [], locked := true, progress := .running [.closeOld, .rename, .reopen] } :=
  (((Reaches.refl.step .call trivial rfl).step .call trivial rfl).step .call trivial rfl).step
    .call trivial rfl

/-- Whichever of the last three calls fails, a later `Append` does. -/
theorem failed_rewrite_refuses :
    RefusesAfter .closeOld ∧ RefusesAfter .rename ∧ RefusesAfter .reopen := by
  refine ⟨⟨_, _, reaches_locked.step .fail trivial rfl, rfl, rfl, rfl⟩, ?_, ?_⟩
  · exact ⟨_, _, (reaches_locked.step .call trivial rfl).step .fail trivial rfl, rfl, rfl, rfl⟩
  · exact ⟨_, _, ((reaches_locked.step .call trivial rfl).step .call trivial rfl).step .fail
      trivial rfl, rfl, rfl, rfl⟩

end GoCache.Spec
