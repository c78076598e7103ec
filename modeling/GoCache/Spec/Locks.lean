import GoCache.Spec.Execution

/-!
# `EXEC` and the lock it holds

`handleExec` takes `Cache.mu` for writing and keeps it over the whole queue. All
queued commands but one use the methods of the cache that take no lock. `DBSIZE`
calls `GetAllKeys`, which waits for the lock this very goroutine holds.

## Key results

- `handleExecLocked_eq`: with the lock as a `sync.RWMutex`, `handleExec` is what
  the model without it computes, and hands the lock back
- `exec_releases_iff`: when `EXEC` reaches its reply
-/

namespace GoCache.Spec

open GoCache.Native

section Locked

variable (c : Cache) (clock : Nat → Time) {mu : RWMutex}

/-- Under the write lock, counting the keys waits for ever. -/
private theorem executeDBSizeCommand_held (hmu : mu.writer = true) :
    executeDBSizeCommand c mu = .error .deadlock := by
  have hwait : RWMutex.rLock mu = .error .deadlock := by
    unfold RWMutex.rLock
    rw [hmu]
    rfl
  show (RWMutex.rLock mu >>= fun r => _) >>= _ = _
  rw [hwait]
  rfl

private theorem executeCommandIn_held (hmu : mu.writer = true) (now : Time) (cmd : List Value) :
    executeCommandIn executeDBSizeCommand c now cmd mu =
      (executeCommand c now cmd).map fun r => (r, mu) := by
  match cmd with
  | .str name :: args =>
    by_cases hname : name = lit "DBSIZE"
    · subst hname
      rw [executeCommand_dbsize]
      show (executeDBSizeCommand c mu >>= fun r => _) = _
      rw [executeDBSizeCommand_held c hmu]
      rfl
    · rw [executeCommandIn, executeCommand_str, if_neg hname, if_neg hname]
      split_ifs
      · cases executeSetCommand c now (.str name :: args) <;> rfl
      · cases executeGetCommand c now (.str name :: args) <;> rfl
      · cases executeDeleteCommand c (.str name :: args) <;> rfl
      · rfl
      · rfl
  | [] => rfl
  | .int _ :: _ => rfl
  | .arr _ :: _ => rfl
  | .nilArr :: _ => rfl

private theorem executeQueueIn_held (hmu : mu.writer = true) (i : Nat)
    (queue : List (List Value)) :
    executeQueueIn executeDBSizeCommand clock i c queue mu =
      (executeQueue clock i c queue).map fun r => (r, mu) := by
  induction queue generalizing i c with
  | nil => rfl
  | cons cmd queue ih =>
    show (executeCommandIn executeDBSizeCommand c (clock i) cmd mu >>= fun r =>
      executeQueueIn executeDBSizeCommand clock (i + 1) r.1.2 queue r.2 >>= fun r' => _) = _
    rw [executeCommandIn_held c hmu, executeQueue_cons]
    cases executeCommand c (clock i) cmd with
    | error p => rfl
    | ok r =>
      show (executeQueueIn executeDBSizeCommand clock (i + 1) r.2 queue mu >>= fun r' => _) =
        (executeQueue clock (i + 1) r.2 queue >>= fun r' => _).map _
      rw [ih]
      cases executeQueue clock (i + 1) r.2 queue <;> rfl

end Locked

/-- With nobody else holding the lock, `handleExec` computes what it does without
    it, and the lock is free behind it. -/
theorem handleExecLocked_eq (s : Server) (st : ConnectionState) (clock : Nat → Time) :
    handleExecLocked s st clock .free = (handleExec s st clock).map fun r => (r, .free) := by
  rw [handleExec_eq]
  unfold handleExecLocked handleExecIn
  cases hin : st.inTransaction with
  | false => rfl
  | true =>
    cases herr : st.transactionError with
    | some text => rfl
    | none =>
      show (executeQueueIn executeDBSizeCommand clock 0 s.cache st.commandQueue ⟨true, 0⟩ >>=
        fun r => _) = _
      rw [executeQueueIn_held s.cache clock rfl]
      cases executeQueue clock 0 s.cache st.commandQueue with
      | error p => rfl
      | ok r =>
        show ((liftM (st.commandQueue.foldlM persistCommand { s with cache := r.2 }) :
            Locked Server) ⟨true, 0⟩ >>= fun r' => _) =
          (st.commandQueue.foldlM persistCommand { s with cache := r.2 } >>= fun r' => _).map _
        cases st.commandQueue.foldlM persistCommand { s with cache := r.2 } <;> rfl

/-- For every cache and every queue of commands that passed queueing, `EXEC`,
    running alone, reaches its reply and releases the lock if and only if no
    command of the queue is a `DBSIZE` and the elements that are asserted to be
    strings are strings. -/
theorem exec_releases_iff (s : Server) (c : WfCache) (queue : List (List Value))
    (clock : Nat → Time) (hq : ∀ cmd ∈ queue, Queueable cmd) :
    (∃ r, handleExecLocked { s with cache := c.cache } (queueing queue) clock .free =
      .ok (r, .free)) ↔ ∀ cmd ∈ queue, completes cmd = true := by
  rw [handleExecLocked_eq]
  constructor
  · rintro ⟨r, h⟩
    cases hexec : handleExec { s with cache := c.cache } (queueing queue) clock with
    | error p =>
      rw [hexec] at h
      exact nomatch h
    | ok r' => exact completes_of_handleExec hq hexec
  · intro hcmds
    obtain ⟨responses, ops, c', hexec⟩ := executesAll_of_completes clock 0 c hq hcmds
    rw [handleExec_of_completes (s := { s with cache := c.cache }) hq hcmds rfl hexec]
    exact ⟨_, rfl⟩

/-- A queue of writes and reads. -/
theorem exec_releases_iff_writes :
    ∃ r, handleExecLocked ⟨Cache.new 10, [], .new 2, none, .leader, false, fun _ _ => none⟩
      (queueing [strs [lit "SET", lit "k", lit "v"], strs [lit "GET", lit "k"], strs [lit "PING"],
        strs [lit "DEL", lit "k"]]) (fun _ => 7) .free = .ok (r, .free) :=
  (exec_releases_iff ⟨Cache.new 10, [], .new 2, none, .leader, false, fun _ _ => none⟩
    (WfCache.new 10) _ _ (by decide)).mpr (by decide)

/-- `DBSIZE` is queued, and `EXEC` then waits for the lock it holds. -/
theorem exec_waits_for_itself :
    Queueable [.str (lit "DBSIZE")] ∧
    handleExecLocked ⟨Cache.new 10, [], .new 2, none, .leader, false, fun _ _ => none⟩
      (queueing [[.str (lit "DBSIZE")]]) (fun _ => 7) .free = .error .deadlock :=
  ⟨by decide, rfl⟩

end GoCache.Spec
