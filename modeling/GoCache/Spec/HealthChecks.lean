import GoCache.Native.Health
import Mathlib.Data.List.DropRight

/-!
# Failure detection

A node is checked again and again, and each ping fails or does not. Its status tells how
many of the last pings have failed in a row, and the callbacks tell apart the runs of
failures that were long enough to count as an outage.

## Key results

- `checkNode_failed`, `checkNode_succeeded`: one check
- `checks_fst`, `checks_snd`: the status after a sequence of checks, and its callbacks
- `checks_wrapped`: the counter of 64 bits
- `failure_detection_exact`: both, in terms of the outcomes
-/

namespace GoCache.Spec

open GoCache.Native

/-- The checks of a registered node, given whether each ping failed: the node after them,
    and the callbacks they have triggered. -/
def checks {Count : Type} [Add Count] [OfNat Count 0] [OfNat Count 1] [LE Count] [LT Count]
    [DecidableLE Count] [DecidableLT Count] (threshold : Count) (node : NodeCheck Count) :
    List Bool → NodeCheck Count × List HealthReport
  | [] => (node, [])
  | pingFailed :: outcomes =>
    let (node, report) := node.checkNode threshold pingFailed
    let (node, reports) := checks threshold node outcomes
    (node, report.toList ++ reports)

/-- The number of failures since the last success. -/
def failuresInARow (outcomes : List Bool) : Nat := (outcomes.rtakeWhile id).length

/-- The maximal runs of failures: what stands between the successes. Each of them but the
    last one is ended by a success. -/
def failureRuns (outcomes : List Bool) : List (List Bool) := outcomes.splitOnP (!·)

theorem failureRuns_true (outcomes : List Bool) :
    failureRuns (true :: outcomes) = (failureRuns outcomes).modifyHead (true :: ·) := by
  rw [failureRuns, List.splitOnP_cons_eq_if_modifyHead]
  rfl

theorem failureRuns_false (outcomes : List Bool) :
    failureRuns (false :: outcomes) = [] :: failureRuns outcomes := by
  rw [failureRuns, List.splitOnP_cons_eq_if_modifyHead]
  rfl

theorem exists_failureRuns (outcomes : List Bool) :
    ∃ run runs, failureRuns outcomes = run :: runs :=
  List.exists_cons_of_ne_nil (List.splitOnP_ne_nil (fun b => !b) outcomes)

private theorem replicate_cons (n : Nat) (run : List Bool) :
    List.replicate n true ++ true :: run = List.replicate (n + 1) true ++ run := by
  rw [List.replicate_succ', List.append_assoc]
  rfl

/-- One failure callback for a run that is long enough, and one recovery callback for the
    success that ends it. -/
def runReports (threshold : Nat) : List (List Bool) → List HealthReport
  | [] => []
  | [run] => if threshold ≤ run.length then [.failed] else []
  | run :: next :: runs =>
    (if threshold ≤ run.length then [.failed, .recovered] else []) ++
      runReports threshold (next :: runs)

/-! ## One check -/

section Check

variable {threshold : Nat} (n : Nat)

/-- The status of a node with so many failures in a row. -/
def statusFor (threshold n : Nat) : NodeStatus :=
  if threshold ≤ n then .dead else if 0 < n then .suspected else .alive

/-- A node with so many failures in a row. -/
def failing (threshold n : Nat) : NodeCheck Nat := ⟨statusFor threshold n, n⟩

theorem statusFor_eq_dead_iff : statusFor threshold n = .dead ↔ threshold ≤ n := by
  unfold statusFor
  split
  · simp [*]
  · split <;> simp [*]

theorem checkNode_failed : (failing threshold n).checkNode threshold true =
    (failing threshold (n + 1), if n + 1 = threshold then some .failed else none) := by
  have hstatus : (if threshold ≤ n + 1 then NodeStatus.dead
      else if 0 < n + 1 then .suspected else statusFor threshold n) =
        statusFor threshold (n + 1) := by
    simp [statusFor]
  -- the node was not dead before and is dead now
  have hreport : (statusFor threshold n ≠ .dead ∧ statusFor threshold (n + 1) = .dead) ↔
      n + 1 = threshold := by
    rw [ne_eq, statusFor_eq_dead_iff, statusFor_eq_dead_iff]
    omega
  unfold NodeCheck.checkNode failing
  simp only [if_true, hstatus, hreport]

theorem checkNode_succeeded (h : 1 ≤ threshold) : (failing threshold n).checkNode threshold false =
    (failing threshold 0, if threshold ≤ n then some .recovered else none) := by
  have hstatus : statusFor threshold 0 = .alive := by
    rw [statusFor, if_neg (by omega), if_neg (Nat.lt_irrefl 0)]
  unfold NodeCheck.checkNode failing
  simp only [Bool.false_eq_true, if_false, hstatus, statusFor_eq_dead_iff]

end Check

/-! ## A sequence of checks -/

section Checks

variable {threshold : Nat} (h : 1 ≤ threshold) (n : Nat) (outcomes : List Bool)

include h

/-- The status follows the number of failures in a row. -/
theorem checks_fst : (checks threshold (failing threshold n) outcomes).1 =
    failing threshold (outcomes.foldl (fun n pingFailed => if pingFailed then n + 1 else 0) n) := by
  induction outcomes generalizing n with
  | nil => rfl
  | cons pingFailed outcomes ih =>
    cases pingFailed with
    | true =>
      show (checks threshold ((failing threshold n).checkNode threshold true).1 outcomes).1 = _
      rw [checkNode_failed, ih]
      rfl
    | false =>
      show (checks threshold ((failing threshold n).checkNode threshold false).1 outcomes).1 = _
      rw [checkNode_succeeded n h, ih]
      rfl

/-- The callbacks are those of the runs, the first of which has begun `n` failures ago. -/
theorem checks_snd :
    (if threshold ≤ n then [HealthReport.failed] else []) ++
        (checks threshold (failing threshold n) outcomes).2 =
      runReports threshold
        ((failureRuns outcomes).modifyHead (List.replicate n true ++ ·)) := by
  induction outcomes generalizing n with
  | nil => simp [checks, failureRuns, runReports]
  | cons pingFailed outcomes ih =>
    obtain ⟨run, runs, hruns⟩ := exists_failureRuns outcomes
    cases pingFailed with
    | true =>
      have ih := ih (n + 1)
      rw [hruns, List.modifyHead_cons] at ih
      rw [failureRuns_true, hruns, List.modifyHead_cons, List.modifyHead_cons, replicate_cons,
        ← ih]
      show _ ++ (((failing threshold n).checkNode threshold true).2.toList ++
        (checks threshold ((failing threshold n).checkNode threshold true).1 outcomes).2) = _
      rw [checkNode_failed, ← List.append_assoc]
      congr 1
      -- the callback comes with the failure that makes the run long enough
      rcases Nat.lt_trichotomy (n + 1) threshold with hlt | heq | hgt
      · simp [show ¬ threshold ≤ n by omega, show ¬ n + 1 = threshold by omega,
          show ¬ threshold ≤ n + 1 by omega]
      · simp [show ¬ threshold ≤ n by omega, heq]
      · simp [show threshold ≤ n by omega, show ¬ n + 1 = threshold by omega,
          show threshold ≤ n + 1 by omega]
    | false =>
      have ih := ih 0
      rw [hruns, List.modifyHead_cons, if_neg (by omega)] at ih
      rw [failureRuns_false, hruns, List.modifyHead_cons, runReports, List.append_nil,
        List.length_replicate]
      show _ ++ (((failing threshold n).checkNode threshold false).2.toList ++
        (checks threshold ((failing threshold n).checkNode threshold false).1 outcomes).2) = _
      rw [checkNode_succeeded n h]
      by_cases hdead : threshold ≤ n
      · simpa [hdead] using ih
      · simpa [hdead] using ih

end Checks

/-! ## A counter of 64 bits -/

/-- The node with an `int` for its counter. -/
def wrapped (node : NodeCheck Nat) : NodeCheck Int64 :=
  ⟨node.status, .ofNat node.consecutiveFailures⟩

section Wrapped

variable {threshold : Nat} (hthreshold : threshold < 2 ^ 63)

include hthreshold

private theorem checkNode_wrapped (node : NodeCheck Nat) (pingFailed : Bool)
    (hfits : pingFailed = true → node.consecutiveFailures + 1 < 2 ^ 63) :
    (wrapped node).checkNode (.ofNat threshold) pingFailed =
      (wrapped (node.checkNode threshold pingFailed).1,
        (node.checkNode threshold pingFailed).2) := by
  obtain ⟨status, n⟩ := node
  cases pingFailed with
  | false => rfl
  | true =>
    have hfits : n + 1 < 2 ^ 63 := hfits rfl
    have hsucc : Int64.ofNat n + 1 = Int64.ofNat (n + 1) := (Int64.ofNat_add n 1).symm
    have hle : Int64.ofNat threshold ≤ Int64.ofNat (n + 1) ↔ threshold ≤ n + 1 := by
      rw [Int64.le_iff_toInt_le, Int64.toInt_ofNat_of_lt hthreshold,
        Int64.toInt_ofNat_of_lt hfits]
      omega
    have hpos : 0 < Int64.ofNat (n + 1) ↔ 0 < n + 1 := by
      rw [Int64.lt_iff_toInt_lt, Int64.toInt_ofNat_of_lt hfits, Int64.toInt_zero]
      omega
    unfold NodeCheck.checkNode wrapped
    simp only [if_true, hsucc, hle, hpos]

/-- As long as no run of failures is too long for the counter, it makes no difference. -/
theorem checks_wrapped (node : NodeCheck Nat) (outcomes : List Bool)
    (hruns : ∀ run ∈ (failureRuns outcomes).modifyHead
      (List.replicate node.consecutiveFailures true ++ ·), run.length < 2 ^ 63) :
    checks (.ofNat threshold) (wrapped node) outcomes =
      (wrapped (checks threshold node outcomes).1, (checks threshold node outcomes).2) := by
  induction outcomes generalizing node with
  | nil => rfl
  | cons pingFailed outcomes ih =>
    obtain ⟨run, runs, hsplit⟩ := exists_failureRuns outcomes
    have hcheck : (pingFailed = true → node.consecutiveFailures + 1 < 2 ^ 63) ∧
        ∀ run ∈ (failureRuns outcomes).modifyHead (List.replicate
          (node.checkNode threshold pingFailed).1.consecutiveFailures true ++ ·),
          run.length < 2 ^ 63 := by
      cases pingFailed with
      | true =>
        rw [failureRuns_true, hsplit, List.modifyHead_cons, List.modifyHead_cons,
          replicate_cons] at hruns
        have hfirst := hruns _ List.mem_cons_self
        rw [List.length_append, List.length_replicate] at hfirst
        exact ⟨fun _ => by omega, by rw [hsplit]; exact hruns⟩
      | false =>
        rw [failureRuns_false, List.modifyHead_cons] at hruns
        refine ⟨nofun, ?_⟩
        rw [hsplit] at hruns ⊢
        exact fun run hrun => hruns run (List.mem_cons_of_mem _ hrun)
    show _ = (wrapped (checks threshold (node.checkNode threshold pingFailed).1 outcomes).1,
      (node.checkNode threshold pingFailed).2.toList ++
        (checks threshold (node.checkNode threshold pingFailed).1 outcomes).2)
    rw [checks, checkNode_wrapped hthreshold node pingFailed hcheck.1]
    dsimp only
    rw [ih _ hcheck.2]

end Wrapped

private theorem foldl_eq_failuresInARow (outcomes : List Bool) :
    outcomes.foldl (fun n pingFailed => if pingFailed then n + 1 else 0) 0 =
      failuresInARow outcomes := by
  induction outcomes using List.reverseRecOn with
  | nil => rfl
  | append_singleton outcomes pingFailed ih =>
    rw [List.foldl_append, List.foldl_cons, List.foldl_nil, ih, failuresInARow, failuresInARow,
      List.rtakeWhile_concat]
    cases pingFailed with
    | true => simp
    | false => rfl

/-- Failure and recovery take turns. -/
theorem alternate_runReports (threshold : Nat) (runs : List (List Bool)) (i : Nat)
    (report : HealthReport) (h : (runReports threshold runs)[i]? = some report) :
    report = if i % 2 = 0 then .failed else .recovered := by
  induction runs generalizing i with
  | nil => cases h
  | cons run runs ih =>
    cases runs with
    | nil =>
      rw [runReports] at h
      split at h
      · obtain ⟨rfl, rfl⟩ : i = 0 ∧ HealthReport.failed = report := by
          simpa [List.getElem?_singleton] using h
        rfl
      · cases h
    | cons run' runs =>
      rw [runReports] at h
      split at h
      · -- the two callbacks of the run stand in front
        cases i with
        | zero =>
          cases h
          rfl
        | succ i =>
          cases i with
          | zero =>
            cases h
            rfl
          | succ i =>
            rw [show (i + 1 + 1) % 2 = i % 2 by omega]
            exact ih i h
      · exact ih i h

/-- For every threshold, every node that is registered and every sequence of outcomes: the
    status tells whether and how long the last pings have failed, and the callbacks are one
    failure for every run of failures that is long enough and one recovery for the success
    behind it. With a counter of 64 bits it is the same, if no run is longer than it can
    count. -/
theorem failure_detection_exact (threshold : Nat) (h : 1 ≤ threshold)
    (nodes : Finmap fun _ : GoString => NodeCheck Nat) (nodeID : GoString) (hnew : nodeID ∉ nodes)
    (outcomes : List Bool) :
    ∃ node after reports,
      (Monitor.registerNode nodes nodeID).lookup nodeID = some node ∧
      checks threshold node outcomes = (after, reports) ∧
      (after.status = .dead ↔ threshold ≤ failuresInARow outcomes) ∧
      (after.status = .suspected ↔
        1 ≤ failuresInARow outcomes ∧ failuresInARow outcomes ≤ threshold - 1) ∧
      (after.status = .alive ↔ failuresInARow outcomes = 0) ∧
      reports = runReports threshold (failureRuns outcomes) ∧
      (∀ i report, reports[i]? = some report →
        report = if i % 2 = 0 then .failed else .recovered) ∧
      (threshold < 2 ^ 63 → (∀ run ∈ failureRuns outcomes, run.length < 2 ^ 63) →
        checks (.ofNat threshold) (wrapped node) outcomes = (wrapped after, reports)) := by
  have hstart : (⟨.alive, 0⟩ : NodeCheck Nat) = failing threshold 0 := by
    rw [failing, statusFor, if_neg (by omega), if_neg (Nat.lt_irrefl 0)]
  have hregister : (Monitor.registerNode nodes nodeID).lookup nodeID = some ⟨.alive, 0⟩ := by
    rw [Monitor.registerNode, if_neg hnew, Finmap.lookup_insert]
  have hafter := checks_fst h 0 outcomes
  rw [foldl_eq_failuresInARow] at hafter
  have hreports := checks_snd h 0 outcomes
  have hruns : (failureRuns outcomes).modifyHead (List.replicate 0 true ++ ·) =
      failureRuns outcomes := by
    cases failureRuns outcomes <;> rfl
  rw [if_neg (by omega), List.nil_append, hruns] at hreports
  refine ⟨_, _, _, hregister, rfl, ?_, ?_, ?_, ?_, ?_, fun hthreshold hfits => ?_⟩
  · rw [hstart, hafter]
    exact statusFor_eq_dead_iff _
  · rw [hstart, hafter, failing, statusFor]
    split
    · simp only [reduceCtorEq, false_iff]
      omega
    · split
      · simp only [true_iff]
        omega
      · simp only [reduceCtorEq, false_iff]
        omega
  · rw [hstart, hafter, failing, statusFor]
    split
    · simp only [reduceCtorEq, false_iff]
      omega
    · split
      · simp only [reduceCtorEq, false_iff]
        omega
      · simp only [true_iff]
        omega
  · rw [hstart, hreports]
  · rw [hstart, hreports]
    exact alternate_runReports threshold _
  · exact checks_wrapped hthreshold ⟨.alive, 0⟩ outcomes (hruns.symm ▸ hfits)

/-- Two outages with a threshold of two, the second of which lasts. -/
theorem failure_detection_exact_twice :
    ∃ after reports, checks 2 ⟨.alive, 0⟩ [true, true, true, false, true, false, true, true] =
      (after, reports) ∧ after.status = .dead ∧ reports = [.failed, .recovered, .failed] ∧
      checks (2 : Int64) ⟨.alive, 0⟩ [true, true, true, false, true, false, true, true] =
        (wrapped after, reports) := by
  obtain ⟨node, after, reports, hnode, hchecks, hdead, _, _, hreports, _, hwrapped⟩ :=
    failure_detection_exact 2 (by decide) ∅ (lit "n2") Finmap.notMem_empty
      [true, true, true, false, true, false, true, true]
  cases hnode
  exact ⟨after, reports, hchecks, hdead.mpr (by decide), hreports,
    hwrapped (by decide) (by decide)⟩

end GoCache.Spec
