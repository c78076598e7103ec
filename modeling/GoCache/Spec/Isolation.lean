import GoCache.ForStd.Reaches
import GoCache.Spec.Execution

/-!
# Goroutines that share the cache and the log

The handlers of any number of connections, and the cleanup, on one cache and one AOF.
An immediate command is one step under `Cache.mu`, and appends its record in a later
step. `EXEC` takes `Cache.mu` once, executes its queue and logs it command by command,
and other goroutines run in between: they append records, and refuse what they can
refuse without the cache. `Replicate` concerns neither the cache nor the log, and a rewrite
that an append starts only reads the cache.

`answered` and `appends` are not part of the node. They record the calls in the order
in which they gave up the lock or were refused, and who called `Append` with what: the
records that are in the file, or that a rewrite has replaced since.

## Key results

- `Isolated.step`: one step of a goroutine keeps the node in step with a serial run
- `concurrent_calls_serializable`: every answer is that of the calls made one after the
  other, and what is appended is a shuffle of what they log
-/

namespace GoCache.Spec

open GoCache.Native Transition

/-! ## Calls made alone -/

/-- A call that gets to the cache once, with the reading of the clock it makes. -/
inductive Single where
  | set (now : Time) (resultSlice : List Value)
  | get (now : Time) (resultSlice : List Value)
  | delete (resultSlice : List Value)
  | dbSize
  | cleanup (now : Time) (order : List GoString)

/-- The call made alone: its reply, and the node behind it. -/
def Single.alone (s : Server) : Single → Except Panic (Bytes × Server)
  | .set now resultSlice => handleSet s now resultSlice
  | .get now resultSlice => handleGet s now resultSlice
  | .delete resultSlice => handleDelete s resultSlice
  | .dbSize => .ok (handleDBSize s, s)
  | .cleanup now order => do
    let (_, c) ← s.cache.cleanupExpired order now
    return ([], { s with cache := c })

/-- A call of a goroutine. -/
inductive Call where
  | single (c : Single)
  | exec (clock : Nat → Time) (queue : List (List Value))

/-- The call made alone. -/
def Call.alone (s : Server) : Call → Except Panic (Bytes × Server)
  | .single c => c.alone s
  | .exec clock queue => do
    let (reply, s, _) ← handleExec s (queueing queue) clock
    return (reply, s)

/-- A call with its reply and what it logs. -/
structure AnsweredCall where
  goroutine : Nat
  call : Call
  reply : Bytes
  logged : Bytes

/-- The calls made one after the other get these replies and log this. -/
inductive Serial (s₀ : Server) : List AnsweredCall → Server → Prop where
  | nil : Serial s₀ [] s₀
  | snoc {es : List AnsweredCall} {s s' : Server} (e : AnsweredCall) (hes : Serial s₀ es s)
      (hcall : e.call.alone s = .ok (e.reply, s')) (hlogged : s'.aof = s.aof ++ e.logged) :
      Serial s₀ (es ++ [e]) s'

/-! ## Calls made together -/

/-- Where a goroutine is in its call. -/
inductive Stage where
  | idle
  /-- It has its reply, and has still to append. -/
  | appending (logged : Bytes)
  /-- `handleExec` holds the lock, in its first loop. -/
  | executing (clock : Nat → Time) (done rest : List (List Value)) (responses : List Bytes)
  /-- `handleExec` holds the lock, in its second loop. -/
  | persisting (clock : Nat → Time) (done rest : List (List Value)) (responses : List Bytes)
      (logged : Bytes)

/-- The cache, its lock and the goroutines. `appends` are the records given to `Append`: the
    rewrite that one of them may start replaces the file and leaves the cache as it is, and
    has no steps here. -/
structure Shared where
  cache : Cache
  mu : Option Nat
  stage : Nat → Stage
  answered : List AnsweredCall
  appends : List (Nat × Bytes)

/-- A goroutine begins a call, or takes the next step of the one it is in. -/
inductive GoStep where
  | call (g : Nat) (c : Call)
  | next (g : Nat)

/-- A node with an empty log: what it has logged behind a call is what the call logs. -/
def bareNode (role : Role) (c : Cache) : Server :=
  ⟨c, [], .new 2, none, role, false, fun _ _ => none⟩

namespace Shared

/-- A node nobody uses yet. -/
def start (s : Server) : Shared := ⟨s.cache, none, fun _ => .idle, [], []⟩

variable (role : Role)

/-- An idle goroutine begins a call. What is refused is refused before the lock is
    asked for; for everything else it has to be free. -/
def beginCall (m : Shared) (g : Nat) : Call → Option Shared
  | .single c =>
    match c.alone (bareNode role m.cache) with
    | .ok (reply, s) =>
      if m.mu = none ∨ isErrorReply reply = true then
        some { m with
          cache := s.cache
          stage := Function.update m.stage g (if s.aof = [] then .idle else .appending s.aof)
          answered := m.answered ++ [⟨g, .single c, reply, s.aof⟩] }
      else none
    | .error _ => none
  | .exec clock queue =>
    if m.mu = none then
      some { m with
        mu := some g
        stage := Function.update m.stage g (.executing clock [] queue []) }
    else none

/-- `Append`. -/
def append (m : Shared) (g : Nat) (logged : Bytes) (stage : Stage) : Shared :=
  { m with
    stage := Function.update m.stage g stage
    appends := m.appends ++ [(g, logged)] }

/-- The next step of a goroutine. -/
def next (m : Shared) (g : Nat) : Option Shared :=
  match m.stage g with
  | .idle => none
  | .appending logged => some (m.append g logged .idle)
  | .executing clock done (cmd :: rest) responses =>
    match executeCommand m.cache (clock done.length) cmd with
    | .ok (response, c) =>
      some { m with
        cache := c
        stage := Function.update m.stage g
          (.executing clock (done ++ [cmd]) rest (responses ++ [response])) }
    | .error _ => none
  | .executing clock done [] responses =>
    some { m with stage := Function.update m.stage g (.persisting clock [] done responses []) }
  | .persisting clock done (cmd :: rest) responses logged =>
    match persistCommand (bareNode role m.cache) cmd with
    | .ok s =>
      some (m.append g s.aof (.persisting clock (done ++ [cmd]) rest responses (logged ++ s.aof)))
    | .error _ => none
  | .persisting clock done [] responses logged =>
    some { m with
      mu := none
      stage := Function.update m.stage g .idle
      answered := m.answered ++ [⟨g, .exec clock done, execReply responses, logged⟩] }

/-- One step of a goroutine; none if it has to wait, or panics. -/
def step (m : Shared) : GoStep → Option Shared
  | .call g c =>
    match m.stage g with
    | .idle => m.beginCall role g c
    | .appending _ | .executing .. | .persisting .. => none
  | .next g => m.next role g

end Shared

/-! ## What a call is to the node -/

/-- A call is refused, panics, or visits the cache once and logs at most one record. -/
inductive Plan where
  | refuse (reply : Bytes) (h : isErrorReply reply = true)
  | crash (p : Panic)
  | visit (f : Cache → Except Panic (Bytes × Cache)) (record : Option Record)
      (h : ∀ c r, f c = .ok r → isErrorReply r.1 = false)

/-- Carry a plan out. -/
def Plan.run (s : Server) : Plan → Except Panic (Bytes × Server)
  | .refuse reply _ => .ok (reply, s)
  | .crash p => .error p
  | .visit f record _ => do
    let (reply, c) ← f s.cache
    return (reply, logAll { s with cache := c } record.toList)

/-- The handler does what some plan says on every node with the role. -/
def Planned (role : Role) (handler : Server → Except Panic (Bytes × Server)) : Prop :=
  ∃ plan : Plan, ∀ s, s.role = role → handler s = plan.run s

section Plans

variable {role : Role} {handler : Server → Except Panic (Bytes × Server)}

private theorem Planned.refuse (reply : Bytes) (h : isErrorReply reply = true) :
    Planned role fun s => .ok (reply, s) :=
  ⟨.refuse reply h, fun _ _ => rfl⟩

private theorem Planned.bind {α : Type} {x : Except Panic α}
    {k : α → Server → Except Panic (Bytes × Server)} (h : ∀ v, Planned role (k v)) :
    Planned role fun s => x >>= fun v => k v s := by
  cases x with
  | error p => exact ⟨.crash p, fun _ _ => rfl⟩
  | ok v => exact h v

private theorem Planned.visit {α : Type} (f : Cache → Except Panic α) (reply : α → Bytes)
    (cache : α → Cache) (record : Option Record) (h : ∀ v, isErrorReply (reply v) = false) :
    Planned role fun s => f s.cache >>= fun v =>
      .ok (reply v, logAll { s with cache := cache v } record.toList) := by
  refine ⟨.visit (fun c => (f c).map fun v => (reply v, cache v)) record ?_, fun s _ => ?_⟩
  · intro c r hr
    obtain ⟨v, -, rfl⟩ := map_eq_ok.mp hr
    exact h v
  · simp only [Plan.run, bind, Except.bind]
    cases f s.cache <;> rfl

/-- A follower refuses to write. -/
private theorem Planned.write (h : Planned role handler) :
    Planned role fun s => if s.role = .follower then .ok (readOnly, s) else handler s := by
  by_cases hrole : role = .follower
  · exact ⟨.refuse readOnly rfl, fun s hs => if_pos (hs.trans hrole)⟩
  · obtain ⟨plan, hplan⟩ := h
    exact ⟨plan, fun s hs => (if_neg fun h => hrole (hs ▸ h)).trans (hplan s hs)⟩

private theorem handleSet_plan (now : Time) (slice : List Value) :
    Planned role fun s => handleSet s now slice := by
  refine Planned.write ?_
  rcases slice with _ | ⟨name, _ | ⟨key, _ | ⟨value, rest⟩⟩⟩
  iterate 3 exact .refuse lengthMismatch rfl
  by_cases hlen : 2 < rest.length
  · simp only [if_pos hlen]
    exact .refuse lengthMismatch rfl
  · simp only [if_neg hlen]
    refine .bind fun key => .bind fun value => .bind fun ttl => ?_
    cases ttl with
    | error text => exact .refuse (encodeError text) rfl
    | ok ttl =>
      exact .visit (·.set key value ttl now) (fun _ => replyOK) id
        (some (.set key value ttl.seconds)) fun _ => rfl

private theorem isErrorReply_replyGet (result : GoString × Bool) :
    isErrorReply (replyGet result) = false := by
  unfold replyGet encodeBulkString
  split <;> rfl

private theorem handleGet_plan (now : Time) (slice : List Value) :
    Planned role fun s => handleGet s now slice := by
  rcases slice with _ | ⟨name, _ | ⟨key, _ | ⟨more, rest⟩⟩⟩
  iterate 2 exact .refuse lengthMismatch rfl
  · refine .bind fun key => ?_
    exact .visit (·.get key now) (fun r => replyGet r.1) Prod.snd none fun r =>
      isErrorReply_replyGet r.1
  · exact .refuse lengthMismatch rfl

private theorem handleDelete_plan (slice : List Value) :
    Planned role fun s => handleDelete s slice := by
  refine Planned.write ?_
  rcases slice with _ | ⟨name, _ | ⟨key, _ | ⟨more, rest⟩⟩⟩
  iterate 2 exact .refuse lengthMismatch rfl
  · refine .bind fun key => ?_
    exact .visit (·.delete key) (fun _ => replyDel) id (some (.del key)) fun _ => rfl
  · exact .refuse lengthMismatch rfl

/-- Every call has a plan, whatever else the node is. -/
theorem Single.exists_plan (role : Role) (c : Single) :
    ∃ plan : Plan, ∀ s : Server, s.role = role → c.alone s = plan.run s := by
  show Planned role fun s => c.alone s
  cases c with
  | set now slice => exact handleSet_plan now slice
  | get now slice => exact handleGet_plan now slice
  | delete slice => exact handleDelete_plan slice
  | dbSize =>
    exact .visit (fun c => .ok c) (fun c => encodeInteger (Int64.ofNat c.len)) id none fun _ => rfl
  | cleanup now order =>
    exact .visit (·.cleanupExpired order now) (fun _ => []) Prod.snd none fun _ => rfl

end Plans

/-! ## Calls depend on the cache and the role only -/

/-- Two nodes that differ in what is replicated, and in a beginning of the log. -/
structure Mirrors (pre : Bytes) (s b : Server) : Prop where
  cache : s.cache = b.cache
  role : s.role = b.role
  aof : s.aof = pre ++ b.aof

section Mirrors

variable {pre : Bytes} {s b b' : Server} {reply : Bytes} {role : Role} {c : Cache}

theorem mirrors_bareNode (s : Server) : Mirrors s.aof s (bareNode s.role s.cache) :=
  ⟨rfl, rfl, (List.append_nil _).symm⟩

private theorem role_logAll (s : Server) (records : List Record) :
    (logAll s records).role = s.role := by
  induction records generalizing s with
  | nil => rfl
  | cons r records ih =>
    have hpersist : ((s.replicate r).append r).role = s.role := by
      unfold Server.append Server.replicate
      split <;> rfl
    exact (ih _).trans hpersist

private theorem Mirrors.logAll (h : Mirrors pre s b) (c : Cache) (records : List Record) :
    Mirrors pre (logAll { s with cache := c } records) (logAll { b with cache := c } records) where
  cache := by rw [cache_logAll, cache_logAll]
  role := by rw [role_logAll, role_logAll, h.role]
  aof := by rw [aof_logAll, aof_logAll, h.aof, List.append_assoc]

/-- A call made on two such nodes. -/
theorem Single.alone_mirrors (hm : Mirrors pre s b) {call : Single}
    (h : call.alone b = .ok (reply, b')) :
    ∃ s', call.alone s = .ok (reply, s') ∧ Mirrors pre s' b' := by
  obtain ⟨plan, hplan⟩ := call.exists_plan b.role
  rw [hplan b rfl] at h
  rw [hplan s hm.role]
  cases plan with
  | refuse reply herr =>
    cases h
    exact ⟨s, rfl, hm⟩
  | crash p => cases h
  | visit f record herr =>
    obtain ⟨r, hf, h⟩ := bind_eq_ok.mp h
    cases h
    rw [← hm.cache] at hf
    refine ⟨_, ?_, hm.logAll r.2 record.toList⟩
    simp only [Plan.run, hf, bind, Except.bind]
    rfl

/-- A call that is refused leaves the node as it is, and is refused with any cache. -/
theorem Single.alone_refused {call : Single} (h : call.alone (bareNode role c) = .ok (reply, b'))
    (herr : isErrorReply reply = true) (c' : Cache) :
    b' = bareNode role c ∧ call.alone (bareNode role c') = .ok (reply, bareNode role c') := by
  obtain ⟨plan, hplan⟩ := call.exists_plan role
  rw [hplan _ rfl] at h
  rw [hplan _ rfl]
  cases plan with
  | refuse reply _ =>
    cases h
    exact ⟨rfl, rfl⟩
  | crash p => cases h
  | visit f record hplain =>
    obtain ⟨r, hf, h⟩ := bind_eq_ok.mp h
    have hreply := hplain _ r hf
    cases h
    rw [herr] at hreply
    cases hreply

end Mirrors

/-! ## What a transaction logs -/

section Persist

variable {cmd : List Value}

/-- What a command logs does not depend on the node. -/
private theorem exists_records_of_persistCommand {s s' : Server}
    (h : persistCommand s cmd = .ok s') :
    ∃ records, s' = logAll s records ∧ ∀ t, persistCommand t cmd = .ok (logAll t records) := by
  unfold persistCommand at h ⊢
  split at h
  · split at h
    · next hset =>
      simp only [if_pos hset]
      split at h
      · obtain ⟨key, hkey, h⟩ := bind_eq_ok.mp h
        obtain ⟨value, hvalue, h⟩ := bind_eq_ok.mp h
        obtain ⟨seconds, hseconds, h⟩ := bind_eq_ok.mp h
        simp only [hkey, hvalue, hseconds, bind, Except.bind]
        cases h
        exact ⟨[.set key value seconds], rfl, fun t => rfl⟩
      · exact nomatch h
    next hset =>
    split at h
    · next hdel =>
      simp only [if_neg hset, if_pos hdel]
      split at h
      · obtain ⟨key, hkey, h⟩ := bind_eq_ok.mp h
        simp only [hkey, bind, Except.bind]
        cases h
        exact ⟨[.del key], rfl, fun t => rfl⟩
      · exact nomatch h
    · next hdel =>
      cases h
      simp only [if_neg hset, if_neg hdel]
      exact ⟨[], rfl, fun t => rfl⟩
  · exact nomatch h

/-- The second loop of `handleExec` over some commands logs these records. -/
def Persists (cmds : List (List Value)) (records : List Record) : Prop :=
  ∀ s : Server, cmds.foldlM persistCommand s = .ok (logAll s records)

private theorem Persists.snoc {cmds : List (List Value)} {records records' : List Record}
    (h : Persists cmds records) (hcmd : ∀ s, persistCommand s cmd = .ok (logAll s records')) :
    Persists (cmds ++ [cmd]) (records ++ records') := by
  intro s
  rw [List.foldlM_append, h s]
  show (List.foldlM persistCommand (logAll s records) [cmd]) = _
  rw [List.foldlM_cons, hcmd, logAll_append]
  rfl

end Persist

/-- The first loop of `handleExec`, one command further. -/
private theorem executeQueue_snoc {clock : Nat → Time} {c c₁ c₂ : Cache}
    {done : List (List Value)} {cmd : List Value} {responses : List Bytes} {response : Bytes}
    {i : Nat} (hdone : executeQueue clock i c done = .ok (responses, c₁))
    (hcmd : executeCommand c₁ (clock (i + done.length)) cmd = .ok (response, c₂)) :
    executeQueue clock i c (done ++ [cmd]) = .ok (responses ++ [response], c₂) := by
  induction done generalizing i c responses with
  | nil =>
    cases hdone
    rw [List.length_nil, Nat.add_zero] at hcmd
    simp only [List.nil_append, executeQueue_cons, hcmd, bind, Except.bind]
    rfl
  | cons first done ih =>
    rw [executeQueue_cons] at hdone
    obtain ⟨r, hfirst, hdone⟩ := bind_eq_ok.mp hdone
    obtain ⟨rs, hrest, hdone⟩ := bind_eq_ok.mp hdone
    cases hdone
    rw [List.length_cons, Nat.add_comm done.length, ← Nat.add_assoc] at hcmd
    simp only [List.cons_append, executeQueue_cons, hfirst, bind, Except.bind, ih hrest hcmd]
    rfl

/-! ## The invariant -/

namespace Stage

/-- The goroutine holds the lock. -/
def holds : Stage → Bool
  | .executing .. | .persisting .. => true
  | .idle | .appending _ => false

/-- How far the holder of the lock has got with the cache it found. -/
def Progress (found c : Cache) : Stage → Prop
  | .idle | .appending _ => False
  | .executing clock done _ responses => executeQueue clock 0 found done = .ok (responses, c)
  | .persisting clock done rest responses logged =>
    executeQueue clock 0 found (done ++ rest) = .ok (responses, c) ∧
      ∃ records, Persists done records ∧ logged = encodeLog records

/-- What the goroutine has still to append for a call that is answered. -/
def owed : Stage → Bytes
  | .appending logged => logged
  | .idle | .executing .. | .persisting .. => []

/-- What the goroutine has appended for a call that is not answered. -/
def ahead : Stage → Bytes
  | .persisting _ _ _ _ logged => logged
  | .idle | .appending _ | .executing .. => []

end Stage

/-- What a goroutine has appended. -/
def appendedBy (g : Nat) (appends : List (Nat × Bytes)) : Bytes :=
  appends.flatMap fun a => if a.1 = g then a.2 else []

/-- What the calls of a goroutine log. -/
def loggedBy (g : Nat) (answered : List AnsweredCall) : Bytes :=
  answered.flatMap fun e => if e.goroutine = g then e.logged else []

/-- The node is in step with a serial run of the answered calls that has got to `s`. -/
structure Isolated (s₀ : Server) (m : Shared) (s : Server) : Prop where
  serial : Serial s₀ m.answered s
  role : s.role = s₀.role
  free : m.mu = none → m.cache = s.cache
  held : ∀ g, m.mu = some g → (m.stage g).Progress s.cache m.cache
  holds : ∀ g, (m.stage g).holds = true → m.mu = some g
  log : ∀ g, appendedBy g m.appends ++ (m.stage g).owed =
    loggedBy g m.answered ++ (m.stage g).ahead

namespace Isolated

variable {s₀ s : Server} {m m' : Shared} {g : Nat}

theorem start (s₀ : Server) : Isolated s₀ (.start s₀) s₀ where
  serial := .nil
  role := rfl
  free _ := rfl
  held g hg := nomatch hg
  holds g hg := nomatch hg
  log g := rfl

/-- The lock is free, or somebody else has it. -/
private theorem mu_ne (h : Isolated s₀ m s) (hidle : (m.stage g).holds = false) :
    m.mu ≠ some g := by
  intro hmu
  have hprogress := h.held g hmu
  cases hstage : m.stage g with
  | idle =>
    rw [hstage] at hprogress
    exact hprogress
  | appending logged =>
    rw [hstage] at hprogress
    exact hprogress
  | executing | persisting =>
    rw [hstage] at hidle
    cases hidle

/-- The stages of the other goroutines do not matter to the holder of the lock. -/
private theorem held_update (h : Isolated s₀ m s) (hg : (m.stage g).holds = false)
    (stage : Stage) (g' : Nat) (hg' : m.mu = some g') :
    (Function.update m.stage g stage g').Progress s.cache m.cache := by
  have hne : g' ≠ g := fun heq => h.mu_ne hg (heq ▸ hg')
  rw [Function.update_of_ne hne]
  exact h.held g' hg'

private theorem holds_update (h : Isolated s₀ m s) {stage : Stage} (hstage : stage.holds = false)
    (g' : Nat) (hg' : (Function.update m.stage g stage g').holds = true) : m.mu = some g' := by
  by_cases heq : g' = g
  · rw [heq, Function.update_self, hstage] at hg'
    cases hg'
  · rw [Function.update_of_ne heq] at hg'
    exact h.holds g' hg'

/-- The books stay balanced if those of one goroutine do. -/
private theorem log_update {stages : Nat → Stage} {appends appends' : List (Nat × Bytes)}
    {answered answered' : List AnsweredCall}
    (h : ∀ g, appendedBy g appends ++ (stages g).owed = loggedBy g answered ++ (stages g).ahead)
    {stage : Stage}
    (hself : appendedBy g appends' ++ stage.owed = loggedBy g answered' ++ stage.ahead)
    (happends : ∀ g', g' ≠ g → appendedBy g' appends' = appendedBy g' appends)
    (hanswered : ∀ g', g' ≠ g → loggedBy g' answered' = loggedBy g' answered) (g' : Nat) :
    appendedBy g' appends' ++ (Function.update stages g stage g').owed =
      loggedBy g' answered' ++ (Function.update stages g stage g').ahead := by
  by_cases heq : g' = g
  · rw [heq, Function.update_self]
    exact hself
  · rw [Function.update_of_ne heq, happends g' heq, hanswered g' heq]
    exact h g'

/-- One goroutine appends. -/
private theorem appendedBy_own {own : List (Nat × Bytes)} (hown : ∀ a ∈ own, a.1 = g)
    (appends : List (Nat × Bytes)) (g' : Nat) :
    appendedBy g' (appends ++ own) =
      appendedBy g' appends ++ if g = g' then own.flatMap Prod.snd else [] := by
  have hsame : appendedBy g' own = if g = g' then own.flatMap Prod.snd else [] := by
    induction own with
    | nil => simp [appendedBy]
    | cons a own ih =>
      have ha := hown a List.mem_cons_self
      have htail := ih fun b hb => hown b (List.mem_cons_of_mem _ hb)
      rw [appendedBy] at htail ⊢
      rw [List.flatMap_cons, List.flatMap_cons, htail, ha]
      split <;> rfl
  rw [appendedBy, List.flatMap_append, ← hsame]
  rfl

private theorem loggedBy_snoc (g : Nat) (answered : List AnsweredCall) (e : AnsweredCall) :
    loggedBy g (answered ++ [e]) =
      loggedBy g answered ++ if e.goroutine = g then e.logged else [] := by
  simp [loggedBy, List.flatMap_append]

/-- A call that is made in one step, from the node on which it is made alone. -/
private theorem beginSingle (h : Isolated s₀ m s) (hstage : m.stage g = .idle) {call : Single}
    {reply : Bytes} {b : Server}
    (hcall : call.alone (bareNode s₀.role m.cache) = .ok (reply, b))
    (hlock : m.mu = none ∨ isErrorReply reply = true) :
    ∃ s', Isolated s₀ { m with
      cache := b.cache
      stage := Function.update m.stage g (if b.aof = [] then .idle else .appending b.aof)
      answered := m.answered ++ [⟨g, .single call, reply, b.aof⟩] } s' := by
  have hidle : (m.stage g).holds = false := by rw [hstage]; rfl
  -- the same call in the serial run
  obtain ⟨s', hserial, hm, hcache⟩ : ∃ s', call.alone s = .ok (reply, s') ∧
      Mirrors s.aof s' { b with cache := s'.cache } ∧
      (m.mu = none ∧ b.cache = s'.cache ∨
        b = bareNode s₀.role m.cache ∧ s'.cache = s.cache) := by
    have hmirror : Mirrors s.aof s (bareNode s₀.role s.cache) := h.role ▸ mirrors_bareNode s
    rcases hlock with hfree | herr
    · rw [h.free hfree] at hcall
      obtain ⟨s', hserial, hm⟩ := Single.alone_mirrors hmirror hcall
      exact ⟨s', hserial, ⟨rfl, hm.role, hm.aof⟩, .inl ⟨hfree, hm.cache.symm⟩⟩
    · obtain ⟨rfl, hcall'⟩ := Single.alone_refused hcall herr s.cache
      obtain ⟨s', hserial, hm⟩ := Single.alone_mirrors hmirror hcall'
      exact ⟨s', hserial, ⟨rfl, hm.role, hm.aof⟩, .inr ⟨rfl, hm.cache⟩⟩
  have howed : (if b.aof = [] then Stage.idle else .appending b.aof).owed = b.aof := by
    split
    · next hnil => rw [hnil]; rfl
    · rfl
  have hrest : (if b.aof = [] then Stage.idle else .appending b.aof).holds = false ∧
      (if b.aof = [] then Stage.idle else .appending b.aof).ahead = [] := by
    split <;> exact ⟨rfl, rfl⟩
  refine ⟨s', {
    serial := .snoc ⟨g, .single call, reply, b.aof⟩ h.serial hserial hm.aof
    role := ?_
    free := ?_
    held := ?_
    holds := h.holds_update hrest.1
    log := log_update h.log ?_ (fun _ _ => rfl) ?_ }⟩
  · obtain ⟨plan, hplan⟩ := call.exists_plan s.role
    rw [hplan s rfl] at hserial
    rw [← h.role]
    cases plan with
    | refuse => cases hserial; rfl
    | crash => cases hserial
    | visit f record _ =>
      obtain ⟨r, -, hrun⟩ := bind_eq_ok.mp hserial
      cases hrun
      exact role_logAll _ _
  · intro hfree
    rcases hcache with ⟨-, hcache⟩ | ⟨rfl, hcache⟩
    · exact hcache
    · exact (h.free hfree).trans hcache.symm
  · intro g' hg'
    rcases hcache with ⟨hfree, -⟩ | ⟨rfl, hcache⟩
    · rw [hfree] at hg'
      cases hg'
    · rw [hcache]
      exact h.held_update hidle _ g' hg'
  · have hlog := h.log g
    rw [hstage] at hlog
    rw [howed, hrest.2, loggedBy_snoc, if_pos rfl, List.append_nil]
    simpa [Stage.owed, Stage.ahead] using hlog
  · intro g' hne
    rw [loggedBy_snoc, if_neg (Ne.symm hne), List.append_nil]

/-- The lock is taken for a transaction. -/
private theorem beginExec (h : Isolated s₀ m s) (hstage : m.stage g = .idle) (hfree : m.mu = none)
    (clock : Nat → Time) (queue : List (List Value)) :
    Isolated s₀ { m with
      mu := some g
      stage := Function.update m.stage g (.executing clock [] queue []) } s where
  serial := h.serial
  role := h.role
  free hmu := nomatch hmu
  held g' hg' := by
    cases hg'
    show (Function.update m.stage g _ g).Progress _ _
    rw [Function.update_self]
    show Except.ok ([], s.cache) = .ok ([], m.cache)
    rw [h.free hfree]
  holds g' hg' := by
    change (Function.update m.stage g _ g').holds = true at hg'
    by_cases heq : g' = g
    · rw [heq]
    · rw [Function.update_of_ne heq] at hg'
      have hmu := h.holds g' hg'
      rw [hfree] at hmu
      cases hmu
  log := by
    refine log_update h.log ?_ (fun _ _ => rfl) (fun _ _ => rfl)
    have hlog := h.log g
    rw [hstage] at hlog
    exact hlog

/-- The holder of the lock goes on, and keeps it. -/
private theorem goOn (h : Isolated s₀ m s) (hmu : m.mu = some g) (c : Cache) (stage : Stage)
    (own : List (Nat × Bytes)) (hown : ∀ a ∈ own, a.1 = g)
    (hprogress : stage.Progress s.cache c) (howed : (m.stage g).owed = [] ∧ stage.owed = [])
    (hahead : stage.ahead = (m.stage g).ahead ++ own.flatMap Prod.snd) :
    Isolated s₀ { m with
      cache := c
      stage := Function.update m.stage g stage
      appends := m.appends ++ own } s where
  serial := h.serial
  role := h.role
  free hfree := by
    rw [show m.mu = none from hfree] at hmu
    cases hmu
  held g' hg' := by
    obtain rfl : g = g' := Option.some.inj (hmu.symm.trans hg')
    show (Function.update m.stage g stage g).Progress _ _
    rw [Function.update_self]
    exact hprogress
  holds g' hg' := by
    change (Function.update m.stage g stage g').holds = true at hg'
    by_cases heq : g' = g
    · rw [heq]
      exact hmu
    · rw [Function.update_of_ne heq] at hg'
      exact h.holds g' hg'
  log := by
    refine log_update h.log ?_ ?_ (fun _ _ => rfl)
    · have hlog := h.log g
      rw [howed.1, List.append_nil] at hlog
      rw [appendedBy_own hown, if_pos rfl, howed.2, hahead, hlog, List.append_nil,
        List.append_assoc]
    · intro g' hne
      rw [appendedBy_own hown, if_neg (Ne.symm hne), List.append_nil]

/-- The record of an answered call is appended. -/
private theorem appendOwed (h : Isolated s₀ m s) {logged : Bytes}
    (hstage : m.stage g = .appending logged) : Isolated s₀ (m.append g logged .idle) s where
  serial := h.serial
  role := h.role
  free := h.free
  held g' hg' := h.held_update (by rw [hstage]; rfl) _ g' hg'
  holds g' hg' := by
    have hidle : Stage.holds .idle = false := rfl
    exact h.holds_update hidle g' hg'
  log := by
    have hown : ∀ a ∈ [(g, logged)], a.1 = g := by simp
    refine log_update h.log ?_ ?_ (fun _ _ => rfl)
    · have hlog := h.log g
      rw [hstage] at hlog
      show appendedBy g (m.appends ++ [(g, logged)]) ++ [] = _
      rw [appendedBy_own hown, if_pos rfl, List.flatMap_singleton, List.append_nil]
      exact hlog
    · intro g' hne
      show appendedBy g' (m.appends ++ [(g, logged)]) = _
      rw [appendedBy_own hown, if_neg (Ne.symm hne), List.append_nil]

/-- What the holder of the lock has done so far. -/
private theorem progress (h : Isolated s₀ m s) {stage : Stage} (hstage : m.stage g = stage)
    (hholds : stage.holds = true) : m.mu = some g ∧ stage.Progress s.cache m.cache := by
  subst hstage
  have hmu := h.holds g hholds
  exact ⟨hmu, h.held g hmu⟩

/-- A transaction replies and gives up the lock. -/
private theorem endExec (h : Isolated s₀ m s) {clock : Nat → Time} {done : List (List Value)}
    {responses : List Bytes} {logged : Bytes}
    (hstage : m.stage g = .persisting clock done [] responses logged) :
    ∃ s', Isolated s₀ { m with
      mu := none
      stage := Function.update m.stage g .idle
      answered := m.answered ++ [⟨g, .exec clock done, execReply responses, logged⟩] } s' := by
  obtain ⟨hmu, hexecute, records, hpersist, hlogged⟩ := h.progress hstage rfl
  rw [List.append_nil] at hexecute
  have hcall : (Call.exec clock done).alone s = .ok (execReply responses,
      logAll { s with cache := m.cache } records) := by
    show (executeQueue clock 0 s.cache done >>= fun r =>
      done.foldlM persistCommand { s with cache := r.2 } >>= fun s' =>
        Except.ok (execReply r.1, s', ConnectionState.new)) >>= _ = _
    rw [hexecute]
    show (done.foldlM persistCommand { s with cache := m.cache } >>= _) >>= _ = _
    rw [hpersist]
    rfl
  refine ⟨logAll { s with cache := m.cache } records, {
    serial := .snoc ⟨g, .exec clock done, execReply responses, logged⟩ h.serial hcall ?_
    role := (role_logAll _ _).trans h.role
    free := fun _ => (cache_logAll { s with cache := m.cache } records).symm
    held := fun g' hg' => nomatch hg'
    holds := ?_
    log := log_update h.log ?_ (fun _ _ => rfl) ?_ }⟩
  · rw [aof_logAll, hlogged]
  · intro g' hg'
    change (Function.update m.stage g .idle g').holds = true at hg'
    by_cases heq : g' = g
    · rw [heq, Function.update_self] at hg'
      cases hg'
    · -- nobody else holds the lock
      rw [Function.update_of_ne heq] at hg'
      have hmu' := h.holds g' hg'
      rw [hmu] at hmu'
      exact absurd (Option.some.inj hmu').symm heq
  · have hlog := h.log g
    rw [hstage] at hlog
    rw [loggedBy_snoc, if_pos rfl]
    simpa [Stage.owed, Stage.ahead] using hlog
  · intro g' hne
    rw [loggedBy_snoc, if_neg (Ne.symm hne), List.append_nil]

private theorem next (h : Isolated s₀ m s) (hstep : m.next s₀.role g = some m') :
    ∃ s', Isolated s₀ m' s' := by
  unfold Shared.next at hstep
  split at hstep
  · cases hstep
  · next logged hstage =>
    cases hstep
    exact ⟨s, h.appendOwed hstage⟩
  · next clock done cmd rest responses hstage =>
    obtain ⟨hmu, hprogress⟩ := h.progress hstage rfl
    split at hstep
    · next response c hcmd =>
      cases hstep
      refine ⟨s, ?_⟩
      have hgo := h.goOn hmu c
        (.executing clock (done ++ [cmd]) rest (responses ++ [response])) [] (by simp)
        (executeQueue_snoc hprogress (by rwa [Nat.zero_add]))
        (by rw [hstage]; exact ⟨rfl, rfl⟩) (by rw [hstage]; rfl)
      simpa using hgo
    · cases hstep
  · next clock done responses hstage =>
    obtain ⟨hmu, hprogress⟩ := h.progress hstage rfl
    cases hstep
    have hgo := h.goOn hmu m.cache (.persisting clock [] done responses []) [] (by simp)
      ⟨hprogress, [], fun s => rfl, rfl⟩ (by rw [hstage]; exact ⟨rfl, rfl⟩) (by rw [hstage]; rfl)
    exact ⟨s, by simpa using hgo⟩
  · next clock done cmd rest responses logged hstage =>
    obtain ⟨hmu, hexecute, records, hpersist, hlogged⟩ := h.progress hstage rfl
    split at hstep
    · next b hcmd =>
      cases hstep
      obtain ⟨records', rfl, hrecords⟩ := exists_records_of_persistCommand hcmd
      have haof : (logAll (bareNode s₀.role m.cache) records').aof = encodeLog records' :=
        aof_logAll _ _
      rw [haof]
      have hgo := h.goOn hmu m.cache
        (.persisting clock (done ++ [cmd]) rest responses (logged ++ encodeLog records'))
        [(g, encodeLog records')] (by simp)
        ⟨by rwa [List.append_assoc], records ++ records', hpersist.snoc hrecords, by
          rw [hlogged]
          exact List.flatMap_append.symm⟩
        (by rw [hstage]; exact ⟨rfl, rfl⟩) (by rw [hstage]; simp [Stage.ahead])
      exact ⟨s, by simpa [Shared.append] using hgo⟩
    · cases hstep
  · next clock done responses logged hstage =>
    cases hstep
    exact h.endExec hstage

/-- One step of a goroutine. -/
theorem step (h : Isolated s₀ m s) {a : GoStep} (hstep : m.step s₀.role a = some m') :
    ∃ s', Isolated s₀ m' s' := by
  cases a with
  | next g => exact h.next hstep
  | call g call =>
    unfold Shared.step at hstep
    simp only at hstep
    split at hstep
    · next hstage =>
      cases call with
      | single call =>
        unfold Shared.beginCall at hstep
        simp only at hstep
        split at hstep
        · next reply b hcall =>
          split at hstep
          · next hlock =>
            cases hstep
            exact h.beginSingle hstage hcall hlock
          · cases hstep
        · cases hstep
      | exec clock queue =>
        unfold Shared.beginCall at hstep
        simp only at hstep
        split at hstep
        · next hfree =>
          cases hstep
          exact ⟨s, h.beginExec hstage hfree clock queue⟩
        · cases hstep
    all_goals cases hstep

end Isolated

/-- However the goroutines are scheduled, each call is answered as if the calls had been
    made one after the other, in the order in which they gave up the lock, and with the
    lock free the cache is the one that leaves: no call sees or disturbs a transaction that
    is half executed. The same records are appended to the log, those of every goroutine in
    the order in which it made its calls; between the records of a transaction there may be
    others. -/
theorem concurrent_calls_serializable (s₀ : Server) (m : Shared)
    (hrun : Reaches (Shared.step s₀.role) (fun _ _ => True) (.start s₀) m) :
    ∃ s, Serial s₀ m.answered s ∧ (m.mu = none → m.cache = s.cache) ∧
      ∀ g, m.stage g = .idle → appendedBy g m.appends = loggedBy g m.answered := by
  have hinv : ∃ s, Isolated s₀ m s := by
    apply hrun.invariant ⟨s₀, .start s₀⟩
    intro m a m' ⟨s, h⟩ _ hstep
    exact h.step hstep
  obtain ⟨s, h⟩ := hinv
  refine ⟨s, h.serial, h.free, fun g hidle => ?_⟩
  have hlog := h.log g
  rw [hidle] at hlog
  simpa [Stage.owed, Stage.ahead] using hlog

/-- A leader with nothing in its cache and its log. -/
private def idleLeader : Server := bareNode .leader (Cache.new 10)

/-- A `SET` is answered before a transaction takes the lock, and logged between the two
    records of the transaction. -/
private def interleavedSteps : List GoStep :=
  [.call 2 (.single (.set 5 (strs [lit "SET", lit "a", lit "9"]))),
    .call 1 (.exec (fun _ => 7) [strs [lit "SET", lit "a", lit "1"], strs [lit "DEL", lit "b"]]),
    .next 1, .call 3 (.single (.delete (strs [lit "DEL"]))), .next 1, .next 1, .next 1, .next 2,
    .next 1, .next 1]

/-- The run ends with the lock free. -/
theorem concurrent_calls_serializable_shuffled :
    ∃ m s, Reaches (Shared.step .leader) (fun _ _ => True) (.start idleLeader) m ∧
      Serial idleLeader m.answered s ∧ m.cache = s.cache ∧
      m.answered.map AnsweredCall.goroutine = [2, 3, 1] ∧ m.appends.map Prod.fst = [1, 2, 1] := by
  have hrun : (runAll (Shared.step .leader) (fun _ _ => True) (.start idleLeader)
      interleavedSteps).any (fun m => decide (m.mu = none) &&
        decide (m.answered.map AnsweredCall.goroutine = [2, 3, 1]) &&
        decide (m.appends.map Prod.fst = [1, 2, 1])) = true := by
    decide +kernel
  obtain ⟨m, -, hreaches, hcheck⟩ := exists_reaches_of_any hrun
  simp only [Bool.and_eq_true, decide_eq_true_eq] at hcheck
  obtain ⟨s, hserial, hcache, -⟩ := concurrent_calls_serializable idleLeader m hreaches
  exact ⟨m, s, hreaches, hserial, hcache hcheck.1.1, hcheck.1.2, hcheck.2⟩

end GoCache.Spec
