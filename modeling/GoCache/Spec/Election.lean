import Mathlib.Data.List.Nodup
import GoCache.Native.Election

/-!
# At most one new leader

An election looks for a listening peer first and listens later, and nothing holds
the others off in between: two followers that both look before either of them listens
both become leaders. If no election starts to dial while another one is between its
first dial and its end, at most one follower becomes the leader.

## Key results

- `Elected.step`: what elections that exclude each other preserve
- `at_most_one_leader`: their runs
-/

namespace GoCache.Spec

open GoCache.Native Transition

/-! ## Steps -/

/-- What the steps of a group do. -/
inductive GroupEffect (g : Group) : GroupStep → Group → Prop where
  | skip {i : Nat} {c : Candidate} (hc : g.candidates[i]? = some c)
      (hplan : c.startElection = none) : GroupEffect g (.start i) g
  | start {i : Nat} {c : Candidate} {wait : Duration} {probes : List Addr} (wakeAt : Time)
      (hc : g.candidates[i]? = some c) (hplan : c.startElection = some (wait, probes)) :
      GroupEffect g (.start i)
        { g with elections := g.elections ++ [⟨i, .waiting wakeAt probes⟩] }
  | advance (d : Nat) : GroupEffect g (.advance d) { g with now := g.now + d }
  | wake {k i : Nat} {pre post : List Election} {wakeAt : Time} {probes : List Addr}
      (hpick : g.elections = pre ++ ⟨i, .waiting wakeAt probes⟩ :: post) :
      GroupEffect g (.wake k) { g with elections := pre ++ ⟨i, .probing probes⟩ :: post }
  | abort {k i : Nat} {pre post : List Election} {addr : Addr} {todo : List Addr}
      (hpick : g.elections = pre ++ ⟨i, .probing (addr :: todo)⟩ :: post) :
      GroupEffect g (.probe k true) { g with elections := pre ++ ⟨i, .finished⟩ :: post }
  | goOn {k i : Nat} {pre post : List Election} {addr : Addr} {todo : List Addr}
      (hpick : g.elections = pre ++ ⟨i, .probing (addr :: todo)⟩ :: post)
      (haddr : g.listensAt addr = false) :
      GroupEffect g (.probe k false) { g with elections := pre ++ ⟨i, .probing todo⟩ :: post }
  | inUse {k i freePort : Nat} {pre post : List Election}
      (hpick : g.elections = pre ++ ⟨i, .probing []⟩ :: post) :
      GroupEffect g (.listen k freePort) { g with elections := pre ++ ⟨i, .finished⟩ :: post }
  | listen {k i freePort : Nat} {pre post : List Election} {c : Candidate}
      (hpick : g.elections = pre ++ ⟨i, .probing []⟩ :: post) (hc : g.candidates[i]? = some c) :
      GroupEffect g (.listen k freePort) { g with
        elections := pre ++ ⟨i, .listening⟩ :: post
        listeners := g.listeners ++ [(i, c.listenAddr freePort)] }
  | setRole {k i : Nat} {pre post : List Election}
      (hpick : g.elections = pre ++ ⟨i, .listening⟩ :: post) :
      GroupEffect g (.setRole k) { g with
        elections := pre ++ ⟨i, .finished⟩ :: post, leaders := g.leaders ++ [i] }

theorem groupEffect_of_step {g g' : Group} {a : GroupStep} (h : g.step a = some g') :
    GroupEffect g a g' := by
  unfold Group.step at h
  cases a with
  | start i =>
    dsimp only at h
    split at h
    · exact nomatch h
    · next c hc =>
      split at h
      · next hplan =>
        cases h
        exact .skip hc hplan
      · next wait probes hplan =>
        cases h
        exact .start _ hc hplan
  | advance d =>
    cases h
    exact .advance d
  | wake k =>
    dsimp only at h
    split at h
    · next hpick =>
      split at h
      · cases h
        exact .wake (pick_eq_some hpick)
      · exact nomatch h
    · exact nomatch h
  | probe k found =>
    dsimp only at h
    split at h
    · next hpick =>
      split at h
      · exact nomatch h
      · next hfound =>
        cases h
        cases found with
        | true => exact .abort (pick_eq_some hpick)
        | false => exact .goOn (pick_eq_some hpick) (by simpa using hfound)
    · exact nomatch h
  | listen k freePort =>
    dsimp only at h
    split at h
    · next hpick =>
      split at h
      · exact nomatch h
      · next c hc =>
        split at h
        · cases h
          exact .inUse (pick_eq_some hpick)
        · cases h
          exact .listen (pick_eq_some hpick) hc
    · exact nomatch h
  | setRole k =>
    dsimp only at h
    split at h
    · next hpick =>
      cases h
      exact .setRole (pick_eq_some hpick)
    · exact nomatch h

/-! ## Elections that exclude each other -/

/-- The election is between its first dial and its end. -/
def isProbing (e : Election) : Bool :=
  match e.phase with
  | .probing _ => true
  | _ => false

/-- No election starts to dial while another one is between its first dial and its
    end. -/
def exclusive (g : Group) : GroupStep → Bool
  | .wake _ => g.elections.all fun e => !isProbing e
  | _ => true

/-- Followers of one leader: each has a priority and a port for replication, and lists
    the addresses of the others, as peers in simple mode or as nodes in cluster mode. -/
structure Configured (cs : List Candidate) : Prop where
  priority : ∀ c ∈ cs, 0 < c.myPriority
  port : ∀ c ∈ cs, c.myReplPort ≠ 0
  distinct : (cs.map Candidate.id).Nodup
  lists : ∀ c ∈ cs, ∀ d ∈ cs, d.id ≠ c.id →
    (c.clusterNodes = [] ∧ ⟨d.host, d.myReplPort⟩ ∈ c.peerReplAddrs) ∨
      ∃ node ∈ c.clusterNodes, node.id = d.id ∧ node.addr = ⟨d.host, d.myReplPort⟩

section Configured

variable {cs : List Candidate} {c d : Candidate}

/-- A follower dials the addresses of the others. -/
theorem Configured.mem_probeAddrs (h : Configured cs) (hc : c ∈ cs) (hd : d ∈ cs)
    (hne : d.id ≠ c.id) (freePort : Nat) : d.listenAddr freePort ∈ c.probeAddrs := by
  rw [Candidate.listenAddr, if_neg (h.port d hd), Candidate.probeAddrs, List.mem_append]
  rcases h.lists c hc d hd hne with ⟨-, hpeer⟩ | ⟨node, hnode, hid, haddr⟩
  · exact .inr hpeer
  · refine .inl (List.mem_map.mpr ⟨node, ?_, haddr⟩)
    rw [List.mem_filter, hid]
    exact ⟨hnode, by simpa using hne⟩

/-- Two followers are told apart by their IDs. -/
theorem Configured.id_ne (h : Configured cs) {i j : Nat} (hi : cs[i]? = some c)
    (hj : cs[j]? = some d) (hne : i ≠ j) : c.id ≠ d.id := by
  intro hid
  have hlen := (List.getElem?_eq_some_iff.mp hi).1
  apply hne
  apply (List.getElem?_inj (l := cs.map Candidate.id) (by simpa using hlen) h.distinct).mp
  rw [List.getElem?_map, List.getElem?_map, hi, hj]
  exact congrArg some hid

end Configured

/-- What an election may rely on: it will dial what its follower lists; it has still
    to dial the addresses of the others who listen; it listens before it sets the role. -/
def Sound (cs : List Candidate) (listeners : List (Nat × Addr)) (e : Election) : Prop :=
  match e.phase with
  | .waiting _ probes => ∃ c, cs[e.candidate]? = some c ∧ probes = c.probeAddrs
  | .probing todo => ∀ j addr, (j, addr) ∈ listeners → j ≠ e.candidate → addr ∈ todo
  | .listening => ∃ addr, (e.candidate, addr) ∈ listeners
  | .finished => True

/-- What holds while elections exclude each other. -/
structure Elected (g : Group) : Prop where
  elections : ∀ e ∈ g.elections, Sound g.candidates g.listeners e
  /-- At most one election is between its first dial and its end. -/
  single : (g.elections.filter isProbing).length ≤ 1
  listeners : ∀ j addr, (j, addr) ∈ g.listeners →
    ∃ d freePort, g.candidates[j]? = some d ∧ addr = d.listenAddr freePort
  /-- At most one of the followers listens. -/
  one : ∀ l ∈ g.listeners, ∀ l' ∈ g.listeners, l.1 = l'.1
  leaders : ∀ i ∈ g.leaders, ∃ addr, (i, addr) ∈ g.listeners

theorem elected_new (cs : List Candidate) : Elected (.new cs) where
  elections _ h := nomatch h
  single := Nat.zero_le 1
  listeners _ _ h := nomatch h
  one _ h := nomatch h
  leaders _ h := nomatch h

section Steps

variable {g g' : Group} {pre post : List Election} {e e' : Election}

private theorem filter_isProbing_middle :
    ((pre ++ e :: post).filter isProbing).length =
      (pre.filter isProbing).length + (if isProbing e then 1 else 0) +
        (post.filter isProbing).length := by
  rw [List.filter_append, List.length_append, List.filter_cons]
  split
  · rw [List.length_cons]
    omega
  · omega

/-- One election moves on, and does not start to dial unless no other does. -/
private theorem Elected.replace (h : Elected g) (hpick : g.elections = pre ++ e :: post)
    (he' : Sound g.candidates g.listeners e')
    (hprobing : isProbing e' = true →
      isProbing e = true ∨ (g.elections.filter isProbing).length = 0) :
    Elected { g with elections := pre ++ e' :: post } where
  elections other hother := by
    have hold : other ∈ pre ∨ other = e' ∨ other ∈ post := by simpa using hother
    rcases hold with hpre | rfl | hpost
    · exact h.elections other (by rw [hpick]; simp [hpre])
    · exact he'
    · exact h.elections other (by rw [hpick]; simp [hpost])
  single := by
    have hsingle := h.single
    rw [hpick, filter_isProbing_middle] at hsingle hprobing
    show ((pre ++ e' :: post).filter isProbing).length ≤ 1
    rw [filter_isProbing_middle]
    by_cases hnew : isProbing e' = true
    · rcases hprobing hnew with hold | hnone
      · simp only [hold, hnew, if_true] at hsingle ⊢
        exact hsingle
      · simp only [hnew, if_true]
        omega
    · simp only [hnew, Bool.false_eq_true, if_false]
      omega
  listeners := h.listeners
  one := h.one
  leaders := h.leaders

/-- Beside an election that dials, no other one does. -/
private theorem Elected.not_probing (h : Elected g) (hpick : g.elections = pre ++ e :: post)
    (he : isProbing e = true) {other : Election} (hother : other ∈ pre ∨ other ∈ post) :
    isProbing other = false := by
  have hsingle := h.single
  rw [hpick, filter_isProbing_middle, if_pos he] at hsingle
  have hpre : pre.filter isProbing = [] := List.length_eq_zero_iff.mp (by omega)
  have hpost : post.filter isProbing = [] := List.length_eq_zero_iff.mp (by omega)
  rw [List.filter_eq_nil_iff] at hpre hpost
  rcases hother with hmem | hmem
  · simpa using hpre other hmem
  · simpa using hpost other hmem

/-- Whoever has dialled all the others and found none of them listens alone. -/
private theorem Elected.listen (h : Elected g) {i freePort : Nat} {c : Candidate}
    (hpick : g.elections = pre ++ ⟨i, .probing []⟩ :: post) (hc : g.candidates[i]? = some c) :
    Elected { g with
      elections := pre ++ ⟨i, .listening⟩ :: post
      listeners := g.listeners ++ [(i, c.listenAddr freePort)] } := by
  have hown : Sound g.candidates g.listeners ⟨i, .probing []⟩ :=
    h.elections _ (by rw [hpick]; simp)
  have halone : ∀ l ∈ g.listeners, l.1 = i := by
    rintro ⟨j, addr⟩ hl
    by_contra hne
    exact absurd (hown j addr hl hne) List.not_mem_nil
  have hall : ∀ l ∈ g.listeners ++ [(i, c.listenAddr freePort)], l.1 = i := by
    intro l hl
    rcases List.mem_append.mp hl with hold | hnew
    · exact halone l hold
    · rw [List.mem_singleton.mp hnew]
  constructor
  case elections =>
    intro other hother
    have hcases : other = ⟨i, .listening⟩ ∨ (other ∈ pre ∨ other ∈ post) := by
      have hmem : other ∈ pre ∨ other = ⟨i, .listening⟩ ∨ other ∈ post := by simpa using hother
      tauto
    rcases hcases with rfl | hothers
    · exact ⟨c.listenAddr freePort, by simp⟩
    · have hold : Sound g.candidates g.listeners other := by
        apply h.elections
        rw [hpick]
        rcases hothers with hmem | hmem <;> simp [hmem]
      have hnot := h.not_probing hpick rfl hothers
      obtain ⟨j, phase⟩ := other
      cases phase with
      | waiting wakeAt probes => exact hold
      | probing todo => exact nomatch hnot
      | listening =>
        obtain ⟨addr, haddr⟩ := hold
        exact ⟨addr, List.mem_append_left _ haddr⟩
      | finished => exact trivial
  case single =>
    have hsingle := h.single
    rw [hpick, filter_isProbing_middle] at hsingle
    show ((pre ++ _ :: post).filter isProbing).length ≤ 1
    rw [filter_isProbing_middle]
    simp only [isProbing, if_true, Bool.false_eq_true, if_false] at hsingle ⊢
    omega
  case listeners =>
    intro j addr hmem
    rcases List.mem_append.mp hmem with hold | hnew
    · exact h.listeners j addr hold
    · cases List.mem_singleton.mp hnew
      exact ⟨c, freePort, hc, rfl⟩
  case one => exact fun l hl l' hl' => (hall l hl).trans (hall l' hl').symm
  case leaders =>
    intro j hj
    obtain ⟨addr, haddr⟩ := h.leaders j hj
    exact ⟨addr, List.mem_append_left _ haddr⟩

/-- An election starts to dial while no other one does. -/
private theorem Elected.wake (hcs : Configured g.candidates) (h : Elected g) {i : Nat}
    {wakeAt : Time} {probes : List Addr}
    (hpick : g.elections = pre ++ ⟨i, .waiting wakeAt probes⟩ :: post)
    (hexcl : (g.elections.all fun e => !isProbing e) = true) :
    Elected { g with elections := pre ++ ⟨i, .probing probes⟩ :: post } := by
  have hwaiting : Sound g.candidates g.listeners ⟨i, .waiting wakeAt probes⟩ :=
    h.elections _ (by rw [hpick]; simp)
  obtain ⟨c, hc, rfl⟩ := hwaiting
  refine h.replace hpick ?_ fun _ => .inr ?_
  · intro j addr hl hne
    obtain ⟨d, freePort, hd, rfl⟩ := h.listeners j addr hl
    exact hcs.mem_probeAddrs (List.mem_of_getElem? hc) (List.mem_of_getElem? hd)
      (hcs.id_ne hd hc hne) freePort
  · rw [List.length_eq_zero_iff, List.filter_eq_nil_iff]
    simpa using hexcl

/-- An address where nobody listens need not be dialled again. -/
private theorem Elected.goOn (h : Elected g) {i : Nat} {addr : Addr} {todo : List Addr}
    (hpick : g.elections = pre ++ ⟨i, .probing (addr :: todo)⟩ :: post)
    (haddr : g.listensAt addr = false) :
    Elected { g with elections := pre ++ ⟨i, .probing todo⟩ :: post } := by
  have hprobing : Sound g.candidates g.listeners ⟨i, .probing (addr :: todo)⟩ :=
    h.elections _ (by rw [hpick]; simp)
  refine h.replace hpick ?_ fun _ => .inl rfl
  intro j addr' hl hne
  rcases List.mem_cons.mp (hprobing j addr' hl hne) with rfl | htodo
  · -- nobody listens there
    have hlistens : g.listensAt addr' = true := List.any_eq_true.mpr ⟨_, hl, by simp⟩
    exact nomatch haddr.symm.trans hlistens
  · exact htodo

theorem Elected.step (hcs : Configured g.candidates) (h : Elected g) {a : GroupStep}
    (hexcl : exclusive g a = true) (hstep : g.step a = some g') :
    g'.candidates = g.candidates ∧ Elected g' := by
  cases groupEffect_of_step hstep with
  | skip hc hplan => exact ⟨rfl, h⟩
  | @start i c wait probes wakeAt hc hplan =>
    -- a follower with a priority dials what it lists
    rw [Candidate.startElection, if_pos (hcs.priority c (List.mem_of_getElem? hc))] at hplan
    cases hplan
    refine ⟨rfl, ?_, ?_, h.listeners, h.one, h.leaders⟩
    · intro e he
      rcases List.mem_append.mp he with hold | hnew
      · exact h.elections e hold
      · rw [List.mem_singleton.mp hnew]
        exact ⟨c, hc, rfl⟩
    · show ((g.elections ++ [_]).filter isProbing).length ≤ 1
      rw [filter_isProbing_middle]
      simpa [isProbing] using h.single
  | advance d => exact ⟨rfl, h.elections, h.single, h.listeners, h.one, h.leaders⟩
  | wake hpick => exact ⟨rfl, h.wake hcs hpick hexcl⟩
  | abort hpick => exact ⟨rfl, h.replace hpick trivial (fun hfalse => nomatch hfalse)⟩
  | goOn hpick haddr => exact ⟨rfl, h.goOn hpick haddr⟩
  | inUse hpick => exact ⟨rfl, h.replace hpick trivial (fun hfalse => nomatch hfalse)⟩
  | listen hpick hc => exact ⟨rfl, h.listen hpick hc⟩
  | @setRole k i pre post hpick =>
    have hlistening : Sound g.candidates g.listeners ⟨i, .listening⟩ :=
      h.elections _ (by rw [hpick]; simp)
    have hreplaced : Elected { g with elections := pre ++ ⟨i, .finished⟩ :: post } :=
      h.replace hpick trivial (fun hfalse => nomatch hfalse)
    refine ⟨rfl, hreplaced.elections, hreplaced.single, h.listeners, h.one, ?_⟩
    intro j hj
    rcases List.mem_append.mp hj with hold | hnew
    · exact h.leaders j hold
    · rw [List.mem_singleton.mp hnew]
      exact hlistening

end Steps

/-! ## Runs -/

/-- In every run in which no election starts to dial while another one is between its
    first dial and its end, at most one of the followers becomes the leader. -/
theorem at_most_one_leader {cs : List Candidate} (hcs : Configured cs) {g : Group}
    (h : Reaches Group.step (fun g a => exclusive g a = true) (.new cs) g) :
    ∀ i ∈ g.leaders, ∀ j ∈ g.leaders, i = j := by
  have hinv : g.candidates = cs ∧ Elected g := by
    apply h.invariant
    · exact ⟨rfl, elected_new cs⟩
    · rintro g a g' ⟨rfl, hg⟩ hexcl hstep
      exact hg.step hcs hexcl hstep
  intro i hi j hj
  obtain ⟨addr, haddr⟩ := hinv.2.leaders i hi
  obtain ⟨addr', haddr'⟩ := hinv.2.leaders j hj
  exact hinv.2.one _ haddr _ haddr'

/-- Two followers in simple mode. -/
def twoPeers : List Candidate :=
  [⟨lit "a", lit "h", [], 2, 7001, [⟨lit "h", 7002⟩]⟩,
    ⟨lit "b", lit "h", [], 1, 7002, [⟨lit "h", 7001⟩]⟩]

/-- Two followers in cluster mode. -/
def twoNodes : List Candidate :=
  let nodes := [⟨lit "a", lit "h", 7001, 2⟩, ⟨lit "b", lit "h", 7002, 1⟩]
  [⟨lit "a", lit "h", nodes, 2, 7001, []⟩, ⟨lit "b", lit "h", nodes, 1, 7002, []⟩]

theorem configured_twoPeers : Configured twoPeers := by
  constructor <;> decide

theorem configured_twoNodes : Configured twoNodes := by
  constructor <;> decide

/-- One follower after the other: the second finds the first. -/
theorem at_most_one_leader_in_turn :
    ∃ g, Reaches Group.step (fun g a => exclusive g a = true) (.new twoPeers) g ∧
      0 ∈ g.leaders ∧ ∀ i ∈ g.leaders, ∀ j ∈ g.leaders, i = j := by
  have hrun : (runAll Group.step (fun g a => exclusive g a = true) (.new twoPeers)
      [.start 0, .start 1, .advance 500000000, .wake 0, .probe 0 false, .listen 0 0, .wake 1,
        .probe 1 true, .setRole 0]).any (fun g => decide (0 ∈ g.leaders)) = true := by
    decide +kernel
  obtain ⟨g, -, hg, hleader⟩ := exists_reaches_of_any hrun
  exact ⟨g, hg, of_decide_eq_true hleader, at_most_one_leader configured_twoPeers hg⟩

/-- Both followers look for a leader before either of them listens, in simple mode,
    where both wait half a second, and in cluster mode, where one waits longer and has
    started earlier: both become leaders. -/
theorem two_leaders :
    (Configured twoPeers ∧ (twoPeers.map Candidate.myPriority).Nodup ∧
      ∃ g, [GroupStep.start 0, .start 1, .advance 500000000, .wake 0, .wake 1, .probe 0 false,
        .probe 1 false, .listen 0 0, .listen 1 0, .setRole 0, .setRole 1].foldlM
        Group.step (.new twoPeers) = some g ∧ g.leaders = [0, 1]) ∧
    Configured twoNodes ∧ (twoNodes.map Candidate.myPriority).Nodup ∧
      ∃ g, [GroupStep.start 1, .advance 500000000, .start 0, .advance 500000000, .wake 0, .wake 1,
        .probe 0 false, .probe 1 false, .listen 0 0, .listen 1 0, .setRole 0, .setRole 1].foldlM
        Group.step (.new twoNodes) = some g ∧ g.leaders = [1, 0] := by
  refine ⟨⟨configured_twoPeers, by decide, Option.map_eq_some_iff.mp ?_⟩,
    configured_twoNodes, by decide, Option.map_eq_some_iff.mp ?_⟩
  · decide +kernel
  · decide +kernel

end GoCache.Spec
