import GoCache.ForStd.Reaches
import GoCache.Native.Leader

/-!
# The leader's list of followers

Handlers of connections register and exit, in any order, and several connections
may carry the same follower ID. `removeFollower` looks for the ID and not for the
connection: a handler that exits takes the first entry with its ID off the list.

## Key results

- `removeFollower_perm`: what `removeFollower` removes
- `followers_track_iff`: when the list is the set of the live connections
-/

namespace GoCache.Spec

open GoCache.Native Transition

/-! ## Removing an entry -/

section Remove

variable {pre post : List FollowerConn} {f : FollowerConn}

/-- `removeFollower` removes the first entry with the ID. -/
theorem removeFollower_perm (hpre : ∀ g ∈ pre, g.id ≠ f.id) :
    (removeFollower (pre ++ f :: post) f.id).Perm (pre ++ post) := by
  have hindex : (pre ++ f :: post).findIdx? (fun g => g.id = f.id) = some pre.length := by
    rw [List.findIdx?_append, List.findIdx?_eq_none_iff.mpr (by simpa using hpre)]
    simp [List.findIdx?_cons]
  unfold removeFollower
  rw [hindex]
  rcases List.eq_nil_or_concat post with rfl | ⟨post, last, rfl⟩
  · -- the entry is the last one
    simp
  · -- the last entry moves to its place
    have hlast : (pre ++ f :: post.concat last).getLast? = some last := by
      rw [List.concat_eq_append, ← List.cons_append, ← List.append_assoc, List.getLast?_concat]
    have hset : ((pre ++ f :: post.concat last).set pre.length last).dropLast =
        pre ++ last :: post := by
      rw [List.set_append_right _ _ (Nat.le_refl _), Nat.sub_self, List.set_cons_zero]
      rw [List.concat_eq_append, ← List.cons_append, ← List.append_assoc, List.dropLast_concat]
    rw [hlast]
    dsimp only
    rw [hset, List.concat_eq_append]
    exact List.Perm.append_left pre (List.perm_append_singleton last post).symm

end Remove

/-! ## Handlers -/

/-- The list of followers, and beside it the connections whose handlers have
    registered and not exited. -/
structure Registry where
  followers : List FollowerConn
  live : List FollowerConn

inductive RegistryStep where
  | register (id : GoString) (conn : ConnID)
  | exit (conn : ConnID)

namespace Registry

/-- A leader that has just started. -/
def new : Registry := ⟨[], []⟩

/-- A handler registers its connection, or exits. -/
def step (r : Registry) : RegistryStep → Option Registry
  | .register id conn =>
    if conn ∈ r.live.map FollowerConn.conn then none
    else some ⟨addFollower r.followers id conn, r.live ++ [⟨id, conn⟩]⟩
  | .exit conn =>
    match r.live.find? (fun f => f.conn = conn) with
    | none => none
    | some f => some ⟨removeFollower r.followers f.id, r.live.erase f⟩

/-- The connections of the list are the live ones. -/
def Tracks (r : Registry) : Prop :=
  ∀ conn, conn ∈ r.followers.map FollowerConn.conn ↔ conn ∈ r.live.map FollowerConn.conn

/-- The step is no exit of a handler before whose entry there is another with the
    same ID. -/
def FirstWithID (r : Registry) : RegistryStep → Prop
  | .register _ _ => True
  | .exit conn => ∃ pre f post, r.followers = pre ++ f :: post ∧ f.conn = conn ∧
      ∀ g ∈ pre, g.id ≠ f.id

/-- The list is made of the live connections, each once. -/
structure Exact (r : Registry) : Prop where
  perm : r.followers.Perm r.live
  nodup : (r.live.map FollowerConn.conn).Nodup

variable {r r' : Registry}

theorem Exact.tracks (h : r.Exact) : r.Tracks := fun _ => (h.perm.map _).mem_iff

private theorem Exact.register (h : r.Exact) {id : GoString} {conn : ConnID}
    (hstep : r.step (.register id conn) = some r') : r'.Exact := by
  simp only [step] at hstep
  split at hstep
  · exact nomatch hstep
  · next hnew =>
    cases hstep
    constructor
    · exact h.perm.append_right _
    · show (List.map _ (r.live ++ _)).Nodup
      rw [List.map_append, List.nodup_append]
      refine ⟨h.nodup, by simp, ?_⟩
      intro a ha b hb heq
      obtain rfl : b = conn := List.mem_singleton.mp hb
      exact hnew (heq ▸ ha)

private theorem exit_cases {conn : ConnID} (hstep : r.step (.exit conn) = some r') :
    ∃ own ∈ r.live, own.conn = conn ∧ r'.followers = removeFollower r.followers own.id ∧
      r'.live = r.live.erase own := by
  simp only [step] at hstep
  split at hstep
  · exact nomatch hstep
  · next own hown =>
    cases hstep
    exact ⟨own, List.mem_of_find?_eq_some hown, by simpa using List.find?_some hown, rfl, rfl⟩

/-- The exit of a handler whose entry is the first with its ID. -/
private theorem Exact.exit (h : r.Exact) {conn : ConnID} (hstep : r.step (.exit conn) = some r')
    (hfirst : r.FirstWithID (.exit conn)) : r'.Exact := by
  obtain ⟨own, hown, hconn, hfollowers, hlive⟩ := exit_cases hstep
  obtain ⟨pre, f, post, hsplit, hconn', hpre⟩ := hfirst
  have hf : f ∈ r.live := by
    apply h.perm.mem_iff.mp
    rw [hsplit]
    simp
  obtain rfl : f = own :=
    List.inj_on_of_nodup_map h.nodup hf hown (hconn'.trans hconn.symm)
  constructor
  · have hperm : (f :: (pre ++ post)).Perm r.live :=
      (List.perm_middle.symm.trans (List.Perm.of_eq hsplit.symm)).trans h.perm
    have herase := hperm.erase f
    rw [List.erase_cons_head] at herase
    rw [hfollowers, hlive, hsplit]
    exact (removeFollower_perm hpre).trans herase
  · rw [hlive]
    exact h.nodup.sublist (List.erase_sublist.map _)

/-- The exit of a handler behind another entry with its ID: its own entry stays. -/
private theorem Exact.not_tracks_exit (h : r.Exact) {conn : ConnID}
    (hstep : r.step (.exit conn) = some r') (hfirst : ¬r.FirstWithID (.exit conn)) :
    ¬r'.Tracks := by
  obtain ⟨own, hown, hconn, hfollowers, hlive⟩ := exit_cases hstep
  have hmem : own ∈ r.followers := h.perm.mem_iff.mpr hown
  obtain ⟨first, hfind⟩ : ∃ first, r.followers.find? (fun g => g.id = own.id) = some first := by
    apply Option.isSome_iff_exists.mp
    exact List.find?_isSome.mpr ⟨own, hmem, by simp⟩
  obtain ⟨hid, pre, post, hsplit, hpre⟩ := List.find?_eq_some_iff_append.mp hfind
  have hid : first.id = own.id := by simpa using hid
  have hpre : ∀ g ∈ pre, g.id ≠ first.id := by
    intro g hg
    rw [hid]
    simpa using hpre g hg
  have hne : own ≠ first := by
    rintro rfl
    exact hfirst ⟨pre, own, post, hsplit, hconn, hpre⟩
  -- the first entry with the ID goes, and that of the connection stays
  have hstays : own ∈ r'.followers := by
    rw [hfollowers, hsplit, ← hid]
    apply (removeFollower_perm hpre).mem_iff.mpr
    rw [hsplit] at hmem
    simpa [hne] using hmem
  have hgone : own.conn ∉ r'.live.map FollowerConn.conn := by
    have hnodup := (List.perm_cons_erase hown).map FollowerConn.conn |>.nodup_iff.mp h.nodup
    rw [List.map_cons, List.nodup_cons] at hnodup
    rw [hlive]
    exact hnodup.1
  intro htracks
  exact hgone ((htracks own.conn).mp (List.mem_map_of_mem hstays))

end Registry

/-- In a run of registrations and exits, the list of followers is the set of the live
    connections at every point exactly if every handler that exits has the first entry
    with its ID. -/
theorem followers_track_iff {steps : List RegistryStep} {r : Registry}
    (hrun : steps.foldlM Registry.step .new = some r) :
    (∀ pre post mid, steps = pre ++ post → pre.foldlM Registry.step .new = some mid →
      mid.Tracks) ↔
      ∀ pre a post mid, steps = pre ++ a :: post →
        pre.foldlM Registry.step .new = some mid → mid.FirstWithID a := by
  have hnew : Registry.new.Exact := ⟨.nil, .nil⟩
  have hok : ∀ r a r', Registry.Exact r → r.step a = some r' → r.FirstWithID a → r'.Exact := by
    intro r a r' h hstep hfirst
    cases a with
    | register id conn => exact h.register hstep
    | exit conn => exact h.exit hstep hfirst
  have hbad : ∀ r a r', Registry.Exact r → r.step a = some r' → ¬r.FirstWithID a →
      ¬r'.Tracks := by
    intro r a r' h hstep hfirst
    cases a with
    | register id conn => exact absurd trivial hfirst
    | exit conn => exact h.not_tracks_exit hstep hfirst
  exact forall_states_iff (fun r h => h.tracks) hok hbad hnew hrun

/-- Two followers register, and the first exits. -/
theorem followers_track_iff_distinct :
    ∃ r, [RegistryStep.register (lit "f") 1, .register (lit "g") 2, .exit 1].foldlM
        Registry.step .new = some r ∧
      ∀ pre post mid,
        [RegistryStep.register (lit "f") 1, .register (lit "g") 2, .exit 1] = pre ++ post →
        pre.foldlM Registry.step .new = some mid → mid.Tracks := by
  refine ⟨_, rfl, (followers_track_iff rfl).mpr fun pre a post mid hsplit hmid => ?_⟩
  cases a with
  | register id conn => exact trivial
  | exit conn =>
    -- the exit is the third step
    obtain _ | ⟨_, _ | ⟨_, _ | ⟨_, _⟩⟩⟩ := pre
    · exact nomatch hsplit
    · exact nomatch hsplit
    · cases hsplit
      cases hmid
      exact ⟨[], _, _, rfl, rfl, fun g hg => nomatch hg⟩
    · simp at hsplit

/-- A follower reconnects, another one leaves, so that the last entry moves to the
    front, and then the handler of the old connection exits: it takes the live
    connection off the list. -/
theorem live_follower_dropped :
    ∃ r, [RegistryStep.register (lit "g") 1, .register (lit "f") 2, .register (lit "f") 3,
        .exit 1, .exit 2].foldlM Registry.step .new = some r ∧
      3 ∈ r.live.map FollowerConn.conn ∧ 3 ∉ r.followers.map FollowerConn.conn ∧
      2 ∉ r.live.map FollowerConn.conn ∧ 2 ∈ r.followers.map FollowerConn.conn := by
  refine ⟨_, rfl, ?_⟩
  decide

end GoCache.Spec
