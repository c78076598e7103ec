import GoCache.Spec.Node
import GoCache.Spec.Stream

/-!
# The stream to one follower

A node as one of its connections sees it: what has been written to the
connection, and which writes are still on their way to it. A write is sent to
the followers that were registered when its request copied the list, each of
them once.

## Key results

- `Connected.step`: a follower is registered at most once, and sent to at most once
- `seen_of_step`: what each step is for one connection
-/

namespace GoCache.Spec

open GoCache.Native Transition WriteLog

/-- The connections a request has still to write to. -/
def Phase.targets : Phase → List Conn
  | .sending _ targets => targets
  | .replicate | .logged => []

/-- The follower is in the list of the leader. -/
def Join.isRegistered : Join → Bool
  | .registered => true
  | .absent | .sending .. | .ended _ => false

namespace Node

variable {f : Conn} {n n' : Node} {a : Action}

/-- The connection is registered at most once, and no request writes to it
    unless it is registered, nor more than once. -/
structure Connected (f : Conn) (n : Node) : Prop where
  followers : n.followers.count f = if (n.join f).isRegistered then 1 else 0
  targets : ∀ r ∈ n.requests, r.phase.targets.count f ≤ n.followers.count f

theorem connected_start (c : WfCache) (seqNum : Int64) {followers : List Conn}
    (hnodup : followers.Nodup) (snapshotFile : Option Bytes) (aof : Bytes) (f : Conn) :
    Connected f (start c seqNum followers snapshotFile aof) where
  followers := by
    show followers.count f = if Join.isRegistered (if f ∈ followers then _ else _) then 1 else 0
    by_cases hf : f ∈ followers
    · rw [if_pos hf, List.count_eq_one_of_mem hnodup hf]
      rfl
    · rw [if_neg hf, List.count_eq_zero_of_not_mem hf]
      rfl
  targets := by
    intro r hr
    exact nomatch hr

/-- One of the requests goes on. -/
private theorem Connected.replace (h : Connected f n) {pre post : List Request} {r r' : Request}
    (hreqs : n.requests = pre ++ r :: post)
    (hr' : r'.phase.targets.count f ≤ n.followers.count f) :
    ∀ q ∈ pre ++ r' :: post, q.phase.targets.count f ≤ n.followers.count f := by
  have htargets := h.targets
  rw [hreqs] at htargets
  simp only [List.mem_append, List.mem_cons] at htargets ⊢
  rintro q (hq | rfl | hq)
  · exact htargets q (.inl hq)
  · exact hr'
  · exact htargets q (.inr (.inr hq))

/-- The join of a connection goes on, short of being registered. -/
private theorem Connected.rejoin (h : Connected f n) {conn : Conn} {join : Join}
    (hjoin : (n.join conn).isRegistered = join.isRegistered) :
    n.followers.count f =
      if (Function.update n.join conn join f).isRegistered then 1 else 0 := by
  rw [h.followers]
  by_cases hf : f = conn
  · rw [hf, Function.update_self, hjoin]
  · rw [Function.update_of_ne hf]

/-- Every step keeps the connections so. -/
theorem Connected.step (h : Connected f n) (hstep : n.step a = some n') : Connected f n' := by
  cases effect_of_step hstep with
  | set | delete =>
    refine ⟨h.followers, fun r hr => ?_⟩
    cases List.mem_append.mp hr with
    | inl hr => exact h.targets r hr
    | inr hr =>
      obtain rfl := List.mem_singleton.mp hr
      exact Nat.zero_le _
  | replicate hpick => exact ⟨h.followers, h.replace (pick_eq_some hpick) le_rfl⟩
  | @send _ pre post e seqNum conn targets hpick =>
    have hreqs := pick_eq_some hpick
    have hold : (conn :: targets).count f ≤ n.followers.count f :=
      h.targets ⟨e, .sending seqNum (conn :: targets)⟩ (by rw [hreqs]; simp)
    exact ⟨h.followers, h.replace hreqs ((List.sublist_cons_self _ _).count_le f |>.trans hold)⟩
  | append hpick => exact ⟨h.followers, h.replace (pick_eq_some hpick) (Nat.zero_le _)⟩
  | reply hpick =>
    refine ⟨h.followers, fun r hr => h.targets r ?_⟩
    rw [pick_eq_some hpick]
    simp only [List.mem_append, List.mem_cons] at hr ⊢
    exact hr.imp id .inr
  | jobSnapshot | jobWrite | lock | renameAOF | renameSnapshot | truncate | reopen | heartbeat =>
    exact ⟨h.followers, h.targets⟩
  | syncSnapshot hjoin | syncEntry _ hjoin | syncEnd hjoin =>
    exact ⟨h.rejoin (by rw [hjoin]; rfl), h.targets⟩
  | @addFollower conn _ hjoin =>
    -- the list only grows, so the targets copied from it stay covered
    have hcount : n.followers.count f ≤ (n.followers ++ [conn]).count f :=
      (List.sublist_append_left _ _).count_le f
    refine ⟨?_, fun r hr => (h.targets r hr).trans hcount⟩
    show (n.followers ++ [conn]).count f =
      if (Function.update n.join conn .registered f).isRegistered then 1 else 0
    rw [List.count_append, h.followers]
    by_cases hf : f = conn
    · rw [hf, hjoin, Function.update_self, List.count_singleton_self]
      rfl
    · have hother : f ∉ [conn] := by simpa using hf
      rw [Function.update_of_ne hf, List.count_eq_zero_of_not_mem hother, Nat.add_zero]

theorem Connected.mem_followers (h : Connected f n) (hjoin : (n.join f).isRegistered = true) :
    f ∈ n.followers := by
  apply List.count_pos_iff.mp
  rw [h.followers, hjoin]
  exact Nat.one_pos

theorem Connected.notMem_followers (h : Connected f n) (hjoin : (n.join f).isRegistered = false) :
    f ∉ n.followers := by
  apply List.count_eq_zero.mp
  rw [h.followers, hjoin]
  rfl

/-- The connection a request writes to next is not among those behind it. -/
private theorem Connected.notMem_targets (h : Connected f n) {e : Stamped} {seqNum : Int64}
    {targets : List Conn} (hmem : ⟨e, .sending seqNum (f :: targets)⟩ ∈ n.requests) :
    (n.join f).isRegistered = true ∧ f ∉ targets := by
  have hcount : (f :: targets).count f ≤ n.followers.count f := h.targets _ hmem
  rw [List.count_cons_self, h.followers] at hcount
  split at hcount
  · next hjoin => exact ⟨hjoin, List.count_eq_zero.mp (by omega)⟩
  · omega

/-! ## A node seen from a connection -/

/-- The request has still to write to the connection, or to copy the list. -/
def owesTo (f : Conn) : Phase → Bool
  | .replicate => true
  | .sending _ targets => f ∈ targets
  | .logged => false

/-- What concerns a connection: how far it has joined, what has been written to
    it, which writes are still on their way, and the updates of the cache. -/
structure View where
  join : Join
  wire : Bytes
  owed : List Stamped
  updates : List Stamped

/-- The view of a connection. -/
def view (f : Conn) (n : Node) : View :=
  ⟨n.join f, n.wire f, owing (owesTo f) n.requests, n.updates⟩

/-- The connection the request writes to next. -/
def nextTarget (n : Node) (i : Nat) : Option Conn :=
  match pick i n.requests with
  | some (_, r, _) => r.phase.targets.head?
  | none => none

/-- The oldest write on its key is sent to the connection first. -/
def sendsInOrder (f : Conn) (n : Node) : Action → Bool
  | .send i => n.nextTarget i ≠ some f || n.inOrder (owesTo f) i
  | _ => true

/-- What a step is for a connection. -/
inductive Seen (f : Conn) (n : Node) : Action → View → Prop where
  | nothing (a : Action) : Seen f n a (n.view f)
  | update (a : Action) (s : Stamped) :
      Seen f n a
        { n.view f with owed := (n.view f).owed ++ [s], updates := (n.view f).updates ++ [s] }
  /-- A request copies the list before the follower is in it. -/
  | pass {i : Nat} {pre post : List Request} {e : Stamped}
      (hpick : pick i n.requests = some (pre, ⟨e, .replicate⟩, post))
      (hjoin : (n.join f).isRegistered = false) :
      Seen f n (.replicate i)
        { n.view f with owed := owing (owesTo f) pre ++ owing (owesTo f) post }
  | send {a : Action} {pre post : List Stamped} {e : Stamped} (seqNum : Int64)
      (howed : (n.view f).owed = pre ++ e :: post) (hfirst : NotOnKeyOf Stamped.write e pre)
      (hjoin : (n.join f).isRegistered = true) :
      Seen f n a
        { n.view f with
          wire := (n.view f).wire ++ (Message.replicate seqNum e.record).encode
          owed := pre ++ post }
  | heartbeat (a : Action) (seqNum : Int64) (hjoin : (n.join f).isRegistered = true) :
      Seen f n a
        { n.view f with wire := (n.view f).wire ++ (Message.heartbeat seqNum).encode }
  | syncSnapshot {order : List GoString} (hjoin : n.join f = .absent)
      (horder : n.cache.cache.Enumerates order) :
      Seen f n (.syncSnapshot f order)
        { n.view f with join := .sending n.updates.length (n.cache.cache.snapshot order) }
  | syncEntry {stamp : Nat} {e : GoString × SnapshotEntry}
      {rest : List (GoString × SnapshotEntry)} (now : Time)
      (hjoin : n.join f = .sending stamp (e :: rest)) :
      Seen f n (.syncEntry f now)
        { n.view f with
          join := .sending stamp rest
          wire := n.wire f ++
            ((dumpEntry (fun _ => now) e).map (replicateBytes (n.seqNum + 1))).getD [] }
  | syncEnd {stamp : Nat} (hjoin : n.join f = .sending stamp []) :
      Seen f n (.syncEnd f)
        { n.view f with join := .ended stamp, wire := n.wire f ++ encodeSyncEnd n.seqNum }
  | addFollower {stamp : Nat} (hjoin : n.join f = .ended stamp) :
      Seen f n (.addFollower f) { n.view f with join := .registered }

private theorem view_update (c : WfCache) (r : Record) :
    (n.update c r).view f = { n.view f with
      owed := (n.view f).owed ++ [⟨n.updates.length, r⟩]
      updates := (n.view f).updates ++ [⟨n.updates.length, r⟩] } := by
  show View.mk _ _ (owing (owesTo f) (n.requests ++ _)) _ = _
  rw [owing_append]
  rfl

/-- A request that goes on without writing to the connection. -/
private theorem seen_replace {pre post : List Request} {e : Stamped} {phase phase' : Phase}
    (hreqs : n.requests = pre ++ ⟨e, phase⟩ :: post) (hjoin : n'.join f = n.join f)
    (hwire : n'.wire f = n.wire f) (hreqs' : n'.requests = pre ++ ⟨e, phase'⟩ :: post)
    (hupdates : n'.updates = n.updates) (howes : owesTo f phase' = owesTo f phase) :
    Seen f n a (n'.view f) := by
  have hview : n'.view f = n.view f := by
    rw [view, view, hjoin, hwire, hupdates, hreqs', hreqs, owing_of_same howes]
  exact hview ▸ .nothing a

private theorem seen_replicate (h : Connected f n) {i : Nat} {pre post : List Request}
    {e : Stamped} (hpick : pick i n.requests = some (pre, ⟨e, .replicate⟩, post)) :
    Seen f n (.replicate i)
      (view f { n with
        seqNum := n.seqNum + 1
        requests := pre ++ ⟨e, .sending (n.seqNum + 1) n.followers⟩ :: post }) := by
  cases hjoin : (n.join f).isRegistered with
  | true =>
    have howes : owesTo f (.sending (n.seqNum + 1) n.followers) = true :=
      decide_eq_true (h.mem_followers hjoin)
    exact seen_replace (pick_eq_some hpick) rfl rfl rfl rfl howes
  | false =>
    have howes : owesTo f (.sending (n.seqNum + 1) n.followers) = false :=
      decide_eq_false (h.notMem_followers hjoin)
    show Seen f n (.replicate i)
      ⟨n.join f, n.wire f, owing (owesTo f) (pre ++ _ :: post), n.updates⟩
    rw [owing_of_neg howes, owing_append]
    exact .pass hpick hjoin

private theorem seen_send (h : Connected f n) {i : Nat} {pre post : List Request} {e : Stamped}
    {seqNum : Int64} {conn : Conn} {targets : List Conn} (hok : n.sendsInOrder f (.send i) = true)
    (hpick : pick i n.requests = some (pre, ⟨e, .sending seqNum (conn :: targets)⟩, post)) :
    Seen f n (.send i)
      (view f { n.put conn (replicateBytes seqNum e.record) with
        requests := pre ++ ⟨e, .sending seqNum targets⟩ :: post }) := by
  have hreqs := pick_eq_some hpick
  by_cases hf : f = conn
  · subst hf
    have hmem : ⟨e, .sending seqNum (f :: targets)⟩ ∈ n.requests := by
      rw [hreqs]
      simp
    obtain ⟨hjoin, hnotMem⟩ := h.notMem_targets hmem
    have hfirst : NotOnKeyOf Stamped.write e (owing (owesTo f) pre) := by
      refine notOnKeyOf_of_inOrder ?_ hpick
      simpa [sendsInOrder, nextTarget, hpick, Phase.targets] using hok
    have howed : (n.view f).owed = owing (owesTo f) pre ++ e :: owing (owesTo f) post := by
      rw [view, hreqs]
      exact owing_of_pos (decide_eq_true List.mem_cons_self)
    show Seen f n (.send i) ⟨n.join f, Function.update n.wire f _ f,
      owing (owesTo f) (pre ++ _ :: post), n.updates⟩
    have howes : owesTo f (.sending seqNum targets) = false := decide_eq_false hnotMem
    rw [Function.update_self, owing_of_neg howes, owing_append]
    exact .send seqNum howed hfirst hjoin
  · have howes :
        owesTo f (.sending seqNum targets) = owesTo f (.sending seqNum (conn :: targets)) := by
      simp [owesTo, hf]
    exact seen_replace hreqs rfl (Function.update_of_ne hf _ _) rfl rfl howes

/-- What concerns another connection only. -/
private theorem view_of_ne {conn : Conn} (hf : f ≠ conn) (bytes : Bytes) (seqNum : Int64)
    (followers : List Conn) (join : Join) :
    view f { n.put conn bytes with
      seqNum := seqNum
      followers := followers
      join := Function.update n.join conn join } = n.view f := by
  show View.mk (Function.update n.join conn join f) (Function.update n.wire conn _ f) _ _ = _
  rw [Function.update_of_ne hf, Function.update_of_ne hf]
  rfl

/-- Every step is one of these for a connection, if it sends in order. -/
theorem seen_of_step (h : Connected f n) (hok : n.sendsInOrder f a = true)
    (hstep : n.step a = some n') : Seen f n a (n'.view f) := by
  cases effect_of_step hstep with
  | set | delete =>
    rw [view_update]
    exact .update _ _
  | replicate hpick => exact seen_replicate h hpick
  | send hpick => exact seen_send h hok hpick
  -- a request that only appends has no target left
  | append hpick => exact seen_replace (pick_eq_some hpick) rfl rfl rfl rfl rfl
  | @reply _ pre post e hpick =>
    have hview : view f { n with requests := pre ++ post } = n.view f := by
      rw [view, view, pick_eq_some hpick, owing_of_neg rfl]
    rw [hview]
    exact .nothing _
  | jobSnapshot | jobWrite | lock | renameAOF | renameSnapshot | truncate | reopen =>
    exact .nothing _
  | @syncSnapshot conn order hjoin horder =>
    by_cases hf : f = conn
    · subst hf
      show Seen f n _ ⟨Function.update n.join f _ f, n.wire f, _, _⟩
      rw [Function.update_self]
      exact .syncSnapshot hjoin horder
    · show Seen f n _ ⟨Function.update n.join conn _ f, n.wire f, _, _⟩
      rw [Function.update_of_ne hf]
      exact .nothing _
  | @syncEntry conn stamp e rest now hjoin =>
    by_cases hf : f = conn
    · subst hf
      show Seen f n _ ⟨Function.update n.join f _ f, Function.update n.wire f _ f, _, _⟩
      rw [Function.update_self, Function.update_self]
      exact .syncEntry now hjoin
    · rw [show view f _ = n.view f from view_of_ne hf _ _ _ _]
      exact .nothing _
  | @syncEnd conn stamp hjoin =>
    by_cases hf : f = conn
    · subst hf
      show Seen f n _ ⟨Function.update n.join f _ f, Function.update n.wire f _ f, _, _⟩
      rw [Function.update_self, Function.update_self]
      exact .syncEnd hjoin
    · rw [show view f _ = n.view f from view_of_ne hf _ _ _ _]
      exact .nothing _
  | @addFollower conn stamp hjoin =>
    by_cases hf : f = conn
    · subst hf
      show Seen f n _ ⟨Function.update n.join f _ f, n.wire f, _, _⟩
      rw [Function.update_self]
      exact .addFollower hjoin
    · show Seen f n _ ⟨Function.update n.join conn _ f, n.wire f, _, _⟩
      rw [Function.update_of_ne hf]
      exact .nothing _
  | @heartbeat conn seqNum hmem =>
    by_cases hf : f = conn
    · subst hf
      -- heartbeats go to the connections in the list
      have hjoin : (n.join f).isRegistered = true := by
        by_contra hnot
        exact h.notMem_followers (by simpa using hnot) hmem
      show Seen f n _ ⟨n.join f, Function.update n.wire f _ f, _, _⟩
      rw [Function.update_self]
      exact .heartbeat _ seqNum hjoin
    · show Seen f n _ ⟨n.join f, Function.update n.wire conn _ f, _, _⟩
      rw [Function.update_of_ne hf]
      exact .nothing _

end Node

end GoCache.Spec
