import GoCache.Native.ClusterClient
import GoCache.Spec.Owners

/-!
# What a cluster client remembers

A refresh of the topology replaces the client's table of nodes, but only adds to its
ring. What the client has forgotten of an earlier reply are the positions that a node
of the last reply has taken over.

## Key results

- `Refreshed.laidOut`: the ring after a sequence of refreshes
- `refresh_forgets_iff`: when only the last reply counts
-/

namespace GoCache.Spec

open GoCache.Native

/-! ## Entries of a reply -/

section Entries

variable {response : GoString} {line : Bytes} {m : GoString} {info : ClientNodeInfo}

theorem length_trimSpace_le (s : Bytes) : (trimSpace s).length ≤ s.length := by
  unfold trimSpace
  rw [List.length_reverse]
  refine ((Words.trimLoop_suffix _ _).length_le).trans ?_
  rw [List.length_reverse]
  exact (Words.trimLoop_suffix _ _).length_le

/-- Where an entry comes from. -/
theorem parseNodeLine_lookup {nodes : Finmap fun _ : GoString => ClientNodeInfo}
    (h : (parseNodeLine nodes line).lookup m = some info) :
    nodes.lookup m = some info ∨ ∃ id address status rest,
      fields (trimSpace line) = id :: address :: status :: rest ∧ m = substring id ∧
        info = ⟨substring id, substring address, substring status⟩ := by
  unfold parseNodeLine at h
  dsimp only at h
  split at h
  · exact .inl h
  split at h
  · next id address status rest hfields =>
    by_cases hm : m = substring id
    · subst hm
      rw [Finmap.lookup_insert] at h
      exact .inr ⟨id, address, status, rest, hfields, rfl, (Option.some.inj h).symm⟩
    · rw [Finmap.lookup_insert_of_ne _ hm] at h
      exact .inl h
  · exact .inl h

theorem foldl_parseNodeLine_lookup {lines : List Bytes}
    {nodes : Finmap fun _ : GoString => ClientNodeInfo}
    (h : (lines.foldl parseNodeLine nodes).lookup m = some info) :
    nodes.lookup m = some info ∨ ∃ line ∈ lines, ∃ id address status rest,
      fields (trimSpace line) = id :: address :: status :: rest ∧ m = substring id ∧
        info = ⟨substring id, substring address, substring status⟩ := by
  induction lines generalizing nodes with
  | nil => exact .inl h
  | cons line lines ih =>
    rcases ih h with hfirst | ⟨line', hline', hentry⟩
    · rcases parseNodeLine_lookup hfirst with hold | hentry
      · exact .inl hold
      · exact .inr ⟨line, List.mem_cons_self, hentry⟩
    · exact .inr ⟨line', List.mem_cons_of_mem _ hline', hentry⟩

/-- Every entry is on a line of the reply. -/
theorem parseClusterNodes_lookup (h : (parseClusterNodes response).2.lookup m = some info) :
    ∃ line ∈ (trimSpace response.bytes).splitOn (byte '\n'), ∃ id address status rest,
      fields (trimSpace line) = id :: address :: status :: rest ∧ m = substring id ∧
        info = ⟨substring id, substring address, substring status⟩ := by
  have hfold : (((trimSpace response.bytes).splitOn (byte '\n')).foldl parseNodeLine ∅).lookup m =
      some info := by
    unfold parseClusterNodes at h
    dsimp only at h
    split at h
    · rw [Finmap.lookup_empty] at h
      exact nomatch h
    · split at h
      · exact h
      · exact h
  rcases foldl_parseNodeLine_lookup hfold with hold | hentry
  · rw [Finmap.lookup_empty] at hold
    exact nomatch hold
  · exact hentry

end Entries

/-- The node is active in a reply. -/
def ActiveIn (response m : GoString) : Prop :=
  ∃ info, (parseClusterNodes response).2.lookup m = some info ∧ info.status = lit "active"

private theorem substring_bytes {part : Bytes} (h : part.length ≤ maxAlloc) :
    (substring part).bytes = part := by
  rw [substring, dif_pos h]

/-- The names of an active node's virtual nodes fit, since its status is in the same
    reply. -/
theorem ActiveIn.namesFit {response m : GoString} (h : ActiveIn response m) :
    NamesFit 150 m := by
  obtain ⟨info, hlookup, hstatus⟩ := h
  obtain ⟨line, hline, id, address, status, rest, hfields, rfl, rfl⟩ :=
    parseClusterNodes_lookup hlookup
  have hlen : id.length + status.length ≤ maxAlloc := by
    have hwords : (fields (trimSpace line)).flatten.length ≤ (trimSpace line).length :=
      (Words.flatten_fields_sublist _).length_le
    have hline := Words.length_le_of_mem_splitOn hline
    have htrim := length_trimSpace_le line
    have htrim' := length_trimSpace_le response.bytes
    have hfits := response.length_le
    rw [hfields] at hwords
    simp only [List.flatten_cons, List.length_append] at hwords
    omega
  have hsix : status.length = 6 := by
    have hbytes : (substring status).bytes = status := substring_bytes (by omega)
    rw [← hbytes, show substring status = lit "active" from hstatus]
    rfl
  intro i hi
  have hdigits : (itoa (Int64.ofNat i)).length ≤ 3 + 1 := by
    have hi' : i < 150 := hi
    have htoInt : (Int64.ofNat i).toInt = i := Int64.toInt_ofNat_of_lt (by omega)
    exact Decimal.length_formatInt_le (by omega) (by omega)
  rw [virtualKey, List.length_append, List.length_cons, substring_bytes (by omega)]
  omega

/-! ## The ring -/

/-- The loop over a map visits every key once. -/
def Visits (order : (Finmap fun _ : GoString => ClientNodeInfo) → List GoString) : Prop :=
  ∀ nodes, (order nodes).Nodup ∧ ∀ m, m ∈ order nodes ↔ m ∈ nodes

/-- A sequence of successful refreshes, by the replies, with any orders of the loops. -/
inductive Refreshed (hash : Bytes → UInt32) (view : ClientView) :
    List GoString → ClientView → Prop where
  | refl : Refreshed hash view [] view
  | refresh {replies : List GoString} {view₁ view₂ : ClientView} {response : GoString}
      {order : (Finmap fun _ : GoString => ClientNodeInfo) → List GoString}
      (h : Refreshed hash view replies view₁) (horder : Visits order)
      (hok : view₁.observe hash order response = (none, view₂)) :
      Refreshed hash view (replies ++ [response]) view₂

section Ring

variable {hash : Bytes → UInt32} {view view' : ClientView} {ids order : List GoString}

theorem Refreshed.trans {replies replies' : List GoString} {view'' : ClientView}
    (h : Refreshed hash view replies view') (h' : Refreshed hash view' replies' view'') :
    Refreshed hash view (replies ++ replies') view'' := by
  induction h' with
  | refl => rwa [List.append_nil]
  | refresh _ horder hok ih =>
    rw [← List.append_assoc]
    exact .refresh ih horder hok

/-- Whether the node is listed as active. -/
def isActive (nodes : Finmap fun _ : GoString => ClientNodeInfo) (m : GoString) : Bool :=
  (nodes.lookup m).any fun info => info.status = lit "active"

private theorem addActive_of_not {m : GoString} (h : isActive view.nodes m = false) :
    view.addActive hash m = view := by
  unfold ClientView.addActive
  unfold isActive at h
  cases hlookup : view.nodes.lookup m with
  | none => rfl
  | some info =>
    rw [hlookup, Option.any_some, decide_eq_false_iff_not] at h
    exact if_pos h

variable (hash) in
private theorem addActive_of_active {m : GoString} (h : isActive view.nodes m = true) :
    ∃ address, view.addActive hash m =
      { view with hashRing := (view.hashRing.addShard hash m).setNodeAddress m address } := by
  unfold ClientView.addActive
  unfold isActive at h
  cases hlookup : view.nodes.lookup m with
  | none =>
    rw [hlookup] at h
    exact nomatch h
  | some info =>
    rw [hlookup, Option.any_some, decide_eq_true_eq] at h
    exact ⟨info.address, if_neg (not_not.mpr h)⟩

/-- Building the ring adds the active nodes to those that it has. -/
theorem buildHashRing_laidOut (view : ClientView) (h : LaidOut hash 150 ∅ ids view.hashRing) :
    LaidOut hash 150 ∅ (ids ++ order.filter (isActive view.nodes))
      (view.buildHashRing hash order).hashRing := by
  induction order generalizing view ids with
  | nil =>
    rw [List.filter_nil, List.append_nil]
    exact h
  | cons m order ih =>
    show LaidOut hash 150 ∅ _ ((view.addActive hash m).buildHashRing hash order).hashRing
    cases hactive : isActive view.nodes m with
    | false =>
      rw [List.filter_cons_of_neg (by simp [hactive]), addActive_of_not hactive]
      exact ih view h
    | true =>
      obtain ⟨address, hnew⟩ := addActive_of_active hash hactive
      have hadd : LaidOut hash 150 ∅ (ids ++ [m])
          ((view.hashRing.addShard hash m).setNodeAddress m address) :=
        ((h.add m).mono (by simp)).of_eq rfl rfl rfl
      rw [List.filter_cons_of_pos hactive, hnew, ← List.singleton_append, ← List.append_assoc]
      exact ih { view with
        hashRing := (view.hashRing.addShard hash m).setNodeAddress m address } hadd

theorem isActive_iff {response m : GoString} :
    isActive (parseClusterNodes response).2 m = true ↔ ActiveIn response m := by
  unfold isActive ActiveIn
  simp only [Option.any_eq_true, decide_eq_true_eq]

theorem observe_eq_ok {response : GoString}
    {order : (Finmap fun _ : GoString => ClientNodeInfo) → List GoString}
    (h : view.observe hash order response = (none, view')) :
    (parseClusterNodes response).1 = none ∧
      view' = { view with nodes := (parseClusterNodes response).2 }.buildHashRing hash
        (order (parseClusterNodes response).2) := by
  unfold ClientView.observe at h
  split at h
  · exact nomatch congrArg Prod.fst h
  · next nodes hparse =>
    rw [hparse]
    exact ⟨rfl, (congrArg Prod.snd h).symm⟩

variable (hash view) in
theorem observe_of_valid {response : GoString}
    (order : (Finmap fun _ : GoString => ClientNodeInfo) → List GoString)
    (h : (parseClusterNodes response).1 = none) :
    view.observe hash order response = (none,
      { view with nodes := (parseClusterNodes response).2 }.buildHashRing hash
        (order (parseClusterNodes response).2)) := by
  unfold ClientView.observe
  rw [show parseClusterNodes response = (none, (parseClusterNodes response).2) from
    Prod.ext h rfl]

/-- The nodes that a refresh adds to the ring. -/
theorem observe_laidOut {response : GoString}
    {order : (Finmap fun _ : GoString => ClientNodeInfo) → List GoString}
    (h : LaidOut hash 150 ∅ ids view.hashRing)
    (hok : view.observe hash order response = (none, view')) :
    LaidOut hash 150 ∅ (ids ++ (order (parseClusterNodes response).2).filter
      (isActive (parseClusterNodes response).2)) view'.hashRing := by
  obtain ⟨-, rfl⟩ := observe_eq_ok hok
  exact buildHashRing_laidOut { view with nodes := (parseClusterNodes response).2 } h

/-- The shards that a loop over the map adds are the active nodes. -/
theorem mem_filter_order {response m : GoString}
    {order : (Finmap fun _ : GoString => ClientNodeInfo) → List GoString} (h : Visits order) :
    m ∈ (order (parseClusterNodes response).2).filter (isActive (parseClusterNodes response).2) ↔
      ActiveIn response m := by
  rw [List.mem_filter, isActive_iff, (h _).2, and_iff_right_iff_imp]
  rintro ⟨info, hlookup, -⟩
  exact Finmap.mem_of_lookup_eq_some hlookup

/-- The ring has all the nodes that were active in some reply. -/
theorem Refreshed.laidOut {replies : List GoString} (h : Refreshed hash view replies view')
    (hring : LaidOut hash 150 ∅ ids view.hashRing) :
    ∃ added, LaidOut hash 150 ∅ (ids ++ added) view'.hashRing ∧
      ∀ m, m ∈ added ↔ ∃ response ∈ replies, ActiveIn response m := by
  induction h with
  | refl => exact ⟨[], by rwa [List.append_nil], fun m => by simp⟩
  | @refresh replies view₁ view₂ response order _ horder hok ih =>
    obtain ⟨added, hlaid, hadded⟩ := ih
    have hlaid' := observe_laidOut hlaid hok
    rw [List.append_assoc] at hlaid'
    refine ⟨_, hlaid', fun m => ?_⟩
    rw [List.mem_append, hadded, mem_filter_order horder]
    simp only [List.mem_append, List.mem_singleton, or_and_right, exists_or, exists_eq_left]

end Ring

/-! ## Only the last reply -/

/-- The view that `NewClusterClient` starts with. -/
def freshView : ClientView := ⟨HashRing.new 150, ∅⟩

section Forgets

variable {hash : Bytes → UInt32} {response : GoString}

/-- A loop that comes to one node last. -/
private noncomputable def lastOrder (m : GoString)
    (nodes : Finmap fun _ : GoString => ClientNodeInfo) : List GoString :=
  (nodes.keys.erase m).toList ++ if m ∈ nodes then [m] else []

private theorem visits_lastOrder (m : GoString) : Visits (lastOrder m) := by
  intro nodes
  unfold lastOrder
  by_cases hm : m ∈ nodes
  · rw [if_pos hm]
    constructor
    · rw [List.nodup_append]
      refine ⟨Finset.nodup_toList _, List.nodup_singleton m, ?_⟩
      intro a ha b hb
      rw [List.mem_singleton.mp hb]
      rw [Finset.mem_toList, Finset.mem_erase] at ha
      exact ha.1
    · intro m'
      rw [List.mem_append, Finset.mem_toList, Finset.mem_erase, List.mem_singleton,
        Finmap.mem_keys]
      by_cases heq : m' = m
      · simp [heq, hm]
      · simp [heq]
  · rw [if_neg hm, List.append_nil]
    refine ⟨Finset.nodup_toList _, fun m' => ?_⟩
    rw [Finset.mem_toList, Finset.mem_erase, Finmap.mem_keys, and_iff_right_iff_imp]
    rintro hm' rfl
    exact hm hm'

/-- A valid reply is taken in by every client, whichever node it comes to last. -/
private theorem exists_refreshed (hvalid : (parseClusterNodes response).1 = none)
    {view : ClientView} {ids : List GoString} (h : LaidOut hash 150 ∅ ids view.hashRing)
    (m : GoString) :
    ∃ view', Refreshed hash view [response] view' ∧ (ActiveIn response m →
      ∃ others, LaidOut hash 150 ∅ (others ++ [m]) view'.hashRing) := by
  have hok := observe_of_valid hash view (lastOrder m) hvalid
  refine ⟨_, .refresh .refl (visits_lastOrder m) hok, fun hactive => ?_⟩
  have hfilter : (lastOrder m (parseClusterNodes response).2).filter
      (isActive (parseClusterNodes response).2) =
        ((parseClusterNodes response).2.keys.erase m).toList.filter
          (isActive (parseClusterNodes response).2) ++ [m] := by
    obtain ⟨info, hlookup, -⟩ := id hactive
    rw [lastOrder, if_pos (Finmap.mem_of_lookup_eq_some hlookup), List.filter_append,
      List.filter_cons_of_pos (isActive_iff.mpr hactive), List.filter_nil]
  have hlaid := observe_laidOut h hok
  rw [hfilter, ← List.append_assoc] at hlaid
  exact ⟨_, hlaid⟩

/-- Lists of the same shards give a position to the same one, if only one of them has it. -/
private theorem owner_eq_of_unique {v : Int64} {ids ids' : List GoString} {p : UInt32}
    (hmem : ∀ m, m ∈ ids ↔ m ∈ ids')
    (hunique : ∀ m ∈ ids, ∀ m' ∈ ids, p ∈ shardPositions hash v m →
      p ∈ shardPositions hash v m' → m = m') :
    owner hash v ids p = owner hash v ids' p := by
  cases howner : owner hash v ids p with
  | none =>
    rw [owner_eq_none_iff] at howner
    rw [eq_comm, owner_eq_none_iff]
    intro m hm
    exact howner m ((hmem m).mpr hm)
  | some m =>
    obtain ⟨hm, hp⟩ := owner_mem howner
    obtain ⟨m', howner'⟩ := Option.ne_none_iff_exists'.mp (owner_ne_none ((hmem m).mp hm) hp)
    obtain ⟨hm', hp'⟩ := owner_mem howner'
    rw [howner', hunique m hm m' ((hmem m').mpr hm') hp hp']

end Forgets

/-- For every sequence of successful refreshes by a new client: whatever the orders of
    the loops, the client sends every key where a client goes that has seen only the last
    reply, if and only if every position of a node that was active in an earlier reply is
    the position of a node that is active in the last one, and no two nodes active in the
    last reply share a position. -/
theorem refresh_forgets_iff (hash : Bytes → UInt32) (replies : List GoString) (view : ClientView)
    (hhistory : Refreshed hash freshView replies view) (response : GoString)
    (hvalid : (parseClusterNodes response).1 = none) :
    (∀ view' fresh', Refreshed hash view [response] view' →
      Refreshed hash freshView [response] fresh' → ∀ key,
        view'.hashRing.getNode hash key = fresh'.hashRing.getNode hash key) ↔
    (∀ earlier ∈ replies, ∀ m, ActiveIn earlier m → ∀ p ∈ shardPositions hash 150 m,
      ∃ m', ActiveIn response m' ∧ p ∈ shardPositions hash 150 m') ∧
    ∀ m m', ActiveIn response m → ActiveIn response m' → ∀ p ∈ shardPositions hash 150 m,
      p ∈ shardPositions hash 150 m' → m = m' := by
  have hfresh : LaidOut hash 150 ∅ [] freshView.hashRing := laidOut_new hash 150
  obtain ⟨added, hlaid, hadded⟩ := hhistory.laidOut hfresh
  rw [List.nil_append] at hlaid
  have hfit : ∀ m ∈ added, NamesFit 150 m := by
    intro m hm
    obtain ⟨earlier, -, hactive⟩ := (hadded m).mp hm
    exact hactive.namesFit
  have hrings : ∀ {view' fresh'}, Refreshed hash view [response] view' →
      Refreshed hash freshView [response] fresh' → ∃ last last',
        LaidOut hash 150 ∅ (added ++ last) view'.hashRing ∧
        LaidOut hash 150 ∅ last' fresh'.hashRing ∧
        (∀ m, m ∈ last ↔ ActiveIn response m) ∧ ∀ m, m ∈ last' ↔ ActiveIn response m := by
    intro view' fresh' hview hfresh'
    obtain ⟨last, hlaid', hlast⟩ := hview.laidOut hlaid
    obtain ⟨last', hlaid₁, hlast'⟩ := hfresh'.laidOut hfresh
    simp only [List.mem_singleton, exists_eq_left] at hlast hlast'
    exact ⟨last, last', hlaid', hlaid₁, hlast, hlast'⟩
  have hfit' : ∀ {last : List GoString}, (∀ m, m ∈ last ↔ ActiveIn response m) →
      ∀ m ∈ last, NamesFit 150 m := fun hiff m hm => ((hiff m).mp hm).namesFit
  constructor
  · intro hagree
    constructor
    · intro earlier hearlier m hactive p hp
      obtain ⟨view', hview, -⟩ := exists_refreshed hvalid hlaid m
      obtain ⟨fresh', hfresh', -⟩ := exists_refreshed hvalid hfresh m
      obtain ⟨last, last', hlaid', hlaid₁, hlast, hlast'⟩ := hrings hview hfresh'
      have hsame := (hlaid₁.agree_iff hlaid' (hfit' hlast') fun m hm =>
        (List.mem_append.mp hm).elim (hfit m) (hfit' hlast m)).mp
        (hagree view' fresh' hview hfresh') p
      have howned : owner hash 150 (added ++ last) p ≠ none :=
        owner_ne_none (List.mem_append_left _ ((hadded m).mpr ⟨earlier, hearlier, hactive⟩)) hp
      rw [hsame] at howned
      obtain ⟨m', howner⟩ := Option.ne_none_iff_exists'.mp howned
      obtain ⟨hm', hp'⟩ := owner_mem howner
      exact ⟨m', (hlast' m').mp hm', hp'⟩
    · -- one client comes to the one node last, the other to the other
      rintro m m' hactive hactive' _ ⟨i, hi, rfl⟩ hp'
      obtain ⟨view', hview, hring⟩ := exists_refreshed hvalid hlaid m
      obtain ⟨fresh', hfresh', hring'⟩ := exists_refreshed hvalid hfresh m'
      obtain ⟨others, hlaid'⟩ := hring hactive
      obtain ⟨others', hlaid₁⟩ := hring' hactive'
      let key : GoString := ⟨virtualKey m i, hactive.namesFit i hi⟩
      have hkey : view'.hashRing.getNode hash key = .ok m :=
        hlaid'.responsible_of_owner (owner_concat_of_mem ⟨i, hi, rfl⟩)
      have hkey' : fresh'.hashRing.getNode hash key = .ok m' :=
        hlaid₁.responsible_of_owner (owner_concat_of_mem hp')
      exact Except.ok.inj (hkey.symm.trans ((hagree view' fresh' hview hfresh' key).trans hkey'))
  · rintro ⟨hcovered, hunique⟩ view' fresh' hview hfresh' key
    obtain ⟨last, last', hlaid', hlaid₁, hlast, hlast'⟩ := hrings hview hfresh'
    refine hlaid₁.responsible_eq hlaid' (fun p => ?_) key
    have hsame : owner hash 150 last p = owner hash 150 last' p :=
      owner_eq_of_unique (fun m => (hlast m).trans (hlast' m).symm) fun m hm m' hm' hp hp' =>
        hunique m m' ((hlast m).mp hm) ((hlast m').mp hm') p hp hp'
    rw [owner_append, hsame]
    cases howner : owner hash 150 last' p with
    | some m => rfl
    | none =>
      rw [Option.none_or, owner_eq_none_iff]
      intro m hm hp
      obtain ⟨earlier, hearlier, hactive⟩ := (hadded m).mp hm
      obtain ⟨m', hactive', hp'⟩ := hcovered earlier hearlier m hactive p hp
      exact owner_ne_none ((hlast' m').mpr hactive') hp' howner

/-! ## One node -/

/-- A reply with one node, which is active. -/
def activeReply : GoString := lit "a h:1 active"

/-- The same node, dead. -/
def deadReply : GoString := lit "a h:1 dead"

private theorem activeIn_activeReply (m : GoString) : ActiveIn activeReply m ↔ m = lit "a" := by
  have hkeys : (parseClusterNodes activeReply).2.keys = {lit "a"} := by decide +kernel
  constructor
  · rintro ⟨info, hlookup, -⟩
    have hmem := Finmap.mem_keys.mpr (Finmap.mem_of_lookup_eq_some hlookup)
    rwa [hkeys, Finset.mem_singleton] at hmem
  · rintro rfl
    exact ⟨⟨lit "a", lit "h:1", lit "active"⟩, by decide +kernel, rfl⟩

private theorem activeIn_deadReply (m : GoString) : ¬ ActiveIn deadReply m := by
  have hkeys : (parseClusterNodes deadReply).2.keys = {lit "a"} := by decide +kernel
  have hdead : (parseClusterNodes deadReply).2.lookup (lit "a") =
      some ⟨lit "a", lit "h:1", lit "dead"⟩ := by decide +kernel
  rintro ⟨info, hlookup, hactive⟩
  have hmem := Finmap.mem_keys.mpr (Finmap.mem_of_lookup_eq_some hlookup)
  rw [hkeys, Finset.mem_singleton] at hmem
  subst hmem
  cases hdead.symm.trans hlookup
  exact absurd hactive (by decide)

/-- The same reply again changes nothing. -/
theorem refresh_forgets_iff_twice :
    ∃ view, Refreshed sha256Hash freshView [activeReply] view ∧
      ∀ view' fresh', Refreshed sha256Hash view [activeReply] view' →
        Refreshed sha256Hash freshView [activeReply] fresh' → ∀ key,
          view'.hashRing.getNode sha256Hash key = fresh'.hashRing.getNode sha256Hash key := by
  have hvalid : (parseClusterNodes activeReply).1 = none := by decide +kernel
  have hfresh : LaidOut sha256Hash 150 ∅ [] freshView.hashRing := laidOut_new sha256Hash 150
  obtain ⟨view, hview, -⟩ := exists_refreshed hvalid hfresh (lit "a")
  refine ⟨view, hview, (refresh_forgets_iff sha256Hash [activeReply] view hview activeReply
    hvalid).mpr ⟨fun earlier hearlier m hm p hp => ?_, fun m m' hm hm' p _ _ => ?_⟩⟩
  · obtain rfl := List.mem_singleton.mp hearlier
    exact ⟨m, hm, hp⟩
  · rw [(activeIn_activeReply m).mp hm, (activeIn_activeReply m').mp hm']

/-- A node that is no longer active goes on to get every key. -/
theorem dead_node_gets_keys :
    ∃ view' fresh', Refreshed sha256Hash freshView [activeReply, deadReply] view' ∧
      Refreshed sha256Hash freshView [deadReply] fresh' ∧ ∀ key,
        view'.hashRing.getNode sha256Hash key = .ok (lit "a") ∧
        fresh'.hashRing.getNode sha256Hash key = .error (ascii "hash ring is empty") := by
  have hfresh : LaidOut sha256Hash 150 ∅ [] freshView.hashRing := laidOut_new sha256Hash 150
  have hdead : (parseClusterNodes deadReply).1 = none := by decide +kernel
  have hactive : (parseClusterNodes activeReply).1 = none := by decide +kernel
  obtain ⟨view, hview, -⟩ := exists_refreshed hactive hfresh (lit "a")
  obtain ⟨added, hlaid, -⟩ := hview.laidOut hfresh
  obtain ⟨view', hview', -⟩ := exists_refreshed hdead hlaid (lit "a")
  obtain ⟨fresh', hfresh', -⟩ := exists_refreshed hdead hfresh (lit "a")
  refine ⟨view', fresh', hview.trans hview', hfresh', fun key => ⟨?_, ?_⟩⟩
  · obtain ⟨all, hall, hmem⟩ := (hview.trans hview').laidOut hfresh
    have hsole : ∀ m, m ∈ all ↔ m = lit "a" := by
      intro m
      rw [hmem, List.singleton_append]
      simp [activeIn_activeReply, activeIn_deadReply]
    obtain ⟨m, hm, hkey⟩ := hall.exists_responsible (by decide)
      (List.ne_nil_of_mem ((hsole (lit "a")).mpr rfl)) key
    rw [List.nil_append, hsole] at hm
    exact hm ▸ hkey
  · obtain ⟨all, hall, hmem⟩ := hfresh'.laidOut hfresh
    have hnone : all = [] := by
      rw [List.eq_nil_iff_forall_not_mem]
      intro m hm
      obtain ⟨response, hresponse, hlisted⟩ := (hmem m).mp hm
      rw [List.mem_singleton.mp hresponse] at hlisted
      exact activeIn_deadReply m hlisted
    rw [hnone] at hall
    exact hall.responsible_of_empty key

end GoCache.Spec
