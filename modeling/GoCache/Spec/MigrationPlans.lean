import GoCache.Spec.Ring

/-!
# Migration plans

A plan is a list of tasks, each with a range of hashes that includes its start
and excludes its end. The arc of hashes that a position owns on the ring is open
at its start and includes its end. A plan therefore selects the hash `h` by the
first position strictly behind it, while `GetShard` goes by the first position
from `h` on; the two differ where `h` is itself a position. A plan for a removal
also has no task for a position whose successor belongs to the same shard.

## Key results

- `calculateMigrations_covers`, `calculateMigrationsForRemoval_covers`: which
  hashes a plan selects
- `join_plan_iff`, `removal_plan_iff`: when that is what the ring does
-/

namespace GoCache.Spec

open GoCache.Native Circle BinarySearch

/-- The range of a task is an arc of the circle. -/
theorem hashInRange_iff (h start stop : UInt32) :
    hashInRange h start stop = true ↔ InArc start stop h := by
  unfold hashInRange InArc
  split <;> simp

theorem indexed_of_lt {l : List UInt32} {i : Nat} (hi : i < l.length) : indexed l i = .ok l[i] := by
  simp only [indexed, List.getElem?_eq_getElem hi]

/-- A loop that collects tasks. -/
private theorem foldlM_tasks {f : Nat → Except Panic (Option MigrationTask)} (is : List Nat)
    (acc : List MigrationTask) (h : ∀ i ∈ is, ∃ task, f i = .ok task) :
    ∃ tasks, is.foldlM (fun tasks i => do
        let task ← f i
        return tasks ++ task.toList) acc = .ok tasks ∧
      ∀ task, task ∈ tasks ↔ task ∈ acc ∨ ∃ i ∈ is, f i = .ok (some task) := by
  induction is generalizing acc with
  | nil => exact ⟨acc, rfl, fun task => by simp⟩
  | cons i is ih =>
    obtain ⟨first, hfirst⟩ := h i List.mem_cons_self
    obtain ⟨tasks, hrest, hmem⟩ := ih (acc ++ first.toList)
      fun i hi => h i (List.mem_cons_of_mem _ hi)
    refine ⟨tasks, ?_, fun task => ?_⟩
    · rw [List.foldlM_cons, hfirst]
      exact hrest
    · rw [hmem task, List.mem_append, Option.mem_toList, or_assoc]
      simp only [List.mem_cons, exists_eq_or_imp, hfirst, Except.ok.injEq]

section Plans

variable {hash : Bytes → UInt32} {v : Int64} {shards : Set GoString} {hr : HashRing}
  {members : Finset GoString} {n r : GoString}

/-- Virtual nodes that do not collide are at most as many as there are words, so
    the slice of the tasks can be made. -/
private theorem makeSlice_fits (hc : NoCollision hash v shards) (hn : n ∈ shards) :
    ¬ maxAlloc < migrationTaskSize * vnodeCount v := by
  have hle : vnodeCount v ≤ 2 ^ 32 := by
    let f := fun i => (position hash n i).toNat
    have hsub : (Finset.range (vnodeCount v)).image f ⊆ Finset.range (2 ^ 32) := by
      intro x hx
      obtain ⟨i, _, rfl⟩ := Finset.mem_image.mp hx
      exact Finset.mem_range.mpr (UInt32.toNat_lt _)
    have hcard : ((Finset.range (vnodeCount v)).image f).card = vnodeCount v := by
      rw [Finset.card_image_of_injOn, Finset.card_range]
      intro i hi i' hi' heq
      simp only [Finset.coe_range, Set.mem_Iio] at hi hi'
      exact (hc.position_inj hn hn hi hi' (UInt32.toNat_inj.mp heq)).2
    have hle := Finset.card_le_card hsub
    rw [hcard, Finset.card_range] at hle
    exact hle
  unfold maxAlloc migrationTaskSize
  omega

/-- The position before a point, from the index that the search for the point
    returns, wrapped or not. -/
private theorem prevHash_eq (hl : hr.hashValues.Pairwise (· ≤ ·))
    (hlen : 0 < hr.hashValues.length) (p : UInt32) {idx : Nat}
    (hidx : idx = hr.searchIndex p ∨ (hr.searchIndex p = hr.hashValues.length ∧ idx = 0)) :
    ∃ q, Prev p {x | x ∈ hr.hashValues} q ∧ hr.prevHash idx = .ok q := by
  have hbound : hr.searchIndex p ≤ hr.hashValues.length := by
    apply lowerBound_le hl
    intro a b hab ha
    simp only [decide_eq_true_eq] at *
    exact ha.trans hab
  have hlast : hr.hashValues.length - 1 < hr.hashValues.length := by omega
  unfold HashRing.prevHash
  by_cases hzero : idx = 0
  · rw [if_pos hzero, indexed_of_lt hlast]
    refine ⟨_, prev_getElem hl hlast ?_, rfl⟩
    rcases hidx with heq | ⟨hend, _⟩
    · exact .inl ⟨heq.symm.trans hzero, rfl⟩
    · right
      show hr.hashValues.length - 1 + 1 = hr.searchIndex p
      omega
  · have heq : idx = hr.searchIndex p := hidx.resolve_right fun hwrap => hzero hwrap.2
    have hk : idx - 1 < hr.hashValues.length := by omega
    rw [if_neg hzero, indexed_of_lt hk]
    refine ⟨_, prev_getElem hl hk (.inr ?_), rfl⟩
    show idx - 1 + 1 = hr.searchIndex p
    omega

/-! ## Joining -/

/-- The task for a virtual node of a new node: from the position before it, if that
    is another node's. -/
theorem joinTask_eq (hash : Bytes → UInt32) (hl : hr.hashValues.Pairwise (· ≤ ·))
    (hlen : 0 < hr.hashValues.length) (n : GoString) (i : Nat) :
    ∃ p, Prev (position hash n i) {x | x ∈ hr.hashValues} p ∧
      hr.joinTask hash n i =
        .ok (if hr.shardAt p ≠ n then some ⟨hr.shardAt p, n, lit "*", p, position hash n i⟩
          else none) := by
  have hidx : (if hr.searchIndex (position hash n i) = hr.hashValues.length then 0
        else hr.searchIndex (position hash n i)) = hr.searchIndex (position hash n i) ∨
      (hr.searchIndex (position hash n i) = hr.hashValues.length ∧
        (if hr.searchIndex (position hash n i) = hr.hashValues.length then 0
          else hr.searchIndex (position hash n i)) = 0) := by
    split
    · next hend => exact .inr ⟨hend, rfl⟩
    · exact .inl rfl
  obtain ⟨p, hprev, hindex⟩ := prevHash_eq hl hlen _ hidx
  refine ⟨p, hprev, ?_⟩
  unfold position at hindex
  dsimp only [HashRing.joinTask]
  rw [hindex]
  show (if hr.shardAt p ≠ n then _ else _) = _
  by_cases hother : hr.shardAt p ≠ n
  · rw [if_pos hother, if_pos hother]
    rfl
  · rw [if_neg hother, if_neg hother]
    rfl

/-- A plan selects a hash. -/
def Covers (tasks : List MigrationTask) (h : UInt32) : Prop :=
  ∃ task ∈ tasks, hashInRange h task.startHash task.endHash = true

instance (tasks : List MigrationTask) (h : UInt32) : Decidable (Covers tasks h) :=
  inferInstanceAs (Decidable (∃ task ∈ tasks, _))

theorem not_covers_nil (h : UInt32) : ¬ Covers [] h := by
  rintro ⟨_, hmem, _⟩
  exact List.not_mem_nil hmem

theorem covers_cons {task : MigrationTask} {tasks : List MigrationTask} {h : UInt32} :
    Covers (task :: tasks) h ↔
      hashInRange h task.startHash task.endHash = true ∨ Covers tasks h := by
  simp only [Covers, List.mem_cons, exists_eq_or_imp]

/-- The arcs between a virtual node of the new node and the position before it,
    where that is another node's. -/
def JoinArc (hash : Bytes → UInt32) (hr : HashRing) (n : GoString) (x : UInt32) : Prop :=
  ∃ i < vnodeCount hr.virtualNodes, ∃ p, Prev (position hash n i) {q | q ∈ hr.hashValues} p ∧
    hr.shardAt p ≠ n ∧ InArc p (position hash n i) x

private theorem mem_vnodes (hr : HashRing) (i : Nat) :
    i ∈ hr.vnodes ↔ i < vnodeCount hr.virtualNodes := List.mem_range

/-- The plan for a new node on a ring with positions. -/
private theorem foldlM_joinTask (hash : Bytes → UInt32) (hl : hr.hashValues.Pairwise (· ≤ ·))
    (hlen : 0 < hr.hashValues.length) (n : GoString) :
    ∃ tasks, hr.vnodes.foldlM (fun tasks i => do
        let task ← hr.joinTask hash n i
        return tasks ++ task.toList) [] = .ok tasks ∧
      ∀ x, Covers tasks x ↔ JoinArc hash hr n x := by
  obtain ⟨tasks, hfold, hmem⟩ := foldlM_tasks hr.vnodes [] fun i _ => by
    obtain ⟨p, _, hjoin⟩ := joinTask_eq hash hl hlen n i
    exact ⟨_, hjoin⟩
  refine ⟨tasks, hfold, fun x => ?_⟩
  constructor
  · rintro ⟨task, htasks, hrange⟩
    obtain ⟨i, hi, hjoin⟩ := ((hmem task).mp htasks).resolve_left List.not_mem_nil
    obtain ⟨p, hprev, hjoin'⟩ := joinTask_eq hash hl hlen n i
    rw [hjoin', Except.ok.injEq] at hjoin
    by_cases hother : hr.shardAt p ≠ n
    · rw [if_pos hother, Option.some.injEq] at hjoin
      subst hjoin
      exact ⟨i, (mem_vnodes hr i).mp hi, p, hprev, hother, (hashInRange_iff _ _ _).mp hrange⟩
    · rw [if_neg hother] at hjoin
      exact nomatch hjoin
  · rintro ⟨i, hi, p, hprev, hother, harc⟩
    obtain ⟨p', hprev', hjoin⟩ := joinTask_eq hash hl hlen n i
    obtain rfl := hprev.unique hprev'
    rw [if_pos hother] at hjoin
    exact ⟨_, (hmem _).mpr (.inr ⟨i, (mem_vnodes hr i).mpr hi, hjoin⟩),
      (hashInRange_iff _ _ _).mpr harc⟩

/-- Without positions, there is no position before a virtual node. -/
private theorem joinTask_empty (hash : Bytes → UInt32) (hnil : hr.hashValues = []) (n : GoString)
    (i : Nat) : hr.joinTask hash n i = .error .indexOutOfRange := by
  simp [HashRing.joinTask, HashRing.prevHash, HashRing.searchIndex, indexed, hnil,
    lowerBound, search, loop, bind, Except.bind]

/-- What a plan for a new node selects, on any sorted ring: positions may be shared
    between nodes. -/
theorem calculateMigrations_arcs (hl : hr.hashValues.Pairwise (· ≤ ·)) {n : GoString}
    {tasks : List MigrationTask} (hplan : hr.calculateMigrations hash n = .ok tasks)
    (x : UInt32) : Covers tasks x ↔ JoinArc hash hr n x := by
  unfold HashRing.calculateMigrations at hplan
  split at hplan
  · cases hplan
  rcases Nat.eq_zero_or_pos hr.hashValues.length with hempty | hlen
  · -- without positions, the first virtual node panics
    have hnil := List.length_eq_zero_iff.mp hempty
    cases hvnodes : hr.vnodes with
    | nil =>
      rw [hvnodes] at hplan
      cases hplan
      constructor
      · rintro ⟨task, htask, _⟩
        exact absurd htask List.not_mem_nil
      · rintro ⟨i, _, p, hprev, _⟩
        have hmem : p ∈ hr.hashValues := hprev.mem
        rw [hnil] at hmem
        exact absurd hmem List.not_mem_nil
    | cons i is =>
      simp only [hvnodes, List.foldlM_cons, joinTask_empty hash hnil, bind, Except.bind] at hplan
      cases hplan
  · obtain ⟨tasks', hfold, hcovers⟩ := foldlM_joinTask hash hl hlen n
    obtain rfl : tasks' = tasks := Except.ok.inj (hfold.symm.trans hplan)
    exact hcovers x

/-- On a ring with positions, the plan is made. -/
theorem calculateMigrations_ok (hash : Bytes → UInt32) (hl : hr.hashValues.Pairwise (· ≤ ·))
    (hlen : 0 < hr.hashValues.length) (n : GoString)
    (hmake : ¬ (hr.virtualNodes < 0 ∨
      maxAlloc < migrationTaskSize * hr.virtualNodes.toInt.toNat)) :
    ∃ tasks, hr.calculateMigrations hash n = .ok tasks := by
  obtain ⟨tasks, hfold, _⟩ := foldlM_joinTask hash hl hlen n
  unfold HashRing.calculateMigrations
  rw [if_neg hmake]
  exact ⟨tasks, hfold⟩

/-- On a ring without positions, it panics. -/
theorem calculateMigrations_empty (hash : Bytes → UInt32) (hnil : hr.hashValues = [])
    (hpos : hr.vnodes ≠ []) (n : GoString) (tasks : List MigrationTask) :
    hr.calculateMigrations hash n ≠ .ok tasks := by
  obtain ⟨i, is, hvnodes⟩ := List.exists_cons_of_ne_nil hpos
  unfold HashRing.calculateMigrations
  split
  · exact nofun
  · simp only [hvnodes, List.foldlM_cons, joinTask_empty hash hnil, bind, Except.bind]
    exact nofun

/-- The plan for a new node selects the hashes strictly behind which one of its
    positions comes first. -/
theorem calculateMigrations_covers (h : Represents hash v hr members)
    (hc : NoCollision hash v shards) (hv : 1 ≤ v) (hne : members.Nonempty) (hn : n ∈ shards)
    (hnew : n ∉ members) :
    ∃ tasks, hr.calculateMigrations hash n = .ok tasks ∧ ∀ x q,
      First (x < ·) (positions hash v (insert n members)) q →
        (Covers tasks x ↔ q ∈ shardPositions hash v n) := by
  have hpos := vnodeCount_pos hv
  have hvirtual := h.virtualNodes
  have hmake : ¬ (hr.virtualNodes < 0 ∨
      maxAlloc < migrationTaskSize * hr.virtualNodes.toInt.toNat) := by
    rw [hvirtual]
    rintro (hneg | hbig)
    · have hlt : v.toInt < (0 : Int64).toInt := Int64.lt_iff_toInt_lt.mp hneg
      have hzero : (0 : Int64).toInt = 0 := by decide
      unfold vnodeCount at hpos
      omega
    · exact makeSlice_fits hc hn hbig
  obtain ⟨tasks, hfold, hcovers⟩ := foldlM_joinTask hash (h.sorted.imp le_of_lt)
    ((h.length_pos_iff hpos).mpr hne) n
  refine ⟨tasks, ?_, fun x q hq => ?_⟩
  · rw [HashRing.calculateMigrations, if_neg hmake]
    exact hfold
  · rw [positions_insert] at hq
    rw [hcovers, ← exists_first_union_iff hq]
    unfold JoinArc
    rw [h.setOf_hashValues, hvirtual]
    constructor
    · rintro ⟨i, hi, p, hprev, _, harc⟩
      exact ⟨position hash n i, ⟨i, hi, rfl⟩, (inArc_iff hprev).mp harc⟩
    · rintro ⟨w, ⟨i, hi, rfl⟩, hfirst⟩
      obtain ⟨p, hprev, _⟩ := joinTask_eq hash (h.sorted.imp le_of_lt)
        ((h.length_pos_iff hpos).mpr hne) n i
      rw [h.setOf_hashValues] at hprev
      obtain ⟨m, hm, hp⟩ := hprev.mem
      refine ⟨i, hi, p, hprev, ?_, (inArc_iff hprev).mpr hfirst⟩
      rw [h.shardAt hm hp]
      rintro rfl
      exact hnew hm

/-- A hash that is a position belongs to the shard of that position. -/
theorem owns_iff_of_mem {x : UInt32} {m : GoString} (hx : x ∈ positions hash v members) :
    Owns hash v members x m ↔ m ∈ members ∧ x ∈ shardPositions hash v m := by
  constructor
  · rintro ⟨hm, p, hp, hfirst⟩
    obtain rfl := hfirst.unique (first_self hx)
    exact ⟨hm, hp⟩
  · rintro ⟨hm, hp⟩
    exact ⟨hm, x, hp, first_self hx⟩

/-- Any other hash belongs to the shard of the first position behind it. -/
theorem owns_iff_of_notMem {x q : UInt32} {m : GoString} (hx : x ∉ positions hash v members)
    (hq : First (x < ·) (positions hash v members) q) :
    Owns hash v members x m ↔ m ∈ members ∧ q ∈ shardPositions hash v m := by
  rw [first_lt_iff hx] at hq
  constructor
  · rintro ⟨hm, p, hp, hfirst⟩
    obtain rfl := hfirst.unique hq
    exact ⟨hm, hp⟩
  · rintro ⟨hm, hp⟩
    exact ⟨hm, q, hp, hq⟩

/-- Behind every point some position of a ring with members comes first. -/
theorem Represents.exists_first (h : Represents hash v hr members) (hv : 0 < vnodeCount v)
    (hne : members.Nonempty) (x : UInt32) :
    ∃ q, First (x < ·) (positions hash v members) q := by
  rw [← h.setOf_hashValues]
  apply Circle.exists_first (h.sorted.imp le_of_lt) ((h.length_pos_iff hv).mpr hne)
  intro a b hab ha
  exact lt_of_lt_of_le ha hab

/-- A key changes hands exactly if the new shard gets it. -/
private theorem moves_iff (h : Reachable hash v shards hr members)
    (hc : NoCollision hash v shards) (hv : 1 ≤ v) (hn : n ∈ shards) (hnew : n ∉ members)
    (key : GoString) :
    hr.getShard hash key ≠ (hr.addShard hash n).getShard hash key ↔
      Owns hash v (insert n members) (hash key.bytes) n := by
  have hpos := vnodeCount_pos hv
  obtain ⟨hrep, hsub⟩ := h.represents hc
  obtain ⟨hrep', hsub'⟩ := (h.add hn hnew).represents hc
  rw [← hrep'.responsible_iff hc hsub' hpos]
  constructor
  · intro hmoved
    obtain ⟨m, ho, hlookup⟩ := hrep'.exists_owner hpos (Finset.insert_nonempty n members) key
    rcases ho.of_insert with rfl | ho
    · exact hlookup
    · refine absurd ?_ hmoved
      exact ((hrep.responsible_iff hc hsub hpos key).mpr ho).trans hlookup.symm
  · intro hlookup heq
    have ho := (hrep.responsible_iff hc hsub hpos key).mp (heq.trans hlookup)
    exact hnew ho.1

end Plans

/-- Where the plan for a new node goes by the same position as the ring does: the
    hash is no position of the ring with the new node, or that position and the
    one behind it are both the new node's, or both not. -/
def JoinFits (hash : Bytes → UInt32) (v : Int64) (members : Finset GoString) (n : GoString)
    (x : UInt32) : Prop :=
  x ∈ positions hash v (insert n members) →
    ∀ q, First (x < ·) (positions hash v (insert n members)) q →
      (x ∈ shardPositions hash v n ↔ q ∈ shardPositions hash v n)

/-- For every ring with members, every absent node and every key, the plan for
    the node selects the key exactly if it changes hands, if and only if the key's
    hash is no position of the ring with the new node, or that position and the
    one behind it are both the new node's, or both not. -/
theorem join_plan_iff (hash : Bytes → UInt32) (v : Int64) (hv : 1 ≤ v) (shards : Set GoString)
    (hc : NoCollision hash v shards) (hr : HashRing) (members : Finset GoString)
    (h : Reachable hash v shards hr members) (hne : members.Nonempty) (n : GoString)
    (hn : n ∈ shards) (hnew : n ∉ members) (key : GoString) :
    ∃ tasks, hr.calculateMigrations hash n = .ok tasks ∧
      ((Covers tasks (hash key.bytes) ↔
          hr.getShard hash key ≠ (hr.addShard hash n).getShard hash key) ↔
        JoinFits hash v members n (hash key.bytes)) := by
  obtain ⟨hrep, _⟩ := h.represents hc
  obtain ⟨hrep', _⟩ := (h.add hn hnew).represents hc
  obtain ⟨q, hq⟩ := hrep'.exists_first (vnodeCount_pos hv) (Finset.insert_nonempty n members)
    (hash key.bytes)
  obtain ⟨tasks, hplan, hcovers⟩ := calculateMigrations_covers hrep hc hv hne hn hnew
  refine ⟨tasks, hplan, ?_⟩
  rw [hcovers _ q hq, moves_iff h hc hv hn hnew]
  have hmem : n ∈ insert n members := Finset.mem_insert_self n members
  by_cases hx : hash key.bytes ∈ positions hash v (insert n members)
  · rw [owns_iff_of_mem hx, and_iff_right hmem]
    constructor
    · intro hiff _ q' hq'
      rw [hq'.unique hq]
      exact hiff.symm
    · intro hfits
      exact (hfits hx q hq).symm
  · -- no position at the hash: both go by the first one behind it
    rw [owns_iff_of_notMem hx hq, and_iff_right hmem]
    exact ⟨fun _ hx' => absurd hx' hx, fun _ => Iff.rfl⟩

/-- A key that is no position, when the second of two shards joins. -/
theorem join_plan_iff_second :
    ∃ tasks, ((HashRing.new 1).addShard sha256Hash (lit "a")).calculateMigrations sha256Hash
        (lit "b") = .ok tasks ∧
      (Covers tasks (sha256Hash (lit "k").bytes) ↔
        ((HashRing.new 1).addShard sha256Hash (lit "a")).getShard sha256Hash (lit "k") ≠
          (((HashRing.new 1).addShard sha256Hash (lit "a")).addShard sha256Hash
            (lit "b")).getShard sha256Hash (lit "k")) := by
  have hfirst : Reachable sha256Hash 1 {m | m ∈ [lit "a", lit "b"]}
      ((HashRing.new 1).addShard sha256Hash (lit "a")) {lit "a"} :=
    Reachable.add .refl (by decide) (Finset.notMem_empty _)
  obtain ⟨tasks, hplan, hiff⟩ := join_plan_iff sha256Hash 1 (by decide) _ noCollision_two _ _
    hfirst ⟨lit "a", by decide⟩ (lit "b") (by decide) (by decide) (lit "k")
  refine ⟨tasks, hplan, hiff.mpr fun hx => absurd hx ?_⟩
  have hsecond := reachable_two (lit "a") (lit "b") (by decide) (by decide) (by decide)
  rw [← (hsecond.represents noCollision_two).1.mem_iff]
  decide +kernel

/-- A key whose hash is a position of the joining shard changes hands, but no task
    selects it. -/
theorem join_plan_misses_position :
    (((HashRing.new 1).addShard sha256Hash (lit "a")).calculateMigrations sha256Hash
        (lit "b")).map (fun tasks => decide (Covers tasks (sha256Hash (lit "b-0").bytes))) =
      .ok false ∧
    ((HashRing.new 1).addShard sha256Hash (lit "a")).getShard sha256Hash (lit "b-0") =
      .ok (lit "a") ∧
    (((HashRing.new 1).addShard sha256Hash (lit "a")).addShard sha256Hash (lit "b")).getShard
      sha256Hash (lit "b-0") = .ok (lit "b") := by
  decide +kernel

/-! ## Leaving -/

section Leaving

variable {hash : Bytes → UInt32} {v : Int64} {shards : Set GoString} {hr : HashRing}
  {members : Finset GoString} {r : GoString}

/-- The task for a virtual node of a leaving node: from the position before it, to
    the member of the next position, unless that is the leaving node. -/
private theorem removalTask_eq (h : Represents hash v hr members) (hr' : r ∈ members) {i : Nat}
    (hi : i < vnodeCount v) :
    ∃ p q m, Prev (position hash r i) (positions hash v members) p ∧
      First (position hash r i < ·) (positions hash v members) q ∧
      m ∈ members ∧ q ∈ shardPositions hash v m ∧
      hr.removalTask hash r i =
        .ok (if m ≠ r then some ⟨r, m, lit "*", p, position hash r i⟩ else none) := by
  have hmem := (h.mem_iff (position hash r i)).mpr ⟨r, hr', i, hi, rfl⟩
  obtain ⟨j, hj, hat⟩ := List.mem_iff_getElem.mp hmem
  have hindex : hr.searchIndex (position hash r i) = j := by
    rw [← hat]
    exact lowerBound_getElem h.sorted hj
  have hk : (j + 1) % hr.hashValues.length < hr.hashValues.length := Nat.mod_lt _ (by omega)
  have hnext := first_lt_getElem h.sorted hj hk rfl
  rw [hat, h.setOf_hashValues] at hnext
  obtain ⟨p, hprev, hbefore⟩ := prevHash_eq (h.sorted.imp le_of_lt) (by omega)
    (position hash r i) (.inl hindex.symm)
  rw [h.setOf_hashValues] at hprev
  obtain ⟨m, hm, hq⟩ := hnext.mem
  refine ⟨p, _, m, hprev, hnext, hm, hq, ?_⟩
  unfold position at hindex
  dsimp only [HashRing.removalTask]
  rw [hindex, indexed_of_lt hk]
  show (if hr.shardAt _ ≠ r then _ else _) = _
  rw [h.shardAt hm hq]
  by_cases hne : m ≠ r
  · rw [if_pos hne, if_pos hne, hbefore]
    rfl
  · rw [if_neg hne, if_neg hne]
    rfl

/-- The plan for a leaving node is made, a member or not. -/
theorem calculateMigrationsForRemoval_ok (hash : Bytes → UInt32)
    (hl : hr.hashValues.Pairwise (· ≤ ·)) (r : GoString) :
    ∃ tasks, hr.calculateMigrationsForRemoval hash r = .ok tasks := by
  unfold HashRing.calculateMigrationsForRemoval
  split
  · exact ⟨[], rfl⟩
  · next hne =>
    have hlen : 0 < hr.hashValues.length := Nat.pos_of_ne_zero hne
    obtain ⟨tasks, hfold, _⟩ := foldlM_tasks hr.vnodes []
      (f := hr.removalTask hash r) fun i _ => by
        obtain ⟨p, _, hbefore⟩ := prevHash_eq hl hlen (hash (virtualKey r i)) (.inl rfl)
        dsimp only [HashRing.removalTask]
        rw [indexed_of_lt (Nat.mod_lt _ hlen), hbefore]
        dsimp only [bind, Except.bind]
        split <;> exact ⟨_, rfl⟩
    exact ⟨tasks, hfold⟩

/-- The plan for a leaving node has a task for a hash exactly if one of its
    positions comes first strictly behind the hash, and the next position is
    another member's; the task then names that member. -/
theorem calculateMigrationsForRemoval_covers (h : Represents hash v hr members)
    (hv : 0 < vnodeCount v) (hr' : r ∈ members) :
    ∃ tasks, hr.calculateMigrationsForRemoval hash r = .ok tasks ∧ ∀ x q q' m,
      First (x < ·) (positions hash v members) q → First (q < ·) (positions hash v members) q' →
        hr.shardAt q' = m → ∀ node,
        ((∃ task ∈ tasks, hashInRange x task.startHash task.endHash = true ∧ task.toNode = node) ↔
          q ∈ shardPositions hash v r ∧ m ≠ r ∧ node = m) := by
  have hvnodes : ∀ i, i ∈ hr.vnodes ↔ i < vnodeCount v := by
    intro i
    rw [HashRing.vnodes, List.mem_range, h.virtualNodes]
    rfl
  obtain ⟨tasks, hfold, hmem⟩ := foldlM_tasks hr.vnodes [] fun i hi => by
    obtain ⟨p, q, m, _, _, _, _, htask⟩ := removalTask_eq h hr' ((hvnodes i).mp hi)
    exact ⟨_, htask⟩
  refine ⟨tasks, ?_, fun x q q' m hq hq' hm node => ?_⟩
  · have hlen := (h.length_pos_iff hv).mpr ⟨r, hr'⟩
    rw [HashRing.calculateMigrationsForRemoval, if_neg (by omega)]
    exact hfold
  -- the range of a task holds the hashes behind which its position comes first
  have harc : ∀ i < vnodeCount v, ∀ p, Prev (position hash r i) (positions hash v members) p →
      (hashInRange x p (position hash r i) = true ↔
        First (x < ·) (positions hash v members) (position hash r i)) := by
    intro i hi p hprev
    have hat : position hash r i ∈ positions hash v members := ⟨r, hr', i, hi, rfl⟩
    rw [hashInRange_iff, inArc_iff hprev, Set.insert_eq_of_mem hat]
  constructor
  · rintro ⟨task, htasks, hrange, rfl⟩
    obtain ⟨i, hi, htask⟩ := ((hmem task).mp htasks).resolve_left List.not_mem_nil
    have hi := (hvnodes i).mp hi
    obtain ⟨p, next, m', hprev, hnext, hm', hat, htask'⟩ := removalTask_eq h hr' hi
    rw [htask', Except.ok.injEq] at htask
    by_cases hne : m' ≠ r
    · rw [if_pos hne, Option.some.injEq] at htask
      subst htask
      obtain rfl := hq.unique ((harc i hi p hprev).mp hrange)
      obtain rfl := hq'.unique hnext
      rw [h.shardAt hm' hat] at hm
      exact ⟨⟨i, hi, rfl⟩, hm ▸ hne, hm⟩
    · rw [if_neg hne] at htask
      exact nomatch htask
  · rintro ⟨⟨i, hi, rfl⟩, hne, rfl⟩
    obtain ⟨p, next, m', hprev, hnext, hm', hat, htask⟩ := removalTask_eq h hr' hi
    obtain rfl := hq'.unique hnext
    obtain rfl := (h.shardAt hm' hat).symm.trans hm
    rw [if_pos hne] at htask
    exact ⟨_, (hmem _).mpr (.inr ⟨i, (hvnodes i).mpr hi, htask⟩), (harc i hi p hprev).mpr hq, rfl⟩

/-- A hash of the leaving node whose task names the next member: that member has it
    when the node is gone. -/
private theorem owns_after_removal {x q q' : UInt32} {m : GoString} (hc : NoCollision hash v shards)
    (hsub : ∀ m ∈ members, m ∈ shards) (hr' : r ∈ members)
    (hq : First (x < ·) (positions hash v members) q)
    (hq' : First (q < ·) (positions hash v members) q') (hown : Owns hash v members x r)
    (hqr : q ∈ shardPositions hash v r) (hm : m ∈ members) (hne : m ≠ r)
    (hat : q' ∈ shardPositions hash v m) : Owns hash v (members.erase r) x m := by
  have hgone : ∀ p ∈ shardPositions hash v r, p ∉ positions hash v (members.erase r) := by
    rintro p hp ⟨m', hm', hp'⟩
    obtain ⟨hne', hm'⟩ := Finset.mem_erase.mp hm'
    exact hne' (hc.owner_unique (hsub m' hm') (hsub r hr') hp' hp)
  have hstay : q' ∈ positions hash v (members.erase r) :=
    ⟨m, Finset.mem_erase.mpr ⟨hne, hm⟩, hat⟩
  have hother : q' ≠ q := fun heq => hgone q hqr (heq ▸ hstay)
  have hfirst : First (x < ·) (positions hash v (members.erase r)) q' := by
    apply (hq.next hq' hother).of_subset _ hstay
    intro p hp
    refine ⟨positions_mono (Finset.erase_subset r members) hp, ?_⟩
    rintro rfl
    exact hgone p hqr hp
  have hx : x ∉ positions hash v (members.erase r) := by
    intro hx
    have hx' := positions_mono (Finset.erase_subset r members) hx
    exact hgone x ((owns_iff_of_mem hx').mp hown).2 hx
  rw [owns_iff_of_notMem hx hfirst]
  exact ⟨Finset.mem_erase.mpr ⟨hne, hm⟩, hat⟩

end Leaving

/-- Where the plan for a leaving node goes by the same position as the ring does,
    and does not skip it. Behind the hash come the positions `q` and then `q'`. A
    hash that is a position must be the node's own exactly if `q` is and `q'` is
    not; behind any other hash no two positions of the node may come first. -/
def RemovalFits (hash : Bytes → UInt32) (v : Int64) (members : Finset GoString) (r : GoString)
    (x : UInt32) : Prop :=
  ∀ q q', First (x < ·) (positions hash v members) q →
    First (q < ·) (positions hash v members) q' →
      (x ∈ positions hash v members → (x ∈ shardPositions hash v r ↔
        q ∈ shardPositions hash v r ∧ q' ∉ shardPositions hash v r)) ∧
      (x ∉ positions hash v members →
        ¬ (q ∈ shardPositions hash v r ∧ q' ∈ shardPositions hash v r))

section Leaving

variable {hash : Bytes → UInt32} {v : Int64} {shards : Set GoString} {hr : HashRing}
  {members : Finset GoString} {r : GoString}

/-- The plan selects the hashes of the leaving node where it fits. -/
private theorem owns_iff_selected_iff {x q q' : UInt32} (hr' : r ∈ members)
    (hq : First (x < ·) (positions hash v members) q)
    (hq' : First (q < ·) (positions hash v members) q') :
    (Owns hash v members x r ↔ q ∈ shardPositions hash v r ∧ q' ∉ shardPositions hash v r) ↔
      RemovalFits hash v members r x := by
  have hfits : RemovalFits hash v members r x ↔
      (x ∈ positions hash v members → (x ∈ shardPositions hash v r ↔
        q ∈ shardPositions hash v r ∧ q' ∉ shardPositions hash v r)) ∧
      (x ∉ positions hash v members →
        ¬ (q ∈ shardPositions hash v r ∧ q' ∈ shardPositions hash v r)) := by
    constructor
    · intro hall
      exact hall q q' hq hq'
    · intro hthis p p' hp hp'
      obtain rfl := hq.unique hp
      obtain rfl := hq'.unique hp'
      exact hthis
  rw [hfits]
  by_cases hx : x ∈ positions hash v members
  · rw [owns_iff_of_mem hx]
    simp only [hr', hx, true_and, true_implies, not_true, false_implies, and_true]
  · rw [owns_iff_of_notMem hx hq]
    simp only [hr', hx, true_and, true_implies, not_false_iff, false_implies]
    tauto

end Leaving

/-- For every ring with the leaving node and every key: the plan has a task for the
    key if the node owns it, every such task names the key's owner after the
    removal, and there is none for a key of another node, if and only if the first
    positions behind the key's hash are as `RemovalFits` says. -/
theorem removal_plan_iff (hash : Bytes → UInt32) (v : Int64) (hv : 1 ≤ v) (shards : Set GoString)
    (hc : NoCollision hash v shards) (hr : HashRing) (members : Finset GoString)
    (h : Reachable hash v shards hr members) (r : GoString) (hr' : r ∈ members)
    (key : GoString) :
    ∃ tasks, hr.calculateMigrationsForRemoval hash r = .ok tasks ∧
      (((hr.getShard hash key = .ok r → Covers tasks (hash key.bytes) ∧
          ∀ task ∈ tasks, hashInRange (hash key.bytes) task.startHash task.endHash = true →
            (hr.removeShard hash r).getShard hash key = .ok task.toNode) ∧
        (hr.getShard hash key ≠ .ok r → ¬ Covers tasks (hash key.bytes))) ↔
      RemovalFits hash v members r (hash key.bytes)) := by
  have hpos := vnodeCount_pos hv
  obtain ⟨hrep, hsub⟩ := h.represents hc
  obtain ⟨hrep', hsub'⟩ := (h.remove (hsub r hr') hr').represents hc
  obtain ⟨q, hq⟩ := hrep.exists_first hpos ⟨r, hr'⟩ (hash key.bytes)
  obtain ⟨q', hq'⟩ := hrep.exists_first hpos ⟨r, hr'⟩ q
  obtain ⟨m, hm, hat⟩ := hq'.mem
  obtain ⟨tasks, hplan, hcovers⟩ := calculateMigrationsForRemoval_covers hrep hpos hr'
  have hcovers := hcovers _ q q' m hq hq' (hrep.shardAt hm hat)
  refine ⟨tasks, hplan, ?_⟩
  have hother : m ≠ r ↔ q' ∉ shardPositions hash v r := by
    constructor
    · intro hne hat'
      exact hne (hc.owner_unique (hsub m hm) (hsub r hr') hat hat')
    · rintro hnot rfl
      exact hnot hat
  have hselected : Covers tasks (hash key.bytes) ↔
      q ∈ shardPositions hash v r ∧ q' ∉ shardPositions hash v r := by
    rw [← hother]
    constructor
    · rintro ⟨task, htask, hrange⟩
      obtain ⟨hqr, hne, _⟩ := (hcovers task.toNode).mp ⟨task, htask, hrange, rfl⟩
      exact ⟨hqr, hne⟩
    · rintro ⟨hqr, hne⟩
      obtain ⟨task, htask, hrange, _⟩ := (hcovers m).mpr ⟨hqr, hne, rfl⟩
      exact ⟨task, htask, hrange⟩
  rw [← owns_iff_selected_iff hr' hq hq', ← hselected, ← hrep.responsible_iff hc hsub hpos]
  constructor
  · rintro ⟨hown, hnot⟩
    refine ⟨fun hkey => (hown hkey).1, fun hcov => ?_⟩
    by_contra hkey
    exact hnot hkey hcov
  · intro hiff
    refine ⟨fun hkey => ⟨hiff.mp hkey, fun task htask hrange => ?_⟩,
      fun hkey hcov => hkey (hiff.mpr hcov)⟩
    -- the member the task names is the one behind the position that goes
    obtain ⟨hqr, hne, hnode⟩ := (hcovers task.toNode).mp ⟨task, htask, hrange, rfl⟩
    have hown := (hrep.responsible_iff hc hsub hpos key).mp hkey
    rw [hnode]
    exact (hrep'.responsible_iff hc hsub' hpos key).mpr
      (owns_after_removal hc hsub hr' hq hq' hown hqr hm hne hat)

/-- A key that is no position, when the second of two shards leaves: each shard has
    one position, so no two of one shard follow each other. -/
theorem removal_plan_iff_second :
    ∃ tasks, (((HashRing.new 1).addShard sha256Hash (lit "a")).addShard sha256Hash
        (lit "b")).calculateMigrationsForRemoval sha256Hash (lit "b") = .ok tasks ∧
      Covers tasks (sha256Hash (lit "k").bytes) := by
  have h := reachable_two (lit "a") (lit "b") (by decide) (by decide) (by decide)
  have hmem := (h.represents noCollision_two).1.mem_iff
  obtain ⟨tasks, hplan, hiff⟩ := removal_plan_iff sha256Hash 1 (by decide) _ noCollision_two _ _
    h (lit "b") (by decide) (lit "k")
  refine ⟨tasks, hplan, ((hiff.mpr fun q q' hq hq' => ⟨fun hx => ?_, fun _ => ?_⟩).1 ?_).1⟩
  · refine absurd hx ?_
    rw [← hmem]
    decide +kernel
  · rintro ⟨⟨i, hi, rfl⟩, ⟨i', hi', rfl⟩⟩
    obtain rfl : i = 0 := by simpa [vnodeCount] using hi
    obtain rfl : i' = 0 := by simpa [vnodeCount] using hi'
    have hahead := hq'.ahead (position sha256Hash (lit "a") 0) ⟨lit "a", by decide, 0, hi, rfl⟩
    revert hahead
    unfold Ahead
    decide +kernel
  · decide +kernel

/-- Two positions of a leaving shard follow each other, so the keys of the first
    one are in no task. -/
theorem removal_plan_skips_adjacent :
    (((HashRing.new 2).addShard sha256Hash (lit "a")).addShard sha256Hash (lit "c")).getShard
      sha256Hash (lit "k") = .ok (lit "c") ∧
    ((((HashRing.new 2).addShard sha256Hash (lit "a")).addShard sha256Hash
        (lit "c")).calculateMigrationsForRemoval sha256Hash (lit "c")).map
      (fun tasks => decide (Covers tasks (sha256Hash (lit "k").bytes))) = .ok false := by
  decide +kernel

end GoCache.Spec
