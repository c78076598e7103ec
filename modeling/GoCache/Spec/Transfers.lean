import GoCache.Native.Migrator

/-!
# What a migration does to the network

A migration opens connections and sends `SET` and `GET` on them. What these steps
keep of the other nodes, every migration keeps, whether or not it succeeds. A transfer in
batches that returns nil is a single loop over all its keys that has had `OK` for each.

## Key results

- `Keeps`: the condition on the single steps
- `migrateToNewNode_keeps`, `migrateFromLeavingNode_keeps`
- `transferKeysBatch_eq_none`: the batches make no difference
- `transferLoop_cons_complete`: a loop in which no key fails
-/

namespace GoCache.Spec

open GoCache.Native

/-- Connections to an address that are opened, and a `GET` on one that is idle, keep a
    relation between the states of the network, and leave the connection idle. -/
structure KeepsReading {ω : Type} (net : Network ω) (addr : GoString) (idle : ω → Prop)
    (r : ω → ω → Prop) : Prop where
  refl : ∀ w, r w w
  trans : ∀ {w₁ w₂ w₃}, r w₁ w₂ → r w₂ w₃ → r w₁ w₃
  dial : ∀ {w w'}, net.dial w addr = .ok w' → r w w' ∧ idle w'
  get : ∀ {w k answer w'}, idle w →
    net.write w addr (encodeArray [.str (lit "GET"), .str k]) = .ok (answer, w') →
      r w w' ∧ idle w'

/-- So does a `SET`. -/
structure Keeps {ω : Type} (net : Network ω) (addr : GoString) (idle : ω → Prop)
    (r : ω → ω → Prop) : Prop extends KeepsReading net addr idle r where
  set : ∀ {w k v answer w'}, idle w →
    net.write w addr (encodeArray [.str (lit "SET"), .str k, .str v]) = .ok (answer, w') →
      r w w' ∧ idle w'

section Transfer

variable {ω : Type} {net : Network ω} {addr : GoString} {idle : ω → Prop} {r : ω → ω → Prop}
  {conn conn' : Connection ω} {w w' : ω}

private theorem exchange_keeps (h : Keeps net addr idle r) (hidle : idle conn.world) {cmd : Bytes}
    {result : Except Bytes Value}
    (hcmd : ∀ {w answer w'}, idle w → net.write w addr cmd = .ok (answer, w') →
      r w w' ∧ idle w')
    (hx : exchange net addr conn cmd = .ok (result, conn')) :
    r conn.world conn'.world ∧ idle conn'.world := by
  unfold exchange at hx
  split at hx
  · cases hx
    exact ⟨h.refl _, hidle⟩
  · next answer world hwrite =>
    have hkept := hcmd hidle hwrite
    split at hx
    · cases hx
      exact hkept
    · cases hx
      exact hkept
    · exact nomatch hx

theorem transferLoop_keeps (h : Keeps net addr idle r)
    (values : Finmap fun _ : GoString => GoString) (keys : List GoString)
    {failCount failCount' : Nat} (hidle : idle conn.world)
    (hl : transferLoop net addr values keys failCount conn = .ok (failCount', conn')) :
    r conn.world conn'.world ∧ idle conn'.world := by
  induction keys generalizing failCount conn with
  | nil =>
    cases hl
    exact ⟨h.refl _, hidle⟩
  | cons key keys ih =>
    obtain ⟨⟨result, conn₁⟩, hx, hl⟩ := bind_eq_ok.mp hl
    obtain ⟨hfirst, hidle₁⟩ := exchange_keeps h hidle h.set hx
    cases result with
    | error text =>
      obtain ⟨hrest, hidle'⟩ := ih hidle₁ hl
      exact ⟨h.trans hfirst hrest, hidle'⟩
    | ok response =>
      obtain ⟨hrest, hidle'⟩ := ih hidle₁ hl
      exact ⟨h.trans hfirst hrest, hidle'⟩

private theorem transferKeysOnConnection_keeps (h : Keeps net addr idle r)
    {values : Finmap fun _ : GoString => GoString} {keys : List GoString} {err : Option Bytes}
    (hidle : idle conn.world)
    (ht : transferKeysOnConnection net addr conn keys values = .ok (err, conn')) :
    r conn.world conn'.world ∧ idle conn'.world := by
  obtain ⟨⟨failCount, conn₁⟩, hl, ht⟩ := bind_eq_ok.mp ht
  have hkept := transferLoop_keeps h values keys hidle hl
  dsimp only at ht
  split at ht
  · cases ht
    exact hkept
  · cases ht
    exact hkept

private theorem batchLoop_keeps (h : Keeps net addr idle r)
    (keysOf : Nat → Except Panic (List GoString)) (values : Finmap fun _ : GoString => GoString)
    (batches : Nat) {i : Nat} {err : Option Bytes} (hidle : idle conn.world)
    (hb : batchLoop net addr keysOf values batches i conn = .ok (err, conn')) :
    r conn.world conn'.world := by
  induction batches generalizing i conn with
  | zero =>
    cases hb
    exact h.refl _
  | succ batches ih =>
    obtain ⟨batchKeys, -, hb⟩ := bind_eq_ok.mp hb
    obtain ⟨⟨err₁, conn₁⟩, ht, hb⟩ := bind_eq_ok.mp hb
    obtain ⟨hfirst, hidle₁⟩ := transferKeysOnConnection_keeps h hidle ht
    cases err₁ with
    | some text =>
      cases hb
      exact hfirst
    | none => exact h.trans hfirst (ih hidle₁ hb)

theorem transferKeysBatch_keeps (h : Keeps net addr idle r) {keys : List GoString}
    {values : Finmap fun _ : GoString => GoString} {batchSize : Nat} {err : Option Bytes}
    (ht : transferKeysBatch net addr w keys values batchSize = .ok (err, w')) : r w w' := by
  unfold transferKeysBatch transferBatches at ht
  split at ht
  · cases ht
    exact h.refl w
  · next w₁ hdial =>
    obtain ⟨hopened, hidle⟩ := h.dial hdial
    obtain ⟨⟨err₁, conn₁⟩, hb, hret⟩ := bind_eq_ok.mp ht
    cases hret
    exact h.trans hopened (batchLoop_keeps h _ values _ hidle hb)

private theorem verifyLoop_keeps (h : KeepsReading net addr idle r) (keys : List GoString)
    {err : Option Bytes} (hidle : idle conn.world)
    (hv : verifyLoop net addr keys conn = .ok (err, conn')) : r conn.world conn'.world := by
  induction keys generalizing conn with
  | nil =>
    cases hv
    exact h.refl _
  | cons key keys ih =>
    rw [verifyLoop] at hv
    split at hv
    · cases hv
      exact h.refl _
    · next answer world hwrite =>
      obtain ⟨hfirst, hidle₁⟩ := h.get hidle hwrite
      split at hv
      · exact h.trans hfirst (ih hidle₁ hv)
      · cases hv
        exact hfirst
      · exact nomatch hv

theorem verifyTransfer_keeps (h : KeepsReading net addr idle r) {keys : List GoString}
    {err : Option Bytes} (hv : verifyTransfer net addr w keys = .ok (err, w')) : r w w' := by
  unfold verifyTransfer at hv
  split at hv
  · cases hv
    exact h.refl w
  · next w₁ hdial =>
    obtain ⟨hopened, hidle⟩ := h.dial hdial
    obtain ⟨⟨err₁, conn₁⟩, hl, hret⟩ := bind_eq_ok.mp hv
    cases hret
    exact h.trans hopened (verifyLoop_keeps h keys hidle hl)

end Transfer

/-! ## Transfers without an error -/

section Complete

variable {ω : Type} {net : Network ω} {addr : GoString}
  {values : Finmap fun _ : GoString => GoString} {keys : List GoString} {failCount n : Nat}
  {conn conn' : Connection ω}

private theorem isOKResponse_iff (v : Value) : isOKResponse v = true ↔ v = .str (lit "OK") := by
  cases v <;> simp [isOKResponse]

/-- Failures are only added. -/
private theorem failCount_le
    (h : transferLoop net addr values keys failCount conn = .ok (n, conn')) : failCount ≤ n := by
  induction keys generalizing failCount conn with
  | nil =>
    cases h
    exact le_rfl
  | cons key keys ih =>
    obtain ⟨⟨result, conn₁⟩, _, h⟩ := bind_eq_ok.mp h
    cases result with
    | error text => exact Nat.le_of_succ_le (ih h)
    | ok response =>
      have hle := ih h
      split at hle <;> omega

/-- In a loop in which no key fails, the first one is answered with `OK`, and none of the others
    fails. -/
theorem transferLoop_cons_complete {key : GoString}
    (h : transferLoop net addr values (key :: keys) failCount conn = .ok (failCount, conn')) :
    ∃ answer w₁ rest,
      net.write conn.world addr (encodeArray [.str (lit "SET"), .str key,
        .str (valueOf values key)]) = .ok (answer, w₁) ∧
      parse (conn.unread ++ answer) = .ok (.str (lit "OK")) rest ∧
      transferLoop net addr values keys failCount ⟨w₁, rest⟩ = .ok (failCount, conn') := by
  obtain ⟨⟨result, conn₁⟩, hx, h⟩ := bind_eq_ok.mp h
  cases result with
  | error text =>
    have hle := failCount_le h
    omega
  | ok response =>
    have hok : isOKResponse response = true := by
      by_contra hnot
      have hle := failCount_le h
      rw [if_neg hnot] at hle
      omega
    dsimp only at h
    rw [if_pos hok] at h
    obtain rfl := (isOKResponse_iff response).mp hok
    unfold exchange at hx
    split at hx
    · cases hx
    · next answer w₁ hwrite =>
      split at hx
      · next hparse =>
        cases hx
        exact ⟨answer, w₁, _, hwrite, hparse, h⟩
      · cases hx
      · cases hx

/-- One loop behind the other. -/
private theorem transferLoop_append (keys keys' : List GoString) (failCount : Nat)
    (conn : Connection ω) :
    transferLoop net addr values (keys ++ keys') failCount conn =
      transferLoop net addr values keys failCount conn >>= fun r =>
        transferLoop net addr values keys' r.1 r.2 := by
  induction keys generalizing failCount conn with
  | nil => rfl
  | cons key keys ih =>
    rw [List.cons_append, transferLoop, transferLoop, bind_assoc]
    congr 1
    funext ⟨result, conn₁⟩
    cases result <;> exact ih ..

/-- The values of a batch are those of the whole. -/
private theorem valueOf_batch (values acc : Finmap fun _ : GoString => GoString)
    (keys : List GoString) {k : GoString}
    (hk : k ∈ keys ∨ acc.lookup k = some (valueOf values k)) :
    valueOf (keys.foldl (fun m key => m.insert key (valueOf values key)) acc) k =
      valueOf values k := by
  induction keys generalizing acc with
  | nil =>
    have hacc := hk.resolve_left List.not_mem_nil
    rw [List.foldl_nil, valueOf, hacc]
    rfl
  | cons key keys ih =>
    rw [List.foldl_cons]
    apply ih
    by_cases hkey : k = key
    · right
      rw [hkey, Finmap.lookup_insert]
    · rw [Finmap.lookup_insert_of_ne _ hkey]
      rcases hk with hmem | hacc
      · exact .inl ((List.mem_cons.mp hmem).resolve_left hkey)
      · exact .inr hacc

/-- The loop reads the values of its own keys only. -/
private theorem transferLoop_congr {values' : Finmap fun _ : GoString => GoString}
    (failCount : Nat) (conn : Connection ω)
    (h : ∀ k ∈ keys, valueOf values k = valueOf values' k) :
    transferLoop net addr values keys failCount conn =
      transferLoop net addr values' keys failCount conn := by
  induction keys generalizing failCount conn with
  | nil => rfl
  | cons key keys ih =>
    rw [transferLoop, transferLoop, h key List.mem_cons_self]
    congr 1
    funext ⟨result, conn₁⟩
    cases result <;> exact ih _ _ fun k hk => h k (List.mem_cons_of_mem key hk)

private theorem transferKeysOnConnection_eq_none :
    transferKeysOnConnection net addr conn keys values = .ok (none, conn') ↔
      transferLoop net addr values keys 0 conn = .ok (0, conn') := by
  unfold transferKeysOnConnection
  rw [bind_eq_ok]
  constructor
  · rintro ⟨⟨failCount, conn₁⟩, hloop, h⟩
    dsimp only at h
    split at h
    · cases h
    · next hzero =>
      cases h
      rw [hloop, Nat.le_zero.mp (Nat.not_lt.mp hzero)]
  · exact fun hloop => ⟨_, hloop, rfl⟩

/-- A batch that starts at a key is in bounds, and the next one starts behind it. -/
theorem sliced_batch {size i : Nat} (hstart : i * size < keys.length) :
    ∃ batch, sliced keys (i * size)
        (if keys.length < i * size + size then keys.length else i * size + size) = .ok batch ∧
      keys.drop (i * size) = batch ++ keys.drop ((i + 1) * size) := by
  generalize hs : (if keys.length < i * size + size then keys.length else i * size + size) = stop
  have hstop : i * size ≤ stop ∧ stop ≤ keys.length := by
    rw [← hs]
    split <;> omega
  refine ⟨(keys.take stop).drop (i * size), by rw [sliced, if_pos hstop], ?_⟩
  have hrest : keys.drop ((i + 1) * size) = keys.drop stop := by
    rw [Nat.succ_mul, ← hs]
    split
    · rw [List.drop_eq_nil_of_le (by omega), List.drop_eq_nil_of_le le_rfl]
    · rfl
  rw [hrest, ← List.drop_append_of_le_length (by rw [List.length_take]; omega),
    List.take_append_drop]

/-- Every batch starts at a key. -/
theorem batch_start_lt {length size j : Nat} (hj : j < (length + size - 1) / size) :
    j * size < length := by
  have hle := Nat.div_mul_le_self (length + size - 1) size
  have hmul := Nat.mul_le_mul_right size (Nat.succ_le_of_lt hj)
  rw [Nat.succ_mul] at hmul
  have hsize : 0 < size := by
    by_contra hzero
    obtain rfl : size = 0 := by omega
    simp at hj
  omega

/-- The last batch ends behind the last key. -/
theorem batch_end_le (length : Nat) {size : Nat} (hsize : 0 < size) :
    length ≤ (length + size - 1) / size * size := by
  have hlt := Nat.lt_div_mul_add hsize (a := length + size - 1)
  omega

/-- The batches from `i` on start at a key. -/
def BatchesStart (length size i batches : Nat) : Prop := ∀ j, j < batches → (i + j) * size < length

theorem BatchesStart.first {length size i batches : Nat}
    (h : BatchesStart length size i (batches + 1)) : i * size < length := by
  simpa using h 0 (by omega)

theorem BatchesStart.next {length size i batches : Nat}
    (h : BatchesStart length size i (batches + 1)) : BatchesStart length size (i + 1) batches := by
  intro j hj
  have hlt := h (j + 1) (by omega)
  rwa [← Nat.add_assoc, Nat.add_right_comm] at hlt

theorem batchesStart (length size : Nat) :
    BatchesStart length size 0 ((length + size - 1) / size) := by
  intro j hj
  rw [Nat.zero_add]
  exact batch_start_lt hj

/-- From batch `i` on. -/
private theorem batchLoop_eq_none {size batches i : Nat}
    (hlast : BatchesStart keys.length size i batches)
    (hend : keys.length ≤ (i + batches) * size) :
    batchLoop net addr (batchKeys keys size) values batches i conn = .ok (none, conn') ↔
      transferLoop net addr values (keys.drop (i * size)) 0 conn = .ok (0, conn') := by
  induction batches generalizing i conn with
  | zero =>
    rw [List.drop_eq_nil_of_le (by simpa using hend)]
    simp [batchLoop, transferLoop]
  | succ batches ih =>
    obtain ⟨batch, hsliced, hsplit⟩ := sliced_batch hlast.first
    have hend' : keys.length ≤ (i + 1 + batches) * size := by rwa [Nat.add_assoc, Nat.add_comm 1]
    have hstep : ∀ conn conn₁, transferKeysOnConnection net addr conn batch
        (batch.foldl (fun m key => m.insert key (valueOf values key)) ∅) = .ok (none, conn₁) ↔
        transferLoop net addr values batch 0 conn = .ok (0, conn₁) := by
      intro conn conn₁
      rw [transferKeysOnConnection_eq_none,
        transferLoop_congr 0 conn fun k hk => valueOf_batch values ∅ batch (.inl hk)]
    rw [hsplit, transferLoop_append, bind_eq_ok, batchLoop, batchKeys, hsliced]
    show (transferKeysOnConnection net addr conn batch _ >>= _) = _ ↔ _
    constructor
    · intro h
      obtain ⟨⟨err, conn₁⟩, hbatch, h⟩ := bind_eq_ok.mp h
      cases err with
      | some text => cases h
      | none => exact ⟨_, (hstep _ _).mp hbatch, (ih hlast.next hend').mp h⟩
    · rintro ⟨⟨n, conn₁⟩, hbatch, h⟩
      obtain rfl : n = 0 := Nat.le_zero.mp (failCount_le h)
      exact bind_eq_ok.mpr ⟨_, (hstep _ _).mpr hbatch, (ih hlast.next hend').mpr h⟩

/-- A transfer that returns nil is one loop over all the keys, in which none fails. -/
theorem transferKeysBatch_eq_none {size : Nat} (hsize : 0 < size) {w w' : ω} :
    transferKeysBatch net addr w keys values size = .ok (none, w') ↔
      ∃ w₁ conn', net.dial w addr = .ok w₁ ∧
        transferLoop net addr values keys 0 ⟨w₁, []⟩ = .ok (0, conn') ∧ conn'.world = w' := by
  have hend : keys.length ≤ (0 + (keys.length + size - 1) / size) * size := by
    rw [Nat.zero_add]
    exact batch_end_le keys.length hsize
  have hloop : ∀ w₁ conn', batchLoop net addr (batchKeys keys size) values
      ((keys.length + size - 1) / size) 0 ⟨w₁, []⟩ = .ok (none, conn') ↔
      transferLoop net addr values keys 0 ⟨w₁, []⟩ = .ok (0, conn') := by
    intro w₁ conn'
    rw [batchLoop_eq_none (batchesStart _ _) hend, Nat.zero_mul, List.drop_zero]
  unfold transferKeysBatch transferBatches
  cases net.dial w addr with
  | error text => simp
  | ok w₁ =>
    dsimp only
    rw [bind_eq_ok]
    constructor
    · rintro ⟨⟨err, conn'⟩, h, hret⟩
      cases hret
      exact ⟨w₁, conn', rfl, (hloop _ _).mp h, rfl⟩
    · rintro ⟨_, conn', hw, h, rfl⟩
      cases hw
      exact ⟨_, (hloop _ _).mpr h, rfl⟩

end Complete

section Migrate

variable {ω : Type} {net : Network ω} {idle : GoString → ω → Prop} {r : ω → ω → Prop}
  {hash : Bytes → UInt32} {sched : Schedule} {c c' : Cache} {hr hr' : HashRing} {w w' : ω}
  {err : Option Bytes}

theorem migrateTask_keeps {addr : GoString} {idle : ω → Prop} (h : Keeps net addr idle r)
    {i : Nat} {task : MigrationTask}
    (hm : migrateTask net hash sched i task addr c w = .ok (err, c', w')) : r w w' := by
  unfold migrateTask at hm
  split at hm
  · cases hm
    exact h.refl w
  · obtain ⟨⟨values, c₁⟩, -, hm⟩ := bind_eq_ok.mp hm
    obtain ⟨⟨err₁, w₁⟩, htransfer, hm⟩ := bind_eq_ok.mp hm
    have hsent := transferKeysBatch_keeps h htransfer
    cases err₁ with
    | some text =>
      cases hm
      exact hsent
    | none =>
      obtain ⟨⟨err₂, w₂⟩, hverify, hm⟩ := bind_eq_ok.mp hm
      have hverified := h.trans hsent (verifyTransfer_keeps h.toKeepsReading hverify)
      cases err₂ with
      | some text =>
        cases hm
        exact hverified
      | none =>
        obtain ⟨c₂, -, hm⟩ := bind_eq_ok.mp hm
        cases hm
        exact hverified

theorem migrateTasks_keeps {addr : MigrationTask → GoString} {idle : MigrationTask → ω → Prop}
    (h : ∀ task, Keeps net (addr task) (idle task) r) (hrefl : ∀ w, r w w)
    (tasks : List MigrationTask) {i : Nat}
    (hm : migrateTasks net hash sched addr i tasks c w = .ok (err, c', w')) : r w w' := by
  induction tasks generalizing i c w with
  | nil =>
    cases hm
    exact hrefl _
  | cons task tasks ih =>
    obtain ⟨⟨err₁, c₁, w₁⟩, htask, hm⟩ := bind_eq_ok.mp hm
    have hfirst := migrateTask_keeps (h task) htask
    cases err₁ with
    | some text =>
      cases hm
      exact hfirst
    | none => exact (h task).trans hfirst (ih hm)

theorem migrateToNewNode_keeps {id addr : GoString} {idle : ω → Prop}
    (h : Keeps net addr idle r)
    (hm : migrateToNewNode net hash sched id addr c hr w = .ok (err, c', hr', w')) :
    r w w' ∧ hr' = (hr.addShard hash id).setNodeAddress id addr := by
  obtain ⟨tasks, -, hm⟩ := bind_eq_ok.mp hm
  obtain ⟨⟨err₁, c₁, w₁⟩, htasks, hm⟩ := bind_eq_ok.mp hm
  cases hm
  exact ⟨migrateTasks_keeps (fun _ => h) h.refl tasks htasks, rfl⟩

theorem migrateFromLeavingNode_keeps (h : ∀ addr, Keeps net addr (idle addr) r) {id : GoString}
    (hm : migrateFromLeavingNode net hash sched id c hr w = .ok (none, c', hr', w')) :
    r w w' ∧ (hr' = hr.removeShard hash id ∨
      hr' = (hr.removeShard hash id).setNodeAddress id GoString.empty) := by
  obtain ⟨tasks, -, hm⟩ := bind_eq_ok.mp hm
  split at hm
  · cases hm
    exact ⟨(h id).refl _, .inr rfl⟩
  · obtain ⟨⟨err₁, c₁, w₁⟩, htasks, hm⟩ := bind_eq_ok.mp hm
    cases err₁ with
    | some text => exact nomatch hm
    | none =>
      cases hm
      exact ⟨migrateTasks_keeps (fun _ => h _) (h id).refl tasks htasks, .inl rfl⟩

end Migrate

end GoCache.Spec
