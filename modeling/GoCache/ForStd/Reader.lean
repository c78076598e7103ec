import Mathlib.Data.List.Infix
import Mathlib.Data.Nat.Notation

/-!
# Readers of finite sequences

A reader takes a value off the front of a finite sequence of tokens. It ends in
a value or an error, both with the tokens left unread, or aborts.

`Frames p xs v` says that `p` recognises the frame `xs` as `v`: it reads exactly
`xs` off every sequence that starts with it, and on a torn frame, cut anywhere,
it runs into an error with nothing left to read. Frames compose like the
readers do.

## Key results

- `Frames.bind`: frames of a sequence of readers
- `Inherited`: properties of sequences of readers, such as what is left unread, where readers
  stop and their errors
- `Guards.bind`: readers that abort where a condition fails
- `AgreeUpTo.bind`: readers that agree on short sequences
- `loopAll_flatMap`, `loopAll_torn`: a loop that reads frame after frame
-/

namespace Reading

/-- What a reader ends in. -/
inductive Result (τ ε π α : Type) where
  | ok (value : α) (rest : List τ)
  | err (error : ε) (rest : List τ)
  | abort (cause : π)
deriving DecidableEq

/-- The tokens left unread; none are left to a reader that aborts. -/
def Result.rest {τ ε π α : Type} : Result τ ε π α → List τ
  | .ok _ rest | .err _ rest => rest
  | .abort _ => []

/-- A reader of tokens `τ`, with errors `ε` and causes `π` to abort. -/
def Reader (τ ε π α : Type) : Type := List τ → Result τ ε π α

variable {τ ε π α β : Type}

namespace Reader

/-- Return a value without reading. -/
protected def pure (v : α) : Reader τ ε π α := fun s => .ok v s

/-- Read one value and go on with it. -/
protected def bind (p : Reader τ ε π α) (f : α → Reader τ ε π β) : Reader τ ε π β := fun s =>
  match p s with
  | .ok v rest => f v rest
  | .err e rest => .err e rest
  | .abort c => .abort c

instance : Monad (Reader τ ε π) where
  pure := Reader.pure
  bind := Reader.bind

/-- Fail without reading. -/
def fail (e : ε) : Reader τ ε π α := fun s => .err e s

/-- Abort. -/
def abort (c : π) : Reader τ ε π α := fun _ => .abort c

/-- Read one token, failing with `e` at the end. -/
def next (e : ε) : Reader τ ε π τ
  | [] => .err e []
  | x :: rest => .ok x rest

end Reader

variable {p q : Reader τ ε π α} {f g : α → Reader τ ε π β} {xs ys s : List τ} {v : α} {w : β}

theorem bind_apply (p : Reader τ ε π α) (f : α → Reader τ ε π β) (s : List τ) :
    (p >>= f) s = match p s with
      | .ok v rest => f v rest
      | .err e rest => .err e rest
      | .abort c => .abort c := rfl

theorem bind_of_ok {rest : List τ} (h : p s = .ok v rest) : (p >>= f) s = f v rest := by
  rw [bind_apply, h]

theorem bind_of_err {e : ε} {rest : List τ} (h : p s = .err e rest) :
    (p >>= f) s = .err e rest := by
  rw [bind_apply, h]

theorem bind_ok_iff {rest : List τ} :
    (p >>= f) s = .ok w rest ↔ ∃ v mid, p s = .ok v mid ∧ f v mid = .ok w rest := by
  rw [bind_apply]
  cases p s with
  | ok v mid | err e mid | abort c => simp

theorem map_ok_iff {h : α → β} {rest : List τ} :
    (h <$> p) s = .ok w rest ↔ ∃ v, p s = .ok v rest ∧ h v = w := by
  show (p >>= fun v => Pure.pure (h v)) s = .ok w rest ↔ _
  rw [bind_ok_iff]
  constructor
  · rintro ⟨v, mid, hv, hw⟩
    cases hw
    exact ⟨v, hv, rfl⟩
  · rintro ⟨v, hv, rfl⟩
    exact ⟨v, rest, hv, rfl⟩

/-! ## Frames -/

/-- `p` recognises the frame `xs` as `v`. -/
structure Frames (p : Reader τ ε π α) (xs : List τ) (v : α) : Prop where
  /-- Whatever follows the frame stays unread. -/
  reads : ∀ t, p (xs ++ t) = .ok v t
  /-- A torn frame is an error that leaves nothing unread. -/
  torn : ∀ g, g <+: xs → g ≠ xs → ∃ e, p g = .err e []

theorem Frames.pure (v : α) : Frames (pure v : Reader τ ε π α) [] v where
  reads _ := rfl
  torn _ hpre hne := absurd (List.prefix_nil.mp hpre) hne

/-- A frame of one token. -/
theorem Frames.next (e : ε) (x : τ) : Frames (Reader.next e : Reader τ ε π τ) [x] x where
  reads _ := rfl
  torn g hpre hne := by
    cases g with
    | nil => exact ⟨e, rfl⟩
    | cons y g =>
      obtain ⟨rfl, hg⟩ := List.cons_prefix_cons.mp hpre
      exact absurd (by rw [List.prefix_nil.mp hg]) hne

/-- A frame followed by the frame of what is read next. -/
theorem Frames.bind (hp : Frames p xs v) (hf : Frames (f v) ys w) :
    Frames (p >>= f) (xs ++ ys) w where
  reads t := by
    rw [List.append_assoc, bind_of_ok (hp.reads (ys ++ t)), hf.reads]
  torn g hpre hne := by
    obtain ⟨t, ht⟩ := hpre
    obtain ⟨a, rfl, rfl⟩ | ⟨c, rfl, rfl⟩ := List.append_eq_append_iff.mp ht
    · by_cases ha : a = []
      · -- cut right between the two frames
        subst ha
        rw [List.append_nil] at hp hne
        obtain ⟨e, he⟩ := hf.torn [] (List.nil_prefix) (by
          rintro rfl
          exact hne (by simp))
        have hok := hp.reads []
        rw [List.append_nil] at hok
        exact ⟨e, (bind_of_ok hok).trans he⟩
      · obtain ⟨e, he⟩ := hp.torn g (List.prefix_append g a) (by simp [ha])
        exact ⟨e, bind_of_err he⟩
    · obtain ⟨e, he⟩ := hf.torn c (List.prefix_append c t) (by
        intro heq
        exact hne (by rw [← heq]))
      exact ⟨e, (bind_of_ok (hp.reads c)).trans he⟩

theorem Frames.map (hp : Frames p xs v) (h : α → β) : Frames (h <$> p) xs (h v) := by
  have hbind := hp.bind (f := fun v => Pure.pure (h v)) (Frames.pure (h v))
  rw [List.append_nil] at hbind
  exact hbind

/-! ## What sequences of readers inherit -/

/-- A property of the readers that return or abort at once, and of those that read one value
    and go on with it. -/
structure Inherited (P : ∀ {α : Type}, Reader τ ε π α → Prop) : Prop where
  pure : ∀ {α : Type} (v : α), P (Pure.pure v : Reader τ ε π α)
  abort : ∀ {α : Type} (c : π), P (Reader.abort c : Reader τ ε π α)
  bind : ∀ {α β : Type} {p : Reader τ ε π α} {f : α → Reader τ ε π β}, P p → (∀ v, P (f v)) →
    P (p >>= f)

theorem Inherited.map {P : ∀ {α : Type}, Reader τ ε π α → Prop} (h : Inherited P) (hp : P p)
    (k : α → β) : P (k <$> p) :=
  h.bind hp fun v => h.pure (k v)

/-! ## Readers that agree on short sequences -/

/-- What `p` leaves unread is a tail of what it has read from. -/
def Tails (p : Reader τ ε π α) : Prop := ∀ s, (p s).rest <:+ s

theorem Tails.bind (hp : Tails p) (hf : ∀ v, Tails (f v)) : Tails (p >>= f) := by
  intro s
  have hs := hp s
  rw [bind_apply]
  split
  · next v mid hmid =>
    rw [hmid] at hs
    exact (hf v mid).trans hs
  · next hmid => rwa [hmid] at hs
  · exact List.nil_suffix

theorem inherited_tails : Inherited (Tails : ∀ {α : Type}, Reader τ ε π α → Prop) where
  pure _ _ := List.suffix_rfl
  abort _ _ := List.nil_suffix
  bind := Tails.bind

theorem Tails.fail (e : ε) : Tails (Reader.fail e : Reader τ ε π α) := fun _ => List.suffix_rfl

theorem Tails.next (e : ε) : Tails (Reader.next e : Reader τ ε π τ) := by
  intro s
  cases s with
  | nil => exact List.suffix_rfl
  | cons x s => exact List.suffix_cons x s

/-- `p` does not put tokens back. -/
def Shrinks (p : Reader τ ε π α) : Prop := ∀ s, (p s).rest.length ≤ s.length

theorem Tails.shrinks (hp : Tails p) : Shrinks p := fun s => (hp s).length_le

/-- `p` and `q` agree on sequences of at most `n` tokens. -/
def AgreeUpTo (n : Nat) (p q : Reader τ ε π α) : Prop := ∀ s, s.length ≤ n → p s = q s

theorem AgreeUpTo.refl (n : Nat) (p : Reader τ ε π α) : AgreeUpTo n p p := fun _ _ => rfl

/-- Agreement of what is read first and of what is read next. -/
theorem AgreeUpTo.bind {n : Nat} (hp : AgreeUpTo n p q) (hshrinks : Shrinks p)
    (hf : ∀ v, AgreeUpTo n (f v) (g v)) : AgreeUpTo n (p >>= f) (q >>= g) := by
  intro s hs
  rw [bind_apply, bind_apply, ← hp s hs]
  split
  · next v rest h =>
    have hrest := hshrinks s
    rw [h] at hrest
    exact hf v rest (hrest.trans hs)
  · rfl
  · rfl

/-! ## Readers that stop on their own -/

/-- The result with more tokens behind those left unread. -/
def Result.extend (x : List τ) : Result τ ε π α → Result τ ε π α
  | .ok v rest => .ok v (rest ++ x)
  | .err e rest => .err e (rest ++ x)
  | .abort c => .abort c

/-- On at most `n` tokens `p` comes to its end by itself, whatever follows, or reads on into
    what follows. -/
structure Stops (n : Nat) (p : Reader τ ε π α) : Prop where
  tails : Tails p
  ends : ∀ s, s.length ≤ n →
    (∀ x, p (s ++ x) = (p s).extend x) ∨ ∀ t x, (p (s ++ t :: x)).rest <:+ x

section Stops

variable {n : Nat}

theorem Stops.bind (hp : Stops n p) (hf : ∀ v, Stops n (f v)) : Stops n (p >>= f) where
  tails := hp.tails.bind fun v => (hf v).tails
  ends s hs := by
    rcases hp.ends s hs with hstops | hreads
    · cases h : p s with
      | ok v mid =>
        have hmid : mid.length ≤ s.length := by
          have hle := hp.tails.shrinks s
          rwa [h] at hle
        have hbind : ∀ x, (p >>= f) (s ++ x) = f v (mid ++ x) := by
          intro x
          rw [bind_apply, hstops x, h]
          rfl
        rcases (hf v).ends mid (hmid.trans hs) with hstops' | hreads'
        · refine .inl fun x => ?_
          rw [hbind, hstops', bind_of_ok h]
        · refine .inr fun t x => ?_
          rw [hbind]
          exact hreads' t x
      | err e mid =>
        refine .inl fun x => ?_
        rw [bind_apply, bind_apply, hstops x, h]
        rfl
      | abort c =>
        refine .inl fun x => ?_
        rw [bind_apply, bind_apply, hstops x, h]
        rfl
    · -- what is read behind `p` is behind the first token of what follows already
      refine .inr fun t x => ?_
      have hrest := hreads t x
      rw [bind_apply]
      split
      · next v mid hmid =>
        rw [hmid] at hrest
        exact ((hf v).tails mid).trans hrest
      · next hmid => rwa [hmid] at hrest
      · exact List.nil_suffix

theorem inherited_stops (n : Nat) :
    Inherited (Stops n : ∀ {α : Type}, Reader τ ε π α → Prop) where
  pure v := ⟨inherited_tails.pure v, fun _ _ => .inl fun _ => rfl⟩
  abort c := ⟨inherited_tails.abort c, fun _ _ => .inl fun _ => rfl⟩
  bind := Stops.bind

theorem Stops.fail (e : ε) : Stops n (Reader.fail e : Reader τ ε π α) :=
  ⟨.fail e, fun _ _ => .inl fun _ => rfl⟩

end Stops

/-! ## Readers that abort -/

/-- `p` ends in a value or an error. -/
def Ends (p : Reader τ ε π α) : Prop := ∀ s c, p s ≠ .abort c

theorem Ends.bind (hp : Ends p) (hf : ∀ s v rest, p s = .ok v rest → Ends (f v)) :
    Ends (p >>= f) := by
  intro s c
  rw [bind_apply]
  split
  · next v rest h => exact hf s v rest h rest c
  · exact nofun
  · next c' h => exact absurd h (hp s c')

theorem Ends.pure (v : α) : Ends (pure v : Reader τ ε π α) := fun _ _ => nofun

theorem Ends.fail (e : ε) : Ends (Reader.fail e : Reader τ ε π α) := fun _ _ => nofun

/-- The condition on what follows, wherever `q` reads a value. -/
def behind (q : Reader τ ε π α) (fits : α → List τ → Bool) (s : List τ) : Bool :=
  match q s with
  | .ok v rest => fits v rest
  | .err _ _ | .abort _ => true

/-- Where the condition holds, `p` and `q` read the same and do not abort, and elsewhere
    `p` aborts. -/
structure Guards (fits : List τ → Bool) (p q : Reader τ ε π α) : Prop where
  same : ∀ s, fits s = true → p s = q s ∧ ∀ c, q s ≠ .abort c
  aborts : ∀ s, fits s = false → ∃ c, p s = .abort c

section Guards

variable {q : Reader τ ε π α} {g : α → Reader τ ε π β} {fits : List τ → Bool}
  {fits' : α → List τ → Bool}

theorem Guards.bind (hp : Guards fits p q) (hf : ∀ v, Guards (fits' v) (f v) (g v)) :
    Guards (fun s => fits s && behind q fits' s) (p >>= f) (q >>= g) where
  same s hs := by
    rw [Bool.and_eq_true, behind] at hs
    obtain ⟨heq, hends⟩ := hp.same s hs.1
    rw [bind_apply, bind_apply, heq]
    cases hq : q s with
    | ok v rest =>
      rw [hq] at hs
      exact (hf v).same rest hs.2
    | err e rest => exact ⟨rfl, nofun⟩
    | abort c => exact absurd hq (hends c)
  aborts s hs := by
    rw [bind_apply]
    cases hfits : fits s with
    | false =>
      obtain ⟨c, hc⟩ := hp.aborts s hfits
      exact ⟨c, by rw [hc]⟩
    | true =>
      rw [hfits, Bool.true_and, behind] at hs
      rw [(hp.same s hfits).1]
      cases hq : q s with
      | ok v rest =>
        rw [hq] at hs
        exact (hf v).aborts rest hs
      | err e rest =>
        rw [hq] at hs
        exact nomatch hs
      | abort c => exact ⟨c, rfl⟩

/-- A reader that does not abort. -/
theorem Ends.guards (h : Ends p) : Guards (fun _ => true) p p where
  same s _ := ⟨rfl, h s⟩
  aborts _ hs := nomatch hs

theorem Guards.abort (c : π) : Guards (fun _ => false) (Reader.abort c : Reader τ ε π α) q where
  same _ hs := nomatch hs
  aborts _ _ := ⟨c, rfl⟩

theorem Guards.map (hp : Guards fits p q) (h : α → β) : Guards fits (h <$> p) (h <$> q) := by
  have hbind := hp.bind fun v => (Ends.pure (h v) : Ends (Pure.pure (h v) : Reader τ ε π β)).guards
  have hfits : (fun s => fits s && Reading.behind q (fun _ _ => true) s) = fits := by
    funext s
    unfold Reading.behind
    split <;> exact Bool.and_true _
  rwa [hfits] at hbind

end Guards

/-! ## Errors of readers -/

/-- Every error that `p` ends in meets the condition. -/
def Fails (p : Reader τ ε π α) (post : ε → Prop) : Prop := ∀ s e rest, p s = .err e rest → post e

section Fails

variable {post : ε → Prop}

theorem Fails.bind (hp : Fails p post) (hf : ∀ v, Fails (f v) post) : Fails (p >>= f) post := by
  intro s e rest h
  rw [bind_apply] at h
  split at h
  · next v mid _ => exact hf v mid e rest h
  · next herr =>
    cases h
    exact hp s e rest herr
  · exact nomatch h

theorem inherited_fails (post : ε → Prop) :
    Inherited (fun {α : Type} (p : Reader τ ε π α) => Fails p post) where
  pure _ _ _ _ h := nomatch h
  abort _ _ _ _ h := nomatch h
  bind := Fails.bind

theorem Fails.fail {e : ε} (h : post e) : Fails (Reader.fail e : Reader τ ε π α) post := by
  intro s e' rest herr
  cases herr
  exact h

theorem Fails.next {e : ε} (h : post e) : Fails (Reader.next e : Reader τ ε π τ) post := by
  intro s e' rest herr
  cases s with
  | nil =>
    cases herr
    exact h
  | cons x s => exact nomatch herr

end Fails

/-! ## Loops over a sequence -/

/-- How a turn of a loop ends: with the state of the next turn, or with the
    result of the loop. -/
inductive Turn (σ ρ : Type) where
  | next (st : σ)
  | stop (result : ρ)

/-- Another view of the states and of the result. -/
def Turn.map {σ ρ σ' ρ' : Type} (f : σ → σ') (g : ρ → ρ') : Turn σ ρ → Turn σ' ρ'
  | .next st => .next (f st)
  | .stop r => .stop (g r)

section Loop

variable {σ ρ : Type} (outOfFuel : π) (onErr : σ → ε → Turn σ ρ)
  (body : σ → α → Except π (Turn σ ρ))

/-- Read value after value, until a turn stops. Returns the result with the
    tokens left unread. -/
def loop (p : Reader τ ε π α) : Nat → σ → List τ → Except π (ρ × List τ)
  | 0, _, _ => .error outOfFuel
  | fuel + 1, st, s =>
    match p s with
    | .ok v rest =>
      match body st v with
      | .error c => .error c
      | .ok (.next st) => loop p fuel st rest
      | .ok (.stop r) => .ok (r, rest)
    | .err e rest =>
      match onErr st e with
      | .next st => loop p fuel st rest
      | .stop r => .ok (r, rest)
    | .abort c => .error c

/-- `loop` with a bound that suffices if every turn reads something. -/
def loopAll (p : Reader τ ε π α) (st : σ) (s : List τ) : Except π (ρ × List τ) :=
  loop outOfFuel onErr body p (s.length + 1) st s

/-- Every value read takes a token, and every error the loop goes on behind. -/
structure Progresses (p : Reader τ ε π α) : Prop where
  ok_lt : ∀ s v rest, p s = .ok v rest → rest.length < s.length
  err_lt : ∀ s e rest st st', p s = .err e rest → onErr st e = .next st' → rest.length < s.length

variable {outOfFuel onErr body}

/-- A bound above the number of tokens is as good as any other. -/
theorem loop_eq_loopAll (hp : Progresses onErr p) {fuel : Nat} (st : σ) (h : s.length < fuel) :
    loop outOfFuel onErr body p fuel st s = loopAll outOfFuel onErr body p st s := by
  induction fuel using Nat.strongRecOn generalizing st s with
  | ind fuel ih =>
    obtain ⟨fuel, rfl⟩ : ∃ n, fuel = n + 1 := ⟨fuel - 1, by omega⟩
    -- the next turn has a shorter sequence, and either bound is above it
    have hturn : ∀ rest st', rest.length < s.length →
        loop outOfFuel onErr body p fuel st' rest =
          loop outOfFuel onErr body p s.length st' rest := by
      intro rest st' hlt
      rw [ih fuel (by omega) st' (by omega)]
      by_cases hle : s.length = fuel
      · rw [hle, ih fuel (by omega) st' (by omega)]
      · rw [ih s.length (by omega) st' hlt]
    simp only [loopAll, loop]
    split
    · next v rest hok =>
      split
      · rfl
      · exact hturn rest _ (hp.ok_lt s v rest hok)
      · rfl
    · next e rest herr =>
      split
      · next st' hnext => exact hturn rest st' (hp.err_lt s e rest st st' herr hnext)
      · rfl
    · rfl

/-- A turn that reads a value and goes on. -/
theorem loopAll_ok_next (hp : Progresses onErr p) {rest : List τ} {st st' : σ}
    (hok : p s = .ok v rest) (hbody : body st v = .ok (.next st')) :
    loopAll outOfFuel onErr body p st s = loopAll outOfFuel onErr body p st' rest := by
  simp only [loopAll, loop, hok, hbody]
  exact loop_eq_loopAll hp st' (hp.ok_lt s v rest hok)

/-- A turn that reads a value and stops. -/
theorem loopAll_ok_stop {rest : List τ} {st : σ} {r : ρ} (hok : p s = .ok v rest)
    (hbody : body st v = .ok (.stop r)) :
    loopAll outOfFuel onErr body p st s = .ok (r, rest) := by
  simp only [loopAll, loop, hok, hbody]

/-- A turn that runs into an error and goes on behind it. -/
theorem loopAll_err_next (hp : Progresses onErr p) {e : ε} {rest : List τ} {st st' : σ}
    (herr : p s = .err e rest) (hnext : onErr st e = .next st') :
    loopAll outOfFuel onErr body p st s = loopAll outOfFuel onErr body p st' rest := by
  simp only [loopAll, loop, herr, hnext]
  exact loop_eq_loopAll hp st' (hp.err_lt s e rest st st' herr hnext)

/-- A turn that runs into an error and stops. -/
theorem loopAll_err_stop {e : ε} {rest : List τ} {st : σ} {r : ρ} (herr : p s = .err e rest)
    (hstop : onErr st e = .stop r) : loopAll outOfFuel onErr body p st s = .ok (r, rest) := by
  simp only [loopAll, loop, herr, hstop]

/-- A sequence of frames in front is as many turns of the loop, on states seen
    through `f`. -/
theorem loopAll_flatMap {γ δ : Type} {enc : γ → List τ} {val : γ → α} {f : δ → σ}
    {next : δ → γ → δ} (hp : Progresses onErr p) (hframes : ∀ a, Frames p (enc a) (val a))
    (hbody : ∀ st a, body (f st) (val a) = .ok (.next (f (next st a)))) (as : List γ) (st : δ)
    (t : List τ) : loopAll outOfFuel onErr body p (f st) (as.flatMap enc ++ t) =
      loopAll outOfFuel onErr body p (f (as.foldl next st)) t := by
  induction as generalizing st with
  | nil => rfl
  | cons a as ih =>
    rw [List.flatMap_cons, List.append_assoc,
      loopAll_ok_next hp ((hframes a).reads _) (hbody st a)]
    exact ih (next st a)

/-- A view that every turn respects can be taken at the end. -/
theorem loopAll_map {σ' ρ' : Type} {onErr' : σ' → ε → Turn σ' ρ'}
    {body' : σ' → α → Except π (Turn σ' ρ')} {f : σ → σ'} {g : ρ → ρ'}
    (hbody : ∀ st v, body' (f st) v = (body st v).map (Turn.map f g))
    (herr : ∀ st e, onErr' (f st) e = (onErr st e).map f g) (st : σ) (s : List τ) :
    loopAll outOfFuel onErr' body' p (f st) s =
      (loopAll outOfFuel onErr body p st s).map fun r => (g r.1, r.2) := by
  rw [loopAll, loopAll]
  generalize s.length + 1 = fuel
  induction fuel generalizing st s with
  | zero => rfl
  | succ fuel ih =>
    simp only [loop]
    cases p s with
    | ok v rest =>
      simp only [hbody]
      cases body st v with
      | error c => rfl
      | ok turn =>
        cases turn with
        | next st' => exact ih st' rest
        | stop r => rfl
    | err e rest =>
      simp only [herr]
      cases onErr st e with
      | next st' => exact ih st' rest
      | stop r => rfl
    | abort c => rfl

/-- A torn frame at the end stops the loop if the end does, whether it goes on
    behind the error or not. -/
theorem loopAll_torn (hp : Progresses onErr p) {st : σ} {r : ρ} {e : ε} (hnil : p [] = .err e [])
    (hend : onErr st e = .stop r) (hother : ∀ e', onErr st e' = .next st ∨ onErr st e' = .stop r)
    (hframe : Frames p xs v) {g : List τ} (hpre : g <+: xs) (hne : g ≠ xs) :
    loopAll outOfFuel onErr body p st g = .ok (r, []) := by
  obtain ⟨e', he'⟩ := hframe.torn g hpre hne
  cases hother e' with
  | inl hnext => rw [loopAll_err_next hp he' hnext, loopAll_err_stop hnil hend]
  | inr hstop => exact loopAll_err_stop he' hstop

end Loop

end Reading
