import GoCache.Spec.ProtocolCorrect

/-!
# When `Parse` ends the process

The parser makes a buffer of the length that the client announces, puts every line together
in memory, and calls itself for every element of an array. A length below minus one, or one
that no allocation holds, makes it panic; a length or a line that the machine has no memory
for, and more arrays inside each other than its stack has room for, end the process. Nothing
else does.

## Key results

- `guards_parse`: the bytes that a machine can parse, and what it reads there
-/

namespace GoCache.Spec

open GoCache.Native Reading

/-! ## The condition -/

section Conditions

variable (grants : Nat → Bool)

/-- A slice of the length is granted. -/
def granted (size : Nat) (length : Int64) : Bool :=
  !decide (length < 0) && decide (size * length.toInt.toNat ≤ maxAlloc) &&
    grants (size * length.toInt.toNat)

/-- The line announces a null or a length that is granted, or is no number. -/
def lengthFits (size : Nat) (line : Bytes) : Bool :=
  match atoi line with
  | some length => decide (length = -1) || granted grants size length
  | none => true

/-- The number of elements that the line announces. -/
def announced (line : Bytes) : Nat :=
  match atoi line with
  | some length => length.toInt.toNat
  | none => 0

/-- The bytes begin with a line that is granted, and meet the condition behind it. -/
def lineFits (fits : Bytes → Bytes → Bool) (s : Bytes) : Bool :=
  grants (lineLength s) && behind readLine fits s

/-- So many values can be parsed, each where the one before it ends. -/
def elementsFit (fits : Bytes → Bool) : Nat → Bytes → Bool
  | 0, _ => true
  | length + 1, s => fits s && behind parse (fun _ rest => elementsFit fits length rest) s

/-- A machine with so many calls of room on its stack can parse the value that the bytes
    begin with. The lines and lengths that count are those that `Parse` reads. -/
def valueFits : Nat → Bytes → Bool
  | 0, _ => false
  | _ + 1, [] => true
  | calls + 1, first :: s =>
    if first = byte '+' ∨ first = byte '-' then
      lineFits grants (fun line _ => decide (line.length ≤ maxAlloc)) s
    else if first = byte ':' then lineFits grants (fun _ _ => true) s
    else if first = byte '$' then lineFits grants (fun line _ => lengthFits grants 1 line) s
    else if first = byte '*' then
      lineFits grants (fun line rest => lengthFits grants 16 line &&
        elementsFit (valueFits calls) (announced line) rest) s
    else true

end Conditions

/-- The machine can parse the value that the bytes begin with. -/
def fitsOn (m : Machine) (s : Bytes) : Bool := valueFits m.grants m.stack s

/-! ## The parts of the parser -/

private theorem ends_readLine : Ends readLine := by
  have hread : Ends (readString (byte '\n')) := by
    intro s c
    unfold readString
    split <;> exact nofun
  refine hread.bind fun _ line _ _ => ?_
  split
  · exact .pure _
  · exact .fail _

private theorem ends_readFull (size : Nat) : Ends (readFull size) := by
  intro s c
  unfold readFull
  split
  · exact nofun
  · split <;> exact nofun

private theorem ends_expectByte (b : UInt8) (text : String) : Ends (expectByte b text) := by
  intro s c
  unfold expectByte
  split
  · exact nofun
  · split <;> exact nofun

private theorem guards_toGoString (bytes : Bytes) :
    Guards (fun _ => decide (bytes.length ≤ maxAlloc)) (toGoString bytes) (toGoString bytes) := by
  unfold toGoString
  by_cases h : bytes.length ≤ maxAlloc
  · rw [dif_pos h, decide_eq_true h]
    exact (Ends.pure _).guards
  · rw [dif_neg h, decide_eq_false h]
    exact .abort _

private theorem length_of_readFull {size : Nat} {data s rest : Bytes}
    (h : readFull size s = .ok data rest) : data.length = size := by
  unfold readFull at h
  split at h
  · next hle =>
    cases h
    rw [List.length_take, Nat.min_eq_left hle]
  · split at h <;> exact nomatch h

section Parts

variable {grants : Nat → Bool} {p : Native.Reader Value} {fits : Bytes → Bool}

private theorem make_of_granted {size : Nat} {length : Int64}
    (h : granted grants size length = true) :
    make grants size length = pure () ∧ make grantAll size length = pure () ∧
      size * length.toInt.toNat ≤ maxAlloc := by
  simp only [granted, Bool.and_eq_true, Bool.not_eq_true', decide_eq_false_iff_not,
    decide_eq_true_eq] at h
  obtain ⟨⟨hnonneg, hmax⟩, hgrants⟩ := h
  have hrange : ¬ (length < 0 ∨ maxAlloc < size * length.toInt.toNat) :=
    not_or.mpr ⟨hnonneg, not_lt.mpr hmax⟩
  unfold make
  rw [if_neg hrange, if_neg hrange, if_pos hgrants]
  exact ⟨rfl, rfl, hmax⟩

private theorem make_of_not_granted {size : Nat} {length : Int64}
    (h : granted grants size length = false) :
    ∃ c, make grants size length = Reader.abort c := by
  unfold make
  split
  · exact ⟨_, rfl⟩
  · next hrange =>
    rw [not_or, not_lt] at hrange
    rw [granted, decide_eq_false hrange.1, decide_eq_true hrange.2] at h
    change grants (size * length.toInt.toNat) = false at h
    rw [if_neg (Bool.eq_false_iff.mp h)]
    exact ⟨_, rfl⟩

/-- A line, and what stands behind it. -/
private theorem guards_readLine {α : Type} {f g : Bytes → Native.Reader α}
    {fits : Bytes → Bytes → Bool} (h : ∀ line, Guards (fits line) (f line) (g line)) :
    Guards (lineFits grants fits) (readLineWithin grants >>= f)
      (readLineWithin grantAll >>= g) := by
  have hline : Guards (fun s => grants (lineLength s)) (readLineWithin grants)
      (readLineWithin grantAll) := by
    constructor
    · intro s hs
      refine ⟨?_, ends_readLine s⟩
      unfold readLineWithin
      rw [if_pos hs]
      rfl
    · intro s hs
      unfold readLineWithin
      rw [hs]
      exact ⟨_, rfl⟩
  exact hline.bind h

/-- What stands behind a length: a null, what is made of a length that is granted, or an
    error for a line that is no number. -/
private theorem guards_length {α : Type} {size : Nat} {line : Bytes} {e : ParseError} {null : α}
    {p q : Int64 → Native.Reader α} {fits : Bytes → Bool}
    (h : ∀ length, atoi line = some length → size * length.toInt.toNat ≤ maxAlloc →
      Guards fits (p length) (q length))
    (hnull : ∀ rest, atoi line = some (-1) ∨ atoi line = none → fits rest = true) :
    Guards (fun rest => lengthFits grants size line && fits rest)
      (match atoi line with
        | none => Reader.fail e
        | some length =>
          if length = -1 then pure null else make grants size length >>= fun _ => p length)
      (match atoi line with
        | none => Reader.fail e
        | some length =>
          if length = -1 then pure null else make grantAll size length >>= fun _ => q length) := by
  unfold lengthFits
  cases hline : atoi line with
  | none =>
    have hfits : fits = fun _ => true := funext fun rest => hnull rest (.inr hline)
    simp only [hfits, Bool.and_true]
    exact (Ends.fail e).guards
  | some length =>
    dsimp only
    by_cases hlength : length = -1
    · have hfits : fits = fun _ => true :=
        funext fun rest => hnull rest (.inl (by rw [hline, hlength]))
      simp only [hlength, hfits, if_true, decide_true, Bool.true_or, Bool.and_true]
      exact (Ends.pure null).guards
    · rw [if_neg hlength, if_neg hlength]
      simp only [hlength, decide_false, Bool.false_or]
      cases hgranted : granted grants size length with
      | true =>
        obtain ⟨hmake, hmake', hmax⟩ := make_of_granted hgranted
        rw [hmake, hmake']
        exact h length hline hmax
      | false =>
        obtain ⟨c, hmake⟩ := make_of_not_granted hgranted
        rw [hmake]
        exact .abort c

private theorem guards_parseBulkString :
    Guards (lineFits grants fun line _ => lengthFits grants 1 line) (parseBulkString grants)
      (parseBulkString grantAll) := by
  refine guards_readLine fun line => ?_
  have hfits : (fun _ : Bytes => lengthFits grants 1 line) =
      fun _ => lengthFits grants 1 line && true := by
    simp only [Bool.and_true]
  rw [hfits]
  refine guards_length (fun length _ hmax => ?_) (fun _ _ => rfl)
  -- the data is as long as announced
  refine Ends.guards ((ends_readFull _).bind fun _ data _ hdata => ?_)
  refine (ends_expectByte _ _).bind fun _ _ _ _ => (ends_expectByte _ _).bind fun _ _ _ _ => ?_
  rw [toGoString, dif_pos (by rw [length_of_readFull hdata]; omega)]
  exact .pure _

private theorem guards_parseElements (hp : Guards fits p parse) (length : Nat) :
    Guards (elementsFit fits length) (parseElements p length) (parseElements parse length) := by
  induction length with
  | zero => exact (Ends.pure _).guards
  | succ length ih => exact hp.bind fun element => ih.map (element :: ·)

private theorem guards_parseArray (hp : Guards fits p parse) :
    Guards (lineFits grants fun line rest => lengthFits grants 16 line &&
        elementsFit fits (announced line) rest)
      (parseArray grants p) (parseArray grantAll parse) := by
  refine guards_readLine fun line => ?_
  refine guards_length (fun length hline _ => ?_) fun rest hline => ?_
  · rw [announced, hline]
    exact (guards_parseElements hp _).map _
  · rcases hline with hline | hline
    · rw [announced, hline]
      rfl
    · rw [announced, hline]
      rfl

/-- A line as a string. -/
private theorem guards_line :
    Guards (lineFits grants fun line _ => decide (line.length ≤ maxAlloc))
      (readLineWithin grants >>= toGoString) (readLineWithin grantAll >>= toGoString) :=
  guards_readLine guards_toGoString

/-- A line as a number. -/
private theorem guards_parseInteger :
    Guards (lineFits grants fun _ _ => true) (parseInteger grants) (parseInteger grantAll) := by
  refine guards_readLine fun line => Ends.guards ?_
  split
  · exact .fail _
  · exact .pure _

/-- The switch of `Parse`, with its condition. -/
private theorem guards_parseTyped {calls : Nat}
    (hp : Guards (valueFits grants calls) (parseFuel grants calls) parse) (first : UInt8) :
    Guards (fun s => valueFits grants (calls + 1) (first :: s))
      (parseTyped grants (parseFuel grants calls) first) (parseTyped grantAll parse first) := by
  unfold parseTyped
  simp only [valueFits]
  by_cases hplus : first = byte '+'
  · subst hplus
    exact guards_line.map _
  by_cases hminus : first = byte '-'
  · subst hminus
    exact guards_line.map _
  simp only [if_neg hplus, if_neg hminus, hplus, hminus, or_self, if_false]
  by_cases hcolon : first = byte ':'
  · subst hcolon
    exact guards_parseInteger.map _
  simp only [if_neg hcolon]
  by_cases hdollar : first = byte '$'
  · subst hdollar
    exact guards_parseBulkString.map _
  simp only [if_neg hdollar]
  by_cases hstar : first = byte '*'
  · subst hstar
    exact guards_parseArray hp
  · simp only [if_neg hstar]
    exact (Ends.fail _).guards

end Parts

/-- A machine reads as `Parse` does wherever the value fits it, and the process ends
    everywhere else. -/
theorem guards_parse (m : Machine) : Guards (fitsOn m) m.parse parse := by
  have hcalls : ∀ calls, Guards (valueFits m.grants calls) (parseFuel m.grants calls) parse := by
    intro calls
    induction calls with
    | zero => exact .abort _
    | succ calls ih =>
      -- the elements of an array are parsed with one call less
      constructor
      · intro s hs
        cases s with
        | nil => exact ⟨rfl, fun _ => nofun⟩
        | cons first s =>
          rw [parseFuel_cons, parse_cons]
          exact (guards_parseTyped ih first).same s hs
      · intro s hs
        cases s with
        | nil => exact nomatch hs
        | cons first s =>
          rw [parseFuel_cons]
          exact (guards_parseTyped ih first).aborts s hs
  exact hcalls m.stack

end GoCache.Spec
