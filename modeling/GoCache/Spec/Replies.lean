import GoCache.Spec.Requests

/-!
# Replies are RESP values

What the handlers write is put together from texts. A simple string or an error is
one RESP value if its text has no line feed and fits one allocation, so a reply
that quotes a client's bytes, a key or an address is one value if those are plain.

## Key results

- `fails_parse`: the texts of the parser's errors
- `value_executeCommand`: the response of a queued command
- `values_subscribeLoop`, `values_unsubscribeLoop`: one value for each channel
-/

namespace GoCache.Spec

open GoCache.Native Reading

/-! ## Texts on a line -/

section Lines

variable {m n : Nat} {text text' : Bytes}

theorem LineOf.append (h : LineOf m text) (h' : LineOf n text') :
    LineOf (m + n) (text ++ text') := by
  constructor
  · rw [List.mem_append, not_or]
    exact ⟨h.1, h'.1⟩
  · have hlen := h.2
    have hlen' := h'.2
    rw [List.length_append]
    omega

theorem LineOf.mono (h : LineOf m text) (hle : m ≤ n) : LineOf n text :=
  ⟨h.1, Nat.le_trans h.2 hle⟩

theorem lineOf_itoa (i : Int64) : LineOf 20 (itoa i) :=
  ⟨newline_notMem_itoa i, length_itoa_le i⟩

end Lines

/-- A string that a reply can quote on a line, with room for the rest of the text. -/
def isPlain (s : GoString) : Prop := LineOf (maxAlloc / 8) s.bytes

instance decidableIsPlain (s : GoString) : Decidable (isPlain s) :=
  inferInstanceAs (Decidable (LineOf _ _))

/-! ## Errors of the parser -/

section Parser

private theorem fails_parts (grants : Nat → Bool) : OfParts grants
    fun {α : Type} (p : Native.Reader α) => Fails p fun e => LineOf 64 e.text where
  toInherited := inherited_fails _
  fail h := .fail h
  readString delim s e rest h := by
    unfold readString at h
    split at h
    · exact nomatch h
    · cases h
      decide
  readLineWithin hline s e rest h := by
    unfold readLineWithin at h
    split at h
    · exact hline s e rest h
    · exact nomatch h
  readFull size s e rest h := by
    unfold readFull at h
    split at h
    · exact nomatch h
    · split at h
      · cases h
        decide
      · cases h
        decide
  expectByte b text h s e rest herr := by
    cases s with
    | nil =>
      cases herr
      exact h
    | cons c s =>
      simp only [expectByte] at herr
      split at herr
      · cases herr
      · cases herr
        exact h

/-- An error of the parser can be quoted on a line. -/
theorem fails_parse {s rest : Bytes} {e : ParseError} (h : parse s = .err e rest) :
    LineOf 64 e.text :=
  (fails_parts grantAll).parseFuel (.next (by decide : LineOf 64 _)) (s.length + 1) s e rest h

end Parser

/-! ## Values -/

/-- The bytes are one RESP value, whatever follows them. -/
def IsValue (reply : Bytes) : Prop := ∃ v, Frames parse reply v

/-- The bytes are a number of RESP values, whatever follows them. -/
def AreValues (count : Nat) (reply : Bytes) : Prop :=
  ∃ vs, Frames (parseElements parse count) reply vs

section Values

variable {reply reply' : Bytes} {count : Nat}

theorem areValues_zero : AreValues 0 [] := ⟨[], Frames.pure []⟩

theorem IsValue.cons (h : IsValue reply) (h' : AreValues count reply') :
    AreValues (count + 1) (reply ++ reply') := by
  obtain ⟨v, hv⟩ := h
  obtain ⟨vs, hvs⟩ := h'
  refine ⟨v :: vs, hv.bind ?_⟩
  rw [← List.append_nil reply']
  exact hvs.bind (Frames.pure _)

theorem IsValue.one (h : IsValue reply) : AreValues 1 reply := by
  have hcons := h.cons areValues_zero
  rwa [List.append_nil] at hcons

private theorem length_of_parseElements {s rest : Bytes} {vs : List Value}
    (h : parseElements parse count s = .ok vs rest) : vs.length = count := by
  induction count generalizing s vs with
  | zero =>
    cases h
    rfl
  | succ count ih =>
    rw [parseElements, bind_apply] at h
    split at h
    · next v mid _ =>
      rw [bind_apply] at h
      split at h
      · next vs' mid' hrest =>
        cases h
        rw [List.length_cons, ih hrest]
      · exact nomatch h
      · exact nomatch h
    · exact nomatch h
    · exact nomatch h

/-- The parser reads the values and leaves what follows. -/
theorem AreValues.reads (h : AreValues count reply) :
    ∃ vs, vs.length = count ∧ ∀ rest, parseElements parse count (reply ++ rest) = .ok vs rest := by
  obtain ⟨vs, hvs⟩ := h
  refine ⟨vs, ?_, hvs.reads⟩
  exact length_of_parseElements (hvs.reads [])

theorem value_encodeError {text : Bytes} (h : LineOf maxAlloc text) : IsValue (encodeError text) :=
  ⟨_, frames_encodeError ⟨text, h.2⟩ h.1⟩

/-- An error that quotes a string. -/
theorem value_quoting {pre quoted post : Bytes} (hpre : LineOf 64 pre)
    (hquoted : LineOf (maxAlloc / 8) quoted) (hpost : LineOf 64 post) :
    IsValue (encodeError (pre ++ quoted ++ post)) :=
  value_encodeError (((hpre.append hquoted).append hpost).mono (by decide))

theorem value_encodeSimpleString {text : Bytes} (h : LineOf maxAlloc text) :
    IsValue (encodeSimpleString text) :=
  ⟨_, frames_encodeSimpleString ⟨text, h.2⟩ h.1⟩

theorem value_encodeInteger (i : Int64) : IsValue (encodeInteger i) :=
  ⟨_, frames_encodeElement (.int i)⟩

theorem value_encodeBulkString (s : GoString) (isNull : Bool) :
    IsValue (encodeBulkString s isNull) := by
  cases isNull with
  | false => exact ⟨_, frames_encodeElement (.str s)⟩
  | true => exact ⟨_, frames_encodeNull s⟩

theorem value_encodeBulkText {text : Bytes} (h : text.length ≤ maxAlloc) :
    IsValue (encodeBulkText text) :=
  ⟨_, frames_encodeElement (.str ⟨text, h⟩)⟩

theorem value_replyOK : IsValue replyOK := value_encodeSimpleString (by decide)

/-- An array of replies. -/
theorem value_array {responses : List Bytes} (h : ∀ response ∈ responses, IsValue response)
    (hle : 16 * responses.length ≤ maxAlloc) :
    IsValue (byte '*' :: itoa (Int64.ofNat responses.length) ++ crlf ++ responses.flatten) := by
  have hvalues : AreValues responses.length responses.flatten := by
    clear hle
    induction responses with
    | nil => exact areValues_zero
    | cons response responses ih =>
      rw [List.flatten_cons, List.length_cons]
      exact (h response List.mem_cons_self).cons
        (ih fun response hmem => h response (List.mem_cons_of_mem _ hmem))
  obtain ⟨vs, hvs⟩ := hvalues
  have hlen := length_of_parseElements (hvs.reads [])
  rw [← hlen] at hvs hle ⊢
  exact ⟨_, frames_array hle hvs⟩

end Values

/-! ## Immediate commands -/

section Immediate

variable {s s' : Server} {st st' : ConnectionState} {reply : Bytes} {resultSlice : List Value}

private theorem value_replyGet (result : GoString × Bool) : IsValue (replyGet result) := by
  unfold replyGet
  split <;> exact value_encodeBulkString _ _

private theorem value_replyDel : IsValue replyDel := value_encodeInteger 1

/-- A command on the cache whose errors can be quoted. -/
private theorem CacheOutcome.value {writes : Bool} {errors : List Bytes} {now : Time}
    {cmd : List Value} {c c' : Cache} (h : CacheOutcome writes errors now cmd c reply c')
    (herrors : ∀ text ∈ errors, LineOf maxAlloc text) : IsValue reply := by
  cases h with
  | refused hmem => exact value_encodeError (herrors _ hmem)
  | set => exact value_replyOK
  | get => exact value_replyGet _
  | delete => exact value_replyDel

private theorem value_handleMulti (st : ConnectionState) : IsValue (handleMulti st).1 := by
  unfold handleMulti
  split
  · exact value_encodeError (by decide)
  · exact value_replyOK

private theorem value_handleDiscard (st : ConnectionState) : IsValue (handleDiscard st).1 := by
  unfold handleDiscard
  split
  · exact value_replyOK
  · exact value_encodeError (by decide)

/-- The second `switch`, but for `EXEC`: a command it does not know is quoted. -/
theorem value_switchCommand {clock : Nat → Time} {command : Value}
    (hexec : isCommand command "EXEC" = false) (hname : ∀ name, command = .str name → isPlain name)
    (h : switchCommand s st clock command resultSlice = .ok (reply, s', st')) :
    IsValue reply := by
  cases switchCommand_outcome hexec h with
  | set _ hset => exact (handleSet_outcome hset).value (by decide)
  | get _ hget => exact (handleGet_outcome hget).1.value (by decide)
  | delete _ hdelete => exact (handleDelete_outcome 0 hdelete).value (by decide)
  | dbSize => exact value_encodeInteger _
  | ping => exact value_encodeSimpleString (by decide)
  | multi => exact value_handleMulti st
  | discard => exact value_handleDiscard st
  | unknown hstr =>
    exact value_quoting (by decide : LineOf 64 (ascii "ERR Unknown command '")) (hname _ hstr)
      (by decide : LineOf 64 (ascii "'"))

end Immediate

/-! ## Transactions -/

section Transactions

variable {c c' : Cache} {now : Time} {reply : Bytes} {cmd : List Value}

/-- The name of a queued command can be quoted. -/
def plainCommand : List Value → Prop
  | .str name :: _ => isPlain name
  | _ => True

/-- The response of a queued command: one that `EXEC` does not know is quoted. -/
theorem value_executeCommand (hplain : plainCommand cmd)
    (h : executeCommand c now cmd = .ok (reply, c')) : IsValue reply := by
  cases executeCommand_outcome h with
  | cache h => exact h.value (by decide)
  | ping => exact value_encodeSimpleString (by decide)
  | unknown hcommand =>
    subst hcommand
    exact value_quoting (by decide : LineOf 64 (ascii "ERR unknown command '")) hplain
      (by decide : LineOf 64 (ascii "'"))

private theorem values_executeQueue {clock : Nat → Time} {i : Nat} {queue : List (List Value)}
    {responses : List Bytes} (hplain : ∀ cmd ∈ queue, plainCommand cmd)
    (h : executeQueue clock i c queue = .ok (responses, c')) :
    responses.length = queue.length ∧ ∀ response ∈ responses, IsValue response := by
  induction queue generalizing i c responses with
  | nil =>
    cases h
    exact ⟨rfl, fun response hmem => absurd hmem List.not_mem_nil⟩
  | cons cmd queue ih =>
    rw [executeQueue_cons] at h
    obtain ⟨⟨response, c₁⟩, hfirst, h⟩ := bind_eq_ok.mp h
    obtain ⟨⟨rest, c₂⟩, hrest, h⟩ := bind_eq_ok.mp h
    cases h
    obtain ⟨hlen, hvalues⟩ := ih (fun cmd hmem => hplain cmd (List.mem_cons_of_mem _ hmem)) hrest
    refine ⟨by rw [List.length_cons, List.length_cons, hlen], fun r hmem => ?_⟩
    rcases List.mem_cons.mp hmem with rfl | hmem
    · exact value_executeCommand (hplain cmd List.mem_cons_self) hfirst
    · exact hvalues r hmem

/-- `EXEC` on commands whose names can be quoted. -/
theorem value_handleExec {s s' : Server} {st st' : ConnectionState} {clock : Nat → Time}
    (hplain : ∀ cmd ∈ st.commandQueue, plainCommand cmd)
    (hle : 16 * st.commandQueue.length ≤ maxAlloc)
    (h : handleExec s st clock = .ok (reply, s', st')) : IsValue reply := by
  rw [handleExec_eq] at h
  split at h
  · cases h
    exact value_encodeError (by decide)
  split at h
  · cases h
    exact value_encodeError (by decide)
  · obtain ⟨⟨results, c₁⟩, hexecute, h⟩ := bind_eq_ok.mp h
    obtain ⟨s₁, -, h⟩ := bind_eq_ok.mp h
    obtain ⟨hlen, hvalues⟩ := values_executeQueue hplain hexecute
    cases h
    exact value_array hvalues (by rw [hlen]; exact hle)

theorem value_queueCommandForTransaction (st : ConnectionState) (command : GoString)
    (resultSlice : List Value) : IsValue (queueCommandForTransaction st command resultSlice).1 := by
  have hqueued : IsValue replyQueued := value_encodeSimpleString (by decide)
  unfold queueCommandForTransaction
  split
  · exact hqueued
  · split
    · next text hinvalid =>
      apply value_encodeError
      unfold validationErr at hinvalid
      split at hinvalid
      · split at hinvalid <;> cases hinvalid
        decide
      split at hinvalid
      · split at hinvalid <;> cases hinvalid
        decide
      split at hinvalid
      · split at hinvalid <;> cases hinvalid
        decide
      split at hinvalid
      · split at hinvalid <;> cases hinvalid
        decide
      split at hinvalid
      · split at hinvalid <;> cases hinvalid
        decide
      · exact nomatch hinvalid
    · exact hqueued

/-- What cannot be queued is one of a few names. -/
theorem value_notQueued {command : GoString} (h : canQueueCommand command = false) :
    IsValue (encodeError (ascii "ERR command '" ++ command.bytes ++
      ascii " cannot be used in a transaction")) := by
  have hname : LineOf 16 command.bytes := by
    have hmem : command ∈ [lit "MULTI", lit "EXEC", lit "DISCARD", lit "SUBSCRIBE",
        lit "UNSUBSCRIBE", lit "PUBLISH", lit "PSUBSCRIBE", lit "PUNSUBSCRIBE",
        lit "CLUSTER"] := not_not.mp (of_decide_eq_false h)
    simp only [List.mem_cons, List.not_mem_nil, or_false] at hmem
    rcases hmem with rfl | rfl | rfl | rfl | rfl | rfl | rfl | rfl | rfl <;> decide
  exact value_quoting (by decide : LineOf 64 (ascii "ERR command '")) (hname.mono (by decide))
    (by decide : LineOf 64 (ascii " cannot be used in a transaction"))

end Transactions

/-! ## Pub/sub commands -/

section PubSub

variable {conn : ConnID} {ps ps' : PubSub} {reply : Bytes} {finished : Bool}

private theorem value_encodeSubscribeConfirmation (channel : GoString) (count : Nat) :
    IsValue (encodeSubscribeConfirmation channel count) :=
  ⟨_, frames_encodeArray ⟨_, by show 48 ≤ maxAlloc; decide⟩⟩

private theorem value_encodeUnsubscribeConfirmation (channel : GoString) (count : Nat) :
    IsValue (encodeUnsubscribeConfirmation channel count) := by
  unfold encodeUnsubscribeConfirmation
  split
  · -- an empty channel is written as null
    have harray : IsValue (byte '*' :: itoa (Int64.ofNat 3) ++ crlf ++
        [encodeBulkString (lit "unsubscribe") false, encodeBulkString GoString.empty true,
          encodeInteger (Int64.ofNat count)].flatten) := by
      refine @value_array [_, _, _] (fun response hmem => ?_) (by show 48 ≤ maxAlloc; decide)
      simp only [List.mem_cons, List.not_mem_nil, or_false] at hmem
      rcases hmem with rfl | rfl | rfl
      · exact value_encodeBulkString _ _
      · exact value_encodeBulkString _ _
      · exact value_encodeInteger _
    have hbytes : byte '*' :: itoa (Int64.ofNat 3) ++ crlf = ascii "*3" ++ crlf := by decide
    rw [hbytes] at harray
    simpa [encodeBulkString, encodeInteger, List.append_assoc] using harray
  · exact ⟨_, frames_encodeArray ⟨_, by show 48 ≤ maxAlloc; decide⟩⟩

/-- One confirmation for each channel. -/
theorem values_subscribeLoop (channels : List GoString)
    (h : subscribeLoop conn (strs channels) ps = .ok (reply, finished, ps')) :
    AreValues channels.length reply := by
  induction channels generalizing ps reply with
  | nil =>
    cases h
    exact areValues_zero
  | cons channel channels ih =>
    obtain ⟨ps₁, -, h⟩ := bind_eq_ok.mp h
    obtain ⟨⟨rest, done, ps₂⟩, hrest, h⟩ := bind_eq_ok.mp h
    cases h
    exact (value_encodeSubscribeConfirmation channel _).cons (ih hrest)

theorem values_unsubscribeLoop (channels : List GoString)
    (h : unsubscribeLoop conn (strs channels) ps = .ok (reply, finished, ps')) :
    AreValues channels.length reply := by
  induction channels generalizing ps reply with
  | nil =>
    cases h
    exact areValues_zero
  | cons channel channels ih =>
    obtain ⟨⟨err, ps₁⟩, -, h⟩ := bind_eq_ok.mp h
    obtain ⟨⟨rest, done, ps₂⟩, hrest, h⟩ := bind_eq_ok.mp h
    cases h
    exact (value_encodeUnsubscribeConfirmation channel _).cons (ih hrest)

theorem value_handlePublish {order : Finset ConnID → List ConnID} {resultSlice : List Value}
    (h : handlePublish order ps resultSlice = .ok (reply, ps')) : IsValue reply := by
  unfold handlePublish at h
  split at h
  · obtain ⟨⟨count, ps₁⟩, -, h⟩ := bind_eq_ok.mp h
    cases h
    exact value_encodeInteger _
  · cases h
    exact value_encodeError (by decide)
  · cases h
    exact value_encodeError (by decide)
  · cases h
    exact value_encodeError (by decide)

end PubSub

end GoCache.Spec
