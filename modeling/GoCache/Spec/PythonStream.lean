import GoCache.Spec.PythonParser

/-!
# Responses in chunks

A client of the Python library reads responses off a connection whose bytes arrive in any
chunks. `_read_response` parses the buffer from its beginning after every chunk: on a message
that has not arrived in full `_parse` asks for more, and what has arrived behind a message
stays in the buffer for the next call.

## Key results

- `readResponse_fits`: a call returns the next message, whatever the chunks
- `readResponse_refused`: on a message that the interpreter has no room for it does not
- `python_reads_iff`: successive calls
-/

namespace GoCache.Native

/-- What a client has not consumed yet: the rest of the bytes is in the buffer, or arrives in
    chunks that are not empty. -/
def Python.Client.Unread (c : Python.Client) (bytes : Bytes) : Prop :=
  ∃ chunks : List Bytes, c.incoming = chunks.map .ok ∧ (∀ chunk ∈ chunks, chunk ≠ []) ∧
    c.buffer ++ chunks.flatten = bytes

end GoCache.Native

namespace GoCache.Spec

open GoCache.Native Scanning Utf8

/-- What `_read_response` returns for a message, or raises. -/
def Resp.outcome : Resp → Except Python.ClientError Python.Value
  | .error text _ => .error (.command (chars text.bytes))
  | .simple text plain => .ok (Resp.simple text plain).pyValue
  | .integer line n reads => .ok (Resp.integer line n reads).pyValue
  | .nullBulk line reads => .ok (Resp.nullBulk line reads).pyValue
  | .bulk line data reads => .ok (Resp.bulk line data reads).pyValue
  | .nullArray line reads => .ok (Resp.nullArray line reads).pyValue
  | .array line length reads le elements =>
    .ok (Resp.array line length reads le elements).pyValue

section Calls

variable {py : Python.Interpreter} {frames : Nat} {m : Resp} {t : Bytes}

/-- The buffer holds the message, or less than it. -/
private theorem wire_prefix_or {buffer rest : Bytes} (h : buffer ++ rest = m.wire ++ t) :
    (∃ u, buffer = m.wire ++ u ∧ u ++ rest = t) ∨ (buffer <+: m.wire ∧ buffer ≠ m.wire) := by
  obtain ⟨a, hwire, hrest⟩ | ⟨u, rfl, rfl⟩ := List.append_eq_append_iff.mp h
  · by_cases ha : a = []
    · subst ha
      rw [List.append_nil] at hwire
      exact .inl ⟨[], by rw [List.append_nil, hwire], by simpa using hrest⟩
    · right
      rw [hwire]
      exact ⟨List.prefix_append buffer a, by simp [ha]⟩
  · exact .inl ⟨u, rfl, rfl⟩

private theorem not_torn_of_all {buffer : Bytes} (h : buffer ++ [] = m.wire ++ t) :
    ¬ (buffer <+: m.wire ∧ buffer ≠ m.wire) := by
  rintro ⟨hpre, hne⟩
  rw [List.append_nil] at h
  have hle := hpre.length_le
  rw [h, List.length_append] at hle
  have ht : t = [] := List.length_eq_zero_iff.mp (by omega)
  rw [ht, List.append_nil] at h
  exact hne h

/-! ## The loop that fills the buffer -/

section Loop

variable {p : Python.Scanner Python.Value} {buffer : Bytes} {incoming : List (Except Bytes Bytes)}

private theorem fillLoop_complete (h : Python.needsMore p buffer = .ok false) :
    Python.fillLoop p buffer incoming = (.ok (), ⟨buffer, incoming⟩) := by
  rw [Python.fillLoop.eq_def]
  simp only [h]

private theorem fillLoop_raises {e : Python.Error} (h : Python.needsMore p buffer = .error e) :
    Python.fillLoop p buffer incoming = (.error (.parse e), ⟨buffer, incoming⟩) := by
  rw [Python.fillLoop.eq_def]
  simp only [h]

private theorem fillLoop_receives (h : Python.needsMore p buffer = .ok true) {chunk : Bytes}
    (hne : chunk ≠ []) :
    Python.fillLoop p buffer (.ok chunk :: incoming) =
      Python.fillLoop p (buffer ++ chunk) incoming := by
  rw [Python.fillLoop.eq_def]
  simp only [h, hne, if_false]

private theorem needsMore_of_ok {r : Python.Value × Int} (h : p buffer 0 = .ok r) :
    Python.needsMore p buffer = .ok false := by
  rw [Python.needsMore, h]

/-- An error either asks for more, or is raised. -/
private theorem needsMore_of_error {e : Python.Error} (h : p buffer 0 = .error e) :
    (Python.AsksForMore e ∧ Python.needsMore p buffer = .ok true) ∨
      (¬ Python.AsksForMore e ∧ Python.needsMore p buffer = .error e) := by
  rw [Python.needsMore, h]
  cases e with
  | incompleteData why => exact .inl ⟨trivial, rfl⟩
  | unknownType typeByte pos | recursion | unicodeDecode | invalidInt line => exact .inr ⟨id, rfl⟩

end Loop

/-- The loop ends with a message that fits in front of the buffer. -/
private theorem fillLoop_fits (hscans : Scans Python.AsksForMore (Python.parse py frames) m.wire
      m.pyValue) {buffer : Bytes} {chunks : List Bytes} (hne : ∀ chunk ∈ chunks, chunk ≠ [])
    (h : buffer ++ chunks.flatten = m.wire ++ t) :
    ∃ u c, Python.fillLoop (Python.parse py frames) buffer (chunks.map .ok) = (.ok (), c) ∧
      c.buffer = m.wire ++ u ∧ Python.Client.Unread ⟨u, c.incoming⟩ t := by
  induction chunks generalizing buffer with
  | nil =>
    obtain ⟨u, rfl, hu⟩ | htorn := wire_prefix_or h
    · refine ⟨u, _, fillLoop_complete (needsMore_of_ok (hscans.reads [] u)), rfl, [], rfl, ?_, hu⟩
      exact hne
    · exact absurd htorn (not_torn_of_all h)
  | cons chunk chunks ih =>
    obtain ⟨u, rfl, hu⟩ | ⟨hpre, htorn⟩ := wire_prefix_or h
    · exact ⟨u, _, fillLoop_complete (needsMore_of_ok (hscans.reads [] u)), rfl, chunk :: chunks,
        rfl, hne, hu⟩
    · -- the message is cut, and the next chunk is received
      obtain ⟨e, hmore, herror⟩ := hscans.torn [] buffer hpre htorn
      rw [List.nil_append] at herror
      have hneeds := ((needsMore_of_error herror).resolve_right fun hraised => hraised.1 hmore).2
      rw [List.map_cons, fillLoop_receives hneeds (hne chunk List.mem_cons_self)]
      apply ih fun c hc => hne c (List.mem_cons_of_mem chunk hc)
      rw [List.append_assoc]
      exact h

/-- It ends in an exception of `_parse` on a message that is refused. -/
private theorem fillLoop_refused
    (hrefuses : Refuses Python.AsksForMore (Python.parse py frames) m.wire) {buffer : Bytes}
    {chunks : List Bytes} (hne : ∀ chunk ∈ chunks, chunk ≠ [])
    (h : buffer ++ chunks.flatten = m.wire ++ t) :
    ∃ e c, Python.fillLoop (Python.parse py frames) buffer (chunks.map .ok) =
      (.error (.parse e), c) := by
  have hwhole : ∀ u incoming, ∃ e c, Python.fillLoop (Python.parse py frames) (m.wire ++ u)
      incoming = (.error (.parse e), c) := by
    intro u incoming
    obtain ⟨e, hmore, herror⟩ := hrefuses.whole [] u
    have hneeds := ((needsMore_of_error herror).resolve_left fun hasks => hmore hasks.1).2
    exact ⟨e, _, fillLoop_raises hneeds⟩
  induction chunks generalizing buffer with
  | nil =>
    obtain ⟨u, rfl, _⟩ | htorn := wire_prefix_or h
    · exact hwhole u _
    · exact absurd htorn (not_torn_of_all h)
  | cons chunk chunks ih =>
    obtain ⟨u, rfl, _⟩ | ⟨hpre, htorn⟩ := wire_prefix_or h
    · exact hwhole u _
    · obtain ⟨e, herror⟩ := hrefuses.torn [] buffer hpre htorn
      rw [List.nil_append] at herror
      rcases needsMore_of_error herror with ⟨_, hneeds⟩ | ⟨_, hneeds⟩
      · rw [List.map_cons, fillLoop_receives hneeds (hne chunk List.mem_cons_self)]
        apply ih fun c hc => hne c (List.mem_cons_of_mem chunk hc)
        rw [List.append_assoc]
        exact h
      · exact ⟨e, _, fillLoop_raises hneeds⟩

/-! ## One call -/

private theorem Resp.Fits.mono {frames' : Nat} (h : m.Fits py frames) (hle : frames ≤ frames') :
    m.Fits py frames' :=
  ⟨h.1.trans hle, h.2⟩

/-- What is returned for the value of a message, or raised. -/
private theorem outcome_of_pyValue (c : Python.Client) :
    (match m.pyValue with
      | .exception message => (.error (.command message), c)
      | value => (.ok value, c) : Except Python.ClientError Python.Value × Python.Client) =
        (m.outcome, c) := by
  cases m <;> rfl

/-- A call returns the next message if that fits below the two calls in between, and
    consumes it. -/
theorem readResponse_fits (hutf8 : m.Utf8) (hfits : m.Fits py (py.frames - 2))
    {c : Python.Client} (hunread : c.Unread (m.wire ++ t)) :
    ∃ c', Python.readResponse py c py.frames = (m.outcome, c') ∧ c'.Unread t := by
  obtain ⟨frames, hframes⟩ : ∃ f, py.frames = f + 2 := ⟨py.frames - 2, by have := hfits.1; omega⟩
  rw [hframes, Nat.add_sub_cancel] at hfits
  obtain ⟨chunks, hincoming, hne, hbytes⟩ := hunread
  obtain ⟨u, c₁, hfill, hbuffer, hunread⟩ :=
    fillLoop_fits (scans_parse m hutf8 hfits) hne hbytes
  have hparse : Python.parse py (frames + 1) c₁.buffer 0 = .ok (m.pyValue, m.wire.length) := by
    rw [hbuffer]
    exact (scans_parse m hutf8 (hfits.mono (Nat.le_succ frames))).reads [] u
  refine ⟨⟨u, c₁.incoming⟩, ?_, hunread⟩
  have hdrop : c₁.buffer.drop (Python.sliceBound c₁.buffer.length m.wire.length) = u := by
    rw [hbuffer, sliceBound_length, List.drop_left]
  rw [hframes]
  simp only [Python.readResponse, Python.fillBufferUntilComplete, hincoming, hfill, hparse, hdrop]
  exact outcome_of_pyValue _

/-- On any other message a call raises an exception that is no response. -/
theorem readResponse_refused (hutf8 : m.Utf8) (hfits : ¬ m.Fits py (py.frames - 2))
    {c : Python.Client} (hunread : c.Unread (m.wire ++ t)) :
    ∃ e c', Python.readResponse py c py.frames = (.error (.parse e), c') := by
  obtain ⟨chunks, hincoming, hne, hbytes⟩ := hunread
  cases hframes : py.frames with
  | zero => exact ⟨.recursion, c, rfl⟩
  | succ frames =>
    cases frames with
    | zero => exact ⟨.recursion, c, rfl⟩
    | succ frames =>
      have hfits : ¬ m.Fits py frames := by simpa [hframes] using hfits
      obtain ⟨e, c', hfill⟩ := fillLoop_refused (refuses_parse m hutf8 hfits) hne hbytes
      refine ⟨e, c', ?_⟩
      simp only [Python.readResponse, Python.fillBufferUntilComplete, hincoming, hfill]

end Calls

/-! ## Successive calls -/

private theorem readResponses_succ (py : Python.Interpreter) (calls : Nat) {c c' : Python.Client}
    {response : Except Python.ClientError Python.Value}
    (h : Python.readResponse py c py.frames = (response, c')) :
    Python.readResponses py (calls + 1) c =
      (response :: (Python.readResponses py calls c').1, (Python.readResponses py calls c').2) := by
  rw [Python.readResponses, h]

/-- The calls return the messages in order, each call its own, exactly if all of them fit. -/
private theorem readResponses_iff (py : Python.Interpreter) (ms : List Resp)
    (hutf8 : ∀ m ∈ ms, m.Utf8) {c : Python.Client} (hunread : c.Unread (ms.flatMap Resp.wire)) :
    (∀ calls ≤ ms.length, ∃ c', Python.readResponses py calls c =
        ((ms.take calls).map Resp.outcome, c') ∧
          c'.Unread ((ms.drop calls).flatMap Resp.wire)) ↔
      ∀ m ∈ ms, m.Fits py (py.frames - 2) := by
  induction ms generalizing c with
  | nil =>
    refine iff_of_true (fun calls hcalls => ?_) (by simp)
    obtain rfl : calls = 0 := Nat.le_zero.mp hcalls
    exact ⟨c, rfl, hunread⟩
  | cons m ms ih =>
    have hm := hutf8 m List.mem_cons_self
    rw [List.flatMap_cons] at hunread
    by_cases hfits : m.Fits py (py.frames - 2)
    · -- the first call returns its message, and the others start where it ends
      obtain ⟨c₁, hcall, hunread₁⟩ := readResponse_fits hm hfits hunread
      have hrest := ih (fun m hm => hutf8 m (List.mem_cons_of_mem _ hm)) hunread₁
      rw [List.forall_mem_cons, and_iff_right hfits, ← hrest]
      constructor
      · intro hall calls hcalls
        obtain ⟨c', hresponses, hc'⟩ := hall (calls + 1) (Nat.succ_le_succ hcalls)
        rw [readResponses_succ py calls hcall] at hresponses
        obtain ⟨hlist, rfl⟩ := Prod.mk.inj hresponses
        refine ⟨_, Prod.ext ?_ rfl, hc'⟩
        exact (List.cons.inj hlist).2
      · intro hall calls hcalls
        cases calls with
        | zero => exact ⟨c, rfl, hunread⟩
        | succ calls =>
          obtain ⟨c', hresponses, hc'⟩ := hall calls (Nat.le_of_succ_le_succ hcalls)
          refine ⟨c', ?_, hc'⟩
          rw [readResponses_succ py calls hcall, hresponses]
          rfl
    · -- the first call raises something else
      refine iff_of_false (fun hall => ?_) (fun hall => hfits (hall m List.mem_cons_self))
      obtain ⟨e, c₁, hcall⟩ := readResponse_refused hm hfits hunread
      obtain ⟨c', hresponses, _⟩ := hall 1 (Nat.succ_le_succ (Nat.zero_le _))
      rw [readResponses_succ py 0 hcall] at hresponses
      have hfirst := (List.cons.inj (Prod.mk.inj hresponses).1).1
      cases m <;> cases hfirst

/-- For every sequence of messages that `Parse` accepts in full and every way in which their
    bytes arrive: the calls return the values of the messages in order, or raise them, each
    call consumes its message and nothing else, exactly if the interpreter has room for the
    messages below `_read_response` and `_fill_buffer_until_complete`. -/
theorem python_reads_iff (py : Python.Interpreter) (messages : List Bytes)
    (haccepted : ∀ bytes ∈ messages, (∃ v, parse bytes = .ok v []) ∧ IsUtf8 bytes)
    (chunks : List Bytes) (hne : ∀ chunk ∈ chunks, chunk ≠ [])
    (hsplit : chunks.flatten = messages.flatten) :
    ∃ ms : List Resp, ms.map Resp.wire = messages ∧
      ((∀ calls ≤ ms.length, ∃ c, Python.readResponses py calls ⟨[], chunks.map .ok⟩ =
          ((ms.take calls).map Resp.outcome, c) ∧
            c.Unread ((ms.drop calls).flatMap Resp.wire)) ↔
        ∀ m ∈ ms, m.Fits py (py.frames - 2)) := by
  -- the messages, one by one
  obtain ⟨ms, hms⟩ : ∃ ms : List Resp, ms.map Resp.wire = messages := by
    clear hsplit
    induction messages with
    | nil => exact ⟨[], rfl⟩
    | cons bytes messages ih =>
      obtain ⟨ms, rfl⟩ := ih fun b hb => haccepted b (List.mem_cons_of_mem _ hb)
      obtain ⟨⟨v, hparse⟩, _⟩ := haccepted bytes List.mem_cons_self
      obtain ⟨m, hm, _⟩ := parse_eq_ok_iff.mp hparse
      rw [List.append_nil] at hm
      exact ⟨m :: ms, by rw [List.map_cons, hm]⟩
  subst hms
  have hutf8 : ∀ m ∈ ms, m.Utf8 := by
    intro m hm
    exact utf8_of_wire m (haccepted m.wire (List.mem_map_of_mem hm)).2
  refine ⟨ms, rfl, readResponses_iff py ms hutf8 ⟨chunks, rfl, hne, ?_⟩⟩
  rw [List.nil_append, hsplit, List.flatMap_def]

private theorem wire_ne_nil (m : Resp) : m.wire ≠ [] := by
  cases m <;> exact List.cons_ne_nil _ _

/-- A simple string and a number that arrive in three chunks, the second of them with the
    end of the one and the beginning of the other. -/
theorem python_reads_iff_chunks :
    ∃ ms : List Resp, ms.map Resp.wire = [ascii "+OK\r\n", ascii ":42\r\n"] ∧
      ((∀ calls ≤ ms.length, ∃ c,
          Python.readResponses cpython calls
            ⟨[], [ascii "+O", ascii "K\r\n:4", ascii "2\r\n"].map .ok⟩ =
              ((ms.take calls).map Resp.outcome, c) ∧
                c.Unread ((ms.drop calls).flatMap Resp.wire)) ↔
        ∀ m ∈ ms, m.Fits cpython (cpython.frames - 2)) := by
  apply python_reads_iff cpython [ascii "+OK\r\n", ascii ":42\r\n"]
  · intro bytes hbytes
    rcases List.mem_pair.mp hbytes with rfl | rfl
    · exact ⟨⟨.str (lit "OK"), rfl⟩, ['+', 'O', 'K', '\r', '\n'], by decide⟩
    · exact ⟨⟨.int 42, rfl⟩, [':', '4', '2', '\r', '\n'], by decide⟩
  · decide
  · decide

/-- On a number in a thousand arrays, which arrives at once, a call raises an exception that
    is neither a response nor an error of the connection. -/
theorem python_read_raises : ∃ s v e c,
    s = (List.replicate 1000 (ascii "*1\r\n")).flatten ++ ascii ":1\r\n" ∧
    parse s = .ok v [] ∧ IsUtf8 s ∧
    Python.readResponse cpython ⟨[], [.ok s]⟩ cpython.frames = (.error (.parse e), c) := by
  have hutf8 := utf8_nested 1000
  rw [← wire_nested] at hutf8
  have hfits : ¬ (nested 1000).Fits cpython (cpython.frames - 2) := by
    rintro ⟨hdepth, _⟩
    rw [depth_nested] at hdepth
    exact absurd hdepth (by decide)
  have hunread : Python.Client.Unread ⟨[], [.ok (nested 1000).wire]⟩
      ((nested 1000).wire ++ []) := by
    refine ⟨[(nested 1000).wire], rfl, fun chunk hchunk => ?_, by simp⟩
    rw [List.mem_singleton.mp hchunk]
    exact wire_ne_nil _
  obtain ⟨e, c, hcall⟩ := readResponse_refused (utf8_of_wire _ hutf8) hfits hunread
  have hparse := (frames_wire (nested 1000)).reads []
  rw [List.append_nil] at hparse
  exact ⟨_, _, e, c, wire_nested 1000, hparse, hutf8, hcall⟩

end GoCache.Spec
