import GoCache.ForStd.Turns
import GoCache.Spec.TornTail

/-!
# The loops over a file stop

`ReadOperations` and `LoadSnapshot` leave their loops at `io.EOF` only; behind any other
error they go on. They come to an end on every file, because every call of `Parse` that
does not return `io.EOF` has read at least one byte.

## Key results

- `length_lt_of_error`: the calls of `Parse` that return an error
- `recovery_loops_stop`: the number of turns of both loops
-/

namespace GoCache.Spec

open GoCache.Native Reading

/-- An error other than `io.EOF` takes at least one byte, wherever in a value it is met:
    the elements of an array are read by `Parse` as well. -/
theorem length_lt_of_error {s rest : Bytes} {e : ParseError} (h : parse s = .err e rest)
    (he : e ≠ .eof) : rest.length < s.length := by
  have hskip : skipCorrupted () e = .next () := by
    rw [skipCorrupted, if_neg]
    cases e with
    | eof => exact absurd rfl he
    | unexpectedEOF => decide
    | new text => exact Bool.false_ne_true
  exact progresses_skipCorrupted.err_lt s e rest () () h hskip

/-- Every call of `Parse` that does not return `io.EOF` reads at least one byte, and so
    both loops make at most one turn more than the file has bytes. -/
theorem recovery_loops_stop (file : Bytes) :
    (∀ s v rest, parse s = .ok v rest → rest.length < s.length) ∧
    (∀ s e rest, parse s = .err e rest → e ≠ .eof → rest.length < s.length) ∧
    (∃ n ≤ file.length + 1, Turns skipCorrupted readRecord parse [] file n ∧
      readOperations file =
        (·.1) <$> loop .outOfFuel skipCorrupted readRecord parse n [] file) ∧
    ∀ clock c, ∃ n ≤ file.length + 1,
      Turns skipCorrupted (loadRecord clock) parse (0, c) file n ∧
      loadSnapshot clock c file =
        (·.1) <$> loop .outOfFuel skipCorrupted (loadRecord clock) parse n (0, c) file := by
  refine ⟨fun s v rest => length_lt_of_parse, fun s e rest => length_lt_of_error, ?_,
    fun clock c => ?_⟩
  · obtain ⟨n, hn, hturns⟩ := progresses_skipCorrupted.exists_turns readRecord [] file
    exact ⟨n, hn, hturns, congrArg _ (hturns.loop_eq hn)⟩
  · obtain ⟨n, hn, hturns⟩ := progresses_skipCorrupted.exists_turns (loadRecord clock) (0, c) file
    exact ⟨n, hn, hturns, congrArg _ (hturns.loop_eq hn)⟩

end GoCache.Spec
