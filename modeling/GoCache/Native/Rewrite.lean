import GoCache.Native.Persistence

/-!
# A rewrite of the log, call by call

`rewriteAOF` of `internal/persistence/aof.go` as its calls to the file system, any of
which can fail, and the `Append`s of other goroutines between them. The mutex of the log
is taken for the last three calls only.

`aof.file` is open or closed. While it is open it stands for the file of the log's name,
since the rename comes behind the `Close`; a `Close` that reports an error closes it all
the same, and every `Write` behind it fails.
-/

namespace GoCache.Native

/-- The calls of `rewriteAOF`. The `Snapshot` of the cache, which comes behind the first
    one, is a parameter. -/
inductive RewriteCall where
  /-- `os.OpenFile` of the temp file, which creates or empties it. -/
  | openTemp
  | writeTemp (bytes : Bytes)
  | syncTemp
  | closeTemp
  /-- `aof.mu.Lock()`. -/
  | lock
  | closeOld
  /-- `os.Rename` of the temp file to the log. -/
  | rename
  /-- `os.OpenFile` of the log. -/
  | reopen
  deriving DecidableEq

/-- `rewriteAOF`, as its calls: one write for every entry of the snapshot of the cache that
    has not expired. -/
def rewriteCalls (now : GoString → Time) (snapshot : List (GoString × SnapshotEntry)) :
    List RewriteCall :=
  .openTemp :: ((snapshot.filterMap (dumpEntry now)).map fun r => .writeTemp r.encode) ++
    [.syncTemp, .closeTemp, .lock, .closeOld, .rename, .reopen]

/-- How far `rewriteAOF` has come. -/
inductive RewriteProgress where
  | running (todo : List RewriteCall)
  /-- It has returned `nil`. -/
  | done
  /-- It has returned the error of a call. -/
  | failed (call : RewriteCall)
  deriving DecidableEq

/-- A log with its files, and what the `Append`s so far have returned: `true` for `nil`. -/
structure Log where
  aof : Bytes
  temp : Option Bytes
  fileOpen : Bool
  locked : Bool
  progress : RewriteProgress
  results : List (Record × Bool)

inductive LogEvent where
  /-- The next call of the rewrite succeeds. -/
  | call
  /-- The next call of the rewrite fails. -/
  | fail
  /-- `Append`, of some request. -/
  | append (r : Record)

namespace Log

/-- A log when a rewrite begins, with whatever an earlier one has left. -/
def start (aof : Bytes) (temp : Option Bytes) (calls : List RewriteCall) : Log :=
  ⟨aof, temp, true, false, .running calls, []⟩

/-- A call that succeeds. -/
def apply (s : Log) : RewriteCall → Log
  | .openTemp => { s with temp := some [] }
  | .writeTemp bytes => { s with temp := s.temp.map (· ++ bytes) }
  | .syncTemp | .closeTemp => s
  | .lock => { s with locked := true }
  | .closeOld => { s with fileOpen := false }
  | .rename =>
    match s.temp with
    | some content => { s with aof := content, temp := none }
    | none => s
  | .reopen => { s with fileOpen := true }

/-- The return behind a call that fails: the deferred function removes the temp file, and
    the mutex is unlocked. -/
def abandon (s : Log) : RewriteCall → Log
  -- the function is deferred behind the first call
  | .openTemp => s
  | .closeOld => { s with fileOpen := false, temp := none, locked := false }
  | _ => { s with temp := none, locked := false }

/-- `Append`, once it holds the mutex. -/
def write (s : Log) (r : Record) : Log :=
  if s.fileOpen then
    { s with aof := s.aof ++ r.encode, results := s.results ++ [(r, true)] }
  else { s with results := s.results ++ [(r, false)] }

def step (s : Log) : LogEvent → Option Log
  | .call =>
    match s.progress with
    | .running [] => some { s with locked := false, progress := .done }
    | .running (call :: todo) => some { s.apply call with progress := .running todo }
    | .done | .failed _ => none
  | .fail =>
    match s.progress with
    -- taking the mutex is no call to the file system
    | .running (.lock :: _) => none
    | .running (call :: _) => some { s.abandon call with progress := .failed call }
    | .running [] | .done | .failed _ => none
  | .append r => if s.locked then none else some (s.write r)

end Log

end GoCache.Native
