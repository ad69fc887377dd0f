import FleetWatch.History.Backend
import FleetWatch.Queue.Bounded

/-!
# The recorder

Rows go to the backend in batches: they are queued on arrival, taken into a buffer one by one, and
passed on when the buffer is full, when a timer fires or on request. A batch that the backend
refuses is counted and dropped. When it is told to stop, the recorder leaves its loop, takes what is
queued, passes on what is buffered, closes the backend and is gone; every one of these is a step of
its own.

## Main definitions

* `History.Recorder`: queue, buffer, counters and phase.
* `record`, `takeRow`, `flushDue`, `cleanUp`, `flush`: the steps of a running recorder.
* `leave`, `drain`, `flushLast`, `closeBackend`, `stop`: the steps of its end; `shutdown` is all of
  them.
-/
namespace FleetWatch.History

open Queue

/-- How far the end of a recorder has come. -/
inductive Phase where
  | running
  | left
  | drained
  | flushed
  | closed
  | stopped
deriving DecidableEq, Repr

/-- What a recorder has counted. The numbers have no bound here; words of 64 bits, as which they are
told, start over at `2 ^ 64`. -/
structure Counters where
  received : Nat := 0
  flushes : Nat := 0
  failedRows : Nat := 0
  lastCleanup : Option Time.Instant := none
  deleted : Nat := 0

def queueCapacity : Nat := 1024

def batchSize : Nat := 100

/-- A recorder with its backend. -/
structure Recorder where
  backend : Backend
  queue : Bounded Row := .empty queueCapacity
  buffer : List Row := []
  retentionDays : Option UInt32 := none
  counters : Counters := {}
  phase : Phase := .running

structure Stats where
  counters : Counters
  buffered : Nat

namespace Recorder

/-- A recorder on a backend. Where there is a retention time the first cleanup is due at once, and
comes in between whatever else the recorder does. -/
def start (backend : Backend) (retentionDays : Option UInt32) : Recorder where
  backend
  retentionDays

/-- Queues a row; whether there was room and somebody to take it. -/
def record (r : Recorder) (row : Row) : Bool × Recorder :=
  if r.phase = .stopped then (false, r)
  else match r.queue.offer? row with
    | some queue => (true, { r with queue })
    | none => (false, r)

/-- Passes the buffer on to the backend. -/
def flushBuffer (r : Recorder) : Except HistoryError Unit × Recorder :=
  if r.buffer.isEmpty then (.ok (), r)
  else match r.backend.append r.buffer with
    | .ok backend =>
      (.ok (), { r with
        backend, buffer := []
        counters := { r.counters with flushes := r.counters.flushes + 1 } })
    | .error e =>
      (.error e, { r with
        buffer := []
        counters := { r.counters with failedRows := r.counters.failedRows + r.buffer.length } })

/-- Puts rows into the buffer and counts them. -/
def receive (r : Recorder) (rows : List Row) : Recorder :=
  { r with
    buffer := r.buffer ++ rows
    counters := { r.counters with received := r.counters.received + rows.length } }

/-- Puts one row into the buffer, and passes the buffer on once it is full. -/
def store (r : Recorder) (row : Row) : Recorder :=
  let r := r.receive [row]
  if batchSize ≤ r.buffer.length then r.flushBuffer.2 else r

/-- Takes the oldest row that waits. -/
def takeRow (r : Recorder) : Recorder :=
  if r.phase = .running then
    match r.queue.take? with
    | some (row, queue) => { r with queue }.store row
    | none => r
  else r

def takeAll (r : Recorder) : Recorder :=
  r.queue.waiting.foldl (fun r _ => r.takeRow) r

/-- Takes all rows that wait into the buffer, however many these are. -/
def drainQueue (r : Recorder) : Recorder :=
  { r.receive r.queue.waiting with queue := r.queue.drop r.queue.waiting.length }

/-- The timer fires: what is buffered is passed on. -/
def flushDue (r : Recorder) : Recorder := if r.phase = .running then r.flushBuffer.2 else r

/-- Drops the rows older than the retention time. When that reaches back further than time is
counted, the recorder breaks down. -/
def cleanUp (r : Recorder) (now : Time.Instant) : Recorder :=
  match r.phase, r.retentionDays with
  | .running, some days =>
    match now.minus? (days.toNat * 86400) with
    | none => { r with phase := .stopped }
    | some cutoff =>
      let counters := { r.counters with lastCleanup := some now }
      match r.backend.cleanup cutoff with
      | .ok (n, backend) =>
        { r with backend, counters := { counters with deleted := counters.deleted + n } }
      | .error _ => { r with counters }
  | _, _ => r

/-- The failure of a request to a recorder that does not run. -/
def absence (r : Recorder) : HistoryError :=
  if r.phase = .stopped then .unavailable "storage actor stopped"
  else .unavailable "storage actor dropped request"

/-- Answers a request, if the recorder runs. -/
def request {α : Type} (r : Recorder) (f : Recorder → Except HistoryError α × Recorder) :
    Except HistoryError α × Recorder :=
  if r.phase = .running then f r else (.error r.absence, r)

def flush (r : Recorder) : Except HistoryError Unit × Recorder :=
  r.request fun r => r.drainQueue.flushBuffer

def stats (r : Recorder) : Except HistoryError Stats :=
  (r.request fun r => (.ok ⟨r.counters, r.buffer.length⟩, r)).1

def range (r : Recorder) (q : Query) : Except HistoryError (List Row) :=
  (r.request fun r => (r.backend.range q, r)).1

def latest (r : Recorder) (hostId : String) (limit : UInt64) : Except HistoryError (List Row) :=
  (r.request fun r => (r.backend.latest hostId limit, r)).1

def leave (r : Recorder) : Recorder :=
  if r.phase = .running then { r with phase := .left } else r

def drain (r : Recorder) : Recorder :=
  if r.phase = .left then { r.drainQueue with phase := .drained } else r

/-- Passes on what is buffered. -/
def flushLast (r : Recorder) : Recorder :=
  if r.phase = .drained then { r.flushBuffer.2 with phase := .flushed } else r

/-- Closes the backend; a failure changes nothing. -/
def closeBackend (r : Recorder) : Recorder :=
  if r.phase = .flushed then
    match r.backend.close with
    | .ok backend => { r with backend, phase := .closed }
    | .error _ => { r with phase := .closed }
  else r

/-- Is gone: nobody takes rows or requests any more. -/
def stop (r : Recorder) : Recorder :=
  if r.phase = .closed then { r with phase := .stopped } else r

/-- The end from its first to its last step. -/
def shutdown (r : Recorder) : Recorder := r.leave.drain.flushLast.closeBackend.stop

end Recorder

def disabledFailure : HistoryError := .unavailable "history storage is disabled"

/-- The recorder of a hub, if it keeps history. -/
abbrev Keeper := Option Recorder

namespace Keeper

def isEnabled (k : Keeper) : Bool := k.isSome

/-- Queues the row of a snapshot; whether it was taken. -/
def record (k : Keeper) (hostId : String) (at_ : Time.Instant) (s : Snapshot) : Bool × Keeper :=
  match k with
  | none => (false, none)
  | some r =>
    let (taken, r) := r.record (.ofSnapshot hostId at_ s)
    (taken, some r)

def ask {α : Type} (k : Keeper) (f : Recorder → Except HistoryError α) : Except HistoryError α :=
  match k with
  | none => .error disabledFailure
  | some r => f r

/-- Passes on all that waits and is buffered. -/
def flush (k : Keeper) : Except HistoryError Unit × Keeper :=
  match k with
  | none => (.error disabledFailure, none)
  | some r =>
    let (answer, r) := r.flush
    (answer, some r)

def stats (k : Keeper) : Except HistoryError Stats := k.ask Recorder.stats

def range (k : Keeper) (q : Query) : Except HistoryError (List Row) := k.ask fun r => r.range q

def latest (k : Keeper) (hostId : String) (limit : UInt64) : Except HistoryError (List Row) :=
  k.ask fun r => r.latest hostId limit

end Keeper
end FleetWatch.History
