import FleetWatch.History.Table

/-!
# Backends of the history

Where rows are kept: in memory or in a table. A backend may be out of service; then every call
fails.

## Main definitions

* `History.Backend`, with `append`, `range`, `latest`, `cleanup`, `health` and `close`.
-/
namespace FleetWatch.History

/-- Where rows are kept. -/
inductive Store where
  | memory (m : Memory)
  | table (t : Table)

/-- A store, in service or not. -/
structure Backend where
  store : Store
  down : Bool := false

structure Health where
  healthy : Bool
  message : String
  metadata : List (String × String)

namespace Backend

/-- The failure of a backend that is out of service. -/
def outage : HistoryError := .connectionFailed "database is down"

/-- Goes on with the store, if that is in service. -/
def withStore {α : Type} (b : Backend) (f : Store → Except HistoryError α) :
    Except HistoryError α :=
  if b.down then .error outage else f b.store

/-- Keeps rows, all or none. -/
def append (b : Backend) (rows : List Row) : Except HistoryError Backend :=
  b.withStore fun
    | .memory m => .ok { b with store := .memory (m.append rows) }
    | .table t => do return { b with store := .table (← t.append rows) }

def range (b : Backend) (q : Query) : Except HistoryError (List Row) :=
  b.withStore fun
    | .memory m => .ok (m.range q)
    | .table t => t.range q

def latest (b : Backend) (hostId : String) (limit : UInt64) : Except HistoryError (List Row) :=
  b.withStore fun
    | .memory m => .ok (m.latest hostId limit)
    | .table t => t.latest hostId limit

/-- Drops the rows from before a time, and counts them. -/
def cleanup (b : Backend) (before : Time.Instant) : Except HistoryError (Nat × Backend) :=
  b.withStore fun
    | .memory m =>
      let (n, m) := m.cleanup before
      .ok (n, { b with store := .memory m })
    | .table t => do
      let (n, t) ← t.cleanup before
      return (n, { b with store := .table t })

def health (b : Backend) : Except HistoryError Health :=
  b.withStore fun
    | .memory m => .ok
      { healthy := true, message := "In-memory storage operational"
        metadata := [("backend", "memory"), ("total_rows", toString m.total)] }
    | .table t =>
      if t.isOpen then .ok
        { healthy := true, message := "SQLite backend operational"
          metadata := [("backend", "sqlite"), ("db_path", t.path)] }
      else .ok
        { healthy := false, message := "health check failed: " ++ closedComplaint, metadata := [] }

def close (b : Backend) : Except HistoryError Backend :=
  b.withStore fun
    | .memory _ => .ok b
    | .table t => .ok { b with store := .table t.close }

end Backend
end FleetWatch.History
