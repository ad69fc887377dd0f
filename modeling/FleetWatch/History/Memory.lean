import FleetWatch.History.Row
import Std.Data.TreeMap

/-!
# History in memory

The last rows of every host in the order of their arrival.

## Main definitions

* `History.Memory`, with `append`, `range`, `latest`, `cleanup` and `total`.
-/
namespace FleetWatch.History

/-- The rows of a host within a range of time, ends included. -/
structure Query where
  hostId : String
  start : Time.Instant
  stop : Time.Instant
  limit : Option UInt64

/-- Rows by host, at most `capacity` for each, the oldest arrival first. -/
structure Memory where
  capacity : Nat
  rows : Std.TreeMap String (List Row) := {}

namespace Memory

/-- An empty memory; every host has room for one row at least. -/
def new (capacity : UInt64) : Memory := { capacity := max 1 capacity.toNat }

def rowsOf (m : Memory) (hostId : String) : List Row := (m.rows[hostId]?).getD []

def lastOf {α : Type} (n : Nat) (l : List α) : List α := l.drop (l.length - n)

/-- Adds a row to those of its host; the rows beyond the capacity that arrived first go. -/
def appendRow (m : Memory) (r : Row) : Memory :=
  { m with rows := m.rows.insert r.hostId (lastOf m.capacity (m.rowsOf r.hostId ++ [r])) }

def append (m : Memory) (rows : List Row) : Memory := rows.foldl appendRow m

/-- The rows of a query in the order of arrival, the first `limit` of them. -/
def range (m : Memory) (q : Query) : List Row :=
  let found := (m.rowsOf q.hostId).filter fun r => q.start ≤ r.timestamp ∧ r.timestamp ≤ q.stop
  match q.limit with
  | some n => found.take n.toNat
  | none => found

/-- The `limit` rows of a host that arrived last, in the order of arrival. -/
def latest (m : Memory) (hostId : String) (limit : UInt64) : List Row :=
  lastOf limit.toNat (m.rowsOf hostId)

def total (m : Memory) : Nat := m.rows.toList.foldl (fun n (_, rows) => n + rows.length) 0

/-- Drops the rows from before a time, and counts them. -/
def cleanup (m : Memory) (before : Time.Instant) : Nat × Memory :=
  let rest := { m with rows := m.rows.map fun _ rows => rows.filter fun r => before ≤ r.timestamp }
  (m.total - rest.total, rest)

@[simp] theorem rowsOf_appendRow (m : Memory) (r : Row) (h : String) :
    (m.appendRow r).rowsOf h =
      if r.hostId = h then lastOf m.capacity (m.rowsOf h ++ [r]) else m.rowsOf h := by
  unfold appendRow rowsOf
  by_cases e : r.hostId = h
  · subst e; simp
  · simp [Std.TreeMap.getElem?_insert, e]

end Memory
end FleetWatch.History
