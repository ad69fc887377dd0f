import FleetWatch.Error
import FleetWatch.History.Memory
import FleetWatch.Wire.Writer

/-!
# History in a table

The rows of every host under their time in milliseconds, one for each. Cells hold 64-bit floats,
signed 64-bit integers and text: rates pass through as bit patterns, the sign of a zero is lost, a
missing number has no cell, and the snapshot is kept as its JSON text.

## Main definitions

* `History.Cells`: a row as stored; `History.Cells.ofRow?`, `History.Cells.toRow`.
* `History.Table`, with `append`, `range`, `latest` and `cleanup`.
-/
namespace FleetWatch.History

/-- A stored row, without its host and time. -/
structure Cells where
  cpu : Double
  mem : Double
  disk : Option Double
  rxSpeed : Int64
  txSpeed : Int64
  snapshot : String

/-- A float as stored: a zero loses its sign, the missing number has no cell. -/
def storedFloat (x : Single) : Option Double :=
  match (x.convert : Double) with
  | .nan => none
  | .finite negative units holds =>
    if units = 0 then some (.zero false) else some (.finite negative units holds)
  | y => some y

namespace Cells

/-- The cells of a row. Processor and memory usage must have one. -/
def ofRow? (r : Row) : Except HistoryError Cells :=
  match storedFloat r.cpu, storedFloat r.mem with
  | none, _ => .error (.queryFailed (missing "cpu"))
  | _, none => .error (.queryFailed (missing "mem"))
  | some cpu, some mem =>
    .ok
      { cpu, mem, disk := r.disk.bind storedFloat
        rxSpeed := r.rxSpeed.toInt64, txSpeed := r.txSpeed.toInt64
        snapshot := Snapshot.schema.encode r.snapshot }
where
  /-- The complaint about a column without a cell. -/
  missing (column : String) : String :=
    "error returned from database: (code: 1299) NOT NULL constraint failed: history." ++ column

/-- The row of a host and time; its snapshot must be readable. -/
def toRow (c : Cells) (hostId : String) (millis : Int) : Except HistoryError Row :=
  match Snapshot.schema.decode c.snapshot, Time.Instant.ofMillis? millis with
  | .error _, _ => .error (.serialization "failed to deserialize snapshot")
  | .ok _, none => .error (.serialization ("timestamp out of range: " ++ toString millis))
  | .ok snapshot, some timestamp =>
    .ok
      { timestamp, hostId, snapshot
        cpu := c.cpu.convert, mem := c.mem.convert, disk := c.disk.map Binary.convert
        rxSpeed := c.rxSpeed.toUInt64, txSpeed := c.txSpeed.toUInt64 }

end Cells

def closedComplaint : String := "attempted to acquire a connection on a closed pool"

/-- Stored rows by host and time in milliseconds. -/
structure Table where
  path : String
  isOpen : Bool := true
  rows : Std.TreeMap String (Std.TreeMap Int Cells) := {}

namespace Table

def rowsOf (t : Table) (hostId : String) : List (Int × Cells) :=
  ((t.rows[hostId]?).map Std.TreeMap.toList).getD []

/-- Stores a row, in place of one with its host and time. -/
def put (t : Table) (hostId : String) (millis : Int) (c : Cells) : Table :=
  { t with rows := t.rows.insert hostId (((t.rows[hostId]?).getD {}).insert millis c) }

/-- Stores all rows, or none when one of them cannot be stored. -/
def append (t : Table) (rows : List Row) : Except HistoryError Table :=
  if rows.isEmpty then .ok t
  else if !t.isOpen then .error (.queryFailed closedComplaint)
  else rows.foldlM (fun t r => do return t.put r.hostId r.timestamp.millis (← Cells.ofRow? r)) t

/-- A limit on the number of rows, as a signed word; a negative one is none. -/
def rowLimit (limit : UInt64) (l : List (Int × Cells)) : List (Int × Cells) :=
  if limit.toInt64 < 0 then l else l.take limit.toNat

def readAll (hostId : String) (l : List (Int × Cells)) : Except HistoryError (List Row) :=
  l.mapM fun (millis, c) => c.toRow hostId millis

/-- The rows of a query in the order of time, the first `limit` of them. -/
def range (t : Table) (q : Query) : Except HistoryError (List Row) :=
  if !t.isOpen then .error (.queryFailed closedComplaint)
  else
    let found := (t.rowsOf q.hostId).filter fun (millis, _) =>
      q.start.millis ≤ millis ∧ millis ≤ q.stop.millis
    readAll q.hostId (match q.limit with
      | some n => rowLimit n found
      | none => found)

/-- The `limit` rows of a host with the latest times, in the order of time. -/
def latest (t : Table) (hostId : String) (limit : UInt64) : Except HistoryError (List Row) :=
  if !t.isOpen then .error (.queryFailed closedComplaint)
  else List.reverse <$> readAll hostId (rowLimit limit (t.rowsOf hostId).reverse)

def total (t : Table) : Nat := t.rows.toList.foldl (fun n (_, rows) => n + rows.size) 0

/-- Drops the rows from before a time, and counts them. -/
def cleanup (t : Table) (before : Time.Instant) : Except HistoryError (Nat × Table) :=
  if !t.isOpen then .error (.queryFailed closedComplaint)
  else
    let rest := { t with
      rows := t.rows.map fun _ rows => rows.filter fun millis _ => before.millis ≤ millis }
    .ok (t.total - rest.total, rest)

def close (t : Table) : Table := { t with isOpen := false }

def reopen (t : Table) : Table := { t with isOpen := true }

end Table
end FleetWatch.History
