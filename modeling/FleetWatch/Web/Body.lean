import FleetWatch.History.Row
import FleetWatch.Message.Agent

/-!
# Bodies of the web interface

What requests hold and what is answered.

## Main definitions

* `Web.CommandRequest`, `Web.CommandReceipt`: sending a command to an agent.
* `Web.HistoryPoint`, `Web.HistoryReport`: a stretch of a host's history.
* `Web.HealthReport`, `Web.ViewersReport`: the state of the hub.
-/
namespace FleetWatch.Web

open Wire

/-- A command to be sent. -/
structure CommandRequest where
  action : String
  payload : Option Json.Value

def CommandRequest.schema : Schema CommandRequest :=
  .record Command.fields
    ⟨fun (action, payload, ()) => { action, payload }, fun c => (c.action, c.payload, ()),
     fun _ => rfl⟩

structure CommandReceipt where
  serverId : String
  action : String
  queued : Bool

def CommandReceipt.schema : Schema CommandReceipt :=
  .record
    (.cons "server_id" .text .required <|
     .cons "action" .text .required <|
     .cons "queued" .flag .required .nil)
    ⟨fun (serverId, action, queued, ()) => { serverId, action, queued },
     fun r => (r.serverId, r.action, r.queued, ()), fun _ => rfl⟩

/-- What a chart shows of a row. -/
structure HistoryPoint where
  timestamp : Time.Instant
  cpu : Single
  mem : Single
  disk : Option Single
  rxSpeed : UInt64
  txSpeed : UInt64

namespace HistoryPoint

def ofRow (r : History.Row) : HistoryPoint where
  timestamp := r.timestamp
  cpu := r.cpu
  mem := r.mem
  disk := r.disk
  rxSpeed := r.rxSpeed
  txSpeed := r.txSpeed

def schema : Schema HistoryPoint :=
  .record
    (.cons "timestamp" .instant .required <|
     .cons "cpu" .single .required <|
     .cons "mem" .single .required <|
     .cons "disk" (.option .single) .optional <|
     .cons "rx_speed" .word64 .required <|
     .cons "tx_speed" .word64 .required .nil)
    ⟨fun (timestamp, cpu, mem, disk, rxSpeed, txSpeed, ()) =>
      { timestamp, cpu, mem, disk, rxSpeed, txSpeed },
     fun p => (p.timestamp, p.cpu, p.mem, p.disk, p.rxSpeed, p.txSpeed, ()), fun _ => rfl⟩

end HistoryPoint

/-- The points of a host within a range of time, ends included. -/
structure HistoryReport where
  serverId : String
  start : Time.Instant
  stop : Time.Instant
  count : UInt64
  points : List HistoryPoint

def HistoryReport.schema : Schema HistoryReport :=
  .record
    (.cons "server_id" .text .required <|
     .cons "start" .instant .required <|
     .cons "end" .instant .required <|
     .cons "count" .word64 .required <|
     .cons "points" (.list HistoryPoint.schema) .required .nil)
    ⟨fun (serverId, start, stop, count, points, ()) => { serverId, start, stop, count, points },
     fun r => (r.serverId, r.start, r.stop, r.count, r.points, ()), fun _ => rfl⟩

/-- The counters of the history recorder. -/
structure RecorderHealth where
  received : UInt64
  buffered : UInt64
  failedRows : UInt64

def RecorderHealth.schema : Schema RecorderHealth :=
  .record
    (.cons "received" .word64 .required <|
     .cons "buffered" .word64 .required <|
     .cons "failed_rows" .word64 .required .nil)
    ⟨fun (received, buffered, failedRows, ()) => { received, buffered, failedRows },
     fun h => (h.received, h.buffered, h.failedRows, ()), fun _ => rfl⟩

/-- How many hosts, agents and dashboards there are. -/
structure HealthReport where
  status : String
  timestamp : String
  hosts : UInt64
  online : UInt64
  agents : UInt64
  dashboards : UInt64
  storage : Option RecorderHealth

def HealthReport.schema : Schema HealthReport :=
  .record
    (.cons "status" .text .required <|
     .cons "timestamp" .text .required <|
     .cons "hosts" .word64 .required <|
     .cons "online" .word64 .required <|
     .cons "agents" .word64 .required <|
     .cons "dashboards" .word64 .required <|
     .cons "storage" (.option RecorderHealth.schema) .optional .nil)
    ⟨fun (status, timestamp, hosts, online, agents, dashboards, storage, ()) =>
      { status, timestamp, hosts, online, agents, dashboards, storage },
     fun h => (h.status, h.timestamp, h.hosts, h.online, h.agents, h.dashboards, h.storage, ()),
     fun _ => rfl⟩

/-- How many dashboards watch, and from how many places. -/
structure ViewersReport where
  dashboards : UInt64
  distinctOrigins : UInt64

def ViewersReport.schema : Schema ViewersReport :=
  .record
    (.cons "dashboards" .word64 .required <|
     .cons "distinct_origins" .word64 .required .nil)
    ⟨fun (dashboards, distinctOrigins, ()) => { dashboards, distinctOrigins },
     fun v => (v.dashboards, v.distinctOrigins, ()), fun _ => rfl⟩

end FleetWatch.Web
