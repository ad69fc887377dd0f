import FleetWatch.Metrics.Snapshot

/-!
# History rows

A snapshot as it is kept: with the host and time of its arrival, and the figures that charts show.

## Main definitions

* `History.Row`, `History.Row.ofSnapshot`.
-/
namespace FleetWatch.History

open Wire

/-- A kept snapshot. -/
structure Row where
  timestamp : Time.Instant
  hostId : String
  cpu : Single
  mem : Single
  disk : Option Single
  rxSpeed : UInt64
  txSpeed : UInt64
  snapshot : Snapshot
deriving DecidableEq

namespace Row

/-- The row of a snapshot of a host that arrived at a time. -/
def ofSnapshot (hostId : String) (timestamp : Time.Instant) (s : Snapshot) : Row where
  timestamp
  hostId
  cpu := s.cpu.usage
  mem := s.memory.usagePercent
  disk := s.disks.head?.map DiskMetrics.usagePercent
  rxSpeed := s.network.rxSpeed
  txSpeed := s.network.txSpeed
  snapshot := s

def schema : Schema Row :=
  .record
    (.cons "timestamp" .instant .required <|
     .cons "host_id" .text .required <|
     .cons "cpu" .single .required <|
     .cons "mem" .single .required <|
     .cons "disk" (.option .single) .nullable <|
     .cons "rx_speed" .word64 .required <|
     .cons "tx_speed" .word64 .required <|
     .cons "snapshot" Snapshot.schema .required .nil)
    ⟨fun (timestamp, hostId, cpu, mem, disk, rxSpeed, txSpeed, snapshot, ()) =>
      { timestamp, hostId, cpu, mem, disk, rxSpeed, txSpeed, snapshot },
     fun r => (r.timestamp, r.hostId, r.cpu, r.mem, r.disk, r.rxSpeed, r.txSpeed, r.snapshot, ()),
     fun _ => rfl⟩

end Row
end FleetWatch.History
