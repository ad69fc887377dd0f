import FleetWatch.Wire.Schema

/-!
# Snapshots

One host's full reading and its parts, with their wire schemas.

## Main definitions

* `Snapshot` and the structures of its sections: `OsInfo`, `CpuMetrics`, `MemoryMetrics`,
  `DiskMetrics`, `NetworkMetrics`, `LoadAverage`, `PingMetrics`.
* A `schema` in the namespace of each.
-/
namespace FleetWatch

open Wire

structure OsInfo where
  name : String
  version : String
  kernel : String
  arch : String
deriving DecidableEq

/-- The processor: usage in percent, overall and per core, and frequency in MHz. -/
structure CpuMetrics where
  brand : String
  cores : UInt64
  usage : Single
  frequency : UInt64
  perCore : List Single
deriving DecidableEq

/-- Memory and swap in bytes, usage in percent. -/
structure MemoryMetrics where
  total : UInt64
  used : UInt64
  available : UInt64
  swapTotal : UInt64
  swapUsed : UInt64
  usagePercent : Single
deriving DecidableEq

/-- A disk in bytes, usage in percent. -/
structure DiskMetrics where
  name : String
  mountPoint : String
  fsType : String
  total : UInt64
  used : UInt64
  available : UInt64
  usagePercent : Single
deriving DecidableEq

structure NetworkInterface where
  name : String
  rxBytes : UInt64
  txBytes : UInt64
  rxPackets : UInt64
  txPackets : UInt64
deriving DecidableEq

/-- Bytes received and sent, in total and per second. -/
structure NetworkMetrics where
  interfaces : List NetworkInterface
  totalRx : UInt64
  totalTx : UInt64
  rxSpeed : UInt64
  txSpeed : UInt64
deriving DecidableEq

/-- The load over one, five and fifteen minutes. -/
structure LoadAverage where
  one : Double
  five : Double
  fifteen : Double
deriving DecidableEq

def LoadAverage.none : LoadAverage := ⟨.zero false, .zero false, .zero false⟩

/-- The result of probing one target; the loss in percent. -/
structure PingResult where
  name : String
  host : String
  latencyMs : Option Double
  packetLoss : Double
  status : String
deriving DecidableEq

structure PingMetrics where
  targets : List PingResult
deriving DecidableEq

/-- One host's full reading. -/
structure Snapshot where
  timestamp : Time.Instant
  hostname : String
  os : OsInfo
  cpu : CpuMetrics
  memory : MemoryMetrics
  disks : List DiskMetrics
  network : NetworkMetrics
  uptime : UInt64
  loadAverage : LoadAverage
  ping : Option PingMetrics
  version : Option String
  ipAddresses : List String
deriving DecidableEq

def OsInfo.schema : Schema OsInfo :=
  .record
    (.cons "name" .text .required <|
     .cons "version" .text (.orElse "") <|
     .cons "kernel" .text (.orElse "") <|
     .cons "arch" .text (.orElse "") .nil)
    ⟨fun (name, version, kernel, arch, ()) => { name, version, kernel, arch },
     fun o => (o.name, o.version, o.kernel, o.arch, ()), fun _ => rfl⟩

def CpuMetrics.schema : Schema CpuMetrics :=
  .record
    (.cons "brand" .text (.orElse "") <|
     .cons "cores" .word64 .required <|
     .cons "usage" .single .required <|
     .cons "frequency" .word64 (.orElse 0) <|
     .cons "per_core" (.list .single) (.orElse []) .nil)
    ⟨fun (brand, cores, usage, frequency, perCore, ()) =>
      { brand, cores, usage, frequency, perCore },
     fun c => (c.brand, c.cores, c.usage, c.frequency, c.perCore, ()), fun _ => rfl⟩

def MemoryMetrics.schema : Schema MemoryMetrics :=
  .record
    (.cons "total" .word64 .required <|
     .cons "used" .word64 .required <|
     .cons "available" .word64 (.orElse 0) <|
     .cons "swap_total" .word64 (.orElse 0) <|
     .cons "swap_used" .word64 (.orElse 0) <|
     .cons "usage_percent" .single .required .nil)
    ⟨fun (total, used, available, swapTotal, swapUsed, usagePercent, ()) =>
      { total, used, available, swapTotal, swapUsed, usagePercent },
     fun m => (m.total, m.used, m.available, m.swapTotal, m.swapUsed, m.usagePercent, ()),
     fun _ => rfl⟩

def DiskMetrics.schema : Schema DiskMetrics :=
  .record
    (.cons "name" .text .required <|
     .cons "mount_point" .text (.orElse "") <|
     .cons "fs_type" .text (.orElse "") <|
     .cons "total" .word64 .required <|
     .cons "used" .word64 .required <|
     .cons "available" .word64 (.orElse 0) <|
     .cons "usage_percent" .single .required .nil)
    ⟨fun (name, mountPoint, fsType, total, used, available, usagePercent, ()) =>
      { name, mountPoint, fsType, total, used, available, usagePercent },
     fun d => (d.name, d.mountPoint, d.fsType, d.total, d.used, d.available, d.usagePercent, ()),
     fun _ => rfl⟩

def NetworkInterface.schema : Schema NetworkInterface :=
  .record
    (.cons "name" .text .required <|
     .cons "rx_bytes" .word64 .required <|
     .cons "tx_bytes" .word64 .required <|
     .cons "rx_packets" .word64 (.orElse 0) <|
     .cons "tx_packets" .word64 (.orElse 0) .nil)
    ⟨fun (name, rxBytes, txBytes, rxPackets, txPackets, ()) =>
      { name, rxBytes, txBytes, rxPackets, txPackets },
     fun i => (i.name, i.rxBytes, i.txBytes, i.rxPackets, i.txPackets, ()), fun _ => rfl⟩

def NetworkMetrics.schema : Schema NetworkMetrics :=
  .record
    (.cons "interfaces" (.list NetworkInterface.schema) (.orElse []) <|
     .cons "total_rx" .word64 .required <|
     .cons "total_tx" .word64 .required <|
     .cons "rx_speed" .word64 (.orElse 0) <|
     .cons "tx_speed" .word64 (.orElse 0) .nil)
    ⟨fun (interfaces, totalRx, totalTx, rxSpeed, txSpeed, ()) =>
      { interfaces, totalRx, totalTx, rxSpeed, txSpeed },
     fun n => (n.interfaces, n.totalRx, n.totalTx, n.rxSpeed, n.txSpeed, ()), fun _ => rfl⟩

def LoadAverage.schema : Schema LoadAverage :=
  .record
    (.cons "one" .double .required <|
     .cons "five" .double .required <|
     .cons "fifteen" .double .required .nil)
    ⟨fun (one, five, fifteen, ()) => { one, five, fifteen },
     fun l => (l.one, l.five, l.fifteen, ()), fun _ => rfl⟩

def PingResult.schema : Schema PingResult :=
  .record
    (.cons "name" .text .required <|
     .cons "host" .text .required <|
     .cons "latency_ms" (.option .double) .optional <|
     .cons "packet_loss" .double (.orElse (.zero false)) <|
     .cons "status" .text .required .nil)
    ⟨fun (name, host, latencyMs, packetLoss, status, ()) =>
      { name, host, latencyMs, packetLoss, status },
     fun p => (p.name, p.host, p.latencyMs, p.packetLoss, p.status, ()), fun _ => rfl⟩

def PingMetrics.schema : Schema PingMetrics :=
  .record (.cons "targets" (.list PingResult.schema) .required .nil)
    ⟨fun (targets, ()) => { targets }, fun p => (p.targets, ()), fun _ => rfl⟩

def Snapshot.schema : Schema Snapshot :=
  .record
    (.cons "timestamp" .instant .required <|
     .cons "hostname" .text .required <|
     .cons "os" OsInfo.schema .required <|
     .cons "cpu" CpuMetrics.schema .required <|
     .cons "memory" MemoryMetrics.schema .required <|
     .cons "disks" (.list DiskMetrics.schema) (.orElse []) <|
     .cons "network" NetworkMetrics.schema .required <|
     .cons "uptime" .word64 (.orElse 0) <|
     .cons "load_average" LoadAverage.schema (.orElse .none) <|
     .cons "ping" (.option PingMetrics.schema) .optional <|
     .cons "version" (.option .text) .optional <|
     .cons "ip_addresses" (.list .text) .nonempty .nil)
    ⟨fun (timestamp, hostname, os, cpu, memory, disks, network, uptime, loadAverage, ping, version,
        ipAddresses, ()) =>
      { timestamp, hostname, os, cpu, memory, disks, network, uptime, loadAverage, ping, version,
        ipAddresses },
     fun s => (s.timestamp, s.hostname, s.os, s.cpu, s.memory, s.disks, s.network, s.uptime,
      s.loadAverage, s.ping, s.version, s.ipAddresses, ()), fun _ => rfl⟩

end FleetWatch
