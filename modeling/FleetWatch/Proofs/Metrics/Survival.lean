import FleetWatch.Message.Agent
import FleetWatch.Message.Dashboard
import FleetWatch.Proofs.Wire.Scalars

/-!
# Snapshots on the wire

A snapshot is read back from its text exactly when all its floats survive. Nothing else can get
lost: the timestamp of a snapshot that came out of a frame is always read back.

## Main definitions

* `Snapshot.singles`, `Snapshot.doubles`: the floats of a snapshot.
* `Snapshot.Survives`: all of these are read back.
* `Snapshot.ReadsBack`: the snapshot is read back from its text.
-/
namespace FleetWatch

open Wire

def PingResult.doubles (p : PingResult) : List Double := p.latencyMs.toList ++ [p.packetLoss]

def LoadAverage.doubles (l : LoadAverage) : List Double := [l.one, l.five, l.fifteen]

namespace Snapshot

/-- The usages of a snapshot. -/
def singles (s : Snapshot) : List Single :=
  s.cpu.usage :: s.cpu.perCore ++ s.memory.usagePercent :: s.disks.map DiskMetrics.usagePercent

/-- The load averages of a snapshot, and the latencies and losses of its probes. -/
def doubles (s : Snapshot) : List Double :=
  s.loadAverage.doubles ++ s.ping.toList.flatMap fun p => p.targets.flatMap PingResult.doubles

/-- All floats of a snapshot are read back from what they are written as. -/
def Survives (s : Snapshot) : Prop :=
  (∀ x ∈ s.singles, x.Survives) ∧ ∀ x ∈ s.doubles, x.Survives

instance (s : Snapshot) : Decidable s.Survives := inferInstanceAs (Decidable (_ ∧ _))

end Snapshot

/-! ## Schemas -/

@[simp] theorem OsInfo.proper : OsInfo.schema.Proper :=
  ⟨by decide, fun _ => rfl, by simp⟩

@[simp] theorem CpuMetrics.proper : CpuMetrics.schema.Proper :=
  ⟨by decide, fun _ => rfl, by simp⟩

@[simp] theorem MemoryMetrics.proper : MemoryMetrics.schema.Proper :=
  ⟨by decide, fun _ => rfl, by simp⟩

@[simp] theorem DiskMetrics.proper : DiskMetrics.schema.Proper :=
  ⟨by decide, fun _ => rfl, by simp⟩

@[simp] theorem NetworkInterface.proper : NetworkInterface.schema.Proper :=
  ⟨by decide, fun _ => rfl, by simp⟩

@[simp] theorem NetworkMetrics.proper : NetworkMetrics.schema.Proper :=
  ⟨by decide, fun _ => rfl, by simp⟩

@[simp] theorem LoadAverage.proper : LoadAverage.schema.Proper :=
  ⟨by decide, fun _ => rfl, by simp⟩

@[simp] theorem PingResult.proper : PingResult.schema.Proper :=
  ⟨by decide, fun _ => rfl, by simp⟩

@[simp] theorem PingMetrics.proper : PingMetrics.schema.Proper :=
  ⟨by decide, fun _ => rfl, by simp⟩

@[simp] theorem Snapshot.proper : Snapshot.schema.Proper :=
  ⟨by decide, fun _ => rfl, by simp⟩

@[simp] theorem Message.FromAgent.proper : Message.FromAgent.schema.Proper :=
  ⟨by decide, by decide, fun _ => rfl, by simp, by decide, fun _ => rfl, by simp, trivial⟩

/-! ## Reading back -/

section Returns
variable (surplus : Json.Fault) (room : Nat)

@[simp] theorem OsInfo.returns (o : OsInfo) : OsInfo.schema.Returns surplus (room + 1) o := by
  simp [OsInfo.schema]

@[simp] theorem CpuMetrics.returns_iff (c : CpuMetrics) :
    CpuMetrics.schema.Returns surplus (room + 2) c ↔
      c.usage.Survives ∧ ∀ x ∈ c.perCore, x.Survives := by
  simp [CpuMetrics.schema]

@[simp] theorem MemoryMetrics.returns_iff (m : MemoryMetrics) :
    MemoryMetrics.schema.Returns surplus (room + 1) m ↔ m.usagePercent.Survives := by
  simp [MemoryMetrics.schema]

@[simp] theorem DiskMetrics.returns_iff (d : DiskMetrics) :
    DiskMetrics.schema.Returns surplus (room + 1) d ↔ d.usagePercent.Survives := by
  simp [DiskMetrics.schema]

@[simp] theorem NetworkInterface.returns (i : NetworkInterface) :
    NetworkInterface.schema.Returns surplus (room + 1) i := by
  simp [NetworkInterface.schema]

@[simp] theorem NetworkMetrics.returns (n : NetworkMetrics) :
    NetworkMetrics.schema.Returns surplus (room + 3) n := by
  simp [NetworkMetrics.schema]

@[simp] theorem LoadAverage.returns_iff (l : LoadAverage) :
    LoadAverage.schema.Returns surplus (room + 1) l ↔ ∀ x ∈ l.doubles, x.Survives := by
  simp [LoadAverage.schema, LoadAverage.doubles]

@[simp] theorem PingResult.returns_iff (p : PingResult) :
    PingResult.schema.Returns surplus (room + 1) p ↔ ∀ x ∈ p.doubles, x.Survives := by
  obtain ⟨name, host, latencyMs, packetLoss, status⟩ := p
  cases latencyMs with
  | none => simp [PingResult.schema, PingResult.doubles]
  | some x =>
    have hlatency : x.Survives → Schema.double.write x ≠ .null := float_ne_null_of_survives
    simpa [PingResult.schema, PingResult.doubles] using fun _ hx => hlatency hx

@[simp] theorem PingMetrics.returns_iff (p : PingMetrics) :
    PingMetrics.schema.Returns surplus (room + 3) p ↔
      ∀ x ∈ p.targets.flatMap PingResult.doubles, x.Survives := by
  simp only [PingMetrics.schema, Schema.Returns, Fields.Returns, List.mem_flatMap,
    forall_exists_index, and_imp]
  have htargets : (∀ r ∈ p.targets, PingResult.schema.Returns surplus (room + 1) r) ↔
      ∀ x r, r ∈ p.targets → x ∈ r.doubles → x.Survives := by
    simp only [PingResult.returns_iff]
    exact ⟨fun h x r hr hx => h r hr x hx, fun h r hr x hx => h x r hr hx⟩
  simp [← htargets]

@[simp] theorem PingMetrics.write_ne_null (p : PingMetrics) : schema.write p ≠ .null :=
  fun h => by cases h

/-- The floats of a snapshot, section by section. -/
theorem Snapshot.survives_iff (s : Snapshot) :
    s.Survives ↔ (s.cpu.usage.Survives ∧ ∀ x ∈ s.cpu.perCore, x.Survives) ∧
      s.memory.usagePercent.Survives ∧ (∀ d ∈ s.disks, d.usagePercent.Survives) ∧
      (∀ x ∈ s.loadAverage.doubles, x.Survives) ∧
      ∀ p, s.ping = some p → ∀ x ∈ p.targets.flatMap PingResult.doubles, x.Survives := by
  have hping : (∀ x ∈ s.ping.toList.flatMap fun p => p.targets.flatMap PingResult.doubles,
      x.Survives) ↔
      ∀ p, s.ping = some p → ∀ x ∈ p.targets.flatMap PingResult.doubles, x.Survives := by
    cases s.ping <;> simp
  rw [← hping]
  simp [Snapshot.Survives, Snapshot.singles, Snapshot.doubles, or_imp, forall_and, and_assoc]

/-- A snapshot is read back when its timestamp is regular and its floats survive. -/
@[simp] theorem Snapshot.returns_iff (s : Snapshot) :
    Snapshot.schema.Returns surplus (room + 4) s ↔ s.timestamp.Regular ∧ s.Survives := by
  rw [Snapshot.survives_iff]
  obtain ⟨timestamp, hostname, os, cpu, memory, disks, network, uptime, loadAverage, ping, version,
    ipAddresses⟩ := s
  cases ping <;> cases version <;> simp [Snapshot.schema]

end Returns

namespace Snapshot

@[simp] theorem write_ne_null (s : Snapshot) : schema.write s ≠ .null := fun h => by cases h

/-- A snapshot is read back from its text. -/
def ReadsBack (s : Snapshot) : Prop := schema.decode (schema.encode s) = .ok s

theorem readsBack_iff (s : Snapshot) : s.ReadsBack ↔ s.timestamp.Regular ∧ s.Survives := by
  rw [ReadsBack, Schema.decode_encode_iff proper]
  exact returns_iff .text 123 s

/-- A snapshot that came out of a frame has a regular timestamp. -/
theorem regular_of_decode {text : String} {s : Snapshot} {claimed version token : Option String}
    (h : Message.FromAgent.schema.decode text = .ok (.metrics s claimed version token)) :
    s.timestamp.Regular := by
  have hdefaults : Message.FromAgent.schema.DefaultsAll Scalar.Dated := by
    simp [Message.FromAgent.schema, Snapshot.schema, OsInfo.schema, CpuMetrics.schema,
      MemoryMetrics.schema, DiskMetrics.schema, NetworkMetrics.schema, NetworkInterface.schema,
      LoadAverage.schema, PingMetrics.schema, PingResult.schema, Schema.DefaultsAll,
      Fields.DefaultsAll, Variants.DefaultsAll, Schema.All, Fields.All, Scalar.Dated,
      Presence.required, Presence.orElse, Presence.optional, Presence.nonempty, Absent.inObject?]
  obtain ⟨m, hread, h⟩ := bind_eq_ok_iff.mp h
  have hm : m = .metrics s claimed version token := by
    split at h
    · cases h
    · exact Except.ok.inj h
  have hall := Schema.all_of_read Scalar.dated_of_read _ Message.FromAgent.proper hdefaults hread
  rw [hm] at hall
  have hsnapshot : Snapshot.schema.All Scalar.Dated s := by
    simpa [Message.FromAgent.schema, Schema.All, Fields.All, Variants.All, Scalar.Dated] using hall
  exact hsnapshot.1

end Snapshot

/-! ## Frames -/

namespace Message.FromAgent

/-- What an agent presents to be authenticated is read as that. -/
theorem decode_encode_auth (hostId token : String) (version : Option String) :
    schema.decode (schema.encode (.auth hostId token version)) =
      .ok (.auth hostId token version) := by
  rw [Schema.decode_encode_iff proper]
  cases version <;> simp [schema]

/-- A metrics frame is read back when its snapshot is. -/
theorem decode_encode_metrics_iff (s : Snapshot) (claimed version token : Option String) :
    schema.decode (schema.encode (.metrics s claimed version token)) =
      .ok (.metrics s claimed version token) ↔ s.timestamp.Regular ∧ s.Survives := by
  have hsnapshot : Snapshot.schema.Returns .shape (Json.nestingLimit - 1) s ↔
      s.timestamp.Regular ∧ s.Survives := Snapshot.returns_iff .shape 122 s
  rw [Schema.decode_encode_iff proper]
  cases claimed <;> cases version <;> cases token <;> simp [schema, hsnapshot]

end Message.FromAgent
end FleetWatch
