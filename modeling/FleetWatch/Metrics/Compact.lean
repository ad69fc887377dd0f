import FleetWatch.Metrics.Snapshot

/-!
# Compact readings

A snapshot reduced to a few optional fields with percentages as whole numbers, and the differences
between two such readings. A difference holds a field only when it changed; laid over the earlier
reading it gives the later one wherever that has a value.

## Main definitions

* `quantize`: a percentage as a whole number from 0 to 100.
* `Compact`, `Snapshot.compact`: the reduced reading.
* `Compact.diff`, `Compact.overlay`: what changed, and its application.
-/
namespace FleetWatch

open Wire

/-- The integer part of a percentage, held within 0 and 100. -/
def quantize (percent : Single) : UInt8 := UInt8.ofNat (percent.truncate 100)

theorem quantize_le (percent : Single) : (quantize percent).toNat ≤ 100 := by
  have := percent.truncate_le 100
  simp only [quantize, UInt8.toNat_ofNat']
  omega

/-- A reduced reading; absent fields are unknown or unchanged. -/
structure Compact where
  cpu : Option UInt8 := none
  mem : Option UInt8 := none
  disk : Option UInt8 := none
  rx : Option UInt64 := none
  tx : Option UInt64 := none
  uptime : Option UInt64 := none
deriving DecidableEq, Repr

def Compact.empty : Compact := {}

instance : Inhabited Compact := ⟨.empty⟩

/-- The reduced reading of a snapshot; the disk is the first one, if there is any. -/
def Snapshot.compact (s : Snapshot) : Compact where
  cpu := some (quantize s.cpu.usage)
  mem := some (quantize s.memory.usagePercent)
  disk := s.disks.head?.map fun d => quantize d.usagePercent
  rx := some s.network.rxSpeed
  tx := some s.network.txSpeed
  uptime := some s.uptime

/-- The present value, if there is one that differs from the previous. -/
def changed {α : Type} [DecidableEq α] (previous current : Option α) : Option α :=
  if current.isSome ∧ previous = current then none else current

namespace Compact

/-- The fields that are present now and were absent or different before. -/
def diff (previous current : Compact) : Compact where
  cpu := changed previous.cpu current.cpu
  mem := changed previous.mem current.mem
  disk := changed previous.disk current.disk
  rx := changed previous.rx current.rx
  tx := changed previous.tx current.tx
  uptime := changed previous.uptime current.uptime

def isEmpty (c : Compact) : Bool :=
  c.cpu.isNone && c.mem.isNone && c.disk.isNone && c.rx.isNone && c.tx.isNone && c.uptime.isNone

/-- The reading with the fields of a later one laid over it. -/
def overlay (c later : Compact) : Compact where
  cpu := later.cpu.or c.cpu
  mem := later.mem.or c.mem
  disk := later.disk.or c.disk
  rx := later.rx.or c.rx
  tx := later.tx.or c.tx
  uptime := later.uptime.or c.uptime

@[simp] theorem isEmpty_iff (c : Compact) : c.isEmpty = true ↔ c = .empty := by
  cases c; simp [isEmpty, empty, and_assoc]

theorem or_changed {α : Type} [DecidableEq α] (previous current : Option α) :
    (changed previous current).or previous = current.or previous := by
  unfold changed
  split
  · next h => obtain ⟨h, rfl⟩ := h; cases previous <;> simp_all
  · rfl

/-- A difference tells as much as the whole later reading. -/
@[simp] theorem overlay_diff (previous current : Compact) :
    previous.overlay (diff previous current) = previous.overlay current := by
  simp [overlay, diff, or_changed]

@[simp] theorem changed_self {α : Type} [DecidableEq α] (a : Option α) : changed a a = none := by
  cases a <;> simp [changed]

@[simp] theorem diff_self (c : Compact) : diff c c = .empty := by
  simp [diff, empty]

def fields :=
  Fields.cons "c" (.option .word8) .optional <|
  .cons "m" (.option .word8) .optional <|
  .cons "d" (.option .word8) .optional <|
  .cons "rx" (.option .word64) .optional <|
  .cons "tx" (.option .word64) .optional <|
  .cons "up" (.option .word64) .optional .nil

def view : View (Option UInt8 × Option UInt8 × Option UInt8 × Option UInt64 × Option UInt64 ×
    Option UInt64 × Unit) Compact :=
  ⟨fun (cpu, mem, disk, rx, tx, uptime, ()) => { cpu, mem, disk, rx, tx, uptime },
   fun c => (c.cpu, c.mem, c.disk, c.rx, c.tx, c.uptime, ()), fun _ => rfl⟩

def schema : Schema Compact := .record fields view

end Compact
end FleetWatch
