import FleetWatch.Metrics.Snapshot

/-!
# Readings

The arithmetic of a reading, and which readings can be made sense of.

## Main definitions

* `percentOf`, `ratePerSecond`: a share in percent, and the speed of a counter.
* `Snapshot.fault?`: why a snapshot is refused.
-/
namespace FleetWatch

/-- The share of `total` that is used, in percent; nothing of nothing is zero. -/
def percentOf (used total : UInt64) : Single :=
  if total = 0 then .zero false
  else
    let share : Double := (Binary.ofNat used.toNat).div (.ofNat total.toNat)
    (share.mul (.ofNat 100)).convert

/-- The increase of a counter per second, cut off to a whole number; zero when no time has passed or
the counter went back. -/
def ratePerSecond (previous current : UInt64) (elapsed : Double) : UInt64 :=
  if elapsed.nonPositive then 0
  else
    let increase : Double := .ofNat (current.toNat - previous.toNat)
    UInt64.ofNat ((increase.div elapsed).truncate (UInt64.size - 1))

/-- What makes a snapshot useless: a usage that is not a finite number. -/
inductive ReadingFault where
  | cpuUsage (value : Single)
  | memoryUsage (value : Single)
deriving DecidableEq

/-- The name of a float that is not finite. -/
def nonFiniteName {f : Binary.Format} : Binary f → String
  | .infinite true => "-inf"
  | .infinite false => "inf"
  | _ => "NaN"

def ReadingFault.message : ReadingFault → String
  | cpuUsage x => "cpu usage is not a number: " ++ nonFiniteName x
  | memoryUsage x => "memory usage is not a number: " ++ nonFiniteName x

/-- Why a snapshot is refused, if it is; the processor is looked at first. -/
def Snapshot.fault? (s : Snapshot) : Option ReadingFault :=
  if !s.cpu.usage.isFinite then some (.cpuUsage s.cpu.usage)
  else if !s.memory.usagePercent.isFinite then some (.memoryUsage s.memory.usagePercent)
  else none

theorem Snapshot.fault?_eq_none_iff (s : Snapshot) :
    s.fault? = none ↔ s.cpu.usage.isFinite = true ∧ s.memory.usagePercent.isFinite = true := by
  unfold fault?; split <;> simp_all

end FleetWatch
