import FleetWatch.Config
import FleetWatch.Metrics.Snapshot

/-!
# Probes

The results of trying to connect to a target several times.

## Main definitions

* `Probe.Attempt`: how one try ended.
* `Probe.result`: the result of all tries.
* `Probe.round`: the results of all targets.
-/
namespace FleetWatch.Probe

/-- How a try to connect ended. -/
inductive Attempt where
  | connected (time : Time.Span)
  | timedOut
  | failed
deriving DecidableEq

def standardAttempts : Nat := 3

/-- At least one try is made. -/
def attemptCount (wanted : Nat) : Nat := max wanted 1

def seconds (t : Time.Span) : Double :=
  let part : Double := (Binary.ofNat (t.nanos % 1000000000)).div (.ofNat 1000000000)
  (Binary.ofNat (t.nanos / 1000000000)).add part

def Attempt.time? : Attempt → Option Time.Span
  | connected t => some t
  | _ => none

/-- The mean of some times in milliseconds, unless there are none. -/
def meanMillis? (times : List Time.Span) : Option Double :=
  if times.isEmpty then none
  else
    let total : Double := times.foldl (fun sum t => sum.add (seconds t)) (.zero false)
    some ((total.mul (.ofNat 1000)).div (.ofNat times.length))

/-- The share of tries that failed, in percent. -/
def lossPercent (failed tries : Nat) : Double :=
  let share : Double := (Binary.ofNat failed).div (.ofNat tries)
  share.mul (.ofNat 100)

/-- The status of a target: that of the last failure, if no try has connected. -/
def status (attempts : List Attempt) : String :=
  if attempts.any fun a => a.time?.isSome then "ok"
  else if attempts.getLast? = some .timedOut then "timeout" else "error"

def result (target : ProbeTarget) (attempts : List Attempt) : PingResult :=
  let times := attempts.filterMap Attempt.time?
  { name := target.name
    host := target.host
    latencyMs := meanMillis? times
    packetLoss := lossPercent (attempts.length - times.length) attempts.length
    status := status attempts }

/-- The results of a round; only targets of the kind `tcp` can be probed. -/
def round (targets : List ProbeTarget) (tries : ProbeTarget → List Attempt) : PingMetrics where
  targets := (targets.filter fun t => t.kind = "tcp").map fun t => result t (tries t)

end FleetWatch.Probe
