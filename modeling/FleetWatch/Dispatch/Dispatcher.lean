import FleetWatch.Dispatch.Reconciler
import FleetWatch.Hub

/-!
# The dispatcher

Tells the dashboards what has changed. A tick reconciles the hosts with what was last sent, numbers
the message and hands it over to a bounded queue, from which the fan-out passes it on to every
dashboard. A message that is not taken is dropped with its number, and its changes are found again
at the next tick.

## Main definitions

* `Handoff`: the queue between the two.
* `Dispatcher`, `Dispatcher.tick`.
* `Dispatcher.deliver`, `Dispatcher.deliverAll`: the fan-out.
-/
namespace FleetWatch

open Queue

/-- The messages that wait for the fan-out. -/
structure Handoff where
  queue : Bounded Message.ToDashboard
  /-- Somebody takes what waits. -/
  isOpen : Bool := true

namespace Handoff

/-- The messages that may wait for the fan-out. -/
def standardCapacity : Nat := 4

def start (capacity : Nat) : Handoff := { queue := .empty capacity }

def offer? (q : Handoff) (m : Message.ToDashboard) : Option Handoff :=
  if q.isOpen then (q.queue.offer? m).map fun queue => { q with queue } else none

/-- Nobody takes messages any more; those that wait are lost. -/
def close (q : Handoff) : Handoff := { queue := .empty q.queue.capacity, isOpen := false }

end Handoff

/-- What a tick did: how many hosts it looked at, how many had changed, and the number of the
message that was handed over. -/
structure TickReport where
  hosts : Nat
  records : Nat
  seq : Option Nat := none
deriving DecidableEq

structure Dispatcher where
  reconciler : Reconciler := {}
  handoff : Handoff := .start Handoff.standardCapacity
  running : Bool := true

namespace Dispatcher

/-- The message of a list of changes. -/
def delta (seq : Nat) (now : Time.Instant) (changes : List Change) : Message.ToDashboard :=
  .delta (.ofNat seq) (.ofInt now.millis) (changes.map Change.record)

/-- Hands a message of changes over and commits them, if it is taken; whether it was. -/
def publish (d : Dispatcher) (seq : Nat) (now : Time.Instant) (changes : List Change) :
    Bool × Dispatcher :=
  match d.handoff.offer? (delta seq now changes) with
  | some handoff => (true, { d with handoff, reconciler := d.reconciler.commit changes })
  | none => (false, d)

/-- Reconciles the hosts with what was last sent and publishes the changes, if there are any. -/
def tick (d : Dispatcher) (h : Hub) (now : Time.Instant) : TickReport × Dispatcher × Hub :=
  let entries := h.entries
  let changes := d.reconciler.reconcile entries now h.settings.onlineThreshold
  let report := { hosts := entries.size, records := changes.length }
  if changes.isEmpty then (report, d, h)
  else
    let (seq, h) := h.nextSeq
    let (taken, d) := d.publish seq now changes
    ({ report with seq := if taken then some seq else none }, d, h)

/-- The fan-out passes the oldest message that waits on to every dashboard. -/
def deliver (d : Dispatcher) (h : Hub) : Dispatcher × Hub :=
  match d.handoff.queue.take? with
  | some (m, queue) =>
    ({ d with handoff := { d.handoff with queue } },
     { h with dashboards := (h.dashboards.broadcast m).2 })
  | none => (d, h)

/-- The fan-out passes on all messages that wait. -/
def deliverAll (d : Dispatcher) (h : Hub) : Dispatcher × Hub :=
  d.handoff.queue.waiting.foldl (fun (d, h) _ => d.deliver h) (d, h)

/-- Takes the oldest messages that wait out of the queue, at most `limit` of them. -/
def takeWaiting (d : Dispatcher) (limit : Option Nat) : List Message.ToDashboard × Dispatcher :=
  let taken := match limit with
    | some n => d.handoff.queue.waiting.take n
    | none => d.handoff.queue.waiting
  (taken, { d with handoff := { d.handoff with queue := d.handoff.queue.drop taken.length } })

def stop (d : Dispatcher) : Dispatcher := { d with running := false }

end Dispatcher
end FleetWatch
