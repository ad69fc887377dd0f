import FleetWatch.Queue.Bounded
import Std.Data.TreeMap

/-!
# Registered dashboards

The dashboards that frames are broadcast to, and the queues that they receive from. A dashboard
whose queue is full or whose receiving end is gone loses its registration at the next broadcast;
what it has been queued before can still be received, and after that its queue is closed.

## Main definitions

* `Dashboard.Registry`, over the type of frames, with `register`, `remove`, `broadcast`, `receive`
  and `dropQueue`.
-/
namespace FleetWatch.Dashboard

open Queue

abbrev Id := Nat

/-- The registered dashboards with the places they connect from, and the receiving ends that
exist. -/
structure Registry (φ : Type) where
  origins : Std.TreeMap Id String := {}
  queues : Std.TreeMap Id (Bounded φ) := {}

/-- How many dashboards got a frame and how many lost their registration. -/
structure FanoutReport where
  delivered : Nat := 0
  removed : Nat := 0
deriving DecidableEq

/-- Why no more frames are received. -/
inductive QueueEnd where
  | empty
  | closed
  | limit
deriving DecidableEq

namespace Registry
variable {φ : Type}

def register (r : Registry φ) (id : Id) (origin : String) (capacity : Nat) :
    Registry φ where
  origins := r.origins.insert id origin
  queues := r.queues.insert id (.empty capacity)

/-- Ends a registration; whether there was one. -/
def remove (r : Registry φ) (id : Id) : Bool × Registry φ :=
  (r.origins.contains id, { r with origins := r.origins.erase id })

def isRegistered (r : Registry φ) (id : Id) : Bool := r.origins.contains id

def size (r : Registry φ) : Nat := r.origins.size

/-- The number of places that registered dashboards connect from. -/
def distinctOrigins (r : Registry φ) : Nat :=
  (r.origins.toList.foldl (fun seen (_, origin) => seen.insert origin ())
    ({} : Std.TreeMap String Unit)).size

/-- Queues a frame for one dashboard, if its receiving end exists and there is room. -/
def offer? (r : Registry φ) (frame : φ) (id : Id) : Option (Registry φ) :=
  ((r.queues[id]?).bind fun q => q.offer? frame).map fun q =>
    { r with queues := r.queues.insert id q }

/-- Queues a frame for one dashboard, or ends its registration. -/
def deliver (frame : φ) (r : Registry φ) (id : Id) : Bool × Registry φ :=
  match r.offer? frame id with
  | some r => (true, r)
  | none => (false, (r.remove id).2)

/-- Queues a frame for every registered dashboard. -/
def broadcast (r : Registry φ) (frame : φ) : FanoutReport × Registry φ :=
  r.origins.keys.foldl (fun (report, r) id =>
    match r.deliver frame id with
    | (true, r) => ({ report with delivered := report.delivered + 1 }, r)
    | (false, r) => ({ report with removed := report.removed + 1 }, r))
    ({}, r)

/-- The frames waiting for a dashboard, at most `limit` of them, and what comes after; nothing when
the receiving end is gone. -/
def receive (r : Registry φ) (id : Id) (limit : Option Nat) :
    Option ((List φ × QueueEnd) × Registry φ) :=
  (r.queues[id]?).map fun q =>
    let taken := match limit with
      | some n => q.waiting.take n
      | none => q.waiting
    let stop : QueueEnd :=
      if limit = some taken.length then .limit
      else if r.isRegistered id then .empty else .closed
    ((taken, stop), { r with queues := r.queues.insert id (q.drop taken.length) })

/-- Drops the receiving end; whether it existed. -/
def dropQueue (r : Registry φ) (id : Id) : Bool × Registry φ :=
  (r.queues.contains id, { r with queues := r.queues.erase id })

end Registry
end FleetWatch.Dashboard
