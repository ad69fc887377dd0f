import FleetWatch.Message.Agent
import FleetWatch.Queue.RingBuffer
import Std.Data.TreeMap

/-!
# The routing table

Which session the commands for a host go to, and the command queues of all sessions. A host is
routed to the session that registered for it last; only that session can end the route.

## Main definitions

* `Session.Registry`, with `openQueue`, `register`, `deregister`, `sendCommand`, `receive` and
  `receiveAll`.
-/
namespace FleetWatch.Session

open Queue

abbrev Id := Nat

/-- The session of every routed host, and the command queue of every session. -/
structure Registry where
  routes : Std.TreeMap String Id := {}
  queues : Std.TreeMap Id (RingBuffer Command) := {}

namespace Registry

/-- Changes the command queue of a session, if it has one. -/
def updateQueue (r : Registry) (id : Id) (f : RingBuffer Command → RingBuffer Command) :
    Registry :=
  match r.queues[id]? with
  | some q => { r with queues := r.queues.insert id (f q) }
  | none => r

def openQueue (r : Registry) (id : Id) (capacity : UInt64) : Registry :=
  { r with queues := r.queues.insert id (commandRing capacity) }

def route? (r : Registry) (hostId : String) : Option Id := r.routes[hostId]?

/-- Takes the route of a host out of the table, whoever has it. -/
def unroute (r : Registry) (hostId : String) : Registry :=
  match r.route? hostId with
  | some id => { r with routes := r.routes.erase hostId }.updateQueue id RingBuffer.dropSender
  | none => r

/-- Routes a host to a session; an earlier session is superseded. -/
def register (r : Registry) (hostId : String) (id : Id) : Registry :=
  let r := (r.updateQueue id RingBuffer.cloneSender).unroute hostId
  { r with routes := r.routes.insert hostId id }

/-- Ends the route of a host if it is the session's own; whether it was. -/
def deregister (r : Registry) (hostId : String) (id : Id) : Bool × Registry :=
  if r.route? hostId = some id then (true, r.unroute hostId) else (false, r)

/-- Queues a command for the session that a host is routed to; whether somebody receives it. -/
def sendCommand (r : Registry) (hostId : String) (c : Command) : Bool × Registry :=
  match (r.route? hostId).bind fun id => (r.queues[id]?).map fun q => (id, q) with
  | some (id, q) =>
    let (sent, q) := q.send c
    (sent, { r with queues := r.queues.insert id q })
  | none => (false, r)

def size (r : Registry) : Nat := r.routes.size

def receive (r : Registry) (id : Id) : Option Command × Registry :=
  match r.queues[id]? with
  | some q =>
    match q.receive with
    | (.value c, q) => (some c, { r with queues := r.queues.insert id q })
    | (_, q) => (none, { r with queues := r.queues.insert id q })
  | none => (none, r)

/-- The commands waiting for a session, and whether no more can come; nothing when nobody receives
them. -/
def receiveAll (r : Registry) (id : Id) : Option ((List Command × Bool) × Registry) :=
  match r.queues[id]? with
  | some q =>
    if q.receiving then
      let (commands, q) := q.receiveAll
      some ((commands, q.senders = 0), { r with queues := r.queues.insert id q })
    else none
  | none => none

/-- The session itself is gone: it no longer sends to its own queue. -/
def dropSession (r : Registry) (id : Id) : Registry := r.updateQueue id RingBuffer.dropSender

def dropReceiver (r : Registry) (id : Id) : Registry := r.updateQueue id RingBuffer.dropReceiver

@[simp] theorem routes_updateQueue (r : Registry) (id : Id)
    (f : RingBuffer Command → RingBuffer Command) :
    (r.updateQueue id f).routes = r.routes := by
  unfold updateQueue; split <;> rfl

@[simp] theorem route?_updateQueue (r : Registry) (id : Id)
    (f : RingBuffer Command → RingBuffer Command) (h : String) :
    (r.updateQueue id f).route? h = r.route? h := by
  simp [route?]

theorem route?_unroute (r : Registry) (h k : String) :
    (r.unroute h).route? k = if h = k then none else r.route? k := by
  unfold unroute
  split
  · by_cases e : h = k
    · subst e; simp [route?]
    · simp [route?, Std.TreeMap.getElem?_erase, e]
  · next hn =>
    by_cases e : h = k
    · subst e; simp [hn]
    · simp [e]

@[simp] theorem route?_register (r : Registry) (h k : String) (id : Id) :
    (r.register h id).route? k = if h = k then some id else r.route? k := by
  have hu := route?_unroute (r.updateQueue id RingBuffer.cloneSender) h k
  rw [route?_updateQueue] at hu
  show ((((r.updateQueue id RingBuffer.cloneSender).unroute h).routes.insert h id)[k]?) = _
  by_cases e : h = k
  · subst e; simp
  · simp only [e, if_false] at hu ⊢
    rw [Std.TreeMap.getElem?_insert]
    simp only [Std.compare_eq_iff_eq, e, if_false]
    exact hu

end Registry
end FleetWatch.Session
