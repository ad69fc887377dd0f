import FleetWatch.Proofs.Session.Handshake

/-!
# Connections without interruption

A frame that a reader deals with step after step is received as its session receives it, and the
answer is what the reader is about to queue. A command that is sent as soon as its queue was looked
up is sent as the hub sends it.

## Main definitions

* `Connection.readOn`: some steps of a reader, one after the other.
-/
namespace FleetWatch

open Queue

namespace Connection

/-- Some steps of a reader, one after the other. -/
def readOn (now : Time.Instant) : Nat → Connection × Hub → Connection × Hub
  | 0, p => p
  | n + 1, p => readOn now n (p.1.read p.2 now)

/-- The connection after its session has made something of a frame. -/
def received (c : Connection) (outcome : AgentSession.Outcome) : Connection × Hub :=
  ({ c with session := outcome.2.1, reader := .replying (outgoing outcome.1) }, outcome.2.2)

/-- An authentication that nobody interrupts. -/
theorem readOn_checking (c : Connection) (h : Hub) (now : Time.Instant) (hostId token : String)
    (version : Option String) :
    ∃ n, readOn now n ({ c with reader := .checking hostId token version }, h) =
      c.received (c.session.authenticate h hostId token version) := by
  cases hcheck : AgentSession.checkToken h.directory hostId token with
  | error e => exact ⟨1, by simp [readOn, read, received, AgentSession.authenticate, hcheck]⟩
  | ok u => exact ⟨5, by simp [readOn, read, received, AgentSession.authenticate, hcheck]⟩

/-- A frame that a reader deals with step after step is received as its session receives it. -/
theorem readOn_arrive {c : Connection} (h : Hub) (now : Time.Instant) (text : String)
    (hready : c.reader = .ready) (hopen : c.session.state ≠ .closed) :
    ∃ n, readOn now n (c.arrive text, h) = c.received (c.session.receive h now text) := by
  cases hdecode : Message.FromAgent.schema.decode text with
  | error fault =>
    exact ⟨0, by simp [readOn, arrive, received, AgentSession.receive, hready, hopen, hdecode]⟩
  | ok m =>
    have hreceive : c.session.receive h now text = c.session.handle h now m := by
      simp [AgentSession.receive, hopen, hdecode]
    have hhandling (harrive : c.arrive text = { c with reader := .handling m }) :
        ∃ n, readOn now n (c.arrive text, h) = c.received (c.session.receive h now text) :=
      ⟨1, by rw [harrive, hreceive]; rfl⟩
    cases m with
    | metrics reading claimed version token =>
      exact hhandling (by simp [arrive, hready, hopen, hdecode])
    | auth hostId token version =>
      by_cases hconnected : c.session.state = .connected
      · have harrive : c.arrive text = { c with reader := .checking hostId token version } := by
          simp [arrive, hready, hdecode, hconnected]
        have hhandle : c.session.handle h now (.auth hostId token version) =
            c.session.authenticate h hostId token version := by
          simp [AgentSession.handle, hconnected]
        rw [harrive, hreceive, hhandle]
        exact readOn_checking c h now hostId token version
      · exact hhandling (by simp [arrive, hready, hopen, hdecode, hconnected])

end Connection

namespace Switchboard

variable {s : Switchboard}

/-- A session that a host is routed to has a queue. -/
theorem Sound.exists_queue (h : s.Sound) {hostId : String} {id : Session.Id}
    (hroute : s.hub.agents.route? hostId = some id) :
    ∃ q, s.hub.agents.queues[id]? = some q := by
  have hid : id < s.lines.length :=
    Nat.lt_of_not_le fun hid => (h.unknown id hid).routes hostId hroute
  obtain ⟨waiting, hwaiting, -⟩ :=
    (h.lines id s.lines[id] (List.getElem?_eq_getElem hid)).balance
  obtain ⟨q, hq, -⟩ := Option.map_eq_some_iff.mp hwaiting
  exact ⟨q, hq⟩

/-- A command that is sent as soon as its queue was looked up is answered, and leaves all routes and
queues, as if it had been sent at once. -/
theorem send_lookUp (h : s.Sound) (hostId : String) (c : Command) :
    let after := (s.lookUp hostId c).send s.errands.length
    let atOnce := s.hub.sendCommand hostId c
    after.errands = s.errands ++ [⟨c, s.hub.agents.route? hostId, some atOnce.1⟩] ∧
      (∀ k, after.hub.agents.route? k = atOnce.2.agents.route? k) ∧
      ∀ id : Session.Id, after.hub.agents.queues[id]? = atOnce.2.agents.queues[id]? := by
  dsimp only [Hub.sendCommand]
  cases hroute : s.hub.agents.route? hostId with
  | none => simp [send, lookUp, refuse, hroute, Session.Registry.sendCommand]
  | some id =>
    obtain ⟨q, hq⟩ := h.exists_queue hroute
    obtain ⟨hroutes, hqueues⟩ := Session.Registry.updateQueue_held hroute hq c
    have hcloned : (s.hub.agents.updateQueue id RingBuffer.cloneSender).queues[id]? =
        some q.cloneSender := by
      rw [Session.Registry.queues_updateQueue, if_pos rfl, hq, Option.map_some]
    have hsend : (s.lookUp hostId c).send s.errands.length =
        (s.hold c id).deliver s.errands.length c id q.cloneSender := by
      simp [send, lookUp, hroute, hold, updateQueue, hcloned]
    have hatOnce : (s.hub.agents.sendCommand hostId c).1 = (q.send c).1 := by
      rw [Session.Registry.sendCommand_of_route? hroute hq]
    rw [hsend, hatOnce]
    refine ⟨?_, hroutes, hqueues⟩
    simp [deliver, hold, (q.send_cloneSender c).1]

end Switchboard
end FleetWatch
