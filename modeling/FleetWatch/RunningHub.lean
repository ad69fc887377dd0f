import FleetWatch.Dashboard.View
import FleetWatch.Dispatch.Dispatcher
import FleetWatch.Session.Agent

/-!
# The running hub

The hub with all its agent sessions and its dispatcher, and what can happen to it.

## Main definitions

* `RunningHub`, `RunningHub.start`.
* `connect`, `receive`, `close`, `dropSession`: the events of agent sessions.
* `attach`: the arrival of a dashboard.
* `tick`, `cleanUpIfDue`, `settle`: what the hub does by itself.
-/
namespace FleetWatch

structure RunningHub where
  hub : Hub
  sessions : Std.TreeMap Session.Id AgentSession := {}
  dispatcher : Dispatcher := {}
  /-- The fan-out passes on what is handed over. -/
  fanoutRuns : Bool := true
  /-- The first cleanup of the history has not come yet. -/
  cleanupDue : Bool := true
  /-- The numbers of the next session and dashboard. -/
  nextSession : Session.Id := 0
  nextDashboard : Dashboard.Id := 0

namespace RunningHub

def start (hub : Hub) : RunningHub := { hub }

def session? (r : RunningHub) (id : Session.Id) : Option AgentSession := r.sessions[id]?

def connect (r : RunningHub) (remoteIp : Option Net.IpAddress) : Session.Id × RunningHub :=
  let id := r.nextSession
  let (session, hub) := AgentSession.start r.hub id remoteIp
  (id, { r with hub, sessions := r.sessions.insert id session, nextSession := id + 1 })

/-- A session takes in a text frame: its reply or failure. -/
def receive (r : RunningHub) (id : Session.Id) (text : String) (now : Time.Instant) :
    Option (Except HubError (Option Message.ToAgent)) × RunningHub :=
  match r.session? id with
  | some session =>
    let (answer, session, hub) := session.receive r.hub now text
    (some answer, { r with hub, sessions := r.sessions.insert id session })
  | none => (none, r)

def close (r : RunningHub) (id : Session.Id) : RunningHub :=
  match r.session? id with
  | some session =>
    let (session, hub) := session.close r.hub
    { r with hub, sessions := r.sessions.insert id session }
  | none => r

/-- A session vanishes with its queue, without having been closed. -/
def dropSession (r : RunningHub) (id : Session.Id) : RunningHub :=
  { r with
    hub := { r.hub with agents := (r.hub.agents.dropSession id).dropReceiver id }
    sessions := r.sessions.erase id }

def attach (r : RunningHub) (origin : String) (now : Time.Instant) :
    Option (Dashboard.Id × Message.ToDashboard) × RunningHub :=
  let id := r.nextDashboard
  match Dashboard.attach r.hub id origin now with
  | some (full, hub) => (some (id, full), { r with hub, nextDashboard := id + 1 })
  | none => (none, r)

/-- The dispatcher ticks, if it still runs. -/
def tick (r : RunningHub) (now : Time.Instant) : Option TickReport × RunningHub :=
  if r.dispatcher.running then
    let (report, dispatcher, hub) := r.dispatcher.tick r.hub now
    (some report, { r with dispatcher, hub })
  else (none, r)

/-- The first cleanup of the history, unless it has come before. -/
def cleanUpIfDue (r : RunningHub) (now : Time.Instant) : RunningHub :=
  if r.cleanupDue then
    { r with
      hub := { r.hub with keeper := r.hub.keeper.map fun k => k.cleanUp now }
      cleanupDue := false }
  else r

/-- Recorder and fan-out run until they have nothing left to do. -/
def settle (r : RunningHub) : RunningHub :=
  let hub := r.hub.settleRecorder
  if r.fanoutRuns then
    let (dispatcher, hub) := r.dispatcher.deliverAll hub
    { r with dispatcher, hub }
  else { r with hub }

end RunningHub
end FleetWatch
