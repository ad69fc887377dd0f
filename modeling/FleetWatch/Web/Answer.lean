import FleetWatch.Hub
import FleetWatch.Web.Body
import FleetWatch.Web.Error
import FleetWatch.Web.Request

/-!
# Answers

What is answered on the hub's pages once a request has been read.

## Main definitions

* `Web.healthReport`, `Web.viewersReport`: the state of the hub.
* `Web.queueCommand`: sends a command to an agent.
* `Web.historyReport`: reads the history of a host.
-/
namespace FleetWatch.Web

/-- How the hub is. The history is left out when none is kept or its recorder does not answer. -/
def healthReport (h : Hub) (now : Time.Instant) : HealthReport where
  status := "ok"
  timestamp := now.printWithOffset
  hosts := .ofNat h.entries.size
  online := .ofNat (h.onlineCount now)
  agents := .ofNat h.agents.size
  dashboards := .ofNat h.dashboards.size
  storage :=
    match h.keeper.stats with
    | .ok stats => some
      { received := .ofNat stats.counters.received
        buffered := .ofNat stats.buffered
        failedRows := .ofNat stats.counters.failedRows }
    | .error _ => none

def viewersReport (h : Hub) : ViewersReport where
  dashboards := .ofNat h.dashboards.size
  distinctOrigins := .ofNat h.dashboards.distinctOrigins

/-- Queues a command for the agent of a server. Blanks around the action do not count. -/
def queueCommand (h : Hub) (serverId : String) (r : CommandRequest) :
    Except Failure CommandReceipt × Hub :=
  let action := Text.trim r.action
  if action.isEmpty then (.error (.invalidRequest "action must not be empty"), h)
  else
    match h.sendCommand serverId { action, payload := r.payload } with
    | (true, h) => (.ok { serverId, action, queued := true }, h)
    | (false, h) => (.error (.notFound s!"no agent connected for server '{serverId}'"), h)

def standardLimit : UInt64 := 1000

/-- The server is the hub's own machine or has a profile. -/
def knowsServer (h : Hub) (serverId : String) : Except HubError Bool :=
  if h.settings.localHost.any fun l => l.id = serverId then .ok true
  else return (← h.directory.profile serverId).isSome

/-- The points of a server within a range of time, the first `limit` of them. -/
def historyWithin (h : Hub) (serverId : String) (start stop : Time.Instant) (limit : UInt64) :
    Except Failure HistoryReport :=
  if stop < start then .error (.invalidRequest "start must not be after end")
  else match h.keeper.range { hostId := serverId, start, stop, limit := some limit } with
    | .error e => .error (.ofHistory e)
    | .ok rows => .ok
      { serverId, start, stop, count := .ofNat rows.length, points := rows.map .ofRow }

/-- The stretch of a server's history that is asked for: up to now and from an hour before its end,
unless something else is said. There is no answer when that hour leaves the range of instants, which
is looked at even when a start is given. -/
def historyReport (h : Hub) (serverId : String) (q : HistoryQuery) (now : Time.Instant) :
    Option (Except Failure HistoryReport) :=
  match knowsServer h serverId with
  | .error e => some (.error (.ofHub e))
  | .ok false => some (.error (.notFound s!"unknown server '{serverId}'"))
  | .ok true =>
    let stop := q.stop.getD now
    (stop.minus? 3600).map fun hourBefore =>
      historyWithin h serverId (q.start.getD hourBefore) stop (q.limit.getD standardLimit)

end FleetWatch.Web
