import FleetWatch.Dashboard.Registry
import FleetWatch.Directory
import FleetWatch.History.Recorder
import FleetWatch.Live
import FleetWatch.Message.Dashboard
import FleetWatch.Session.Registry

/-!
# The hub

What all sessions, dashboards, the dispatcher and the web interface share.

## Main definitions

* `Hub`, `Hub.ofConfig`: the shared state and its start.
* `Hub.entries`: every host there is a snapshot of.
* `Hub.putReading`, `Hub.setLocal`: the arrival of a snapshot.
* `Hub.nextSeq`: the numbering of messages to dashboards.
-/
namespace FleetWatch

/-- The shared state of a hub. -/
structure Hub where
  settings : Settings
  directory : Directory
  keeper : History.Keeper := none
  live : LiveStore := {}
  /-- The hub's own machine, once it has been read. -/
  localEntry : Option LiveEntry := none
  agents : Session.Registry := {}
  dashboards : Dashboard.Registry Message.ToDashboard := {}
  /-- The number of the last message to dashboards; messages carry its last 64 bits. -/
  seq : Nat := 0

/-- Why a hub cannot start. -/
inductive StartFailure where
  | history (path : String)
deriving DecidableEq

def StartFailure.message : StartFailure → String
  | history path => "failed to open history database " ++ path

/-- The recorder of a choice of history; `opens` says which paths a database can be opened at. -/
def HistoryChoice.start (opens : String → Bool) :
    HistoryChoice → Except StartFailure History.Keeper
  | nowhere => .ok none
  | memory capacity => .ok (some (.start { store := .memory (.new capacity) } none))
  | database path days =>
    if opens path then .ok (some (.start { store := .table { path } } (some days)))
    else .error (.history path)

namespace Hub

def ofConfig (opens : String → Bool) (c : Config) : Except StartFailure Hub := do
  let keeper ← c.effectiveHistory.start opens
  return { settings := c.settings, directory := .ofConfig c, keeper }

/-- The latest entry of every host, the hub's own machine included. -/
def entries (h : Hub) : Entries := h.live.consolidated h.localEntry

def onlineCount (h : Hub) (now : Time.Instant) : Nat :=
  h.entries.values.countP fun e => e.isOnline now h.settings.onlineThreshold

def record (h : Hub) (hostId : String) (s : Snapshot) (now : Time.Instant) : Bool × Hub :=
  let (taken, keeper) := h.keeper.record hostId now s
  (taken, { h with keeper })

/-- A snapshot of an agent's host arrives: it is offered to the history and replaces the live entry,
the one whatever becomes of the other. -/
def putReading (h : Hub) (hostId : String) (s : Snapshot) (now : Time.Instant) : Hub :=
  let h := (h.record hostId s now).2
  { h with live := h.live.put hostId s now }

/-- A snapshot of the hub's own machine. -/
def setLocal (h : Hub) (hostId : String) (s : Snapshot) (now : Time.Instant) : Hub :=
  { h with localEntry := some ⟨hostId, s, now⟩ }

/-- A reading of the hub's own machine arrives: it is offered to the history as well. -/
def putLocalReading (h : Hub) (hostId : String) (s : Snapshot) (now : Time.Instant) : Hub :=
  ((h.record hostId s now).2).setLocal hostId s now

def nextSeq (h : Hub) : Nat × Hub := (h.seq + 1, { h with seq := h.seq + 1 })

/-- Queues a command for the agent of a host; whether there is one that receives it. -/
def sendCommand (h : Hub) (hostId : String) (c : Command) : Bool × Hub :=
  let (sent, agents) := h.agents.sendCommand hostId c
  (sent, { h with agents })

/-- The recorder takes all rows that wait. -/
def settleRecorder (h : Hub) : Hub :=
  { h with keeper := h.keeper.map fun r => r.takeAll }

@[simp] theorem live_record (h : Hub) (k : String) (s : Snapshot) (t : Time.Instant) :
    (h.record k s t).2.live = h.live := rfl

@[simp] theorem get?_putReading (h : Hub) (k j : String) (s : Snapshot) (t : Time.Instant) :
    (h.putReading k s t).live.get? j = if k = j then some ⟨k, s, t⟩ else h.live.get? j := by
  simp [putReading]

end Hub
end FleetWatch
