import FleetWatch.Hub
import FleetWatch.Metrics.Reading
import FleetWatch.Secret

/-!
# Agent sessions

A session starts as a connection of which nothing is known. The token of its host makes it an
authenticated one, and from then on it delivers that host's readings; any other outcome of its first
authentication closes it, and a closed session has no effect any more.

## Main definitions

* `Session.State`, `AgentSession`.
* `AgentSession.authenticate`, with its steps `checkToken`, `enter`, `remember`, `noteVersion` and
  `probeTargets`.
* `AgentSession.ingest`: the arrival of a reading.
* `AgentSession.receive`, `AgentSession.close`: the events of a session.
-/
namespace FleetWatch

/-- How far a session has come. -/
inductive Session.State where
  | connected
  | authenticated (hostId : String)
  | closed
deriving DecidableEq, Repr

structure AgentSession where
  id : Session.Id
  state : Session.State := .connected
  /-- The address that the agent connects from. -/
  remoteIp : Option Net.IpAddress := none
  /-- The version and address that the directory is known to hold. -/
  knownVersion : Option String := none
  knownIp : Option String := none

namespace AgentSession

/-- What a session does: a reply or a failure, and the session and hub afterwards. -/
abbrev Outcome := Except HubError (Option Message.ToAgent) × AgentSession × Hub

def hostId? (s : AgentSession) : Option String :=
  match s.state with
  | .authenticated hostId => some hostId
  | _ => none

def start (h : Hub) (id : Session.Id) (remoteIp : Option Net.IpAddress) : AgentSession × Hub :=
  ({ id, remoteIp }, { h with agents := h.agents.openQueue id h.settings.commandQueueCapacity })

/-- Compares a token with the expected one; when that cannot be looked up, no token will do. -/
def checkToken (d : Directory) (hostId token : String) : Except HubError Unit :=
  match d.resolveToken hostId with
  | .error _ => .error (.authRejected "configuration unavailable")
  | .ok none => .error (.authRejected "unknown server")
  | .ok (some expected) =>
    if tokensMatch expected token then .ok () else .error (.authRejected "invalid token")

/-- The session is authenticated for a host, and commands for that are routed to it. -/
def enter (s : AgentSession) (h : Hub) (hostId : String) : AgentSession × Hub :=
  ({ s with state := .authenticated hostId },
   { h with agents := h.agents.register hostId s.id })

/-- Learns what the directory holds about a host. -/
def remember (s : AgentSession) (h : Hub) (hostId : String) : AgentSession :=
  match h.directory.profile hostId with
  | .ok (some p) => { s with knownVersion := p.version, knownIp := p.ip }
  | _ => s

/-- Notes the agent's version in the directory, unless it is known to be there. -/
def noteVersion (s : AgentSession) (h : Hub) (hostId version : String) : AgentSession × Hub :=
  if s.knownVersion = some version then (s, h)
  else match h.directory.recordVersion hostId version with
    | .ok directory => ({ s with knownVersion := some version }, { h with directory })
    | .error _ => (s, h)

def noteVersion? (s : AgentSession) (h : Hub) (hostId : String) :
    Option String → AgentSession × Hub
  | some version => s.noteVersion h hostId version
  | none => (s, h)

/-- Notes the agent's address in the directory, unless it is known to be there. -/
def noteIp (s : AgentSession) (h : Hub) (hostId ip : String) : AgentSession × Hub :=
  if s.knownIp = some ip then (s, h)
  else match h.directory.recordIp hostId ip with
    | .ok directory => ({ s with knownIp := some ip }, { h with directory })
    | .error _ => (s, h)

def noteIp? (s : AgentSession) (h : Hub) (hostId : String) : Option String → AgentSession × Hub
  | some ip => s.noteIp h hostId ip
  | none => (s, h)

/-- What the agent is to probe; nothing when that cannot be looked up. -/
def probeTargets (h : Hub) : List ProbeTarget :=
  match h.directory.probeTargets with
  | .ok targets => targets
  | .error _ => []

/-- Authenticates a session for a host. -/
def authenticate (s : AgentSession) (h : Hub) (hostId token : String) (version : Option String) :
    Outcome :=
  match checkToken h.directory hostId token with
  | .error e => (.error e, { s with state := .closed }, h)
  | .ok () =>
    let (s, h) := s.enter h hostId
    let s := s.remember h hostId
    let (s, h) := s.noteVersion? h hostId version
    (.ok (some (.accepted (probeTargets h))), s, h)

/-- The address observed for a reading: where the agent connects from, or else the first it
reports. -/
def observedIp (s : AgentSession) (reading : Snapshot) : Option String :=
  (s.remoteIp.map Net.IpAddress.print).or reading.ipAddresses.head?

/-- Why a reading is refused for a host, if it is. -/
def refusal? (hostId : String) (claimed : Option String) (reading : Snapshot) : Option HubError :=
  match claimed with
  | some other =>
    if other = hostId then reading.fault?.map fun f => .malformed f.message
    else some (.malformed s!"metrics for {other} on a session authenticated as {hostId}")
  | none => reading.fault?.map fun f => .malformed f.message

/-- Takes in a reading. Everything that can be refused is looked at first; what follows cannot
fail. -/
def ingest (s : AgentSession) (h : Hub) (now : Time.Instant) (reading : Snapshot)
    (claimed version : Option String) : Outcome :=
  match s.hostId? with
  | none => (.error .notAuthenticated, s, h)
  | some hostId =>
    match refusal? hostId claimed reading with
    | some e => (.error e, s, h)
    | none =>
      let h := h.putReading hostId reading now
      let (s, h) := s.noteVersion? h hostId (version.or reading.version)
      let (s, h) := s.noteIp? h hostId (s.observedIp reading)
      (.ok none, s, h)

/-- Takes in a message. -/
def handle (s : AgentSession) (h : Hub) (now : Time.Instant) : Message.FromAgent → Outcome
  | .auth hostId token version =>
    if s.state = .connected then s.authenticate h hostId token version
    else (.error (.malformed "session is already authenticated"), s, h)
  | .metrics reading claimed version _ => s.ingest h now reading claimed version

/-- Takes in a text frame. -/
def receive (s : AgentSession) (h : Hub) (now : Time.Instant) (text : String) : Outcome :=
  if s.state = .closed then (.ok none, s, h)
  else match Message.FromAgent.schema.decode text with
    | .error fault => (.error (.undecodable fault), s, h)
    | .ok message => s.handle h now message

/-- Ends a session: it gives up its route if that is still its own. -/
def close (s : AgentSession) (h : Hub) : AgentSession × Hub :=
  ({ s with state := .closed },
   match s.hostId? with
   | some hostId => { h with agents := (h.agents.deregister hostId s.id).2 }
   | none => h)

end AgentSession
end FleetWatch
