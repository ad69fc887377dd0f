import FleetWatch.Time.Span
import FleetWatch.Wire.Reader

/-!
# Configuration

What a hub is told at its start: where it listens, which servers it knows, which targets agents
probe, and where history is kept.

## Main definitions

* `Config`, with its parts `Profile`, `ProbeTarget`, `LocalHost`, `HistoryChoice`.
* `Config.parse`: the configuration of a text.
* `Settings`: what a running hub uses of it.
-/
namespace FleetWatch

open Wire

/-- A configured server. -/
structure Profile where
  id : String
  token : String
  name : String := ""
  location : String := ""
  provider : String := ""
  tag : String := ""
  version : Option String := none
  ip : Option String := none
deriving DecidableEq

def Profile.schema : Schema Profile :=
  .record
    (.cons "id" .text .required <|
     .cons "token" .text .required <|
     .cons "name" .text (.orElse "") <|
     .cons "location" .text (.orElse "") <|
     .cons "provider" .text (.orElse "") <|
     .cons "tag" .text (.orElse "") <|
     .cons "version" (.option .text) (.orElse none) <|
     .cons "ip" (.option .text) (.orElse none) .nil)
    ⟨fun (id, token, name, location, provider, tag, version, ip, ()) =>
      { id, token, name, location, provider, tag, version, ip },
     fun p => (p.id, p.token, p.name, p.location, p.provider, p.tag, p.version, p.ip, ()),
     fun _ => rfl⟩

/-- A target that agents measure their latency to. -/
structure ProbeTarget where
  name : String
  host : String
  port : Option UInt16
  kind : String
deriving DecidableEq

def ProbeTarget.schema : Schema ProbeTarget :=
  .record
    (.cons "name" .text .required <|
     .cons "host" .text .required <|
     .cons "port" (.option .word16) (.orElse none) <|
     .cons "type" .text (.orElse "tcp") .nil)
    ⟨fun (name, host, port, kind, ()) => { name, host, port, kind },
     fun t => (t.name, t.host, t.port, t.kind, ()), fun _ => rfl⟩

/-- The hub's own machine as a host. -/
structure LocalHost where
  id : String
  name : String
  location : String
  provider : String
  tag : String
  intervalMs : UInt64
deriving DecidableEq

def LocalHost.schema : Schema LocalHost :=
  .record
    (.cons "id" .text (.orElse "local") <|
     .cons "name" .text (.orElse "Hub") <|
     .cons "location" .text (.orElse "") <|
     .cons "provider" .text (.orElse "") <|
     .cons "tag" .text (.orElse "") <|
     .cons "interval_ms" .word64 (.orElse 1000) .nil)
    ⟨fun (id, name, location, provider, tag, intervalMs, ()) =>
      { id, name, location, provider, tag, intervalMs },
     fun l => (l.id, l.name, l.location, l.provider, l.tag, l.intervalMs, ()), fun _ => rfl⟩

/-- Where history is kept. -/
inductive HistoryChoice where
  | nowhere
  | memory (capacity : UInt64)
  | database (path : String) (retentionDays : UInt32)
deriving DecidableEq

namespace HistoryChoice

/-- In memory, a thousand rows per host. -/
def default : HistoryChoice := .memory 1000

def schema : Schema HistoryChoice :=
  .tagged "backend" <|
    .cons "none" .nil (fun () => .nowhere)
      (fun | .nowhere => some () | _ => none) (fun a _ h => by cases a <;> cases h; rfl) <|
    .cons "memory" (.cons "capacity" .word64 (.orElse 1000) .nil)
      (fun (capacity, ()) => .memory capacity)
      (fun | .memory capacity => some (capacity, ()) | _ => none)
      (fun a b h => by cases a <;> cases h; rfl) <|
    .cons "sqlite"
      (.cons "path" .text (.orElse "./history.db") <|
       .cons "retention_days" .word32 (.orElse 30) .nil)
      (fun (path, days, ()) => .database path days)
      (fun | .database path days => some (path, days, ()) | _ => none)
      (fun a b h => by cases a <;> cases h; rfl) .nil

end HistoryChoice

/-- The configuration of a hub. -/
structure Config where
  listen : Net.Endpoint
  adminToken : Option String
  cors : Bool
  trustProxyHeaders : Bool
  broadcastIntervalMs : UInt64
  onlineThresholdSecs : UInt64
  commandQueueCapacity : UInt64
  dashboardQueueCapacity : UInt64
  localHost : Option LocalHost
  servers : List Profile
  pingTargets : List ProbeTarget
  history : Option HistoryChoice
deriving DecidableEq

namespace Config

def schema : Schema Config :=
  .record
    (.cons "listen" .endpoint (.orElse ⟨.v4 0 0 0 0, 3001, 0⟩) <|
     .cons "admin_token" (.option .text) .nullable <|
     .cons "cors" .flag (.orElse false) <|
     .cons "trust_proxy_headers" .flag (.orElse false) <|
     .cons "broadcast_interval_ms" .word64 (.orElse 1000) <|
     .cons "online_threshold_secs" .word64 (.orElse 30) <|
     .cons "command_queue_capacity" .word64 (.orElse 16) <|
     .cons "dashboard_queue_capacity" .word64 (.orElse 64) <|
     .cons "local" (.option LocalHost.schema) .nullable <|
     .cons "servers" (.list Profile.schema) (.orElse []) <|
     .cons "ping_targets" (.list ProbeTarget.schema) (.orElse []) <|
     .cons "storage" (.option HistoryChoice.schema) .nullable .nil)
    ⟨fun (listen, adminToken, cors, trustProxyHeaders, broadcastIntervalMs, onlineThresholdSecs,
        commandQueueCapacity, dashboardQueueCapacity, localHost, servers, pingTargets, history,
        ()) =>
      { listen, adminToken, cors, trustProxyHeaders, broadcastIntervalMs, onlineThresholdSecs,
        commandQueueCapacity, dashboardQueueCapacity, localHost, servers, pingTargets, history },
     fun c => (c.listen, c.adminToken, c.cors, c.trustProxyHeaders, c.broadcastIntervalMs,
      c.onlineThresholdSecs, c.commandQueueCapacity, c.dashboardQueueCapacity, c.localHost,
      c.servers, c.pingTargets, c.history, ()), fun _ => rfl⟩

def parse (text : String) : Except Json.Fault Config := schema.decode text

/-- What the refusal of a configuration starts with. -/
def refusalHeading : String := "Invalid configuration file provided: "

def broadcastInterval (c : Config) : UInt64 := max c.broadcastIntervalMs 1

/-- How long after its last reading a host counts as online. -/
def onlineThreshold (c : Config) : Time.Span := .ofSeconds c.onlineThresholdSecs.toNat

/-- Where history is kept when nothing is said about it. -/
def effectiveHistory (c : Config) : HistoryChoice := c.history.getD .default

end Config

/-- What a running hub uses of its configuration. -/
structure Settings where
  onlineThreshold : Time.Span
  commandQueueCapacity : UInt64
  dashboardQueueCapacity : UInt64
  trustProxyHeaders : Bool
  localHost : Option LocalHost

def Config.settings (c : Config) : Settings where
  onlineThreshold := c.onlineThreshold
  commandQueueCapacity := c.commandQueueCapacity
  dashboardQueueCapacity := c.dashboardQueueCapacity
  trustProxyHeaders := c.trustProxyHeaders
  localHost := c.localHost

/-- What the web interface uses of the configuration. -/
structure WebSettings where
  bindAddress : Net.Endpoint
  adminToken : Option String
  cors : Bool

def Config.webSettings (c : Config) : WebSettings where
  bindAddress := c.listen
  adminToken := c.adminToken
  cors := c.cors

end FleetWatch
