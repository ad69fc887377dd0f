import FleetWatch.Config
import FleetWatch.Wire.Writer

/-!
# The report on a configuration

Every field of a configuration and what the parts of a hub make of them.

## Main definitions

* `Config.report`.
-/
namespace FleetWatch

open Json

def docOrNull {α : Type} (f : α → Doc) : Option α → Doc
  | some a => f a
  | none => .null

def Time.Span.seconds (t : Time.Span) : Nat := t.nanos / 1000000000

/-- What a running hub uses of its configuration. -/
def Settings.report (s : Settings) : Doc :=
  .obj
    [("online_threshold", .int s.onlineThreshold.seconds),
     ("command_queue_capacity", .int s.commandQueueCapacity.toNat),
     ("dashboard_queue_capacity", .int s.dashboardQueueCapacity.toNat),
     ("trust_proxy_headers", .flag s.trustProxyHeaders),
     ("local", docOrNull LocalHost.schema.write s.localHost)]

/-- What the web interface uses of the configuration. -/
def WebSettings.report (w : WebSettings) : Doc :=
  .obj
    [("bind_addr", .str w.bindAddress.print), ("auth_token", docOrNull .str w.adminToken),
     ("enable_cors", .flag w.cors)]

/-- Every field of a configuration, and what follows from them. -/
def Config.report (c : Config) : Doc :=
  .obj
    [("listen", .str c.listen.print), ("admin_token", docOrNull .str c.adminToken),
     ("cors", .flag c.cors), ("trust_proxy_headers", .flag c.trustProxyHeaders),
     ("broadcast_interval_ms", .int c.broadcastIntervalMs.toNat),
     ("online_threshold_secs", .int c.onlineThresholdSecs.toNat),
     ("command_queue_capacity", .int c.commandQueueCapacity.toNat),
     ("dashboard_queue_capacity", .int c.dashboardQueueCapacity.toNat),
     ("local", docOrNull LocalHost.schema.write c.localHost),
     ("servers", .array (c.servers.map Profile.schema.write)),
     ("ping_targets", .array (c.pingTargets.map ProbeTarget.schema.write)),
     ("storage", docOrNull HistoryChoice.schema.write c.history),
     ("effective_storage", HistoryChoice.schema.write c.effectiveHistory),
     ("broadcast_interval", .int c.broadcastInterval.toNat),
     ("online_threshold", .int c.onlineThreshold.seconds),
     ("settings", c.settings.report), ("api", c.webSettings.report)]

end FleetWatch
