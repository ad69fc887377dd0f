import FleetWatch.Message.Dashboard
import FleetWatch.Web.Body
import FleetWatch.Wire.Writer

/-!
# The catalog of wire types

Every type that is sent or stored as JSON, by name.

## Main definitions

* `Catalog.entries`.
* `Catalog.normalize?`: a text read as a value of a named type and written again.
-/
namespace FleetWatch.Catalog

/-- A type with its name and JSON form. -/
structure Entry where
  name : String
  type : Type
  schema : Wire.Schema type

def entries : List Entry :=
  [⟨"agent_inbound", _, Message.FromAgent.schema⟩,
   ⟨"agent_outbound", _, Message.ToAgent.schema⟩,
   ⟨"dashboard_message", _, Message.ToDashboard.schema⟩,
   ⟨"agent_command", _, Command.schema⟩,
   ⟨"server_view", _, ServerView.schema⟩,
   ⟨"delta_record", _, DeltaRecord.schema⟩,
   ⟨"compact", _, Compact.schema⟩,
   ⟨"snapshot", _, Snapshot.schema⟩,
   ⟨"os", _, OsInfo.schema⟩,
   ⟨"cpu", _, CpuMetrics.schema⟩,
   ⟨"memory", _, MemoryMetrics.schema⟩,
   ⟨"disk", _, DiskMetrics.schema⟩,
   ⟨"network", _, NetworkMetrics.schema⟩,
   ⟨"interface", _, NetworkInterface.schema⟩,
   ⟨"load", _, LoadAverage.schema⟩,
   ⟨"ping", _, PingMetrics.schema⟩,
   ⟨"ping_target", _, PingResult.schema⟩,
   ⟨"server_profile", _, Profile.schema⟩,
   ⟨"probe_target", _, ProbeTarget.schema⟩,
   ⟨"history_row", _, History.Row.schema⟩,
   ⟨"history_point", _, Web.HistoryPoint.schema⟩,
   ⟨"history_response", _, Web.HistoryReport.schema⟩,
   ⟨"health_response", _, Web.HealthReport.schema⟩,
   ⟨"viewers_response", _, Web.ViewersReport.schema⟩,
   ⟨"command_request", _, Web.CommandRequest.schema⟩,
   ⟨"command_response", _, Web.CommandReceipt.schema⟩]

/-- The text read as a value of the type of a name, and that written again; nothing for an unknown
name. -/
def normalize? (name text : String) : Option (Except Json.Fault Json.Doc) :=
  (entries.find? fun e => e.name = name).map fun e => e.schema.write <$> e.schema.decode text

end FleetWatch.Catalog
