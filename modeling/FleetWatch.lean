import FleetWatch.Agent.Client
import FleetWatch.Agent.Environment
import FleetWatch.Catalog
import FleetWatch.Main
import FleetWatch.Metrics.Reading
import FleetWatch.Probe
import FleetWatch.Session.Connection
import FleetWatch.RunningHub
import FleetWatch.Web.Router
import FleetWatch.Proofs.Dashboard.Picture
import FleetWatch.Proofs.Dispatch.Reconciliation
import FleetWatch.Proofs.Dispatch.DeltaStream
import FleetWatch.Proofs.Dashboard.Delivery
import FleetWatch.Proofs.Interleaving.Readings
import FleetWatch.Proofs.Interleaving.System
import FleetWatch.Proofs.Interleaving.Recorded
import FleetWatch.Proofs.Interleaving.Queues
import FleetWatch.Proofs.Interleaving.Numbering
import FleetWatch.Proofs.Interleaving.Followed
import FleetWatch.Proofs.Dashboard.FullView
import FleetWatch.Proofs.Interleaving.Runs
import FleetWatch.Proofs.Interleaving.Convergence
import FleetWatch.Proofs.Interleaving.Sequential
import FleetWatch.Proofs.Session.Frames
import FleetWatch.Proofs.Json.Numbers
import FleetWatch.Proofs.Json.Printing
import FleetWatch.Proofs.Wire.Members
import FleetWatch.Proofs.Wire.RoundTrip
import FleetWatch.Proofs.Wire.Leaves
import FleetWatch.Proofs.Time.Calendar
import FleetWatch.Proofs.Time.Rfc3339
import FleetWatch.Proofs.Wire.Scalars
import FleetWatch.Proofs.Metrics.Survival
import FleetWatch.Proofs.History.Readable
import FleetWatch.Proofs.Dashboard.Readable
import FleetWatch.Proofs.Session.Commands
import FleetWatch.Proofs.Session.System
import FleetWatch.Proofs.Session.Visits
import FleetWatch.Proofs.Session.Routing
import FleetWatch.Proofs.Session.Provenance
import FleetWatch.Proofs.Session.Sequential
import FleetWatch.Proofs.Session.Emission
import FleetWatch.Proofs.History.Batching
import FleetWatch.Proofs.Agent.Listening
import FleetWatch.Proofs.Binary.Exact
import FleetWatch.Proofs.History.Agreement
import FleetWatch.Proofs.History.Conservation
import FleetWatch.Proofs.History.Shutdown
import FleetWatch.Proofs.Session.Handshake
import FleetWatch.Proofs.Session.Uninterrupted
import FleetWatch.Proofs.Session.Reachability
import FleetWatch.Proofs.Config.Limits
import FleetWatch.Proofs.Interleaving.Fields
import FleetWatch.Proofs.Json.Values
import FleetWatch.Proofs.Message.RoundTrip
import FleetWatch.Proofs.Dispatch.Exactness
import FleetWatch.Proofs.Dispatch.Silence
import FleetWatch.Proofs.Session.Telling
import FleetWatch.Proofs.Session.Caches
import FleetWatch.Proofs.Message.Kinds
import FleetWatch.Proofs.Agent.Conversation
import FleetWatch.Proofs.Agent.Link
import FleetWatch.Proofs.Dashboard.Listing
import FleetWatch.Proofs.Dashboard.Repetition
import FleetWatch.Proofs.History.Arrival
import FleetWatch.Proofs.History.Precision
import FleetWatch.Proofs.Queue.Traffic
import FleetWatch.Proofs.Wire.Alike
import FleetWatch.Proofs.Wire.Rearranged
import FleetWatch.Proofs.Message.Embedding
import FleetWatch.Proofs.Web.HistoryAnswers
import FleetWatch.Proofs.Text.Blank
import FleetWatch.Proofs.Web.AdminGate
import FleetWatch.Proofs.Time.Difference
import FleetWatch.Proofs.Time.Online
