import FleetWatch.Message.Agent
import FleetWatch.Wire.Reader

/-!
# Errors

What can go wrong between agents, the hub and the history, with its wording and what follows from
it.

## Main definitions

* `HubError`: failures of sessions and of the directory.
* `HistoryError`: failures of the history.
* `HubError.reply?`: the frame an agent is answered with.
-/
namespace FleetWatch

inductive HubError where
  | authRejected (reason : String)
  | undecodable (fault : Json.Fault)
  | malformed (reason : String)
  | notAuthenticated
  | transportFailure (reason : String)
  | unavailable (reason : String)
deriving DecidableEq

namespace HubError

def message : HubError → String
  | authRejected reason => "authentication rejected: " ++ reason
  | undecodable .text => "malformed frame: not JSON"
  | undecodable .shape => "malformed frame: of no known shape"
  | malformed reason => "malformed frame: " ++ reason
  | notAuthenticated => "not authenticated"
  | transportFailure reason => "transport failure: " ++ reason
  | unavailable reason => "collaborator unavailable: " ++ reason

def isFatal : HubError → Bool
  | authRejected _ | transportFailure _ => true
  | _ => false

/-- The frame an agent is answered with. -/
def reply? : HubError → Option Message.ToAgent
  | authRejected reason => some (.rejected reason)
  | notAuthenticated => some (.error "not authenticated")
  | _ => none

end HubError

inductive HistoryError where
  | connectionFailed (reason : String)
  | queryFailed (reason : String)
  | migrationFailed (reason : String)
  | serialization (reason : String)
  | unavailable (reason : String)
  | inputOutput (reason : String)
deriving DecidableEq

namespace HistoryError

def message : HistoryError → String
  | connectionFailed reason => "failed to connect to storage backend: " ++ reason
  | queryFailed reason => "storage query failed: " ++ reason
  | migrationFailed reason => "database migration failed: " ++ reason
  | serialization reason => "snapshot serialization error: " ++ reason
  | unavailable reason => "storage unavailable: " ++ reason
  | inputOutput reason => "I/O error: " ++ reason

def toHubError (e : HistoryError) : HubError := .unavailable e.message

end HistoryError
end FleetWatch
