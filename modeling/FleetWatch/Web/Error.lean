import FleetWatch.Error

/-!
# Failed requests

## Main definitions

* `Web.Failure`: why a request fails, with its status and body.
-/
namespace FleetWatch.Web

/-- Why a request fails. -/
inductive Failure where
  | history (reason : String)
  | unavailable (reason : String)
  | invalidRequest (reason : String)
  | notFound (reason : String)
  | internal (reason : String)
deriving DecidableEq

namespace Failure

def status : Failure → Nat
  | history _ | internal _ => 500
  | unavailable _ => 503
  | invalidRequest _ => 400
  | notFound _ => 404

def message : Failure → String
  | history reason | unavailable reason | invalidRequest reason | notFound reason
  | internal reason => reason

def ofHistory : HistoryError → Failure
  | .unavailable reason => .unavailable reason
  | e => .history e.message

def ofHub : HubError → Failure
  | .unavailable reason => .unavailable reason
  | e => .internal e.message

end Failure

def errorBody (message : String) : Json.Doc := .obj [("error", .str message)]

end FleetWatch.Web
