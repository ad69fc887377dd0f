import FleetWatch.Net.Header
import FleetWatch.Text.Natural
import FleetWatch.Time.Rfc3339
import FleetWatch.Web.Encoding

/-!
# Requests

What a client asks for, and which of the hub's pages that is.

## Main definitions

* `Web.Request`, `Web.Request.ofTarget`.
* `Web.Page`, `Web.Page.ofPath?`: the pages of the hub.
* `Web.HistoryQuery`: the stretch of history asked for.
-/
namespace FleetWatch.Web

inductive Method where
  | get
  | head
  | post
  | options
  | other
deriving DecidableEq

def Method.ofName (name : String) : Method :=
  (([("GET", get), ("HEAD", head), ("POST", post), ("OPTIONS", options)] : List _).lookup
    name).getD other

/-- A request; path and query are encoded. -/
structure Request where
  method : Method
  path : String
  query : String
  headers : Net.Headers := []
  body : String := ""

namespace Request

/-- A character that can stand in the name of a scheme. -/
def isSchemeChar (c : Char) : Bool := c.isAlphanum || c ∈ ['+', '-', '.', '~']

/-- What follows the host in a target that names a scheme and a host. -/
def afterHost? (target : List Char) : Option (List Char) :=
  match target.dropWhile isSchemeChar with
  | ':' :: '/' :: '/' :: rest => some (rest.dropWhile fun c => c ∉ ['/', '?', '#'])
  | _ => none

/-- The encoded path in front of a target, and the query behind it. -/
def locate (target : List Char) : String × String :=
  (String.ofList (target.takeWhile (· ≠ '?')), String.ofList ((target.dropWhile (· ≠ '?')).drop 1))

/-- The path and the query of a target: the query stands after the first question mark, and a part
after a number sign does not count. A target that does not start with its path has it after a scheme
and a host, where no path means the root; a host alone has none. -/
def pathAndQuery (target : String) : String × String :=
  let cs := target.toList.takeWhile (· ≠ '#')
  if cs.head? = some '/' then locate cs
  else match afterHost? cs with
    | some rest => if rest.head? = some '/' then locate rest else locate ('/' :: rest)
    | none => ("", "")

def ofTarget (method : Method) (target : String) (headers : Net.Headers) (body : String) :
    Request :=
  let (path, query) := pathAndQuery target
  { method, path, query, headers, body }

end Request

/-- The pages of the hub. The id of a server is encoded. -/
inductive Page where
  | agentSocket
  | dashboardSocket
  | health
  | viewers
  | command (serverId : String)
  | history (serverId : String)
deriving DecidableEq

def segments (path : String) : List String :=
  (path.toList.foldr (fun c parts => match parts with
    | part :: rest => if c = '/' then [] :: part :: rest else (c :: part) :: rest
    | [] => [[]]) [[]]).map String.ofList

namespace Page

/-- The page of a path. -/
def ofPath? (path : String) : Option Page :=
  match segments path with
  | ["", "ws", "agent"] => some agentSocket
  | ["", "ws", "dashboard"] => some dashboardSocket
  | ["", "api", "health"] => some health
  | ["", "api", "viewers"] => some viewers
  | ["", "api", "servers", id, "command"] => some (command id)
  | ["", "api", "servers", id, "history"] => some (history id)
  | _ => none

def isGuarded : Page → Bool
  | command _ | history _ => true
  | _ => false

def isGot : Page → Bool
  | command _ => false
  | _ => true

def isSocket : Page → Bool
  | agentSocket | dashboardSocket => true
  | _ => false

/-- The page has the method. What is got can also be looked up without its body, except for a
socket. -/
def allows (p : Page) : Method → Bool
  | .get => p.isGot
  | .head => p.isGot && !p.isSocket
  | .post => !p.isGot
  | _ => false

end Page

/-- The stretch of history that is asked for. -/
structure HistoryQuery where
  start : Option Time.Instant := none
  stop : Option Time.Instant := none
  limit : Option UInt64 := none

namespace HistoryQuery

/-- Takes in one more field. A known one must be readable and not be given twice. -/
def take? (q : HistoryQuery) (value : Option String) : Option String → Option HistoryQuery
  | some "start" =>
    if q.start.isSome then none
    else (value.bind Time.Instant.parse?).map fun t => { q with start := some t }
  | some "end" =>
    if q.stop.isSome then none
    else (value.bind Time.Instant.parse?).map fun t => { q with stop := some t }
  | some "limit" =>
    if q.limit.isSome then none
    else (value.bind Text.parseWord64?).map fun n => { q with limit := some n }
  | _ => some q

/-- What a query asks for. -/
def parse? (query : String) : Option HistoryQuery :=
  (queryFields query).foldlM (fun q (name, value) => q.take? value name) {}

end HistoryQuery
end FleetWatch.Web
