import FleetWatch.Web.AdminGate
import FleetWatch.Web.Answer
import FleetWatch.Web.MediaType
import FleetWatch.Wire.Writer

/-!
# The router

From a request to its response: which page it is for, who may see that, and whether the request can
be read at all.

## Main definitions

* `Web.Response`.
* `Web.respond`: the response to a request.
-/
namespace FleetWatch.Web

/-- A response; only bodies of JSON are kept. -/
structure Response where
  status : Nat
  body : Option Json.Doc := none
  /-- Pages of any origin may read the response. -/
  anyOrigin : Bool := false

namespace Response

def ofValue {α : Type} (status : Nat) (s : Wire.Schema α) (a : α) : Response :=
  { status, body := some (s.write a) }

def ofFailure (e : Failure) : Response := { status := e.status, body := some (errorBody e.message) }

/-- The response of a refusal at the gate. -/
def ofRefusal (e : GateRefusal) : Response :=
  { status := e.status, body := some (errorBody e.message) }

/-- The response to one who only looks it up. -/
def withoutBody (a : Response) : Response := { a with body := none }

end Response

/-- The bytes of a text with their letters in lower case. -/
def lowerCase (bs : List UInt8) : List UInt8 :=
  bs.map fun b => if 0x41 ≤ b ∧ b ≤ 0x5A then b + 0x20 else b

/-- A header has a value, in any case. -/
def headerIs (headers : Net.Headers) (name value : String) : Bool :=
  (Net.Headers.first? headers name).any fun v => lowerCase v = value.toUTF8.toList

/-- A word stands somewhere in a list of bytes. -/
def holdsWord (word : List UInt8) : List UInt8 → Bool
  | [] => word.isEmpty
  | b :: bs => word.isPrefixOf (b :: bs) || holdsWord word bs

/-- A header is text that holds a word, in any case. -/
def headerContains (headers : Net.Headers) (name word : String) : Bool :=
  (Net.Headers.first? headers name).any fun v =>
    (textOf? v).isSome && holdsWord word.toUTF8.toList (lowerCase v)

/-- The answer on a socket's page: the request must ask for a socket, and then needs a connection
that can become one. -/
def socketResponse (r : Request) : Response :=
  if headerContains r.headers "connection" "upgrade" && headerIs r.headers "upgrade" "websocket"
      && headerIs r.headers "sec-websocket-version" "13"
      && (Net.Headers.first? r.headers "sec-websocket-key").isSome
  then { status := 426 } else { status := 400 }

def bodyLimit : Nat := 2097152

/-- The command in the body of a request; a request that cannot be read has its status only. -/
def readCommand (r : Request) : Except Response CommandRequest :=
  let isJson := (Net.Headers.readable? r.headers "content-type").any fun t =>
    (MediaType.parse? t).any MediaType.isJson
  if !isJson then .error { status := 415 }
  else if bodyLimit < r.body.utf8ByteSize then .error { status := 413 }
  else match CommandRequest.schema.decodeFront r.body with
    | .ok command => .ok command
    | .error .text => .error { status := 400 }
    | .error .shape => .error { status := 422 }

def commandResponse (h : Hub) (id : String) (r : Request) : Response × Hub :=
  match decodeText? id with
  | none => ({ status := 400 }, h)
  | some serverId =>
    match readCommand r with
    | .error refusal => (refusal, h)
    | .ok command =>
      match queueCommand h serverId command with
      | (.ok receipt, h) => (.ofValue 202 CommandReceipt.schema receipt, h)
      | (.error e, h) => (.ofFailure e, h)

def historyResponse (h : Hub) (now : Time.Instant) (id : String) (r : Request) :
    Option Response :=
  match decodeText? id, HistoryQuery.parse? r.query with
  | some serverId, some q =>
    (historyReport h serverId q now).map fun
      | .ok report => .ofValue 200 HistoryReport.schema report
      | .error e => .ofFailure e
  | _, _ => some { status := 400 }

def pageResponse (h : Hub) (now : Time.Instant) (r : Request) : Page → Option Response × Hub
  | .agentSocket | .dashboardSocket => (some (socketResponse r), h)
  | .health => (some (.ofValue 200 HealthReport.schema (healthReport h now)), h)
  | .viewers => (some (.ofValue 200 ViewersReport.schema (viewersReport h)), h)
  | .command id =>
    let (response, h) := commandResponse h id r
    (some response, h)
  | .history id => (historyResponse h now id r, h)

/-- The gate of a page: nothing for a request that is let through. -/
def gateRefusal? (settings : WebSettings) (p : Page) (r : Request) : Option GateRefusal :=
  match settings.adminToken with
  | some token =>
    if p.isGuarded then
      match letThrough token r.headers with
      | .ok () => none
      | .error e => some e
    else none
  | none => none

/-- The answer of a page behind its gate, which comes before all that the page looks at. -/
def guardedResponse (settings : WebSettings) (h : Hub) (now : Time.Instant) (r : Request)
    (p : Page) : Option Response × Hub :=
  match gateRefusal? settings p r with
  | some e => (some (.ofRefusal e), h)
  | none => if p.allows r.method then pageResponse h now r p else (some { status := 405 }, h)

/-- The response before it is seen who may read it. On a page that can be got, looking it up leaves
out the body of whatever would be answered, a refusal at the gate included. -/
def routeResponse (settings : WebSettings) (h : Hub) (now : Time.Instant) (r : Request) :
    Option Response × Hub :=
  match Page.ofPath? r.path with
  | none => (some { status := 404 }, h)
  | some page =>
    let (response, h) := guardedResponse settings h now r page
    if page.isGot && r.method = .head then (response.map Response.withoutBody, h)
    else (response, h)

/-- The response to a request, and the hub afterwards; there is none when its handling breaks down.
Where pages of other origins may read, every question what is allowed is answered, whatever it is
about. -/
def respond (settings : WebSettings) (h : Hub) (now : Time.Instant) (r : Request) :
    Option Response × Hub :=
  if settings.cors && r.method = .options then (some { status := 200, anyOrigin := true }, h)
  else
    let (response, h) := routeResponse settings h now r
    (response.map fun (a : Response) => { a with anyOrigin := settings.cors }, h)

end FleetWatch.Web
