import FleetWatch.Net.Header
import FleetWatch.Secret

/-!
# The gate of the administrators' pages

## Main definitions

* `Web.GateRefusal`: why a request is not let through, with its status and wording.
* `Web.bearerToken`: the token that a request presents.
* `Web.letThrough`: the gate.
-/
namespace FleetWatch.Web

/-- Why a request is not let through. -/
inductive GateRefusal where
  | missingToken
  | invalidFormat
  | invalidToken
deriving DecidableEq

namespace GateRefusal

def status : GateRefusal → Nat
  | missingToken | invalidFormat => 401
  | invalidToken => 403

def message : GateRefusal → String
  | missingToken => "missing Authorization header"
  | invalidFormat => "invalid Authorization format (expected: Bearer <token>)"
  | invalidToken => "invalid admin token"

end GateRefusal

/-- The token of the first `authorization` header: what follows the scheme and a space, without
blanks at its ends. The scheme is `bearer` in any case. -/
def bearerToken (headers : Net.Headers) : Except GateRefusal String :=
  match Net.Headers.readable? headers "authorization" with
  | none => .error .missingToken
  | some value =>
    let scheme := value.toList.takeWhile (· ≠ ' ')
    match value.toList.dropWhile (· ≠ ' ') with
    | [] => .error .invalidFormat
    | _ :: rest =>
      let token := Text.trim (String.ofList rest)
      if scheme.map Char.toLower = "bearer".toList && !token.isEmpty then .ok token
      else .error .invalidFormat

/-- Lets a request through that presents the token of the administrators. -/
def letThrough (adminToken : String) (headers : Net.Headers) : Except GateRefusal Unit :=
  match bearerToken headers with
  | .error e => .error e
  | .ok token => if tokensMatch adminToken token then .ok () else .error .invalidToken

end FleetWatch.Web
