import FleetWatch.Net.Address
import FleetWatch.Text.Blank

/-!
# Request headers

Header fields in the order of a request, and what they tell about where a client is.

## Main definitions

* `Net.Headers`, `Net.Headers.first?`, `Net.Headers.readable?`.
* `Net.clientOrigin`: the place a client connects from.
-/
namespace FleetWatch.Net

abbrev HeaderValue := List UInt8

/-- Header fields: names in lower case and values, in order. -/
abbrev Headers := List (String × HeaderValue)

/-- A value as text; only visible characters, spaces and tabs can be read. -/
def HeaderValue.text? (v : HeaderValue) : Option String :=
  if v.all fun b => (32 ≤ b && b < 127) || b = 9 then
    some (String.ofList (v.map fun b => Char.ofNat b.toNat))
  else none

namespace Headers

def first? (h : Headers) (name : String) : Option HeaderValue := h.lookup name

/-- The first value of a name, if it can be read as text. -/
def readable? (h : Headers) (name : String) : Option String :=
  (first? h name).bind HeaderValue.text?

end Headers

/-- A text without blanks at its ends, if any is left. -/
def nonBlank? (s : String) : Option String :=
  let t := Text.trim s
  if t.isEmpty then none else some t

/-- The place a client connects from. Only a trusted proxy may name it: by the first address of the
first `x-forwarded-for`, else by `x-real-ip`; otherwise it is the address of the peer. -/
def clientOrigin (headers : Headers) (peer : Option Endpoint) (trustProxy : Bool) :
    Option String :=
  let peerIp := peer.map fun p => p.ip.print
  if trustProxy then
    let forwarded := (Headers.readable? headers "x-forwarded-for").bind fun v =>
      nonBlank? (String.ofList (v.toList.takeWhile (· ≠ ',')))
    let real := (Headers.readable? headers "x-real-ip").bind nonBlank?
    (forwarded.or real).or peerIp
  else peerIp

end FleetWatch.Net
