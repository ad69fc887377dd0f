/-!
# Media types

The media type that a request names its body by.

## Main definitions

* `Web.MediaType`, `Web.MediaType.parse?`.
* `Web.MediaType.isJson`: the types of JSON bodies.
-/
namespace FleetWatch.Web

/-- A media type in lower case; the suffix is what follows the last plus sign. -/
structure MediaType where
  kind : String
  subtype : String
  suffix : Option String
deriving DecidableEq

namespace MediaType

/-- A character of names. -/
def isToken (c : Char) : Bool := c.isAlphanum || c ∈ "!#$%&'*+-.^_\x60|~".toList

/-- How far the parameters after a type have been read. -/
inductive ParameterState where
  | before
  | name
  | value (started : Bool)
  | quoted (started : Bool)
  | after

namespace ParameterState

/-- Reads one more character of the parameters. A quote ends a quoted value that has begun. -/
def next? : ParameterState → Char → Option ParameterState
  | before, c => if c = ' ' then some before else if isToken c then some name else none
  | name, c => if c = '=' then some (value false) else if isToken c then some name else none
  | value started, c =>
    if c = '"' && !started then some (quoted false)
    else if c = ';' && started then some before
    else if isToken c then some (value true) else none
  | quoted started, c =>
    if c = '"' && started then some after
    else if 31 < c.toNat && c.toNat ≠ 127 then some (quoted true) else none
  | after, c => if c = ';' then some before else if c = ' ' then some after else none

/-- The parameters may end here. -/
def isFinal : ParameterState → Bool
  | name | quoted _ => false
  | _ => true

end ParameterState

/-- The characters after the first semicolon are parameters. -/
def areParameters (cs : List Char) : Bool :=
  (cs.foldlM ParameterState.next? .before).any ParameterState.isFinal

/-- The type of a kind and a name: what follows the last plus sign after the name's first character
is the suffix. -/
def ofNames (kind name : List Char) : MediaType :=
  let text (cs : List Char) : String := String.ofList (cs.map Char.toLower)
  let back := name.reverse
  let suffix := (back.takeWhile (· ≠ '+')).reverse
  let front := ((back.dropWhile (· ≠ '+')).drop 1).reverse
  if front.isEmpty then { kind := text kind, subtype := text name, suffix := none }
  else { kind := text kind, subtype := text front, suffix := some (text suffix) }

/-- The media type of a text. -/
def parse? (s : String) : Option MediaType :=
  let cs := s.toList
  let kind := cs.takeWhile (· ≠ '/')
  match cs.dropWhile (· ≠ '/') with
  | [] => none
  | _ :: rest =>
    let name := rest.takeWhile (· ≠ ';')
    let parameters := rest.dropWhile (· ≠ ';')
    if kind.isEmpty || !kind.all isToken || !name.all isToken then none
    else if name.isEmpty && !parameters.isEmpty then none
    else if areParameters (parameters.drop 1) then some (ofNames kind name) else none

/-- The bodies of the type are JSON. -/
def isJson (m : MediaType) : Bool :=
  m.kind = "application" && (m.subtype = "json" || m.suffix = some "json")

end MediaType
end FleetWatch.Web
