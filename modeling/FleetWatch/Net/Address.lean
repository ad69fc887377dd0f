/-!
# Internet addresses

Addresses of both families and the endpoints made of them, with their textual forms. A text of the
newer family may shorten one run of zero groups and end in an address of the older one; it is
written with its longest run of zero groups shortened, the first of equals.

## Main definitions

* `Net.IpAddress`, `Net.IpAddress.parse?`, `Net.IpAddress.print`.
* `Net.Endpoint`: an address and a port; `Net.Endpoint.parse?`, `Net.Endpoint.print`.
-/
namespace FleetWatch.Net

/-- An address of four octets or of eight groups. -/
inductive IpAddress where
  | v4 (a b c d : UInt8)
  | v6 (groups : Vector UInt16 8)
deriving DecidableEq

/-- An address with a port; only the newer family has a scope other than zero. -/
structure Endpoint where
  ip : IpAddress
  port : UInt16
  scope : UInt32 := 0
deriving DecidableEq

/-- The value of a digit in a base of at most sixteen. -/
def digit? (base : Nat) (c : Char) : Option Nat :=
  let n :=
    if '0' ≤ c ∧ c ≤ '9' then c.toNat - 48
    else if 'a' ≤ c ∧ c ≤ 'f' then c.toNat - 87
    else if 'A' ≤ c ∧ c ≤ 'F' then c.toNat - 55
    else base
  if n < base then some n else none

/-- All digits at the front as a number, how many they are, and the rest of the text. -/
def takeNumber (base : Nat) (n count : Nat) : List Char → Nat × Nat × List Char
  | [] => (n, count, [])
  | c :: rest =>
    match digit? base c with
    | some d => takeNumber base (n * base + d) (count + 1) rest
    | none => (n, count, c :: rest)

def readNumber (base limit bound : Nat) (leadingZeros : Bool) (cs : List Char) :
    Option (Nat × List Char) :=
  let (n, count, rest) := takeNumber base 0 0 cs
  if count = 0 || limit < count || bound ≤ n || (!leadingZeros && 1 < count && cs.head? = some '0')
  then none else some (n, rest)

def readChar (c : Char) : List Char → Option (List Char)
  | d :: rest => if d = c then some rest else none
  | [] => none

/-- Four octets with points between them. -/
def readV4 (cs : List Char) : Option ((UInt8 × UInt8 × UInt8 × UInt8) × List Char) := do
  let octet (cs : List Char) := readNumber 10 3 256 false cs
  let (a, cs) ← octet cs
  let (b, cs) ← octet (← readChar '.' cs)
  let (c, cs) ← octet (← readChar '.' cs)
  let (d, cs) ← octet (← readChar '.' cs)
  return ((.ofNat a, .ofNat b, .ofNat c, .ofNat d), cs)

/-- At most `left` groups with colons between them, of which the last two may be spelled as four
octets; also whether they were. -/
def readGroups (first : Bool) : Nat → List Char → List UInt16 × Bool × List Char
  | 0, cs => ([], false, cs)
  | left + 1, cs =>
    match (if first then some cs else readChar ':' cs) with
    | none => ([], false, cs)
    | some start =>
      match (if 0 < left then readV4 start else none) with
      | some ((a, b, c, d), rest) =>
        ([.ofNat (a.toNat * 256 + b.toNat), .ofNat (c.toNat * 256 + d.toNat)], true, rest)
      | none =>
        match readNumber 16 4 65536 true start with
        | none => ([], false, cs)
        | some (n, rest) =>
          let (groups, octets, rest) := readGroups false left rest
          (.ofNat n :: groups, octets, rest)

/-- Eight groups, of which one run of zeros may be left out between two colons. -/
def readV6 (cs : List Char) : Option (Vector UInt16 8 × List Char) := do
  let ofList (gs : List UInt16) : Option (Vector UInt16 8) :=
    if h : gs.length = 8 then some ⟨gs.toArray, by simpa using h⟩ else none
  let (front, octets, cs) := readGroups true 8 cs
  if front.length = 8 then return (← ofList front, cs)
  else if octets then none
  else
    let cs ← readChar ':' (← readChar ':' cs)
    let (back, _, cs) := readGroups true (7 - front.length) cs
    let zeros := List.replicate (8 - front.length - back.length) 0
    return (← ofList (front ++ zeros ++ back), cs)

/-- The reading succeeded and nothing is left. -/
def complete {α : Type} : Option (α × List Char) → Option α
  | some (a, []) => some a
  | _ => none

def longestZeros (groups : List UInt16) : Nat × Nat :=
  let step := fun ((best, run, i) : (Nat × Nat) × (Nat × Nat) × Nat) (g : UInt16) =>
    if g = 0 then
      let run := if run.2 = 0 then (i, 1) else (run.1, run.2 + 1)
      (if best.2 < run.2 then run else best, run, i + 1)
    else (best, (0, 0), i + 1)
  (groups.foldl step ((0, 0), (0, 0), 0)).1

def printGroups (groups : List UInt16) : String :=
  ":".intercalate (groups.map fun g => String.ofList (Nat.toDigits 16 g.toNat))

/-- Four octets with points between them. -/
def printOctets (octets : List Nat) : String := ".".intercalate (octets.map Nat.repr)

namespace IpAddress

def parse? (s : String) : Option IpAddress :=
  let v4 := (readV4 s.toList).map fun ((a, b, c, d), cs) => (IpAddress.v4 a b c d, cs)
  let v6 := (readV6 s.toList).map fun (groups, cs) => (IpAddress.v6 groups, cs)
  complete (v4.orElse fun _ => v6)

/-- The text of an address; one that stands for an address of the older family shows its octets. -/
def print : IpAddress → String
  | .v4 a b c d => printOctets [a.toNat, b.toNat, c.toNat, d.toNat]
  | .v6 groups =>
    match groups.toList with
    | [0, 0, 0, 0, 0, 0xFFFF, g, h] =>
      "::ffff:" ++ printOctets [g.toNat / 256, g.toNat % 256, h.toNat / 256, h.toNat % 256]
    | gs =>
      let (start, length) := longestZeros gs
      if 1 < length then
        printGroups (gs.take start) ++ "::" ++ printGroups (gs.drop (start + length))
      else printGroups gs

end IpAddress

namespace Endpoint

/-- A colon and a port. -/
def readPort (cs : List Char) : Option (UInt16 × List Char) := do
  let (n, cs) ← readNumber 10 cs.length 65536 true (← readChar ':' cs)
  return (.ofNat n, cs)

/-- A percent sign and a scope, or zero. -/
def readScope (cs : List Char) : UInt32 × List Char :=
  match (readChar '%' cs).bind fun cs => readNumber 10 cs.length UInt32.size true cs with
  | some (n, rest) => (.ofNat n, rest)
  | none => (0, cs)

/-- The endpoint of a text; addresses of the newer family stand in brackets. -/
def parse? (s : String) : Option Endpoint :=
  let v4 : Option (Endpoint × List Char) := do
    let ((a, b, c, d), cs) ← readV4 s.toList
    let (port, cs) ← readPort cs
    return (⟨.v4 a b c d, port, 0⟩, cs)
  let v6 : Option (Endpoint × List Char) := do
    let (groups, cs) ← readV6 (← readChar '[' s.toList)
    let (scope, cs) := readScope cs
    let (port, cs) ← readPort (← readChar ']' cs)
    return (⟨.v6 groups, port, scope⟩, cs)
  complete (v4.orElse fun _ => v6)

/-- The text of an endpoint; a scope of zero is left out. -/
def print (e : Endpoint) : String :=
  match e.ip with
  | .v4 .. => e.ip.print ++ ":" ++ Nat.repr e.port.toNat
  | .v6 _ =>
    let scope := if e.scope = 0 then "" else "%" ++ Nat.repr e.scope.toNat
    "[" ++ e.ip.print ++ scope ++ "]:" ++ Nat.repr e.port.toNat

end Endpoint
end FleetWatch.Net
