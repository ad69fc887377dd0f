/-!
# Encoded text

Text in addresses: bytes may be written as a percent sign and two hexadecimal digits. In the fields
of a query a plus sign stands for a space as well.

## Main definitions

* `Web.percentDecode`, `Web.decodeText?`.
* `Web.queryFields`: the fields of a query.
-/
namespace FleetWatch.Web

def hexDigit? (b : UInt8) : Option UInt8 :=
  if 0x30 ≤ b ∧ b ≤ 0x39 then some (b - 0x30)
  else if 0x41 ≤ b ∧ b ≤ 0x46 then some (b - 0x37)
  else if 0x61 ≤ b ∧ b ≤ 0x66 then some (b - 0x57)
  else none

/-- The byte that a percent sign and the two bytes after it stand for. -/
def escaped? (percent high low : UInt8) : Option UInt8 :=
  if percent = 0x25 then do return (← hexDigit? high) * 16 + (← hexDigit? low) else none

/-- Replaces the escapes by their bytes; what is no escape stays. -/
def percentDecode : List UInt8 → List UInt8
  | a :: b :: c :: rest =>
    match escaped? a b c with
    | some d => d :: percentDecode rest
    | none => a :: percentDecode (b :: c :: rest)
  | bs => bs

/-- The text of some bytes, if they are text. -/
def textOf? (bs : List UInt8) : Option String := String.fromUTF8? (ByteArray.mk bs.toArray)

/-- The text without escapes, if its bytes are text. -/
def decodeText? (s : String) : Option String := textOf? (percentDecode s.toUTF8.toList)

/-- A name or value of a query without its encoding, if its bytes are text. -/
def decodeField? (s : List UInt8) : Option String :=
  textOf? (percentDecode (s.map fun b => if b = 0x2B then 0x20 else b))

/-- The parts between the bytes of a value. -/
def splitAt (separator : UInt8) (bs : List UInt8) : List (List UInt8) :=
  bs.foldr (fun b parts => match parts with
    | part :: rest => if b = separator then [] :: part :: rest else (b :: part) :: rest
    | [] => [[]]) [[]]

/-- The fields of a query in order, as names and values; a name or value that is not text is
missing. -/
def queryFields (query : String) : List (Option String × Option String) :=
  ((splitAt 0x26 query.toUTF8.toList).filter fun part => !part.isEmpty).map fun part =>
    (decodeField? (part.takeWhile (· ≠ 0x3D)), decodeField? ((part.dropWhile (· ≠ 0x3D)).drop 1))

end FleetWatch.Web
