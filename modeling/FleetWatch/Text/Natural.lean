/-!
# Natural numbers as text

## Main definitions

* `Text.parseWord64?`: a decimal number of 64 bits, with or without a plus sign.
-/
namespace FleetWatch.Text

/-- A decimal number of 64 bits; a plus sign may stand before it. -/
def parseWord64? (s : String) : Option UInt64 :=
  let cs := match s.toList with
    | '+' :: rest => rest
    | cs => cs
  if cs.isEmpty || !cs.all Char.isDigit then none
  else
    let n := cs.foldl (fun n c => n * 10 + (c.toNat - 48)) 0
    if n < UInt64.size then some (.ofNat n) else none

end FleetWatch.Text
