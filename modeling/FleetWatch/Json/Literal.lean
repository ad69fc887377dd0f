import FleetWatch.Binary.Shortest

/-!
# Number literals

A number as it is written, the number it is read as, and the literal a number is written with.

Reading keeps the significand in 64 bits: digits that no longer fit count as a power of ten before
the point and are dropped after it. The significand is then scaled by a power of ten in steps of at
most `10 ^ 308`, each step rounded. Writing uses the shortest decimal.

## Main definitions

* `Json.Literal`: sign, digits before and after the point, exponent.
* `Json.Number`: an integer of 64 bits or a 64-bit float.
* `Json.Literal.read?`: the number of a literal; `none` when it is beyond the floats.
* `Json.Literal.ofInt`, `Json.Literal.ofDecimal`, `Json.Literal.ofFloat?`: the written forms.
-/
namespace FleetWatch.Json

abbrev Digit := Fin 10

structure Exponent where
  negative : Bool
  digits : List Digit
deriving DecidableEq

/-- A number as written; it has a point when `fraction` is not empty. -/
structure Literal where
  negative : Bool
  whole : List Digit
  fraction : List Digit
  exponent : Option Exponent
deriving DecidableEq

/-- A number as read. -/
inductive Number where
  | integer (i : Int)
  | real (x : Double)
deriving DecidableEq

/-- A number below ten as a digit. -/
def Digit.ofNat (n : Nat) : Digit := Fin.ofNat 10 n

def natOfDigits (ds : List Digit) : Nat := ds.foldl (fun n d => n * 10 + d.val) 0

def significandLimit : Nat := UInt64.size - 1

/-- Appends digits to a significand up to the first that does not fit; returns what is left. -/
def absorb (significand : Nat) : List Digit → Nat × List Digit
  | [] => (significand, [])
  | d :: ds =>
    if significandLimit < significand * 10 + d.val then (significand, d :: ds)
    else absorb (significand * 10 + d.val) ds

/-- The largest power of ten used in one scaling step. -/
def stepLimit : Nat := 308

/-- `x * 10 ^ e`, one rounded product or quotient per step; `none` when it leaves the floats. -/
def scaleByTen (x : Double) (e : Int) : Option Double :=
  if 0 ≤ e then
    if e ≤ stepLimit then
      let y := x.mul (Binary.ofNat (Nat.pow 10 e.toNat))
      if y.isFinite then some y else none
    else if x = Binary.zero false then some x else none
  else if -(stepLimit : Int) ≤ e then some (x.div (Binary.ofNat (Nat.pow 10 (-e).toNat)))
  else if x = Binary.zero false then some x
  else scaleByTen (x.div (Binary.ofNat (Nat.pow 10 stepLimit))) (e + stepLimit)
termination_by (-e).toNat
decreasing_by simp only [stepLimit] at *; omega

namespace Exponent

/-- The signed value of an exponent. -/
def value (e : Exponent) : Int :=
  let n : Int := natOfDigits e.digits
  if e.negative then -n else n

end Exponent

namespace Literal

def isWhole (l : Literal) : Bool := l.fraction.isEmpty && l.exponent.isNone

/-- A whole literal within 64 bits; zero with a sign and what lies below the signed range are
floats. -/
def readWhole (negative : Bool) (n : Nat) : Number :=
  if !negative then .integer n
  else if 0 < n ∧ n ≤ UInt64.size / 2 then .integer (-(n : Int))
  else .real (Binary.neg (Binary.ofNat n))

/-- The number a literal is read as; `none` when it is beyond the floats. -/
def read? (l : Literal) : Option Number :=
  let (n, left) := absorb 0 l.whole
  if l.isWhole && left.isEmpty then some (readWhole l.negative n)
  else
    let (m, dropped) := absorb n l.fraction
    let shift : Int := left.length - (l.fraction.length - dropped.length : Nat)
    let e := shift + (l.exponent.map Exponent.value).getD 0
    (scaleByTen (Binary.ofNat m) e).map fun x => .real (if l.negative then x.neg else x)

def digitsOf (n : Nat) : List Digit :=
  (Nat.toDigits 10 n).map fun c => Digit.ofNat (c.toNat - 48)

def ofInt (i : Int) : Literal := ⟨i < 0, digitsOf i.natAbs, [], none⟩

/-- How decimals are laid out: positionally while the exponent of the leading digit is within
`lowest … highest`, with an exponent otherwise. -/
structure Layout where
  lowest : Int
  highest : Int

/-- Floats are positional from `0.00001` up to, but without, `1e16`. -/
def floatLayout : Layout := ⟨-5, 15⟩

/-- A decimal as written, always with a point or an exponent. -/
def ofDecimal (layout : Layout) (negative : Bool) (d : Decimal) : Literal :=
  let ds := digitsOf d.digits
  let lead : Int := d.exponent + ds.length - 1
  if lead < layout.lowest || layout.highest < lead then
    { negative, whole := ds.take 1, fraction := ds.drop 1
      exponent := some ⟨lead < 0, digitsOf lead.natAbs⟩ }
  else if lead < 0 then
    { negative, whole := [0], exponent := none
      fraction := List.replicate (-lead - 1).toNat 0 ++ ds }
  else
    let n := lead.toNat + 1
    let fraction := ds.drop n
    { negative, exponent := none
      whole := ds.take n ++ List.replicate (n - ds.length) 0
      fraction := if fraction.isEmpty then [0] else fraction }

/-- A finite float as written: its shortest decimal. -/
def ofFloat? {f : Binary.Format} : Binary f → Option Literal
  | .finite negative units _ =>
    if units = 0 then some ⟨negative, [0], [0], none⟩
    else some (ofDecimal floatLayout negative (Binary.shortest f units))
  | _ => none

end Literal
end FleetWatch.Json
