import FleetWatch.Binary.Format

/-!
# Shortest decimals

The fewest decimal digits that single out a binary number: among the decimals that round back to it,
those with the fewest digits, and of these the nearest one.

## Main definitions

* `Decimal`: a whole number of powers of ten.
* `Binary.Interval`: the reals that round to a number.
* `Binary.shortest`: its shortest decimal.
-/
namespace FleetWatch

/-- The value `digits * 10 ^ exponent`. -/
structure Decimal where
  digits : Nat
  exponent : Int
deriving DecidableEq, Repr

/-- The number of decimal digits of `n`; zero has one. -/
def decimalLength (n : Nat) : Nat := (Nat.toDigits 10 n).length

/-- The decimal without trailing zeros among its digits; `fuel` bounds how many are dropped. -/
def Decimal.trim : Nat → Decimal → Decimal
  | 0, d => d
  | fuel + 1, d =>
    if d.digits ≠ 0 ∧ d.digits % 10 = 0 then trim fuel ⟨d.digits / 10, d.exponent + 1⟩ else d

namespace Binary

/-- The reals that round to a number: in units of `1 / denominator` it lies at `value`, and they
reach from `low` to `high`, ends included when `closed`. -/
structure Interval where
  low : Nat
  value : Nat
  high : Nat
  denominator : Nat
  closed : Bool

/-- The interval around `n` steps of the format: half the way to each neighbour, ends included when
the significand is even. -/
def Interval.around (f : Format) (n : Nat) : Interval :=
  let s := f.spacing n
  let below := if 0 < s ∧ n = 1 <<< (f.precision - 1 + s) then 1 <<< s else 1 <<< (s + 1)
  { low := 4 * n - below, value := 4 * n, high := 4 * n + 1 <<< (s + 1)
    denominator := 1 <<< (f.scale + 2), closed := (n >>> s) % 2 = 0 }

/-- The exponent of the leading decimal digit of `n / d`. -/
def leadingExponent (n d : Nat) : Int :=
  if d ≤ n then (decimalLength (n / d) : Int) - 1
  else - (decimalLength ((d + n - 1) / n - 1) : Int)

/-- The nearest multiple of `10 ^ exponent` inside the interval, if one is; a tie goes to the even
multiple. -/
def Interval.onGrid? (i : Interval) (exponent : Int) : Option Decimal :=
  let up := Nat.pow 10 (-exponent).toNat
  let unit := i.denominator * Nat.pow 10 exponent.toNat
  let inside (k : Nat) : Bool :=
    if i.closed then i.low * up ≤ k * unit && k * unit ≤ i.high * up
    else i.low * up < k * unit && k * unit < i.high * up
  let k := i.value * up / unit
  let nearest := nearestEven (i.value * up) unit
  if inside k && inside (k + 1) then some ⟨nearest, exponent⟩
  else if inside k then some ⟨k, exponent⟩
  else if inside (k + 1) then some ⟨k + 1, exponent⟩
  else none

/-- Seventeen significant digits tell any two numbers of a 64-bit format apart. -/
def digitLimit : Nat := 17

/-- The shortest decimal of `n` steps: the coarsest grid with a point in the interval gives it. -/
def shortest (f : Format) (n : Nat) : Decimal :=
  let i := Interval.around f n
  let lead := leadingExponent i.value i.denominator
  let found := (List.range digitLimit).findSome? fun (count : Nat) => i.onGrid? (lead - count)
  (found.getD ⟨0, 0⟩).trim digitLimit

end Binary
end FleetWatch
