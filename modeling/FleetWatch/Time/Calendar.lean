/-!
# The civil calendar

Proleptic Gregorian dates and their day numbers, counted from 1970-01-01.

## Main definitions

* `Time.Date`: year, month and day of the month.
* `Time.Date.valid`: the date exists.
* `Time.Date.dayNumber`, `Time.Date.ofDayNumber`: the two directions.
-/
namespace FleetWatch.Time

/-- Every fourth year is a leap year, of the centuries only every fourth. -/
def isLeapYear (y : Int) : Bool := y % 4 = 0 && (y % 100 ≠ 0 || y % 400 = 0)

def monthLengths (y : Int) : List Nat :=
  [31, if isLeapYear y then 29 else 28, 31, 30, 31, 30, 31, 31, 30, 31, 30, 31]

/-- A date; months and days count from one. -/
structure Date where
  year : Int
  month : Nat
  day : Nat
deriving DecidableEq, Repr

/-- The days from 0001-01-01 to the first day of the year. -/
def daysBeforeYear (y : Int) : Int := 365 * (y - 1) + (y - 1) / 4 - (y - 1) / 100 + (y - 1) / 400

/-- The day number of 0001-01-01, negated. -/
def epochOffset : Int := 719162

namespace Date

/-- The month exists and has the day. -/
def valid (d : Date) : Bool :=
  1 ≤ d.month && 1 ≤ d.day && d.day ≤ (monthLengths d.year).getD (d.month - 1) 0

def dayNumber (d : Date) : Int :=
  let daysBeforeMonth : Nat := ((monthLengths d.year).take (d.month - 1)).foldl (· + ·) 0
  daysBeforeYear d.year - epochOffset + daysBeforeMonth + (d.day - 1)

/-- The month and day that lie `n` days after the first day of a month, given the lengths of this
month and the following ones. -/
def monthAndDay (month n : Nat) : List Nat → Nat × Nat
  | [] => (month, n + 1)
  | l :: ls => if n < l then (month, n + 1) else monthAndDay (month + 1) (n - l) ls

/-- The date of a day number: whole spans of 400, 100, 4 and 1 years are taken off in turn. -/
def ofDayNumber (n : Int) : Date :=
  let n := n + epochOffset
  let era := n / 146097
  let r := (n % 146097).toNat
  let century := min (r / 36524) 3
  let r := r - century * 36524
  let fourth := r / 1461
  let r := r % 1461
  let single := min (r / 365) 3
  let year := era * 400 + (century * 100 + fourth * 4 + single + 1 : Nat)
  let (month, day) := monthAndDay 1 (r - single * 365) (monthLengths year)
  ⟨year, month, day⟩

end Date
end FleetWatch.Time
