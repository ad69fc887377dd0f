import FleetWatch.Time.Calendar

/-!
# Instants

Moments of universal time in nanoseconds, from the first moment of the year -262143 to the last of
262142. A leap second is kept apart: it has the seconds count of the second before it and
nanoseconds from `10 ^ 9` on.

## Main definitions

* `Time.Instant`, ordered by second, then nanosecond.
* `Time.Instant.ofMillis?`, `Time.Instant.millis`: milliseconds since 1970.
* `Time.Instant.since`: the nanoseconds between two instants.
* `Time.Instant.minus?`: an instant some seconds earlier, when it lies in the range.
-/
namespace FleetWatch.Time

def daySeconds : Int := 86400

def nanosPerSecond : Nat := 1000000000

/-- The first and last year that instants lie in. -/
def firstYear : Int := -262143

@[inherit_doc firstYear] def lastYear : Int := 262142

def firstSecond : Int := (Date.mk firstYear 1 1).dayNumber * daySeconds

def lastSecond : Int := ((Date.mk lastYear 12 31).dayNumber + 1) * daySeconds - 1

/-- A moment of universal time. -/
structure Instant where
  second : Int
  nano : Nat
  first_le : firstSecond ≤ second
  le_last : second ≤ lastSecond
  nano_lt : nano < 2 * nanosPerSecond
deriving DecidableEq

namespace Instant

/-- The instant of a second and its nanoseconds, when it lies in the range. -/
def of? (second : Int) (nano : Nat) : Option Instant :=
  if h : firstSecond ≤ second ∧ second ≤ lastSecond ∧ nano < 2 * nanosPerSecond then
    some ⟨second, nano, h.1, h.2.1, h.2.2⟩
  else none

theorem of?_eq_some {second : Int} {nano : Nat} {t : Instant} (h : of? second nano = some t) :
    t.second = second ∧ t.nano = nano := by
  unfold of? at h
  split at h
  · simp only [Option.some.injEq] at h; subst h; exact ⟨rfl, rfl⟩
  · simp at h

@[simp] theorem of?_second_nano (t : Instant) : of? t.second t.nano = some t := by
  simp [of?, t.first_le, t.le_last, t.nano_lt]

def epoch : Instant := ⟨0, 0, by decide, by decide, by decide⟩

instance : Inhabited Instant := ⟨epoch⟩

/-- Strictly before, by second and then nanosecond. -/
protected def lt (a b : Instant) : Prop :=
  a.second < b.second ∨ a.second = b.second ∧ a.nano < b.nano

instance : LT Instant := ⟨Instant.lt⟩
instance : LE Instant := ⟨fun a b => ¬ b < a⟩
instance (a b : Instant) : Decidable (a < b) :=
  inferInstanceAs (Decidable (a.second < b.second ∨ a.second = b.second ∧ a.nano < b.nano))
instance (a b : Instant) : Decidable (a ≤ b) := inferInstanceAs (Decidable (¬ b < a))

def isLeap (t : Instant) : Bool := nanosPerSecond ≤ t.nano

def secondOfDay (t : Instant) : Int := t.second % daySeconds

/-- The milliseconds since 1970, rounded down; a leap second counts on past its second. -/
def millis (t : Instant) : Int := t.second * 1000 + (t.nano / 1000000 : Nat)

/-- The instant of a count of milliseconds since 1970, when it lies in the range. -/
def ofMillis? (ms : Int) : Option Instant := of? (ms / 1000) ((ms % 1000).toNat * 1000000)

/-- The leap second that one of two times of day stands before and the other in. -/
def leapBetween (a b : Instant) : Int :=
  if b.secondOfDay < a.secondOfDay then (if b.isLeap then 1 else 0)
  else if a.secondOfDay < b.secondOfDay then (if a.isLeap then -1 else 0)
  else 0

/-- The nanoseconds from `b` to `a`. -/
def since (a b : Instant) : Int :=
  (a.second - b.second + leapBetween a b) * nanosPerSecond + (a.nano - b.nano)

/-- Without leap seconds, the difference is that of the counts of nanoseconds. -/
theorem since_eq {a b : Instant} (ha : a.isLeap = false) (hb : b.isLeap = false) :
    a.since b = (a.second * nanosPerSecond + a.nano) - (b.second * nanosPerSecond + b.nano) := by
  have h : leapBetween a b = 0 := by simp [leapBetween, ha, hb]
  simp only [since, h]
  grind

/-- The instant a number of seconds earlier, when it lies in the range; going back from a leap
second starts at the second after it. -/
def minus? (t : Instant) (seconds : Nat) : Option Instant :=
  if t.isLeap && 0 < seconds then of? (t.second + 1 - seconds) (t.nano - nanosPerSecond)
  else of? (t.second - seconds) t.nano

end Instant
end FleetWatch.Time
