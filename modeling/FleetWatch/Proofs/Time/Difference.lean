import FleetWatch.Proofs.Time.Elapsed

/-!
# Differences of time in machine words

A machine keeps a difference of times as whole seconds, rounded down, and the nanoseconds that
remain; no difference is further from zero than the longest span. An operation that leaves its words
or these bounds has no result. For any two moments every operation on the way to their difference
has one, and the difference is exact.

## Main definitions

* `Time.signed?`: the result of an operation on signed words.
* `Time.Difference`, ordered by second, then nanosecond; `Difference.make?`, `Difference.add?`,
  `Difference.ofDays?`, `Difference.ofSpan?`, `Difference.longest`.
* `Time.Instant.since?`: the difference of two moments, from those of their days and of their times
  of day.
-/
namespace FleetWatch.Time

/-- The result of an operation on signed words, of which there are `size`. -/
def signed? (size : Nat) (n : Int) : Option Int :=
  if -(size / 2 : Nat) ≤ n ∧ n < (size / 2 : Nat) then some n else none

theorem signed?_eq_some {size : Nat} {n : Int}
    (h : -(size / 2 : Nat) ≤ n ∧ n < (size / 2 : Nat)) : signed? size n = some n :=
  if_pos h

/-- A difference of times: whole seconds, rounded down, and the nanoseconds that remain. -/
structure Difference where
  second : Int
  nano : Int
  nano_nonneg : 0 ≤ nano
  nano_lt : nano < nanosPerSecond
  within : (second * nanosPerSecond + nano).natAbs ≤ longestSpan.nanos
deriving DecidableEq

namespace Difference

def nanos (d : Difference) : Int := d.second * nanosPerSecond + d.nano

/-- The difference of some seconds and nanoseconds, when there is one. -/
def make? (second nano : Int) : Option Difference :=
  if h : 0 ≤ nano ∧ nano < nanosPerSecond ∧
      (second * nanosPerSecond + nano).natAbs ≤ longestSpan.nanos then
    some ⟨second, nano, h.1, h.2.1, h.2.2⟩
  else none

theorem exists_make? {second nano : Int} (hnonneg : 0 ≤ nano) (hlt : nano < nanosPerSecond)
    (hwithin : (second * nanosPerSecond + nano).natAbs ≤ longestSpan.nanos) :
    ∃ d, make? second nano = some d ∧ d.nanos = second * nanosPerSecond + nano :=
  ⟨⟨second, nano, hnonneg, hlt, hwithin⟩, dif_pos ⟨hnonneg, hlt, hwithin⟩, rfl⟩

/-- The seconds of a difference are far from the bounds of their word. -/
theorem second_bounds (d : Difference) :
    -9223372036854776 ≤ d.second ∧ d.second ≤ 9223372036854776 := by
  have hnano := And.intro d.nano_nonneg d.nano_lt
  have hwithin := d.within
  rw [nanos_longestSpan] at hwithin
  unfold nanosPerSecond at *
  omega

/-! ## Order -/

protected def lt (a b : Difference) : Prop :=
  a.second < b.second ∨ a.second = b.second ∧ a.nano < b.nano

instance : LT Difference := ⟨Difference.lt⟩
instance (a b : Difference) : Decidable (a < b) :=
  inferInstanceAs (Decidable (a.second < b.second ∨ a.second = b.second ∧ a.nano < b.nano))

/-- The order is that of the nanoseconds: the remaining ones are counted up from the second below,
also for negative differences. -/
theorem lt_iff_nanos_lt {a b : Difference} : a < b ↔ a.nanos < b.nanos := by
  have ha := And.intro a.nano_nonneg a.nano_lt
  have hb := And.intro b.nano_nonneg b.nano_lt
  change a.second < b.second ∨ a.second = b.second ∧ a.nano < b.nano ↔ _
  unfold nanos
  unfold nanosPerSecond at *
  omega

/-! ## Sums -/

/-- The sum of the words, with a carry from the nanoseconds. -/
def add? (a b : Difference) : Option Difference := do
  let second ← signed? UInt64.size (a.second + b.second)
  let nano ← signed? UInt32.size (a.nano + b.nano)
  if nano < nanosPerSecond then make? second nano
  else
    let second ← signed? UInt64.size (second + 1)
    let nano ← signed? UInt32.size (nano - nanosPerSecond)
    make? second nano

/-- A sum within the bounds is exact. -/
theorem exists_add? {a b : Difference} (h : (a.nanos + b.nanos).natAbs ≤ longestSpan.nanos) :
    ∃ d, a.add? b = some d ∧ d.nanos = a.nanos + b.nanos := by
  have ha := And.intro a.second_bounds (And.intro a.nano_nonneg a.nano_lt)
  have hb := And.intro b.second_bounds (And.intro b.nano_nonneg b.nano_lt)
  have hunit : nanosPerSecond = 1000000000 := rfl
  have hsum : a.nanos + b.nanos =
      (a.second + b.second) * nanosPerSecond + (a.nano + b.nano) := by
    unfold nanos
    grind
  have hcarried : a.nanos + b.nanos =
      (a.second + b.second + 1) * nanosPerSecond + (a.nano + b.nano - nanosPerSecond) := by
    unfold nanos
    grind
  -- of each operation on words it is shown here that it stays within them
  simp (disch := grind) only [add?, signed?_eq_some, Option.bind_eq_bind, Option.bind_some]
  by_cases hcarry : a.nano + b.nano < nanosPerSecond
  · rw [if_pos hcarry, hsum]
    exact exists_make? (by omega) hcarry (hsum ▸ h)
  · rw [if_neg hcarry, hcarried]
    exact exists_make? (by omega) (by omega) (hcarried ▸ h)

/-! ## Days and spans -/

def ofDays? (days : Int) : Option Difference := do
  make? (← signed? UInt64.size (days * daySeconds)) 0

theorem exists_ofDays? {days : Int}
    (h : (days * daySeconds * nanosPerSecond).natAbs ≤ longestSpan.nanos) :
    ∃ d, ofDays? days = some d ∧ d.nanos = days * daySeconds * nanosPerSecond := by
  have hseconds : (days * daySeconds).natAbs < 9223372036854776 := by
    rw [nanos_longestSpan] at h
    unfold nanosPerSecond at h
    omega
  simp (disch := grind) only [ofDays?, signed?_eq_some, Option.bind_eq_bind, Option.bind_some]
  rw [← Int.add_zero (days * daySeconds * nanosPerSecond)] at h ⊢
  exact exists_make? (Int.le_refl 0) (by decide) h

def longest : Difference :=
  ⟨9223372036854775, 807000000, by decide, by decide, by decide⟩

theorem second_longest : longest.second = 9223372036854775 := rfl

theorem nanos_longest : longest.nanos = longestSpan.nanos := by decide

/-- The difference as long as a span. Its seconds become signed ones only when they are not more
than those of the longest difference. -/
def ofSpan? (s : Span) : Option Difference :=
  if longest.second < (s.nanos / nanosPerSecond : Nat) then none
  else make? (s.nanos / nanosPerSecond : Nat) (s.nanos % nanosPerSecond : Nat)

theorem exists_ofSpan? {s : Span} (h : s.nanos ≤ longestSpan.nanos) :
    ∃ d, ofSpan? s = some d ∧ d.nanos = s.nanos := by
  have hwhole : (s.nanos / nanosPerSecond : Nat) * nanosPerSecond +
      (s.nanos % nanosPerSecond : Nat) = (s.nanos : Int) := by
    unfold nanosPerSecond
    omega
  have hsigned : ¬ longest.second < (s.nanos / nanosPerSecond : Nat) := by
    rw [nanos_longestSpan] at h
    rw [second_longest]
    unfold nanosPerSecond
    omega
  rw [ofSpan?, if_neg hsigned, ← hwhole]
  refine exists_make? (Int.natCast_nonneg _) ?_ (by omega)
  exact Int.ofNat_lt.mpr (Nat.mod_lt _ (by decide))

theorem ofSpan?_eq_none_iff {s : Span} : ofSpan? s = none ↔ longestSpan.nanos < s.nanos := by
  constructor
  · intro hnone
    apply Nat.lt_of_not_le
    intro hle
    obtain ⟨d, hd, -⟩ := exists_ofSpan? hle
    simp [hd] at hnone
  · intro hlt
    rw [ofSpan?]
    split
    · rfl
    · rw [make?, dif_neg]
      unfold nanosPerSecond
      omega

/-- The difference as long as a span, or the longest when the span is longer. -/
def ofSpan (s : Span) : Difference := (ofSpan? s).getD longest

theorem nanos_ofSpan (s : Span) : (ofSpan s).nanos = (min s.nanos longestSpan.nanos : Nat) := by
  by_cases h : s.nanos ≤ longestSpan.nanos
  · obtain ⟨d, hd, hexact⟩ := exists_ofSpan? h
    rw [ofSpan, hd, Option.getD_some, hexact, Nat.min_eq_left h]
  · have hlt := Nat.lt_of_not_le h
    rw [ofSpan, ofSpan?_eq_none_iff.mpr hlt, Option.getD_none, nanos_longest,
      Nat.min_eq_right (Nat.le_of_lt hlt)]

end Difference

/-! ## Differences of moments -/

namespace Instant

/-- The number of the day, counted from 1970-01-01. -/
def day (t : Instant) : Int := t.second / daySeconds

theorem day_mul_add_secondOfDay (t : Instant) : t.day * daySeconds + t.secondOfDay = t.second :=
  Int.ediv_mul_add_emod t.second daySeconds

theorem secondOfDay_bounds (t : Instant) : 0 ≤ t.secondOfDay ∧ t.secondOfDay < 86400 :=
  ⟨Int.emod_nonneg _ (by decide), Int.emod_lt_of_pos _ (by decide)⟩

/-- The difference of the times of day. -/
def clockSince? (a b : Instant) : Option Difference := do
  let seconds ← signed? UInt64.size (a.secondOfDay - b.secondOfDay)
  let nanos ← signed? UInt64.size (a.nano - b.nano)
  let seconds ← signed? UInt64.size (seconds + leapBetween a b)
  let seconds ← signed? UInt64.size (seconds + nanos / nanosPerSecond)
  Difference.make? seconds (nanos % nanosPerSecond)

theorem exists_clockSince? (a b : Instant) :
    ∃ d, a.clockSince? b = some d ∧
      d.nanos = (a.secondOfDay - b.secondOfDay + leapBetween a b) * nanosPerSecond +
        (a.nano - b.nano) := by
  have ha := And.intro a.secondOfDay_bounds a.nano_lt
  have hb := And.intro b.secondOfDay_bounds b.nano_lt
  have hleap := natAbs_leapBetween_le a b
  have hunit : nanosPerSecond = 1000000000 := rfl
  have hwhole : (a.secondOfDay - b.secondOfDay + leapBetween a b) * nanosPerSecond +
        (a.nano - b.nano) =
      (a.secondOfDay - b.secondOfDay + leapBetween a b + (a.nano - b.nano) / nanosPerSecond) *
        nanosPerSecond + (a.nano - b.nano : Int) % nanosPerSecond := by
    rw [hunit]
    omega
  simp (disch := grind) only [clockSince?, signed?_eq_some, Option.bind_eq_bind,
    Option.bind_some]
  rw [hwhole]
  refine Difference.exists_make? (Int.emod_nonneg _ (by decide))
    (Int.emod_lt_of_pos _ (by decide)) ?_
  rw [nanos_longestSpan, hunit]
  omega

/-- The difference of two moments. -/
def since? (a b : Instant) : Option Difference := do
  let days ← signed? UInt64.size (a.day - b.day)
  let apart ← Difference.ofDays? days
  apart.add? (← a.clockSince? b)

/-- Every difference of moments can be represented, and no operation on the way to it overflows. -/
theorem exists_since? (a b : Instant) : ∃ d, a.since? b = some d ∧ d.nanos = a.since b := by
  have ha := a.second_bounds
  have hb := b.second_bounds
  have hdays : (a.day - b.day).natAbs < 200000000 := by
    unfold day daySeconds
    omega
  have hwithin : ((a.day - b.day) * daySeconds * nanosPerSecond).natAbs ≤ longestSpan.nanos := by
    rw [nanos_longestSpan]
    unfold daySeconds nanosPerSecond
    omega
  obtain ⟨apart, hapart, hapart_exact⟩ := Difference.exists_ofDays? hwithin
  obtain ⟨clock, hclock, hclock_exact⟩ := exists_clockSince? a b
  have hsum : apart.nanos + clock.nanos = a.since b := by
    have hasecond := a.day_mul_add_secondOfDay
    have hbsecond := b.day_mul_add_secondOfDay
    rw [hapart_exact, hclock_exact, since, ← hasecond, ← hbsecond]
    grind
  simp (disch := grind) only [since?, signed?_eq_some, hapart, hclock, Option.bind_eq_bind,
    Option.bind_some]
  rw [← hsum]
  apply Difference.exists_add?
  rw [hsum]
  exact Nat.le_of_lt (natAbs_since_lt a b)

end Instant
end FleetWatch.Time
