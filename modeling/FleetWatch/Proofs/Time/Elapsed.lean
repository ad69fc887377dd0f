import FleetWatch.Live

/-!
# The time that has passed

Times without leap seconds are counts of nanoseconds: later times have larger ones, and what passes
between two of them is the difference. So an entry is fresh until the threshold has passed, however
long that is.

## Main definitions

* `Time.Instant.nanos`: the nanoseconds since 1970.
-/
namespace FleetWatch

theorem nanos_longestSpan : longestSpan.nanos = 9223372036854775807000000 := by decide

namespace Time.Instant

/-- The nanoseconds since 1970; a leap second counts on past its second. -/
def nanos (t : Instant) : Int := t.second * nanosPerSecond + t.nano

/-- At most one leap second is counted between two moments. -/
theorem natAbs_leapBetween_le (a b : Instant) : (leapBetween a b).natAbs ≤ 1 := by
  unfold leapBetween
  grind

/-- The seconds that moments can have. -/
theorem second_bounds (t : Instant) : -8334601228800 ≤ t.second ∧ t.second ≤ 8210266876799 := by
  have hstart : firstSecond = -8334601228800 := by decide
  have hend : lastSecond = 8210266876799 := by decide
  exact ⟨hstart ▸ t.first_le, hend ▸ t.le_last⟩

/-- The time between any two moments is far below the longest span. -/
theorem natAbs_since_lt (a b : Instant) : (a.since b).natAbs < longestSpan.nanos := by
  have hleap := natAbs_leapBetween_le a b
  have ha := a.second_bounds
  have hb := b.second_bounds
  have hnanos := And.intro a.nano_lt b.nano_lt
  rw [since, nanos_longestSpan]
  unfold nanosPerSecond at *
  omega

/-- Saturating the threshold changes no answer. -/
theorem isFresh_eq (receivedAt now : Instant) (threshold : Span) :
    isFresh receivedAt now threshold = decide (now.since receivedAt < threshold.nanos) := by
  have hlt := natAbs_since_lt now receivedAt
  rw [isFresh, decide_eq_decide]
  omega

/-- An entry is fresh until the threshold has passed. -/
theorem isFresh_iff {receivedAt now : Instant} (hreceived : receivedAt.isLeap = false)
    (hnow : now.isLeap = false) (threshold : Span) :
    isFresh receivedAt now threshold = true ↔
      now.nanos < receivedAt.nanos + threshold.nanos := by
  rw [isFresh_eq, decide_eq_true_eq, since_eq hnow hreceived, nanos, nanos]
  omega

theorem nanos_le_of_le {a b : Instant} (ha : a.isLeap = false) (h : a ≤ b) :
    a.nanos ≤ b.nanos := by
  have hnano : a.nano < nanosPerSecond := by simpa [isLeap] using ha
  have hnot : ¬ (b.second < a.second ∨ b.second = a.second ∧ b.nano < a.nano) := h
  unfold nanos
  unfold nanosPerSecond at *
  omega

end Time.Instant
end FleetWatch
