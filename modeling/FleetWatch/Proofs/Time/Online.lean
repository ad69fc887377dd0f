import FleetWatch.Proofs.Dispatch.DeltaStream
import FleetWatch.Proofs.History.Arrival
import FleetWatch.Proofs.Time.Difference

/-!
# Online by the exact time

A host is online as long as less than the threshold has passed since its snapshot arrived. The
answer comes from machine words, with a threshold that is cut to the longest difference; at all
moments, and for all thresholds, it is that of unbounded numbers.

## Main definitions

* `LiveEntry.onlineInWords?`: whether a host is online, worked out in machine words.
-/
namespace FleetWatch.LiveEntry

open Time

variable {e : LiveEntry} {now later : Instant} {threshold longer : Span}

/-- Whether a host is online, worked out in machine words. -/
def onlineInWords? (e : LiveEntry) (now : Instant) (threshold : Span) : Option Bool := do
  let elapsed ← now.since? e.receivedAt
  return decide (elapsed < Difference.ofSpan threshold)

/-- No operation overflows, also in leap seconds, and the answer is that of unbounded numbers. -/
theorem onlineInWords?_eq (e : LiveEntry) (now : Instant) (threshold : Span) :
    e.onlineInWords? now threshold = some (e.isOnline now threshold) := by
  obtain ⟨elapsed, helapsed, hexact⟩ := now.exists_since? e.receivedAt
  have hlt : elapsed < Difference.ofSpan threshold ↔
      now.since e.receivedAt < (min threshold.nanos longestSpan.nanos : Nat) := by
    rw [Difference.lt_iff_nanos_lt, hexact, Difference.nanos_ofSpan]
  simp only [onlineInWords?, helapsed, Option.bind_eq_bind, Option.bind_some, Option.pure_def,
    decide_eq_decide.mpr hlt, isOnline, isFresh]

/-- A longer threshold keeps a host online. -/
theorem isOnline_of_le_threshold (hle : threshold.nanos ≤ longer.nanos)
    (h : e.isOnline now threshold = true) : e.isOnline now longer = true := by
  rw [isOnline, Instant.isFresh_eq, decide_eq_true_eq] at h ⊢
  exact Int.lt_of_lt_of_le h (Int.ofNat_le.mpr hle)

/-- A host that is online has been so at every earlier moment. -/
theorem isOnline_of_le_now (hreceived : e.receivedAt.isLeap = false) (hnow : now.isLeap = false)
    (hlater : later.isLeap = false) (hle : now ≤ later) (h : e.isOnline later threshold = true) :
    e.isOnline now threshold = true := by
  rw [isOnline, Instant.isFresh_iff hreceived hlater] at h
  rw [isOnline, Instant.isFresh_iff hreceived hnow]
  exact Int.lt_of_le_of_lt (Instant.nanos_le_of_le hnow hle) h

/-- At moments that are not in leap seconds, in either order, a host is online exactly when less
than the threshold lies between them in nanoseconds. The difference and everything on the way to the
answer can be represented, and where the threshold cannot be, the longest difference in its place
gives the same answer. A host that is online is so for longer thresholds and was so at earlier
moments. -/
theorem online_is_exact (hreceived : e.receivedAt.isLeap = false) (hnow : now.isLeap = false)
    (threshold : Span) :
    let elapsed := now.nanos - e.receivedAt.nanos
    (e.isOnline now threshold = true ↔ elapsed < threshold.nanos) ∧
    (∃ d, now.since? e.receivedAt = some d ∧ d.nanos = elapsed) ∧
    e.onlineInWords? now threshold = some (e.isOnline now threshold) ∧
    (Difference.ofSpan? threshold = none →
      (elapsed < Difference.longest.nanos ↔ elapsed < threshold.nanos)) ∧
    (∀ longer : Span, threshold.nanos ≤ longer.nanos →
      e.isOnline now threshold = true → e.isOnline now longer = true) ∧
    ∀ later : Instant, later.isLeap = false → now ≤ later →
      e.isOnline later threshold = true → e.isOnline now threshold = true := by
  intro elapsed
  have hsince : now.since e.receivedAt = elapsed := Instant.since_eq hnow hreceived
  refine ⟨?_, ?_, onlineInWords?_eq e now threshold, ?_, fun longer => isOnline_of_le_threshold,
    fun later => isOnline_of_le_now hreceived hnow⟩
  · rw [isOnline, Instant.isFresh_eq, decide_eq_true_eq, hsince]
  · obtain ⟨d, hd, hexact⟩ := now.exists_since? e.receivedAt
    exact ⟨d, hd, hexact.trans hsince⟩
  · intro hnone
    have hlonger := Difference.ofSpan?_eq_none_iff.mp hnone
    have hlt := now.natAbs_since_lt e.receivedAt
    rw [hsince] at hlt
    rw [Difference.nanos_longest]
    omega

/-- The last moment that is not in a leap second. -/
def lastMoment : Instant := { Instant.latest with nano := 999999999, nano_lt := by decide }

/-- The longest span whose seconds are an unsigned 64-bit word. -/
def longestUnsignedSpan : Span := ⟨18446744073709551615999999999⟩

/-- The host of a snapshot as old as can be is online for thresholds above its age, also one that no
difference is as long as. That of a snapshot from the last moment is online at the first, even
without a threshold. -/
theorem online_from_end_to_end :
    let e : LiveEntry := ⟨"a", .ofUsage 10, .earliest⟩
    Instant.earliest.isLeap = false ∧ lastMoment.isLeap = false ∧ Instant.earliest ≤ lastMoment ∧
    Difference.ofSpan? longestUnsignedSpan = none ∧
    e.onlineInWords? lastMoment longestUnsignedSpan = some true ∧
    (∃ d, lastMoment.since? .earliest = some d ∧ d.nanos = 16544868105599999999999) ∧
    e.isOnline lastMoment ⟨16544868105599999999999⟩ = false ∧
    e.isOnline lastMoment ⟨16544868105600000000000⟩ = true ∧
    e.isOnline .earliest ⟨16544868105600000000000⟩ = true ∧
    { e with receivedAt := lastMoment }.isOnline .earliest ⟨0⟩ = true := by
  intro e
  have hfirst : Instant.earliest.isLeap = false := by decide
  have hlast : lastMoment.isLeap = false := by decide
  have hle : Instant.earliest ≤ lastMoment := Instant.earliest_le lastMoment
  have hage : lastMoment.nanos - Instant.earliest.nanos = 16544868105599999999999 := by decide
  have hnone : Difference.ofSpan? longestUnsignedSpan = none :=
    Difference.ofSpan?_eq_none_iff.mpr (by decide)
  obtain ⟨hlongest, hsince, hwords, -⟩ := online_is_exact (e := e) hfirst hlast longestUnsignedSpan
  obtain ⟨hage_iff, -⟩ := online_is_exact (e := e) hfirst hlast ⟨16544868105599999999999⟩
  obtain ⟨hmore, -⟩ := online_is_exact (e := e) hfirst hlast ⟨16544868105600000000000⟩
  obtain ⟨-, -, -, -, -, hearlier⟩ :=
    online_is_exact (e := e) hfirst hfirst ⟨16544868105600000000000⟩
  obtain ⟨hahead, -⟩ :=
    online_is_exact (e := { e with receivedAt := lastMoment }) hlast hfirst ⟨0⟩
  have honline := hmore.mpr (by decide)
  rw [hlongest.mpr (by decide)] at hwords
  refine ⟨hfirst, hlast, hle, hnone, hwords, hage ▸ hsince, ?_, honline,
    hearlier lastMoment hlast hle honline, hahead.mpr (by decide)⟩
  rw [Bool.eq_false_iff]
  intro h
  exact absurd (hage_iff.mp h) (by decide)

end FleetWatch.LiveEntry
