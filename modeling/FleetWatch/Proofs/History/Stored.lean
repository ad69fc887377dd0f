import FleetWatch.Proofs.Binary.Exact
import FleetWatch.Proofs.History.Batching

/-!
# What a table gives back

A row whose figures are numbers can always be stored, and comes back with its time, its host, its
rates and its figures, the signs of zeros apart. Its snapshot comes back if it is read back from its
text; if it is not, either another one comes back or none.

## Main definitions

* `Row.withoutZeroSigns`: the row with its zeros positive.
* `Row.Storable`: the figures are numbers and the time is a whole millisecond.
* `Row.cells`, `Row.entry`: what is stored of a row.
* `Row.stored`: what comes back.
-/
namespace FleetWatch

/-- The number, a zero being positive. -/
def Binary.withoutZeroSign {f : Binary.Format} : Binary f → Binary f
  | .finite negative units holds => if units = 0 then .zero false else .finite negative units holds
  | x => x

namespace Time.Instant

/-- A whole number of milliseconds, and no leap second. -/
def IsMillis (t : Instant) : Prop := ofMillis? t.millis = some t

instance (t : Instant) : Decidable t.IsMillis := inferInstanceAs (Decidable (_ = _))

namespace IsMillis
variable {t u : Instant}

theorem nano (h : t.IsMillis) : t.nano % 1000000 = 0 ∧ t.nano < nanosPerSecond := by
  obtain ⟨-, hnano⟩ := of?_eq_some h
  have hmod : (t.millis % 1000).toNat < 1000 := by omega
  simp only [nanosPerSecond]
  omega

/-- Times of whole milliseconds are ordered as their milliseconds are. -/
theorem lt_iff (ht : t.IsMillis) (hu : u.IsMillis) : t < u ↔ t.millis < u.millis := by
  obtain ⟨htmod, htlt⟩ := ht.nano
  obtain ⟨humod, hult⟩ := hu.nano
  simp only [nanosPerSecond] at htlt hult
  change t.second < u.second ∨ t.second = u.second ∧ t.nano < u.nano ↔ _
  simp only [millis]
  omega

theorem le_iff (ht : t.IsMillis) (hu : u.IsMillis) : t ≤ u ↔ t.millis ≤ u.millis := by
  have hlt := lt_iff hu ht
  change ¬ u < t ↔ _
  rw [hlt, Int.not_lt]

end IsMillis

/-- The first and last millisecond that there are. -/
def firstMilli : Int := firstSecond * 1000

@[inherit_doc firstMilli] def lastMilli : Int := lastSecond * 1000 + 1999

theorem firstMilli_le (t : Instant) : firstMilli ≤ t.millis := by
  have := t.first_le
  simp only [firstMilli, millis]
  omega

theorem millis_le (t : Instant) : t.millis ≤ lastMilli := by
  have := t.le_last
  have := t.nano_lt
  simp only [lastMilli, millis, nanosPerSecond] at *
  omega

end Time.Instant

namespace History

/-- A number is stored as a number, and comes back with a zero positive. -/
theorem storedFloat_spec {x : Single} (h : x ≠ .nan) :
    ∃ y, storedFloat x = some y ∧ (y.convert : Single) = x.withoutZeroSign := by
  have hwithin := Binary.Format.single_within_double
  cases x with
  | nan => exact absurd rfl h
  | infinite negative => exact ⟨.infinite negative, rfl, rfl⟩
  | finite negative units holds =>
    have hback := Binary.convert_convert (g := .double) hwithin (by decide)
      (Binary.finite negative units holds)
    unfold storedFloat Binary.withoutZeroSign
    rw [Binary.convert_finite hwithin (by decide)] at hback ⊢
    dsimp only
    by_cases hzero : units = 0
    · subst hzero
      refine ⟨.zero false, by simp, ?_⟩
      exact Binary.convert_convert (g := .double) hwithin (by decide) (Binary.zero false)
    · refine ⟨_, if_neg ?_, ?_⟩
      · rw [Nat.shiftLeft_eq]
        exact Nat.mul_ne_zero hzero (Nat.ne_of_gt (Nat.two_pow_pos _))
      · rw [hback, if_neg hzero]

namespace Row

/-- The row with its zeros positive. -/
def withoutZeroSigns (r : Row) : Row :=
  { r with
    cpu := r.cpu.withoutZeroSign, mem := r.mem.withoutZeroSign
    disk := r.disk.map Binary.withoutZeroSign }

/-- The figures of the row are numbers, and its time is a whole millisecond. -/
structure Storable (r : Row) : Prop where
  cpu : r.cpu ≠ .nan
  mem : r.mem ≠ .nan
  disk : r.disk ≠ some .nan
  time : r.timestamp.IsMillis

/-- What is stored of a row. -/
def cells (r : Row) : Cells where
  cpu := (storedFloat r.cpu).getD default
  mem := (storedFloat r.mem).getD default
  disk := r.disk.bind storedFloat
  rxSpeed := r.rxSpeed.toInt64
  txSpeed := r.txSpeed.toInt64
  snapshot := Snapshot.schema.encode r.snapshot

/-- The time and cells of a row. -/
def entry (r : Row) : Int × Cells := (r.timestamp.millis, r.cells)

/-- What a table gives back for a row. -/
def stored (r : Row) : Except HistoryError Row := r.cells.toRow r.hostId r.timestamp.millis

/-- The complaint about a snapshot that is not read back. -/
def unreadable : HistoryError := .serialization "failed to deserialize snapshot"

/-- A row can be stored if its usages are numbers. -/
theorem ofRow?_eq_cells {r : Row} (hcpu : r.cpu ≠ .nan) (hmem : r.mem ≠ .nan) :
    Cells.ofRow? r = .ok r.cells := by
  obtain ⟨cpu, hcpu, -⟩ := storedFloat_spec hcpu
  obtain ⟨mem, hmem, -⟩ := storedFloat_spec hmem
  simp [Cells.ofRow?, cells, hcpu, hmem]

namespace Storable
variable {r : Row}

theorem ofRow? (h : r.Storable) : Cells.ofRow? r = .ok r.cells := ofRow?_eq_cells h.cpu h.mem

/-- A row comes back as it was, but for the signs of zeros and for its snapshot, which is what the
snapshot's text is read as. -/
theorem stored_eq (h : r.Storable) :
    r.stored = match Snapshot.schema.decode (Snapshot.schema.encode r.snapshot) with
      | .ok snapshot => .ok { r.withoutZeroSigns with snapshot }
      | .error _ => .error unreadable := by
  obtain ⟨cpu, hcpu, hcpuBack⟩ := storedFloat_spec h.cpu
  obtain ⟨mem, hmem, hmemBack⟩ := storedFloat_spec h.mem
  have hdisk : (r.disk.bind storedFloat).map Binary.convert =
      r.disk.map Binary.withoutZeroSign := by
    cases hd : r.disk with
    | none => rfl
    | some x =>
      obtain ⟨y, hy, hback⟩ := storedFloat_spec (x := x) fun hx => h.disk (hx ▸ hd)
      simp [hy, hback]
  have htime : Time.Instant.ofMillis? r.timestamp.millis = some r.timestamp := h.time
  unfold stored Cells.toRow cells
  rw [htime]
  dsimp only
  cases Snapshot.schema.decode (Snapshot.schema.encode r.snapshot) with
  | error => rfl
  | ok s => simp [withoutZeroSigns, hcpu, hmem, hdisk, hcpuBack, hmemBack]

/-- A row comes back as it was, but for the signs of zeros, exactly if its snapshot is read back
from its text. -/
theorem stored_eq_iff (h : r.Storable) :
    r.stored = .ok r.withoutZeroSigns ↔ r.snapshot.ReadsBack := by
  rw [h.stored_eq, Snapshot.ReadsBack]
  cases Snapshot.schema.decode (Snapshot.schema.encode r.snapshot) with
  | error => simp
  | ok s =>
    simp only [Except.ok.injEq]
    exact ⟨congrArg Row.snapshot, fun hs => by rw [hs]; rfl⟩

theorem stored_error (h : r.Storable) {e : HistoryError} (he : r.stored = .error e) :
    e = unreadable := by
  rw [h.stored_eq] at he
  split at he
  · cases he
  · exact (Except.error.inj he).symm

end Storable
end Row
end History
end FleetWatch
