import FleetWatch.Proofs.History.Agreement

/-!
# Order of arrival and order of time

A memory answers in the order in which rows arrived, and counts its limits in that order as well.
This is the order of time exactly as long as the rows that it has of a host arrived in the order of
their times.

## Main definitions

* `Edit`, `Memory.editAll`: what changes the rows of a memory.
* `Edit.rows`, `Edit.arrivals`: the rows that arrive, of all hosts and of one.
* `Memory.within`: the rows of a host within a range of time.
* `Chronological`, `Oldest`, `Newest`: rows in the order of time, and the first or last of them.
-/
namespace FleetWatch

namespace Time.Instant

def earliest : Instant :=
  { epoch with second := firstSecond, first_le := Int.le_refl _, le_last := by decide }

def latest : Instant := ⟨lastSecond, 2 * nanosPerSecond - 1, by decide, by decide, by decide⟩

theorem earliest_le (t : Instant) : earliest ≤ t := by
  rintro (hsecond | ⟨-, hnano⟩)
  · exact Int.not_lt.mpr t.first_le hsecond
  · exact Nat.not_lt_zero _ hnano

theorem le_latest (t : Instant) : t ≤ latest := by
  rintro (hsecond | ⟨-, hnano⟩)
  · exact Int.not_lt.mpr t.le_last hsecond
  · exact Nat.not_lt.mpr (Nat.le_sub_one_of_lt t.nano_lt) hnano

end Time.Instant

namespace History

open Time

/-! ## Edits -/

/-- What changes the rows of a backend. -/
inductive Edit where
  | append (rows : List Row)
  | cleanup (before : Instant)

def Edit.rows : Edit → List Row
  | append rows => rows
  | cleanup _ => []

def Edit.arrivals (hostId : String) (e : Edit) : List Row := e.rows.filter (·.hostId = hostId)

namespace Memory

def edit (m : Memory) : Edit → Memory
  | .append rows => m.append rows
  | .cleanup before => (m.cleanup before).2

def editAll (m : Memory) (edits : List Edit) : Memory := edits.foldl edit m

def Bounded (m : Memory) : Prop := ∀ h : String, (m.rowsOf h).length ≤ m.capacity

theorem length_lastOf_le {α : Type} (n : Nat) (l : List α) : (lastOf n l).length ≤ n := by
  rw [lastOf, List.length_drop]
  omega

/-- What is kept of a host is among what was kept and what arrives, in this order. -/
theorem rowsOf_append_sublist (m : Memory) (rows : List Row) (h : String) :
    (m.append rows).rowsOf h |>.Sublist (m.rowsOf h ++ rows.filter (·.hostId = h)) := by
  induction rows generalizing m with
  | nil => simp [append]
  | cons r rows ih =>
    refine (ih (m.appendRow r)).trans ?_
    rw [rowsOf_appendRow]
    by_cases hr : r.hostId = h
    · subst hr
      have hkept : (lastOf m.capacity (m.rowsOf r.hostId ++ [r])).Sublist
          (m.rowsOf r.hostId ++ [r]) := List.drop_sublist ..
      simpa using hkept.append_right (rows.filter (·.hostId = r.hostId))
    · simp [hr]

theorem rowsOf_edit_sublist (m : Memory) (e : Edit) (h : String) :
    ((m.edit e).rowsOf h).Sublist (m.rowsOf h ++ e.arrivals h) := by
  cases e with
  | append rows => exact m.rowsOf_append_sublist rows h
  | cleanup before =>
    rw [edit, rowsOf_cleanup]
    exact List.filter_sublist.trans (List.sublist_append_left ..)

theorem rowsOf_editAll_sublist (m : Memory) (edits : List Edit) (h : String) :
    ((m.editAll edits).rowsOf h).Sublist (m.rowsOf h ++ edits.flatMap (Edit.arrivals h)) := by
  induction edits generalizing m with
  | nil => simp [editAll]
  | cons e edits ih =>
    rw [List.flatMap_cons, ← List.append_assoc]
    exact (ih (m.edit e)).trans ((m.rowsOf_edit_sublist e h).append_right _)

namespace Bounded
variable {m : Memory}

theorem appendRow (hm : m.Bounded) (r : Row) : (m.appendRow r).Bounded := by
  intro h
  rw [rowsOf_appendRow]
  split
  · exact length_lastOf_le ..
  · exact hm h

theorem append (hm : m.Bounded) (rows : List Row) : (m.append rows).Bounded := by
  induction rows generalizing m with
  | nil => exact hm
  | cons r rows ih => exact ih (hm.appendRow r)

theorem edit (hm : m.Bounded) (e : Edit) : (m.edit e).Bounded := by
  cases e with
  | append rows => exact hm.append rows
  | cleanup before =>
    intro h
    rw [Memory.edit, rowsOf_cleanup]
    exact Nat.le_trans (List.length_filter_le _ _) (hm h)

theorem editAll (hm : m.Bounded) (edits : List Edit) : (m.editAll edits).Bounded := by
  induction edits generalizing m with
  | nil => exact hm
  | cons e edits ih => exact ih (hm.edit e)

end Bounded

theorem bounded_new (capacity : UInt64) : (new capacity).Bounded := fun h => by
  simp [new, rowsOf]

theorem capacity_editAll (m : Memory) (edits : List Edit) :
    (m.editAll edits).capacity = m.capacity := by
  have happend (m : Memory) (rows : List Row) : (m.append rows).capacity = m.capacity := by
    induction rows generalizing m with
    | nil => rfl
    | cons r rows ih => exact ih (m.appendRow r)
  induction edits generalizing m with
  | nil => rfl
  | cons e edits ih =>
    refine (ih (m.edit e)).trans ?_
    cases e with
    | append rows => exact happend m rows
    | cleanup => rfl

end Memory

/-! ## Rows in the order of time -/

/-- The rows are in the order of their times. -/
def Chronological (rows : List Row) : Prop := rows.Pairwise fun r s => r.timestamp ≤ s.timestamp

/-- The first `n` of some rows by their times, in the order of their times. -/
structure Oldest (n : Nat) (rows found : List Row) : Prop where
  chronological : Chronological found
  length : found.length = min n rows.length
  others : ∃ rest, rows.Perm (found ++ rest) ∧ ∀ r ∈ found, ∀ s ∈ rest, r.timestamp ≤ s.timestamp

/-- The last `n` of some rows by their times, in the order of their times. -/
structure Newest (n : Nat) (rows found : List Row) : Prop where
  chronological : Chronological found
  length : found.length = min n rows.length
  others : ∃ rest, rows.Perm (rest ++ found) ∧ ∀ r ∈ rest, ∀ s ∈ found, r.timestamp ≤ s.timestamp

namespace Chronological
variable {rows : List Row}

theorem oldest_take (h : Chronological rows) (n : Nat) : Oldest n rows (rows.take n) := by
  have hsplit := List.take_append_drop n rows
  obtain ⟨hfound, -, hrest⟩ := List.pairwise_append.mp (hsplit.symm ▸ h :
    Chronological (rows.take n ++ rows.drop n))
  exact ⟨hfound, List.length_take, rows.drop n, by rw [hsplit], hrest⟩

theorem newest_lastOf (h : Chronological rows) (n : Nat) :
    Newest n rows (Memory.lastOf n rows) := by
  have hsplit := List.take_append_drop (rows.length - n) rows
  obtain ⟨-, hfound, hrest⟩ := List.pairwise_append.mp (hsplit.symm ▸ h :
    Chronological (rows.take (rows.length - n) ++ rows.drop (rows.length - n)))
  refine ⟨hfound, ?_, rows.take (rows.length - n), ?_, hrest⟩
  · rw [Memory.lastOf, List.length_drop]
    omega
  · rw [Memory.lastOf, hsplit]

end Chronological

namespace Memory

def within (m : Memory) (hostId : String) (start stop : Instant) : List Row :=
  (m.rowsOf hostId).filter fun r => start ≤ r.timestamp ∧ r.timestamp ≤ stop

theorem range_eq_take (m : Memory) (hostId : String) (start stop : Instant)
    (limit : Option UInt64) :
    m.range { hostId, start, stop, limit } = (m.within hostId start stop).take
      ((limit.map UInt64.toNat).getD (m.within hostId start stop).length) := by
  cases limit with
  | none => exact (List.take_length ..).symm
  | some n => rfl

theorem within_all (m : Memory) (hostId : String) :
    m.within hostId .earliest .latest = m.rowsOf hostId :=
  List.filter_eq_self.mpr fun r _ => by simp [r.timestamp.earliest_le, r.timestamp.le_latest]

/-- The ranges of a host's rows are right if the rows are in the order of their times. -/
theorem oldest_range_iff (m : Memory) (hostId : String) :
    (∀ (start stop : Instant) (limit : Option UInt64),
      Oldest ((limit.map UInt64.toNat).getD (m.within hostId start stop).length)
        (m.within hostId start stop) (m.range { hostId, start, stop, limit })) ↔
      Chronological (m.rowsOf hostId) := by
  constructor
  · intro h
    -- the widest range without a limit has all rows
    have hall := (h .earliest .latest none).chronological
    rwa [range_eq_take, Option.map_none, Option.getD_none, List.take_length, within_all] at hall
  · intro h start stop limit
    rw [range_eq_take]
    exact Chronological.oldest_take (h.filter _) _

/-- The latest rows of a host are right if the rows are in the order of their times. -/
theorem newest_latest_iff {m : Memory} (hm : m.Bounded) (hroom : m.capacity < UInt64.size)
    (hostId : String) :
    (∀ limit : UInt64, Newest limit.toNat (m.rowsOf hostId) (m.latest hostId limit)) ↔
      Chronological (m.rowsOf hostId) := by
  constructor
  · intro h
    have hall := (h (.ofNat m.capacity)).chronological
    rwa [latest, UInt64.toNat_ofNat_of_lt' hroom, lastOf_of_length_le (hm hostId)] at hall
  · exact fun h limit => h.newest_lastOf _

/-- What a memory answers about a host is right for all bounds and limits exactly as long as the
rows that it has of the host are in the order of their times. They are in the order in which they
arrived; so the answers are right when rows arrive in the order of their times. -/
theorem answers_in_order_of_time_iff (capacity : UInt64) (edits : List Edit) (hostId : String) :
    let m := (new capacity).editAll edits
    ((∀ (start stop : Instant) (limit : Option UInt64),
      Oldest ((limit.map UInt64.toNat).getD (m.within hostId start stop).length)
        (m.within hostId start stop) (m.range { hostId, start, stop, limit })) ↔
      Chronological (m.rowsOf hostId)) ∧
    ((∀ limit : UInt64, Newest limit.toNat (m.rowsOf hostId) (m.latest hostId limit)) ↔
      Chronological (m.rowsOf hostId)) ∧
    (m.rowsOf hostId).Sublist (edits.flatMap (Edit.arrivals hostId)) := by
  intro m
  have hm : m.Bounded := (bounded_new capacity).editAll edits
  have hroom : m.capacity < UInt64.size := by
    have := capacity.toNat_lt_size
    rw [capacity_editAll]
    simp only [new, UInt64.size] at *
    omega
  have hkept := (new capacity).rowsOf_editAll_sublist edits hostId
  have hnew : (new capacity).rowsOf hostId = [] := by simp [new, rowsOf]
  rw [hnew, List.nil_append] at hkept
  exact ⟨m.oldest_range_iff hostId, newest_latest_iff hm hroom hostId, hkept⟩

/-- Two rows that arrive in the other order are found in this order, and the older one is taken for
the latest. -/
theorem late_row_is_out_of_order :
    let m := (new 1000).editAll [.append [secondRow, firstRow]]
    firstRow.timestamp < secondRow.timestamp ∧
    m.range ⟨"a", .epoch, oneSecond, none⟩ = [secondRow, firstRow] ∧
    m.latest "a" 1 = [firstRow] ∧
    ¬ Oldest 2 (m.within "a" .epoch oneSecond) [secondRow, firstRow] ∧
    ¬ Newest 1 (m.rowsOf "a") [firstRow] := by
  have hlater : ¬ secondRow.timestamp ≤ firstRow.timestamp := by decide
  refine ⟨by decide, rfl, rfl, fun h => ?_, fun h => ?_⟩
  · exact hlater ((List.pairwise_cons.mp h.chronological).1 firstRow List.mem_cons_self)
  · obtain ⟨rest, hperm, hrest⟩ := h.others
    have hkept : secondRow ∈ rest ++ [firstRow] := hperm.mem_iff.mp List.mem_cons_self
    obtain hin | hin := List.mem_append.mp hkept
    · exact hlater (hrest secondRow hin firstRow List.mem_cons_self)
    · exact absurd (List.mem_singleton.mp hin) (by decide)

end Memory

end History
end FleetWatch
