import FleetWatch.Proofs.History.Mirroring
import FleetWatch.Web.Router

/-!
# Answers about history

A request for history is answered unless the end of the stretch that it asks for lies in the first
hour of the calendar: the default start, an hour before the end, is looked for even when a start is
given. What is answered are the points found, as many as it says, or why there are none.

## Main definitions

* `Time.Instant.InFirstHour`: there is no instant an hour before.
-/
namespace FleetWatch

open Time

/-! ## The first hour -/

/-- The hour before the instant starts before all instants. An hour before a leap second is counted
from the second after it. -/
def Time.Instant.InFirstHour (t : Instant) : Prop :=
  (if t.isLeap then t.second + 1 else t.second) < firstSecond + 3600

namespace Time.Instant

theorem of?_eq_none_iff {second : Int} {nano : Nat} (hlast : second ≤ lastSecond)
    (hnano : nano < 2 * nanosPerSecond) : of? second nano = none ↔ second < firstSecond := by
  simp [of?, hlast, hnano]

theorem minus?_hour_eq_none_iff (t : Instant) : t.minus? 3600 = none ↔ t.InFirstHour := by
  have hlast := t.le_last
  have hnano := t.nano_lt
  unfold minus? InFirstHour
  cases t.isLeap with
  | true =>
    rw [if_pos (by decide), if_pos rfl, of?_eq_none_iff (by omega) (by omega)]
    omega
  | false =>
    rw [if_neg (by decide), if_neg (by decide), of?_eq_none_iff (by omega) hnano]
    omega

end Time.Instant

/-! ## As many rows as a word can count -/

namespace History

theorem length_of_mapM_ok {α β ε : Type} {f : α → Except ε β} {l : List α} {bs : List β}
    (h : l.mapM f = .ok bs) : bs.length = l.length := by
  induction l generalizing bs with
  | nil =>
    obtain rfl := Except.ok.inj h
    rfl
  | cons a l ih =>
    rw [List.mapM_cons] at h
    obtain ⟨b, -, h⟩ := bind_eq_ok_iff.mp h
    obtain ⟨bs', hbs, h⟩ := bind_eq_ok_iff.mp h
    obtain rfl := Except.ok.inj h
    rw [List.length_cons, ih hbs, List.length_cons]

/-- A memory finds no more rows than are asked for. -/
theorem Memory.length_range_lt {m : Memory} {q : Query} {limit : UInt64}
    (hlimit : q.limit = some limit) : (m.range q).length < UInt64.size := by
  rw [Memory.range, hlimit]
  exact Nat.lt_of_le_of_lt (List.length_take_le ..) limit.toNat_lt

/-- A host has one row for a millisecond at most. -/
theorem Table.length_within_le (t : Table) (hostId : String) (low high : Int) :
    ((t.rowsOf hostId).filter fun (millis, _) => low ≤ millis ∧ millis ≤ high).length ≤
      (high - low + 1).toNat := by
  have hwithin (k : Int) (hk : k ∈ ((t.rowsOf hostId).filter fun (millis, _) =>
      low ≤ millis ∧ millis ≤ high).map Prod.fst) : low ≤ k ∧ k ≤ high := by
    obtain ⟨p, hp, rfl⟩ := List.mem_map.mp hk
    simpa using (List.mem_filter.mp hp).2
  have hsorted := (t.pairwise_rowsOf hostId).sublist ((List.filter_sublist (p := fun (millis, _) =>
    low ≤ millis ∧ millis ≤ high)).map Prod.fst)
  have hcount := length_le_of_sorted hsorted (fun k hk => (hwithin k hk).1)
    fun k hk => (hwithin k hk).2
  rwa [List.length_map] at hcount

theorem Table.length_rowLimit_le (limit : UInt64) (l : List (Int × Cells)) :
    (rowLimit limit l).length ≤ l.length := by
  rw [rowLimit]
  split
  · exact Nat.le_refl _
  · exact List.length_take_le' ..

/-- A table finds no more rows than there are milliseconds, whatever is asked for. -/
theorem Table.length_range_lt {t : Table} {q : Query} {rows : List Row}
    (h : t.range q = .ok rows) : rows.length < UInt64.size := by
  have hfound := t.length_within_le q.hostId q.start.millis q.stop.millis
  have hfirst := q.start.firstMilli_le
  have hlast := q.stop.millis_le
  have hroom : (Instant.lastMilli - Instant.firstMilli + 1).toNat < UInt64.size := by
    decide +kernel
  rw [Table.range] at h
  split at h
  · cases h
  · have hlength := length_of_mapM_ok h
    have hbound : rows.length ≤ (q.stop.millis - q.start.millis + 1).toNat := by
      cases hlimit : q.limit with
      | none =>
        rw [hlimit] at hlength
        exact Nat.le_trans (Nat.le_of_eq hlength) hfound
      | some limit =>
        rw [hlimit] at hlength
        exact Nat.le_trans (Nat.le_of_eq hlength)
          (Nat.le_trans (length_rowLimit_le limit _) hfound)
    omega

/-- No more rows are found than a word can count. -/
theorem Keeper.length_range_lt {k : Keeper} {q : Query} {limit : UInt64}
    (hlimit : q.limit = some limit) {rows : List Row} (h : k.range q = .ok rows) :
    rows.length < UInt64.size := by
  cases k with
  | none => cases h
  | some r =>
    rw [Keeper.range, Keeper.ask, Recorder.range, Recorder.request] at h
    split at h
    · change r.backend.range q = .ok rows at h
      rw [Backend.range, Backend.withStore] at h
      split at h
      · cases h
      · cases hstore : r.backend.store with
        | memory m =>
          rw [hstore] at h
          obtain rfl := Except.ok.inj h
          exact m.length_range_lt hlimit
        | table t =>
          rw [hstore] at h
          exact t.length_range_lt h
    · cases h

end History

/-! ## The answers -/

namespace Web
variable {h : Hub} {serverId : String}

/-- A report is of a stretch that starts before its end, and says how many points it has. -/
theorem historyWithin_eq_ok {start stop : Instant} {limit : UInt64} {report : HistoryReport}
    (hreport : historyWithin h serverId start stop limit = .ok report) :
    report.start ≤ report.stop ∧ report.count.toNat = report.points.length := by
  rw [historyWithin] at hreport
  split at hreport
  · cases hreport
  · next horder =>
    split at hreport
    · cases hreport
    · next rows hrows =>
      obtain rfl := Except.ok.inj hreport
      refine ⟨horder, ?_⟩
      simp [UInt64.toNat_ofNat_of_lt' (History.Keeper.length_range_lt rfl hrows)]

theorem Failure.status_mem (e : Failure) : e.status ∈ [400, 404, 500, 503] := by
  cases e <;> simp [status]

/-- A request for history breaks down exactly when the server is known and the end of the stretch
lies in the first hour of the calendar, be a start given or not. Otherwise it is answered: with a
report that starts before its end and has as many points as it says, or with a failure. -/
theorem history_breaks_down_iff (h : Hub) (serverId : String) (q : HistoryQuery) (now : Instant) :
    (historyReport h serverId q now = none ↔
      knowsServer h serverId = .ok true ∧ (q.stop.getD now).InFirstHour) ∧
    ∀ answer, historyReport h serverId q now = some answer →
      (∃ e : Failure, answer = .error e ∧ e.status ∈ [400, 404, 500, 503]) ∨
        ∃ report, answer = .ok report ∧ report.start ≤ report.stop ∧
          report.count.toNat = report.points.length := by
  rw [historyReport]
  cases knowsServer h serverId with
  | error e =>
    refine ⟨by simp, fun answer hanswer => .inl ⟨.ofHub e, ?_, Failure.status_mem _⟩⟩
    exact (Option.some.inj hanswer).symm
  | ok known =>
    cases known with
    | false =>
      refine ⟨by simp, fun answer hanswer =>
        .inl ⟨.notFound s!"unknown server '{serverId}'", ?_, Failure.status_mem _⟩⟩
      exact (Option.some.inj hanswer).symm
    | true =>
      refine ⟨by simp [Instant.minus?_hour_eq_none_iff], fun answer hanswer => ?_⟩
      obtain ⟨hourBefore, -, rfl⟩ := Option.map_eq_some_iff.mp hanswer
      cases hreport : historyWithin h serverId (q.start.getD hourBefore) (q.stop.getD now)
          (q.limit.getD standardLimit) with
      | error e => exact .inl ⟨e, rfl, e.status_mem⟩
      | ok report => exact .inr ⟨report, rfl, historyWithin_eq_ok hreport⟩

/-- A hub with one server, which keeps no history. -/
def oneServerHub : Hub where
  settings := ⟨.ofSeconds 30, 16, 64, false, none⟩
  directory := .new [{ id := "a", token := "t" }] []

/-- A request for the first half of the first hour, with a start. -/
def earlyRequest : Request where
  method := .get
  path := "/api/servers/a/history"
  query := "start=-262143-01-01T00:00:00Z&end=-262143-01-01T00:30:00Z"

/-- The stretch that it asks for. -/
def earlyQuery : HistoryQuery where
  start := Instant.of? firstSecond 0
  stop := Instant.of? (firstSecond + 1800) 0

/-- It can be read, the server is known and the stretch starts before its end, but the request
breaks down. -/
theorem start_given_breaks_down :
    (HistoryQuery.parse? earlyRequest.query).map (fun q => (q.start, q.stop, q.limit)) =
      some (earlyQuery.start, earlyQuery.stop, none) ∧
    knowsServer oneServerHub "a" = .ok true ∧
    historyReport oneServerHub "a" earlyQuery .epoch = none ∧
    (respond ⟨⟨.v4 0 0 0 0, 3001, 0⟩, none, false⟩ oneServerHub .epoch earlyRequest).1.isNone := by
  refine ⟨?_, ?_, ?_, ?_⟩
  · decide +kernel
  · rfl
  · rfl
  · decide +kernel

end Web
end FleetWatch
