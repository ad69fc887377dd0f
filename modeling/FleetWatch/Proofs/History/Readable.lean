import FleetWatch.History.Recorder
import FleetWatch.Proofs.Metrics.Survival

/-!
# Readable histories

A table keeps snapshots as text, and one that cannot be read back spoils every query that meets it.
If all snapshots that are recorded can be read back, and their times are no leap seconds, every
query of the table succeeds, whatever the recorder has done in between.

## Main definitions

* `History.Row.Keepable`, `History.Table.Holds`, `History.Recorder.Holds`: what is recorded can be
  read back.
* `History.Recorder.Task`: what a recorder does by itself.
-/
namespace FleetWatch

open Wire

namespace History

/-- A time that is no leap second is found again by its milliseconds. -/
theorem isSome_ofMillis? {t : Time.Instant} (h : t.isLeap = false) :
    ∃ u, Time.Instant.ofMillis? t.millis = some u := by
  have hshort : t.nano < Time.nanosPerSecond := Nat.not_le.mp (of_decide_eq_false h)
  have hsecond : t.millis / 1000 = t.second := by
    simp only [Time.Instant.millis, Time.nanosPerSecond] at hshort ⊢
    omega
  have hnano : (t.millis % 1000).toNat * 1000000 < 2 * Time.nanosPerSecond := by
    simp only [Time.nanosPerSecond]
    omega
  rw [Time.Instant.ofMillis?, hsecond, Time.Instant.of?, dif_pos ⟨t.first_le, t.le_last, hnano⟩]
  exact ⟨_, rfl⟩

variable (kept : String → Snapshot → Prop)

/-- A row that may be stored: its snapshot may be kept for its host, and its time is no leap
second. -/
structure Row.Keepable (r : Row) : Prop where
  snapshot : kept r.hostId r.snapshot
  time : r.timestamp.isLeap = false

/-- Stored cells that come of a row that may be stored. -/
structure Cells.Holds (c : Cells) (hostId : String) (millis : Int) : Prop where
  snapshot : ∃ s, kept hostId s ∧ c.snapshot = Snapshot.schema.encode s
  time : ∃ t, Time.Instant.ofMillis? millis = some t

/-- All stored rows come of rows that may be stored. -/
def Table.Holds (t : Table) : Prop :=
  ∀ hostId rows, t.rows[hostId]? = some rows →
    ∀ millis (c : Cells), rows[millis]? = some c → c.Holds kept hostId millis

/-- All rows of a recorder, waiting, buffered and stored, may be stored. -/
structure Recorder.Holds (r : Recorder) : Prop where
  queue : ∀ row ∈ r.queue.waiting, row.Keepable kept
  buffer : ∀ row ∈ r.buffer, row.Keepable kept
  table : ∀ t, r.backend.store = .table t → t.Holds kept

variable {kept}

theorem Cells.holds_of_ofRow? {r : Row} (h : r.Keepable kept) {c : Cells} (hc : ofRow? r = .ok c) :
    c.Holds kept r.hostId r.timestamp.millis := by
  unfold ofRow? at hc
  split at hc
  · cases hc
  · cases hc
  · obtain rfl := Except.ok.inj hc
    exact ⟨⟨r.snapshot, h.snapshot, rfl⟩, isSome_ofMillis? h.time⟩

namespace Table

theorem Holds.put {t : Table} (h : t.Holds kept) {hostId : String} {millis : Int} {c : Cells}
    (hc : c.Holds kept hostId millis) : (t.put hostId millis c).Holds kept := by
  intro k rows hrows m d hd
  simp only [Table.put, Std.TreeMap.getElem?_insert, Std.compare_eq_iff_eq] at hrows
  split at hrows
  · next hk =>
    subst hk
    obtain rfl := Option.some.inj hrows
    simp only [Std.TreeMap.getElem?_insert, Std.compare_eq_iff_eq] at hd
    split at hd
    · next hm =>
      subst hm
      exact Option.some.inj hd ▸ hc
    · cases hold : t.rows[hostId]? with
      | none => simp [hold] at hd
      | some old =>
        rw [hold, Option.getD_some] at hd
        exact h hostId old hold m d hd
  · exact h k rows hrows m d hd

/-- Whatever is appended, all stored rows come of rows that may be stored. -/
theorem Holds.of_append {t u : Table} (h : t.Holds kept) {rows : List Row}
    (hrows : ∀ r ∈ rows, r.Keepable kept) (happend : t.append rows = .ok u) : u.Holds kept := by
  have hfold : ∀ (rows : List Row) (t : Table), (∀ r ∈ rows, r.Keepable kept) → t.Holds kept →
      rows.foldlM
        (fun t r => do return t.put r.hostId r.timestamp.millis (← Cells.ofRow? r)) t = .ok u →
      u.Holds kept := by
    intro rows
    induction rows with
    | nil => exact fun t _ ht hu => Except.ok.inj hu ▸ ht
    | cons r rows ih =>
      intro t hrows ht hu
      obtain ⟨hr, hrows⟩ := List.forall_mem_cons.mp hrows
      rw [List.foldlM_cons] at hu
      obtain ⟨v, hput, hu⟩ := bind_eq_ok_iff.mp hu
      obtain ⟨c, hc, hv⟩ := bind_eq_ok_iff.mp hput
      obtain rfl := Except.ok.inj hv
      exact ih _ hrows (ht.put (Cells.holds_of_ofRow? hr hc)) hu
  unfold Table.append at happend
  split at happend
  · exact Except.ok.inj happend ▸ h
  · split at happend
    · cases happend
    · exact hfold rows t hrows h happend

theorem Holds.of_cleanup {t u : Table} {n : Nat} (h : t.Holds kept) {before : Time.Instant}
    (hcleanup : t.cleanup before = .ok (n, u)) : u.Holds kept := by
  unfold Table.cleanup at hcleanup
  split at hcleanup
  · cases hcleanup
  · obtain ⟨-, rfl⟩ := Prod.mk.inj (Except.ok.inj hcleanup)
    intro k rows hrows m c hc
    simp only [Std.TreeMap.getElem?_map] at hrows
    obtain ⟨old, hold, rfl⟩ := Option.map_eq_some_iff.mp hrows
    refine h k old hold m c ?_
    rw [Std.TreeMap.getElem?_filter] at hc
    exact Option.eq_some_of_pfilter_eq_some hc

/-- The stored rows of a host are read back. -/
theorem Holds.readAll {t : Table} (h : t.Holds kept) (hback : ∀ k s, kept k s → s.ReadsBack)
    {hostId : String} {l : List (Int × Cells)} (hl : ∀ p ∈ l, p ∈ t.rowsOf hostId) :
    ∃ rows, Table.readAll hostId l = .ok rows ∧
      ∀ r ∈ rows, r.hostId = hostId ∧ kept hostId r.snapshot := by
  induction l with
  | nil => exact ⟨[], rfl, by simp⟩
  | cons p l ih =>
    obtain ⟨hp, hl⟩ := List.forall_mem_cons.mp hl
    obtain ⟨rows, hrows, hkept⟩ := ih hl
    obtain ⟨millis, c⟩ := p
    have hcell : c.Holds kept hostId millis := by
      unfold rowsOf at hp
      cases hold : t.rows[hostId]? with
      | none => simp [hold] at hp
      | some old =>
        simp only [hold, Option.map_some, Option.getD_some] at hp
        exact h hostId old hold millis c (Std.TreeMap.mem_toList_iff_getElem?_eq_some.mp hp)
    obtain ⟨s, hs, hsnapshot⟩ := hcell.snapshot
    obtain ⟨time, htime⟩ := hcell.time
    have hread := hback hostId s hs
    rw [Snapshot.ReadsBack, ← hsnapshot] at hread
    unfold Table.readAll at hrows ⊢
    rw [List.mapM_cons, hrows]
    simp only [Cells.toRow, hread, htime]
    refine ⟨_, rfl, List.forall_mem_cons.mpr ⟨⟨rfl, hs⟩, hkept⟩⟩

theorem mem_of_mem_rowLimit {limit : UInt64} {l : List (Int × Cells)} {p : Int × Cells}
    (h : p ∈ rowLimit limit l) : p ∈ l := by
  unfold rowLimit at h
  split at h
  · exact h
  · exact List.mem_of_mem_take h

/-- Every query of an open table succeeds, with rows that may be kept. -/
theorem Holds.range {t : Table} (h : t.Holds kept) (hback : ∀ k s, kept k s → s.ReadsBack)
    (hopen : t.isOpen = true) (q : Query) :
    ∃ rows, t.range q = .ok rows ∧ ∀ r ∈ rows, r.hostId = q.hostId ∧ kept q.hostId r.snapshot := by
  unfold Table.range
  simp only [hopen, Bool.not_true, Bool.false_eq_true, if_false]
  refine h.readAll hback fun p hp => ?_
  split at hp
  · exact (List.mem_filter.mp (mem_of_mem_rowLimit hp)).1
  · exact (List.mem_filter.mp hp).1

theorem Holds.latest {t : Table} (h : t.Holds kept) (hback : ∀ k s, kept k s → s.ReadsBack)
    (hopen : t.isOpen = true) (hostId : String) (limit : UInt64) :
    ∃ rows, t.latest hostId limit = .ok rows ∧
      ∀ r ∈ rows, r.hostId = hostId ∧ kept hostId r.snapshot := by
  unfold Table.latest
  simp only [hopen, Bool.not_true, Bool.false_eq_true, if_false]
  obtain ⟨rows, hrows, hkept⟩ := h.readAll hback
    (l := rowLimit limit (t.rowsOf hostId).reverse)
    fun p hp => List.mem_reverse.mp (mem_of_mem_rowLimit hp)
  rw [hrows]
  exact ⟨rows.reverse, rfl, fun r hr => hkept r (List.mem_reverse.mp hr)⟩

end Table

/-- A backend that answers asks its store. -/
theorem Backend.of_withStore {α : Type} {b : Backend} {f : Store → Except HistoryError α} {a : α}
    (h : b.withStore f = .ok a) : f b.store = .ok a := by
  unfold Backend.withStore at h
  split at h
  · cases h
  · exact h

theorem Row.Keepable.mono {kept' : String → Snapshot → Prop} {r : Row} (h : r.Keepable kept)
    (hkept : ∀ k s, kept k s → kept' k s) : r.Keepable kept' :=
  ⟨hkept _ _ h.snapshot, h.time⟩

namespace Recorder

/-- What a recorder does by itself or on request. -/
inductive Task where
  | takeRow
  | flushDue
  | flush
  | cleanUp (now : Time.Instant)
  | leave
  | drain
  | flushLast
  | closeBackend
  | stop

def perform (r : Recorder) : Task → Recorder
  | .takeRow => r.takeRow
  | .flushDue => r.flushDue
  | .flush => r.flush.2
  | .cleanUp now => r.cleanUp now
  | .leave => r.leave
  | .drain => r.drain
  | .flushLast => r.flushLast
  | .closeBackend => r.closeBackend
  | .stop => r.stop

namespace Holds
variable {r : Recorder}

theorem record (h : r.Holds kept) {row : Row} (hrow : row.Keepable kept) :
    (r.record row).2.Holds kept := by
  unfold Recorder.record
  split
  · exact h
  · split
    · next queue hqueue =>
      refine ⟨fun x hx => ?_, h.buffer, h.table⟩
      rw [(Queue.Bounded.waiting_of_offer? hqueue).1] at hx
      rcases List.mem_append.mp hx with hx | hx
      · exact h.queue x hx
      · exact List.mem_singleton.mp hx ▸ hrow
    · exact h

theorem flushBuffer (h : r.Holds kept) : r.flushBuffer.2.Holds kept := by
  unfold Recorder.flushBuffer
  split
  · exact h
  · split
    · next backend hbackend =>
      refine ⟨h.queue, by simp, fun t ht => ?_⟩
      have hstore := Backend.of_withStore hbackend
      cases hold : r.backend.store with
      | memory m =>
        rw [hold] at hstore
        obtain rfl := Except.ok.inj hstore
        cases ht
      | table old =>
        rw [hold] at hstore
        obtain ⟨u, hu, hstore⟩ := bind_eq_ok_iff.mp hstore
        obtain rfl := Except.ok.inj hstore
        obtain rfl : u = t := by simpa using ht
        exact (h.table old hold).of_append h.buffer hu
    · exact ⟨h.queue, by simp, h.table⟩

theorem receive (h : r.Holds kept) {rows : List Row} (hrows : ∀ row ∈ rows, row.Keepable kept) :
    (r.receive rows).Holds kept where
  queue := h.queue
  buffer := fun x hx => (List.mem_append.mp hx).elim (h.buffer x) (hrows x)
  table := h.table

theorem drainQueue (h : r.Holds kept) : r.drainQueue.Holds kept where
  queue := by simp [Recorder.drainQueue]
  buffer := (h.receive h.queue).buffer
  table := h.table

theorem takeRow (h : r.Holds kept) : r.takeRow.Holds kept := by
  unfold Recorder.takeRow
  split
  · split
    · next row queue htake =>
      have hwaiting := Queue.Bounded.waiting_of_take? htake
      have hrow : row.Keepable kept := h.queue row (hwaiting ▸ List.mem_cons_self)
      have hrest : ({ r with queue } : Recorder).Holds kept :=
        ⟨fun x hx => h.queue x (hwaiting ▸ List.mem_cons_of_mem _ hx), h.buffer, h.table⟩
      have hreceived := hrest.receive (List.forall_mem_singleton.mpr hrow)
      unfold Recorder.store
      dsimp only
      split
      · exact hreceived.flushBuffer
      · exact hreceived
    · exact h
  · exact h

theorem cleanUp (h : r.Holds kept) (now : Time.Instant) : (r.cleanUp now).Holds kept := by
  unfold Recorder.cleanUp
  split
  · split
    · exact ⟨h.queue, h.buffer, h.table⟩
    · dsimp only
      split
      · next n backend hbackend =>
        refine ⟨h.queue, h.buffer, fun t ht => ?_⟩
        have hstore := Backend.of_withStore hbackend
        cases hold : r.backend.store with
        | memory m =>
          rw [hold] at hstore
          obtain ⟨-, rfl⟩ := Prod.mk.inj (Except.ok.inj hstore)
          cases ht
        | table old =>
          rw [hold] at hstore
          obtain ⟨⟨m, u⟩, hu, hstore⟩ := bind_eq_ok_iff.mp hstore
          obtain ⟨-, rfl⟩ := Prod.mk.inj (Except.ok.inj hstore)
          obtain rfl : u = t := by simpa using ht
          exact (h.table old hold).of_cleanup hu
      · exact ⟨h.queue, h.buffer, h.table⟩
  · exact h

/-- The end of a recorder's phases leaves its rows as they are. -/
theorem of_phase (h : r.Holds kept) (phase : Phase) : ({ r with phase } : Recorder).Holds kept :=
  ⟨h.queue, h.buffer, h.table⟩

theorem closeBackend (h : r.Holds kept) : r.closeBackend.Holds kept := by
  unfold Recorder.closeBackend
  split
  · split
    · next backend hbackend =>
      refine ⟨h.queue, h.buffer, fun t ht => ?_⟩
      have hstore := Backend.of_withStore hbackend
      cases hold : r.backend.store with
      | memory m =>
        rw [hold] at hstore
        obtain rfl := Except.ok.inj hstore
        exact h.table t ht
      | table old =>
        rw [hold] at hstore
        obtain rfl := Except.ok.inj hstore
        obtain rfl : old.close = t := by simpa using ht
        exact h.table old hold
    · exact h.of_phase _
  · exact h

/-- Whatever a recorder does, its rows can be stored and read back. -/
theorem perform (h : r.Holds kept) (task : Task) : (r.perform task).Holds kept := by
  cases task with
  | takeRow => exact h.takeRow
  | flushDue =>
    change (if r.phase = .running then r.flushBuffer.2 else r).Holds kept
    split
    · exact h.flushBuffer
    · exact h
  | flush =>
    change (r.request fun r => r.drainQueue.flushBuffer).2.Holds kept
    unfold Recorder.request
    split
    · exact h.drainQueue.flushBuffer
    · exact h
  | cleanUp now => exact h.cleanUp now
  | leave =>
    change (if r.phase = .running then { r with phase := .left } else r).Holds kept
    split
    · exact h.of_phase .left
    · exact h
  | drain =>
    change (if r.phase = .left then { r.drainQueue with phase := .drained } else r).Holds kept
    split
    · exact h.drainQueue.of_phase .drained
    · exact h
  | flushLast =>
    change (if r.phase = .drained then { r.flushBuffer.2 with phase := .flushed } else r).Holds kept
    split
    · exact h.flushBuffer.of_phase .flushed
    · exact h
  | closeBackend => exact h.closeBackend
  | stop =>
    change (if r.phase = .closed then { r with phase := .stopped } else r).Holds kept
    split
    · exact h.of_phase .stopped
    · exact h

/-- Rows that may be stored may be so when more may. -/
theorem mono (h : r.Holds kept) {kept' : String → Snapshot → Prop}
    (hkept : ∀ k s, kept k s → kept' k s) : r.Holds kept' where
  queue := fun row hrow => (h.queue row hrow).mono hkept
  buffer := fun row hrow => (h.buffer row hrow).mono hkept
  table := fun t ht k rows hrows millis c hc =>
    have hold := h.table t ht k rows hrows millis c hc
    ⟨hold.snapshot.imp fun s hs => hs.imp_left (hkept k s), hold.time⟩

end Holds

/-- A new recorder has no rows. -/
theorem holds_start (backend : Backend) (hbackend : ∀ t, backend.store = .table t → t.rows = {})
    (retentionDays : Option UInt32) : (start backend retentionDays).Holds kept := by
  refine ⟨by simp [start], by simp [start], fun t ht k rows hrows => ?_⟩
  rw [hbackend t ht] at hrows
  simp at hrows

end Recorder
end History
end FleetWatch
