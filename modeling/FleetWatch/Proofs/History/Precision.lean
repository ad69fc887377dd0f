import FleetWatch.Proofs.History.Arrival
import Mathlib.Data.List.Basic
import Mathlib.Data.List.Induction

/-!
# A table to the millisecond

A table counts times in milliseconds, rounded down, and a leap second's on past its second: the
times of rows, the bounds of queries and the times of cleanups alike. It has one row of each host
and millisecond, the one that arrived last. To the millisecond no query finds a row outside of its
bounds or from before a cleanup, and a cleanup takes no other row away.

## Main definitions

* `Table.editAll`: the table after edits.
* `standing?`: the row of a host and millisecond that edits leave.
* `Stands`: the rows of a host within bounds, in order.
* `Table.Records`: a table holds what edits leave.
* `ComesBack`: a row that is read back from what edits leave.
-/
namespace FleetWatch

namespace Time.Instant
variable {t u : Instant}

/-- What a count of milliseconds stands for has this count. -/
theorem millis_of_ofMillis? {ms : Int} (h : ofMillis? ms = some t) : t.millis = ms := by
  obtain ⟨hsecond, hnano⟩ := of?_eq_some h
  simp only [millis]
  omega

theorem isMillis_of_ofMillis? {ms : Int} (h : ofMillis? ms = some t) : t.IsMillis := by
  rw [IsMillis, millis_of_ofMillis? h]
  exact h

/-- A whole millisecond that is not counted after a time is not after it, but in a leap second. -/
theorem IsMillis.le_of_millis_le (ht : t.IsMillis) (hleap : u.isLeap = false)
    (h : t.millis ≤ u.millis) : t ≤ u := by
  obtain ⟨hmod, hshort⟩ := ht.nano
  have hu : u.nano < nanosPerSecond := Nat.not_le.mp (of_decide_eq_false hleap)
  simp only [millis, nanosPerSecond] at h hu hshort
  rintro (hsecond | ⟨hsecond, hnano⟩) <;> omega

/-- What is not before a time is not counted before it, but in a leap second. -/
theorem millis_le_millis (hleap : t.isLeap = false) (h : t ≤ u) : t.millis ≤ u.millis := by
  have ht : t.nano < nanosPerSecond := Nat.not_le.mp (of_decide_eq_false hleap)
  have hnot : ¬ (u.second < t.second ∨ u.second = t.second ∧ u.nano < t.nano) := h
  simp only [millis, nanosPerSecond] at ht ⊢
  omega

end Time.Instant

namespace History

open Time

/-! ## What edits leave -/

/-- The row of a host and millisecond after an edit. -/
def Edit.leave (hostId : String) (millis : Int) (kept : Option Row) : Edit → Option Row
  | append rows =>
    (rows.filter fun r => r.hostId = hostId ∧ r.timestamp.millis = millis).getLast?.or kept
  | cleanup before => if before.millis ≤ millis then kept else none

/-- The row of a host and millisecond that edits leave: the one that arrived last, if no cleanup
came after it that it is too old for. -/
def standing? (hostId : String) (millis : Int) (edits : List Edit) : Option Row :=
  edits.foldl (Edit.leave hostId millis) none

theorem standing?_append_singleton (hostId : String) (millis : Int) (edits : List Edit) (e : Edit) :
    standing? hostId millis (edits ++ [e]) =
      e.leave hostId millis (standing? hostId millis edits) := by
  simp [standing?]

/-- A row that edits leave is one that they brought, of its host and millisecond. -/
theorem of_standing? {hostId : String} {millis : Int} {edits : List Edit} {r : Row}
    (h : standing? hostId millis edits = some r) :
    r ∈ edits.flatMap Edit.rows ∧ r.hostId = hostId ∧ r.timestamp.millis = millis := by
  induction edits using List.reverseRecOn with
  | nil => cases h
  | append_singleton edits e ih =>
    rw [standing?_append_singleton] at h
    rw [List.flatMap_append, List.flatMap_singleton, List.mem_append]
    cases e with
    | append rows =>
      obtain hlast | ⟨-, hkept⟩ := Option.or_eq_some_iff.mp h
      · obtain ⟨hmem, hsame⟩ := List.mem_filter.mp (List.mem_of_getLast? hlast)
        exact ⟨.inr hmem, by simpa using hsame⟩
      · exact (ih hkept).imp_left .inl
    | cleanup before =>
      simp only [Edit.leave, Option.ite_none_right_eq_some] at h
      exact (ih h.2).imp_left .inl

/-- The rows of a host that edits leave within bounds, in the order of their times. -/
structure Stands (edits : List Edit) (hostId : String) (low high : Int) (found : List Row) :
    Prop where
  ordered : (found.map fun r => r.timestamp.millis).Pairwise (· < ·)
  mem_iff : ∀ r, r ∈ found ↔ standing? hostId r.timestamp.millis edits = some r ∧
    low ≤ r.timestamp.millis ∧ r.timestamp.millis ≤ high

namespace Table

/-! ## Cells -/

/-- The cells of a host and millisecond. -/
def cell? (t : Table) (hostId : String) (millis : Int) : Option Cells :=
  (t.rows[hostId]?).bind fun rows => rows[millis]?

theorem mem_rowsOf_iff {t : Table} {hostId : String} {p : Int × Cells} :
    p ∈ t.rowsOf hostId ↔ t.cell? hostId p.1 = some p.2 := by
  obtain ⟨millis, c⟩ := p
  unfold rowsOf cell?
  cases t.rows[hostId]? with
  | none => simp
  | some rows => exact Std.TreeMap.mem_toList_iff_getElem?_eq_some

@[simp] theorem cell?_put (t : Table) (h k : String) (i j : Int) (c : Cells) :
    (t.put h i c).cell? k j = if h = k ∧ i = j then some c else t.cell? k j := by
  simp only [put, cell?, Std.TreeMap.getElem?_insert, Std.compare_eq_iff_eq]
  by_cases hk : h = k
  · subst hk
    by_cases hi : i = j
    · simp [hi]
    · cases t.rows[h]? <;> simp [Std.TreeMap.getElem?_insert, hi]
  · simp [hk]

def edit (t : Table) : Edit → Except HistoryError Table
  | .append rows => t.append rows
  | .cleanup before => (t.cleanup before).map Prod.snd

def editAll (t : Table) (edits : List Edit) : Except HistoryError Table := edits.foldlM edit t

/-- Rows whose usages are numbers are stored, the last of those with one host and millisecond. -/
theorem exists_append {t : Table} (hopen : t.isOpen = true) {rows : List Row}
    (hrows : ∀ r ∈ rows, r.cpu ≠ .nan ∧ r.mem ≠ .nan) :
    ∃ u, t.append rows = .ok u ∧ u.isOpen = true ∧ ∀ h i, u.cell? h i =
      ((rows.filter fun r => r.hostId = h ∧ r.timestamp.millis = i).getLast?.map Row.cells).or
        (t.cell? h i) := by
  rw [t.append_eq_foldlM]
  induction rows generalizing t with
  | nil => exact ⟨t, rfl, hopen, fun h i => rfl⟩
  | cons r rows ih =>
    obtain ⟨hr, hrows⟩ := List.forall_mem_cons.mp hrows
    have hone : t.append [r] = .ok (t.put r.hostId r.timestamp.millis r.cells) := by
      simp [append, hopen, Row.ofRow?_eq_cells hr.1 hr.2, bind, Except.bind, pure, Except.pure]
    obtain ⟨u, hu, hopen', hcells⟩ :=
      ih (t := t.put r.hostId r.timestamp.millis r.cells) hopen hrows
    refine ⟨u, ?_, hopen', fun h i => ?_⟩
    · rw [List.foldlM_cons, hone]
      exact hu
    · rw [hcells, cell?_put]
      -- a later row of the same host and millisecond takes the place of this one
      by_cases hr : r.hostId = h ∧ r.timestamp.millis = i
      · rw [if_pos hr, List.filter_cons_of_pos (by simpa using hr), List.getLast?_cons]
        cases (rows.filter fun r => r.hostId = h ∧ r.timestamp.millis = i).getLast? <;> rfl
      · rw [if_neg hr, List.filter_cons_of_neg (by simpa using hr)]

/-- A cleanup takes the rows of the milliseconds before its own. -/
theorem exists_cleanup {t : Table} (hopen : t.isOpen = true) (before : Instant) :
    ∃ n u, t.cleanup before = .ok (n, u) ∧ u.isOpen = true ∧
      ∀ h i, u.cell? h i = if before.millis ≤ i then t.cell? h i else none := by
  let u : Table := { t with
    rows := t.rows.map fun _ rows => rows.filter fun millis _ => before.millis ≤ millis }
  refine ⟨t.total - u.total, u, by simp [cleanup, hopen, u], hopen, fun h i => ?_⟩
  simp only [u, cell?, Std.TreeMap.getElem?_map]
  cases t.rows[h]? with
  | none => simp
  | some rows =>
    rw [Option.map_some, Option.bind_some, Option.bind_some, Std.TreeMap.getElem?_filter']
    generalize rows[i]? = c
    by_cases hi : before.millis ≤ i <;> cases c <;> simp [hi]

/-! ## Records -/

/-- A table in service that holds the rows that edits leave. -/
structure Records (t : Table) (edits : List Edit) : Prop where
  isOpen : t.isOpen = true
  cell : ∀ hostId millis, t.cell? hostId millis = (standing? hostId millis edits).map Row.cells

namespace Records
variable {t : Table} {edits : List Edit}

theorem empty (path : String) : Records { path } [] :=
  ⟨rfl, fun h i => by simp [cell?, standing?]⟩

theorem append (ht : t.Records edits) {rows : List Row}
    (hrows : ∀ r ∈ rows, r.cpu ≠ .nan ∧ r.mem ≠ .nan) :
    ∃ u, t.append rows = .ok u ∧ u.Records (edits ++ [.append rows]) := by
  obtain ⟨u, hu, hopen, hcells⟩ := exists_append ht.isOpen hrows
  refine ⟨u, hu, hopen, fun h i => ?_⟩
  rw [hcells, ht.cell, standing?_append_singleton, Edit.leave, Option.map_or]

theorem cleanup (ht : t.Records edits) (before : Instant) :
    ∃ n u, t.cleanup before = .ok (n, u) ∧ u.Records (edits ++ [.cleanup before]) := by
  obtain ⟨n, u, hu, hopen, hcells⟩ := exists_cleanup ht.isOpen before
  refine ⟨n, u, hu, hopen, fun h i => ?_⟩
  rw [hcells, ht.cell, standing?_append_singleton, Edit.leave]
  split <;> rfl

/-- An edit is made, and the table holds what it leaves. -/
theorem edit (ht : t.Records edits) {e : Edit} (he : ∀ r ∈ e.rows, r.cpu ≠ .nan ∧ r.mem ≠ .nan) :
    ∃ u, t.edit e = .ok u ∧ u.Records (edits ++ [e]) := by
  cases e with
  | append rows => exact ht.append he
  | cleanup before =>
    obtain ⟨n, u, hu, hrecords⟩ := ht.cleanup before
    exact ⟨u, by simp [Table.edit, hu, Except.map], hrecords⟩

theorem editAll (ht : t.Records edits) {more : List Edit}
    (hmore : ∀ r ∈ more.flatMap Edit.rows, r.cpu ≠ .nan ∧ r.mem ≠ .nan) :
    ∃ u, t.editAll more = .ok u ∧ u.Records (edits ++ more) := by
  induction more generalizing t edits with
  | nil => exact ⟨t, rfl, by rwa [List.append_nil]⟩
  | cons e more ih =>
    rw [List.flatMap_cons, List.forall_mem_append] at hmore
    obtain ⟨u, hu, hrecords⟩ := ht.edit hmore.1
    obtain ⟨v, hv, hall⟩ := ih hrecords hmore.2
    refine ⟨v, ?_, by simpa using hall⟩
    rw [Table.editAll, List.foldlM_cons, hu]
    exact hv

/-- The rows of a host are those that edits leave. -/
theorem exists_rowsOf_eq (ht : t.Records edits) (hostId : String) :
    ∃ rows : List Row, t.rowsOf hostId = rows.map Row.entry ∧
      (rows.map fun r => r.timestamp.millis).Pairwise (· < ·) ∧
      ∀ r, r ∈ rows ↔ standing? hostId r.timestamp.millis edits = some r := by
  have hstands : ∀ p ∈ t.rowsOf hostId,
      (standing? hostId p.1 edits).map Row.entry = some p := by
    intro p hp
    obtain ⟨r, hr, hcells⟩ :=
      Option.map_eq_some_iff.mp ((ht.cell ..).symm.trans (mem_rowsOf_iff.mp hp))
    rw [hr, Option.map_some, Row.entry, hcells, (of_standing? hr).2.2]
  let rows := (t.rowsOf hostId).filterMap fun p => standing? hostId p.1 edits
  have hrows : t.rowsOf hostId = rows.map Row.entry := by
    rw [List.map_filterMap, List.filterMap_congr hstands, List.filterMap_some]
  have hordered := t.pairwise_rowsOf hostId
  rw [hrows, List.map_map] at hordered
  refine ⟨rows, hrows, hordered, fun r => ?_⟩
  rw [List.mem_filterMap]
  constructor
  · rintro ⟨p, -, hr⟩
    rwa [(of_standing? hr).2.2]
  · intro hr
    refine ⟨r.entry, mem_rowsOf_iff.mpr ?_, hr⟩
    rw [ht.cell, Row.entry, hr]
    rfl

/-- A query reads back the rows that edits leave within its bounds, to the millisecond. -/
theorem range (ht : t.Records edits) (q : Query) :
    ∃ found, Stands edits q.hostId q.start.millis q.stop.millis found ∧
      t.range q =
        (found.take ((q.limit.map UInt64.toNat).getD found.length)).mapM Row.stored := by
  obtain ⟨rows, hrows, hordered, hmem⟩ := ht.exists_rowsOf_eq q.hostId
  let found := rows.filter fun r =>
    q.start.millis ≤ r.timestamp.millis ∧ r.timestamp.millis ≤ q.stop.millis
  have hsorted : (found.map fun r => r.timestamp.millis).Pairwise (· < ·) :=
    hordered.sublist (List.filter_sublist.map _)
  have hfound : (t.rowsOf q.hostId).filter
      (fun p => decide (q.start.millis ≤ p.1 ∧ p.1 ≤ q.stop.millis)) = found.map Row.entry := by
    rw [hrows, List.filter_map]
    rfl
  have hhost : ∀ r ∈ found, r.hostId = q.hostId := fun r hr =>
    (of_standing? ((hmem r).mp (List.mem_filter.mp hr).1)).2.1
  refine ⟨found, ⟨hsorted, fun r => by simp [found, hmem]⟩, ?_⟩
  rw [Table.range, if_neg (by simp [ht.isOpen])]
  dsimp only
  rw [hfound]
  cases q.limit with
  | none =>
    rw [Option.map_none, Option.getD_none, List.take_length]
    exact Mirrors.readAll_map_entry hhost
  | some n =>
    rw [Option.map_some, Option.getD_some]
    dsimp only
    rw [Mirrors.rowLimit_eq (by simpa using length_lt_of_pairwise hsorted), ← List.map_take]
    exact Mirrors.readAll_map_entry fun r hr => hhost r (List.mem_of_mem_take hr)

/-- The latest rows of a host are read back from the last one on. -/
theorem latest (ht : t.Records edits) (hostId : String) (limit : UInt64) :
    ∃ found, Stands edits hostId Instant.firstMilli Instant.lastMilli found ∧
      t.latest hostId limit =
        List.reverse <$> (found.reverse.take limit.toNat).mapM Row.stored := by
  obtain ⟨rows, hrows, hordered, hmem⟩ := ht.exists_rowsOf_eq hostId
  have hlength : (rows.map Row.entry).reverse.length < UInt64.size / 2 := by
    simpa using length_lt_of_pairwise hordered
  have hhost : ∀ r ∈ rows.reverse.take limit.toNat, r.hostId = hostId := fun r hr =>
    (of_standing? ((hmem r).mp (List.mem_reverse.mp (List.mem_of_mem_take hr)))).2.1
  refine ⟨rows, ⟨hordered, fun r => ?_⟩, ?_⟩
  · rw [hmem]
    exact (and_iff_left ⟨r.timestamp.firstMilli_le, r.timestamp.millis_le⟩).symm
  · rw [Table.latest, if_neg (by simp [ht.isOpen]), hrows, Mirrors.rowLimit_eq hlength,
      ← List.map_reverse, ← List.map_take, Mirrors.readAll_map_entry hhost]

end Records
end Table

/-! ## Rows that are read back -/

/-- What comes back of a row has its time, as a whole millisecond. -/
theorem Row.millis_of_stored {r s : Row} (h : r.stored = .ok s) :
    s.timestamp.IsMillis ∧ s.timestamp.millis = r.timestamp.millis := by
  unfold stored Cells.toRow at h
  split at h
  · cases h
  · cases h
  · next timestamp _ htime =>
    obtain rfl := Except.ok.inj h
    exact ⟨Instant.isMillis_of_ofMillis? htime, Instant.millis_of_ofMillis? htime⟩

/-- The row comes back of one that edits brought and left, with its time to the millisecond. -/
structure ComesBack (edits : List Edit) (hostId : String) (r : Row) : Prop where
  time : r.timestamp.IsMillis
  source : ∃ s ∈ edits.flatMap Edit.rows, s.timestamp.millis = r.timestamp.millis ∧
    s.stored = .ok r ∧ standing? hostId r.timestamp.millis edits = some s

theorem comesBack_of_standing? {edits : List Edit} {hostId : String} {r s : Row}
    (hs : standing? hostId s.timestamp.millis edits = some s) (hback : s.stored = .ok r) :
    ComesBack edits hostId r := by
  obtain ⟨htime, hsame⟩ := Row.millis_of_stored hback
  exact ⟨htime, s, (of_standing? hs).1, hsame.symm, hback, hsame.symm ▸ hs⟩

/-- Each result of a traversal is that of an element. -/
theorem exists_of_mem_of_mapM_ok {α β ε : Type} {f : α → Except ε β} {l : List α} {bs : List β}
    (h : l.mapM f = .ok bs) {b : β} (hb : b ∈ bs) : ∃ a ∈ l, f a = .ok b := by
  induction l generalizing bs with
  | nil =>
    obtain rfl := Except.ok.inj h
    cases hb
  | cons a l ih =>
    rw [List.mapM_cons] at h
    obtain ⟨c, hc, h⟩ := bind_eq_ok_iff.mp h
    obtain ⟨cs, hcs, h⟩ := bind_eq_ok_iff.mp h
    obtain rfl := Except.ok.inj h
    obtain rfl | hb := List.mem_cons.mp hb
    · exact ⟨a, List.mem_cons_self, hc⟩
    · obtain ⟨d, hd, hok⟩ := ih hcs hb
      exact ⟨d, List.mem_cons_of_mem _ hd, hok⟩

namespace Table.Records
variable {t : Table} {edits : List Edit}

/-- Rows that a query finds are within its bounds, to the millisecond. -/
theorem of_range (ht : t.Records edits) {q : Query} {rows : List Row}
    (hrows : t.range q = .ok rows) {r : Row} (hr : r ∈ rows) :
    ComesBack edits q.hostId r ∧ q.start.millis ≤ r.timestamp.millis ∧
      r.timestamp.millis ≤ q.stop.millis := by
  obtain ⟨found, hfound, hrange⟩ := ht.range q
  obtain ⟨s, hs, hback⟩ := exists_of_mem_of_mapM_ok (hrange.symm.trans hrows) hr
  obtain ⟨hstands, hlow, hhigh⟩ := (hfound.mem_iff s).mp (List.mem_of_mem_take hs)
  have hsame := (Row.millis_of_stored hback).2
  exact ⟨comesBack_of_standing? hstands hback, hsame ▸ hlow, hsame ▸ hhigh⟩

theorem of_latest (ht : t.Records edits) {hostId : String} {limit : UInt64} {rows : List Row}
    (hrows : t.latest hostId limit = .ok rows) {r : Row} (hr : r ∈ rows) :
    ComesBack edits hostId r := by
  obtain ⟨found, hfound, hlatest⟩ := ht.latest hostId limit
  obtain ⟨read, hread, rfl⟩ := map_eq_ok_iff.mp (hlatest.symm.trans hrows)
  obtain ⟨s, hs, hback⟩ := exists_of_mem_of_mapM_ok hread (List.mem_reverse.mp hr)
  have hstands := (hfound.mem_iff s).mp (List.mem_reverse.mp (List.mem_of_mem_take hs))
  exact comesBack_of_standing? hstands.1 hback

end Table.Records

/-! ## Cleanups -/

theorem standing?_cleanup (hostId : String) (millis : Int) (edits : List Edit) (before : Instant) :
    standing? hostId millis (edits ++ [.cleanup before]) =
      if before.millis ≤ millis then standing? hostId millis edits else none :=
  standing?_append_singleton ..

/-- After a cleanup no row from before its millisecond comes back, but rows from before that. -/
theorem ComesBack.of_cleanup {edits : List Edit} {before : Instant} {hostId : String} {r : Row}
    (h : ComesBack (edits ++ [.cleanup before]) hostId r) :
    ComesBack edits hostId r ∧ before.millis ≤ r.timestamp.millis := by
  obtain ⟨s, -, hsame, hback, hs⟩ := h.source
  rw [standing?_cleanup, Option.ite_none_right_eq_some, ← hsame] at hs
  exact ⟨comesBack_of_standing? hs.2 hback, hsame ▸ hs.1⟩

/-- Two listings of the same rows are the same. -/
theorem Stands.eq_of_agree {edits more : List Edit} {hostId : String} {low high : Int}
    {found others : List Row} (h : Stands edits hostId low high found)
    (ho : Stands more hostId low high others)
    (hagree : ∀ i, low ≤ i → standing? hostId i edits = standing? hostId i more) :
    found = others := by
  have hordered : found.Pairwise fun r s => r.timestamp.millis < s.timestamp.millis :=
    List.pairwise_map.mp h.ordered
  have hothers : others.Pairwise fun r s => r.timestamp.millis < s.timestamp.millis :=
    List.pairwise_map.mp ho.ordered
  have hne {r s : Row} (hlt : r.timestamp.millis < s.timestamp.millis) : r ≠ s := by
    rintro rfl
    exact Int.lt_irrefl _ hlt
  refine List.Perm.eq_of_pairwise (fun r s _ _ hrs hsr => absurd hrs (Int.lt_asymm hsr)) hordered
    hothers ((List.perm_ext_iff_of_nodup (hordered.imp hne) (hothers.imp hne)).mpr fun r => ?_)
  rw [h.mem_iff, ho.mem_iff]
  exact and_congr_left fun hbounds => by rw [hagree _ hbounds.1]

/-- A cleanup leaves the answers to queries that start with its millisecond or after it. -/
theorem Table.Records.range_cleanup {t u : Table} {edits : List Edit} {before : Instant}
    (ht : t.Records edits) (hu : u.Records (edits ++ [.cleanup before])) {q : Query}
    (hq : before.millis ≤ q.start.millis) : u.range q = t.range q := by
  obtain ⟨found, hfound, hbefore⟩ := ht.range q
  obtain ⟨others, hothers, hafter⟩ := hu.range q
  have hsame : others = found := hothers.eq_of_agree hfound fun i hi => by
    rw [standing?_cleanup, if_pos (Int.le_trans hq hi)]
  rw [hbefore, hafter, hsame]

/-! ## The contract -/

/-- A table counts times in milliseconds, rounded down. Rows whose usages are numbers are stored,
and queries read back the rows of a host that are left, the last one of each millisecond: those
from the millisecond of the start to that of the end, in the order of their times, or the latest
ones. None of a range comes back with a time after the end, unless that is in a leap second. After a
cleanup no query returns a row from before the millisecond of the cleanup, and queries from there on
are answered as before. -/
theorem table_honours_milliseconds (path : String) (edits : List Edit)
    (hedits : ∀ r ∈ edits.flatMap Edit.rows, r.cpu ≠ .nan ∧ r.mem ≠ .nan) :
    ∃ t, Table.editAll { path } edits = .ok t ∧
      (∀ q : Query, ∃ found, Stands edits q.hostId q.start.millis q.stop.millis found ∧
        t.range q =
          (found.take ((q.limit.map UInt64.toNat).getD found.length)).mapM Row.stored) ∧
      (∀ (hostId : String) (limit : UInt64),
        ∃ found, Stands edits hostId Instant.firstMilli Instant.lastMilli found ∧
          t.latest hostId limit =
            List.reverse <$> (found.reverse.take limit.toNat).mapM Row.stored) ∧
      (∀ (q : Query) (rows : List Row), t.range q = .ok rows → ∀ r ∈ rows,
        ComesBack edits q.hostId r ∧ q.start.millis ≤ r.timestamp.millis ∧
          r.timestamp.millis ≤ q.stop.millis ∧ (q.stop.isLeap = false → r.timestamp ≤ q.stop)) ∧
      ∀ before : Instant, ∃ n u, t.cleanup before = .ok (n, u) ∧
        (∀ (q : Query) (rows : List Row), u.range q = .ok rows → ∀ r ∈ rows,
          ComesBack edits q.hostId r ∧ before.millis ≤ r.timestamp.millis) ∧
        (∀ (hostId : String) (limit : UInt64) (rows : List Row),
          u.latest hostId limit = .ok rows → ∀ r ∈ rows,
            ComesBack edits hostId r ∧ before.millis ≤ r.timestamp.millis) ∧
        ∀ q : Query, before.millis ≤ q.start.millis ∨ before.isLeap = false ∧ before ≤ q.start →
          u.range q = t.range q := by
  obtain ⟨t, hedit, ht⟩ := (Table.Records.empty path).editAll hedits
  rw [List.nil_append] at ht
  refine ⟨t, hedit, ht.range, ht.latest, fun q rows hrows r hr => ?_, fun before => ?_⟩
  · obtain ⟨hback, hlow, hhigh⟩ := ht.of_range hrows hr
    exact ⟨hback, hlow, hhigh, fun hleap => hback.time.le_of_millis_le hleap hhigh⟩
  · obtain ⟨n, u, hcleanup, hu⟩ := ht.cleanup before
    refine ⟨n, u, hcleanup, fun q rows hrows r hr => (hu.of_range hrows hr).1.of_cleanup,
      fun hostId limit rows hrows r hr => (hu.of_latest hrows hr).of_cleanup,
      fun q hq => ht.range_cleanup hu ?_⟩
    exact hq.elim id fun ⟨hleap, hle⟩ => Instant.millis_le_millis hleap hle

/-- Two rows are stored; after a cleanup by the time of the second one nothing is left from before
it, and the second one is found as before. -/
theorem two_rows_to_the_millisecond :
    (∀ r ∈ [Edit.append [firstRow, secondRow]].flatMap Edit.rows, r.cpu ≠ .nan ∧ r.mem ≠ .nan) ∧
    ∃ t n u, Table.editAll { path := "db" } [.append [firstRow, secondRow]] = .ok t ∧
      t.cleanup oneSecond = .ok (n, u) ∧
      (∀ limit rows, u.latest "a" limit = .ok rows → ∀ r ∈ rows, 1000 ≤ r.timestamp.millis) ∧
      u.range ⟨"a", oneSecond, oneSecond, none⟩ = t.range ⟨"a", oneSecond, oneSecond, none⟩ := by
  have hrows : ∀ r ∈ [Edit.append [firstRow, secondRow]].flatMap Edit.rows,
      r.cpu ≠ .nan ∧ r.mem ≠ .nan := by decide
  obtain ⟨t, ht, -, -, -, hcleanup⟩ := table_honours_milliseconds "db" _ hrows
  obtain ⟨n, u, hu, -, hlatest, hrange⟩ := hcleanup oneSecond
  exact ⟨hrows, t, n, u, ht, hu, fun limit rows h r hr => (hlatest "a" limit rows h r hr).2,
    hrange _ (.inl (by decide))⟩

/-- Half a millisecond after the epoch. -/
def halfMilli : Instant := { Instant.epoch with nano := 500000, nano_lt := by decide }

/-- The first row, a fifth of a millisecond later. -/
def earlyRow : Row :=
  { firstRow with timestamp := { Instant.epoch with nano := 200000, nano_lt := by decide } }

/-- A table with one row, of the first millisecond. -/
def oneCell (c : Cells) : Table := ({ path := "db" } : Table).put "a" 0 c

/-- A row from before a time, but of the same millisecond, is found by a query that starts with that
time, comes back with a time before the start, and is left by a cleanup by it. -/
theorem early_row_is_found :
    (∀ x ∈ earlyRow.snapshot.singles, x.isFinite = true) ∧
    (∀ x ∈ earlyRow.snapshot.doubles, x.isFinite = true) ∧
    earlyRow.timestamp < halfMilli ∧
    ∃ t n u r, Table.editAll { path := "db" } [.append [earlyRow]] = .ok t ∧
      t.range ⟨"a", halfMilli, oneSecond, none⟩ = .ok [r] ∧ r.timestamp < halfMilli ∧
      t.cleanup halfMilli = .ok (n, u) ∧ u.range ⟨"a", halfMilli, oneSecond, none⟩ = .ok [r] := by
  have hstorable : firstRow.Storable := ⟨by decide, by decide, by decide, by decide⟩
  have hback : firstRow.snapshot.ReadsBack :=
    (Snapshot.readsBack_iff _).mpr ⟨fun hleap => absurd hleap (by decide), by decide +kernel⟩
  have hread : Table.readAll "a" [(0, firstRow.cells)] = .ok [firstRow.withoutZeroSigns] := by
    have hall := Table.Mirrors.readAll_map_entry (List.forall_mem_singleton.mpr
      (rfl : firstRow.hostId = "a"))
    rw [List.mapM_cons, hstorable.stored_eq_iff.mpr hback] at hall
    exact hall
  have hone (c : Cells) : (oneCell c).range ⟨"a", halfMilli, oneSecond, none⟩ =
      Table.readAll "a" [(0, c)] := rfl
  have hedit : Table.editAll { path := "db" } [.append [earlyRow]] =
      .ok (oneCell firstRow.cells) := by
    have hcells : Cells.ofRow? earlyRow = .ok earlyRow.cells :=
      Row.ofRow?_eq_cells (by decide) (by decide)
    simp [Table.editAll, Table.edit, Table.append, hcells, bind, Except.bind, pure, Except.pure]
    -- cells do not hold the time, so those of the two rows are the same
    rfl
  have hrange := (hone firstRow.cells).trans hread
  have hrows : ∀ r ∈ [Edit.append [earlyRow]].flatMap Edit.rows, r.cpu ≠ .nan ∧ r.mem ≠ .nan := by
    decide
  obtain ⟨t, ht, hrecords⟩ := (Table.Records.empty "db").editAll hrows
  obtain rfl := Except.ok.inj (ht.symm.trans hedit)
  obtain ⟨n, u, hcleanup, hu⟩ := hrecords.cleanup halfMilli
  exact ⟨by decide +kernel, by decide +kernel, by decide, oneCell firstRow.cells, n, u,
    firstRow.withoutZeroSigns, hedit, hrange, by decide, hcleanup,
    (hrecords.range_cleanup hu (by decide)).trans hrange⟩

end History
end FleetWatch
