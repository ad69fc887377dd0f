import FleetWatch.Proofs.Dispatch.DeltaStream
import FleetWatch.Proofs.History.Mirroring

/-!
# Two backends

A memory and a table that are asked the same give the same answers, the rows of the table being
those of the memory as they come back from being stored. So the two agree, but for the signs of
zeros, exactly if every snapshot that a query finds is read back from its text.

## Main definitions

* `History.Call`, `History.Answer`, `Backend.call`, `Backend.answers`: calls and what they answer.
* `Memory.Admits`, `Memory.AdmitsAll`: calls that a memory has room for.
-/
namespace FleetWatch.History

open Time

/-! ## Calls -/

inductive Call where
  | append (rows : List Row)
  | cleanup (before : Instant)
  | range (q : Query)
  | latest (hostId : String) (limit : UInt64)

inductive Answer where
  | kept
  | deleted (n : Nat)
  | found (rows : List Row)
  | failed (e : HistoryError)

namespace Backend

def call (b : Backend) : Call → Answer × Backend
  | .append rows =>
    match b.append rows with
    | .ok b => (.kept, b)
    | .error e => (.failed e, b)
  | .cleanup before =>
    match b.cleanup before with
    | .ok (n, b) => (.deleted n, b)
    | .error e => (.failed e, b)
  | .range q =>
    match b.range q with
    | .ok rows => (.found rows, b)
    | .error e => (.failed e, b)
  | .latest hostId limit =>
    match b.latest hostId limit with
    | .ok rows => (.found rows, b)
    | .error e => (.failed e, b)

def answers (b : Backend) : List Call → List Answer
  | [] => []
  | c :: calls => (b.call c).1 :: (b.call c).2.answers calls

end Backend

namespace Answer

def rows : Answer → List Row
  | .found rows => rows
  | _ => []

def stored : Answer → Answer
  | .found rows =>
    match rows.mapM Row.stored with
    | .ok rows => .found rows
    | .error e => .failed e
  | a => a

/-- The answer with the zeros of its rows positive. -/
def withoutZeroSigns : Answer → Answer
  | .found rows => .found (rows.map Row.withoutZeroSigns)
  | a => a

end Answer

/-! ## What may be asked -/

namespace Memory

/-- A call within bounds of whole milliseconds, with rows that the memory takes. -/
def Admits (m : Memory) : Call → Prop
  | .append rows => m.Takes rows
  | .cleanup before => before.IsMillis
  | .range q => q.start.IsMillis ∧ q.stop.IsMillis
  | .latest _ _ => True

def after (m : Memory) : Call → Memory
  | .append rows => m.append rows
  | .cleanup before => (m.cleanup before).2
  | .range _ => m
  | .latest _ _ => m

/-- Calls that the memory admits in turn. -/
def AdmitsAll (m : Memory) : List Call → Prop
  | [] => True
  | c :: calls => m.Admits c ∧ (m.after c).AdmitsAll calls

end Memory

/-! ## Runs -/

namespace Backend

def ofMemory (m : Memory) : Backend := { store := .memory m }

def ofTable (t : Table) : Backend := { store := .table t }

end Backend

namespace Table.Mirrors
variable {t : Table} {m : Memory}

/-- One call: the table's answer is the memory's with the rows as they come back from being stored,
and the table mirrors the memory again. -/
theorem call (hm : t.Mirrors m) {c : Call} (hc : m.Admits c) :
    ((Backend.ofTable t).call c).1 = ((Backend.ofMemory m).call c).1.stored ∧
      ((Backend.ofMemory m).call c).2 = .ofMemory (m.after c) ∧
      ∃ u, ((Backend.ofTable t).call c).2 = .ofTable u ∧ u.Mirrors (m.after c) := by
  cases c with
  | append rows =>
    obtain ⟨u, hu, hmirrors⟩ := hm.append hc
    have htable : (Backend.ofTable t).append rows = .ok (.ofTable u) := by
      simp [Backend.append, Backend.withStore, Backend.ofTable, hu, bind, Except.bind, pure,
        Except.pure]
    have hcall : (Backend.ofTable t).call (.append rows) = (.kept, .ofTable u) := by
      rw [Backend.call, htable]
    rw [hcall]
    exact ⟨rfl, rfl, u, rfl, hmirrors⟩
  | cleanup before =>
    obtain ⟨u, hu, hmirrors⟩ := hm.cleanup hc
    have htable : (Backend.ofTable t).cleanup before = .ok ((m.cleanup before).1, .ofTable u) := by
      simp [Backend.cleanup, Backend.withStore, Backend.ofTable, hu, bind, Except.bind, pure,
        Except.pure]
    have hcall : (Backend.ofTable t).call (.cleanup before) =
        (.deleted (m.cleanup before).1, .ofTable u) := by
      rw [Backend.call, htable]
    rw [hcall]
    exact ⟨rfl, rfl, u, rfl, hmirrors⟩
  | range q =>
    have htable : (Backend.ofTable t).range q = (m.range q).mapM Row.stored :=
      hm.range hc.1 hc.2
    refine ⟨?_, rfl, t, ?_, hm⟩
    · change _ = Answer.stored (.found (m.range q))
      rw [Backend.call, htable, Answer.stored]
      cases (m.range q).mapM Row.stored <;> rfl
    · rw [Backend.call]
      split <;> rfl
  | latest hostId limit =>
    have htable : (Backend.ofTable t).latest hostId limit =
        (m.latest hostId limit).mapM Row.stored := hm.latest hostId limit
    refine ⟨?_, rfl, t, ?_, hm⟩
    · change _ = Answer.stored (.found (m.latest hostId limit))
      rw [Backend.call, htable, Answer.stored]
      cases (m.latest hostId limit).mapM Row.stored <;> rfl
    · rw [Backend.call]
      split <;> rfl

/-- What a call finds can be stored. -/
theorem storable_of_found (hm : t.Mirrors m) {c : Call} {r : Row}
    (hr : r ∈ ((Backend.ofMemory m).call c).1.rows) : r.Storable := by
  cases c with
  | append rows => cases hr
  | cleanup before => cases hr
  | range q =>
    have hmem : r ∈ m.range q := hr
    have hkept : r ∈ m.rowsOf q.hostId := by
      unfold Memory.range at hmem
      split at hmem
      · exact (List.mem_filter.mp (List.mem_of_mem_take hmem)).1
      · exact (List.mem_filter.mp hmem).1
    exact hm.storable _ r hkept
  | latest hostId limit => exact hm.storable hostId r (List.mem_of_mem_drop hr)

/-- All calls: the answers of the table are those of the memory with the rows as they come back. -/
theorem answers (hm : t.Mirrors m) {calls : List Call} (hcalls : m.AdmitsAll calls) :
    (Backend.ofTable t).answers calls =
      ((Backend.ofMemory m).answers calls).map Answer.stored ∧
      ∀ a ∈ (Backend.ofMemory m).answers calls, ∀ r ∈ a.rows, r.Storable := by
  induction calls generalizing t m with
  | nil => exact ⟨rfl, by simp [Backend.answers]⟩
  | cons c calls ih =>
    obtain ⟨hanswer, hmemory, u, hu, hmirrors⟩ := hm.call hcalls.1
    obtain ⟨hrest, hstorable⟩ := ih hmirrors hcalls.2
    rw [Backend.answers, Backend.answers, hmemory, hu, hanswer, hrest]
    refine ⟨rfl, fun a ha => ?_⟩
    obtain rfl | ha := List.mem_cons.mp ha
    · exact fun r hr => hm.storable_of_found hr
    · exact hstorable a ha

end Table.Mirrors

theorem mapM_eq_ok_map_iff {α β ε : Type} {f : α → Except ε β} {g : α → β} {l : List α} :
    l.mapM f = .ok (l.map g) ↔ ∀ a ∈ l, f a = .ok (g a) := by
  induction l with
  | nil => simp [pure, Except.pure]
  | cons a l ih =>
    rw [List.mapM_cons, List.map_cons, List.forall_mem_cons, ← ih]
    cases f a with
    | error e => simp [bind, Except.bind]
    | ok b => cases l.mapM f <;> simp [bind, Except.bind, pure, Except.pure]

namespace Answer

/-- Rows come back as they were, but for the signs of zeros, exactly if their snapshots are read
back from their texts. -/
theorem stored_eq_iff {a : Answer} (h : ∀ r ∈ a.rows, r.Storable) :
    a.stored = a.withoutZeroSigns ↔ ∀ r ∈ a.rows, r.snapshot.ReadsBack := by
  cases a with
  | found rows =>
    have hrows : rows.mapM Row.stored = .ok (rows.map Row.withoutZeroSigns) ↔
        ∀ r ∈ rows, r.snapshot.ReadsBack := by
      rw [mapM_eq_ok_map_iff]
      exact forall₂_congr fun r hr => (h r hr).stored_eq_iff
    change _ ↔ ∀ r ∈ rows, r.snapshot.ReadsBack
    rw [← hrows, stored, withoutZeroSigns]
    cases rows.mapM Row.stored <;> simp
  | kept => simp [stored, withoutZeroSigns, rows]
  | deleted n => simp [stored, withoutZeroSigns, rows]
  | failed e => simp [stored, withoutZeroSigns, rows]

end Answer

/-- The two backends, asked the same, answer the same, but for what storing makes of a row: all
deleted rows are counted alike, all queries find the same rows in the same order, whatever their
limits and bounds. And the answers agree, but for the signs of zeros, exactly if every snapshot that
a query finds is read back from its text. -/
theorem backends_agree_iff (path : String) (capacity : UInt64) (calls : List Call)
    (hcalls : (Memory.new capacity).AdmitsAll calls) :
    let table := (Backend.ofTable { path }).answers calls
    let memory := (Backend.ofMemory (.new capacity)).answers calls
    table = memory.map Answer.stored ∧
      (table = memory.map Answer.withoutZeroSigns ↔
        ∀ a ∈ memory, ∀ r ∈ a.rows, r.snapshot.ReadsBack) := by
  intro table memory
  obtain ⟨hstored, hstorable⟩ := (mirrors_empty path capacity).answers hcalls
  refine ⟨hstored, ?_⟩
  rw [show table = _ from hstored]
  rw [List.map_inj_left]
  exact forall₂_congr fun a ha => Answer.stored_eq_iff (hstorable a ha)

def oneSecond : Instant :=
  { Instant.epoch with second := 1, first_le := by decide, le_last := by decide }

/-- The row of a machine at the epoch. -/
def firstRow : Row := .ofSnapshot "a" .epoch (.ofUsage 10)

/-- A row with a rate beyond the signed words. -/
def secondRow : Row :=
  { Row.ofSnapshot "a" oneSecond (.ofUsage 20) with rxSpeed := 18446744073709551615 }

/-- Two rows, the first of which is dropped; then the last rows are asked for, as many as can be,
and those of a range that ends before it starts. -/
def watched : List Call :=
  [.append [firstRow, secondRow], .cleanup oneSecond, .latest "a" 18446744073709551615,
    .range ⟨"a", oneSecond, .epoch, none⟩]

theorem watched_agrees :
    (Backend.ofTable { path := "db" }).answers watched =
      [.kept, .deleted 1, .found [secondRow], .found []] := by
  have hmemory : (Backend.ofMemory (.new 2)).answers watched =
      [.kept, .deleted 1, .found [secondRow], .found []] := rfl
  have hfirst : firstRow.Storable := ⟨by decide, by decide, by decide, by decide⟩
  have hsecond : secondRow.Storable := ⟨by decide, by decide, by decide, by decide⟩
  have hadmits : (Memory.new 2).AdmitsAll watched :=
    ⟨⟨hfirst, by decide, by decide, hsecond, by decide, by decide, trivial⟩, hsecond.time, trivial,
      ⟨hsecond.time, hfirst.time⟩, trivial⟩
  have hback : secondRow.snapshot.ReadsBack :=
    (Snapshot.readsBack_iff _).mpr ⟨fun hleap => absurd hleap (by decide), by decide +kernel⟩
  have hagree := ((backends_agree_iff "db" 2 watched hadmits).2).mpr (by
    rw [hmemory]
    simpa [Answer.rows] using hback)
  rw [hagree, hmemory]
  rfl

/-- The milliseconds of a round trip, with as many digits as a 64-bit float has. -/
def latency : Double := .div (.ofNat 110671887388868173) (.ofNat 100000000000000000)

/-- The row of a machine that has measured a round trip. -/
def probedRow : Row :=
  .ofSnapshot "a" .epoch
    { Snapshot.ofUsage 10 with ping := some ⟨[⟨"b", "b", some latency, .zero false, "ok"⟩]⟩ }

/-- All floats of the row are finite, it is the only one and there is room for it; but it does not
come back from the table as it does from the memory. -/
theorem probed_row_differs :
    (∀ x ∈ probedRow.snapshot.singles, x.isFinite = true) ∧
      (∀ x ∈ probedRow.snapshot.doubles, x.isFinite = true) ∧
      (Memory.new 2).AdmitsAll [.append [probedRow], .latest "a" 1] ∧
      (Backend.ofMemory (.new 2)).answers [.append [probedRow], .latest "a" 1] =
        [.kept, .found [probedRow]] ∧
      (Backend.ofTable { path := "db" }).answers [.append [probedRow], .latest "a" 1] ≠
        [.kept, .found [probedRow.withoutZeroSigns]] := by
  have hstorable : probedRow.Storable := ⟨by decide, by decide, by decide, by decide⟩
  have hadmits : (Memory.new 2).AdmitsAll [.append [probedRow], .latest "a" 1] :=
    ⟨⟨hstorable, by decide, by decide, trivial⟩, trivial, trivial⟩
  have hmemory : (Backend.ofMemory (.new 2)).answers [.append [probedRow], .latest "a" 1] =
      [.kept, .found [probedRow]] := rfl
  refine ⟨by decide +kernel, by decide +kernel, hadmits, hmemory, fun hsame => ?_⟩
  have htable := ((mirrors_empty "db" 2).answers hadmits).1
  rw [hmemory, hsame] at htable
  have hanswer : Answer.stored (.found [probedRow]) = .withoutZeroSigns (.found [probedRow]) :=
    (List.cons.inj (List.cons.inj htable).2).1.symm
  have hback := (Answer.stored_eq_iff (a := .found [probedRow])
    (List.forall_mem_singleton.mpr hstorable)).mp hanswer probedRow List.mem_cons_self
  have hmeasured : latency ∈ probedRow.snapshot.doubles :=
    .tail _ (.tail _ (.tail _ (.head _)))
  have hlatency : latency.Survives := ((Snapshot.readsBack_iff _).mp hback).2.2 latency hmeasured
  exact absurd hlatency (by decide +kernel)

end FleetWatch.History
