import FleetWatch.Proofs.Dispatch.Exactness
import FleetWatch.Proofs.Time.Elapsed

/-!
# Hosts that fall silent

As long as no snapshot arrives, ticks find one thing only: that a host has gone offline. This is
told once, by the first delta that is taken after the threshold has passed, and never taken back. It
takes a clock that does not show leap seconds: the time since an arrival is shorter after a leap
second than in it, and a host can be online again then.

## Main definitions

* `Handoff.hasRoom`: a delta would be taken.
* `LiveEntry.IsOverdue`: the threshold has passed since the arrival of an entry.
* `Reconciler.Awaits`: nothing but the end of hosts is left to be told.
* `Silence`: a run of ticks during which no snapshot arrives.
-/
namespace FleetWatch

def Handoff.hasRoom (q : Handoff) : Bool :=
  q.isOpen && decide (q.queue.waiting.length < q.queue.capacity)

theorem Handoff.isSome_offer? (q : Handoff) (m : Message.ToDashboard) :
    (q.offer? m).isSome = q.hasRoom := by
  unfold offer? hasRoom Queue.Bounded.offer?
  cases q.isOpen with
  | false => rfl
  | true => by_cases h : q.queue.waiting.length < q.queue.capacity <;> simp [h]

def DeltaRecord.offline (hostId : String) : DeltaRecord := ⟨hostId, some false, .empty⟩

namespace LiveEntry

/-- The threshold has passed since the arrival of an entry. -/
def IsOverdue (e : LiveEntry) (now : Time.Instant) (threshold : Time.Span) : Prop :=
  e.receivedAt.nanos + threshold.nanos ≤ now.nanos

instance (e : LiveEntry) (now : Time.Instant) (threshold : Time.Span) :
    Decidable (e.IsOverdue now threshold) := inferInstanceAs (Decidable (_ ≤ _))

variable {e : LiveEntry} {now later : Time.Instant} {threshold : Time.Span}

/-- A host is online until the threshold has passed. -/
theorem isOnline_iff (hreceived : e.receivedAt.isLeap = false) (hnow : now.isLeap = false) :
    e.isOnline now threshold = true ↔ ¬ e.IsOverdue now threshold := by
  rw [isOnline, Time.Instant.isFresh_iff hreceived hnow, IsOverdue, Int.not_le]

theorem IsOverdue.mono (h : e.IsOverdue now threshold) (hnow : now.isLeap = false)
    (hle : now ≤ later) : e.IsOverdue later threshold :=
  Int.le_trans h (Time.Instant.nanos_le_of_le hnow hle)

end LiveEntry

/-- No snapshot arrived in a leap second. -/
def Entries.LeapFree (entries : Entries) : Prop :=
  ∀ (h : String) (e : LiveEntry), entries[h]? = some e → e.receivedAt.isLeap = false

/-- What is known of a state are its fields and its online flag. -/
theorem SentState.field_eq_some_iff {s : SentState} {i : Item} {v : i.Value} :
    s.compact.field i = some v ↔ i ≠ .online ∧ s.known.item i = some v := by
  cases i <;> simp [Compact.field, Known.item, known]

namespace Reconciler

def sentOnline (r : Reconciler) (hostId : String) : Bool :=
  (r.lastSent? hostId).any SentState.online

/-- Every host was sent with the fields that it has, and as online unless the threshold has
passed. -/
def Awaits (r : Reconciler) (entries : Entries) (now : Time.Instant) (threshold : Time.Span) :
    Prop :=
  ∀ h e, entries[h]? = some e → ∃ s, r.lastSent? h = some s ∧
    (∀ i v, e.snapshot.compact.field i = some v → s.compact.field i = some v) ∧
    (¬ e.IsOverdue now threshold → s.online = true)

variable {r : Reconciler} {entries : Entries} {now later : Time.Instant} {threshold : Time.Span}
  {h : String} {e : LiveEntry}

theorem Awaits.mono (ha : r.Awaits entries now threshold) (hnow : now.isLeap = false)
    (hle : now ≤ later) : r.Awaits entries later threshold := by
  intro h e he
  obtain ⟨s, hs, hfields, honline⟩ := ha h e he
  exact ⟨s, hs, hfields, fun hnot => honline fun hover => hnot (hover.mono hnow hle)⟩

/-- What was committed of all hosts leaves nothing to be told but their end. -/
theorem Awaits.of_covers (hc : r.Covers entries now threshold)
    (hreceived : entries.LeapFree)
    (hnow : now.isLeap = false) : r.Awaits entries now threshold := by
  intro h e he
  have honline := hc h e he .online (e.isOnline now threshold) rfl
  obtain ⟨s, hs, hflag⟩ := Option.bind_eq_some_iff.mp honline
  have hsame : s.online = e.isOnline now threshold := Option.some.inj hflag
  refine ⟨s, hs, fun i v hv => ?_, fun hnot => ?_⟩
  · obtain ⟨hfield, hknown⟩ :=
      (SentState.field_eq_some_iff (s := e.sentState now threshold)).mp hv
    have hitem := hc h e he i v hknown
    rw [item, hs, Option.bind_some] at hitem
    exact SentState.field_eq_some_iff.mpr ⟨hfield, hitem⟩
  · rw [hsame, LiveEntry.isOnline_iff (hreceived h e he) hnow]
    exact hnot

/-- The change of a silent host: it has gone offline. -/
theorem Awaits.changeOf?_eq (ha : r.Awaits entries now threshold)
    (hreceived : e.receivedAt.isLeap = false) (hnow : now.isLeap = false)
    (he : entries[h]? = some e) :
    r.changeOf? entries now threshold h =
      if r.sentOnline h = true ∧ e.IsOverdue now threshold then
        some ⟨.offline h, e.sentState now threshold⟩
      else none := by
  obtain ⟨s, hs, hfields, hflag⟩ := ha h e he
  have hiff : e.isOnline now threshold = true ↔ ¬ e.IsOverdue now threshold :=
    LiveEntry.isOnline_iff hreceived hnow
  have hdiff : Compact.diff s.compact e.snapshot.compact = .empty := by
    rw [Compact.eq_empty_iff]
    intro i
    rw [Option.eq_none_iff_forall_ne_some]
    intro v hv
    obtain ⟨hv, hne⟩ := Compact.field_diff_eq_some_iff.mp hv
    exact hne (hfields i v hv)
  have hchange : r.changeOf? entries now threshold h =
      if s.online = e.isOnline now threshold then none
      else some ⟨⟨h, some (e.isOnline now threshold), .empty⟩, e.sentState now threshold⟩ := by
    by_cases hsame : s.online = e.isOnline now threshold <;>
      simp [changeOf?, he, hs, change?, LiveEntry.sentState, hdiff, hsame]
  rw [hchange, sentOnline, hs, Option.any_some]
  by_cases hover : e.IsOverdue now threshold
  · have hoffline : e.isOnline now threshold = false := by
      simpa [hover] using hiff
    cases hsent : s.online <;> simp [hoffline, hover, DeltaRecord.offline]
  · simp [hiff.mpr hover, hover, hflag hover]

/-- Everything that is found is that a host has gone offline. -/
theorem Awaits.record_eq (ha : r.Awaits entries now threshold)
    (hreceived : entries.LeapFree)
    (hnow : now.isLeap = false) {c : Change} (hc : c ∈ r.reconcile entries now threshold) :
    c.record = .offline c.record.id ∧ ∃ e, entries[c.record.id]? = some e ∧
      e.IsOverdue now threshold := by
  obtain ⟨e, he, -⟩ := exists_of_mem_reconcile hc
  have hchange := (r.mem_reconcile_iff entries now threshold).mp hc
  rw [ha.changeOf?_eq (hreceived _ e he) hnow he] at hchange
  obtain ⟨⟨-, hover⟩, hsome⟩ := Option.ite_none_right_eq_some.mp hchange
  exact ⟨congrArg Change.record (Option.some.inj hsome).symm, e, he, hover⟩

/-- A commit of what is found leaves the rest to be told. -/
theorem Awaits.commit (ha : r.Awaits entries now threshold)
    (hreceived : entries.LeapFree)
    (hnow : now.isLeap = false) :
    (r.commit (r.reconcile entries now threshold)).Awaits entries now threshold := by
  intro h e he
  rw [lastSent?_commit_reconcile, ← changeOf?, ha.changeOf?_eq (hreceived h e he) hnow he]
  split
  · next htold =>
    exact ⟨e.sentState now threshold, rfl, fun _ _ hv => hv, fun hnot => absurd htold.2 hnot⟩
  · exact ha h e he

/-- Once its end is committed a host counts as offline. -/
theorem Awaits.sentOnline_commit (ha : r.Awaits entries now threshold)
    (hreceived : e.receivedAt.isLeap = false) (hnow : now.isLeap = false)
    (he : entries[h]? = some e) :
    (r.commit (r.reconcile entries now threshold)).sentOnline h =
      (r.sentOnline h && !decide (e.IsOverdue now threshold)) := by
  rw [sentOnline, lastSent?_commit_reconcile, ← changeOf?, ha.changeOf?_eq hreceived hnow he]
  by_cases hover : e.IsOverdue now threshold
  · have hoffline : e.isOnline now threshold = false :=
      Bool.eq_false_iff.mpr fun h => (LiveEntry.isOnline_iff hreceived hnow).mp h hover
    cases hsent : r.sentOnline h with
    | true => simp [hover, LiveEntry.sentState, hoffline]
    | false => simpa [hover, sentOnline] using hsent
  · simp [hover, sentOnline]

end Reconciler

/-! ## Ticks -/

namespace Dispatcher

def recordsOf (ms : List Message.ToDashboard) (hostId : String) : List DeltaRecord :=
  (ms.flatMap Message.ToDashboard.records).filter fun r => r.id = hostId

@[simp] theorem recordsOf_nil (h : String) : recordsOf [] h = [] := rfl

@[simp] theorem recordsOf_append (ms ns : List Message.ToDashboard) (h : String) :
    recordsOf (ms ++ ns) h = recordsOf ms h ++ recordsOf ns h := by
  simp [recordsOf]

theorem stream_cons (d : Dispatcher) (o : Occasion) (os : List Occasion) :
    d.stream (o :: os) =
      ((d.tickOn o).2.1 ++ ((d.tickOn o).2.2.stream os).1, ((d.tickOn o).2.2.stream os).2) := rfl

/-- What a tick finds is handed over and committed exactly when there is room. -/
theorem tickOn_eq (d : Dispatcher) (o : Occasion) :
    let changes :=
      d.reconciler.reconcile o.hub.entries o.now o.hub.settings.onlineThreshold
    (d.tickOn o).2.1.flatMap Message.ToDashboard.records =
        (if o.handoff.hasRoom then changes.map Change.record else []) ∧
      (d.tickOn o).2.2.reconciler =
        if o.handoff.hasRoom then d.reconciler.commit changes else d.reconciler := by
  dsimp only
  rcases tick_cases { d with handoff := o.handoff } o.hub o.now with
    ⟨hnone, htick⟩ | ⟨-, hoffer, htick⟩ | ⟨-, handoff, hoffer, htick⟩
  · dsimp only at hnone
    simp [tickOn, htick, hnone, Reconciler.commit]
  · have hroom := o.handoff.isSome_offer? (delta (o.hub.seq + 1) o.now
      (d.reconciler.reconcile o.hub.entries o.now o.hub.settings.onlineThreshold))
    rw [hoffer] at hroom
    simp [tickOn, htick, ← hroom]
  · have hroom := o.handoff.isSome_offer? (delta (o.hub.seq + 1) o.now
      (d.reconciler.reconcile o.hub.entries o.now o.hub.settings.onlineThreshold))
    rw [hoffer] at hroom
    simp [tickOn, htick, ← hroom, Handoff.waiting_of_offer? hoffer]

theorem recordsOf_tickOn (d : Dispatcher) (o : Occasion) (h : String) :
    recordsOf (d.tickOn o).2.1 h =
      if o.handoff.hasRoom then
        (d.reconciler.changeOf? o.hub.entries o.now o.hub.settings.onlineThreshold h).toList.map
          Change.record
      else [] := by
  rw [recordsOf, (tickOn_eq d o).1]
  split
  · rw [List.filter_map, Reconciler.changeOf?, ← Reconciler.filter_reconcile]
    rfl
  · rfl

end Dispatcher

/-- A run of ticks, after some start, during which no snapshot arrives and the clock goes on without
leap seconds. -/
structure Silence (entries : Entries) (threshold : Time.Span) (start : Time.Instant)
    (os : List Occasion) : Prop where
  same : ∀ o ∈ os, o.hub.entries = entries ∧ o.hub.settings.onlineThreshold = threshold
  ordered : (start :: os.map Occasion.now).Pairwise (· ≤ ·)
  regular : ∀ t ∈ start :: os.map Occasion.now, t.isLeap = false
  received : entries.LeapFree

/-- The end of a host is told at a tick, if it has not been told yet. -/
def Occasion.TellsEnd (o : Occasion) (e : LiveEntry) (threshold : Time.Span) : Prop :=
  e.IsOverdue o.now threshold ∧ o.handoff.hasRoom = true

instance (o : Occasion) (e : LiveEntry) (threshold : Time.Span) :
    Decidable (o.TellsEnd e threshold) := inferInstanceAs (Decidable (_ ∧ _))

namespace Silence

open Dispatcher

variable {entries : Entries} {threshold : Time.Span} {start : Time.Instant} {o : Occasion}
  {os : List Occasion} {d : Dispatcher} {h : String} {e : LiveEntry}

theorem tail (hs : Silence entries threshold start (o :: os)) :
    Silence entries threshold o.now os where
  same p hp := hs.same p (List.mem_cons_of_mem o hp)
  ordered := hs.ordered.of_cons
  regular t ht := hs.regular t (List.mem_cons_of_mem start ht)
  received := hs.received

theorem head_le (hs : Silence entries threshold start (o :: os)) : start ≤ o.now :=
  (List.pairwise_cons.mp hs.ordered).1 _ List.mem_cons_self

/-- At the first tick, too, nothing but the end of hosts is left to be told. -/
theorem awaits_head (hs : Silence entries threshold start (o :: os))
    (ha : d.reconciler.Awaits entries start threshold) :
    d.reconciler.Awaits entries o.now threshold :=
  ha.mono (hs.regular start List.mem_cons_self) hs.head_le

theorem regular_head (hs : Silence entries threshold start (o :: os)) : o.now.isLeap = false :=
  hs.regular o.now (List.mem_cons_of_mem start List.mem_cons_self)

/-- And so after that tick. -/
theorem awaits_tickOn (hs : Silence entries threshold start (o :: os))
    (ha : d.reconciler.Awaits entries start threshold) :
    (d.tickOn o).2.2.reconciler.Awaits entries o.now threshold := by
  have hhead := hs.awaits_head ha
  obtain ⟨hentries, hthreshold⟩ := hs.same o List.mem_cons_self
  rw [(tickOn_eq d o).2, hentries, hthreshold]
  split
  · exact hhead.commit hs.received hs.regular_head
  · exact hhead

theorem sentOnline_tickOn (hs : Silence entries threshold start (o :: os))
    (ha : d.reconciler.Awaits entries start threshold) (he : entries[h]? = some e) :
    (d.tickOn o).2.2.reconciler.sentOnline h =
      (d.reconciler.sentOnline h && !decide (o.TellsEnd e threshold)) := by
  obtain ⟨hentries, hthreshold⟩ := hs.same o List.mem_cons_self
  rw [(tickOn_eq d o).2, hentries, hthreshold]
  cases hroom : o.handoff.hasRoom with
  | true =>
    simp [(hs.awaits_head ha).sentOnline_commit (hs.received h e he) hs.regular_head he,
      Occasion.TellsEnd, hroom]
  | false => simp [Occasion.TellsEnd, hroom]

/-- A tick tells the end of a host that was last sent as online. -/
theorem recordsOf_head (hs : Silence entries threshold start (o :: os))
    (ha : d.reconciler.Awaits entries start threshold) (he : entries[h]? = some e) :
    recordsOf (d.tickOn o).2.1 h =
      if d.reconciler.sentOnline h = true ∧ o.TellsEnd e threshold then [.offline h] else [] := by
  obtain ⟨hentries, hthreshold⟩ := hs.same o List.mem_cons_self
  rw [recordsOf_tickOn, hentries, hthreshold,
    (hs.awaits_head ha).changeOf?_eq (hs.received h e he) hs.regular_head he]
  cases hroom : o.handoff.hasRoom with
  | true =>
    by_cases htold : d.reconciler.sentOnline h = true ∧ e.IsOverdue o.now threshold <;>
      simp [htold, Occasion.TellsEnd, hroom]
  | false => simp [Occasion.TellsEnd, hroom]

/-- After some ticks a host still counts as online unless one of them told its end. -/
theorem run (hs : Silence entries threshold start os)
    (ha : d.reconciler.Awaits entries start threshold) {before after : List Occasion}
    (hos : os = before ++ after) :
    ∃ now, Silence entries threshold now after ∧
      (d.stream before).2.reconciler.Awaits entries now threshold ∧
      ∀ h e, entries[h]? = some e →
        ((d.stream before).2.reconciler.sentOnline h = true ↔
          d.reconciler.sentOnline h = true ∧ ∀ p ∈ before, ¬ p.TellsEnd e threshold) := by
  subst hos
  induction before generalizing d start with
  | nil => exact ⟨start, hs, ha, fun h e he => by simp [stream]⟩
  | cons p before ih =>
    obtain ⟨now, hsilence, hawaits, hsent⟩ := ih (hs.awaits_tickOn ha) hs.tail
    refine ⟨now, hsilence, hawaits, fun h e he => ?_⟩
    rw [stream_cons, hsent h e he, hs.sentOnline_tickOn ha he]
    simp [and_assoc]

/-- All that a run tells of a host is its end, and that once. -/
theorem recordsOf_stream (hs : Silence entries threshold start os)
    (ha : d.reconciler.Awaits entries start threshold) (he : entries[h]? = some e) :
    recordsOf (d.stream os).1 h =
      if d.reconciler.sentOnline h = true ∧ ∃ o ∈ os, o.TellsEnd e threshold then [.offline h]
      else [] := by
  induction os generalizing d start with
  | nil => simp [stream]
  | cons o os ih =>
    rw [stream_cons, recordsOf_append, hs.recordsOf_head ha he,
      ih hs.tail (hs.awaits_tickOn ha), hs.sentOnline_tickOn ha he]
    by_cases htold : o.TellsEnd e threshold <;> cases d.reconciler.sentOnline h <;> simp [htold]

/-- Nothing is told of other hosts. -/
theorem recordsOf_stream_of_none (hs : Silence entries threshold start os)
    (ha : d.reconciler.Awaits entries start threshold) (he : entries[h]? = none) :
    recordsOf (d.stream os).1 h = [] := by
  induction os generalizing d start with
  | nil => rfl
  | cons o os ih =>
    obtain ⟨hentries, -⟩ := hs.same o List.mem_cons_self
    rw [stream_cons, recordsOf_append, ih hs.tail (hs.awaits_tickOn ha), recordsOf_tickOn, hentries,
      Reconciler.changeOf?, he]
    simp

/-- As long as no snapshot arrives, all that ticks find is that a host has gone offline, and only
after the threshold has passed, whether the delta is taken or not. The end of a host is handed over
by the first delta that is taken after that, if the host was last sent as online, and by no other:
it is told at most once. A host that was sent as offline stays so. -/
theorem ends_are_told_once {entries : Entries} {threshold : Time.Span} {start : Time.Instant}
    {os : List Occasion} {d : Dispatcher} (hs : Silence entries threshold start os)
    (hc : d.reconciler.Covers entries start threshold) :
    (∀ before o after, os = before ++ o :: after →
      let at_ := (d.stream before).2
      let found := at_.reconciler.reconcile o.hub.entries o.now o.hub.settings.onlineThreshold
      (∀ c ∈ found, c.record = .offline c.record.id ∧
        ∃ e, entries[c.record.id]? = some e ∧ e.IsOverdue o.now threshold) ∧
      ∀ h e, entries[h]? = some e →
        recordsOf (at_.tickOn o).2.1 h =
          if e.isOnline start threshold = true ∧ o.TellsEnd e threshold ∧
              ∀ p ∈ before, ¬ p.TellsEnd e threshold then [.offline h]
          else []) ∧
    (∀ h, (recordsOf (d.stream os).1 h).length ≤ 1) ∧
    ∀ h e, entries[h]? = some e →
      ((d.stream os).2.reconciler.sentOnline h = true ↔
        e.isOnline start threshold = true ∧ ∀ o ∈ os, ¬ o.TellsEnd e threshold) := by
  have hstart : start.isLeap = false := hs.regular start List.mem_cons_self
  have ha : d.reconciler.Awaits entries start threshold := .of_covers hc hs.received hstart
  have hsent : ∀ h e, entries[h]? = some e →
      d.reconciler.sentOnline h = e.isOnline start threshold := by
    intro h e he
    obtain ⟨s, hlast, hflag⟩ := Option.bind_eq_some_iff.mp
      (hc h e he .online (e.isOnline start threshold) rfl)
    rw [Reconciler.sentOnline, hlast]
    exact Option.some.inj hflag
  refine ⟨?_, fun h => ?_, fun h e he => ?_⟩
  · rintro before o after hos
    obtain ⟨now, hsilence, hawaits, hcount⟩ := hs.run ha hos
    obtain ⟨hentries, hthreshold⟩ := hsilence.same o List.mem_cons_self
    refine ⟨fun c hmem => ?_, fun h e he => ?_⟩
    · rw [hentries, hthreshold] at hmem
      exact (hsilence.awaits_head hawaits).record_eq hs.received hsilence.regular_head hmem
    · rw [hsilence.recordsOf_head hawaits he]
      simp only [hcount h e he, hsent h e he]
      grind
  · cases he : entries[h]? with
    | some e =>
      rw [hs.recordsOf_stream ha he]
      split <;> simp
    | none =>
      rw [hs.recordsOf_stream_of_none ha he]
      exact Nat.zero_le 1
  · obtain ⟨-, -, -, hcount⟩ := hs.run ha (os.append_nil).symm
    rw [hcount h e he, hsent h e he]

/-! ## Runs of one host -/

/-- A tick with one host whose snapshot has arrived, and a queue that is open or closed. -/
def tickAfter (arrived now : Time.Instant) (isOpen : Bool) : Occasion where
  hub :=
    { settings := .small
      directory := {}
      live := ({} : LiveStore).put "a" (.ofUsage 10) arrived }
  now
  handoff := { Handoff.start 1 with isOpen }

/-- The entry of that host. -/
def arrival (arrived : Time.Instant) : Entries := (tickAfter arrived arrived true).hub.entries

/-- A dispatcher that has told the dashboards of that host. -/
def informed (arrived : Time.Instant) : Dispatcher where
  reconciler := ({} : Reconciler).commit
    (({} : Reconciler).reconcile (arrival arrived) arrived (.ofSeconds 5))

theorem getElem?_arrival {arrived : Time.Instant} (h : String) :
    (arrival arrived)[h]? = if "a" = h then some ⟨"a", .ofUsage 10, arrived⟩ else none := by
  have hget := LiveStore.get?_put {} "a" h (.ofUsage 10) arrived
  rw [LiveStore.get?] at hget
  exact hget

theorem leapFree_arrival {arrived : Time.Instant} (harrived : arrived.isLeap = false) :
    (arrival arrived).LeapFree := by
  intro h e he
  rw [getElem?_arrival] at he
  obtain ⟨-, hsome⟩ := Option.ite_none_right_eq_some.mp he
  exact Option.some.inj hsome ▸ harrived

theorem covers_informed (arrived : Time.Instant) :
    (informed arrived).reconciler.Covers (arrival arrived) arrived (.ofSeconds 5) :=
  Reconciler.covers_commit {} (arrival arrived) arrived (.ofSeconds 5)

/-- A second of the first minute. -/
def early (second : Fin 60) : Time.Instant :=
  { Time.Instant.epoch with
    second := (second : Nat)
    first_le := Int.le_trans (by decide) (Int.natCast_nonneg second)
    le_last := Int.le_trans (Int.ofNat_le.mpr (Nat.le_of_lt second.isLt)) (by decide) }

/-- Ticks before the threshold, at it while nothing is taken, and twice after it. -/
def silentTicks : List Occasion :=
  [tickAfter .epoch (early 4) true, tickAfter .epoch (early 5) false,
    tickAfter .epoch (early 6) true, tickAfter .epoch (early 6) true]

/-- The end of the host is found when the threshold is reached, but not taken; it is told by the
next delta and not again. -/
theorem end_is_told_later :
    Silence (arrival .epoch) (.ofSeconds 5) .epoch silentTicks ∧
    (informed .epoch).reconciler.Covers (arrival .epoch) .epoch (.ofSeconds 5) ∧
    recordsOf (((informed .epoch).stream (silentTicks.take 2)).2.tickOn
      (tickAfter .epoch (early 6) true)).2.1 "a" = [.offline "a"] ∧
    (recordsOf ((informed .epoch).stream silentTicks).1 "a").length ≤ 1 := by
  have hs : Silence (arrival .epoch) (.ofSeconds 5) .epoch silentTicks := by
    refine ⟨?_, by decide, by decide, leapFree_arrival rfl⟩
    intro o ho
    simp only [silentTicks, List.mem_cons, List.not_mem_nil, or_false] at ho
    obtain rfl | rfl | rfl | rfl := ho <;> exact ⟨rfl, rfl⟩
  obtain ⟨htick, honce, -⟩ := ends_are_told_once hs (covers_informed .epoch)
  obtain ⟨-, htold⟩ := htick (silentTicks.take 2) (tickAfter .epoch (early 6) true)
    [tickAfter .epoch (early 6) true] rfl
  refine ⟨hs, covers_informed .epoch, ?_, honce "a"⟩
  rw [htold "a" ⟨"a", .ofUsage 10, .epoch⟩ (getElem?_arrival "a")]
  decide

/-- Shortly before the end of a day, in the leap second after it, and on the next day. -/
def lateArrival : Time.Instant := ⟨86395, 500000000, by decide, by decide, by decide⟩
@[inherit_doc lateArrival]
def leapSecond : Time.Instant := ⟨86399, 1600000000, by decide, by decide, by decide⟩
@[inherit_doc lateArrival]
def nextDay : Time.Instant := ⟨86400, 200000000, by decide, by decide, by decide⟩

/-- A clock that shows a leap second takes the end of a host back: in the leap second more time has
passed since the arrival than shortly after it. -/
theorem leap_second_brings_back :
    let ticks := [tickAfter lateArrival leapSecond true, tickAfter lateArrival nextDay true]
    lateArrival ≤ leapSecond ∧ leapSecond ≤ nextDay ∧ (arrival lateArrival).LeapFree ∧
    (informed lateArrival).reconciler.Covers (arrival lateArrival) lateArrival (.ofSeconds 5) ∧
    recordsOf ((informed lateArrival).stream ticks).1 "a" =
      [.offline "a", ⟨"a", some true, .empty⟩] := by
  refine ⟨by decide, by decide, leapFree_arrival (by decide), covers_informed lateArrival, ?_⟩
  decide

end Silence

end FleetWatch
