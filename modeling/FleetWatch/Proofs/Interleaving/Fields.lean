import FleetWatch.Proofs.Dashboard.FullView
import FleetWatch.Proofs.Interleaving.Convergence

/-!
# What an overlaid picture still shows

A delta tells items and takes none back. So a dashboard that has been queued all deltas of a host
shows every item that the host has now, with its value, and of what the host no longer has the disk
alone: all other items are in every snapshot.

## Main definitions

* `IsUntold`: no message has a record of a host.
-/
namespace FleetWatch

/-- No message has a record of the host. -/
def IsUntold (ms : List Message.ToDashboard) (hostId : String) : Prop :=
  ∀ m ∈ ms, ∀ r ∈ m.records, r.id ≠ hostId

instance (ms : List Message.ToDashboard) (hostId : String) : Decidable (IsUntold ms hostId) :=
  inferInstanceAs (Decidable (∀ m ∈ ms, ∀ r ∈ m.records, r.id ≠ hostId))

/-- Of a host without records nothing is told. -/
theorem IsUntold.not_tells {ms : List Message.ToDashboard} {hostId : String}
    (h : IsUntold ms hostId) (i : Item) : ¬ Tells ms hostId i := by
  rintro ⟨m, hm, r, hr, hid, -⟩
  exact h m hm r hr hid

namespace Picture

/-- Messages before the first record of a host make no difference to what is told of it. -/
theorem item_replay_append_of_isUntold {before : List Message.ToDashboard} {hostId : String}
    (h : IsUntold before hostId) (ms : List Message.ToDashboard) (i : Item) :
    (replay {} (before ++ ms)).item hostId i = (replay {} ms).item hostId i := by
  have hbefore : (replay {} before).item hostId i = none :=
    (item_replay_of_not_tells {} (h.not_tells i)).trans (item_empty hostId i)
  rw [replay_append, item_replay, hbefore, Option.or_none]

/-- Laying messages over a picture takes nothing away. -/
theorem isSome_item_replay_iff (p : Picture) (ms : List Message.ToDashboard) (hostId : String)
    (i : Item) :
    ((p.replay ms).item hostId i).isSome ↔ Tells ms hostId i ∨ (p.item hostId i).isSome := by
  rw [item_replay, Option.isSome_or, Bool.or_eq_true, isSome_item_replay]

end Picture

/-- All items but the disk are in every snapshot. -/
theorem item_known_eq_none_iff (e : LiveEntry) (now : Time.Instant) (threshold : Time.Span)
    (i : Item) :
    (e.sentState now threshold).known.item i = none ↔ i = .disk ∧ e.snapshot.disks = [] := by
  cases i <;> simp [LiveEntry.sentState, SentState.known, Known.item, Snapshot.compact]

/-- The view of an entry tells the items that are sent of it. -/
theorem ServerView.Shows.known_eq {v : ServerView} {e : LiveEntry} {now : Time.Instant}
    {threshold : Time.Span} (h : v.Shows e now threshold) :
    v.known = (e.sentState now threshold).known := by
  obtain ⟨-, hmetrics, honline⟩ := h
  simp [ServerView.known, SentState.known, LiveEntry.sentState, hmetrics, honline]

namespace Interleaving

open Dashboard

namespace Invariant
variable {s : System}

/-- The entry of a host is one of that host. -/
theorem hostId_of_entry (h : Invariant s) {hostId : String} {e : LiveEntry}
    (he : s.hub.entries[hostId]? = some e) : e.hostId = hostId := by
  let all : Reading := ⟨s.log.length, s.log.length⟩
  have hentries : all.entries s.log = s.hub.entries := by
    rw [Reading.entries, List.take_length, ← h.recorded.live, ← h.recorded.own]
    rfl
  rw [← hentries, all.getElem?_entries h.recorded.owned, Option.bind_eq_some_iff] at he
  obtain ⟨i, hi, hentry⟩ := he
  obtain ⟨w, hw, hid⟩ := Reading.exists_of_source hi
  rw [entryAt, hw] at hentry
  exact Option.some.inj hentry ▸ hid

/-- A dashboard that has been queued all deltas of a host shows the items that the host has. -/
theorem item_of_untold (h : Invariant s) {now : Time.Instant} {reading : Reading}
    (hlast : s.lastTick = some (now, reading)) (hcurrent : reading.IsCurrent s.log)
    (hdrained : s.IsDrained) {id : Id} {a : Attachment} (ha : s.attachments[id]? = some a)
    (hreg : s.hub.dashboards.isRegistered id) {hostId : String} {e : LiveEntry}
    (he : s.hub.entries[hostId]? = some e)
    (huntold : IsUntold ((s.deltas.map Delta.message).take a.since) hostId) (p : Picture)
    {i : Item} {v : i.Value} (hv : (e.sentState now s.threshold).known.item i = some v) :
    (p.replay a.queued).item hostId i = some v := by
  have hall := h.item_replay_deltas hlast hcurrent he hv
  have hsplit : s.deltas.map Delta.message =
      (s.deltas.map Delta.message).take a.since ++ a.queued := by
    rw [h.queued_eq_drop hdrained ha hreg, List.take_append_drop]
  rw [hsplit, Picture.item_replay_append_of_isUntold huntold] at hall
  rw [Picture.item_replay, hall, Option.some_or]

end Invariant

/-- When the last tick that found nothing or handed its delta over has read what is there now, and
its delta has been broadcast, a registered dashboard that has been queued every delta of a host
shows, with what it has received and what waits for it, every item of the host's current snapshot,
with its value. It shows no item that the snapshot lacks, except the disk, and that exactly when a
delta that it was queued told one or its full view showed one. A dashboard that attaches now is
shown the items of the snapshot; so both show the same items exactly when the snapshot has a disk or
the first dashboard was never told nor shown one. -/
theorem shows_current_items_and_lost_disk (machine : String) (settings : Settings)
    (directory : Directory) (capacity : Nat) (actions : List Action) :
    let s := (System.start machine settings directory capacity).run actions
    ∀ now reading, s.lastTick = some (now, reading) → reading.IsCurrent s.log → s.IsDrained →
      ∀ id a views, s.attachments[id]? = some a → a.stage.views? = some views →
        s.hub.dashboards.isRegistered id →
        (∀ w, s.hub.dashboards.waiting? id = some w → a.received ++ w = a.queued) ∧
        ∀ (hostId : String) (e : LiveEntry), s.hub.entries[hostId]? = some e →
          IsUntold ((s.deltas.map Delta.message).take a.since) hostId →
          let known := (e.sentState now s.threshold).known
          let shown := (Picture.ofViews views).replay a.queued
          let hadDisk := Tells a.queued hostId .disk ∨
            ((Picture.ofViews views).item hostId .disk).isSome
          (∀ i v, known.item i = some v → shown.item hostId i = some v) ∧
          (∀ i, known.item i = none →
            ((shown.item hostId i).isSome ↔ i = .disk ∧ hadDisk)) ∧
          ∀ profiles clock, ∃ fresh ∈ allViews s.hub.settings profiles s.hub.entries clock,
            fresh.Shows e clock s.threshold ∧
            ((∀ i, (shown.item hostId i).isSome = (fresh.known.item i).isSome) ↔
              e.snapshot.disks ≠ [] ∨ ¬ hadDisk) := by
  intro s now reading hlast hcurrent hdrained id a views ha _ hreg
  have h : Invariant s := invariant_run machine settings directory capacity actions
  refine ⟨fun w hw => h.received_append_waiting ha hw, fun hostId e he huntold => ?_⟩
  intro known shown hadDisk
  have hpresent : ∀ i v, known.item i = some v → shown.item hostId i = some v := fun i v hv =>
    h.item_of_untold hlast hcurrent hdrained ha hreg he huntold _ hv
  have hdisk : (shown.item hostId .disk).isSome ↔ hadDisk :=
    Picture.isSome_item_replay_iff _ _ hostId .disk
  have hlost : ∀ i, known.item i = none →
      ((shown.item hostId i).isSome ↔ i = .disk ∧ hadDisk) := by
    intro i hi
    obtain ⟨rfl, -⟩ := (item_known_eq_none_iff e now s.threshold i).mp hi
    rw [hdisk]
    simp only [true_and]
  refine ⟨hpresent, hlost, fun profiles clock => ?_⟩
  obtain ⟨fresh, hfresh, hshows⟩ :=
    exists_mem_allViews he (h.hostId_of_entry he) s.hub.settings profiles clock
  have hhas : ∀ i, (fresh.known.item i).isSome ↔ ¬ (i = .disk ∧ e.snapshot.disks = []) := by
    intro i
    rw [hshows.known_eq, ← item_known_eq_none_iff e clock, Option.isSome_iff_ne_none]
  refine ⟨fresh, hfresh, hshows, fun hsame => ?_, fun hagrees i => ?_⟩
  · -- the two agree on the disk
    have hsame := hsame .disk
    have hhas := hhas .disk
    grind
  · cases hi : known.item i with
    | some v =>
      have hnot : ¬ (i = .disk ∧ e.snapshot.disks = []) := by
        rw [← item_known_eq_none_iff e now s.threshold i, hi]
        simp
      rw [hpresent i v hi, (hhas i).mpr hnot]
      rfl
    | none =>
      have hgone := (item_known_eq_none_iff e now s.threshold i).mp hi
      have hnot : ¬ (i = .disk ∧ hadDisk) := fun hboth => by grind
      have hfreshless : ¬ (fresh.known.item i).isSome := fun hsome => (hhas i).mp hsome hgone
      grind

/-- A dashboard attached first; then a host has a disk at one tick, and none at the next. -/
def unplugged : System :=
  (System.start "hub" .small {} 4).run
    (.arrive "home" :: wholeAttachment 0 ++ .put "a" (.ofUsage 10) .epoch :: wholeTick ++
      wholeBroadcast 0 ++ .put "a" { Snapshot.ofUsage 10 with disks := [] } .epoch ::
      [.dispatch .epoch, .dispatch .epoch])

/-- The dashboard has been queued all deltas, the last tick has found nothing, and the host has no
disk; the dashboard shows one. -/
theorem unplugged_shows_disk :
    unplugged.lastTick = some (.epoch, ⟨2, 2⟩) ∧ Reading.IsCurrent ⟨2, 2⟩ unplugged.log ∧
      unplugged.IsDrained ∧ unplugged.hub.dashboards.isRegistered 0 ∧
      (unplugged.hub.entries["a"]?.map fun e => e.snapshot.compact.disk) = some none ∧
      ∃ a views, unplugged.attachments[0]? = some a ∧ a.since = 0 ∧
        a.stage.views? = some views ∧
        (((Picture.ofViews views).replay a.queued).item "a" .disk).isSome :=
  ⟨by decide, by decide, by decide, by decide, by decide, _, _, rfl, rfl, rfl, by decide⟩

/-- The two dashboards differ in the disk alone. -/
theorem unplugged_items_differ :
    ∃ a views w, unplugged.attachments[0]? = some a ∧ a.stage.views? = some views ∧
      unplugged.hub.dashboards.waiting? 0 = some w ∧ a.received ++ w = a.queued ∧
      ((Picture.ofViews views).replay a.queued).item "a" .cpu = some 10 ∧
      (((Picture.ofViews views).replay a.queued).item "a" .disk).isSome ∧
      ∃ fresh ∈ allViews unplugged.hub.settings [] unplugged.hub.entries .epoch,
        ¬ ∀ i, (((Picture.ofViews views).replay a.queued).item "a" i).isSome =
          (fresh.known.item i).isSome := by
  obtain ⟨hqueued, hshown⟩ := shows_current_items_and_lost_disk "hub" .small {} 4 _ .epoch ⟨2, 2⟩
    (show unplugged.lastTick = _ by decide) (by decide) (by decide) 0 _ _ rfl rfl (by decide)
  obtain ⟨hpresent, hlost, hfresh⟩ :=
    hshown "a" ⟨"a", { Snapshot.ofUsage 10 with disks := [] }, .epoch⟩ (by decide) (by decide)
  obtain ⟨fresh, hmem, -, hsame⟩ := hfresh [] .epoch
  refine ⟨_, _, _, rfl, rfl, rfl, hqueued _ rfl, hpresent .cpu 10 (by decide), ?_, fresh, hmem, ?_⟩
  · exact (hlost .disk (by decide)).mpr ⟨rfl, by decide⟩
  · rw [hsame]
    decide

end Interleaving
end FleetWatch
