import FleetWatch.Proofs.Interleaving.Runs

/-!
# What dashboards end up with

Deltas tell what has changed since the last one that was handed over, but a full view shows what is
there in between. So a dashboard that has overlaid all its deltas knows of a host what the deltas
told it, and of the rest what its full view showed; that is the state of the host only if the full
view showed what it had been before or is again.

## Main definitions

* `System.IsDrained`: every delta that was handed over has been broadcast.
-/
namespace FleetWatch.Interleaving

open Dashboard

/-- Every delta that was handed over has been broadcast. -/
def System.IsDrained (s : System) : Prop := s.fanout = .idle ∧ s.passed = s.deltas.length

instance (s : System) : Decidable s.IsDrained :=
  inferInstanceAs (Decidable (s.fanout = .idle ∧ s.passed = s.deltas.length))

/-- The views that a dashboard is shown. -/
def Stage.views? : Stage → Option (List ServerView)
  | .shown _ _ _ views => some views
  | _ => none

/-- Every item of a host with a disk has a value. -/
theorem isSome_item_known {e : LiveEntry} (hdisk : e.snapshot.disks ≠ []) (now : Time.Instant)
    (threshold : Time.Span) (i : Item) : ((e.sentState now threshold).known.item i).isSome := by
  cases i with
  | disk =>
    obtain ⟨d, ds, hd⟩ := List.exists_cons_of_ne_nil hdisk
    simp [LiveEntry.sentState, SentState.known, Known.item, Snapshot.compact, hd]
  | _ => rfl

namespace Invariant
variable {s : System}

/-- Once the fan-out is drained, a registered dashboard has been queued all deltas since it
registered. -/
theorem queued_eq_drop (h : Invariant s) (hdrained : s.IsDrained) {id : Id} {a : Attachment}
    (ha : s.attachments[id]? = some a) (hreg : s.hub.dashboards.isRegistered id) :
    a.queued = (s.deltas.map Delta.message).drop a.since := by
  obtain ⟨hidle, hpassed⟩ := hdrained
  obtain ⟨n, -, -, hqueued, hreach⟩ := h.queued.queued id a ha
  have hn : n = s.deltas.length := by
    rw [hreach (.inr hreg), System.reach, hidle, Fanout.owes_idle, if_neg Bool.false_ne_true,
      System.addressed, hidle]
    exact hpassed
  rw [hqueued, messages, hn, List.take_length, List.map_drop]

/-- All deltas together tell the state of every host as the last tick has read it. -/
theorem item_replay_deltas (h : Invariant s) {now : Time.Instant} {reading : Reading}
    (hlast : s.lastTick = some (now, reading)) (hcurrent : reading.IsCurrent s.log)
    {hostId : String} {e : LiveEntry} (he : s.hub.entries[hostId]? = some e)
    {i : Item} {v : i.Value}
    (hv : (e.sentState now s.threshold).known.item i = some v) :
    (Picture.replay {} (s.deltas.map Delta.message)).item hostId i = some v := by
  have hentries : reading.entries s.log = s.hub.entries := by
    rw [hcurrent.entries_eq, ← h.recorded.live, ← h.recorded.own]
    rfl
  have hcovers := h.followed.covers now reading hlast
  rw [hentries] at hcovers
  exact hcovers.item_picture h.followed.tracks he hv

end Invariant

/-- When the last tick that found nothing or handed its delta over has read what is there now, and
its delta has been broadcast, a registered dashboard that overlays the deltas that it was queued,
those that it has received and those that wait for it, onto its full view knows the state of a host
with a disk at the time of that tick if and only if every item is told by one of the deltas or was
shown by the full view as it is. -/
theorem converges_iff (machine : String) (settings : Settings) (directory : Directory)
    (capacity : Nat) (actions : List Action) :
    let s := (System.start machine settings directory capacity).run actions
    ∀ now reading, s.lastTick = some (now, reading) → reading.IsCurrent s.log → s.IsDrained →
      ∀ id a views, s.attachments[id]? = some a → a.stage.views? = some views →
        s.hub.dashboards.isRegistered id →
        (∀ w, s.hub.dashboards.waiting? id = some w → a.received ++ w = a.queued) ∧
        ∀ (hostId : String) (e : LiveEntry), s.hub.entries[hostId]? = some e →
          e.snapshot.disks ≠ [] →
          (((Picture.ofViews views).replay a.queued)[hostId]? =
              some (e.sentState now s.threshold).known ↔
            ∀ i, Tells a.queued hostId i ∨
              (Picture.ofViews views).item hostId i =
                (e.sentState now s.threshold).known.item i) := by
  intro s now reading hlast hcurrent hdrained id a views ha _ hreg
  have h := invariant_run machine settings directory capacity actions
  refine ⟨fun w hw => h.received_append_waiting ha hw, fun hostId e he hdisk => ?_⟩
  have hqueued := h.queued_eq_drop hdrained ha hreg
  rw [Picture.getElem?_eq_some_known_iff]
  refine forall_congr' fun i => ?_
  obtain ⟨v, hv⟩ := Option.isSome_iff_exists.mp (isSome_item_known hdisk now s.threshold i)
  have hall := h.item_replay_deltas hlast hcurrent he hv
  by_cases ht : Tells a.queued hostId i
  · -- what the later deltas tell is what all deltas tell
    have hsplit : (s.deltas.map Delta.message).take a.since ++ a.queued =
        s.deltas.map Delta.message := by
      rw [hqueued, List.take_append_drop]
    have hsame := Picture.item_replay_of_tells (Picture.ofViews views)
      ((s.deltas.map Delta.message).take a.since) ht
    rw [hsplit, hall] at hsame
    simp [hsame, hv, ht]
  · rw [Picture.item_replay_of_not_tells _ ht]
    simp [ht]

/-- A dashboard that attached between two ticks, with a change after that and none before. -/
def changedAfterwards : System :=
  (System.start "hub" .small {} 4).run
    (.put "a" (.ofUsage 10) .epoch :: wholeTick ++ [.take, .address, .sweep] ++
      .arrive "home" :: wholeAttachment 0 ++ .put "a" (.ofUsage 20) .epoch :: wholeTick ++
      wholeBroadcast 0)

/-- The dashboard has the delta of the change waiting, and knows of the change. -/
theorem changedAfterwards_converges :
    ∃ a views w, changedAfterwards.attachments[0]? = some a ∧ a.stage.views? = some views ∧
      changedAfterwards.hub.dashboards.waiting? 0 = some w ∧ a.received ++ w = a.queued ∧
      ((Picture.ofViews views).replay a.queued)["a"]? =
        some (LiveEntry.sentState ⟨"a", .ofUsage 20, .epoch⟩ .epoch
          changedAfterwards.threshold).known := by
  obtain ⟨hqueued, hpicture⟩ := converges_iff "hub" .small {} 4 _ .epoch ⟨2, 2⟩
    (show changedAfterwards.lastTick = _ by decide) (by decide) (by decide) 0 _ _ rfl rfl
    (by decide)
  refine ⟨_, _, _, rfl, rfl, rfl, hqueued _ rfl, ?_⟩
  refine (hpicture "a" ⟨"a", .ofUsage 20, .epoch⟩ (by decide) (by decide)).mpr ?_
  intro i
  cases i <;> decide

/-- A dashboard that attached between two ticks, with a change before that is taken back after. -/
def changedMeanwhile : System :=
  (System.start "hub" .small {} 4).run
    (.put "a" (.ofUsage 10) .epoch :: wholeTick ++ [.take, .address, .sweep] ++
      .put "a" (.ofUsage 50) .epoch :: .arrive "home" :: wholeAttachment 0 ++
      .put "a" (.ofUsage 10) .epoch :: [.dispatch .epoch, .dispatch .epoch])

/-- The dashboard is left with the change that it was shown. -/
theorem changedMeanwhile_diverges :
    changedMeanwhile.lastTick = some (.epoch, ⟨3, 3⟩) ∧
      Reading.IsCurrent ⟨3, 3⟩ changedMeanwhile.log ∧ changedMeanwhile.IsDrained ∧
      changedMeanwhile.hub.dashboards.isRegistered 0 ∧
      (∀ w ∈ changedMeanwhile.log, w.entry.snapshot.disks ≠ []) ∧
      changedMeanwhile.hub.entries["a"]? = some ⟨"a", .ofUsage 10, .epoch⟩ ∧
      ∃ a views, changedMeanwhile.attachments[0]? = some a ∧ a.stage.views? = some views ∧
        ((Picture.ofViews views).replay a.queued)["a"]? ≠
          some (LiveEntry.sentState ⟨"a", .ofUsage 10, .epoch⟩ .epoch
            changedMeanwhile.threshold).known :=
  ⟨by decide, by decide, by decide, by decide, by decide, by decide, _, _, rfl, rfl, by decide⟩

end FleetWatch.Interleaving
