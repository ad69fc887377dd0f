import FleetWatch.Dispatch.Dispatcher
import FleetWatch.Proofs.Dispatch.Reconciliation

/-!
# The stream of deltas

Whoever has followed all deltas that were handed over knows the state of every host after each tick
that found nothing to tell or handed its delta over, whatever became of the deltas of other ticks.

## Main definitions

* `Occasion`: what a tick finds.
* `Dispatcher.tickOn`, `Dispatcher.stream`: a tick and a run of ticks with the messages that they
  hand over.
-/
namespace FleetWatch

/-- What a tick finds: the hub, the time, and the queue that it hands over to, which may be full or
closed. -/
structure Occasion where
  hub : Hub
  now : Time.Instant
  handoff : Handoff

/-- The reading of a machine with one disk, its processor busy to a percentage. -/
def Snapshot.ofUsage (percent : Nat) : Snapshot where
  timestamp := .epoch
  hostname := "a"
  os := ⟨"", "", "", ""⟩
  cpu := ⟨"", 1, .ofNat percent, 0, []⟩
  memory := ⟨0, 0, 0, 0, 0, .ofNat 0⟩
  disks := [⟨"", "", "", 0, 0, 0, .ofNat 0⟩]
  network := ⟨[], 0, 0, 0, 0⟩
  uptime := 0
  loadAverage := .none
  ping := none
  version := none
  ipAddresses := []

/-- Settings with room for a few messages, by which hosts are online for five seconds. -/
def Settings.small : Settings where
  onlineThreshold := .ofSeconds 5
  commandQueueCapacity := 4
  dashboardQueueCapacity := 4
  trustProxyHeaders := false
  localHost := none

def Occasion.ofUsage (percent : Nat) (isOpen : Bool) : Occasion where
  hub :=
    { settings := .small
      directory := {}
      live := ({} : LiveStore).put "a" (.ofUsage percent) .epoch }
  now := .epoch
  handoff := { Handoff.start 1 with isOpen }

theorem Handoff.waiting_of_offer? {q r : Handoff} {m : Message.ToDashboard}
    (h : q.offer? m = some r) : r.queue.waiting = q.queue.waiting ++ [m] := by
  unfold offer? at h
  split at h
  · obtain ⟨queue, hq, rfl⟩ := Option.map_eq_some_iff.mp h
    exact (Queue.Bounded.waiting_of_offer? hq).1
  · simp at h

theorem Handoff.isOpen_of_offer? {q r : Handoff} {m : Message.ToDashboard}
    (h : q.offer? m = some r) : q.isOpen ∧ r.isOpen := by
  unfold offer? at h
  split at h
  · next hopen =>
    obtain ⟨queue, -, rfl⟩ := Option.map_eq_some_iff.mp h
    exact ⟨hopen, hopen⟩
  · simp at h

namespace Dispatcher

@[simp] theorem records_delta (seq : Nat) (now : Time.Instant) (cs : List Change) :
    (delta seq now cs).records = cs.map Change.record := rfl

/-- A tick finds nothing, or its delta is not taken, or it is taken and its changes committed. -/
theorem tick_cases (d : Dispatcher) (h : Hub) (now : Time.Instant) :
    let cs := d.reconciler.reconcile h.entries now h.settings.onlineThreshold
    let m := delta (h.seq + 1) now cs
    cs = [] ∧ d.tick h now = ({ hosts := h.entries.size, records := 0 }, d, h) ∨
    cs ≠ [] ∧ d.handoff.offer? m = none ∧
      d.tick h now =
        ({ hosts := h.entries.size, records := cs.length }, d, { h with seq := h.seq + 1 }) ∨
    cs ≠ [] ∧ ∃ handoff, d.handoff.offer? m = some handoff ∧
      d.tick h now =
        ({ hosts := h.entries.size, records := cs.length, seq := some (h.seq + 1) },
         { d with handoff, reconciler := d.reconciler.commit cs },
         { h with seq := h.seq + 1 }) := by
  intro cs m
  by_cases hcs : cs = []
  · left
    refine ⟨hcs, ?_⟩
    have hnone : d.reconciler.reconcile h.entries now h.settings.onlineThreshold = [] := hcs
    simp [tick, hnone]
  · right
    have hne : d.reconciler.reconcile h.entries now h.settings.onlineThreshold ≠ [] := hcs
    cases ho : d.handoff.offer? m with
    | none =>
      left
      refine ⟨hcs, rfl, ?_⟩
      have ho' : d.handoff.offer? (delta (h.seq + 1) now
        (d.reconciler.reconcile h.entries now h.settings.onlineThreshold)) = none := ho
      simp [tick, Hub.nextSeq, publish, hne, ho', cs]
    | some handoff =>
      right
      refine ⟨hcs, handoff, rfl, ?_⟩
      have ho' : d.handoff.offer? (delta (h.seq + 1) now
        (d.reconciler.reconcile h.entries now h.settings.onlineThreshold)) = some handoff := ho
      simp [tick, Hub.nextSeq, publish, hne, ho', cs]

/-- A tick, the messages that the queue gained by it, and the dispatcher afterwards. -/
def tickOn (d : Dispatcher) (o : Occasion) : TickReport × List Message.ToDashboard × Dispatcher :=
  let (report, after, _) := { d with handoff := o.handoff }.tick o.hub o.now
  (report, after.handoff.queue.waiting.drop o.handoff.queue.waiting.length, after)

/-- A run of ticks: all messages that were handed over, and the dispatcher afterwards. -/
def stream : Dispatcher → List Occasion → List Message.ToDashboard × Dispatcher
  | d, [] => ([], d)
  | d, o :: os =>
    let (_, handed, d) := d.tickOn o
    let (rest, d) := d.stream os
    (handed ++ rest, d)

/-- The state of every host, as far as it has values, is in the picture. -/
def Shows (o : Occasion) (p : Picture) : Prop :=
  ∀ h e, o.hub.entries[h]? = some e → ∀ i v,
    (e.sentState o.now o.hub.settings.onlineThreshold).known.item i = some v →
      p.item h i = some v

theorem tickOn_tracks {d : Dispatcher} {p : Picture} (ht : d.reconciler.Tracks p) (o : Occasion) :
    (d.tickOn o).2.2.reconciler.Tracks (p.replay (d.tickOn o).2.1) := by
  rcases tick_cases { d with handoff := o.handoff } o.hub o.now with
    ⟨-, htick⟩ | ⟨-, -, htick⟩ | ⟨-, handoff, hoffer, htick⟩
  · simpa [tickOn, htick] using ht
  · simpa [tickOn, htick] using ht
  · simp only [tickOn, htick, Handoff.waiting_of_offer? hoffer, List.drop_left]
    simpa [Picture.replay] using
      ht.commit o.hub.entries o.now o.hub.settings.onlineThreshold

theorem shows_of_tickOn {d : Dispatcher} {p : Picture} (ht : d.reconciler.Tracks p) (o : Occasion)
    (hdone : (d.tickOn o).1.records = 0 ∨ (d.tickOn o).1.seq.isSome) :
    Shows o (p.replay (d.tickOn o).2.1) := by
  have hafter := tickOn_tracks ht o
  have hcovers := d.reconciler.covers_commit o.hub.entries o.now o.hub.settings.onlineThreshold
  intro h e he i v hv
  refine Reconciler.Covers.item_picture (r := (d.tickOn o).2.2.reconciler) ?_ hafter he hv
  rcases tick_cases { d with handoff := o.handoff } o.hub o.now with
    ⟨hnone, htick⟩ | ⟨hsome, -, htick⟩ | ⟨-, handoff, hoffer, htick⟩
  · -- nothing was to be committed, and that is as if it had been
    dsimp only at hnone
    rw [hnone] at hcovers
    simpa [tickOn, htick, Reconciler.commit] using hcovers
  · simp [tickOn, htick] at hdone
    exact absurd hdone hsome
  · simpa [tickOn, htick] using hcovers

theorem stream_tracks {d : Dispatcher} {p : Picture} (ht : d.reconciler.Tracks p)
    (os : List Occasion) :
    (d.stream os).2.reconciler.Tracks (p.replay (d.stream os).1) := by
  induction os generalizing d p with
  | nil => exact ht
  | cons o os ih =>
    have := ih (tickOn_tracks ht o)
    simpa [stream, Picture.replay_append] using this

/-- After every tick that found nothing or whose delta was taken, all deltas that were taken show
each host: it is known, its online flag is that of the time of the tick, and every field of its
reduced reading has its value. -/
theorem stream_shows_hosts (os : List Occasion) (o : Occasion) :
    let before := ({} : Dispatcher).stream os
    let now := before.2.tickOn o
    now.1.records = 0 ∨ now.1.seq.isSome →
      ∀ (h : String) (e : LiveEntry), o.hub.entries[h]? = some e →
        ∃ k, (Picture.replay {} (before.1 ++ now.2.1))[h]? = some k ∧
          k.online = some (e.isOnline o.now o.hub.settings.onlineThreshold) ∧
          ∀ i v, Known.item { compact := e.snapshot.compact } i = some v → k.item i = some v := by
  intro before now hdone h e he
  have htracks := stream_tracks (d := {}) Reconciler.tracks_start os
  have hshows := shows_of_tickOn htracks o hdone h e he
  rw [← Picture.replay_append] at hshows
  obtain ⟨k, hk, honline⟩ := Picture.exists_of_item (hshows .online _ rfl)
  refine ⟨k, hk, honline, ?_⟩
  intro i v hv
  rw [← Picture.item_of_getElem? hk]
  apply hshows i v
  cases i with
  | online => simp [Known.item] at hv
  | _ => exact hv

/-- The reading of a tick whose delta was not taken shows after the next. -/
theorem shows_host_after_dropped_delta :
    let before := ({} : Dispatcher).stream [.ofUsage 10 true, .ofUsage 20 false]
    let now := before.2.tickOn (.ofUsage 20 true)
    (now.1.records = 0 ∨ now.1.seq.isSome) ∧
      ∃ k, (Picture.replay {} (before.1 ++ now.2.1))["a"]? = some k ∧ k.online = some true ∧
        ∀ i v, Known.item { compact := (Snapshot.ofUsage 20).compact } i = some v →
          k.item i = some v := by
  refine ⟨by decide, ?_⟩
  exact stream_shows_hosts [.ofUsage 10 true, .ofUsage 20 false] (.ofUsage 20 true) (by decide) "a"
    ⟨"a", .ofUsage 20, .epoch⟩ (by decide)

end Dispatcher
end FleetWatch
