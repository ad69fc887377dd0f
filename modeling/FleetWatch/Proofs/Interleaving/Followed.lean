import FleetWatch.Proofs.Dispatch.Reconciliation
import FleetWatch.Proofs.Interleaving.Recorded

/-!
# What the deltas tell

Throughout every run, every delta is a reconciliation of what its tick has read, who has followed
all deltas that were handed over knows what was last sent, and that holds the hosts as the last tick
that found nothing or handed its delta over has read them.

## Main definitions

* `System.reconciled`: what was last sent.
* `Followed`: the invariant.
-/
namespace FleetWatch.Interleaving

@[simp] theorem records_message (d : Delta) : d.message.records = d.changes.map Change.record := rfl

/-- What was last sent, with the delta that is handed over and not committed yet. -/
def System.reconciled (s : System) : Reconciler :=
  match s.tick with
  | .handed d => s.dispatcher.reconciler.commit d.changes
  | _ => s.dispatcher.reconciler

/-- What a tick has found are the changes since what was last sent. -/
def Tick.Finds (reconciler : Reconciler) (threshold : Time.Span) (log : List Write) : Tick → Prop
  | .idle | .copied .. => True
  | .found now reading changes =>
    changes = reconciler.reconcile (reading.entries log) now threshold
  | .numbered d | .handed d =>
    d.changes = reconciler.reconcile (d.reading.entries log) d.now threshold

theorem Tick.Finds.append {reconciler : Reconciler} {threshold : Time.Span} {log : List Write}
    {t : Tick} (h : t.Finds reconciler threshold log) (hr : t.Recorded log) (w : Write) :
    t.Finds reconciler threshold (log ++ [w]) := by
  cases t with
  | idle => trivial
  | copied agents agentsAt => trivial
  | found now reading changes =>
    rw [Finds, Reading.IsOf.entries_append hr]
    exact h
  | numbered d =>
    rw [Finds, Reading.IsOf.entries_append hr]
    exact h
  | handed d =>
    rw [Finds, Reading.IsOf.entries_append hr]
    exact h

/-- The deltas are reconciliations, they tell what was last sent, and that holds what the last tick
has read. -/
structure Followed (s : System) : Prop where
  tick : s.tick.Finds s.dispatcher.reconciler s.threshold s.log
  deltas : ∀ d ∈ s.deltas, ∃ r : Reconciler,
    d.changes = r.reconcile (d.reading.entries s.log) d.now s.threshold
  tracks : s.reconciled.Tracks (Picture.replay {} (s.deltas.map Delta.message))
  covers : ∀ now reading, s.lastTick = some (now, reading) →
    s.reconciled.Covers (reading.entries s.log) now s.threshold

namespace Followed

theorem start (machine : String) (settings : Settings) (directory : Directory) (capacity : Nat) :
    Followed (.start machine settings directory capacity) where
  tick := trivial
  deltas := by simp [System.start]
  tracks := Reconciler.tracks_start
  covers := by simp [System.start]

theorem tick_of_eq {s : System} (h : Followed s) {t : Tick} (ht : s.tick = t) :
    t.Finds s.dispatcher.reconciler s.threshold s.log := by
  rw [← ht]
  exact h.tick

/-- One more write changes nothing that was read. -/
theorem write {s t : System} (h : Followed s) (hr : Recorded s) (w : Write)
    (hlog : t.log = s.log ++ [w]) (htick : t.tick = s.tick)
    (hdispatcher : t.dispatcher = s.dispatcher) (hdeltas : t.deltas = s.deltas)
    (hthreshold : t.threshold = s.threshold) (hlast : t.lastTick = s.lastTick) : Followed t := by
  have hreconciled : t.reconciled = s.reconciled := by
    rw [System.reconciled, htick, hdispatcher, System.reconciled]
  refine ⟨?_, ?_, ?_, ?_⟩
  · rw [htick, hdispatcher, hthreshold, hlog]
    exact h.tick.append hr.tick w
  · rw [hdeltas, hthreshold, hlog]
    intro d hd
    obtain ⟨r, hchanges⟩ := h.deltas d hd
    exact ⟨r, by rw [(hr.deltas d hd).entries_append w]; exact hchanges⟩
  · rw [hreconciled, hdeltas]
    exact h.tracks
  · rw [hreconciled, hlast, hlog, hthreshold]
    intro now reading hl
    rw [(hr.lastTick now reading hl).entries_append w]
    exact h.covers now reading hl

/-- A step of the dispatcher that neither hands over nor commits. -/
theorem of_tick {s : System} (h : Followed s) {t : Tick}
    (hfinds : t.Finds s.dispatcher.reconciler s.threshold s.log)
    (hreconciled : ({ s with tick := t } : System).reconciled = s.reconciled) :
    Followed { s with tick := t } := by
  refine ⟨hfinds, h.deltas, ?_, ?_⟩
  · rw [hreconciled]
    exact h.tracks
  · rw [hreconciled]
    exact h.covers

theorem hand {s : System} (h : Followed s) {d : Delta} (htick : s.tick = .numbered d)
    (handoff : Handoff) :
    Followed
      { s with
        dispatcher := { s.dispatcher with handoff }
        tick := .handed d
        deltas := s.deltas ++ [d]
        lastTick := some (d.now, d.reading) } := by
  have hfinds : d.changes = s.dispatcher.reconciler.reconcile (d.reading.entries s.log) d.now
      s.threshold := h.tick_of_eq htick
  have hreconciled : s.reconciled = s.dispatcher.reconciler := by rw [System.reconciled, htick]
  have htracks := h.tracks
  rw [hreconciled] at htracks
  refine ⟨hfinds, ?_, ?_, ?_⟩
  · intro e he
    rcases List.mem_append.mp he with he | he
    · exact h.deltas e he
    · rw [List.mem_singleton.mp he]
      exact ⟨_, hfinds⟩
  · have := htracks.commit (d.reading.entries s.log) d.now s.threshold
    rw [← hfinds] at this
    change (s.dispatcher.reconciler.commit d.changes).Tracks
      (Picture.replay {} ((s.deltas ++ [d]).map Delta.message))
    rw [List.map_append, Picture.replay_append]
    simpa [Picture.replay] using this
  · intro now reading hl
    obtain ⟨rfl, rfl⟩ := Prod.mk.inj (Option.some.inj hl)
    have := s.dispatcher.reconciler.covers_commit (d.reading.entries s.log) d.now s.threshold
    rwa [← hfinds] at this

theorem findNothing {s : System} (h : Followed s) (hr : Recorded s) {agents : Entries}
    {agentsAt : Nat} (now : Time.Instant) (htick : s.tick = .copied agents agentsAt)
    (hnone : s.dispatcher.reconciler.reconcile
      (LiveStore.consolidated ⟨agents⟩ s.hub.localEntry) now s.threshold = []) :
    Followed { s with tick := .idle, lastTick := some (now, ⟨agentsAt, s.log.length⟩) } := by
  have hreconciled : s.reconciled = s.dispatcher.reconciler := by rw [System.reconciled, htick]
  have hcopied := hr.tick_of_eq htick
  refine ⟨trivial, h.deltas, ?_, ?_⟩
  · have := h.tracks
    rwa [hreconciled] at this
  · intro now' reading hl
    obtain ⟨rfl, rfl⟩ := Prod.mk.inj (Option.some.inj hl)
    -- nothing was to be committed, and that is as if it had been
    have := s.dispatcher.reconciler.covers_commit
      (Reading.entries ⟨agentsAt, s.log.length⟩ s.log) now s.threshold
    rw [← Copied.entries hcopied, ← hr.own, hnone] at this
    rw [hr.own, Copied.entries hcopied] at this
    exact this

theorem step {s t : System} (h : Followed s) (hr : Recorded s) (hs : s.Step t) : Followed t := by
  cases hs with
  | put hostId snapshot at_ =>
    exact h.write hr ⟨false, hostId, snapshot, at_⟩ rfl rfl rfl rfl rfl rfl
  | putLocal snapshot at_ =>
    exact h.write hr ⟨true, s.machine, snapshot, at_⟩ rfl rfl rfl rfl rfl rfl
  | copy hidle => exact h.of_tick trivial (by simp [System.reconciled, hidle])
  | findNothing now htick hnone => exact h.findNothing hr now htick hnone
  | find now htick =>
    refine h.of_tick ?_ (by simp [System.reconciled, htick])
    rw [Tick.Finds, hr.own, Copied.entries (hr.tick_of_eq htick)]
  | @number now reading changes htick =>
    have hfinds := h.tick_of_eq htick
    have hnumbered : Followed { s with tick := .numbered ⟨s.hub.seq + 1, now, reading, changes⟩ } :=
      h.of_tick hfinds (by simp [System.reconciled, htick])
    exact ⟨hnumbered.tick, hnumbered.deltas, hnumbered.tracks, hnumbered.covers⟩
  | defer htick => exact h.of_tick trivial (by simp [System.reconciled, htick])
  | hand htick hoffer => exact h.hand htick _
  | @commit d htick =>
    have hreconciled : s.reconciled = s.dispatcher.reconciler.commit d.changes := by
      rw [System.reconciled, htick]
    refine ⟨trivial, h.deltas, ?_, ?_⟩
    · have := h.tracks
      rwa [hreconciled] at this
    · have := h.covers
      rwa [hreconciled] at this
  | _ => exact ⟨h.tick, h.deltas, h.tracks, h.covers⟩

end Followed

end FleetWatch.Interleaving
