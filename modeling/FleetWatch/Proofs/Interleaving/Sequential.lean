import FleetWatch.Proofs.Dispatch.DeltaStream
import FleetWatch.Proofs.Interleaving.System

/-!
# Steps without interruption

A tick, a broadcast and an attachment whose steps follow one another are those of the dispatcher,
the fan-out and the dashboards.
-/
namespace FleetWatch.Interleaving

open Dashboard

namespace System

/-! ## Ticks -/

/-- The steps of a tick, one after the other, are a tick. -/
theorem run_dispatch_eq_tick (s : System) (now : Time.Instant) (hidle : s.tick = .idle) :
    ∃ n deltas lastTick, s.run (List.replicate n (.dispatch now)) =
      { s with
        hub := (s.dispatcher.tick s.hub now).2.2
        dispatcher := (s.dispatcher.tick s.hub now).2.1
        tick := .idle
        deltas
        lastTick } := by
  have hread : LiveStore.consolidated ⟨s.hub.live.entries⟩ s.hub.localEntry = s.hub.entries := rfl
  rcases Dispatcher.tick_cases s.dispatcher s.hub now with
    ⟨hnone, htick⟩ | ⟨hsome, hoffer, htick⟩ | ⟨hsome, handoff, hoffer, htick⟩
  · refine ⟨2, s.deltas, some (now, ⟨s.log.length, s.log.length⟩), ?_⟩
    rw [htick]
    simp [List.replicate, run, step, dispatch, hidle, threshold, hread, hnone]
  · refine ⟨4, s.deltas, s.lastTick, ?_⟩
    rw [htick]
    simp [List.replicate, run, step, dispatch, hidle, threshold, hread, hsome, Hub.nextSeq,
      Delta.message, hoffer]
  · let reading : Reading := ⟨s.log.length, s.log.length⟩
    let changes := s.dispatcher.reconciler.reconcile s.hub.entries now s.threshold
    refine ⟨5, s.deltas ++ [⟨s.hub.seq + 1, now, reading, changes⟩], some (now, reading), ?_⟩
    rw [htick]
    simp [List.replicate, run, step, dispatch, hidle, threshold, hread, hsome, Hub.nextSeq,
      Delta.message, hoffer, reading, changes]

/-! ## Broadcasts -/

theorem offer?_foldl_remove (failed : List Id) (r : Registry Message.ToDashboard)
    (m : Message.ToDashboard) (id : Id) :
    (failed.foldl (fun r j => (r.remove j).2) r).offer? m id =
      (r.offer? m id).map (failed.foldl fun r j => (r.remove j).2) := by
  induction failed generalizing r with
  | nil => simp
  | cons j failed ih =>
    rw [List.foldl_cons, ih]
    have hremove : (r.remove j).2.offer? m id = (r.offer? m id).map fun r => (r.remove j).2 := by
      simp [Registry.offer?, Registry.remove, Function.comp_def]
    rw [hremove, Option.map_map]
    rfl

/-- Serving the dashboards one after the other and then sweeping up leaves the registry as if each
had been served or removed at once. -/
theorem run_serve_sweep {ids : List Id} (hids : ids.Nodup) {s : System} {m : Message.ToDashboard}
    {failed : List Id} (hsend : s.fanout = .sending m ids failed) (report : FanoutReport) :
    ∃ attachments, s.run (ids.map Action.serve ++ [.sweep]) =
      { s with
        hub :=
          { s.hub with
            dashboards := (Registry.deliverEach m ids
              (report, failed.foldl (fun r j => (r.remove j).2) s.hub.dashboards)).2 }
        fanout := .idle
        attachments
        passed := s.passed + 1 } := by
  induction ids generalizing s failed report with
  | nil => exact ⟨s.attachments, by simp [step, sweep, hsend, Registry.deliverEach]⟩
  | cons id ids ih =>
    obtain ⟨hid, hids⟩ := List.nodup_cons.mp hids
    have hrest : (id :: ids).filter (· ≠ id) = ids := by
      rw [List.filter_cons_of_neg (by simp), List.filter_eq_self]
      intro j hj
      simp only [decide_eq_true_eq]
      rintro rfl
      exact hid hj
    rw [Registry.deliverEach_cons, List.map_cons, List.cons_append, run_cons]
    -- it makes no difference to a queue whether others have been removed before
    have hremoved := offer?_foldl_remove failed s.hub.dashboards m id
    cases hoffer : s.hub.dashboards.offer? m id with
    | some dashboards =>
      rw [hoffer, Option.map_some] at hremoved
      have hstep : s.step (.serve id) =
          { s with
            hub := { s.hub with dashboards }
            fanout := .sending m ids failed
            attachments := s.attachments.modify id fun a =>
              { a with queued := a.queued ++ [m] } } := by
        simp only [step, serve, hsend, List.mem_cons_self, if_true, hoffer, hrest]
      obtain ⟨attachments, hrun⟩ := ih hids (s := s.step (.serve id)) (by rw [hstep]) _
      refine ⟨attachments, ?_⟩
      rw [hrun, hstep, Registry.deliver, hremoved]
    | none =>
      rw [hoffer, Option.map_none] at hremoved
      have hstep : s.step (.serve id) = { s with fanout := .sending m ids (failed ++ [id]) } := by
        simp only [step, serve, hsend, List.mem_cons_self, if_true, hoffer, hrest]
      obtain ⟨attachments, hrun⟩ := ih hids (s := s.step (.serve id)) (by rw [hstep]) _
      refine ⟨attachments, ?_⟩
      rw [hrun, hstep, Registry.deliver, hremoved, List.foldl_append]
      rfl

/-- The steps of a broadcast, one after the other, are a delivery. -/
theorem run_broadcast_eq_deliver (s : System) (hidle : s.fanout = .idle)
    {m : Message.ToDashboard} {queue : Queue.Bounded Message.ToDashboard}
    (htake : s.dispatcher.handoff.queue.take? = some (m, queue)) :
    ∃ attachments,
      s.run (.take :: .address :: s.hub.dashboards.origins.keys.map Action.serve ++ [.sweep]) =
        { s with
          hub := (s.dispatcher.deliver s.hub).2
          dispatcher := (s.dispatcher.deliver s.hub).1
          attachments
          passed := s.passed + 1 } := by
  have hstep : (s.step .take).step .address =
      { s with
        dispatcher := { s.dispatcher with handoff := { s.dispatcher.handoff with queue } }
        fanout := .sending m s.hub.dashboards.origins.keys [] } := by
    simp only [step, take, hidle, htake, address]
  have hsend : ((s.step .take).step .address).fanout =
      .sending m s.hub.dashboards.origins.keys [] := by rw [hstep]
  obtain ⟨attachments, hrun⟩ := run_serve_sweep Std.TreeMap.nodup_keys hsend {}
  refine ⟨attachments, ?_⟩
  rw [List.cons_append, List.cons_append, run_cons, run_cons, hrun, hstep, Dispatcher.deliver,
    htake]
  simp [hidle, Registry.broadcast_eq]

/-! ## Attachments -/

theorem modify_length_append {α : Type} (l : List α) (a : α) (f : α → α) :
    (l ++ [a]).modify l.length f = l ++ [f a] := by
  induction l with
  | nil => rfl
  | cons b l ih => simpa using ih

/-- The steps of an attachment, one after the other, show the full view of an attachment. -/
theorem run_attach_eq_attach (s : System) (origin : String) (now : Time.Instant)
    (hroom : queueRoom s.hub ≤ Queue.Bounded.largest) :
    let id := s.attachments.length
    let profiles := match s.hub.directory.profiles with
      | .ok profiles => profiles
      | .error _ => []
    ∃ seq reading views,
      s.run (.arrive origin :: List.replicate 3 (.attach id profiles now)) =
        { s with
          hub := Dashboard.register s.hub id origin
          attachments := s.attachments ++
            [{ since := s.addressed, stage := .shown seq reading now views }] } ∧
      Dashboard.attach s.hub id origin now =
        some (.full (.ofNat seq) (.ofInt now.millis) views,
          Dashboard.register s.hub id origin) := by
  intro id profiles
  refine ⟨s.hub.seq, ⟨s.log.length, s.log.length⟩,
    allViews s.hub.settings profiles s.hub.entries now, ?_, ?_⟩
  · simp only [List.replicate, run_cons, run_nil, step, id, modify_length_append]
    rfl
  · rw [Dashboard.attach, if_pos hroom]
    rfl

end System
end FleetWatch.Interleaving
