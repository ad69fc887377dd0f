import FleetWatch.Proofs.History.Conservation

/-!
# The rows of a shutdown

A recorder that ends drains its queue once, but takes rows until it is gone. Those that it takes in
between are the ones that never reach the backend, although their senders were told that they were
taken; all others do, each once.

## Main definitions

* `Recorder.Task.InTime`: a cleanup does not reach back further than time is counted.
* `Ledger.Closing`: where rows are as the recorder ends.
-/
namespace FleetWatch.History

open Queue

/-- The recorder has passed on its buffer for the last time. -/
def Phase.isFlushed : Phase → Bool
  | .running | .left | .drained => false
  | .flushed | .closed | .stopped => true

namespace Recorder

/-- A cleanup reaches back no further than time is counted, so that the recorder does not break
down. -/
def Task.InTime (retentionDays : Option UInt32) : Task → Prop
  | .cleanUp now => ∀ days ∈ retentionDays, (now.minus? (days.toNat * 86400)).isSome
  | _ => True

/-- A cleanup in time leaves phase and rows as they are. -/
theorem cleanUp_of_inTime {r : Recorder} {now : Time.Instant}
    (h : Task.InTime r.retentionDays (.cleanUp now)) :
    (r.cleanUp now).phase = r.phase ∧ (r.cleanUp now).queue = r.queue ∧
      (r.cleanUp now).buffer = r.buffer := by
  unfold cleanUp
  split
  · next days hphase hdays =>
    obtain ⟨cutoff, hcutoff⟩ := Option.isSome_iff_exists.mp (h days hdays)
    rw [hcutoff]
    dsimp only
    split <;> exact ⟨rfl, rfl, rfl⟩
  · exact ⟨rfl, rfl, rfl⟩

/-- A recorder whose queue was drained for the last time takes nothing from it any more, and passes
its buffer on once. -/
theorem perform_of_isDrained {r : Recorder} (h : r.phase.isDrained = true) (t : Task) :
    (r.perform t).phase.isDrained = true ∧ (r.perform t).queue = r.queue ∧
      ((r.perform t).buffer = [] ∨
        (r.perform t).buffer = r.buffer ∧ (r.perform t).phase.isFlushed = r.phase.isFlushed) := by
  have hrunning : r.phase ≠ .running := fun hphase => by simp [hphase, Phase.isDrained] at h
  have hleft : r.phase ≠ .left := fun hphase => by simp [hphase, Phase.isDrained] at h
  cases t with
  | takeRow => simp [perform, takeRow, hrunning, h]
  | flushDue => simp [perform, flushDue, hrunning, h]
  | flush => simp [perform, flush, request, hrunning, h]
  | cleanUp now => simp [perform, cleanUp, hrunning, h]
  | leave => simp [perform, leave, hrunning, h]
  | drain => simp [perform, drain, hleft, h]
  | flushLast =>
    by_cases hdrained : r.phase = .drained
    · simp [perform, flushLast, hdrained, Phase.isDrained]
    · simp [perform, flushLast, hdrained, h]
  | closeBackend =>
    by_cases hflushed : r.phase = .flushed
    · cases hclose : r.backend.close <;>
        simp [perform, closeBackend, hflushed, hclose, Phase.isDrained, Phase.isFlushed]
    · simp [perform, closeBackend, hflushed, h]
  | stop =>
    by_cases hclosed : r.phase = .closed
    · simp [perform, stop, hclosed, Phase.isDrained, Phase.isFlushed]
    · simp [perform, stop, hclosed, h]

/-- The last drain is the one that follows the loop, and leaves nothing in the queue. -/
theorem perform_of_not_isDrained {r : Recorder} {t : Task} (htime : t.InTime r.retentionDays)
    (h : r.phase.isDrained = false) :
    (r.perform t).phase.isDrained = false ∨
      (r.perform t).phase = .drained ∧ (r.perform t).queue.waiting = [] := by
  cases t with
  | takeRow =>
    refine .inl ?_
    change r.takeRow.phase.isDrained = false
    rw [takeRow_eq]
    split
    · simpa using h
    · split <;> simpa using h
  | flushDue =>
    refine .inl ?_
    change r.flushDue.phase.isDrained = false
    unfold flushDue
    split <;> simpa using h
  | flush =>
    refine .inl ?_
    by_cases hrunning : r.phase = .running
    · simp [perform, flush, request, hrunning, drainQueue, receive, Phase.isDrained]
    · simpa [perform, flush, request, hrunning] using h
  | cleanUp now => exact .inl ((cleanUp_of_inTime htime).1 ▸ h)
  | leave =>
    refine .inl ?_
    by_cases hrunning : r.phase = .running
    · simp [perform, leave, hrunning, Phase.isDrained]
    · simpa [perform, leave, hrunning] using h
  | drain =>
    by_cases hleft : r.phase = .left
    · exact .inr (by simp [perform, drain, hleft])
    · exact .inl (by simpa [perform, drain, hleft] using h)
  | flushLast =>
    have hdrained : r.phase ≠ .drained := fun hphase => by simp [hphase, Phase.isDrained] at h
    exact .inl (by simpa [perform, flushLast, hdrained] using h)
  | closeBackend =>
    have hflushed : r.phase ≠ .flushed := fun hphase => by simp [hphase, Phase.isDrained] at h
    exact .inl (by simpa [perform, closeBackend, hflushed] using h)
  | stop =>
    have hclosed : r.phase ≠ .closed := fun hphase => by simp [hphase, Phase.isDrained] at h
    exact .inl (by simpa [perform, stop, hclosed] using h)

end Recorder

/-- A recorder whose buffer was passed on for the last time has drained its queue. -/
theorem Phase.isDrained_of_isFlushed {p : Phase} (h : p.isFlushed = true) : p.isDrained = true := by
  cases p <;> first | rfl | cases h

def Store.total : Store → Nat
  | .memory m => m.total
  | .table t => t.total

namespace Ledger

/-- Rows that are accepted late wait until the end, and the buffer is empty once it was passed on
for the last time. -/
structure Closing (retentionDays : Option UInt32) (l : Ledger) : Prop where
  retentionDays : l.recorder.retentionDays = retentionDays
  early : l.recorder.phase.isDrained = false → l.late = []
  late : l.recorder.phase.isDrained = true → l.recorder.queue.waiting = l.late
  buffer : l.recorder.phase.isFlushed = true → l.recorder.buffer = []

namespace Closing
variable {retentionDays : Option UInt32} {l : Ledger}

/-- The recorder ends as it should when it does a task. -/
theorem perform (h : l.Closing retentionDays) {t : Recorder.Task}
    (htime : t.InTime retentionDays) {flushing : Bool} {batches : List Batch} :
    Closing retentionDays
      { l with recorder := l.recorder.perform t, flushing, batches } := by
  have hdays : (l.recorder.perform t).retentionDays = retentionDays := by
    obtain ⟨r, -, hmoves, -, hperform⟩ | ⟨-, hmoves⟩ := l.recorder.perform_cases t
    · rw [hperform, Recorder.retentionDays_flushBuffer, hmoves.retentionDays, h.retentionDays]
    · rw [hmoves.retentionDays, h.retentionDays]
  cases hdrained : l.recorder.phase.isDrained with
  | true =>
    obtain ⟨hafter, hqueue, hbuffer⟩ := Recorder.perform_of_isDrained hdrained t
    refine ⟨hdays, fun hnot => ?_, fun _ => ?_, fun hflushed => ?_⟩
    · rw [hafter] at hnot
      cases hnot
    · change (l.recorder.perform t).queue.waiting = l.late
      rw [hqueue, h.late hdrained]
    · obtain hbuffer | ⟨hbuffer, hsame⟩ := hbuffer
      · exact hbuffer
      · exact hbuffer.trans (h.buffer (hsame ▸ hflushed))
  | false =>
    obtain hafter | ⟨hphase, hqueue⟩ :=
      Recorder.perform_of_not_isDrained (h.retentionDays ▸ htime) hdrained
    · refine ⟨hdays, fun _ => h.early hdrained, fun hnot => ?_, fun hflushed => ?_⟩
      · rw [hafter] at hnot
        cases hnot
      · rw [Phase.isDrained_of_isFlushed hflushed] at hafter
        cases hafter
    · refine ⟨hdays, fun hnot => ?_, fun _ => ?_, fun hflushed => ?_⟩
      · simp [hphase, Phase.isDrained] at hnot
      · exact hqueue.trans (h.early hdrained).symm
      · simp [hphase, Phase.isFlushed] at hflushed

theorem step_of (h : l.Closing retentionDays) (hbalanced : l.Balanced) {a : Action} {m : Ledger}
    (hstep : l.Step a m) (htime : ∀ t, a = .perform t → t.InTime retentionDays) :
    m.Closing retentionDays := by
  cases hstep with
  | accept row queue hqueue =>
    refine ⟨h.retentionDays, fun hnot => ?_, fun hdrained => ?_, h.buffer⟩
    · change (if l.recorder.phase.isDrained then l.late ++ [row] else l.late) = []
      rw [if_neg (Bool.not_eq_true _ ▸ hnot), h.early hnot]
    · change queue.waiting = if l.recorder.phase.isDrained then l.late ++ [row] else l.late
      rw [if_pos hdrained, hqueue, h.late hdrained]
  | refuse => exact h
  | beginFlush => exact ⟨h.retentionDays, h.early, h.late, h.buffer⟩
  | draw hdraw =>
    -- A draw is part of a flush of the running recorder, or of the drain that follows the loop.
    have hnot : l.recorder.phase.isDrained = false := by
      obtain hflushing | hleft := hdraw
      · rw [hbalanced.flushing hflushing]
        rfl
      · rw [hleft]
        rfl
    have hphase : l.recorder.draw.phase.isDrained = false := by rwa [Recorder.phase_draw]
    refine ⟨l.recorder.moves_draw.retentionDays.trans h.retentionDays, fun _ => h.early hnot,
      fun hdrained => ?_, fun hflushed => ?_⟩
    · rw [hphase] at hdrained
      cases hdrained
    · rw [Phase.isDrained_of_isFlushed hflushed] at hphase
      cases hphase
  | quiet t => exact h.perform (htime t rfl)
  | flush t r hr hmoves hbackend hperform => exact hperform ▸ h.perform (htime t rfl)
  | fault => exact ⟨h.retentionDays, h.early, h.late, h.buffer⟩

theorem run (h : l.Closing retentionDays) (hbalanced : l.Balanced) {actions : List Action}
    (htime : ∀ t, .perform t ∈ actions → t.InTime retentionDays) :
    (l.run actions).Closing retentionDays := by
  induction actions generalizing l with
  | nil => exact h
  | cons a actions ih =>
    have hstep := l.step_cases a
    refine ih (h.step_of hbalanced hstep fun t ha => htime t ?_) (hbalanced.step_of hstep)
      fun t hmem => htime t (List.mem_cons_of_mem _ hmem)
    rw [ha]
    exact List.mem_cons_self

end Closing

theorem closing_start (backend : Backend) (retentionDays : Option UInt32) :
    (start backend retentionDays).Closing retentionDays :=
  ⟨rfl, fun _ => rfl, fun _ => rfl, fun _ => rfl⟩

/-! ## Runs -/

/-- When the recorder is gone, the rows that never reached the backend are those accepted late. -/
theorem Closing.passed_append_late {retentionDays : Option UInt32} {l : Ledger}
    (h : l.Closing retentionDays) (hbalanced : l.Balanced)
    (hstopped : l.recorder.phase = .stopped) : l.passed ++ l.late = l.accepted := by
  have hqueue := h.late (by rw [hstopped]; rfl)
  have hbuffer := h.buffer (by rw [hstopped]; rfl)
  simpa [hbuffer, hqueue] using hbalanced.rows

/-- The end of a recorder, with nothing recorded meanwhile. -/
def wholeShutdown : List Action :=
  [.perform .leave, .perform .drain, .perform .flushLast, .perform .closeBackend, .perform .stop]

theorem run_wholeShutdown {l : Ledger} (hflushing : l.flushing = false) :
    (l.run wholeShutdown).recorder = l.recorder.shutdown ∧
      (l.run wholeShutdown).late = l.late ∧ (l.run wholeShutdown).accepted = l.accepted := by
  simp [wholeShutdown, step, perform, hflushing, Recorder.shutdown, Recorder.perform]

/-- A running recorder that is shut down without a row being recorded meanwhile has passed on every
row that it accepted. -/
theorem passed_wholeShutdown {backend : Backend} {retentionDays : Option UInt32}
    {actions : List Action} (htime : ∀ t, .perform t ∈ actions → t.InTime retentionDays)
    {l : Ledger} (hl : l = (start backend retentionDays).run actions)
    (hrunning : l.recorder.phase = .running) (hflushing : l.flushing = false) :
    (l.run wholeShutdown).recorder.phase = .stopped ∧
      (l.run wholeShutdown).passed = l.accepted := by
  have hbalanced : l.Balanced := hl ▸ (balanced_start backend retentionDays).run actions
  have hclosing : l.Closing retentionDays :=
    hl ▸ (closing_start backend retentionDays).run (balanced_start backend retentionDays) htime
  obtain ⟨hrecorder, hlate, haccepted⟩ := run_wholeShutdown hflushing
  have hstopped : (l.run wholeShutdown).recorder.phase = .stopped := by
    rw [hrecorder]
    unfold Recorder.shutdown Recorder.closeBackend
    cases hclose : (l.recorder.leave.drain.flushLast).backend.close <;>
      simp [Recorder.leave, Recorder.drain, Recorder.flushLast, Recorder.stop, hrunning]
  have hlater : (l.run wholeShutdown).Closing retentionDays :=
    hclosing.run hbalanced (by simp [wholeShutdown, Recorder.Task.InTime])
  have hafter := hlater.passed_append_late (hbalanced.run wholeShutdown) hstopped
  rw [hlate, hclosing.early (by rw [hrunning]; rfl), haccepted, List.append_nil] at hafter
  exact ⟨hstopped, hafter⟩

/-- When the recorder is gone, it has passed on the rows that it accepted, each once and in the
order in which they were accepted, except for those that it accepted after its last drain. These
never reach the backend, whatever their senders were told. -/
theorem passed_at_stop (backend : Backend) (retentionDays : Option UInt32) (actions : List Action)
    (htime : ∀ t, .perform t ∈ actions → t.InTime retentionDays)
    (hstopped : ((start backend retentionDays).run actions).recorder.phase = .stopped) :
    let l := (start backend retentionDays).run actions
    l.passed ++ l.late = l.accepted ∧ (l.passed = l.accepted ↔ l.late = []) := by
  intro l
  have hbalanced := balanced_start backend retentionDays
  have hrows : l.passed ++ l.late = l.accepted :=
    ((closing_start backend retentionDays).run hbalanced htime).passed_append_late
      (hbalanced.run actions) hstopped
  refine ⟨hrows, fun hall => ?_, fun hlate => ?_⟩
  · rw [← hall] at hrows
    exact List.append_right_eq_self.mp hrows
  · rw [← hrows, hlate, List.append_nil]

/-- A row that arrives before the end is passed on, and one that arrives after it is refused. -/
theorem passed_around_stop :
    let l := (start { store := .memory (.new 2) } none).run
      (.record (usageRow 10) :: wholeShutdown ++ [.record (usageRow 20)])
    l.recorder.phase = .stopped ∧ l.accepted = [usageRow 10] ∧ l.passed = l.accepted := by
  intro l
  have hstopped : l.recorder.phase = .stopped := rfl
  have hlate : l.late = [] := rfl
  obtain ⟨-, hall⟩ := passed_at_stop { store := .memory (.new 2) } none
    (.record (usageRow 10) :: wholeShutdown ++ [.record (usageRow 20)])
    (by simp [wholeShutdown, Recorder.Task.InTime]) hstopped
  exact ⟨hstopped, rfl, hall.mpr hlate⟩

/-- A row that arrives between the last drain and the end is accepted, and never passed on. And of
two rows of a host that arrive within a millisecond a table keeps one only, although both were
accepted and the flush succeeds. -/
theorem accepted_row_is_lost :
    (let l := (start { store := .memory (.new 2) } none).run
      [.perform .leave, .perform .drain, .record (usageRow 10), .perform .flushLast,
        .perform .closeBackend, .perform .stop]
    l.recorder.phase = .stopped ∧ l.accepted = [usageRow 10] ∧ l.passed = []) ∧
    (let l := (start { store := .table { path := "db" } } none).run
      [.record (usageRow 10), .record (usageRow 20), .perform .takeRow, .perform .takeRow]
    l.accepted = [usageRow 10, usageRow 20] ∧ l.recorder.flush.1.isOk = true ∧
      l.recorder.flush.2.backend.store.total = 1) := by
  refine ⟨⟨rfl, rfl, rfl⟩, rfl, ?_, ?_⟩
  · decide +kernel
  · decide +kernel

end Ledger
end FleetWatch.History
