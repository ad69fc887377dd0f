import FleetWatch.Proofs.Dispatch.DeltaStream
import FleetWatch.Proofs.History.Batching

/-!
# The ledger of a recorder

A recorder beside which is written down which rows it accepted and which batches it passed on. Rows
may be recorded between any two steps of the recorder, also while it drains its queue on request or
at its end, and the backend may go out of service and come back at any time. No row is lost on the
way to the backend, whatever the order of the steps, and none is passed on twice or out of turn; and
what the backend holds does not show how the rows were batched.

## Main definitions

* `History.Ledger`, `Ledger.Action`, `Ledger.step`, `Ledger.run`.
* `Ledger.passed`, `Ledger.kept`: the rows of all batches, and of those that the backend kept.
* `Ledger.Balanced`: what every step preserves.
-/
namespace FleetWatch.History

open Queue

def Phase.isDrained : Phase → Bool
  | .running | .left => false
  | .drained | .flushed | .closed | .stopped => true

def Recorder.Task.isFlush : Recorder.Task → Bool
  | .flush => true
  | _ => false

/-- A recorder with the rows that it accepted, those of them that it accepted when its queue had
been drained for the last time, and the batches that it passed on. It may be in the middle of a
flush that was asked for, while its queue is drained. -/
structure Ledger where
  recorder : Recorder
  flushing : Bool := false
  accepted : List Row := []
  late : List Row := []
  batches : List Batch := []

namespace Ledger

inductive Action where
  | record (row : Row)
  /-- A flush is asked for. -/
  | beginFlush
  /-- A drain takes one row. -/
  | draw
  | perform (task : Recorder.Task)
  /-- The backend goes out of service or comes back. -/
  | fault (down : Bool)

/-- A recorder that has accepted nothing yet. -/
def start (backend : Backend) (retentionDays : Option UInt32) : Ledger where
  recorder := { backend, retentionDays }

/-- A task is done, if no flush is under way or the task is that flush. -/
def perform (l : Ledger) (task : Recorder.Task) : Ledger :=
  if l.flushing ∧ !task.isFlush then l
  else { l with
    recorder := l.recorder.perform task
    flushing := false
    batches := l.batches ++ (l.recorder.passes? task).toList }

def step (l : Ledger) : Action → Ledger
  | .record row =>
    let (taken, recorder) := l.recorder.record row
    { l with
      recorder
      accepted := if taken then l.accepted ++ [row] else l.accepted
      late := if taken ∧ l.recorder.phase.isDrained then l.late ++ [row] else l.late }
  | .beginFlush => if l.recorder.phase = .running then { l with flushing := true } else l
  | .draw =>
    if l.flushing ∨ l.recorder.phase = .left then { l with recorder := l.recorder.draw } else l
  | .perform task => l.perform task
  | .fault down => { l with recorder.backend.down := down }

def run (l : Ledger) (actions : List Action) : Ledger := actions.foldl step l

@[simp] theorem run_nil (l : Ledger) : l.run [] = l := rfl

@[simp] theorem run_cons (l : Ledger) (a : Action) (actions : List Action) :
    l.run (a :: actions) = (l.step a).run actions := rfl

/-- The rows of all batches, in the order in which they were passed on. -/
def passed (l : Ledger) : List Row := l.batches.flatMap Batch.rows

def kept (l : Ledger) : List Row := (l.batches.filter Batch.kept).flatMap Batch.rows

/-! ## What a step can do -/

/-- What a step can do: accept a row, move rows, or move rows and pass on what is buffered. -/
inductive Step (l : Ledger) : Action → Ledger → Prop where
  | accept (row : Row) (queue : Bounded Row)
      (hqueue : queue.waiting = l.recorder.queue.waiting ++ [row]) :
      Step l (.record row) { l with
        recorder := { l.recorder with queue }, accepted := l.accepted ++ [row]
        late := if l.recorder.phase.isDrained then l.late ++ [row] else l.late }
  | refuse (a : Action) : Step l a l
  | beginFlush (h : l.recorder.phase = .running) : Step l .beginFlush { l with flushing := true }
  | draw (h : l.flushing = true ∨ l.recorder.phase = .left) :
      Step l .draw { l with recorder := l.recorder.draw }
  | quiet (t : Recorder.Task) (hflushing : l.flushing = true → t.isFlush = true)
      (hquiet : l.recorder.flushing? t = none) :
      Step l (.perform t) { l with recorder := l.recorder.perform t, flushing := false }
  | flush (t : Recorder.Task) (r : Recorder) (hr : l.recorder.flushing? t = some r)
      (hmoves : l.recorder.Moves r) (hbackend : r.backend = l.recorder.backend)
      (hperform : l.recorder.perform t = r.flushBuffer.2) :
      Step l (.perform t) { l with
        recorder := r.flushBuffer.2, flushing := false, batches := l.batches ++ r.batch?.toList }
  | fault (down : Bool) : Step l (.fault down) { l with recorder.backend.down := down }

/-- A task that is not held up by a flush in progress. -/
theorem step_perform (l : Ledger) (t : Recorder.Task)
    (hflushing : l.flushing = true → t.isFlush = true) :
    l.Step (.perform t) { l with
      recorder := l.recorder.perform t, flushing := false
      batches := l.batches ++ (l.recorder.passes? t).toList } := by
  obtain ⟨r, hr, hmoves, hbackend, hperform⟩ | ⟨hquiet, -⟩ := l.recorder.perform_cases t
  · have hstep := Step.flush t r hr hmoves hbackend hperform
    rwa [← hperform, ← Option.bind_some r Recorder.batch?, ← hr] at hstep
  · have hstep := Step.quiet t hflushing hquiet
    have hnothing : l.recorder.passes? t = none := by rw [Recorder.passes?, hquiet]; rfl
    rwa [hnothing, Option.toList_none, List.append_nil]

theorem step_cases (l : Ledger) (a : Action) : l.Step a (l.step a) := by
  cases a with
  | record row =>
    by_cases hphase : l.recorder.phase = .stopped
    · simpa [step, Recorder.record, hphase] using Step.refuse (.record row)
    · cases hqueue : l.recorder.queue.offer? row with
      | none => simpa [step, Recorder.record, hphase, hqueue] using Step.refuse (.record row)
      | some queue =>
        simpa [step, Recorder.record, hphase, hqueue] using
          Step.accept row queue (Bounded.waiting_of_offer? hqueue).1
  | beginFlush =>
    rw [step]
    split
    · exact .beginFlush ‹_›
    · exact .refuse _
  | draw =>
    rw [step]
    split
    · exact .draw ‹_›
    · exact .refuse _
  | perform t =>
    rw [step, perform]
    split
    · exact .refuse _
    · next hfree => exact l.step_perform t (by simpa using hfree)
  | fault down => exact .fault down

/-! ## What every step preserves -/

/-- Every accepted row has been passed on, or is buffered, or waits, in the order in which the rows
were accepted; every row received was kept, or is counted as failed, or is buffered; and a recorder
that runs and is not in the middle of a flush has room in its buffer. -/
structure Balanced (l : Ledger) : Prop where
  rows : l.passed ++ l.recorder.buffer ++ l.recorder.queue.waiting = l.accepted
  received : l.recorder.counters.received =
    l.kept.length + l.recorder.counters.failedRows + l.recorder.buffer.length
  flushing : l.flushing = true → l.recorder.phase = .running
  buffered : l.recorder.phase = .running → l.flushing = false →
    l.recorder.buffer.length < batchSize

theorem balanced_start (backend : Backend) (retentionDays : Option UInt32) :
    (start backend retentionDays).Balanced :=
  ⟨rfl, rfl, by simp [start], fun _ _ => by simp [start, batchSize]⟩

namespace Balanced
variable {l : Ledger}

theorem rows_of_moves (h : l.Balanced) {r : Recorder} (hmoves : l.recorder.Moves r) :
    l.passed ++ r.buffer ++ r.queue.waiting = l.accepted := by
  rw [List.append_assoc, hmoves.rows, ← List.append_assoc, h.rows]

theorem received_of_moves (h : l.Balanced) {r : Recorder} (hmoves : l.recorder.Moves r) :
    r.counters.received = l.kept.length + r.counters.failedRows + r.buffer.length := by
  have := h.received
  have := hmoves.received
  have := hmoves.failedRows
  omega

theorem step_of {a : Action} {m : Ledger} (h : l.Balanced) (hstep : l.Step a m) : m.Balanced := by
  cases hstep with
  | accept row queue hqueue =>
    refine ⟨?_, h.received, h.flushing, h.buffered⟩
    change l.passed ++ l.recorder.buffer ++ queue.waiting = l.accepted ++ [row]
    rw [hqueue, ← List.append_assoc, h.rows]
  | refuse => exact h
  | beginFlush hrunning =>
    exact ⟨h.rows, h.received, fun _ => hrunning, by simp⟩
  | draw hdraw =>
    have hmoves := l.recorder.moves_draw
    refine ⟨h.rows_of_moves hmoves, h.received_of_moves hmoves,
      fun hf => l.recorder.phase_draw.trans (h.flushing hf), fun hrunning hnot => ?_⟩
    -- A running recorder draws in the middle of a flush only.
    rw [Recorder.phase_draw] at hrunning
    simp_all
  | quiet t hflushing hquiet =>
    have hmoves : l.recorder.Moves (l.recorder.perform t) := by
      obtain ⟨r, hr, -⟩ | ⟨-, hmoves⟩ := l.recorder.perform_cases t
      · rw [hquiet] at hr
        cases hr
      · exact hmoves
    refine ⟨h.rows_of_moves hmoves, h.received_of_moves hmoves, (by simp),
      fun hrunning _ => ?_⟩
    have hbefore := Recorder.running_of_perform hrunning
    cases hf : l.flushing with
    | true =>
      cases t <;> simp [Recorder.Task.isFlush, hf] at hflushing
      simp [Recorder.flushing?, hbefore] at hquiet
    | false =>
      obtain ⟨hsame | hshort, -⟩ := Recorder.perform_of_running hrunning hquiet
      · exact hsame ▸ h.buffered hbefore hf
      · exact hshort
  | flush t r hr hmoves hbackend hperform =>
    refine ⟨?_, ?_, (by simp), fun _ _ => by simp [batchSize]⟩
    · have hrows := h.rows_of_moves hmoves
      simpa [passed, List.flatMap_append, r.rows_batch?] using hrows
    · have hreceived := h.received_of_moves hmoves
      have hfailed := r.failedRows_flushBuffer
      simp only [kept, List.filter_append, List.flatMap_append, List.length_append,
        Recorder.received_flushBuffer, Recorder.buffer_flushBuffer, List.length_nil] at hreceived ⊢
      omega
  | fault down => exact ⟨h.rows, h.received, h.flushing, h.buffered⟩

theorem run (h : l.Balanced) (actions : List Action) : (l.run actions).Balanced := by
  induction actions generalizing l with
  | nil => exact h
  | cons a actions ih => exact ih (h.step_of (l.step_cases a))

end Balanced

/-! ## What the backend holds -/

/-- While no batch has failed, a running recorder's backend holds what it would hold had it been
given the rows one by one. -/
def Transparent (backend : Backend) (l : Ledger) : Prop :=
  l.recorder.phase = .running → (∀ b ∈ l.batches, b.kept = true) →
    l.passed.foldlM (fun b row => b.append [row]) { backend with down := false } =
      .ok { l.recorder.backend with down := false }

namespace Transparent
variable {backend : Backend} {l : Ledger}

theorem flush (h : l.Transparent backend) {r : Recorder} (hbackend : r.backend = l.recorder.backend)
    (hrunning : l.recorder.phase = .running)
    (hkept : ∀ b ∈ l.batches ++ r.batch?.toList, b.kept = true) :
    (l.passed ++ r.buffer).foldlM (fun b row => b.append [row]) { backend with down := false } =
      .ok { r.flushBuffer.2.backend with down := false } := by
  have hbefore := h hrunning fun b hb => hkept b (List.mem_append_left _ hb)
  have hbatch := Recorder.backend_flushBuffer (r := r) fun b hb =>
    hkept b (List.mem_append_right _ (Option.mem_toList.mpr hb))
  rw [List.foldlM_append, hbefore, ← hbackend]
  exact hbatch

theorem step_of (h : l.Transparent backend) {a : Action} {m : Ledger} (hstep : l.Step a m)
    (hclean : ∀ now, a ≠ .perform (.cleanUp now)) : m.Transparent backend := by
  cases hstep with
  | accept => exact h
  | refuse => exact h
  | beginFlush => exact h
  | draw =>
    intro hrunning hkept
    rw [Recorder.phase_draw] at hrunning
    change _ = Except.ok { l.recorder.draw.backend with down := false }
    rw [Recorder.backend_draw]
    exact h hrunning hkept
  | quiet t hflushing hquiet =>
    intro hrunning hkept
    have hbackend := (Recorder.perform_of_running hrunning hquiet).2 fun now ht =>
      hclean now (ht ▸ rfl)
    change _ = Except.ok { (l.recorder.perform t).backend with down := false }
    rw [hbackend]
    exact h (Recorder.running_of_perform hrunning) hkept
  | flush t r hr hmoves hbackend hperform =>
    intro hrunning hkept
    have hpassed : passed { l with
        recorder := r.flushBuffer.2, flushing := false, batches := l.batches ++ r.batch?.toList } =
        l.passed ++ r.buffer := by
      simp [passed, List.flatMap_append, r.rows_batch?]
    rw [hpassed]
    exact h.flush hbackend (Recorder.running_of_perform (t := t) (hperform ▸ hrunning)) hkept
  | fault => exact h

theorem run (h : l.Transparent backend) {actions : List Action}
    (hclean : ∀ now, .perform (.cleanUp now) ∉ actions) : (l.run actions).Transparent backend := by
  induction actions generalizing l with
  | nil => exact h
  | cons a actions ih =>
    refine ih (h.step_of (l.step_cases a) fun now ha => hclean now ?_) fun now hmem =>
      hclean now (List.mem_cons_of_mem _ hmem)
    rw [ha]
    exact List.mem_cons_self

end Transparent

/-! ## Runs -/

/-- The ledger after the end of a flush that succeeds. -/
theorem step_flush {l : Ledger} (h : l.recorder.flush.1 = .ok ()) :
    l.step (.perform .flush) = { l with
      recorder := l.recorder.flush.2, flushing := false
      batches := l.batches ++ l.recorder.drainQueue.batch?.toList } := by
  obtain ⟨hrunning, -⟩ := Recorder.flush_eq_of_ok h
  simp [step, perform, Recorder.Task.isFlush, Recorder.perform, Recorder.passes?,
    Recorder.flushing?, hrunning]

/-- Whatever the order of the steps, the accepted rows are those passed on, those buffered and those
that wait, in the order in which they were accepted. Between two of its messages a running recorder
has fewer rows in its buffer than fill it, and what it says that it received is what the backend
kept, what failed and what is buffered. A flush that succeeds leaves nothing in the buffer or the
queue; and if no batch has failed, and no cleanup has dropped rows, the backend then holds what it
would hold had it been given the accepted rows one by one. -/
theorem rows_conserved (backend : Backend) (retentionDays : Option UInt32)
    (actions : List Action) :
    let l := (start backend retentionDays).run actions
    l.passed ++ l.recorder.buffer ++ l.recorder.queue.waiting = l.accepted ∧
    (l.recorder.phase = .running → l.flushing = false →
      l.recorder.buffer.length < batchSize ∧
      ∃ s, l.recorder.stats = .ok s ∧ s.buffered = l.recorder.buffer.length ∧
        s.counters.received = l.kept.length + s.counters.failedRows + s.buffered) ∧
    (l.recorder.flush.1 = .ok () →
      (l.step (.perform .flush)).recorder = l.recorder.flush.2 ∧
      (l.step (.perform .flush)).passed = l.accepted ∧
      l.recorder.flush.2.buffer = [] ∧ l.recorder.flush.2.queue.waiting = [] ∧
      ((∀ now, .perform (.cleanUp now) ∉ actions) → (∀ b ∈ l.batches, b.kept = true) →
        ∃ after,
          l.accepted.foldlM (fun b row => b.append [row]) { backend with down := false } =
            .ok after ∧
          after.store = l.recorder.flush.2.backend.store)) := by
  intro l
  have hbalanced : l.Balanced := (balanced_start backend retentionDays).run actions
  refine ⟨hbalanced.rows, fun hrunning hflushing => ⟨hbalanced.buffered hrunning hflushing,
    ⟨l.recorder.counters, l.recorder.buffer.length⟩, ?_, rfl, hbalanced.received⟩, fun hok => ?_⟩
  · simp [Recorder.stats, Recorder.request, hrunning]
  · obtain ⟨hrunning, hflush⟩ := Recorder.flush_eq_of_ok hok
    have hstep := step_flush hok
    have hafter : (l.step (.perform .flush)).Balanced := hbalanced.step_of (l.step_cases _)
    have hbuffer : l.recorder.flush.2.buffer = [] := by rw [hflush]; simp
    have hqueue : l.recorder.flush.2.queue.waiting = [] := by rw [hflush]; simp
    have hpassed : (l.step (.perform .flush)).passed = l.accepted := by
      have hrows := hafter.rows
      rw [hstep] at hrows ⊢
      simpa [hbuffer, hqueue] using hrows
    refine ⟨by rw [hstep], hpassed, hbuffer, hqueue, fun hclean hkept => ?_⟩
    have hstart : (start backend retentionDays).Transparent backend := fun _ _ => rfl
    have htransparent : l.Transparent backend := hstart.run hclean
    have hlast : ∀ b ∈ l.recorder.drainQueue.batch?, b.kept = true :=
      (Recorder.flushBuffer_ok_iff _).mp (hflush ▸ hok)
    have hstore := htransparent.flush (r := l.recorder.drainQueue) rfl hrunning fun b hb =>
      (List.mem_append.mp hb).elim (hkept b) fun hb => hlast b (Option.mem_toList.mp hb)
    have hrows : l.passed ++ l.recorder.drainQueue.buffer = l.accepted := by
      rw [← hpassed, hstep]
      simp [passed, List.flatMap_append, Recorder.rows_batch?]
    rw [hrows, ← hflush] at hstore
    exact ⟨_, hstore, rfl⟩

/-- The row of an idle host whose processor is in use to some percent. -/
def usageRow (percent : Nat) : Row := .ofSnapshot "a" .epoch (.ofUsage percent)

/-- Three rows on their way into a memory for two: one is buffered, the next is drawn by a flush,
and the last arrives while that draws. -/
def drawnInto : Ledger :=
  (start { store := .memory (.new 2) } none).run
    [.record (usageRow 10), .perform .takeRow, .record (usageRow 20), .beginFlush, .draw,
      .record (usageRow 30)]

theorem drawnInto_conserved :
    drawnInto.recorder.flush.1 = .ok () ∧
    (drawnInto.step (.perform .flush)).passed = [usageRow 10, usageRow 20, usageRow 30] ∧
    ∃ after,
      [usageRow 10, usageRow 20, usageRow 30].foldlM (fun b row => b.append [row])
        ({ store := .memory (.new 2) } : Backend) = .ok after ∧
      after.store = drawnInto.recorder.flush.2.backend.store := by
  have hok : drawnInto.recorder.flush.1 = .ok () := rfl
  have haccepted : drawnInto.accepted = [usageRow 10, usageRow 20, usageRow 30] := rfl
  obtain ⟨-, -, hflush⟩ := rows_conserved { store := .memory (.new 2) } none
    [.record (usageRow 10), .perform .takeRow, .record (usageRow 20), .beginFlush, .draw,
      .record (usageRow 30)]
  obtain ⟨-, hpassed, -, -, hstore⟩ := hflush hok
  have hbatches : drawnInto.batches = [] := rfl
  have hkept : ∀ b ∈ drawnInto.batches, b.kept = true := hbatches ▸ List.forall_mem_nil _
  exact ⟨hok, hpassed.trans haccepted, haccepted ▸ hstore (by simp) hkept⟩

end Ledger
end FleetWatch.History
