import FleetWatch.Proofs.History.Readable

/-!
# Batches

Rows reach the backend in batches, and it makes no difference which: a backend that is given the
rows of a batch one by one ends up with the same store. On the recorder's side, everything that
passes rows on is a call of `flushBuffer`, and all the rest moves rows from the queue to the buffer
in their order.

## Main definitions

* `History.Batch`, `History.Recorder.batch?`: what `flushBuffer` passes to the backend.
* `History.Recorder.draw`: one row from the queue to the buffer; a queue is drained by such steps.
* `History.Recorder.flushing?`: the recorder as a task calls `flushBuffer`.
* `History.Recorder.Moves`: rows have moved towards the buffer, none has left.
-/
namespace FleetWatch.History

open Queue

/-! ## Backends do not see batches -/

/-- A fold that follows another one through a map ends where the map takes that one's end. -/
theorem foldlM_map {σ τ ε α : Type} {g : σ → τ} {f : σ → α → Except ε σ} {f' : τ → α → Except ε τ}
    (h : ∀ s a, f' (g s) a = (f s a).map g) (l : List α) (s : σ) :
    l.foldlM f' (g s) = (l.foldlM f s).map g := by
  induction l generalizing s with
  | nil => rfl
  | cons a l ih =>
    rw [List.foldlM_cons, List.foldlM_cons, h]
    cases f s a with
    | error e => rfl
    | ok s => exact ih s

namespace Table

/-- Rows stored together are stored as if one by one. -/
theorem append_eq_foldlM (t : Table) (rows : List Row) :
    t.append rows = rows.foldlM (fun t r => t.append [r]) t := by
  induction rows generalizing t with
  | nil => rfl
  | cons r rows ih =>
    cases hopen : t.isOpen with
    | false => simp [append, hopen, bind, Except.bind]
    | true =>
      have hrest : ∀ u : Table, u.isOpen = true →
          rows.foldlM
            (fun t r => do return t.put r.hostId r.timestamp.millis (← Cells.ofRow? r)) u =
            rows.foldlM (fun t r => t.append [r]) u := by
        intro u hu
        rw [← ih u, append, hu]
        cases rows <;> rfl
      rw [List.foldlM_cons]
      cases hc : Cells.ofRow? r with
      | error e => simp [append, hopen, hc, bind, Except.bind]
      | ok c =>
        simpa [append, hopen, hc, bind, Except.bind, pure, Except.pure] using
          hrest (t.put r.hostId r.timestamp.millis c) hopen

end Table

namespace Backend

theorem append_of_up {b : Backend} (h : b.down = false) (rows : List Row) :
    b.append rows = rows.foldlM (fun b r => b.append [r]) b := by
  obtain ⟨store, down⟩ := b
  obtain rfl : down = false := h
  cases store with
  | memory m =>
    induction rows generalizing m with
    | nil => rfl
    | cons r rows ih => exact ih (m.append [r])
  | table t =>
    let g (t : Table) : Backend := ⟨.table t, false⟩
    have hsome : ∀ (t : Table) (rows : List Row), (g t).append rows = (t.append rows).map g := by
      intro t rows
      cases ht : t.append rows <;>
        simp [g, append, withStore, ht, bind, Except.bind, pure, Except.pure, Except.map]
    rw [hsome t rows, t.append_eq_foldlM]
    exact (foldlM_map (g := g) (fun t r => hsome t [r]) rows t).symm

/-- Storing rows does not put a backend out of service. -/
theorem down_of_append {b b' : Backend} {rows : List Row} (h : b.append rows = .ok b') :
    b.down = false ∧ b'.down = false := by
  have hup : b.down = false := by
    cases hdown : b.down with
    | false => rfl
    | true => simp [append, withStore, hdown] at h
  refine ⟨hup, ?_⟩
  have hstore := of_withStore h
  cases hold : b.store with
  | memory m =>
    rw [hold] at hstore
    obtain rfl := Except.ok.inj hstore
    exact hup
  | table t =>
    rw [hold] at hstore
    obtain ⟨u, -, hu⟩ := bind_eq_ok_iff.mp hstore
    obtain rfl := Except.ok.inj hu
    exact hup

/-- A backend that has kept rows has kept them as if given one by one. -/
theorem foldlM_of_append {b b' : Backend} {rows : List Row} (h : b.append rows = .ok b') :
    rows.foldlM (fun b r => b.append [r]) { b with down := false } =
      .ok { b' with down := false } := by
  obtain ⟨hup, hup'⟩ := down_of_append h
  have hb : ({ b with down := false } : Backend) = b := by rw [← hup]
  have hb' : ({ b' with down := false } : Backend) = b' := by rw [← hup']
  rw [hb, hb', ← append_of_up hup, h]

end Backend

/-! ## What is passed on -/

/-- A batch that was passed to the backend, and whether that kept it. -/
structure Batch where
  rows : List Row
  kept : Bool

namespace Recorder

/-- What `flushBuffer` passes to the backend. -/
def batch? (r : Recorder) : Option Batch :=
  if r.buffer.isEmpty then none else some ⟨r.buffer, (r.backend.append r.buffer).isOk⟩

@[simp] theorem queue_flushBuffer (r : Recorder) : r.flushBuffer.2.queue = r.queue := by
  unfold flushBuffer
  split
  · rfl
  · split <;> rfl

@[simp] theorem phase_flushBuffer (r : Recorder) : r.flushBuffer.2.phase = r.phase := by
  unfold flushBuffer
  split
  · rfl
  · split <;> rfl

@[simp] theorem retentionDays_flushBuffer (r : Recorder) :
    r.flushBuffer.2.retentionDays = r.retentionDays := by
  unfold flushBuffer
  split
  · rfl
  · split <;> rfl

@[simp] theorem buffer_flushBuffer (r : Recorder) : r.flushBuffer.2.buffer = [] := by
  unfold flushBuffer
  split
  · next h => exact List.isEmpty_iff.mp h
  · split <;> rfl

@[simp] theorem received_flushBuffer (r : Recorder) :
    r.flushBuffer.2.counters.received = r.counters.received := by
  unfold flushBuffer
  split
  · rfl
  · split <;> rfl

/-- Every row of the buffer is passed on. -/
theorem rows_batch? (r : Recorder) : r.batch?.toList.flatMap Batch.rows = r.buffer := by
  unfold batch?
  split
  · next h => exact (List.isEmpty_iff.mp h).symm
  · simp

/-- The rows of the buffer are kept by the backend or counted as failed. -/
theorem failedRows_flushBuffer (r : Recorder) :
    ((r.batch?.toList.filter Batch.kept).flatMap Batch.rows).length +
        r.flushBuffer.2.counters.failedRows = r.counters.failedRows + r.buffer.length := by
  unfold batch? flushBuffer
  split
  · next h => simp [List.isEmpty_iff.mp h]
  · cases r.backend.append r.buffer with
    | ok b => simp [Except.isOk, Except.toBool]; omega
    | error e => simp [Except.isOk, Except.toBool]

/-- A flush of the buffer succeeds exactly when there is nothing to pass on, or the backend keeps
the batch. -/
theorem flushBuffer_ok_iff (r : Recorder) :
    r.flushBuffer.1 = .ok () ↔ ∀ b ∈ r.batch?, b.kept = true := by
  unfold batch? flushBuffer
  split
  · simp
  · cases r.backend.append r.buffer <;> simp [Except.isOk, Except.toBool]

/-- The store after a batch was kept is the store that its rows make one by one. -/
theorem backend_flushBuffer {r : Recorder} (h : ∀ b ∈ r.batch?, b.kept = true) :
    r.buffer.foldlM (fun b row => b.append [row]) { r.backend with down := false } =
      .ok { r.flushBuffer.2.backend with down := false } := by
  unfold batch? at h
  unfold flushBuffer
  split
  · next hempty => rw [List.isEmpty_iff.mp hempty]; rfl
  · next hfull =>
    rw [if_neg hfull] at h
    cases hb : r.backend.append r.buffer with
    | ok b => exact Backend.foldlM_of_append hb
    | error e => simp [hb, Except.isOk, Except.toBool] at h

/-! ## What only moves rows -/

/-- Rows have moved from the queue to the buffer, in their order, and were counted. -/
structure Moves (r s : Recorder) : Prop where
  rows : s.buffer ++ s.queue.waiting = r.buffer ++ r.queue.waiting
  received : s.counters.received + r.buffer.length = r.counters.received + s.buffer.length
  failedRows : s.counters.failedRows = r.counters.failedRows
  retentionDays : s.retentionDays = r.retentionDays

@[refl] theorem Moves.refl (r : Recorder) : r.Moves r := ⟨rfl, rfl, rfl, rfl⟩

/-- Moves the oldest row that waits to the buffer. -/
def draw (r : Recorder) : Recorder :=
  match r.queue.take? with
  | some (row, queue) => { r with queue }.receive [row]
  | none => r

theorem moves_receive_take {r : Recorder} {row : Row} {queue : Bounded Row}
    (h : r.queue.take? = some (row, queue)) : r.Moves ({ r with queue }.receive [row]) where
  rows := by simp [receive, Bounded.waiting_of_take? h]
  received := by simp [receive]; omega
  failedRows := rfl
  retentionDays := rfl

theorem moves_draw (r : Recorder) : r.Moves r.draw := by
  unfold draw
  split
  · next h => exact moves_receive_take h
  · rfl

@[simp] theorem phase_draw (r : Recorder) : r.draw.phase = r.phase := by
  unfold draw
  split <;> rfl

@[simp] theorem backend_draw (r : Recorder) : r.draw.backend = r.backend := by
  unfold draw
  split <;> rfl

theorem moves_drainQueue (r : Recorder) : r.Moves r.drainQueue where
  rows := by simp [drainQueue, receive]
  received := by simp [drainQueue, receive]; omega
  failedRows := rfl
  retentionDays := rfl

@[simp] theorem waiting_drainQueue (r : Recorder) : r.drainQueue.queue.waiting = [] := by
  simp [drainQueue]

/-! ## What a task does -/

/-- The recorder as a task passes its buffer on, if the task does. -/
def flushing? (r : Recorder) : Task → Option Recorder
  | .takeRow =>
    if r.phase = .running ∧ r.queue.take?.isSome ∧ batchSize ≤ r.draw.buffer.length then some r.draw
    else none
  | .flushDue => if r.phase = .running then some r else none
  | .flush => if r.phase = .running then some r.drainQueue else none
  | .flushLast => if r.phase = .drained then some { r with phase := .flushed } else none
  | _ => none

/-- What a task passes to the backend. -/
def passes? (r : Recorder) (t : Task) : Option Batch := (r.flushing? t).bind batch?

theorem takeRow_eq (r : Recorder) :
    r.takeRow =
      if r.phase = .running ∧ r.queue.take?.isSome ∧ batchSize ≤ r.draw.buffer.length then
        r.draw.flushBuffer.2
      else if r.phase = .running then r.draw else r := by
  by_cases hphase : r.phase = .running
  · cases htake : r.queue.take? with
    | none => simp [takeRow, draw, hphase, htake]
    | some found =>
      obtain ⟨row, queue⟩ := found
      simp [takeRow, draw, store, hphase, htake]
  · simp [takeRow, hphase]

/-- The cleanup moves nothing. -/
theorem moves_cleanUp (r : Recorder) (now : Time.Instant) : r.Moves (r.cleanUp now) := by
  unfold cleanUp
  split
  · split
    · exact ⟨rfl, rfl, rfl, rfl⟩
    · dsimp only
      split <;> exact ⟨rfl, rfl, rfl, rfl⟩
  · rfl

/-- A task moves rows, and may then pass the buffer on. -/
theorem perform_cases (r : Recorder) (t : Task) :
    (∃ s, r.flushing? t = some s ∧ r.Moves s ∧ s.backend = r.backend ∧
      r.perform t = s.flushBuffer.2) ∨
    (r.flushing? t = none ∧ r.Moves (r.perform t)) := by
  cases t with
  | takeRow =>
    change _ ∨ (_ ∧ r.Moves r.takeRow)
    rw [takeRow_eq, flushing?]
    split
    · exact .inl ⟨_, rfl, r.moves_draw, r.backend_draw, (takeRow_eq r).trans (if_pos ‹_›)⟩
    · refine .inr ⟨rfl, ?_⟩
      split
      · exact r.moves_draw
      · rfl
  | flushDue =>
    by_cases h : r.phase = .running
    · exact .inl ⟨r, if_pos h, .refl r, rfl, if_pos h⟩
    · exact .inr ⟨if_neg h, by rw [perform, flushDue, if_neg h]⟩
  | flush =>
    by_cases h : r.phase = .running
    · exact .inl ⟨_, if_pos h, r.moves_drainQueue, rfl, by simp [perform, flush, request, h]⟩
    · exact .inr ⟨if_neg h, by simp only [perform, flush, request, if_neg h]; rfl⟩
  | cleanUp now => exact .inr ⟨rfl, r.moves_cleanUp now⟩
  | leave =>
    refine .inr ⟨rfl, ?_⟩
    change r.Moves r.leave
    unfold leave
    split
    · exact ⟨rfl, rfl, rfl, rfl⟩
    · rfl
  | drain =>
    refine .inr ⟨rfl, ?_⟩
    change r.Moves r.drain
    unfold drain
    split
    · obtain ⟨hrows, hreceived, hfailed, hdays⟩ := r.moves_drainQueue
      exact ⟨hrows, hreceived, hfailed, hdays⟩
    · rfl
  | flushLast =>
    by_cases h : r.phase = .drained
    · refine .inl ⟨_, if_pos h, ⟨rfl, rfl, rfl, rfl⟩, rfl, ?_⟩
      simp only [perform, flushLast, if_pos h]
      unfold flushBuffer
      split
      · rfl
      · dsimp only
        split <;> rfl
    · exact .inr ⟨if_neg h, by simp only [perform, flushLast, if_neg h]; rfl⟩
  | closeBackend =>
    refine .inr ⟨rfl, ?_⟩
    change r.Moves r.closeBackend
    unfold closeBackend
    split
    · split <;> exact ⟨rfl, rfl, rfl, rfl⟩
    · rfl
  | stop =>
    refine .inr ⟨rfl, ?_⟩
    change r.Moves r.stop
    unfold stop
    split
    · exact ⟨rfl, rfl, rfl, rfl⟩
    · rfl

/-- A flush succeeds only if the recorder runs. -/
theorem flush_eq_of_ok {r : Recorder} (h : r.flush.1 = .ok ()) :
    r.phase = .running ∧ r.flush = r.drainQueue.flushBuffer := by
  by_cases hrunning : r.phase = .running
  · exact ⟨hrunning, by simp [flush, request, hrunning]⟩
  · simp [flush, request, hrunning] at h

/-- A recorder that runs after a task ran before it. -/
theorem running_of_perform {r : Recorder} {t : Task} (h : (r.perform t).phase = .running) :
    r.phase = .running := by
  refine Decidable.byContradiction fun hphase => ?_
  cases t with
  | takeRow => simp [perform, takeRow, hphase] at h
  | flushDue => simp [perform, flushDue, hphase] at h
  | flush => simp [perform, flush, request, hphase] at h
  | cleanUp now => simp [perform, cleanUp, hphase] at h
  | leave => simp [perform, leave, hphase] at h
  | drain =>
    by_cases hleft : r.phase = .left
    · simp [perform, drain, hleft] at h
    · simp [perform, drain, hleft, hphase] at h
  | flushLast =>
    by_cases hdrained : r.phase = .drained
    · simp [perform, flushLast, hdrained] at h
    · simp [perform, flushLast, hdrained, hphase] at h
  | closeBackend =>
    by_cases hflushed : r.phase = .flushed
    · cases hclose : r.backend.close <;> simp [perform, closeBackend, hflushed, hclose] at h
    · simp [perform, closeBackend, hflushed, hphase] at h
  | stop =>
    by_cases hclosed : r.phase = .closed
    · simp [perform, stop, hclosed] at h
    · simp [perform, stop, hclosed, hphase] at h

/-- A task of a running recorder that passes nothing on does nothing but take a row, into a buffer
that it does not fill, or clean up, if the recorder runs on. -/
theorem perform_of_running {r : Recorder} {t : Task} (h : (r.perform t).phase = .running)
    (hnone : r.flushing? t = none) :
    ((r.perform t).buffer = r.buffer ∨ (r.perform t).buffer.length < batchSize) ∧
      ((∀ now, t ≠ .cleanUp now) → (r.perform t).backend = r.backend) := by
  have hrunning := running_of_perform h
  cases t with
  | takeRow =>
    rw [flushing?] at hnone
    have hfull : ¬(r.phase = .running ∧ r.queue.take?.isSome ∧
        batchSize ≤ r.draw.buffer.length) := by
      intro hfull
      rw [if_pos hfull] at hnone
      cases hnone
    have hdraw : r.perform .takeRow = r.draw := by
      change r.takeRow = _
      rw [takeRow_eq, if_neg hfull, if_pos hrunning]
    rw [hdraw]
    refine ⟨?_, fun _ => r.backend_draw⟩
    cases htake : r.queue.take? with
    | none => exact .inl (by simp [draw, htake])
    | some found =>
      exact .inr (Nat.not_le.mp fun hbuffer => hfull ⟨hrunning, by simp [htake], hbuffer⟩)
  | flushDue => exact absurd hrunning (by simpa [flushing?] using hnone)
  | flush => exact absurd hrunning (by simpa [flushing?] using hnone)
  | cleanUp now =>
    refine ⟨.inl ?_, fun hother => absurd rfl (hother now)⟩
    change (r.cleanUp now).buffer = _
    unfold cleanUp
    split
    · split
      · rfl
      · dsimp only
        split <;> rfl
    · rfl
  | leave => simp [perform, leave, hrunning] at h
  | drain => simp [perform, drain, hrunning]
  | flushLast => simp [perform, flushLast, hrunning]
  | closeBackend => simp [perform, closeBackend, hrunning]
  | stop => simp [perform, stop, hrunning]

end Recorder
end FleetWatch.History
