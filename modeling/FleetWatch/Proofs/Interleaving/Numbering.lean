import FleetWatch.Proofs.Interleaving.Queues
import FleetWatch.Proofs.Interleaving.Recorded

/-!
# Numbers

Throughout every run, the numbers of deltas increase, and the number that a dashboard reads divides
them: the deltas up to it were made from what was read before the dashboard read, and the deltas
after it were not yet taken by the fan-out when it registered.

## Main definitions

* `System.issued`: the deltas that have numbers.
* `Numbered`: the invariant.
-/
namespace FleetWatch.Interleaving

/-- The delta that has a number and is not handed over yet. -/
def Tick.unsent : Tick → List Delta
  | .numbered d => [d]
  | _ => []

/-- The deltas that have been handed over, and the one that will be or be dropped. -/
def System.issued (s : System) : List Delta := s.deltas ++ s.tick.unsent

/-- The number that has been read. -/
def Stage.number? : Stage → Option Nat
  | .registered => none
  | .numbered seq | .copied seq .. | .shown seq .. => some seq

/-- How long the log was when the entries of the agents were copied. -/
def Stage.agentsAt? : Stage → Option Nat
  | .registered | .numbered _ => none
  | .copied _ _ agentsAt => some agentsAt
  | .shown _ reading _ _ => some reading.agentsAt

/-- The number that a dashboard read divides the deltas into those that were made from what was
read before the dashboard read, and those that were handed over after it had registered. -/
structure Divides (s : System) (a : Attachment) (n : Nat) : Prop where
  le : n ≤ s.hub.seq
  before : ∀ d ∈ s.deltas.take a.since, d.seq ≤ n
  reading_le : ∀ k, a.stage.agentsAt? = some k → ∀ d ∈ s.issued, d.seq ≤ n → d.reading.ownAt ≤ k

/-- The numbers of deltas increase, and those that dashboards read divide them. -/
structure Numbered (s : System) : Prop where
  sorted : s.issued.Pairwise fun d e => d.seq < e.seq
  seq_le : ∀ d ∈ s.issued, d.seq ≤ s.hub.seq
  divides : ∀ a ∈ s.attachments, ∀ n, a.stage.number? = some n → Divides s a n

namespace Numbered

theorem start (machine : String) (settings : Settings) (directory : Directory) (capacity : Nat) :
    Numbered (.start machine settings directory capacity) := by
  constructor <;> simp [System.start, System.issued, Tick.unsent]

/-- What has been issued was made from a reading of the log. -/
theorem isOf_of_mem_issued {s : System} (hr : Recorded s) {d : Delta} (hd : d ∈ s.issued) :
    d.reading.IsOf s.log := by
  rcases List.mem_append.mp hd with hd | hd
  · exact hr.deltas d hd
  · cases ht : s.tick with
    | numbered e =>
      rw [ht] at hd
      rw [List.mem_singleton.mp hd]
      exact hr.tick_of_eq ht
    | _ => simp [ht, Tick.unsent] at hd

/-- A step that issues nothing and concerns no dashboard. -/
theorem of_sublist {s t : System} (h : Numbered s) (hissued : t.issued.Sublist s.issued)
    (hseq : t.hub.seq = s.hub.seq) (hatt : t.attachments = s.attachments)
    (htake : ∀ a ∈ s.attachments, t.deltas.take a.since = s.deltas.take a.since) :
    Numbered t := by
  refine ⟨h.sorted.sublist hissued, ?_, ?_⟩
  · rw [hseq]
    exact fun d hd => h.seq_le d (hissued.subset hd)
  · intro a ha n hn
    rw [hatt] at ha
    obtain ⟨hle, hbefore, hreading⟩ := h.divides a ha n hn
    refine ⟨by rw [hseq]; exact hle, by rw [htake a ha]; exact hbefore, ?_⟩
    exact fun k hk d hd => hreading k hk d (hissued.subset hd)

/-- A step that issues nothing and changes only what dashboards are queued and receive. -/
theorem of_stages {s t : System} (h : Numbered s) (hdeltas : t.deltas = s.deltas)
    (htick : t.tick = s.tick) (hseq : t.hub.seq = s.hub.seq)
    (hatt : ∀ a ∈ t.attachments, a.stage.number? = none ∨
      ∃ b ∈ s.attachments, a.since = b.since ∧ a.stage = b.stage) : Numbered t := by
  have hissued : t.issued = s.issued := by rw [System.issued, hdeltas, htick, System.issued]
  refine ⟨by rw [hissued]; exact h.sorted, by rw [hissued, hseq]; exact h.seq_le, ?_⟩
  intro a ha n hn
  obtain hnone | ⟨b, hb, hsince, hstage⟩ := hatt a ha
  · simp [hnone] at hn
  · rw [hstage] at hn
    obtain ⟨hle, hbefore, hreading⟩ := h.divides b hb n hn
    refine ⟨by rw [hseq]; exact hle, by rw [hdeltas, hsince]; exact hbefore, ?_⟩
    rw [hissued, hstage]
    exact hreading

theorem number {s : System} (h : Numbered s) {now : Time.Instant} {reading : Reading}
    {changes : List Change} (htick : s.tick = .found now reading changes) :
    Numbered
      { s with
        hub := { s.hub with seq := s.hub.seq + 1 }
        tick := .numbered ⟨s.hub.seq + 1, now, reading, changes⟩ } := by
  have hissued : s.issued = s.deltas := by simp [System.issued, htick, Tick.unsent]
  have hle := h.seq_le
  rw [hissued] at hle
  refine ⟨?_, ?_, ?_⟩
  · refine List.pairwise_append.mpr ⟨?_, List.pairwise_singleton _ _, ?_⟩
    · have := h.sorted
      rwa [hissued] at this
    · intro d hd e he
      rw [List.mem_singleton.mp he]
      exact Nat.lt_succ_of_le (hle d hd)
  · intro d hd
    rcases List.mem_append.mp hd with hd | hd
    · exact Nat.le_succ_of_le (hle d hd)
    · obtain rfl := List.mem_singleton.mp hd
      exact Nat.le_refl _
  · intro a ha n hn
    obtain ⟨hnle, hbefore, hreading⟩ := h.divides a ha n hn
    refine ⟨Nat.le_succ_of_le hnle, hbefore, ?_⟩
    intro k hk d hd hdn
    rcases List.mem_append.mp hd with hd | hd
    · exact hreading k hk d (by rw [hissued]; exact hd) hdn
    · -- the new number is higher than any that was read
      rw [List.mem_singleton.mp hd] at hdn
      dsimp only at hdn
      omega

theorem advance {s : System} (h : Numbered s) (hr : Recorded s) {b : Attachment}
    (hb : b ∈ s.attachments) (profiles : List Profile) (now : Time.Instant) {n : Nat}
    (hn : (s.advance profiles now b).stage.number? = some n) :
    Divides s (s.advance profiles now b) n := by
  have hdivides := h.divides b hb
  obtain ⟨since, queued, received, stage⟩ := b
  cases stage with
  | registered =>
    obtain rfl := Option.some.inj hn
    refine ⟨Nat.le_refl _, ?_, by simp [System.advance, Stage.agentsAt?]⟩
    exact fun d hd => h.seq_le d (List.mem_append_left _ (List.mem_of_mem_take hd))
  | numbered seq =>
    obtain ⟨hle, hbefore, -⟩ := hdivides n hn
    refine ⟨hle, hbefore, ?_⟩
    intro k hk d hd _
    -- all that has a number by now was read from the log as it is by now
    obtain rfl := Option.some.inj hk
    exact (isOf_of_mem_issued hr hd).2
  | copied seq agents agentsAt =>
    obtain ⟨hle, hbefore, hreading⟩ := hdivides n hn
    exact ⟨hle, hbefore, hreading⟩
  | shown seq reading now' views => exact hdivides n hn

theorem step {s t : System} (h : Numbered s) (hq : Queued s) (hr : Recorded s) (hs : s.Step t) :
    Numbered t := by
  cases hs with
  | copy hidle =>
    exact h.of_sublist (by simp [System.issued, hidle, Tick.unsent]) rfl rfl fun _ _ => rfl
  | findNothing now htick hnone =>
    exact h.of_sublist (by simp [System.issued, htick, Tick.unsent]) rfl rfl fun _ _ => rfl
  | find now htick =>
    exact h.of_sublist (by simp [System.issued, htick, Tick.unsent]) rfl rfl fun _ _ => rfl
  | number htick => exact h.number htick
  | defer htick =>
    exact h.of_sublist (by simp [System.issued, htick, Tick.unsent]) rfl rfl fun _ _ => rfl
  | hand htick hoffer =>
    refine h.of_sublist (by simp [System.issued, htick, Tick.unsent]) rfl rfl ?_
    intro a ha
    obtain ⟨id, hid⟩ := List.mem_iff_getElem?.mp ha
    obtain ⟨n, hsince, hn, -, -⟩ := hq.queued id a hid
    have haddressed := s.addressed_le_taken
    have htaken := hq.taken_le
    exact List.take_append_of_le_length (by omega)
  | commit htick =>
    exact h.of_sublist (by simp [System.issued, htick, Tick.unsent]) rfl rfl fun _ _ => rfl
  | serve | receive =>
    refine h.of_stages rfl rfl rfl ?_
    intro a ha
    obtain ⟨b, hb, rfl | rfl⟩ := exists_of_mem_modify ha
    · exact .inr ⟨a, hb, rfl, rfl⟩
    · exact .inr ⟨b, hb, rfl, rfl⟩
  | arrive origin =>
    refine h.of_stages rfl rfl rfl ?_
    intro a ha
    rcases List.mem_append.mp ha with ha | ha
    · exact .inr ⟨a, ha, rfl, rfl⟩
    · rw [List.mem_singleton.mp ha]
      exact .inl rfl
  | attach id profiles now =>
    refine ⟨h.sorted, h.seq_le, ?_⟩
    intro a ha n hn
    obtain ⟨b, hb, rfl | rfl⟩ := exists_of_mem_modify ha
    · obtain ⟨hle, hbefore, hreading⟩ := h.divides a hb n hn
      exact ⟨hle, hbefore, hreading⟩
    · obtain ⟨hle, hbefore, hreading⟩ := h.advance hr hb profiles now hn
      exact ⟨hle, hbefore, hreading⟩
  | _ =>
    refine ⟨h.sorted, h.seq_le, ?_⟩
    intro a ha n hn
    obtain ⟨hle, hbefore, hreading⟩ := h.divides a ha n hn
    exact ⟨hle, hbefore, hreading⟩

end Numbered

end FleetWatch.Interleaving
