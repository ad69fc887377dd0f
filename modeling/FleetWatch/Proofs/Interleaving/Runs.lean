import FleetWatch.Proofs.Dashboard.FullView
import FleetWatch.Proofs.Interleaving.Followed
import FleetWatch.Proofs.Interleaving.Numbering

/-!
# Runs

What holds throughout every run, for all orders of the steps of agents, dispatcher, fan-out and
dashboards: no delta passes a dashboard by. Those with higher numbers than its full view are queued
for it, and those with lower ones tell nothing that is newer than what it is shown.

## Main definitions

* `Invariant`: all invariants.
* `System.IsOneHost`: a host is not both an agent's and the hub's own machine.
* `Supersedes`: a full view shows of a host the write that a delta was made from, or a later one.
-/
namespace FleetWatch.Interleaving

open Dashboard

/-- Everything that is kept by all steps. -/
structure Invariant (s : System) : Prop where
  recorded : Recorded s
  queued : Queued s
  numbered : Numbered s
  followed : Followed s

theorem Invariant.step {s t : System} (h : Invariant s) (hs : s.Step t) : Invariant t where
  recorded := h.recorded.step hs
  queued := h.queued.step hs
  numbered := h.numbered.step h.queued h.recorded hs
  followed := h.followed.step h.recorded hs

theorem invariant_run (machine : String) (settings : Settings) (directory : Directory)
    (capacity : Nat) (actions : List Action) :
    Invariant ((System.start machine settings directory capacity).run actions) := by
  refine System.run_induction ?_ Invariant.step actions
  exact ⟨.start _ _ _ _, .start _ _ _ _, .start _ _ _ _, .start _ _ _ _⟩

/-! ## Queues -/

/-- What a dashboard has been queued stays queued. -/
theorem System.Step.queued_isPrefix {s t : System} (hs : s.Step t) {id : Id} {a : Attachment}
    (ha : s.attachments[id]? = some a) :
    ∃ b, t.attachments[id]? = some b ∧ a.queued <+: b.queued := by
  cases hs with
  | serve hsend hid hoffer =>
    refine ⟨_, by rw [List.getElem?_modify, ha]; rfl, ?_⟩
    dsimp only
    split
    · exact List.prefix_append _ _
    · exact List.prefix_rfl
  | receive hreceive =>
    refine ⟨_, by rw [List.getElem?_modify, ha]; rfl, ?_⟩
    dsimp only
    split <;> exact List.prefix_rfl
  | arrive origin =>
    refine ⟨a, ?_, List.prefix_rfl⟩
    rw [List.getElem?_append_left (List.getElem?_eq_some_iff.mp ha).1]
    exact ha
  | attach id profiles now =>
    refine ⟨_, by rw [List.getElem?_modify, ha]; rfl, ?_⟩
    dsimp only
    split
    · exact ⟨[], by rw [List.append_nil, System.queued_advance]⟩
    · exact List.prefix_rfl
  | _ => exact ⟨a, ha, List.prefix_rfl⟩

theorem System.queued_isPrefix_run {s : System} {id : Id} {a : Attachment}
    (ha : s.attachments[id]? = some a) (actions : List Action) :
    ∃ b, (s.run actions).attachments[id]? = some b ∧ a.queued <+: b.queued := by
  refine run_induction (P := fun t => ∃ b, t.attachments[id]? = some b ∧ a.queued <+: b.queued)
    ⟨a, ha, List.prefix_rfl⟩ ?_ actions
  rintro t u ⟨b, hb, hab⟩ hs
  obtain ⟨c, hc, hbc⟩ := hs.queued_isPrefix hb
  exact ⟨c, hc, hab.trans hbc⟩

def seqOf : Message.ToDashboard → UInt64
  | .full seq .. | .delta seq .. => seq

namespace Invariant
variable {s : System}

/-- Deltas are handed over in the order of their numbers. -/
theorem pairwise_seq (h : Invariant s) : s.deltas.Pairwise fun d e => d.seq < e.seq :=
  h.numbered.sorted.sublist (List.sublist_append_left _ _)

/-- As long as the numbers fit into a word, they increase on the wire too. -/
theorem pairwise_seqOf (h : Invariant s) (hfits : s.hub.seq < UInt64.size) :
    (s.deltas.map Delta.message).Pairwise fun m n => seqOf m < seqOf n := by
  rw [List.pairwise_map]
  refine h.pairwise_seq.imp_of_mem ?_
  intro d e hd he hlt
  have hd := h.numbered.seq_le d (List.mem_append_left _ hd)
  have he := h.numbered.seq_le e (List.mem_append_left _ he)
  change UInt64.ofNat d.seq < UInt64.ofNat e.seq
  rw [UInt64.lt_iff_toNat_lt, UInt64.toNat_ofNat_of_lt' (by omega),
    UInt64.toNat_ofNat_of_lt' (by omega)]
  exact hlt

/-- The messages of a dashboard are those of a contiguous part of the deltas. -/
theorem queued_isInfix (h : Invariant s) {id : Id} {a : Attachment}
    (ha : s.attachments[id]? = some a) : a.queued <:+: s.deltas.map Delta.message := by
  obtain ⟨n, -, -, hqueued, -⟩ := h.queued.queued id a ha
  rw [hqueued, messages]
  exact ((List.drop_suffix _ _).isInfix.trans (List.take_prefix _ _).isInfix).map _

/-- What a dashboard has received and what waits for it is what it has been queued. -/
theorem received_append_waiting (h : Invariant s) {id : Id} {a : Attachment}
    (ha : s.attachments[id]? = some a) {w : List Message.ToDashboard}
    (hw : s.hub.dashboards.waiting? id = some w) : a.received ++ w = a.queued := by
  obtain ⟨b, hb, hreceived⟩ := h.queued.received id w hw
  rw [ha, Option.some.injEq] at hb
  rw [hb]
  exact hreceived

end Invariant

/-- From a hub without dashboards on, those that have registered have their receiving ends, unless
they have dropped them. -/
theorem isSome_waiting?_run {machine : String} {settings : Settings} {directory : Directory}
    {capacity : Nat} {actions : List Action} {id : Id} {a : Attachment}
    (ha : ((System.start machine settings directory capacity).run actions).attachments[id]? =
      some a) (hdrop : .dropQueue id ∉ actions) :
    (((System.start machine settings directory capacity).run actions).hub.dashboards.waiting?
      id).isSome := by
  refine System.hasQueue_run ?_ hdrop (List.getElem?_eq_some_iff.mp ha).1
  intro hlt
  simp [System.start] at hlt

/-- Every dashboard sees a run of frames without gaps. Its receiving end exists until it is dropped.
Until the dashboard is cut off, what it has received and what waits for it are the frames that were
broadcast since it registered; once it is, it is not registered, gets nothing more, and its queue is
closed after what waits. What waits is received in order, all of it or as much as is asked for. A
broadcast ends the registrations of those that cannot take it and of no others. So the numbers of
deltas increase at every dashboard. -/
theorem frames_without_gaps {φ : Type} (r : Registry φ) (id : Id) (origin : String) (capacity : Nat)
    (ops later : List (Operation φ))
    (hops : ∀ origin capacity, .register id origin capacity ∉ ops ++ later) :
    let joined := r.register id origin capacity
    let now := joined.run ops
    (.dropQueue id ∉ ops → (now.waiting? id).isSome) ∧
      (∀ w, now.waiting? id = some w → joined.received id ops ++ w = joined.due id ops ∧
        ∀ limit, ∃ after, now.receive id limit = some ((w.take (limit.getD w.length),
            if limit.any (· ≤ w.length) then .limit
            else if joined.isCutOff id ops then .closed else .empty), after) ∧
          after.waiting? id = some (w.drop (limit.getD w.length))) ∧
      (now.waiting? id = none → ∀ limit, now.receive id limit = none) ∧
      (joined.due id ops <+: ops.filterMap Operation.frame? ∧
        (¬ joined.isCutOff id ops → joined.due id ops = ops.filterMap Operation.frame?)) ∧
      (now.isRegistered id = !joined.isCutOff id ops) ∧
      (joined.isCutOff id ops → (now.run later).isRegistered id = false ∧
        ∀ w, (now.run later).waiting? id = some w →
          joined.received id (ops ++ later) ++ w = joined.due id ops) ∧
      (∀ frame, (∀ j, (now.broadcast frame).2.isRegistered j =
          (now.isRegistered j && now.takes j)) ∧
        (now.broadcast frame).1.delivered = now.origins.keys.countP now.takes ∧
        (now.broadcast frame).1.delivered + (now.broadcast frame).1.removed = now.size) ∧
      ∀ machine settings directory room actions,
        let s := (System.start machine settings directory room).run actions
        (s.deltas.Pairwise fun d e => d.seq < e.seq) ∧
          ∀ j a, s.attachments[j]? = some a →
            (.dropQueue j ∉ actions → (s.hub.dashboards.waiting? j).isSome) ∧
              (∀ w, s.hub.dashboards.waiting? j = some w → a.received ++ w = a.queued) ∧
              a.queued <:+: s.deltas.map Delta.message ∧
              (s.hub.seq < UInt64.size → a.queued.Pairwise fun m n => seqOf m < seqOf n) := by
  intro joined now
  have hnow : ∀ origin capacity, .register id origin capacity ∉ ops :=
    fun origin capacity hm => hops origin capacity (List.mem_append_left _ hm)
  have hregistered : now.isRegistered id = !joined.isCutOff id ops :=
    Registry.isRegistered_run_register hnow origin capacity
  refine ⟨fun hdrop => Registry.isSome_waiting?_run hdrop ?_, fun w hw => ⟨?_, fun limit => ?_⟩,
    fun hnone limit => Registry.receive_of_waiting?_eq_none hnone limit,
    ⟨joined.due_isPrefix id ops, Registry.due_of_not_isCutOff⟩, hregistered, ?_, ?_, ?_⟩
  · simp [joined, Registry.register, Registry.waiting?]
  · exact Registry.received_append_waiting_of_register hnow hw
  · obtain ⟨after, hreceive, hafter⟩ := Registry.receive_of_waiting? hw limit
    refine ⟨after, ?_, hafter⟩
    rw [hreceive, hregistered]
    cases joined.isCutOff id ops <;> rfl
  · intro hcut
    rw [← Registry.run_append]
    refine ⟨?_, fun w hw => ?_⟩
    · rw [Registry.isRegistered_run_register hops,
        Registry.isCutOff_append_of_isCutOff hcut later, Bool.not_true]
    · rw [Registry.received_append_waiting_of_register hops hw,
        Registry.due_append_of_isCutOff hcut later]
  · intro frame
    refine ⟨fun j => now.isRegistered_broadcast frame j, ?_, now.delivered_add_removed frame⟩
    rw [now.report_broadcast frame]
  · intro machine settings directory room actions s
    have h := invariant_run machine settings directory room actions
    refine ⟨h.pairwise_seq, fun j a ha => ⟨isSome_waiting?_run ha,
      fun w hw => h.received_append_waiting ha hw, h.queued_isInfix ha, fun hfits => ?_⟩⟩
    exact (h.pairwise_seqOf hfits).sublist (h.queued_isInfix ha).sublist

/-- A dashboard with room for one frame has the first of two, no other later, and a closed queue
after it. -/
theorem frames_without_gaps_of_full_queue :
    let joined := ({} : Registry Nat).register 0 "home" 1
    let ops := [.broadcast 7, .broadcast 8]
    joined.received 0 ops ++ [7] = joined.due 0 ops ∧ joined.isCutOff 0 ops ∧
      (∃ after, (joined.run ops).receive 0 none = some (([7], .closed), after) ∧
        after.waiting? 0 = some []) ∧
      ((joined.run ops).run [.broadcast 9]).isRegistered 0 = false := by
  obtain ⟨-, hframes, -, -, -, hcut, -⟩ := frames_without_gaps ({} : Registry Nat) 0 "home" 1
    [.broadcast 7, .broadcast 8] [.broadcast 9] (by simp)
  obtain ⟨hdue, hreceive⟩ := hframes [7] (by decide)
  exact ⟨hdue, by decide, hreceive none, (hcut (by decide)).1⟩

/-! ## Attachments -/

/-- The host is not both an agent's and the hub's own machine. -/
def System.IsOneHost (s : System) (hostId : String) : Prop :=
  hostId = s.machine → ∀ w ∈ s.log, w.entry.hostId = hostId → w.own

/-- A change was made from a write of its host, and a full view shows that write or a later one. -/
def Supersedes (s : System) (reading : Reading) (now : Time.Instant) (views : List ServerView)
    (d : Delta) (c : Change) : Prop :=
  ∃ i w j v, d.reading.source s.log c.record.id = some i ∧ s.log[i]? = some w ∧
    w.entry.hostId = c.record.id ∧ c.state = w.entry.sentState d.now s.threshold ∧
    reading.source s.log c.record.id = some j ∧ s.log[j]? = some v ∧
    v.entry.hostId = c.record.id ∧ (∃ view ∈ views, view.Shows v.entry now s.threshold) ∧ i ≤ j

namespace Invariant
variable {s : System}

/-- A delta with a higher number than a dashboard's full view has been handed over after the
dashboard registered. -/
theorem since_le_of_seq_lt (h : Invariant s) {a : Attachment} (ha : a ∈ s.attachments) {n : Nat}
    (hn : a.stage.number? = some n) {k : Nat} {d : Delta} (hd : s.deltas[k]? = some d)
    (hlt : n < d.seq) : a.since ≤ k := by
  by_cases hk : a.since ≤ k
  · exact hk
  · have hmem : d ∈ s.deltas.take a.since := by
      refine List.mem_of_getElem? (i := k) ?_
      rw [List.getElem?_take_of_lt (by omega)]
      exact hd
    have := (h.numbered.divides a ha n hn).before d hmem
    omega

/-- A dashboard that is registered has been queued every delta that was broadcast since. -/
theorem mem_queued (h : Invariant s) {id : Id} {a : Attachment} (ha : s.attachments[id]? = some a)
    (hreg : s.hub.dashboards.isRegistered id) {k : Nat} {d : Delta} (hd : s.deltas[k]? = some d)
    (hsince : a.since ≤ k) (hpassed : k < s.passed) : d.message ∈ a.queued := by
  obtain ⟨n, -, -, hqueued, hreach⟩ := h.queued.queued id a ha
  have hkn : k < n := by
    rw [hreach (.inr hreg)]
    exact Nat.lt_of_lt_of_le hpassed (s.passed_le_reach id)
  rw [hqueued, messages]
  refine List.mem_map.mpr ⟨d, List.mem_of_getElem? (i := k - a.since) ?_, rfl⟩
  rw [List.getElem?_drop, Nat.add_sub_cancel' hsince, List.getElem?_take_of_lt hkn]
  exact hd

/-- A full view supersedes the deltas up to its number. -/
theorem supersedes (h : Invariant s) {a : Attachment} (ha : a ∈ s.attachments) {seq : Nat}
    {reading : Reading} {now : Time.Instant} {views : List ServerView}
    (hstage : a.stage = .shown seq reading now views) {d : Delta} (hd : d ∈ s.deltas)
    (hle : d.seq ≤ seq) {c : Change} (hc : c ∈ d.changes) (hone : s.IsOneHost c.record.id) :
    Supersedes s reading now views d c := by
  obtain ⟨r, hchanges⟩ := h.followed.deltas d hd
  rw [hchanges] at hc
  obtain ⟨e, he, hstate⟩ := Reconciler.exists_of_mem_reconcile hc
  -- the entry that the change was made from
  rw [d.reading.getElem?_entries h.recorded.owned, Option.bind_eq_some_iff] at he
  obtain ⟨i, hi, hentry⟩ := he
  obtain ⟨w, hw, hwid⟩ := Reading.exists_of_source hi
  rw [entryAt, hw, Option.map_some, Option.some.injEq] at hentry
  -- the full view was read later
  have hread := h.recorded.attachments a ha
  rw [hstage] at hread
  obtain ⟨⟨horder, -⟩, profiles, hviews⟩ := hread
  have hlater : d.reading.ownAt ≤ reading.agentsAt := by
    refine (h.numbered.divides a ha seq (by rw [hstage]; rfl)).reading_le _ (by rw [hstage]; rfl) d
      (List.mem_append_left _ hd) hle
  have hagents := (h.recorded.deltas d hd).1
  obtain ⟨j, hj, hij⟩ := Reading.source_mono h.recorded.owned (s := reading) (by omega) (by omega)
    hone hi
  obtain ⟨v, hv, hvid⟩ := Reading.exists_of_source hj
  have hshown : (reading.entries s.log)[c.record.id]? = some v.entry := by
    rw [reading.getElem?_entries h.recorded.owned, hj, Option.bind_some, entryAt, hv,
      Option.map_some]
  refine ⟨i, w, j, v, hi, hw, hwid, by rw [hentry]; exact hstate, hj, hv, hvid, ?_, hij⟩
  rw [hviews]
  exact exists_mem_allViews hshown hvid s.hub.settings profiles now

end Invariant

/-- Attaching misses no delta. Deltas are handed over in the order of their numbers; one with a
higher number than a dashboard's full view is queued for the dashboard once it is broadcast, unless
the dashboard has lost its registration: it has received it or it waits for it ever after, as long
as it has not dropped its receiving end. Of one with a lower number every change of a host, if that
is not both an agent's and the hub's own machine, is superseded by the full view. -/
theorem attach_misses_no_delta (machine : String) (settings : Settings) (directory : Directory)
    (capacity : Nat) (actions : List Action) :
    let s := (System.start machine settings directory capacity).run actions
    (s.deltas.Pairwise fun d e => d.seq < e.seq) ∧
      ∀ id a seq reading now views, s.attachments[id]? = some a →
        a.stage = .shown seq reading now views → ∀ k d, s.deltas[k]? = some d →
          (seq < d.seq ∧ (k < s.passed → s.hub.dashboards.isRegistered id →
            ∀ later, ∃ b, (s.run later).attachments[id]? = some b ∧ d.message ∈ b.queued ∧
              (∀ w, (s.run later).hub.dashboards.waiting? id = some w →
                b.received ++ w = b.queued) ∧
              (.dropQueue id ∉ actions ++ later →
                ∃ w, (s.run later).hub.dashboards.waiting? id = some w ∧
                  d.message ∈ b.received ++ w))) ∨
          (d.seq ≤ seq ∧ ∀ c ∈ d.changes, s.IsOneHost c.record.id →
            Supersedes s reading now views d c) := by
  intro s
  have h := invariant_run machine settings directory capacity actions
  refine ⟨h.pairwise_seq, ?_⟩
  intro id a seq reading now views ha hstage k d hd
  have hmem := List.mem_of_getElem? ha
  rcases Nat.lt_or_ge seq d.seq with hlt | hle
  · refine .inl ⟨hlt, fun hpassed hreg later => ?_⟩
    have hsince := h.since_le_of_seq_lt hmem (by rw [hstage]; rfl) hd hlt
    have hqueued := h.mem_queued ha hreg hd hsince hpassed
    obtain ⟨b, hb, hprefix⟩ := System.queued_isPrefix_run ha later
    have hmem := hprefix.subset hqueued
    rw [← System.run_append] at hb ⊢
    have hlater := invariant_run machine settings directory capacity (actions ++ later)
    refine ⟨b, hb, hmem, fun w hw => hlater.received_append_waiting hb hw, fun hdrop => ?_⟩
    obtain ⟨w, hw⟩ := Option.isSome_iff_exists.mp (isSome_waiting?_run hb hdrop)
    exact ⟨w, hw, by rw [hlater.received_append_waiting hb hw]; exact hmem⟩
  · refine .inr ⟨hle, fun c hc hone => ?_⟩
    exact h.supersedes hmem hstage (List.mem_of_getElem? hd) hle hc hone

/-- A tick of the dispatcher that hands its delta over. -/
def wholeTick : List Action := List.replicate 5 (.dispatch .epoch)

/-- An attachment, without profiles. -/
def wholeAttachment (id : Id) : List Action := List.replicate 3 (.attach id [] .epoch)

/-- A broadcast to one dashboard. -/
def wholeBroadcast (id : Id) : List Action := [.take, .address, .serve id, .sweep]

/-- A run with a delta before and one after the attachment of a dashboard. -/
def attachedBetween : System :=
  (System.start "hub" .small {} 4).run
    (.put "a" (.ofUsage 10) .epoch :: wholeTick ++ .arrive "home" :: wholeAttachment 0 ++
      .put "a" (.ofUsage 20) .epoch :: wholeTick ++ wholeBroadcast 0 ++ wholeBroadcast 0)

/-- The delta after the attachment is queued, and has been received or waits whatever comes
later. -/
theorem attachedBetween_is_queued :
    ∃ d, attachedBetween.deltas[1]? = some d ∧ ∀ later, .dropQueue 0 ∉ later → ∃ b w,
      (attachedBetween.run later).attachments[0]? = some b ∧
        (attachedBetween.run later).hub.dashboards.waiting? 0 = some w ∧
        d.message ∈ b.received ++ w := by
  obtain ⟨a, reading, now, views, ha, hstage⟩ : ∃ a reading now views,
      attachedBetween.attachments[0]? = some a ∧ a.stage = .shown 1 reading now views :=
    ⟨_, _, _, _, rfl, rfl⟩
  obtain ⟨d, hd, hseq⟩ : ∃ d, attachedBetween.deltas[1]? = some d ∧ d.seq = 2 := ⟨_, rfl, rfl⟩
  have h := (attach_misses_no_delta "hub" _ {} 4 _).2 0 a 1 reading now views ha hstage 1 d hd
  rcases h with ⟨-, hqueued⟩ | ⟨hle, -⟩
  · refine ⟨d, hd, fun later hlater => ?_⟩
    obtain ⟨b, hb, -, -, hreceived⟩ := hqueued (by decide) (by decide) later
    obtain ⟨w, hw, hmem⟩ :=
      hreceived (by simp [wholeTick, wholeAttachment, wholeBroadcast, hlater])
    exact ⟨b, w, hb, hw, hmem⟩
  · omega

end FleetWatch.Interleaving
