import FleetWatch.Proofs.Dashboard.Delivery
import FleetWatch.Proofs.Dispatch.DeltaStream
import FleetWatch.Proofs.Interleaving.System

/-!
# What dashboards are queued

Throughout every run, the messages that a dashboard is queued are a contiguous part of the deltas
that were handed over, and as long as it is registered, it has them up to the last broadcast. As
long as its receiving end exists, they are what it has received and what waits for it.

## Main definitions

* `System.reach`: how many deltas a registered dashboard has been served.
* `Queued`: the invariant.
* `System.HasQueue`: the receiving end of a dashboard exists.
-/
namespace FleetWatch.Interleaving

open Dashboard

/-- The fan-out has a message that the dashboard is to get, or could not take. -/
def Fanout.owes : Fanout → Id → Bool
  | .idle, _ | .taken _, _ => false
  | .sending _ targets failed, id => id ∈ targets || id ∈ failed

@[simp] theorem Fanout.owes_idle (id : Id) : Fanout.idle.owes id = false := rfl

@[simp] theorem Fanout.owes_taken (m : Message.ToDashboard) (id : Id) :
    (Fanout.taken m).owes id = false := rfl

@[simp] theorem Fanout.owes_sending (m : Message.ToDashboard) (targets failed : List Id) (id : Id) :
    (Fanout.sending m targets failed).owes id ↔ id ∈ targets ∨ id ∈ failed := by
  simp [owes]

def Fanout.message? : Fanout → Option Message.ToDashboard
  | .idle => none
  | .taken m | .sending m .. => some m

namespace System

/-- The dashboard is registered, or was when the fan-out read the registered dashboards. -/
def IsServed (s : System) (id : Id) : Prop :=
  s.fanout.owes id ∨ s.hub.dashboards.isRegistered id

/-- The number of deltas that have been broadcast as far as the dashboard is concerned. -/
def reach (s : System) (id : Id) : Nat := if s.fanout.owes id then s.passed else s.addressed

theorem passed_le_addressed (s : System) : s.passed ≤ s.addressed := by
  unfold addressed
  split <;> omega

theorem addressed_le_taken (s : System) : s.addressed ≤ s.taken := by
  unfold addressed taken
  split <;> simp [*]

theorem passed_le_reach (s : System) (id : Id) : s.passed ≤ s.reach id := by
  unfold reach
  split
  · exact Nat.le_refl _
  · exact s.passed_le_addressed

end System

/-- The messages of the deltas from one position to another. -/
def messages (deltas : List Delta) (first last : Nat) : List Message.ToDashboard :=
  ((deltas.take last).drop first).map Delta.message

theorem messages_append {deltas : List Delta} {first last : Nat} (h : last ≤ deltas.length)
    (d : Delta) : messages (deltas ++ [d]) first last = messages deltas first last := by
  rw [messages, messages, List.take_append_of_le_length h]

theorem messages_succ {deltas : List Delta} {first last : Nat} (h : first ≤ last)
    {m : Message.ToDashboard} (hm : deltas[last]?.map Delta.message = some m) :
    messages deltas first (last + 1) = messages deltas first last ++ [m] := by
  obtain ⟨d, hd, rfl⟩ := Option.map_eq_some_iff.mp hm
  have hlt := (List.getElem?_eq_some_iff.mp hd).1
  rw [messages, List.take_add_one, hd, List.drop_append_of_le_length, List.map_append]
  · rfl
  · rw [List.length_take]
    omega

theorem taken_of_sending {s : System} {m : Message.ToDashboard} {targets failed : List Id}
    (hsend : s.fanout = .sending m targets failed) : s.taken = s.passed + 1 := by
  rw [System.taken, hsend]

theorem addressed_of_sending {s : System} {m : Message.ToDashboard} {targets failed : List Id}
    (hsend : s.fanout = .sending m targets failed) : s.addressed = s.passed + 1 := by
  rw [System.addressed, hsend]

/-- What the dashboards are queued are deltas that were handed over, in order and without a gap, and
the registered ones have been served up to the last broadcast. What a dashboard has received and
what waits for it is what it was queued. -/
structure Queued (s : System) : Prop where
  taken_le : s.taken ≤ s.deltas.length
  waiting : s.dispatcher.handoff.queue.waiting =
    if s.dispatcher.handoff.isOpen then (s.deltas.drop s.taken).map Delta.message else []
  message : ∀ m, s.fanout.message? = some m → s.deltas[s.passed]?.map Delta.message = some m
  disjoint : ∀ m targets failed, s.fanout = .sending m targets failed → ∀ id ∈ targets, id ∉ failed
  known : ∀ id, s.IsServed id → id < s.attachments.length
  queued : ∀ id a, s.attachments[id]? = some a →
    ∃ n, a.since ≤ n ∧ n ≤ s.addressed ∧ a.queued = messages s.deltas a.since n ∧
      (s.IsServed id → n = s.reach id)
  received : ∀ id w, s.hub.dashboards.waiting? id = some w →
    ∃ a, s.attachments[id]? = some a ∧ a.received ++ w = a.queued

namespace Queued

theorem start (machine : String) (settings : Settings) (directory : Directory) (capacity : Nat) :
    Queued (.start machine settings directory capacity) where
  taken_le := Nat.le_refl _
  waiting := rfl
  message := by simp [System.start, Fanout.message?]
  disjoint := by simp [System.start]
  known := by simp [System.IsServed, System.start, Fanout.owes, Registry.isRegistered]
  queued := by simp [System.start]
  received := by simp [System.start, Registry.waiting?]

/-- While a message is sent, the deltas after it wait. -/
theorem handoff_of_sending {s : System} (h : Queued s) {m : Message.ToDashboard}
    {targets failed : List Id} (hsend : s.fanout = .sending m targets failed) :
    s.passed + 1 ≤ s.deltas.length ∧ s.dispatcher.handoff.queue.waiting =
      if s.dispatcher.handoff.isOpen then (s.deltas.drop (s.passed + 1)).map Delta.message
      else [] := by
  rw [← taken_of_sending hsend]
  exact ⟨h.taken_le, h.waiting⟩

theorem hand {s : System} (h : Queued s) {d : Delta} {handoff : Handoff}
    (hoffer : s.dispatcher.handoff.offer? d.message = some handoff) :
    Queued
      { s with
        dispatcher := { s.dispatcher with handoff }
        tick := .handed d
        deltas := s.deltas ++ [d]
        lastTick := some (d.now, d.reading) } := by
  have hle := h.taken_le
  have haddressed := s.addressed_le_taken
  refine ⟨?_, ?_, ?_, h.disjoint, h.known, ?_, h.received⟩
  · rw [List.length_append]
    exact Nat.le_add_right_of_le hle
  · obtain ⟨hopen, hopen'⟩ := Handoff.isOpen_of_offer? hoffer
    have hw := h.waiting
    rw [if_pos hopen] at hw
    rw [if_pos hopen', Handoff.waiting_of_offer? hoffer, hw]
    change _ = ((s.deltas ++ [d]).drop s.taken).map Delta.message
    rw [List.drop_append_of_le_length hle, List.map_append]
    rfl
  · intro m hm
    have hm := h.message m hm
    obtain ⟨d', hd', rfl⟩ := Option.map_eq_some_iff.mp hm
    have hlt := (List.getElem?_eq_some_iff.mp hd').1
    rw [List.getElem?_append_left hlt, hm]
  · intro id a ha
    obtain ⟨n, hsince, hn, hqueued, hserved⟩ := h.queued id a ha
    exact ⟨n, hsince, hn, by rw [hqueued, messages_append (by omega)], hserved⟩

theorem take {s : System} (h : Queued s) (hidle : s.fanout = .idle) {m : Message.ToDashboard}
    {queue : Queue.Bounded Message.ToDashboard}
    (htake : s.dispatcher.handoff.queue.take? = some (m, queue)) :
    Queued
      { s with
        dispatcher := { s.dispatcher with handoff := { s.dispatcher.handoff with queue } }
        fanout := .taken m } := by
  have htaken : s.taken = s.passed := by rw [System.taken, hidle]
  have haddressed : s.addressed = s.passed := by rw [System.addressed, hidle]
  have hw := h.waiting
  rw [Queue.Bounded.waiting_of_take? htake] at hw
  cases hopen : s.dispatcher.handoff.isOpen with
  | false =>
    -- nothing waits in a closed queue
    simp [hopen] at hw
  | true =>
    rw [hopen, if_pos rfl, htaken, eq_comm, List.map_eq_cons_iff] at hw
    obtain ⟨d, rest, hdrop, hm, hrest⟩ := hw
    have hd : s.deltas[s.passed]? = some d := by
      rw [← Nat.add_zero s.passed, ← List.getElem?_drop, hdrop]
      rfl
    have htail : s.deltas.drop (s.passed + 1) = rest := by
      rw [← List.tail_drop, hdrop, List.tail_cons]
    refine ⟨(List.getElem?_eq_some_iff.mp hd).1, ?_, ?_, by simp, ?_, ?_, h.received⟩
    · change queue.waiting = if s.dispatcher.handoff.isOpen then
        (s.deltas.drop (s.passed + 1)).map Delta.message else []
      rw [hopen, if_pos rfl, htail, hrest]
    · intro m' hm'
      obtain rfl := Option.some.inj hm'
      rw [hd, Option.map_some, hm]
    · intro id hserved
      exact h.known id (.inr (by simpa [System.IsServed] using hserved))
    · intro id a ha
      obtain ⟨n, hsince, hn, hqueued, hreach⟩ := h.queued id a ha
      rw [haddressed] at hn
      refine ⟨n, hsince, hn, hqueued, fun hserved => ?_⟩
      rw [hreach (.inr (by simpa [System.IsServed] using hserved)), System.reach, hidle,
        Fanout.owes_idle, if_neg Bool.false_ne_true, haddressed]
      rfl

theorem address {s : System} (h : Queued s) {m : Message.ToDashboard}
    (htaken : s.fanout = .taken m) :
    Queued { s with fanout := .sending m s.hub.dashboards.origins.keys [] } := by
  have htaken' : s.taken = s.passed + 1 := by rw [System.taken, htaken]
  have haddressed : s.addressed = s.passed := by rw [System.addressed, htaken]
  have hle := h.taken_le
  have hwaiting := h.waiting
  rw [htaken'] at hle hwaiting
  have hreg : ∀ id, System.IsServed { s with fanout := .sending m s.hub.dashboards.origins.keys [] }
      id → s.hub.dashboards.isRegistered id := by
    intro id hserved
    simpa [System.IsServed, Registry.isRegistered] using hserved
  refine ⟨hle, hwaiting, ?_, ?_, fun id hserved => h.known id (.inr (hreg id hserved)), ?_,
    h.received⟩
  · intro m' hm'
    exact h.message m' (by rw [htaken]; exact hm')
  · intro m' targets failed hsend
    cases hsend
    simp
  · intro id a ha
    obtain ⟨n, hsince, hn, hqueued, hreach⟩ := h.queued id a ha
    rw [haddressed] at hn
    refine ⟨n, hsince, Nat.le_succ_of_le hn, hqueued, fun hserved => ?_⟩
    -- who is registered by now is owed the message
    have hreg := hreg id hserved
    have howes : (Fanout.sending m s.hub.dashboards.origins.keys []).owes id = true := by
      simpa [Registry.isRegistered] using hreg
    rw [hreach (.inr hreg), System.reach, System.reach, htaken, Fanout.owes_taken,
      if_neg Bool.false_ne_true, haddressed, if_pos howes]

theorem serve {s : System} (h : Queued s) {m : Message.ToDashboard} {targets failed : List Id}
    {id : Id} {dashboards : Registry Message.ToDashboard}
    (hsend : s.fanout = .sending m targets failed) (hid : id ∈ targets)
    (hoffer : s.hub.dashboards.offer? m id = some dashboards) :
    Queued
      { s with
        hub := { s.hub with dashboards }
        fanout := .sending m (targets.filter (· ≠ id)) failed
        attachments := s.attachments.modify id fun a => { a with queued := a.queued ++ [m] } } := by
  have hm := h.message m (by rw [hsend]; rfl)
  have hdisjoint := h.disjoint m targets failed hsend
  obtain ⟨hle, hwaiting⟩ := h.handoff_of_sending hsend
  have haddressed := addressed_of_sending hsend
  have hreg : ∀ j, dashboards.isRegistered j = s.hub.dashboards.isRegistered j := by
    intro j
    rw [Registry.isRegistered, Registry.origins_of_offer? hoffer, Registry.isRegistered]
  have hserved : ∀ j, (Fanout.sending m (targets.filter (· ≠ id)) failed).owes j = true ∨
      dashboards.isRegistered j → s.IsServed j := by
    intro j hj
    rw [hreg] at hj
    refine hj.imp_left fun howes => ?_
    rw [hsend, Fanout.owes_sending]
    simp only [Fanout.owes_sending, List.mem_filter] at howes
    exact howes.imp_left And.left
  refine ⟨hle, hwaiting, ?_, ?_, ?_, ?_, ?_⟩
  · intro m' hm'
    obtain rfl := Option.some.inj hm'
    exact hm
  · intro m' targets' failed' hsend'
    cases hsend'
    exact fun j hj => hdisjoint j (List.mem_filter.mp hj).1
  · intro j hj
    rw [List.length_modify]
    exact h.known j (hserved j hj)
  · intro j a ha
    obtain ⟨b, hb, rfl⟩ := exists_of_getElem?_modify ha
    obtain ⟨n, hsince, hn, hqueued, hreach⟩ := h.queued j b hb
    -- the dashboard that is served reaches one delta further, the others as far as before
    by_cases e : id = j
    · subst e
      have howes : s.fanout.owes id := by
        rw [hsend, Fanout.owes_sending]
        exact .inl hid
      have hn : n = s.passed := by rw [hreach (.inl howes), System.reach, if_pos howes]
      subst hn
      refine ⟨s.passed + 1, ?_, Nat.le_refl _, ?_, ?_⟩
      · rw [if_pos rfl]
        exact Nat.le_succ_of_le hsince
      · rw [if_pos rfl, messages_succ hsince hm, ← hqueued]
      · intro _
        rw [System.reach, if_neg]
        · rfl
        · rw [Fanout.owes_sending]
          rintro (hin | hin)
          · simp at hin
          · exact hdisjoint id hid hin
    · rw [if_neg e]
      rw [haddressed] at hn
      refine ⟨n, hsince, hn, hqueued, fun hj => ?_⟩
      have howes : (Fanout.sending m (targets.filter (· ≠ id)) failed).owes j ↔
          s.fanout.owes j := by
        rw [hsend, Fanout.owes_sending, Fanout.owes_sending]
        simp [Ne.symm e]
      rw [hreach (hserved j hj), System.reach, System.reach, haddressed]
      simp only [howes]
      rfl
  · intro j w hw
    rw [Registry.waiting?_of_offer? hoffer] at hw
    obtain ⟨w₀, hw₀, rfl⟩ := Option.map_eq_some_iff.mp hw
    obtain ⟨a, ha, hreceived⟩ := h.received j w₀ hw₀
    refine ⟨_, by rw [List.getElem?_modify, ha]; rfl, ?_⟩
    by_cases e : id = j
    · simp [e, ← hreceived]
    · simpa [e] using hreceived

theorem refuse {s : System} (h : Queued s) {m : Message.ToDashboard} {targets failed : List Id}
    {id : Id} (hsend : s.fanout = .sending m targets failed) (hid : id ∈ targets) :
    Queued { s with fanout := .sending m (targets.filter (· ≠ id)) (failed ++ [id]) } := by
  have hdisjoint := h.disjoint m targets failed hsend
  obtain ⟨hle, hwaiting⟩ := h.handoff_of_sending hsend
  have haddressed := addressed_of_sending hsend
  have howes : ∀ j, (Fanout.sending m (targets.filter (· ≠ id)) (failed ++ [id])).owes j ↔
      s.fanout.owes j := by
    intro j
    rw [hsend, Fanout.owes_sending, Fanout.owes_sending]
    by_cases e : j = id
    · simp [e, hid]
    · simp [e]
  refine ⟨hle, hwaiting, ?_, ?_, ?_, ?_, h.received⟩
  · intro m' hm'
    exact h.message m' (by rw [hsend]; exact hm')
  · intro m' targets' failed' hsend'
    cases hsend'
    intro j hj
    obtain ⟨hj, hne⟩ := List.mem_filter.mp hj
    simpa [hdisjoint j hj] using hne
  · intro j hj
    exact h.known j (hj.imp_left (howes j).mp)
  · intro j a ha
    obtain ⟨n, hsince, hn, hqueued, hreach⟩ := h.queued j a ha
    rw [haddressed] at hn
    refine ⟨n, hsince, hn, hqueued, fun hj => ?_⟩
    rw [hreach (hj.imp_left (howes j).mp), System.reach, System.reach, haddressed]
    simp only [howes j]
    rfl

theorem sweep {s : System} (h : Queued s) {m : Message.ToDashboard} {failed : List Id}
    (hsend : s.fanout = .sending m [] failed) :
    Queued
      { s with
        hub :=
          { s.hub with
            dashboards := failed.foldl (fun r id => (r.remove id).2) s.hub.dashboards }
        fanout := .idle
        passed := s.passed + 1 } := by
  obtain ⟨hle, hwaiting⟩ := h.handoff_of_sending hsend
  have haddressed := addressed_of_sending hsend
  -- whoever is still registered then was owed nothing any more
  have hleft : ∀ j, (failed.foldl (fun r id => (r.remove id).2) s.hub.dashboards).isRegistered j →
      s.hub.dashboards.isRegistered j ∧ ¬ s.fanout.owes j := by
    intro j hj
    rw [Registry.isRegistered_foldl_remove] at hj
    rw [hsend, Fanout.owes_sending]
    simpa using hj
  refine ⟨hle, hwaiting, by simp [Fanout.message?], by simp, ?_, ?_, ?_⟩
  · intro j hj
    refine h.known j (.inr (hleft j ?_).1)
    simpa [System.IsServed] using hj
  · intro j a ha
    obtain ⟨n, hsince, hn, hqueued, hreach⟩ := h.queued j a ha
    rw [haddressed] at hn
    refine ⟨n, hsince, hn, hqueued, fun hj => ?_⟩
    obtain ⟨hreg, howes⟩ := hleft j (by simpa [System.IsServed] using hj)
    rw [hreach (.inr hreg), System.reach, if_neg howes, haddressed]
    rfl
  · intro j w hw
    rw [Registry.waiting?_foldl_remove] at hw
    exact h.received j w hw

theorem arrive {s : System} (h : Queued s) (origin : String) :
    Queued
      { s with
        hub := Dashboard.register s.hub s.attachments.length origin
        attachments := s.attachments ++ [{ since := s.addressed }] } := by
  have hreg : ∀ j, j ≠ s.attachments.length →
      (Dashboard.register s.hub s.attachments.length origin).dashboards.isRegistered j =
        s.hub.dashboards.isRegistered j := by
    intro j hj
    simp [Dashboard.register, Registry.register, Registry.isRegistered,
      Std.TreeMap.contains_insert, Ne.symm hj]
  refine ⟨h.taken_le, h.waiting, h.message, h.disjoint, ?_, ?_, ?_⟩
  · intro j hj
    rw [List.length_append, List.length_singleton]
    by_cases e : j = s.attachments.length
    · rw [e]
      exact Nat.lt_succ_self _
    · exact Nat.lt_succ_of_lt (h.known j (hj.imp_right fun hr => by rwa [hreg j e] at hr))
  · intro j a ha
    rw [List.getElem?_append] at ha
    split at ha
    · next hlt =>
      obtain ⟨n, hsince, hn, hqueued, hreach⟩ := h.queued j a ha
      refine ⟨n, hsince, hn, hqueued, fun hj => hreach ?_⟩
      exact hj.imp_right fun hr => by rwa [hreg j (by omega)] at hr
    · next hge =>
      obtain rfl := List.mem_singleton.mp (List.mem_of_getElem? ha)
      refine ⟨s.addressed, Nat.le_refl _, Nat.le_refl _, ?_, fun _ => ?_⟩
      · simp [messages]
      · -- the new dashboard is owed nothing, as none before it had its id
        have hnew : ¬ s.fanout.owes j := fun howes => hge (h.known j (.inl howes))
        rw [System.reach, if_neg hnew]
        rfl
  · intro j w hw
    by_cases e : j = s.attachments.length
    · refine ⟨{ since := s.addressed }, by rw [e]; simp, ?_⟩
      simpa [Dashboard.register, Registry.register, Registry.waiting?, e, eq_comm] using hw
    · have hold : s.hub.dashboards.waiting? j = some w := by
        simpa [Dashboard.register, Registry.register, Registry.waiting?,
          Std.TreeMap.getElem?_insert, Ne.symm e] using hw
      obtain ⟨a, ha, hreceived⟩ := h.received j w hold
      refine ⟨a, ?_, hreceived⟩
      rw [List.getElem?_append_left (List.getElem?_eq_some_iff.mp ha).1]
      exact ha

theorem attach {s : System} (h : Queued s) (id : Id) (profiles : List Profile)
    (now : Time.Instant) :
    Queued { s with attachments := s.attachments.modify id (s.advance profiles now) } := by
  refine ⟨h.taken_le, h.waiting, h.message, h.disjoint, ?_, ?_, ?_⟩
  · intro j hj
    rw [List.length_modify]
    exact h.known j hj
  · intro j a ha
    obtain ⟨b, hb, rfl⟩ := exists_of_getElem?_modify ha
    have := h.queued j b hb
    split
    · rw [s.since_advance, s.queued_advance]
      exact this
    · exact this
  · intro j w hw
    obtain ⟨a, ha, hreceived⟩ := h.received j w hw
    refine ⟨_, by rw [List.getElem?_modify, ha]; rfl, ?_⟩
    dsimp only
    split
    · rw [s.received_advance, s.queued_advance]
      exact hreceived
    · exact hreceived

theorem receive {s : System} (h : Queued s) {id : Id} {limit : Option Nat}
    {frames : List Message.ToDashboard} {stop : QueueEnd}
    {dashboards : Registry Message.ToDashboard}
    (hreceive : s.hub.dashboards.receive id limit = some ((frames, stop), dashboards)) :
    Queued
      { s with
        hub := { s.hub with dashboards }
        attachments := s.attachments.modify id fun a =>
          { a with received := a.received ++ frames } } := by
  have hreg : ∀ j, dashboards.isRegistered j = s.hub.dashboards.isRegistered j := by
    intro j
    rw [Registry.isRegistered, Registry.origins_of_receive hreceive, Registry.isRegistered]
  refine ⟨h.taken_le, h.waiting, h.message, h.disjoint, ?_, ?_, ?_⟩
  · intro j hj
    rw [List.length_modify]
    exact h.known j (hj.imp_right fun hr => by rwa [hreg j] at hr)
  · intro j a ha
    obtain ⟨b, hb, rfl⟩ := exists_of_getElem?_modify ha
    obtain ⟨n, hsince, hn, hqueued, hreach⟩ := h.queued j b hb
    refine ⟨n, ?_, hn, ?_, fun hj => hreach (hj.imp_right fun hr => by rwa [hreg j] at hr)⟩
    · split <;> exact hsince
    · split <;> exact hqueued
  · intro j w hw
    -- what is taken out of the queue is what is received
    have hw₀ := Registry.waiting?_of_receive hreceive j
    rw [hw, Option.map_some] at hw₀
    obtain ⟨a, ha, hreceived⟩ := h.received j _ hw₀
    refine ⟨_, by rw [List.getElem?_modify, ha]; rfl, ?_⟩
    by_cases e : id = j
    · simpa [e] using hreceived
    · simpa [e] using hreceived

theorem step {s t : System} (h : Queued s) (hs : s.Step t) : Queued t := by
  cases hs with
  | hand htick hoffer => exact h.hand hoffer
  | take hidle htake => exact h.take hidle htake
  | address htaken => exact h.address htaken
  | serve hsend hid hoffer => exact h.serve hsend hid hoffer
  | refuse hsend hid hoffer => exact h.refuse hsend hid
  | sweep hsend => exact h.sweep hsend
  | close => exact ⟨h.taken_le, rfl, h.message, h.disjoint, h.known, h.queued, h.received⟩
  | arrive origin => exact h.arrive origin
  | attach id profiles now => exact h.attach id profiles now
  | receive hreceive => exact h.receive hreceive
  | leave hleave hwaiting =>
    refine ⟨h.taken_le, h.waiting, h.message, h.disjoint, ?_, ?_, ?_⟩
    · intro j hj
      exact h.known j (hj.imp_right (hleave j))
    · intro j a ha
      obtain ⟨n, hsince, hn, hqueued, hreach⟩ := h.queued j a ha
      exact ⟨n, hsince, hn, hqueued, fun hj => hreach (hj.imp_right (hleave j))⟩
    · intro j w hw
      exact h.received j w (hwaiting j w hw)
  | _ => exact ⟨h.taken_le, h.waiting, h.message, h.disjoint, h.known, h.queued, h.received⟩

end Queued

/-! ## Receiving ends -/

namespace System

/-- The receiving end of a dashboard exists, once it has registered. -/
def HasQueue (s : System) (id : Id) : Prop :=
  id < s.attachments.length → (s.hub.dashboards.waiting? id).isSome

theorem hasQueue_step {s : System} {id : Id} (h : s.HasQueue id) {a : Action}
    (ha : a ≠ .dropQueue id) : (s.step a).HasQueue id := by
  cases a with
  | put | putLocal | close => exact h
  | dispatch now =>
    simp only [step, dispatch]
    split
    · exact h
    · split <;> exact h
    · exact h
    · split <;> exact h
    · exact h
  | take =>
    simp only [step, take]
    split <;> exact h
  | address =>
    simp only [step, address]
    split <;> exact h
  | serve j =>
    simp only [step, serve]
    split
    · split
      · split
        · next hoffer =>
          intro hlt
          rw [Registry.waiting?_of_offer? hoffer, Option.isSome_map]
          exact h (by simpa using hlt)
        · exact h
      · exact h
    · exact h
  | sweep =>
    simp only [step, sweep]
    split
    · intro hlt
      rw [Registry.waiting?_foldl_remove]
      exact h hlt
    · exact h
  | arrive origin =>
    intro hlt
    by_cases e : id = s.attachments.length
    · simp [step, Dashboard.register, Registry.register, Registry.waiting?, e]
    · rw [step, List.length_append, List.length_singleton] at hlt
      have hlt : id < s.attachments.length := Nat.lt_of_le_of_ne (Nat.le_of_lt_succ hlt) e
      simpa [step, Dashboard.register, Registry.register, Registry.waiting?,
          Std.TreeMap.getElem?_insert, Ne.symm e] using h hlt
  | attach j profiles now => exact fun hlt => h (by simpa [step] using hlt)
  | receive j limit =>
    simp only [step, receive]
    split
    · next hreceive =>
      intro hlt
      have := h (by simpa using hlt)
      rw [Registry.waiting?_of_receive hreceive, Option.isSome_map] at this
      exact this
    · exact h
  | remove j => exact h
  | dropQueue j =>
    have hj : j ≠ id := by
      rintro rfl
      exact ha rfl
    intro hlt
    simpa [step, Registry.dropQueue, Registry.waiting?, Std.TreeMap.getElem?_erase, hj] using h hlt

theorem hasQueue_run {s : System} {id : Id} (h : s.HasQueue id) {actions : List Action}
    (hactions : .dropQueue id ∉ actions) : (s.run actions).HasQueue id := by
  induction actions generalizing s with
  | nil => exact h
  | cons a actions ih =>
    exact ih (hasQueue_step h (List.ne_of_not_mem_cons hactions).symm)
      (List.not_mem_of_not_mem_cons hactions)

end System
end FleetWatch.Interleaving
