import FleetWatch.Hub

/-!
# Commands on their way

A command goes to the queue of the session that its host is routed to: it is the last that waits
there, at the cost of the oldest ones, and what waits for other sessions stays as it is.

## Main definitions

* `Queue.RingBuffer.Valid`: there are slots, and nobody has received what was never sent.
* `Session.Registry.waiting?`: the commands that wait for a session.
* `Session.Registry.Enqueues`: a command has been queued for one session.
-/
namespace FleetWatch

namespace Queue.RingBuffer
variable {α : Type} {r : RingBuffer α}

/-- There is a slot, and what was kept and received was sent before. -/
structure Valid (r : RingBuffer α) : Prop where
  slots : 0 < r.slots
  kept : r.kept.length ≤ r.sent
  next : r.next ≤ r.sent

theorem valid_commandRing (capacity : UInt64) : (commandRing capacity : RingBuffer α).Valid :=
  ⟨commandSlots_pos capacity, Nat.le_refl 0, Nat.le_refl 0⟩

namespace Valid

theorem cloneSender (h : r.Valid) : r.cloneSender.Valid := ⟨h.slots, h.kept, h.next⟩

theorem dropSender (h : r.Valid) : r.dropSender.Valid := ⟨h.slots, h.kept, h.next⟩

theorem dropReceiver (h : r.Valid) : r.dropReceiver.Valid := ⟨h.slots, h.kept, h.next⟩

theorem send (h : r.Valid) (a : α) : (r.send a).2.Valid := by
  have hkept := h.kept
  have hnext := h.next
  unfold RingBuffer.send
  split
  · refine ⟨h.slots, ?_, by dsimp only; omega⟩
    simp only [List.length_drop, List.length_append, List.length_singleton]
    omega
  · exact h

theorem poll (h : r.Valid) : r.poll.2.Valid := by
  have hkept := h.kept
  unfold RingBuffer.poll
  split
  · exact ⟨h.slots, h.kept, Nat.sub_le _ _⟩
  · next hbehind =>
    split
    · next a ha =>
      have hplace := (List.getElem?_eq_some_iff.mp ha).choose
      refine ⟨h.slots, h.kept, ?_⟩
      simp only [oldest] at hbehind hplace ⊢
      omega
    · exact h

theorem receive (h : r.Valid) : r.receive.2.Valid := by
  have hpoll := h.poll
  unfold RingBuffer.receive
  split
  · next hmissed =>
    rw [hmissed] at hpoll
    exact hpoll.poll
  · exact hpoll

/-- What is sent is the last that waits; some of the oldest may have made room for it. -/
theorem receivable_send (h : r.Valid) (hreceiving : r.receiving = true) (a : α) :
    (r.send a).1 = true ∧
      ∃ rest, rest <:+ r.receivable ∧ (r.send a).2.receivable = rest ++ [a] := by
  obtain ⟨hslots, hkept, hnext⟩ := h
  have hsend : r.send a = (true, { r with
      kept := (r.kept ++ [a]).drop ((r.kept ++ [a]).length - r.slots), sent := r.sent + 1 }) := by
    simp [RingBuffer.send, hreceiving]
  -- how many of the values kept before are dropped or have been received
  let past := (r.kept.length + 1 - r.slots) +
    (r.next - (r.sent + 1 - (r.kept.length + 1 - (r.kept.length + 1 - r.slots))))
  have hpast : past ≤ r.kept.length := by simp only [past]; omega
  have hmore : r.next - r.oldest ≤ past := by simp only [past, oldest]; omega
  refine ⟨by rw [hsend], r.kept.drop past, ?_, ?_⟩
  · rw [receivable, ← Nat.add_sub_cancel' hmore, ← List.drop_drop]
    exact List.drop_suffix _ _
  · rw [hsend]
    simp only [receivable, oldest, List.length_drop, List.length_append, List.length_singleton,
      List.drop_drop]
    exact List.drop_append_of_le_length hpast

end Valid

/-- One look at a ring whose receiver has not fallen behind. -/
theorem poll_of_oldest_le (h : r.oldest ≤ r.next) :
    (∃ a, r.poll = (.value a, { r with next := r.next + 1 }) ∧
      r.receivable = a :: ({ r with next := r.next + 1 } : RingBuffer α).receivable) ∨
    (r.receivable = [] ∧ (r.poll = (.pending, r) ∨ r.poll = (.closed, r))) := by
  unfold poll
  rw [if_neg (Nat.not_lt.mpr h)]
  cases ha : r.kept[r.next - r.oldest]? with
  | some a =>
    have hplace := List.drop_eq_getElem?_toList_append (l := r.kept) (i := r.next - r.oldest)
    have hnext : r.next + 1 - r.oldest = r.next - r.oldest + 1 := by omega
    rw [ha, Option.toList_some, List.singleton_append, ← hnext] at hplace
    exact .inl ⟨a, rfl, hplace⟩
  | none =>
    refine .inr ⟨List.drop_eq_nil_of_le (List.getElem?_eq_none_iff.mp ha), ?_⟩
    by_cases hsenders : r.senders = 0
    · exact .inr (by simp [hsenders])
    · exact .inl (by simp [hsenders])

/-- A receiver finds the oldest value that waits for it, if one does. -/
theorem receive_cases (r : RingBuffer α) :
    (∃ a, r.receive.1 = .value a ∧ r.receivable = a :: r.receive.2.receivable) ∨
    (r.receivable = [] ∧ (∀ a, r.receive.1 ≠ .value a) ∧ r.receive.2.receivable = []) := by
  by_cases hbehind : r.next < r.oldest
  · -- The values missed are passed over; all that is kept can still be received.
    let caughtUp : RingBuffer α := { r with next := r.oldest }
    have hreceive : r.receive = caughtUp.poll := by simp [receive, poll, hbehind, caughtUp]
    have hkept : caughtUp.receivable = r.receivable := by
      change r.kept.drop (r.oldest - r.oldest) = r.kept.drop (r.next - r.oldest)
      rw [Nat.sub_self, Nat.sub_eq_zero_of_le (Nat.le_of_lt hbehind)]
    rw [hreceive, ← hkept]
    obtain ⟨a, hpoll, hfirst⟩ | ⟨hempty, hpoll | hpoll⟩ :=
      caughtUp.poll_of_oldest_le (Nat.le_refl _)
    · exact .inl ⟨a, by rw [hpoll], by rw [hpoll]; exact hfirst⟩
    · exact .inr ⟨hempty, by simp [hpoll], by rw [hpoll]; exact hempty⟩
    · exact .inr ⟨hempty, by simp [hpoll], by rw [hpoll]; exact hempty⟩
  · obtain ⟨a, hpoll, hfirst⟩ | ⟨hempty, hpoll | hpoll⟩ :=
      r.poll_of_oldest_le (Nat.not_lt.mp hbehind)
    · exact .inl ⟨a, by simp [receive, hpoll], by simpa [receive, hpoll] using hfirst⟩
    · exact .inr ⟨hempty, by simp [receive, hpoll], by simpa [receive, hpoll] using hempty⟩
    · exact .inr ⟨hempty, by simp [receive, hpoll], by simpa [receive, hpoll] using hempty⟩

theorem send_eq_of_not_receiving (h : r.receiving = false) (a : α) : r.send a = (false, r) := by
  simp [send, h]

/-- Holding a queue while sending to it makes no difference. -/
theorem send_cloneSender (r : RingBuffer α) (a : α) :
    (r.cloneSender.send a).1 = (r.send a).1 ∧
      (r.cloneSender.send a).2.dropSender = (r.send a).2 := by
  obtain ⟨slots, kept, sent, next, senders, receiving⟩ := r
  cases receiving <;> simp [send, cloneSender, dropSender]

end Queue.RingBuffer

namespace Session.Registry

open Queue

def waiting? (r : Registry) (id : Id) : Option (List Command) :=
  (r.queues[id]?).map RingBuffer.receivable

def Valid (r : Registry) : Prop :=
  ∀ (id : Id) (q : RingBuffer Command), r.queues[id]? = some q → q.Valid

/-- A command has been queued for one session: it is the last that waits there, and all else is as
before. -/
structure Enqueues (before : Registry) (id : Id) (c : Command) (after : Registry) : Prop where
  routes : ∀ hostId, after.route? hostId = before.route? hostId
  own : ∃ waiting rest, before.waiting? id = some waiting ∧ rest <:+ waiting ∧
    after.waiting? id = some (rest ++ [c])
  others : ∀ other, other ≠ id → after.waiting? other = before.waiting? other

variable {r : Registry} {id : Id}

theorem queues_updateQueue (r : Registry) (id j : Id)
    (f : RingBuffer Command → RingBuffer Command) :
    (r.updateQueue id f).queues[j]? = if id = j then (r.queues[j]?).map f else r.queues[j]? := by
  unfold updateQueue
  split
  · next q hq =>
    by_cases e : id = j
    · subst e
      simp [hq]
    · simp [Std.TreeMap.getElem?_insert, e]
  · next hq =>
    by_cases e : id = j
    · subst e
      simp [hq]
    · simp [e]

theorem queues_unroute (r : Registry) (hostId : String) (j : Id) :
    (r.unroute hostId).queues[j]? =
      if r.route? hostId = some j then (r.queues[j]?).map RingBuffer.dropSender
      else r.queues[j]? := by
  unfold unroute
  cases hroute : r.route? hostId with
  | none => simp
  | some id => simp only [queues_updateQueue, Option.some.injEq]

/-- Only sessions that had a queue have one after it was changed. -/
theorem isSome_queues_updateQueue (r : Registry) (id j : Id)
    (f : RingBuffer Command → RingBuffer Command) :
    (r.updateQueue id f).queues[j]?.isSome = r.queues[j]?.isSome := by
  rw [queues_updateQueue]
  split <;> simp

theorem isSome_queues_unroute (r : Registry) (hostId : String) (j : Id) :
    (r.unroute hostId).queues[j]?.isSome = r.queues[j]?.isSome := by
  rw [queues_unroute]
  split <;> simp

theorem isSome_queues_register (r : Registry) (hostId : String) (id j : Id) :
    (r.register hostId id).queues[j]?.isSome = r.queues[j]?.isSome :=
  (isSome_queues_unroute _ hostId j).trans (isSome_queues_updateQueue r id j _)

theorem isSome_queues_deregister (r : Registry) (hostId : String) (id j : Id) :
    (r.deregister hostId id).2.queues[j]?.isSome = r.queues[j]?.isSome := by
  unfold deregister
  split
  · exact isSome_queues_unroute r hostId j
  · rfl

theorem route?_deregister (r : Registry) (hostId : String) (id : Id) (k : String) :
    (r.deregister hostId id).2.route? k =
      if hostId = k ∧ r.route? hostId = some id then none else r.route? k := by
  unfold deregister
  split
  · next hroute => simp only [route?_unroute, hroute, and_true]
  · next hroute => simp only [hroute, and_false, if_false]

theorem Valid.updateQueue (h : r.Valid) (id : Id) {f : RingBuffer Command → RingBuffer Command}
    (hf : ∀ q, q.Valid → (f q).Valid) : (r.updateQueue id f).Valid := by
  intro j q hq
  rw [queues_updateQueue] at hq
  split at hq
  · obtain ⟨old, hold, rfl⟩ := Option.map_eq_some_iff.mp hq
    exact hf old (h j old hold)
  · exact h j q hq

theorem Valid.unroute (h : r.Valid) (hostId : String) : (r.unroute hostId).Valid := by
  intro j q hq
  rw [queues_unroute] at hq
  split at hq
  · obtain ⟨old, hold, rfl⟩ := Option.map_eq_some_iff.mp hq
    exact (h j old hold).dropSender
  · exact h j q hq

theorem Valid.register (h : r.Valid) (hostId : String) (id : Id) :
    (r.register hostId id).Valid := by
  have hcloned : (r.updateQueue id RingBuffer.cloneSender).Valid :=
    h.updateQueue id fun _ hq => hq.cloneSender
  exact fun j q hq => hcloned.unroute hostId j q hq

theorem Valid.deregister (h : r.Valid) (hostId : String) (id : Id) :
    (r.deregister hostId id).2.Valid := by
  unfold Registry.deregister
  split
  · exact h.unroute hostId
  · exact h

theorem Valid.openQueue (h : r.Valid) (id : Id) (capacity : UInt64) :
    (r.openQueue id capacity).Valid := by
  intro j q hq
  simp only [Registry.openQueue, Std.TreeMap.getElem?_insert, Std.compare_eq_iff_eq] at hq
  split at hq
  · exact Option.some.inj hq ▸ RingBuffer.valid_commandRing capacity
  · exact h j q hq

/-- Receiving changes the queue of the session and nothing else. -/
theorem receive_eq_updateQueue (r : Registry) (id : Id) :
    (r.receive id).2 = r.updateQueue id fun q => q.receive.2 := by
  unfold receive updateQueue
  split
  · next q hq =>
    split
    · next hreceive => simp [hreceive]
    · next hreceive => simp [hreceive]
  · rfl

/-- A send changes the queue of the session that it goes to and nothing else. -/
theorem enqueues_updateQueue (h : r.Valid) {q : RingBuffer Command} (hq : r.queues[id]? = some q)
    (hreceiving : q.receiving = true) (c : Command) {f : RingBuffer Command → RingBuffer Command}
    (hf : (f q).receivable = (q.send c).2.receivable) : r.Enqueues id c (r.updateQueue id f) where
  routes := route?_updateQueue r id f
  own := by
    obtain ⟨-, rest, hrest, hsend⟩ := (h id q hq).receivable_send hreceiving c
    refine ⟨q.receivable, rest, by simp [waiting?, hq], hrest, ?_⟩
    rw [waiting?, queues_updateQueue, if_pos rfl, hq, Option.map_some, Option.map_some, hf, hsend]
  others := fun other hother => by
    rw [waiting?, queues_updateQueue, if_neg (Ne.symm hother), waiting?]

theorem sendCommand_of_route? {hostId : String} {q : RingBuffer Command}
    (hroute : r.route? hostId = some id) (hq : r.queues[id]? = some q) (c : Command) :
    r.sendCommand hostId c = ((q.send c).1, r.updateQueue id fun q => (q.send c).2) := by
  simp [sendCommand, hroute, hq, updateQueue]

/-- A command that is sent to a queue as long as that is held leaves all routes and queues as if it
had been sent at once. -/
theorem updateQueue_held {hostId : String} {q : RingBuffer Command}
    (hroute : r.route? hostId = some id) (hq : r.queues[id]? = some q) (c : Command) :
    let held := (r.updateQueue id RingBuffer.cloneSender).updateQueue id fun q =>
      (q.send c).2.dropSender
    (∀ k, held.route? k = (r.sendCommand hostId c).2.route? k) ∧
      ∀ j : Id, held.queues[j]? = (r.sendCommand hostId c).2.queues[j]? := by
  rw [sendCommand_of_route? hroute hq]
  refine ⟨fun k => by simp only [route?_updateQueue], fun j => ?_⟩
  simp only [queues_updateQueue]
  split
  · next heq =>
    subst heq
    simp [hq, (q.send_cloneSender c).2]
  · rfl

theorem waiting?_updateQueue (r : Registry) (id j : Id)
    {f : RingBuffer Command → RingBuffer Command} (hf : ∀ q, (f q).receivable = q.receivable) :
    (r.updateQueue id f).waiting? j = r.waiting? j := by
  rw [waiting?, queues_updateQueue, waiting?]
  split
  · cases r.queues[j]? <;> simp [hf]
  · rfl

theorem waiting?_unroute (r : Registry) (hostId : String) (j : Id) :
    (r.unroute hostId).waiting? j = r.waiting? j := by
  rw [waiting?, queues_unroute, waiting?]
  split
  · cases r.queues[j]? <;> rfl
  · rfl

/-- Routes come and go without what waits for a session. -/
theorem waiting?_register (r : Registry) (hostId : String) (id j : Id) :
    (r.register hostId id).waiting? j = r.waiting? j :=
  (waiting?_unroute _ hostId j).trans (r.waiting?_updateQueue id j fun _ => rfl)

theorem waiting?_deregister (r : Registry) (hostId : String) (id j : Id) :
    (r.deregister hostId id).2.waiting? j = r.waiting? j := by
  unfold deregister
  split
  · exact r.waiting?_unroute hostId j
  · rfl

theorem waiting?_openQueue (r : Registry) (id j : Id) (capacity : UInt64) :
    (r.openQueue id capacity).waiting? j = if id = j then some [] else r.waiting? j := by
  simp only [waiting?, openQueue, Std.TreeMap.getElem?_insert, Std.compare_eq_iff_eq]
  split <;> rfl

/-- A writer takes the oldest command that waits for its session, if one does. -/
theorem receive_cases {waiting : List Command} (h : r.waiting? id = some waiting) :
    (∃ c rest, waiting = c :: rest ∧ (r.receive id).1 = some c ∧
      (r.receive id).2.waiting? id = some rest) ∨
    (waiting = [] ∧ (r.receive id).1 = none ∧ (r.receive id).2.waiting? id = some []) := by
  obtain ⟨q, hq, rfl⟩ := Option.map_eq_some_iff.mp h
  have hafter : (r.receive id).2.waiting? id = some q.receive.2.receivable := by
    rw [receive_eq_updateQueue, waiting?, queues_updateQueue, if_pos rfl, hq]
    rfl
  obtain ⟨c, hfound, hwaits⟩ | ⟨hempty, hfound, hafterwards⟩ := q.receive_cases
  · refine .inl ⟨c, _, hwaits, ?_, hafter⟩
    have hreceive : q.receive = (.value c, q.receive.2) := Prod.ext hfound rfl
    rw [receive, hq]
    dsimp only
    rw [hreceive]
  · refine .inr ⟨hempty, ?_, hafterwards ▸ hafter⟩
    unfold receive
    rw [hq]
    dsimp only
    split
    · next c q' hreceive => exact absurd (by rw [hreceive]) (hfound c)
    · rfl

theorem waiting?_receive_of_ne (r : Registry) {j : Id} (h : id ≠ j) :
    (r.receive id).2.waiting? j = r.waiting? j := by
  rw [receive_eq_updateQueue, waiting?, queues_updateQueue, if_neg h, waiting?]

end Session.Registry
end FleetWatch
