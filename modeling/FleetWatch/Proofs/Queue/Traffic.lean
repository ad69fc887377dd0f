import FleetWatch.Proofs.Session.Commands
import Mathlib.Data.List.DropRight
import Mathlib.Data.List.Infix
import Mathlib.Order.Bounds.Defs

/-!
# The traffic through a ring

Senders send, are cloned and dropped, and the receiver looks for values in between, until it is
dropped itself. In whatever order they do so, of the values sent since the last one received the
last ones can still be received, as many as there are slots.

## Main definitions

* `Queue.Traffic`: a ring with what has been sent to it and received from it.
* `Queue.Traffic.Action`, `Queue.Traffic.run`: what senders and the receiver do.
* `Queue.Traffic.AllDropped`: all senders have been dropped.
* `Queue.Traffic.Consistent`: what the ring keeps of the values sent, and where its receiver is.
-/
namespace FleetWatch.Queue

/-! ## The number of slots -/

open private Nat.nextPowerOfTwo.go from Init.Data.Nat.Power2.Basic

theorem le_nextPowerOfTwo (n : Nat) : n ≤ n.nextPowerOfTwo := by
  suffices h : ∀ power hpower, n ≤ Nat.nextPowerOfTwo.go n power hpower from h 1 (by decide)
  intro power hpower
  fun_induction Nat.nextPowerOfTwo.go n power hpower with
  | case1 power hpower hlt ih => exact ih
  | case2 power hpower hle => exact Nat.not_lt.mp hle

theorem nextPowerOfTwo_le {n m : Nat} (hm : m.isPowerOfTwo) (h : n ≤ m) : n.nextPowerOfTwo ≤ m := by
  obtain ⟨k, rfl⟩ := hm
  -- every power that is looked at is at most the one that is large enough
  suffices hgo : ∀ power hpower, (∃ j ≤ k, power = 2 ^ j) →
      Nat.nextPowerOfTwo.go n power hpower ≤ 2 ^ k from
    hgo 1 (by decide) ⟨0, Nat.zero_le k, rfl⟩
  intro power hpower hbelow
  fun_induction Nat.nextPowerOfTwo.go n power hpower with
  | case1 power hpower hlt ih =>
    obtain ⟨j, -, rfl⟩ := hbelow
    have hj : j < k := (Nat.pow_lt_pow_iff_right (by decide)).mp (Nat.lt_of_lt_of_le hlt h)
    exact ih ⟨j + 1, hj, (Nat.pow_succ ..).symm⟩
  | case2 power hpower hle =>
    obtain ⟨j, hj, rfl⟩ := hbelow
    exact Nat.pow_le_pow_right (by decide) hj

/-- A command queue has the least power of two that has room for what is asked, within limits. -/
theorem isLeast_commandSlots (capacity : UInt64) :
    IsLeast {m | m.isPowerOfTwo ∧ max 1 (min capacity.toNat maxCommandSlots) ≤ m}
      (commandSlots capacity) :=
  ⟨⟨Nat.isPowerOfTwo_nextPowerOfTwo _, le_nextPowerOfTwo _⟩, fun _ h => nextPowerOfTwo_le h.1 h.2⟩

/-! ## What a receiver finds -/

/-- What there is to find where some values wait. -/
def Poll.ofWaiting {α : Type} (senders : Nat) : List α → Poll α
  | a :: _ => .value a
  | [] => if senders = 0 then .closed else .pending

namespace RingBuffer
variable {α : Type}

/-- A receiver that has missed nothing finds what waits. -/
theorem fst_poll_of_oldest_le {r : RingBuffer α} (h : r.oldest ≤ r.next) :
    r.poll.1 = .ofWaiting r.senders r.receivable := by
  have hfirst : r.kept[r.next - r.oldest]? = r.receivable.head? := by
    rw [receivable, List.head?_drop]
  rw [poll, if_neg (Nat.not_lt.mpr h), hfirst]
  cases r.receivable <;> rfl

/-- However many values it has missed, a receiver ends up with what waits. -/
theorem fst_receive (r : RingBuffer α) : r.receive.1 = .ofWaiting r.senders r.receivable := by
  by_cases hbehind : r.next < r.oldest
  · let caughtUp : RingBuffer α := { r with next := r.oldest }
    have hreceive : r.receive = caughtUp.poll := by simp [receive, poll, hbehind, caughtUp]
    have hkept : caughtUp.receivable = r.receivable := by
      change r.kept.drop (r.oldest - r.oldest) = r.kept.drop (r.next - r.oldest)
      rw [Nat.sub_self, Nat.sub_eq_zero_of_le (Nat.le_of_lt hbehind)]
    rw [hreceive, ← hkept]
    exact fst_poll_of_oldest_le (Nat.le_refl _)
  · have hpoll := fst_poll_of_oldest_le (Nat.not_lt.mp hbehind)
    rw [← hpoll, receive]
    split
    · next hmissed =>
      rw [hmissed] at hpoll
      cases hw : r.receivable <;> simp [hw, Poll.ofWaiting] at hpoll
      split at hpoll <;> cases hpoll
    · rfl

end RingBuffer

theorem Poll.ofWaiting_eq_closed_iff {α : Type} {senders : Nat} {waiting : List α} :
    ofWaiting senders waiting = .closed ↔ senders = 0 ∧ waiting = [] := by
  cases waiting with
  | cons => simp [ofWaiting]
  | nil => by_cases h : senders = 0 <;> simp [ofWaiting, h]

/-! ## What goes through a ring -/

/-- A ring with all values that have been sent to it, and those that have been received from it with
their places in the order of sending. -/
structure Traffic (α : Type) where
  ring : RingBuffer α
  sent : List α := []
  received : List (Nat × α) := []

namespace Traffic
variable {α : Type}

/-- What senders and the receiver do. Receiving a value is to look until there is something else
than values missed. -/
inductive Action (α : Type) where
  | send (a : α)
  | cloneSender
  | dropSender
  | look
  | dropReceiver

def start (capacity : UInt64) : Traffic α := { ring := commandRing capacity }

/-- One action. Only a sender sends or is cloned, and only a receiver looks. -/
def step (t : Traffic α) : Action α → Traffic α
  | .send a =>
    if t.ring.senders = 0 then t
    else match t.ring.send a with
      | (true, ring) => { t with ring, sent := t.sent ++ [a] }
      | (false, ring) => { t with ring }
  | .cloneSender => if t.ring.senders = 0 then t else { t with ring := t.ring.cloneSender }
  | .dropSender => { t with ring := t.ring.dropSender }
  | .look =>
    if t.ring.receiving then
      match t.ring.poll with
      | (.value a, ring) => { t with ring, received := t.received ++ [(t.ring.next, a)] }
      | (_, ring) => { t with ring }
    else t
  | .dropReceiver => { t with ring := t.ring.dropReceiver }

def run (t : Traffic α) (actions : List (Action α)) : Traffic α := actions.foldl step t

def values (t : Traffic α) : List α := t.received.map Prod.snd

/-- The number of values sent up to the last one received. -/
def through (t : Traffic α) : Nat := (t.received.getLast?.map fun r => r.1 + 1).getD 0

@[simp] theorem through_append (t : Traffic α) (ring : RingBuffer α) (r : Nat × α) :
    through { t with ring, received := t.received ++ [r] } = r.1 + 1 := by
  simp [through]

/-- The ways in which an action changes the traffic. -/
inductive Step (t : Traffic α) : Action α → Traffic α → Prop where
  | quiet (action : Action α) (senders : Nat) (receiving : Bool)
    (hreceiving : receiving = (t.ring.receiving && !(action matches .dropReceiver))) :
    Step t action { t with ring := { t.ring with senders, receiving } }
  | accept (a : α) (hreceiving : t.ring.receiving = true) :
    Step t (.send a) { t with
      ring := { t.ring with
        kept := (t.ring.kept ++ [a]).rtake t.ring.slots
        sent := t.ring.sent + 1 }
      sent := t.sent ++ [a] }
  | miss (hbehind : t.ring.next < t.ring.oldest) :
    Step t .look { t with ring := { t.ring with next := t.ring.oldest } }
  | receive (a : α) (hbehind : t.ring.oldest ≤ t.ring.next)
    (hnext : t.ring.kept[t.ring.next - t.ring.oldest]? = some a) :
    Step t .look { t with
      ring := { t.ring with next := t.ring.next + 1 }
      received := t.received ++ [(t.ring.next, a)] }

theorem step_cases (t : Traffic α) (action : Action α) : t.Step action (t.step action) := by
  have hsame (action : Action α) (h : (action matches .dropReceiver) = false) :
      t.Step action t := by
    simpa using Step.quiet (t := t) action t.ring.senders t.ring.receiving (by simp [h])
  cases action with
  | send a =>
    simp only [step]
    split
    · exact hsame _ rfl
    · cases hreceiving : t.ring.receiving with
      | true => simpa [RingBuffer.send, hreceiving, List.rtake] using Step.accept a hreceiving
      | false => simpa [RingBuffer.send, hreceiving] using hsame _ rfl
  | cloneSender =>
    simp only [step]
    split
    · exact hsame _ rfl
    · exact .quiet _ _ _ (by simp)
  | dropSender => exact .quiet _ _ _ (by simp)
  | dropReceiver => exact .quiet _ _ _ (by simp)
  | look =>
    simp only [step]
    split
    · by_cases hbehind : t.ring.next < t.ring.oldest
      · simpa [RingBuffer.poll, hbehind] using Step.miss hbehind
      · cases hnext : t.ring.kept[t.ring.next - t.ring.oldest]? with
        | some a =>
          simpa [RingBuffer.poll, hbehind, hnext] using Step.receive a (Nat.not_lt.mp hbehind) hnext
        | none =>
          by_cases hsenders : t.ring.senders = 0 <;>
            simpa [RingBuffer.poll, hbehind, hnext, hsenders] using hsame .look rfl
    · exact hsame _ rfl

/-! ## What a ring keeps -/

/-- Of some values and one more, the last ones are the same whether the older of the former are left
out before or not. -/
theorem rtake_rtake_append (l : List α) (a : α) (n : Nat) :
    (l.rtake n ++ [a]).rtake n = (l ++ [a]).rtake n := by
  have hkept : l.rtake n ++ [a] = (l ++ [a]).drop (l.length - n) :=
    (List.drop_append_of_le_length (Nat.sub_le l.length n)).symm
  rw [hkept, List.rtake, List.rtake, List.drop_drop, List.length_drop, List.length_append,
    List.length_singleton]
  congr 1
  omega

/-- The last values sent are kept, as many as there are slots. The receiver stands behind the last
value that it has received, or has gone on to one that was the oldest kept. -/
structure Consistent (n : Nat) (t : Traffic α) : Prop where
  slots : t.ring.slots = n
  sent : t.ring.sent = t.sent.length
  kept : t.ring.kept = t.sent.rtake n
  through_le : t.through ≤ t.ring.next
  next_le : t.ring.next ≤ t.sent.length
  next_of_missed : t.ring.next ≠ t.through → t.ring.next + n ≤ t.sent.length

namespace Consistent
variable {n : Nat} {t : Traffic α}

theorem start (capacity : UInt64) :
    Consistent (commandSlots capacity) (Traffic.start capacity : Traffic α) where
  slots := rfl
  sent := rfl
  kept := by simp [Traffic.start, commandRing]
  through_le := Nat.le_refl 0
  next_le := Nat.le_refl 0
  next_of_missed := fun h => absurd rfl h

theorem oldest (h : t.Consistent n) : t.ring.oldest = t.sent.length - n := by
  rw [RingBuffer.oldest, h.sent, h.kept, List.rtake, List.length_drop]
  omega

/-- The value that the receiver finds where it stands is the one that was sent there. -/
theorem getElem?_kept (h : t.Consistent n) (hbehind : t.ring.oldest ≤ t.ring.next) :
    t.ring.kept[t.ring.next - t.ring.oldest]? = t.sent[t.ring.next]? := by
  rw [h.oldest] at hbehind ⊢
  rw [h.kept, List.rtake, List.getElem?_drop, Nat.add_sub_cancel' hbehind]

/-- The values that can still be received are those sent since the last one received, or the last of
these if they are more than there are slots. -/
theorem receivable (h : t.Consistent n) : t.ring.receivable = (t.sent.drop t.through).rtake n := by
  have hthrough := h.through_le
  have hmissed := h.next_of_missed
  rw [RingBuffer.receivable, h.oldest, h.kept, List.rtake, List.rtake, List.drop_drop,
    List.drop_drop, List.length_drop]
  congr 1
  omega

theorem step (h : t.Consistent n) {action : Action α} {u : Traffic α} (hstep : t.Step action u) :
    u.Consistent n := by
  have hnext := h.next_le
  have hthrough := h.through_le
  have hmissed := h.next_of_missed
  cases hstep with
  | quiet => exact ⟨h.slots, h.sent, h.kept, hthrough, hnext, hmissed⟩
  | accept a =>
    refine ⟨h.slots, by simp [h.sent], ?_, hthrough, by simp; omega, fun hne => ?_⟩
    · rw [h.kept, h.slots, rtake_rtake_append]
    · have hlater := hmissed hne
      simp only [List.length_append]
      omega
  | miss hbehind =>
    rw [h.oldest] at hbehind
    refine ⟨h.slots, h.sent, h.kept, ?_, ?_, fun _ => ?_⟩
    all_goals rw [h.oldest]
    · exact Nat.le_trans hthrough (Nat.le_of_lt hbehind)
    · exact Nat.sub_le _ _
    · dsimp only
      omega
  | receive a hbehind hfound =>
    rw [h.getElem?_kept hbehind] at hfound
    have hplace := (List.getElem?_eq_some_iff.mp hfound).choose
    refine ⟨h.slots, h.sent, h.kept, ?_, hplace, fun hne => absurd ?_ hne⟩
    all_goals simp

theorem run (h : t.Consistent n) (actions : List (Action α)) : (t.run actions).Consistent n := by
  induction actions generalizing t with
  | nil => exact h
  | cons action actions ih => exact ih (h.step (t.step_cases action))

end Consistent

/-! ## What is received -/

/-- The values received stand at rising places of those sent, before the place of the receiver. -/
structure InOrder (t : Traffic α) : Prop where
  rising : (t.received.map Prod.fst).Pairwise (· < ·)
  placed : ∀ r ∈ t.received, r.1 < t.ring.next ∧ t.sent[r.1]? = some r.2
  sublist : t.values.Sublist (t.sent.take t.ring.next)

namespace InOrder
variable {n : Nat} {t : Traffic α}

theorem step (h : t.InOrder) (hc : t.Consistent n) {action : Action α} {u : Traffic α}
    (hstep : t.Step action u) : u.InOrder := by
  cases hstep with
  | quiet => exact ⟨h.rising, h.placed, h.sublist⟩
  | accept a =>
    refine ⟨h.rising, fun r hr => ?_, ?_⟩
    · obtain ⟨hlt, hr⟩ := h.placed r hr
      exact ⟨hlt, List.getElem?_append_left (List.getElem?_eq_some_iff.mp hr).choose ▸ hr⟩
    · dsimp only
      rw [List.take_append_of_le_length hc.next_le]
      exact h.sublist
  | miss hbehind =>
    refine ⟨h.rising, fun r hr => ?_, ?_⟩
    · obtain ⟨hlt, hr⟩ := h.placed r hr
      exact ⟨Nat.lt_trans hlt hbehind, hr⟩
    · exact h.sublist.trans (List.take_sublist_take_left (Nat.le_of_lt hbehind))
  | receive a hbehind hfound =>
    rw [hc.getElem?_kept hbehind] at hfound
    refine ⟨?_, fun r hr => ?_, ?_⟩
    · simp only [List.map_append, List.map_singleton, List.pairwise_append, List.pairwise_singleton]
      refine ⟨h.rising, trivial, ?_⟩
      simp only [List.mem_map, List.mem_singleton]
      rintro _ ⟨r, hr, rfl⟩ _ rfl
      exact (h.placed r hr).1
    · obtain hr | rfl := by simpa using hr
      · obtain ⟨hlt, hr⟩ := h.placed r hr
        exact ⟨Nat.lt_succ_of_lt hlt, hr⟩
      · exact ⟨Nat.lt_succ_self _, hfound⟩
    · simp only [values, List.map_append, List.map_singleton]
      rw [List.take_add_one, hfound]
      exact h.sublist.append (List.Sublist.refl _)

theorem run (h : t.InOrder) (hc : t.Consistent n) (actions : List (Action α)) :
    (t.run actions).InOrder := by
  induction actions generalizing t with
  | nil => exact h
  | cons action actions ih =>
    have hstep := t.step_cases action
    exact ih (h.step hc hstep) (hc.step hstep)

end InOrder

namespace Consistent
variable {n : Nat} {t : Traffic α}

/-- When nothing has been missed, all that was sent has been received or can still be. -/
theorem append_receivable (h : t.Consistent n) (ho : t.InOrder)
    (hlength : t.received.length = t.ring.next) (hroom : t.sent.length ≤ t.received.length + n) :
    t.values ++ t.ring.receivable = t.sent := by
  have hnext := h.next_le
  have hthrough := h.through_le
  have hmissed := h.next_of_missed
  have hvalues : t.values = t.sent.take t.ring.next :=
    ho.sublist.eq_of_length (by simp [values, hlength, hnext])
  have hreceivable : t.ring.receivable = t.sent.drop t.ring.next := by
    rw [h.receivable, List.rtake, List.drop_drop, List.length_drop]
    congr 1
    omega
  rw [hvalues, hreceivable, List.take_append_drop]

/-- A receiver is told that the queue is closed when all senders are gone and nothing is left. -/
theorem poll_eq_closed_iff (h : t.Consistent n) (hn : 0 < n) :
    t.ring.poll.1 = .closed ↔ t.ring.senders = 0 ∧ t.ring.receivable = [] := by
  by_cases hbehind : t.ring.next < t.ring.oldest
  · -- one that has missed values is told so first, and there are values left for it
    have hsome : t.ring.receivable ≠ [] := by
      have hthrough := h.through_le
      rw [h.oldest] at hbehind
      rw [h.receivable, ← List.length_pos_iff, List.rtake, List.length_drop, List.length_drop]
      omega
    simp [RingBuffer.poll, hbehind, hsome]
  · rw [RingBuffer.fst_poll_of_oldest_le (Nat.not_lt.mp hbehind), Poll.ofWaiting_eq_closed_iff]

end Consistent

/-- Nothing is missed in a step as long as no more values wait than there are slots. -/
theorem length_received_step {n : Nat} {t u : Traffic α} (hc : t.Consistent n)
    (hroom : t.sent.length ≤ t.received.length + n) (h : t.received.length = t.ring.next)
    {action : Action α} (hstep : t.Step action u) : u.received.length = u.ring.next := by
  cases hstep with
  | quiet | accept => exact h
  | miss hbehind =>
    rw [hc.oldest] at hbehind
    omega
  | receive => simp [h]

theorem Step.receiving_iff {t u : Traffic α} {action : Action α} (h : t.Step action u) :
    u.ring.receiving = true ↔ t.ring.receiving = true ∧ action ≠ .dropReceiver := by
  cases h with
  | quiet _ _ _ hreceiving => cases action <;> simp [hreceiving]
  | _ => simp

/-- The receiver is there in the end if it was at first and has not been dropped. -/
theorem receiving_run (t : Traffic α) (actions : List (Action α)) :
    (t.run actions).ring.receiving = true ↔
      t.ring.receiving = true ∧ .dropReceiver ∉ actions := by
  induction actions generalizing t with
  | nil => simp [run]
  | cons action actions ih =>
    change ((t.step action).run actions).ring.receiving = true ↔ _
    rw [ih, (t.step_cases action).receiving_iff, List.mem_cons, not_or, and_assoc, ne_comm]

/-! ## Senders -/

def Action.clones : Action α → Bool
  | .cloneSender => true
  | _ => false

def Action.drops : Action α → Bool
  | .dropSender => true
  | _ => false

/-- At some point as many senders had been dropped as there had been: the first one and its
clones. -/
def AllDropped (actions : List (Action α)) : Prop :=
  ∃ before, before <+: actions ∧ before.countP Action.drops = before.countP Action.clones + 1

instance (actions : List (Action α)) : Decidable (AllDropped actions) :=
  decidable_of_iff (∃ before ∈ actions.inits,
      before.countP Action.drops = before.countP Action.clones + 1) <| by
    simp [AllDropped]

theorem allDropped_append_iff (actions : List (Action α)) (action : Action α) :
    AllDropped (actions ++ [action]) ↔ AllDropped actions ∨
      (actions ++ [action]).countP Action.drops =
        (actions ++ [action]).countP Action.clones + 1 := by
  constructor
  · rintro ⟨before, hbefore, hcount⟩
    obtain rfl | hbefore := List.prefix_concat_iff.mp hbefore
    · exact .inr hcount
    · exact .inl ⟨before, hbefore, hcount⟩
  · rintro (⟨before, hbefore, hcount⟩ | hcount)
    · exact ⟨before, hbefore.trans (List.prefix_append _ _), hcount⟩
    · exact ⟨_, List.prefix_refl _, hcount⟩

/-- Where there is no sender, none is cloned, and there is none to be dropped. -/
theorem senders_step (t : Traffic α) (action : Action α) :
    (t.step action).ring.senders =
      if t.ring.senders = 0 then 0
      else t.ring.senders + action.clones.toNat - action.drops.toNat := by
  have hstays : t.ring.senders =
      if t.ring.senders = 0 then 0 else t.ring.senders + false.toNat - false.toNat := by
    split <;> simp [*]
  cases action with
  | send a =>
    refine Eq.trans ?_ hstays
    by_cases hzero : t.ring.senders = 0
    · simp [step, hzero]
    · cases hreceiving : t.ring.receiving <;>
        simp [step, hzero, RingBuffer.send, hreceiving]
  | cloneSender =>
    by_cases hzero : t.ring.senders = 0 <;>
      simp [step, hzero, RingBuffer.cloneSender, Action.clones, Action.drops]
  | dropSender =>
    by_cases hzero : t.ring.senders = 0 <;>
      simp [step, hzero, RingBuffer.dropSender, Action.clones, Action.drops]
  | look =>
    refine Eq.trans ?_ hstays
    simp only [step, RingBuffer.poll]
    grind
  | dropReceiver => exact hstays

/-- The ring counts the senders that there are: none once all have been dropped, and until then the
first one and the clones without those dropped. -/
structure Counted (actions : List (Action α)) (senders : Nat) : Prop where
  zero : AllDropped actions → senders = 0
  left : ¬ AllDropped actions →
    actions.countP Action.drops + senders = actions.countP Action.clones + 1 ∧ 0 < senders

namespace Counted
variable {actions : List (Action α)} {senders : Nat}

theorem eq_zero_iff (h : Counted actions senders) : senders = 0 ↔ AllDropped actions := by
  refine ⟨fun hzero => ?_, h.zero⟩
  by_contra hleft
  have := (h.left hleft).2
  omega

theorem step {t : Traffic α} (h : Counted actions t.ring.senders) (action : Action α) :
    Counted (actions ++ [action]) (t.step action).ring.senders := by
  rw [senders_step]
  by_cases hall : AllDropped actions
  · have hlater := (allDropped_append_iff actions action).mpr (.inl hall)
    exact ⟨fun _ => by rw [if_pos (h.zero hall)], fun hnot => absurd hlater hnot⟩
  · obtain ⟨hcount, hpos⟩ := h.left hall
    have hsingle (p : Action α → Bool) : [action].countP p = (p action).toNat := by
      cases hp : p action <;> simp [hp]
    have hlast := allDropped_append_iff actions action
    rw [List.countP_append, List.countP_append, hsingle, hsingle] at hlast
    rw [if_neg (Nat.ne_of_gt hpos)]
    refine ⟨fun hlater => ?_, fun hnot => ?_⟩
    · have := (hlast.mp hlater).resolve_left hall
      omega
    · have hother : ¬ _ := fun hcount => hnot (hlast.mpr (.inr hcount))
      have hd : action.drops.toNat ≤ 1 := Bool.toNat_le _
      rw [List.countP_append, List.countP_append, hsingle, hsingle]
      omega

end Counted

section Start
variable (capacity : UInt64) (actions : List (Action α))

theorem consistent_run_start :
    Consistent (commandSlots capacity) ((start capacity).run actions : Traffic α) :=
  (Consistent.start capacity).run actions

theorem counted_run_start :
    Counted actions ((start capacity).run actions : Traffic α).ring.senders := by
  induction actions using List.reverseRecOn with
  | nil => exact ⟨fun ⟨before, hbefore, hcount⟩ => by simp_all, fun _ => ⟨rfl, Nat.one_pos⟩⟩
  | append_singleton before action ih =>
    rw [run, List.foldl_append]
    exact ih.step action

theorem inOrder_run_start : InOrder ((start capacity).run actions : Traffic α) :=
  InOrder.run ⟨List.Pairwise.nil, by simp [start], by simp [start, values]⟩
    (Consistent.start capacity) actions

variable {capacity actions}

/-- While no more values wait than there are slots, the values received are the first ones sent. -/
theorem length_received_run_start
    (hroom : ∀ before, before <+: actions →
      ((start capacity).run before).sent.length ≤
        ((start capacity).run before).received.length + commandSlots capacity) :
    ((start capacity).run actions).received.length = ((start capacity).run actions).ring.next := by
  induction actions using List.reverseRecOn with
  | nil => rfl
  | append_singleton before action ih =>
    have hbefore := List.prefix_append before [action]
    rw [run, List.foldl_append]
    exact length_received_step (consistent_run_start capacity before) (hroom before hbefore)
      (ih fun earlier h => hroom earlier (h.trans hbefore)) (step_cases _ action)

end Start

/-- A command queue drops the oldest commands when there are too many. It has the least power of two
of slots that has room for what is asked, within limits. Whatever senders and the receiver do, the
commands received were sent in this order, each once; those that can still be received are the ones
sent since the last one received, or as many of the last of them as there are slots; nothing is lost
while no more wait than there are slots; a command is taken exactly as long as the receiver is
there; and a receiver finds what can still be received, and is told that the queue is closed exactly
when the first sender and all its clones have been dropped and nothing is left. -/
theorem drops_oldest (capacity : UInt64) (actions : List (Action α)) :
    let n := commandSlots capacity
    let t := (start capacity).run actions
    IsLeast {m | m.isPowerOfTwo ∧ max 1 (min capacity.toNat 1024) ≤ m} n ∧
    (t.received.map Prod.fst).Pairwise (· < ·) ∧ (∀ r ∈ t.received, t.sent[r.1]? = some r.2) ∧
    t.values.Sublist t.sent ∧
    t.ring.receivable = (t.sent.drop t.through).rtake n ∧
    ((∀ before, before <+: actions → ((start capacity).run before).sent.length ≤
        ((start capacity).run before).received.length + n) →
      t.values ++ t.ring.receivable = t.sent) ∧
    (∀ a, (t.ring.send a).1 = true ↔ Action.dropReceiver ∉ actions) ∧
    t.ring.receive.1 = .ofWaiting t.ring.senders t.ring.receivable ∧
    t.ring.receive.2.receivable = t.ring.receivable.tail ∧
    (t.ring.senders = 0 ↔ AllDropped actions) ∧
    (t.ring.poll.1 = .closed ↔ AllDropped actions ∧ t.ring.receivable = []) := by
  intro n t
  have hc : t.Consistent n := consistent_run_start capacity actions
  have ho : t.InOrder := inOrder_run_start capacity actions
  have hsenders := (counted_run_start capacity actions).eq_zero_iff
  refine ⟨isLeast_commandSlots capacity, ho.rising, fun r hr => (ho.placed r hr).2,
    ho.sublist.trans (List.take_sublist _ _), hc.receivable, fun hroom => ?_, fun a => ?_,
    t.ring.fst_receive, ?_, hsenders, ?_⟩
  · exact hc.append_receivable ho (length_received_run_start hroom)
      (hroom actions (List.prefix_refl _))
  · have hreceiving : t.ring.receiving = true ↔ .dropReceiver ∉ actions :=
      (receiving_run (start capacity) actions).trans (by simp [start, commandRing])
    rw [← hreceiving]
    cases h : t.ring.receiving <;> simp [RingBuffer.send, h]
  · obtain ⟨a, -, hfirst⟩ | ⟨hempty, -, hafter⟩ := t.ring.receive_cases
    · rw [hfirst, List.tail_cons]
    · rw [hempty, hafter, List.tail_nil]
  · rw [← hsenders]
    exact hc.poll_eq_closed_iff (commandSlots_pos capacity)

/-- Two senders, the first of which is dropped after it has sent one command too many. -/
def overflow : List (Action String) :=
  [.cloneSender, .send "a", .send "b", .send "c", .send "d", .send "e", .dropSender, .look, .look,
    .look, .look, .look]

/-- Three slots are asked for and four are there, so the first of five commands is lost. The others
are received, and the queue is not closed before the second sender is dropped too. -/
theorem drops_oldest_of_overflow :
    ((start 3).run overflow).values = ["b", "c", "d", "e"] ∧
      ((start 3).run overflow).ring.poll.1 ≠ .closed ∧
      ((start 3).run (overflow ++ [.dropSender])).ring.poll.1 = .closed := by
  obtain ⟨-, -, -, -, -, -, -, -, -, -, hopen⟩ := drops_oldest 3 overflow
  obtain ⟨-, -, -, -, -, -, -, -, -, -, hclosed⟩ := drops_oldest 3 (overflow ++ [.dropSender])
  refine ⟨by decide +kernel, ?_, ?_⟩
  · rw [ne_eq, hopen]
    decide +kernel
  · rw [hclosed]
    decide +kernel

end Traffic
end FleetWatch.Queue
