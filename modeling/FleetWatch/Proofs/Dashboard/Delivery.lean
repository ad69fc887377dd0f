import FleetWatch.Dashboard.Registry

/-!
# Delivery to dashboards

What the queue of a dashboard holds over any run of operations: until the dashboard is cut off, by
the end of its registration or by the first frame that it cannot take, every frame that is
broadcast, and nothing after that.

## Main definitions

* `Dashboard.Registry.takes`: a dashboard can take a frame.
* `Dashboard.Operation`, `Dashboard.Registry.run`: the operations, and runs of them.
* `Dashboard.Registry.received`, `Dashboard.Registry.due`, `Dashboard.Registry.isCutOff`: what a
  dashboard has received in a run, what was broadcast for it, and whether it was cut off.
-/
namespace FleetWatch.Dashboard

open Queue

variable {φ : Type}

namespace Registry

/-- The frames that wait for a dashboard, while its receiving end exists. -/
def waiting? (r : Registry φ) (id : Id) : Option (List φ) := (r.queues[id]?).map Bounded.waiting

def takes (r : Registry φ) (id : Id) : Bool :=
  (r.queues[id]?).any fun q => q.waiting.length < q.capacity

/-! ## One frame for one dashboard -/

theorem isSome_offer? (r : Registry φ) (frame : φ) (id : Id) :
    (r.offer? frame id).isSome = r.takes id := by
  cases hq : r.queues[id]? with
  | none => simp [takes, offer?, hq]
  | some q =>
    by_cases h : q.waiting.length < q.capacity <;> simp [takes, offer?, hq, h, Bounded.offer?]

theorem queues_of_offer?_of_ne {r s : Registry φ} {frame : φ} {id j : Id}
    (h : r.offer? frame id = some s) (hj : id ≠ j) : s.queues[j]? = r.queues[j]? := by
  obtain ⟨q, -, rfl⟩ := Option.map_eq_some_iff.mp h
  simp [Std.TreeMap.getElem?_insert, hj]

theorem origins_of_offer? {r s : Registry φ} {frame : φ} {id : Id}
    (h : r.offer? frame id = some s) : s.origins = r.origins := by
  obtain ⟨q, -, rfl⟩ := Option.map_eq_some_iff.mp h
  rfl

theorem waiting?_of_offer? {r s : Registry φ} {frame : φ} {id : Id}
    (h : r.offer? frame id = some s) (j : Id) :
    s.waiting? j = (r.waiting? j).map fun w => w ++ if id = j then [frame] else [] := by
  by_cases e : id = j
  · subst e
    obtain ⟨q', hq', rfl⟩ := Option.map_eq_some_iff.mp h
    obtain ⟨q, hq, ho⟩ := Option.bind_eq_some_iff.mp hq'
    simp [waiting?, hq, (Bounded.waiting_of_offer? ho).1]
  · simp [waiting?, queues_of_offer?_of_ne h e, e, Function.comp_def]

theorem deliver_cases (r : Registry φ) (frame : φ) (id : Id) :
    (r.takes id = true ∧ ∃ s, r.offer? frame id = some s ∧ r.deliver frame id = (true, s)) ∨
      (r.takes id = false ∧
        r.deliver frame id = (false, { r with origins := r.origins.erase id })) := by
  cases ho : r.offer? frame id with
  | none => exact .inr ⟨by simp [← isSome_offer? r frame, ho], by simp [deliver, ho, remove]⟩
  | some s => exact .inl ⟨by simp [← isSome_offer? r frame, ho], s, rfl, by simp [deliver, ho]⟩

theorem waiting?_deliver (r : Registry φ) (frame : φ) (id j : Id) :
    (r.deliver frame id).2.waiting? j =
      (r.waiting? j).map fun w => w ++ if id = j ∧ r.takes id then [frame] else [] := by
  rcases r.deliver_cases frame id with ⟨ht, s, ho, hd⟩ | ⟨ht, hd⟩
  · simp [hd, waiting?_of_offer? ho, ht]
  · simp [hd, ht, waiting?, Function.comp_def]

theorem isRegistered_deliver (r : Registry φ) (frame : φ) (id j : Id) :
    (r.deliver frame id).2.isRegistered j = (r.isRegistered j && (id ≠ j || r.takes id)) := by
  rcases r.deliver_cases frame id with ⟨ht, s, ho, hd⟩ | ⟨ht, hd⟩
  · simp [hd, isRegistered, origins_of_offer? ho, ht]
  · rw [hd]
    by_cases e : id = j
    · simp [isRegistered, ← e, ht]
    · simp [isRegistered, Std.TreeMap.contains_erase, e]

theorem takes_deliver_of_ne (r : Registry φ) (frame : φ) {id j : Id} (hj : id ≠ j) :
    (r.deliver frame id).2.takes j = r.takes j := by
  rcases r.deliver_cases frame id with ⟨ht, s, ho, hd⟩ | ⟨ht, hd⟩
  · simp [hd, takes, queues_of_offer?_of_ne ho hj]
  · simp [hd, takes]

theorem isRegistered_foldl_remove (ids : List Id) (r : Registry φ) (j : Id) :
    (ids.foldl (fun r id => (r.remove id).2) r).isRegistered j =
      (r.isRegistered j && j ∉ ids) := by
  induction ids generalizing r with
  | nil => simp
  | cons id ids ih =>
    rw [List.foldl_cons, ih]
    by_cases e : id = j
    · simp [remove, isRegistered, e]
    · have hcompare : (compare id j == .eq) = false := by simpa using e
      simp [remove, isRegistered, Std.TreeMap.contains_erase, hcompare, bne, Ne.symm e]

theorem waiting?_foldl_remove (ids : List Id) (r : Registry φ) (j : Id) :
    (ids.foldl (fun r id => (r.remove id).2) r).waiting? j = r.waiting? j := by
  induction ids generalizing r with
  | nil => rfl
  | cons id ids ih =>
    rw [List.foldl_cons, ih]
    rfl

/-! ## Receiving -/

theorem origins_of_receive {r s : Registry φ} {id : Id} {limit : Option Nat} {frames : List φ}
    {stop : QueueEnd} (h : r.receive id limit = some ((frames, stop), s)) :
    s.origins = r.origins := by
  obtain ⟨q, -, hreceived⟩ := Option.map_eq_some_iff.mp h
  rw [← (Prod.mk.inj hreceived).2]

theorem waiting?_of_receive {r s : Registry φ} {id : Id} {limit : Option Nat} {frames : List φ}
    {stop : QueueEnd} (h : r.receive id limit = some ((frames, stop), s)) (j : Id) :
    r.waiting? j = (s.waiting? j).map fun w => (if id = j then frames else []) ++ w := by
  obtain ⟨q, hq, hreceived⟩ := Option.map_eq_some_iff.mp h
  obtain ⟨htaken, rfl⟩ := Prod.mk.inj hreceived
  obtain ⟨rfl, -⟩ := Prod.mk.inj htaken
  by_cases e : id = j
  · subst e
    cases limit with
    | none => simp [waiting?, hq]
    | some n =>
      have htake := List.take_append_drop (min n q.waiting.length) q.waiting
      rw [← List.take_eq_take_min] at htake
      simp [waiting?, hq, htake]
  · simp [waiting?, Std.TreeMap.getElem?_insert, e, Function.comp_def]

/-- As long as the receiving end of a dashboard exists, what waits is received in order, all of it
or as much as is asked for; after all of it the queue is closed unless the dashboard is
registered. -/
theorem receive_of_waiting? {r : Registry φ} {id : Id} {w : List φ} (h : r.waiting? id = some w)
    (limit : Option Nat) :
    ∃ s, r.receive id limit = some ((w.take (limit.getD w.length),
        if limit.any (· ≤ w.length) then .limit
        else if r.isRegistered id then .empty else .closed), s) ∧
      s.waiting? id = some (w.drop (limit.getD w.length)) := by
  obtain ⟨q, hq, rfl⟩ := Option.map_eq_some_iff.mp h
  cases limit with
  | none => exact ⟨_, by simp [receive, hq]; rfl, by simp [waiting?]⟩
  | some n =>
    have hdrop : q.waiting.drop (min n q.waiting.length) = q.waiting.drop n := by
      rcases Nat.le_total n q.waiting.length with hle | hle
      · rw [Nat.min_eq_left hle]
      · rw [Nat.min_eq_right hle, List.drop_length, List.drop_of_length_le hle]
    have hlimit : some n = some (q.waiting.take n).length ↔ n ≤ q.waiting.length := by
      rw [Option.some.injEq, List.length_take]
      omega
    refine ⟨{ r with queues := r.queues.insert id (q.drop (q.waiting.take n).length) }, ?_, ?_⟩
    · simp only [receive, hq, Option.map_some, hlimit, Option.any_some, decide_eq_true_eq,
        Option.getD_some]
    · simp [waiting?, hdrop]

theorem receive_of_waiting?_eq_none {r : Registry φ} {id : Id} (h : r.waiting? id = none)
    (limit : Option Nat) : r.receive id limit = none := by
  rw [receive, Option.map_eq_none_iff.mp h, Option.map_none]

/-! ## One frame for all dashboards -/

/-- The deliveries of a broadcast, one dashboard after the other. -/
def deliverEach (frame : φ) (ids : List Id) (state : FanoutReport × Registry φ) :
    FanoutReport × Registry φ :=
  ids.foldl (fun (report, r) id =>
    match r.deliver frame id with
    | (true, r) => ({ report with delivered := report.delivered + 1 }, r)
    | (false, r) => ({ report with removed := report.removed + 1 }, r)) state

theorem broadcast_eq (r : Registry φ) (frame : φ) :
    r.broadcast frame = deliverEach frame r.origins.keys ({}, r) := rfl

theorem deliverEach_cons (frame : φ) (id : Id) (ids : List Id) (report : FanoutReport)
    (r : Registry φ) :
    deliverEach frame (id :: ids) (report, r) =
      deliverEach frame ids
        ({ delivered := report.delivered + if r.takes id then 1 else 0
           removed := report.removed + if r.takes id then 0 else 1 },
         (r.deliver frame id).2) := by
  rcases r.deliver_cases frame id with ⟨ht, s, -, hd⟩ | ⟨ht, hd⟩
  · simp [deliverEach, hd, ht]
  · simp [deliverEach, hd, ht]

/-- Every target is served by its own queue alone. -/
theorem waiting?_deliverEach (frame : φ) {ids : List Id} (hids : ids.Nodup)
    (report : FanoutReport) (r : Registry φ) (j : Id) :
    (deliverEach frame ids (report, r)).2.waiting? j =
      (r.waiting? j).map fun w => w ++ if j ∈ ids ∧ r.takes j then [frame] else [] := by
  induction ids generalizing report r with
  | nil => simp [deliverEach]
  | cons id ids ih =>
    obtain ⟨hid, hids⟩ := List.nodup_cons.mp hids
    rw [deliverEach_cons, ih hids, waiting?_deliver, Option.map_map]
    -- either this delivery is the one that concerns the dashboard, or none of the others was
    by_cases e : id = j
    · subst e
      simp [hid, Function.comp_def]
    · simp [takes_deliver_of_ne r frame e, e, Ne.symm e, Function.comp_def]

theorem isRegistered_deliverEach (frame : φ) {ids : List Id} (hids : ids.Nodup)
    (report : FanoutReport) (r : Registry φ) (j : Id) :
    (deliverEach frame ids (report, r)).2.isRegistered j =
      (r.isRegistered j && (j ∉ ids || r.takes j)) := by
  induction ids generalizing report r with
  | nil => simp [deliverEach]
  | cons id ids ih =>
    obtain ⟨hid, hids⟩ := List.nodup_cons.mp hids
    rw [deliverEach_cons, ih hids, isRegistered_deliver]
    by_cases e : id = j
    · subst e
      simp [hid]
    · simp [takes_deliver_of_ne r frame e, e, Ne.symm e]

theorem report_deliverEach (frame : φ) {ids : List Id} (hids : ids.Nodup)
    (report : FanoutReport) (r : Registry φ) :
    (deliverEach frame ids (report, r)).1 =
      { delivered := report.delivered + ids.countP r.takes
        removed := report.removed + ids.countP fun id => !r.takes id } := by
  induction ids generalizing report r with
  | nil => rfl
  | cons id ids ih =>
    obtain ⟨hid, hids⟩ := List.nodup_cons.mp hids
    have htakes : ∀ j ∈ ids, (r.deliver frame id).2.takes j = r.takes j := by
      intro j hj
      refine takes_deliver_of_ne r frame ?_
      rintro rfl
      exact hid hj
    have hyes : ids.countP (r.deliver frame id).2.takes = ids.countP r.takes :=
      List.countP_congr fun j hj => by rw [htakes j hj]
    have hno : ids.countP (fun j => !(r.deliver frame id).2.takes j) =
        ids.countP fun j => !r.takes j :=
      List.countP_congr fun j hj => by rw [htakes j hj]
    rw [deliverEach_cons, ih hids, hyes, hno, List.countP_cons, List.countP_cons]
    cases r.takes id <;> simp <;> omega

/-! ## Runs -/

end Registry

/-- What may be done with the registered dashboards and their queues. -/
inductive Operation (φ : Type) where
  | register (id : Id) (origin : String) (capacity : Nat)
  | remove (id : Id)
  | dropQueue (id : Id)
  | receive (id : Id) (limit : Option Nat)
  | broadcast (frame : φ)

def Operation.frame? : Operation φ → Option φ
  | .broadcast frame => some frame
  | _ => none

namespace Registry

def apply (r : Registry φ) : Operation φ → Registry φ
  | .register id origin capacity => r.register id origin capacity
  | .remove id => (r.remove id).2
  | .dropQueue id => (r.dropQueue id).2
  | .receive id limit => ((r.receive id limit).map Prod.snd).getD r
  | .broadcast frame => (r.broadcast frame).2

def run (r : Registry φ) (ops : List (Operation φ)) : Registry φ := ops.foldl apply r

/-- The frames that an operation takes out of the queue of a dashboard. -/
def receivedBy (r : Registry φ) (id : Id) : Operation φ → List φ
  | .receive j limit => if j = id then ((r.receive j limit).map fun x => x.1.1).getD [] else []
  | _ => []

def received (id : Id) : Registry φ → List (Operation φ) → List φ
  | _, [] => []
  | r, op :: ops => r.receivedBy id op ++ received id (r.apply op) ops

/-- The operation ends the registration of a dashboard, or is a broadcast that it cannot take. -/
def cutsOff (r : Registry φ) (id : Id) : Operation φ → Bool
  | .remove j => j = id
  | .broadcast _ => !r.takes id
  | _ => false

/-- A dashboard is cut off in a run. -/
def isCutOff (id : Id) : Registry φ → List (Operation φ) → Bool
  | _, [] => false
  | r, op :: ops => r.cutsOff id op || isCutOff id (r.apply op) ops

/-- The frames that are broadcast in a run until a dashboard is cut off. -/
def due (id : Id) : Registry φ → List (Operation φ) → List φ
  | _, [] => []
  | r, op :: ops =>
    if r.cutsOff id op then [] else op.frame?.toList ++ due id (r.apply op) ops

theorem waiting?_broadcast (r : Registry φ) (frame : φ) (id : Id) :
    (r.broadcast frame).2.waiting? id =
      (r.waiting? id).map fun w => w ++ if r.isRegistered id ∧ r.takes id then [frame] else [] := by
  rw [broadcast_eq, waiting?_deliverEach frame Std.TreeMap.nodup_keys]
  simp [isRegistered]

theorem isRegistered_broadcast (r : Registry φ) (frame : φ) (id : Id) :
    (r.broadcast frame).2.isRegistered id = (r.isRegistered id && r.takes id) := by
  rw [broadcast_eq, isRegistered_deliverEach frame Std.TreeMap.nodup_keys]
  cases h : r.origins.contains id with
  | false => simp [isRegistered, h]
  | true => simp [isRegistered, h, Std.TreeMap.contains_iff_mem.mp h]

theorem report_broadcast (r : Registry φ) (frame : φ) :
    (r.broadcast frame).1 =
      { delivered := r.origins.keys.countP r.takes
        removed := r.origins.keys.countP fun id => !r.takes id } := by
  rw [broadcast_eq, report_deliverEach frame Std.TreeMap.nodup_keys]
  simp

/-- Every registered dashboard either gets a frame or loses its registration. -/
theorem delivered_add_removed (r : Registry φ) (frame : φ) :
    (r.broadcast frame).1.delivered + (r.broadcast frame).1.removed = r.size := by
  rw [report_broadcast, size, ← Std.TreeMap.length_keys, List.length_eq_countP_add_countP r.takes]
  simp

theorem receivedBy_append_receive {r : Registry φ} {id j : Id} {limit : Option Nat} {w : List φ}
    (h : (r.apply (.receive j limit)).waiting? id = some w) :
    r.waiting? id = some (r.receivedBy id (.receive j limit) ++ w) := by
  rw [apply] at h
  cases hr : r.receive j limit with
  | none => simpa [receivedBy, hr] using h
  | some x =>
    rw [hr, Option.map_some, Option.getD_some] at h
    rw [waiting?_of_receive hr, h, receivedBy, hr]
    rfl

/-- What a dashboard receives in an operation and what waits afterwards is what has waited before,
and the frame that is broadcast unless the dashboard is cut off. -/
theorem receivedBy_append_waiting {r : Registry φ} {id : Id} {op : Operation φ}
    (hop : ∀ origin capacity, op ≠ .register id origin capacity) {w : List φ}
    (h : (r.apply op).waiting? id = some w) :
    ∃ w₀, r.waiting? id = some w₀ ∧ r.receivedBy id op ++ w =
      w₀ ++ if r.isRegistered id ∧ ¬ r.cutsOff id op then op.frame?.toList else [] := by
  cases op with
  | register j origin capacity =>
    have hj : j ≠ id := by
      rintro rfl
      exact hop origin capacity rfl
    refine ⟨w, ?_, by simp [receivedBy, Operation.frame?]⟩
    simpa [apply, register, waiting?, Std.TreeMap.getElem?_insert, hj] using h
  | remove j => exact ⟨w, h, by simp [receivedBy, Operation.frame?]⟩
  | dropQueue j =>
    refine ⟨w, ?_, by simp [receivedBy, Operation.frame?]⟩
    by_cases e : j = id
    · simp [apply, dropQueue, waiting?, e] at h
    · simpa [apply, dropQueue, waiting?, Std.TreeMap.getElem?_erase, e] using h
  | receive j limit =>
    exact ⟨_, receivedBy_append_receive h, by simp [Operation.frame?]⟩
  | broadcast frame =>
    rw [apply, waiting?_broadcast] at h
    obtain ⟨w₀, hw, rfl⟩ := Option.map_eq_some_iff.mp h
    exact ⟨w₀, hw, by simp [receivedBy, cutsOff, Operation.frame?]⟩

theorem isRegistered_apply (r : Registry φ) {id : Id} {op : Operation φ}
    (hop : ∀ origin capacity, op ≠ .register id origin capacity) :
    (r.apply op).isRegistered id = (r.isRegistered id && !r.cutsOff id op) := by
  cases op with
  | register j origin capacity =>
    have hj : j ≠ id := by
      rintro rfl
      exact hop origin capacity rfl
    simp [apply, register, isRegistered, Std.TreeMap.contains_insert, hj, cutsOff]
  | remove j =>
    by_cases e : j = id <;>
      simp [apply, remove, isRegistered, Std.TreeMap.contains_erase, cutsOff, e]
  | dropQueue j => simp [apply, dropQueue, isRegistered, cutsOff]
  | receive j limit =>
    cases hq : r.queues[j]? <;> simp [apply, receive, isRegistered, cutsOff, hq]
  | broadcast frame => simp [apply, isRegistered_broadcast, cutsOff]

/-- A receiving end exists until it is dropped. -/
theorem isSome_waiting?_apply {r : Registry φ} {id : Id} {op : Operation φ}
    (hop : op ≠ .dropQueue id) (h : (r.waiting? id).isSome) :
    ((r.apply op).waiting? id).isSome := by
  cases op with
  | register j origin capacity =>
    by_cases e : j = id
    · simp [apply, register, waiting?, e]
    · simpa [apply, register, waiting?, Std.TreeMap.getElem?_insert, e] using h
  | remove j => exact h
  | dropQueue j =>
    have hj : j ≠ id := by
      rintro rfl
      exact hop rfl
    simpa [apply, dropQueue, waiting?, Std.TreeMap.getElem?_erase, hj] using h
  | receive j limit =>
    rw [apply]
    cases hr : r.receive j limit with
    | none => exact h
    | some x =>
      rw [waiting?_of_receive hr, Option.isSome_map] at h
      exact h
  | broadcast frame =>
    rw [apply, waiting?_broadcast, Option.isSome_map]
    exact h

@[simp] theorem run_nil (r : Registry φ) : r.run [] = r := rfl

@[simp] theorem run_cons (r : Registry φ) (op : Operation φ) (ops : List (Operation φ)) :
    r.run (op :: ops) = (r.apply op).run ops := rfl

/-- What a dashboard has received in a run and what waits then is what has waited at first, and
what is due to a registered dashboard. -/
theorem received_append_waiting {id : Id} {ops : List (Operation φ)}
    (hops : ∀ origin capacity, .register id origin capacity ∉ ops) {r : Registry φ} {w : List φ}
    (h : (r.run ops).waiting? id = some w) :
    ∃ w₀, r.waiting? id = some w₀ ∧
      received id r ops ++ w = w₀ ++ if r.isRegistered id then due id r ops else [] := by
  induction ops generalizing r with
  | nil => exact ⟨w, h, by simp [received, due]⟩
  | cons op ops ih =>
    have hop : ∀ origin capacity, op ≠ .register id origin capacity := by
      intro origin capacity he
      exact hops origin capacity (by simp [he])
    obtain ⟨w₁, hw₁, hrest⟩ := ih (fun origin capacity hm => hops origin capacity
      (List.mem_cons_of_mem _ hm)) h
    obtain ⟨w₀, hw₀, hstep⟩ := receivedBy_append_waiting hop hw₁
    refine ⟨w₀, hw₀, ?_⟩
    -- being cut off ends both the registration and what is due
    rw [received, List.append_assoc, hrest, ← List.append_assoc, hstep, isRegistered_apply r hop,
      due]
    cases r.isRegistered id <;> cases r.cutsOff id op <;> simp

theorem isRegistered_run {id : Id} {ops : List (Operation φ)}
    (hops : ∀ origin capacity, .register id origin capacity ∉ ops) (r : Registry φ) :
    (r.run ops).isRegistered id = (r.isRegistered id && !isCutOff id r ops) := by
  induction ops generalizing r with
  | nil => simp [isCutOff]
  | cons op ops ih =>
    have hop : ∀ origin capacity, op ≠ .register id origin capacity := by
      intro origin capacity he
      exact hops origin capacity (by simp [he])
    rw [run_cons, ih (fun origin capacity hm => hops origin capacity (List.mem_cons_of_mem _ hm)),
      isRegistered_apply r hop, isCutOff]
    cases r.isRegistered id <;> cases r.cutsOff id op <;> simp

theorem isSome_waiting?_run {id : Id} {ops : List (Operation φ)} (hops : .dropQueue id ∉ ops)
    {r : Registry φ} (h : (r.waiting? id).isSome) : ((r.run ops).waiting? id).isSome := by
  induction ops generalizing r with
  | nil => exact h
  | cons op ops ih =>
    refine ih (List.not_mem_of_not_mem_cons hops) (isSome_waiting?_apply ?_ h)
    exact (List.ne_of_not_mem_cons hops).symm

/-- What is due to a dashboard that was cut off stays as it is. -/
theorem due_append_of_isCutOff {id : Id} {r : Registry φ} {ops : List (Operation φ)}
    (h : isCutOff id r ops) (later : List (Operation φ)) :
    due id r (ops ++ later) = due id r ops := by
  induction ops generalizing r with
  | nil => simp [isCutOff] at h
  | cons op ops ih =>
    rw [List.cons_append, due, due]
    cases hc : r.cutsOff id op with
    | true => rfl
    | false =>
      rw [isCutOff, hc, Bool.false_or] at h
      rw [ih h]

theorem isCutOff_append_of_isCutOff {id : Id} {r : Registry φ} {ops : List (Operation φ)}
    (h : isCutOff id r ops) (later : List (Operation φ)) : isCutOff id r (ops ++ later) := by
  induction ops generalizing r with
  | nil => simp [isCutOff] at h
  | cons op ops ih =>
    rw [List.cons_append, isCutOff]
    rw [isCutOff] at h
    cases hc : r.cutsOff id op with
    | true => rfl
    | false => simpa [hc] using ih (by simpa [hc] using h)

/-- All frames that are broadcast are due to a dashboard that is not cut off. -/
theorem due_of_not_isCutOff {id : Id} {r : Registry φ} {ops : List (Operation φ)}
    (h : ¬ isCutOff id r ops) : due id r ops = ops.filterMap Operation.frame? := by
  induction ops generalizing r with
  | nil => rfl
  | cons op ops ih =>
    simp only [isCutOff, Bool.or_eq_true, not_or] at h
    rw [due, if_neg h.1, ih h.2]
    cases hf : op.frame? <;> simp [hf]

/-- Without a gap, the frames that are due are the first that are broadcast. -/
theorem due_isPrefix (id : Id) (r : Registry φ) (ops : List (Operation φ)) :
    due id r ops <+: ops.filterMap Operation.frame? := by
  induction ops generalizing r with
  | nil => exact List.nil_prefix
  | cons op ops ih =>
    rw [due]
    split
    · exact List.nil_prefix
    · have hsplit : (op :: ops).filterMap Operation.frame? =
          op.frame?.toList ++ ops.filterMap Operation.frame? := by
        cases h : op.frame? <;> simp [h]
      rw [hsplit]
      exact (List.prefix_append_right_inj _).mpr (ih _)

theorem run_append (r : Registry φ) (ops later : List (Operation φ)) :
    r.run (ops ++ later) = (r.run ops).run later := List.foldl_append

/-! ## A dashboard that has just registered -/

section
variable {r : Registry φ} {id : Id} {ops : List (Operation φ)}

/-- A dashboard gets exactly what is due to it. -/
theorem received_append_waiting_of_register
    (hops : ∀ origin capacity, .register id origin capacity ∉ ops) {origin : String}
    {capacity : Nat} {w : List φ}
    (hw : ((r.register id origin capacity).run ops).waiting? id = some w) :
    received id (r.register id origin capacity) ops ++ w =
      due id (r.register id origin capacity) ops := by
  obtain ⟨w₀, hw₀, hframes⟩ := received_append_waiting hops hw
  have hempty : [] = w₀ := by simpa [register, waiting?] using hw₀
  have hreg : (r.register id origin capacity).isRegistered id = true := by
    simp [register, isRegistered]
  rw [hframes, ← hempty, if_pos hreg, List.nil_append]

theorem isRegistered_run_register
    (hops : ∀ origin capacity, .register id origin capacity ∉ ops) (origin : String)
    (capacity : Nat) :
    ((r.register id origin capacity).run ops).isRegistered id =
      !isCutOff id (r.register id origin capacity) ops := by
  have hreg : (r.register id origin capacity).isRegistered id = true := by
    simp [register, isRegistered]
  rw [isRegistered_run hops, hreg, Bool.true_and]

end

end Registry
end FleetWatch.Dashboard
