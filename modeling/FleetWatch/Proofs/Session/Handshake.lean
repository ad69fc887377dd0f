import FleetWatch.Proofs.Session.Routing
import FleetWatch.Proofs.Session.Switchboard
import FleetWatch.Proofs.Session.Verdicts

/-!
# Commands and the handshake

A session is routed in the middle of its authentication, before the answer to that is queued. A
command for it comes to a writer that sends replies before commands, but no reply may wait yet: the
commands of a connection come after its acceptance exactly when no writer takes one in between.
Every command that was promised to be received is written once, still waits, or had to make room for
later ones.

## Main definitions

* `Switchboard.Keeps`, `Switchboard.Sound`: what holds of a line and of the system at all times.
* `Switchboard.Overtakes`, `Switchboard.NeverOvertaken`: a writer takes a command of a session that
  was routed but not answered; no writer does.
* `Switchboard.Heralded`: on no line is a command written before the acceptance.
-/
namespace FleetWatch.Switchboard

open Queue Sessions
open scoped List

variable {s after : Switchboard} {id : Session.Id} {l : Line} {a : Action}

/-! ## What holds at all times -/

/-- What holds of a line. As long as its agent has not been accepted nobody can send to it, and
nothing waits for it. What was promised to it was written, waits or was displaced. -/
structure Keeps (s : Switchboard) (id : Session.Id) (l : Line) : Prop where
  own : l.connection.session.id = id
  orderly : l.connection.Orderly
  stage : s.Unheld id ∧ s.hub.agents.waiting? id = some [] ∨ l.connection.IsAnswered
  balance : ∃ waiting, s.hub.agents.waiting? id = some waiting ∧
    (s.promised id).Perm
      (l.connection.written.filterMap Message.ToAgent.command? ++ waiting ++ l.displaced)

structure Sound (s : Switchboard) : Prop where
  valid : s.hub.agents.Valid
  unknown : ∀ id, s.lines.length ≤ id → s.Unheld id
  lines : ∀ id l, s.lines[id]? = some l → s.Keeps id l

/-- A step leaves alone what concerns a session from outside its connection. -/
structure Spares (s : Switchboard) (id : Session.Id) (after : Switchboard) : Prop where
  unheld : s.Unheld id → after.Unheld id
  waiting : after.hub.agents.waiting? id = s.hub.agents.waiting? id
  promised : (after.promised id).Perm (s.promised id)

theorem Keeps.of_spares (h : s.Keeps id l) (hspares : s.Spares id after) : after.Keeps id l where
  own := h.own
  orderly := h.orderly
  stage := h.stage.imp_left (And.imp hspares.unheld hspares.waiting.trans)
  balance := by
    obtain ⟨waiting, hwaiting, hpromised⟩ := h.balance
    exact ⟨waiting, hspares.waiting.trans hwaiting, hspares.promised.trans hpromised⟩

theorem sound_start (hub : Hub) : (start hub).Sound where
  valid j q hq := by simp [start] at hq
  unknown _ _ := ⟨by simp [start, Session.Registry.route?], by simp [start]⟩
  lines := by simp [start]

/-- What a command displaces has waited before; it waits in its stead. -/
theorem balance_deliver (l : Line) {q : RingBuffer Command} (hq : q.Valid) (command : Command)
    {promised written : List Command}
    (h : promised.Perm (written ++ q.receivable ++ l.displaced)) :
    (promised ++ (Errand.promised? id ⟨command, some id, some (q.send command).1⟩).toList).Perm
      (written ++ (q.send command).2.receivable ++ (l.deliver q command).displaced) := by
  cases hreceiving : q.receiving with
  | false =>
    simpa [Errand.promised?, Line.deliver, RingBuffer.send_eq_of_not_receiving hreceiving] using h
  | true =>
    obtain ⟨hsent, rest, ⟨front, hfront⟩, hafter⟩ := hq.receivable_send hreceiving command
    have hdisplaced : (l.deliver q command).displaced = l.displaced ++ front := by
      simp [Line.deliver, hsent, hafter, ← hfront, Nat.add_sub_add_right]
    simp only [Errand.promised?, hsent, hafter, hdisplaced, and_self, if_true, Option.toList_some]
    calc promised ++ [command]
      _ ~ written ++ q.receivable ++ l.displaced ++ [command] := h.append_right _
      _ = written ++ (front ++ (rest ++ (l.displaced ++ [command]))) := by simp [← hfront]
      _ ~ written ++ (rest ++ (l.displaced ++ [command]) ++ front) :=
        List.perm_append_comm.append_left _
      _ ~ written ++ (rest ++ ([command] ++ l.displaced) ++ front) :=
        ((List.perm_append_comm.append_left _).append_right _).append_left _
      _ = written ++ (rest ++ [command]) ++ (l.displaced ++ front) := by simp

namespace Sound

theorem stepwise (h : s.Sound) : ∀ l ∈ s.lines, l.connection.IsStepwise := by
  intro l hl
  obtain ⟨id, hid⟩ := List.getElem?_of_mem hl
  exact (h.lines id l hid).orderly.stepwise

/-- A step that leaves all lines and sessions alone keeps the system sound. -/
theorem of_spares (h : s.Sound) (hvalid : after.hub.agents.Valid) (hlines : after.lines = s.lines)
    (hspares : ∀ j, s.Spares j after) : after.Sound where
  valid := hvalid
  unknown j hj := (hspares j).unheld (h.unknown j (hlines ▸ hj))
  lines j l hl := (h.lines j l (hlines ▸ hl)).of_spares (hspares j)

/-- So does a step of one connection that leaves the other sessions alone. -/
theorem place (h : s.Sound) (hl : s.lines[id]? = some l) {next : Connection × Hub}
    (hvalid : next.2.agents.Valid) (hspares : ∀ j, j ≠ id → s.Spares j (s.place id l next))
    (hkeeps : (s.place id l next).Keeps id { l with connection := next.1 }) :
    (s.place id l next).Sound where
  valid := hvalid
  unknown j hj := by
    rw [length_lines_place] at hj
    have hid : id < s.lines.length := (List.getElem?_eq_some_iff.mp hl).choose
    exact (hspares j (Nat.ne_of_gt (Nat.lt_of_lt_of_le hid hj))).unheld (h.unknown j hj)
  lines j k hk := by
    rw [lines_place hl] at hk
    split at hk
    · next heq => exact Option.some.inj hk ▸ heq ▸ hkeeps
    · next hne => exact (h.lines j k hk).of_spares (hspares j (Ne.symm hne))

theorem connect (h : s.Sound) (remoteIp : Option Net.IpAddress) : (s.connect remoteIp).Sound := by
  have hunheld (j : Session.Id) (hj : s.Unheld j) : (s.connect remoteIp).Unheld j :=
    ⟨hj.routes, hj.errands⟩
  have hlength : (s.connect remoteIp).lines.length = s.lines.length + 1 := List.length_append
  have hunknown (j : Session.Id) (hj : (s.connect remoteIp).lines.length ≤ j) :
      (s.connect remoteIp).Unheld j := by
    rw [hlength] at hj
    exact hunheld j (h.unknown j (Nat.le_of_succ_le hj))
  refine ⟨h.valid.openQueue _ _, hunknown, fun j k hk => ?_⟩
  have hwaiting : (s.connect remoteIp).hub.agents.waiting? j =
      if s.lines.length = j then some [] else s.hub.agents.waiting? j :=
    Session.Registry.waiting?_openQueue ..
  by_cases hj : j < s.lines.length
  · have hold : s.lines[j]? = some k := (List.getElem?_append_left hj).symm.trans hk
    rw [if_neg (Nat.ne_of_gt hj)] at hwaiting
    exact (h.lines j k hold).of_spares ⟨hunheld j, hwaiting, .refl _⟩
  · have hlt : j < s.lines.length + 1 := hlength ▸ (List.getElem?_eq_some_iff.mp hk).choose
    obtain rfl : j = s.lines.length := Nat.le_antisymm (Nat.le_of_lt_succ hlt) (Nat.not_lt.mp hj)
    obtain rfl : { connection := (Connection.start s.hub s.lines.length remoteIp).1 } = k :=
      Option.some.inj (List.getElem?_concat_length.symm.trans hk)
    rw [if_pos rfl] at hwaiting
    have hnobody := hunheld _ (h.unknown _ (Nat.le_refl _))
    have horderly := Connection.orderly_start s.hub s.lines.length remoteIp
    refine ⟨rfl, horderly, .inl ⟨hnobody, hwaiting⟩, [], hwaiting, ?_⟩
    rw [hnobody.promised]
    exact .nil

theorem arrives (h : s.Sound) (hl : s.lines[id]? = some l) {c : Connection}
    (harrives : l.connection.Arrives c) : (s.place id l (c, s.hub)).Sound := by
  have hspares (j : Session.Id) : s.Spares j (s.place id l (c, s.hub)) :=
    ⟨fun hj => ⟨hj.routes, hj.errands⟩, rfl, .refl _⟩
  have hkeeps := (h.lines id l hl).of_spares (hspares id)
  refine h.place hl h.valid (fun j _ => hspares j) ⟨?_, ?_, ?_, ?_⟩
  · exact harrives.session ▸ hkeeps.own
  · exact hkeeps.orderly.arrives harrives
  · exact hkeeps.stage.imp_right fun hanswered => hanswered.arrives harrives
  · exact harrives.written ▸ hkeeps.balance

theorem reads (h : s.Sound) (hl : s.lines[id]? = some l) {next : Connection × Hub}
    (hreads : l.connection.Reads s.hub.agents next.1 next.2.agents) :
    (s.place id l next).Sound := by
  have hline := h.lines id l hl
  have hwaiting (j : Session.Id) :
      (s.place id l next).hub.agents.waiting? j = s.hub.agents.waiting? j := hreads.waiting? j
  have hunheld (j : Session.Id) (hj : j ≠ id ∨ next.1.reader.isEntered = false)
      (hbefore : s.Unheld j) : (s.place id l next).Unheld j := by
    refine ⟨fun hostId hroute => ?_, hbefore.errands⟩
    obtain hold | ⟨hown, hentered⟩ := hreads.route? hroute
    · exact hbefore.routes hostId hold
    · obtain hne | hnot := hj
      · exact hne (hown.trans hline.own)
      · rw [hnot] at hentered
        cases hentered
  refine h.place hl (hreads.valid h.valid)
    (fun j hj => ⟨hunheld j (.inl hj), hwaiting j, .refl _⟩) ⟨?_, ?_, ?_, ?_⟩
  · exact hreads.id.trans hline.own
  · exact hline.orderly.reads hreads
  · cases hentered : next.1.reader.isEntered with
    | true => exact .inr (.inl hentered)
    | false =>
      exact hline.stage.imp (And.imp (hunheld id (.inr hentered)) (hwaiting id).trans)
        fun hanswered => hanswered.reads hreads
  · obtain ⟨waiting, hbefore, hpromised⟩ := hline.balance
    exact ⟨waiting, (hwaiting id).trans hbefore, hreads.written ▸ hpromised⟩

theorem writes (h : s.Sound) (hl : s.lines[id]? = some l) {next : Connection × Hub}
    (hwrites : l.connection.Writes s.hub.agents next.1 next.2.agents) :
    (s.place id l next).Sound := by
  have hline := h.lines id l hl
  have hunheld (j : Session.Id) (hbefore : s.Unheld j) : (s.place id l next).Unheld j :=
    ⟨fun hostId hroute => hbefore.routes hostId ((hwrites.route? hostId).symm.trans hroute),
      hbefore.errands⟩
  have hothers (j : Session.Id) (hj : j ≠ id) : s.Spares j (s.place id l next) :=
    ⟨hunheld j, hwrites.waiting?_of_ne (hline.own.trans_ne hj.symm), .refl _⟩
  refine h.place hl (hwrites.valid h.valid) hothers ⟨?_, ?_, ?_, ?_⟩
  · exact hwrites.session ▸ hline.own
  · exact hline.orderly.writes hwrites
  · refine hline.stage.imp ?_ fun hanswered => hanswered.writes hwrites
    rintro ⟨hnobody, hnone⟩
    have hnothing :=
      (hwrites.waiting?_eq_nil hline.orderly.quiet_replies (hline.own.symm ▸ hnone)).1
    exact ⟨hunheld id hnobody, hline.own ▸ hnothing⟩
  · obtain ⟨waiting, hwaiting, hpromised⟩ := hline.balance
    obtain ⟨rest, hrest, hcommands⟩ :=
      hwrites.waiting? hline.orderly.quiet_replies (hline.own.symm ▸ hwaiting)
    exact ⟨rest, hline.own ▸ hrest, hcommands ▸ hpromised⟩

/-- An operator that gets hold of a queue is not yet promised anything. -/
theorem hold (h : s.Sound) {hostId : String} (command : Command)
    (hroute : s.hub.agents.route? hostId = some id) : (s.hold command id).Sound := by
  refine h.of_spares (h.valid.updateQueue id fun _ hq => hq.cloneSender) rfl fun j => ?_
  refine ⟨fun hj => ⟨fun k => ?_, fun e he => ?_⟩, ?_, ?_⟩
  · exact (Session.Registry.route?_updateQueue ..).symm ▸ hj.routes k
  · obtain hold | hnew := List.mem_append.mp he
    · exact hj.errands e hold
    · obtain rfl := List.mem_singleton.mp hnew
      exact fun htarget => hj.routes hostId (htarget ▸ hroute)
  · exact s.hub.agents.waiting?_updateQueue id j fun _ => rfl
  · rw [promised, Switchboard.hold, promised_append]
    simp [Errand.promised?, promised]

theorem refuse (h : s.Sound) (command : Command) : (s.refuse command).Sound := by
  refine h.of_spares h.valid rfl fun j => ⟨fun hj => ⟨hj.routes, fun e he => ?_⟩, rfl, ?_⟩
  · obtain hold | hnew := List.mem_append.mp he
    · exact hj.errands e hold
    · obtain rfl := List.mem_singleton.mp hnew
      nofun
  · rw [promised, Switchboard.refuse, promised_append]
    simp [Errand.promised?, promised]

/-- What is delivered is promised; it waits, and what it displaces no longer does. -/
theorem deliver (h : s.Sound) {errand : Nat} {command : Command} {q : RingBuffer Command}
    (herrand : s.errands[errand]? = some ⟨command, some id, none⟩)
    (hq : s.hub.agents.queues[id]? = some q) : (s.deliver errand command id q).Sound := by
  have hpromised (j : Session.Id) :=
    promised_set (f := ⟨command, some id, some (q.send command).1⟩) j herrand (if_neg (by simp))
  have hunheld (j : Session.Id) (hj : s.Unheld j) : (s.deliver errand command id q).Unheld j := by
    refine ⟨fun k => (Session.Registry.route?_updateQueue ..).symm ▸ hj.routes k, fun e he => ?_⟩
    obtain hold | rfl := List.mem_or_eq_of_mem_set he
    · exact hj.errands e hold
    · exact fun htarget => hj.errands _ (List.mem_of_getElem? herrand) htarget
  have hothers (j : Session.Id) (hj : id ≠ j) : s.Spares j (s.deliver errand command id q) := by
    refine ⟨hunheld j, ?_, ?_⟩
    · rw [Session.Registry.waiting?, Switchboard.deliver, updateQueue]
      dsimp only
      rw [Session.Registry.queues_updateQueue, if_neg hj, Session.Registry.waiting?]
    · simpa [promised, Switchboard.deliver, Errand.promised?, hj] using hpromised j
  refine ⟨h.valid.updateQueue id fun _ hq => (hq.send command).dropSender,
    fun j hj => hunheld j (h.unknown j (by simpa [Switchboard.deliver] using hj)),
    fun j k hk => ?_⟩
  rw [lines_deliver] at hk
  split at hk
  · next heq =>
    subst heq
    obtain ⟨l, hl, rfl⟩ := Option.map_eq_some_iff.mp hk
    have hline := h.lines id l hl
    have hnow : s.hub.agents.waiting? id = some q.receivable := by
      simp [Session.Registry.waiting?, hq]
    refine ⟨?_, ?_, .inr ?_, (q.send command).2.receivable, ?_, ?_⟩
    · rw [Line.connection_deliver, hline.own]
    · rw [Line.connection_deliver]
      exact hline.orderly
    · rw [Line.connection_deliver]
      exact hline.stage.resolve_left fun hfresh =>
        hfresh.1.errands _ (List.mem_of_getElem? herrand) rfl
    · rw [Session.Registry.waiting?, Switchboard.deliver, updateQueue]
      dsimp only
      rw [Session.Registry.queues_updateQueue, if_pos rfl, hq]
      rfl
    · obtain ⟨waiting, hwaiting, hbalance⟩ := hline.balance
      obtain rfl : q.receivable = waiting := Option.some.inj (hnow.symm.trans hwaiting)
      rw [Line.connection_deliver]
      exact (hpromised id).trans (balance_deliver l (h.valid id q hq) command hbalance)
  · next hne => exact (h.lines j k hk).of_spares (hothers j hne)

theorem step (h : s.Sound) (hstep : s.Step a after) : after.Sound := by
  cases hstep with
  | stay => exact h
  | connect remoteIp => exact h.connect remoteIp
  | arrive a id l c hl harrives => exact h.arrives hl harrives
  | read a id l next hl hreads => exact h.reads hl hreads
  | write id l hl => exact h.writes hl (Connection.writes_write l.connection s.hub)
  | breakOff id l hl => exact h.writes hl (.finish l.connection.replies (.inl rfl))
  | refuse a command => exact h.refuse command
  | hold a hostId command id hroute => exact h.hold command hroute
  | deliver errand command id q herrand hq => exact h.deliver herrand hq
  | elsewhere hub =>
    exact h.of_spares h.valid rfl fun j => ⟨fun hj => ⟨hj.routes, hj.errands⟩, rfl, .refl _⟩

theorem run (h : s.Sound) (actions : List Action) : (s.run actions).Sound := by
  induction actions generalizing s with
  | nil => exact h
  | cons a actions ih => exact ih (h.step (s.step_cases a h.stepwise))

end Sound

/-! ## Overtaking -/

/-- On no line was a command written before the acceptance. -/
def Heralded (s : Switchboard) : Prop :=
  ∀ l ∈ s.lines, Message.ToAgent.Heralded l.connection.written

/-- A writer takes a command of a session that was routed and whose acceptance has not been
queued. -/
def Overtakes (s : Switchboard) : Action → Prop
  | .write id => ∃ l command, s.lines[id]? = some l ∧ l.connection.reader.isEntered = true ∧
      (l.connection.write s.hub).1.written = l.connection.written ++ [.command command]
  | _ => False

/-- No writer does so in a run. -/
def NeverOvertaken (s : Switchboard) : List Action → Prop
  | [] => True
  | a :: actions => ¬ s.Overtakes a ∧ (s.step a).NeverOvertaken actions

theorem written_place {i : Session.Id} {next : Connection × Hub} {k : Line}
    (hl : s.lines[i]? = some l) (hnext : next.1.written = l.connection.written)
    (hk : (s.place i l next).lines[id]? = some k) :
    ∃ l, s.lines[id]? = some l ∧ k.connection.written = l.connection.written := by
  rw [lines_place hl] at hk
  split at hk
  · next heq =>
    obtain rfl := Option.some.inj hk
    exact ⟨l, heq ▸ hl, hnext⟩
  · exact ⟨k, hk, rfl⟩

theorem place_grows {i : Session.Id} {next : Connection × Hub} {k : Line}
    (hl : s.lines[i]? = some l) (hnext : l.connection.written <+: next.1.written)
    (hk : s.lines[id]? = some k) :
    ∃ k', (s.place i l next).lines[id]? = some k' ∧
      k.connection.written <+: k'.connection.written := by
  rw [lines_place hl]
  by_cases heq : i = id
  · subst heq
    obtain rfl : l = k := Option.some.inj (hl.symm.trans hk)
    exact ⟨_, if_pos rfl, hnext⟩
  · exact ⟨k, (if_neg heq).trans hk, List.prefix_refl _⟩

/-- What is on a line after a step: nothing, or what was there before, or what a writer made of
that. -/
theorem Step.written (h : s.Step a after) {k : Line} (hk : after.lines[id]? = some k) :
    k.connection.written = [] ∨
      ∃ l, s.lines[id]? = some l ∧ (k.connection.written = l.connection.written ∨
        a = .write id ∧ k.connection = (l.connection.write s.hub).1) := by
  have hsame (hk : ∃ l, s.lines[id]? = some l ∧ k.connection.written = l.connection.written) :
      k.connection.written = [] ∨
        ∃ l, s.lines[id]? = some l ∧ (k.connection.written = l.connection.written ∨
          a = .write id ∧ k.connection = (l.connection.write s.hub).1) :=
    .inr (hk.imp fun _ => And.imp_right .inl)
  cases h with
  | stay => exact hsame ⟨k, hk, rfl⟩
  | connect remoteIp =>
    rw [Switchboard.connect, List.getElem?_append] at hk
    split at hk
    · exact hsame ⟨k, hk, rfl⟩
    · obtain rfl := List.mem_singleton.mp (List.mem_of_getElem? hk)
      exact .inl rfl
  | arrive a i l c hl harrives => exact hsame (written_place hl harrives.written hk)
  | read a i l next hl hreads => exact hsame (written_place hl hreads.written hk)
  | breakOff i l hl => exact hsame (written_place hl rfl hk)
  | write i l hl =>
    rw [lines_place hl] at hk
    split at hk
    · next heq =>
      obtain rfl := Option.some.inj hk
      exact .inr ⟨l, heq ▸ hl, .inr ⟨heq ▸ rfl, rfl⟩⟩
    · exact hsame ⟨k, hk, rfl⟩
  | refuse a command => exact hsame ⟨k, hk, rfl⟩
  | hold a hostId command i hroute => exact hsame ⟨k, hk, rfl⟩
  | deliver errand command i q herrand hq =>
    rw [lines_deliver] at hk
    split at hk
    · obtain ⟨l, hl, rfl⟩ := Option.map_eq_some_iff.mp hk
      exact hsame ⟨l, hl, by rw [Line.connection_deliver]⟩
    · exact hsame ⟨k, hk, rfl⟩
  | elsewhere hub => exact hsame ⟨k, hk, rfl⟩

/-- Lines stay, with what was written on them. -/
theorem Step.grows (h : s.Step a after) (hl : s.lines[id]? = some l) :
    ∃ k, after.lines[id]? = some k ∧ l.connection.written <+: k.connection.written := by
  have hsame (hlines : after.lines = s.lines) :
      ∃ k, after.lines[id]? = some k ∧ l.connection.written <+: k.connection.written :=
    ⟨l, hlines ▸ hl, List.prefix_refl _⟩
  cases h with
  | stay => exact hsame rfl
  | connect remoteIp =>
    have hid : id < s.lines.length := (List.getElem?_eq_some_iff.mp hl).choose
    exact ⟨l, (List.getElem?_append_left hid).trans hl, List.prefix_refl _⟩
  | arrive a i k c hk harrives =>
    exact place_grows hk (harrives.written ▸ List.prefix_refl _) hl
  | read a i k next hk hreads => exact place_grows hk (hreads.written ▸ List.prefix_refl _) hl
  | write i k hk =>
    exact place_grows hk (Connection.writes_write k.connection s.hub).written_grows hl
  | breakOff i k hk => exact place_grows hk (List.prefix_refl _) hl
  | refuse a command => exact hsame rfl
  | hold a hostId command i hroute => exact hsame rfl
  | deliver errand command i q herrand hq =>
    rw [lines_deliver]
    split
    · have hsame := Line.connection_deliver l q command
      exact ⟨l.deliver q command, by rw [hl, Option.map_some], hsame ▸ List.prefix_refl _⟩
    · exact ⟨l, hl, List.prefix_refl _⟩
  | elsewhere hub => exact hsame rfl

theorem heralded_start (hub : Hub) : (start hub).Heralded := by simp [Heralded, start]

/-- A step that overtakes nobody keeps the commands behind the acceptance. -/
theorem Heralded.step (hs : s.Sound) (h : s.Heralded) (ha : ¬ s.Overtakes a) :
    (s.step a).Heralded := by
  intro k hk
  obtain ⟨id, hid⟩ := List.getElem?_of_mem hk
  obtain hnil | ⟨l, hl, hsame | ⟨rfl, hwrite⟩⟩ := (s.step_cases a hs.stepwise).written hid
  · rw [hnil]
    exact Message.ToAgent.heralded_nil
  · rw [hsame]
    exact h l (List.mem_of_getElem? hl)
  · have hline := hs.lines id l hl
    have hbefore := h l (List.mem_of_getElem? hl)
    have hwrites := Connection.writes_write l.connection s.hub
    rw [hwrite]
    obtain hsame | ⟨m, hm, hnone⟩ | ⟨command, hm, hwriting, hreplies⟩ :=
      hwrites.written hline.orderly.quiet_replies
    · exact hsame ▸ hbefore
    · exact hm ▸ hbefore.append_singleton hnone
    · have hentered : l.connection.reader.isEntered = false :=
        Bool.eq_false_iff.mpr fun hentered => ha ⟨l, command, hl, hentered, hm⟩
      rw [hm, Message.ToAgent.heralded_append_command]
      refine ⟨hbefore, ?_⟩
      obtain ⟨-, hnone⟩ | hanswered := hline.stage
      · exact absurd hm ((hwrites.waiting?_eq_nil hline.orderly.quiet_replies
          (hline.own.symm ▸ hnone)).2 command)
      · exact hanswered.accepted_mem_written hentered hwriting hreplies

/-- One that overtakes does not: nobody has been told yet. -/
theorem not_heralded_of_overtakes (hs : s.Sound) (ha : s.Overtakes a) :
    ¬ (s.step a).Heralded := by
  intro hheralded
  cases a with
  | write id =>
    obtain ⟨l, command, hl, hentered, hwritten⟩ := ha
    have hk : (s.step (.write id)).lines[id]? =
        some { l with connection := (l.connection.write s.hub).1 } := by
      simp only [step, act, hl]
      rw [lines_place hl, if_pos rfl]
    have hafter := hheralded _ (List.mem_of_getElem? hk)
    rw [hwritten, Message.ToAgent.heralded_append_command] at hafter
    obtain ⟨-, targets, haccepted⟩ := hafter
    exact (hs.lines id l hl).orderly.not_isTold_of_isEntered hentered
      ⟨targets, List.mem_append_left _ (List.mem_map_of_mem haccepted)⟩
  | _ => exact ha

theorem Heralded.of_step (hs : s.Sound) (h : (s.step a).Heralded) : s.Heralded := by
  intro l hl
  obtain ⟨id, hid⟩ := List.getElem?_of_mem hl
  obtain ⟨k, hk, more, hmore⟩ := (s.step_cases a hs.stepwise).grows hid
  have hafter := h k (List.mem_of_getElem? hk)
  rw [← hmore] at hafter
  exact hafter.of_append

theorem Heralded.of_run (hs : s.Sound) {actions : List Action} (h : (s.run actions).Heralded) :
    s.Heralded := by
  induction actions generalizing s with
  | nil => exact h
  | cons a actions ih => exact (ih (hs.step (s.step_cases a hs.stepwise)) h).of_step hs

theorem heralded_run_iff (hs : s.Sound) (h : s.Heralded) (actions : List Action) :
    (s.run actions).Heralded ↔ s.NeverOvertaken actions := by
  induction actions generalizing s with
  | nil => exact ⟨fun _ => trivial, fun _ => h⟩
  | cons a actions ih =>
    have hstep : (s.step a).Sound := hs.step (s.step_cases a hs.stepwise)
    refine ⟨fun hrun => ?_, fun ⟨ha, hlater⟩ => (ih hstep (h.step hs ha)).mpr hlater⟩
    have hheralded : (s.step a).Heralded := Heralded.of_run hstep hrun
    exact ⟨fun ha => not_heralded_of_overtakes hs ha hheralded, (ih hstep hheralded).mp hrun⟩

/-- Commands are written after the acceptance exactly when no writer takes one between the routing
of its session and the queueing of the answer. Whenever an agent reads one of its commands on such
a line it has been accepted. And every command that a session was promised to receive was written to
it once, or still waits, or had to make room for later ones. -/
theorem commands_follow_acceptance (hub : Hub) (actions : List Action) :
    let s := (start hub).run actions
    (s.Heralded ↔ (start hub).NeverOvertaken actions) ∧
    ∀ id l, s.lines[id]? = some l →
      (Message.ToAgent.Heralded l.connection.written →
        ∀ before command later, l.connection.written = before ++ .command command :: later →
          ∀ serverId token reading,
            ((Agent.Client.start serverId token).1.listen reading before).phase = .streaming) ∧
      ∃ waiting, s.hub.agents.waiting? id = some waiting ∧
        (s.promised id).Perm
          (l.connection.written.filterMap Message.ToAgent.command? ++ waiting ++ l.displaced) := by
  intro s
  have hsound : s.Sound := (sound_start hub).run actions
  refine ⟨heralded_run_iff (sound_start hub) (heralded_start hub) actions, fun id l hl => ?_⟩
  have hline := hsound.lines id l hl
  refine ⟨fun hheralded before command later hwritten serverId token reading => ?_, hline.balance⟩
  refine Agent.Client.listen_of_heralded rfl (hwritten ▸ hheralded) ?_
  have honce := hline.orderly.verdicts_written
  rw [hwritten, List.filter_append, List.length_append] at honce
  omega

/-! ## Runs of two connections -/

def oneServer : Hub := { settings := .small, directory := System.oneServer }

def connected (id : Session.Id) : Line := { connection := { session := { id } } }

/-- Two agents of the server have connected. -/
def twoConnected (q : RingBuffer Command) : Switchboard where
  hub := { oneServer with agents := { queues := (Std.TreeMap.empty.insert 0 q).insert 1 q } }
  lines := [connected 0, connected 1]

/-- The agent of a line has presented itself. -/
def present (s : Switchboard) (id : Session.Id) (l : Line) : Switchboard :=
  s.place id l ({ l.connection with reader := .checking "a" "t" none }, s.hub)

theorem run_connects :
    (start oneServer).run [.connect none, .connect none] = twoConnected { slots := 4 } := by
  have hslots : commandSlots Settings.small.commandQueueCapacity = 4 := by decide +kernel
  have hrun : (start oneServer).run [.connect none, .connect none] =
    twoConnected { slots := commandSlots Settings.small.commandQueueCapacity } := rfl
  rw [hrun, hslots]

theorem run_greeting (hl : s.lines[id]? = some l) (hready : l.connection.reader = .ready)
    (hconnected : l.connection.session.state = .connected) (later : List Action) :
    s.run (.arrive id System.greeting :: later) = (s.present id l).run later := by
  have harrive : l.connection.arrive System.greeting =
      { l.connection with reader := .checking "a" "t" none } := by
    simp [Connection.arrive, hready, hconnected, System.greeting,
      Message.FromAgent.decode_encode_auth]
  rw [run_cons]
  simp only [step, act, hl, harrive, present]

def refresh : Command := ⟨"refresh", none⟩

def errand : List Action := [.lookUp "a" refresh, .send 0]

/-- Some steps of a reader; six take it from the frame of its agent to the answer that it queues. -/
def reads (id : Session.Id) (n : Nat) : List Action := List.replicate n (.read id .epoch)

/-- A command is sent once the answer is written. -/
def handshake : List Action :=
  [.connect none, .connect none] ++ .arrive 0 System.greeting ::
    (reads 0 6 ++ .write 0 :: errand ++ [.write 0])

/-- A command is sent and written while the answer is put together. -/
def overtaking : List Action :=
  [.connect none, .connect none] ++ .arrive 0 System.greeting ::
    (reads 0 2 ++ errand ++ .write 0 :: reads 0 4 ++ [.write 0])

/-- A command waits for a connection that breaks, and the agent comes back on another one. -/
def supersession : List Action :=
  [.connect none, .connect none] ++ .arrive 0 System.greeting ::
    (reads 0 6 ++ .write 0 :: errand ++ [.breakOff 0] ++
      .arrive 1 System.greeting :: (reads 1 6 ++ [.write 1]))

/-- The first agent has presented itself. -/
theorem run_first (later : List Action) :
    (start oneServer).run ([.connect none, .connect none] ++ .arrive 0 System.greeting :: later) =
      ((twoConnected { slots := 4 }).present 0 (connected 0)).run later := by
  rw [run_append, run_connects]
  exact run_greeting rfl rfl rfl later

theorem lines_handshake :
    let s := (start oneServer).run handshake
    s.promised 0 = [refresh] ∧ s.lines.map (fun l => (l.connection.written, l.displaced)) =
      [([.accepted [], .command refresh], []), ([], [])] := by
  rw [handshake, run_first]
  exact ⟨rfl, rfl⟩

/-- The connection of the first agent has broken with a command waiting. -/
def firstBroken : Switchboard :=
  ((twoConnected { slots := 4 }).present 0 (connected 0)).run
    (reads 0 6 ++ .write 0 :: errand ++ [.breakOff 0])

theorem run_supersession :
    (start oneServer).run supersession =
      (firstBroken.present 1 (connected 1)).run (reads 1 6 ++ [.write 1]) := by
  have hsecond : firstBroken.lines[1]? = some (connected 1) := rfl
  rw [supersession, run_first, run_append, ← firstBroken]
  exact run_greeting hsecond rfl rfl _

/-- A command that is sent after the answer finds an agent that streams. -/
theorem refresh_follows_acceptance :
    let s := (start oneServer).run handshake
    (start oneServer).NeverOvertaken handshake ∧
      ∃ l, s.lines[0]? = some l ∧ l.connection.written = [.accepted [], .command refresh] ∧
        (∀ reading, ((Agent.Client.start "a" "t").1.listen reading [.accepted []]).phase =
          .streaming) ∧
        ∃ waiting, s.hub.agents.waiting? 0 = some waiting ∧
          [refresh].Perm ([refresh] ++ waiting ++ l.displaced) := by
  intro s
  obtain ⟨hiff, hlines⟩ := commands_follow_acceptance oneServer handshake
  obtain ⟨hpromised, hwritten⟩ := lines_handshake
  have hheralded : Message.ToAgent.Heralded [.accepted [], .command refresh] :=
    (Message.ToAgent.heralded_append_command refresh).mpr
      ⟨Message.ToAgent.heralded_nil.append_singleton rfl, [], List.mem_singleton_self _⟩
  have hall : s.Heralded := by
    intro l hl
    have hmem := List.mem_map_of_mem (f := fun l => (l.connection.written, l.displaced)) hl
    rw [hwritten, List.mem_cons, List.mem_singleton] at hmem
    obtain hl | hl := hmem
    · exact (Prod.mk.inj hl).1 ▸ hheralded
    · exact (Prod.mk.inj hl).1 ▸ Message.ToAgent.heralded_nil
  have hfirst : (s.lines[0]?).map (fun l => (l.connection.written, l.displaced)) =
      some ([.accepted [], .command refresh], []) := by
    rw [← List.getElem?_map, hwritten]
    rfl
  obtain ⟨l, hl, hpair⟩ := Option.map_eq_some_iff.mp hfirst
  obtain ⟨hframes, -⟩ := Prod.mk.inj hpair
  obtain ⟨hlisten, waiting, hwaiting, hbalance⟩ := hlines 0 l hl
  refine ⟨hiff.mp hall, l, hl, hframes, ?_, waiting, hwaiting, ?_⟩
  · exact hlisten (hframes ▸ hheralded) [.accepted []] refresh [] hframes "a" "t"
  · rwa [hpromised, hframes] at hbalance

/-- A writer takes a command while the answer to the authentication is put together: the command was
promised and is written, and an agent that waits for the answer makes nothing of it. And a command
that waits when its connection breaks is not written to the next one of its agent. -/
theorem promised_command_is_lost :
    (let s := (start oneServer).run overtaking
    s.promised 0 = [refresh] ∧
      s.lines.map (fun l => (l.connection.written, l.displaced)) =
        [([.command refresh, .accepted []], []), ([], [])] ∧
      ∀ reading, (Agent.Client.start "a" "t").1.step reading
        (.text (Message.ToAgent.schema.encode (.command refresh))) =
          ((Agent.Client.start "a" "t").1, [])) ∧
    (let s := (start oneServer).run supersession
    s.promised 0 = [refresh] ∧
      s.lines.map (fun l => (l.connection.written, l.displaced)) =
        [([.accepted []], []), ([.accepted []], [])] ∧
      s.lines.map (·.connection.writing) = [false, true]) := by
  constructor
  · rw [overtaking, run_first]
    exact ⟨rfl, rfl, fun reading => Agent.Client.step_command rfl "refresh"⟩
  · rw [run_supersession]
    exact ⟨rfl, rfl, rfl⟩

end FleetWatch.Switchboard
