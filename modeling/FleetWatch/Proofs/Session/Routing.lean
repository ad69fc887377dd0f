import FleetWatch.Proofs.Dispatch.DeltaStream
import FleetWatch.Proofs.Session.Visits

/-!
# Where commands go

However frames, ends and commands of any number of sessions come between one another, a host is
routed to the session that was last routed for it, unless that was closed; then it is not routed at
all. A command reaches the queue of that session and no other, or changes no queue.

## Main definitions

* `System.isOpen`: a session was not closed.
* `System.Routed`: the routing table and the sessions agree.
-/
namespace FleetWatch.Sessions

open Session (Registry)

/-- A session with a host keeps it until it is closed. -/
theorem Visit.Evolves.keeps {v w : Visit} (h : v.Evolves w) {hostId : String}
    (hv : v.session.state = .authenticated hostId ∨ v.IsClosed) :
    w.session.state = .authenticated hostId ∨ w.IsClosed := by
  rcases h.state with hsame | hclosed | hconnected
  · exact hv.imp hsame.trans hsame.trans
  · exact .inr hclosed
  · rcases hv with hv | hv
    · exact absurd (hconnected.symm.trans hv) (by simp)
    · exact absurd (hconnected.symm.trans hv) (by simp)

namespace System

def isOpen (s : System) (id : Session.Id) : Bool :=
  (s.visits[id]?).any fun v => decide (v.session.state ≠ .closed)

/-- Every session that was routed for a host was admitted as that and has been nothing else since,
and the route is its own unless it was closed or another one was routed later. Sessions have valid
queues, and operators hold queues of sessions. -/
structure Routed (s : System) : Prop where
  visits : s.SoundVisits
  entered : ∀ hostId id, (hostId, id) ∈ s.entered → ∃ v, s.visits[id]? = some v ∧
    v.AdmittedAs hostId ∧ (v.session.state = .authenticated hostId ∨ v.IsClosed)
  routes : ∀ hostId, s.hub.agents.route? hostId = (s.entered.lookup hostId).filter s.isOpen
  queues : ∀ id, id < s.visits.length → (s.hub.agents.queues[id]?).isSome
  valid : s.hub.agents.Valid
  errands : ∀ e ∈ s.errands, ∀ id, e.target = some id → id < s.visits.length

theorem isOpen_setVisit {s : System} {id : Session.Id} {v : Visit} (hv : s.visits[id]? = some v)
    (w : Visit) (j : Session.Id) :
    (s.setVisit id w).isOpen j =
      if id = j then decide (w.session.state ≠ .closed) else s.isOpen j := by
  rw [isOpen, getElem?_setVisit hv]
  split
  · simp
  · rfl

/-- A change that leaves the state of a session leaves it open or closed. -/
theorem isOpen_setVisit_of_state {s : System} {id : Session.Id} {v w : Visit}
    (hv : s.visits[id]? = some v) (hstate : w.session.state = v.session.state) :
    (s.setVisit id w).isOpen = s.isOpen := by
  funext j
  rw [isOpen_setVisit hv]
  split
  · next e =>
    subst e
    simp [isOpen, hv, hstate]
  · rfl

theorem mem_of_lookup {entered : List (String × Session.Id)} {hostId : String} {id : Session.Id}
    (h : entered.lookup hostId = some id) : (hostId, id) ∈ entered := by
  obtain ⟨before, after, rfl, -⟩ := List.lookup_eq_some_iff.mp h
  simp

theorem filter_lookup_congr {entered : List (String × Session.Id)} {hostId : String}
    {p q : Session.Id → Bool} (h : ∀ id, (hostId, id) ∈ entered → p id = q id) :
    (entered.lookup hostId).filter p = (entered.lookup hostId).filter q := by
  cases hlookup : entered.lookup hostId with
  | none => rfl
  | some id => rw [Option.filter_some, Option.filter_some, h id (mem_of_lookup hlookup)]

namespace Routed
variable {s t : System}

/-- A session that is routed is authenticated for the host. -/
theorem state_of_route? (h : s.Routed) {hostId : String} {id : Session.Id}
    (hroute : s.hub.agents.route? hostId = some id) :
    ∃ v, s.visits[id]? = some v ∧ v.session.state = .authenticated hostId := by
  rw [h.routes, Option.filter_eq_some_iff] at hroute
  obtain ⟨hlookup, hopen⟩ := hroute
  obtain ⟨v, hv, -, hstate⟩ := h.entered hostId id (mem_of_lookup hlookup)
  have hnot : v.session.state ≠ .closed := by simpa [isOpen, hv] using hopen
  exact ⟨v, hv, hstate.resolve_right hnot⟩

theorem lt_of_route? (h : s.Routed) {hostId : String} {id : Session.Id}
    (hroute : s.hub.agents.route? hostId = some id) : id < s.visits.length :=
  have ⟨_, hv, _⟩ := h.state_of_route? hroute
  (List.getElem?_eq_some_iff.mp hv).choose

/-- What was entered stays right as the sessions go on. -/
theorem entered_of_evolves (h : s.Routed) (hevolves : s.Evolves t) {hostId : String}
    {id : Session.Id} (hmem : (hostId, id) ∈ s.entered) :
    ∃ v, t.visits[id]? = some v ∧ v.AdmittedAs hostId ∧
      (v.session.state = .authenticated hostId ∨ v.IsClosed) := by
  obtain ⟨v, hv, hadmitted, hstate⟩ := h.entered hostId id hmem
  obtain ⟨w, hw, hvw⟩ := hevolves id v hv
  exact ⟨w, hw, hvw.admitted hostId hadmitted, hvw.keeps hstate⟩

/-- A step that leaves routes and queues, and closes no session that was entered. -/
theorem of_quiet (h : s.Routed) (hstep : Step s t) (hentered : t.entered = s.entered)
    (hopen : ∀ hostId id, (hostId, id) ∈ s.entered → t.isOpen id = s.isOpen id)
    (hlength : t.visits.length = s.visits.length) (hagents : t.hub.agents = s.hub.agents)
    (herrands : ∀ e ∈ t.errands, ∀ id, e.target = some id → id < s.visits.length) : t.Routed where
  visits := (h.visits.step hstep).1
  entered := fun hostId id hmem => h.entered_of_evolves (h.visits.step hstep).2 (hentered ▸ hmem)
  routes := fun hostId => by
    rw [hagents, h.routes, hentered]
    exact filter_lookup_congr fun id hmem => (hopen hostId id hmem).symm
  queues := fun id hid => hagents ▸ h.queues id (hlength ▸ hid)
  valid := hagents ▸ h.valid
  errands := fun e he id hid => hlength ▸ herrands e he id hid

/-- A step that changes one session, but not its state. -/
theorem of_visit (h : s.Routed) (hstep : Step s t) {id : Session.Id} {v w : Visit}
    (hv : s.visits[id]? = some v) (hvisits : t.visits = s.visits.set id w)
    (hstate : w.session.state = v.session.state) (hentered : t.entered = s.entered)
    (hagents : t.hub.agents = s.hub.agents) (herrands : t.errands = s.errands) : t.Routed := by
  have hopen : t.isOpen = s.isOpen := by
    rw [← isOpen_setVisit_of_state hv hstate]
    funext j
    rw [isOpen, hvisits]
    rfl
  refine h.of_quiet hstep hentered (fun _ j _ => congrFun hopen j) ?_ hagents ?_
  · rw [hvisits, List.length_set]
  · exact herrands ▸ h.errands

/-- A session that was not authenticated yet was never entered. -/
theorem ne_of_connected (h : s.Routed) {id j : Session.Id} {v : Visit} {hostId : String}
    (hv : s.visits[id]? = some v) (hstate : v.session.state = .connected)
    (hmem : (hostId, j) ∈ s.entered) : id ≠ j := by
  rintro rfl
  obtain ⟨w, hw, -, hlater⟩ := h.entered hostId id hmem
  obtain rfl := Option.some.inj (hv.symm.trans hw)
  rcases hlater with hlater | hlater
  · exact absurd (hstate.symm.trans hlater) (by simp)
  · exact absurd (hstate.symm.trans hlater) (by simp)

theorem connect (h : s.Routed) (remoteIp : Option Net.IpAddress) :
    (s.connect remoteIp).Routed := by
  have hstep := Step.connect (s := s) remoteIp
  have hlength : (s.connect remoteIp).visits.length = s.visits.length + 1 := by
    simp [System.connect, AgentSession.start]
  have hqueues : ∀ id, (s.connect remoteIp).hub.agents.queues[id]? =
      if s.visits.length = id then some (Queue.commandRing s.hub.settings.commandQueueCapacity)
      else s.hub.agents.queues[id]? := by
    intro id
    simp [System.connect, AgentSession.start, Registry.openQueue, Std.TreeMap.getElem?_insert]
  refine ⟨(h.visits.step hstep).1, fun hostId id hmem => ?_, fun hostId => ?_, fun id hid => ?_,
    ?_, fun e he id hid => ?_⟩
  · exact h.entered_of_evolves (h.visits.step hstep).2 hmem
  · refine (h.routes hostId).trans (filter_lookup_congr fun id hmem => ?_)
    obtain ⟨v, hv, -⟩ := h.entered hostId id hmem
    have hlt : id < s.visits.length := (List.getElem?_eq_some_iff.mp hv).choose
    simp [isOpen, System.connect, AgentSession.start, List.getElem?_append_left hlt]
  · rw [hqueues]
    split
    · rfl
    · next hne =>
      rw [hlength] at hid
      exact h.queues id (Nat.lt_of_le_of_ne (Nat.lt_succ_iff.mp hid) (Ne.symm hne))
  · exact h.valid.openQueue _ _
  · exact hlength ▸ Nat.lt_succ_of_lt (h.errands e he id hid)

theorem enter (h : s.Routed) {id : Session.Id} {v : Visit} {hostId : String}
    {version : Option String} (hv : s.visits[id]? = some v)
    (hwork : v.work = .entering hostId version) :
    System.Routed
      { s.setVisit id
          { v with
            session := { v.session with state := .authenticated hostId }
            work := .remembering hostId version } with
        hub := { s.hub with agents := s.hub.agents.register hostId v.session.id }
        entered := (hostId, id) :: s.entered } := by
  have hstep := Step.enter hv hwork
  obtain ⟨hid, hsound⟩ := h.visits id v hv
  have hfits := hsound.fits
  rw [Visit.Fits, hwork] at hfits
  obtain ⟨hstate, hadmitted⟩ := hfits
  let w : Visit := { v with
    session := { v.session with state := .authenticated hostId }
    work := .remembering hostId version }
  have hlength : (s.setVisit id w).visits.length = s.visits.length := by simp [setVisit]
  refine ⟨(h.visits.step hstep).1, fun k j hmem => ?_, fun k => ?_, fun j hj => ?_, ?_,
    fun e he j hj => hlength ▸ h.errands e he j hj⟩
  · rcases List.mem_cons.mp hmem with hnew | hold
    · obtain ⟨rfl, rfl⟩ := Prod.mk.inj hnew
      exact ⟨w, (getElem?_setVisit hv).trans (if_pos rfl), hadmitted, .inl rfl⟩
    · exact h.entered_of_evolves (h.visits.step hstep).2 hold
  · have hopen : ∀ j, System.isOpen (s.setVisit id w) j = if id = j then true else s.isOpen j :=
      fun j => isOpen_setVisit hv w j
    change (s.hub.agents.register hostId v.session.id).route? k =
      (((hostId, id) :: s.entered).lookup k).filter (s.setVisit id w).isOpen
    rw [Registry.route?_register, hid]
    by_cases e : hostId = k
    · subst e
      rw [if_pos rfl, List.lookup_cons_self, Option.filter_some, hopen, if_pos rfl, if_pos rfl]
    · have hne : (k == hostId) = false := by simpa using Ne.symm e
      rw [if_neg e, List.lookup_cons, hne, h.routes]
      refine filter_lookup_congr fun j hmem => ?_
      rw [hopen, if_neg (h.ne_of_connected hv hstate hmem)]
  · exact (Registry.isSome_queues_register ..).trans (h.queues j (hlength ▸ hj))
  · exact h.valid.register _ _

theorem route?_close (s : System) (id : Session.Id) {v : Visit} (hid : v.session.id = id)
    (hostId : String) :
    (v.session.close s.hub).2.agents.route? hostId =
      if v.session.hostId? = some hostId ∧ s.hub.agents.route? hostId = some id then none
      else s.hub.agents.route? hostId := by
  unfold AgentSession.close
  cases hhost : v.session.hostId? with
  | none => simp
  | some k =>
    simp only [Registry.route?_deregister, hid, Option.some.injEq]
    by_cases e : k = hostId
    · subst e
      rfl
    · simp [e]

theorem close (h : s.Routed) {id : Session.Id} {v : Visit} (hv : s.visits[id]? = some v)
    (hwork : v.work = .idle) :
    System.Routed
      { s.setVisit id { v with session := (v.session.close s.hub).1 } with
        hub := (v.session.close s.hub).2 } := by
  have hstep := Step.close hv hwork
  obtain ⟨hid, hsound⟩ := h.visits id v hv
  let w : Visit := { v with session := (v.session.close s.hub).1 }
  have hlength : (s.setVisit id w).visits.length = s.visits.length := by simp [setVisit]
  refine ⟨(h.visits.step hstep).1, fun k j hmem => ?_, fun k => ?_, fun j hj => ?_, ?_,
    fun e he j hj => hlength ▸ h.errands e he j hj⟩
  · exact h.entered_of_evolves (h.visits.step hstep).2 hmem
  · have hopen : ∀ j, System.isOpen (s.setVisit id w) j = if id = j then false else s.isOpen j :=
      fun j => isOpen_setVisit hv w j
    change (v.session.close s.hub).2.agents.route? k =
      (s.entered.lookup k).filter (s.setVisit id w).isOpen
    rw [route?_close s id hid, h.routes]
    cases hlookup : s.entered.lookup k with
    | none => simp
    | some j =>
      by_cases e : id = j
      · -- the last session routed for the host ends: its route goes, if it still had it
        subst e
        obtain ⟨u, hu, -, hlast⟩ := h.entered k id (mem_of_lookup hlookup)
        obtain rfl := Option.some.inj (hv.symm.trans hu)
        rw [Option.filter_some, Option.filter_some, hopen, if_pos rfl]
        rcases hlast with hlast | hlast
        · have hhost : v.session.hostId? = some k := by simp [AgentSession.hostId?, hlast]
          have hisopen : s.isOpen id = true := by simp [isOpen, hv, hlast]
          simp [hhost, hisopen]
        · have hisopen : s.isOpen id = false := by
            rw [Visit.IsClosed] at hlast
            simp [isOpen, hv, hlast]
          simp [hisopen]
      · have hother : (some j).filter s.isOpen ≠ some id := by
          intro hroute
          exact e (Option.some.inj (Option.filter_eq_some_iff.mp hroute).1).symm
        rw [if_neg fun hboth => hother hboth.2, Option.filter_some, Option.filter_some, hopen,
          if_neg e]
  · change (((v.session.close s.hub).2.agents.queues)[j]?).isSome
    have hqueues := h.queues j (hlength ▸ hj)
    unfold AgentSession.close
    split
    · exact (Registry.isSome_queues_deregister ..).trans hqueues
    · exact hqueues
  · change (v.session.close s.hub).2.agents.Valid
    unfold AgentSession.close
    split
    · exact h.valid.deregister _ _
    · exact h.valid

theorem queue (h : s.Routed) (id : Session.Id)
    {f : Queue.RingBuffer Command → Queue.RingBuffer Command} (hf : ∀ q, q.Valid → (f q).Valid)
    {errands : List Errand}
    (herrands : ∀ e ∈ errands, ∀ target, e.target = some target →
      (∃ d ∈ s.errands, d.target = some target) ∨
        ∃ hostId, s.hub.agents.route? hostId = some target) :
    System.Routed { s.updateQueue id f with errands } where
  visits := h.visits
  entered := h.entered
  routes := fun hostId => (Registry.route?_updateQueue ..).trans (h.routes hostId)
  queues := fun j hj => (Registry.isSome_queues_updateQueue ..).trans (h.queues j hj)
  valid := h.valid.updateQueue id hf
  errands := fun e he target htarget => by
    rcases herrands e he target htarget with ⟨d, hd, hheld⟩ | ⟨hostId, hroute⟩
    · exact h.errands d hd target hheld
    · exact h.lt_of_route? hroute

/-- Whatever happens, routes and sessions agree. -/
theorem step (h : s.Routed) (hstep : Step s t) : t.Routed := by
  have hall := hstep
  cases hstep with
  | stay => exact h
  | connect remoteIp => exact h.connect remoteIp
  | hear hv _ text => exact h.of_visit hall hv rfl rfl rfl rfl rfl
  | grant hv _ _ => exact h.of_visit hall hv rfl rfl rfl rfl rfl
  | reject hv hwork =>
    refine h.of_quiet hall rfl (fun hostId id hmem => ?_) (by simp [setVisit]) rfl h.errands
    have hstate := ((h.visits _ _ hv).2.of_checking hwork).1
    rw [isOpen_setVisit hv, if_neg (h.ne_of_connected hv hstate hmem)]
  | enter hv hwork => exact h.enter hv hwork
  | learn hv hw directory => exact h.of_visit hall hv rfl hw.state rfl rfl rfl
  | record hv _ _ => exact h.of_visit hall hv rfl rfl rfl rfl rfl
  | put hv _ _ => exact h.of_visit hall hv rfl rfl rfl rfl rfl
  | close hv hwork => exact h.close hv hwork
  | queue id hf herrands => exact h.queue id hf herrands
  | refuseErrand command =>
    refine h.of_quiet hall rfl (fun _ _ _ => rfl) rfl rfl fun e he id hid => ?_
    rcases List.mem_append.mp he with he | he
    · exact h.errands e he id hid
    · rw [List.mem_singleton.mp he] at hid
      cases hid
  | own => exact h.of_quiet hall rfl (fun _ _ _ => rfl) rfl rfl h.errands
  | recorder => exact h.of_quiet hall rfl (fun _ _ _ => rfl) rfl rfl h.errands
  | elsewhere => exact h.of_quiet hall rfl (fun _ _ _ => rfl) rfl rfl h.errands

theorem start (settings : Settings) (directory : Directory) (keeper : History.Keeper) :
    (start settings directory keeper).Routed where
  visits := soundVisits_start settings directory keeper
  entered := fun hostId id hmem => by cases hmem
  routes := fun hostId => by simp [System.start, Registry.route?]
  queues := fun id hid => absurd hid (Nat.not_lt_zero id)
  valid := fun id q hq => by simp [System.start] at hq
  errands := fun e he => by cases he

theorem run (h : s.Routed) (actions : List Action) : (s.run actions).Routed :=
  run_induction h (fun hs hstep => hs.step hstep) actions

/-- A command goes to the session that its host is routed to, or nowhere. -/
theorem sendCommand (h : s.Routed) (hostId : String) (c : Command) :
    let sent := (s.hub.sendCommand hostId c).1
    let after := (s.hub.sendCommand hostId c).2.agents
    (sent = true ∧ ∃ id, s.hub.agents.route? hostId = some id ∧ s.hub.agents.Enqueues id c after) ∨
      (sent = false ∧ ∀ id : Session.Id, after.queues[id]? = s.hub.agents.queues[id]?) := by
  dsimp only [Hub.sendCommand]
  cases hroute : s.hub.agents.route? hostId with
  | none => exact .inr (by simp [Registry.sendCommand, hroute])
  | some id =>
    obtain ⟨q, hq⟩ := Option.isSome_iff_exists.mp (h.queues id (h.lt_of_route? hroute))
    rw [Registry.sendCommand_of_route? hroute hq]
    cases hreceiving : q.receiving with
    | true =>
      have hsent := ((h.valid id q hq).receivable_send hreceiving c).1
      exact .inl ⟨hsent, id, rfl, Registry.enqueues_updateQueue h.valid hq hreceiving c rfl⟩
    | false =>
      have hsend := Queue.RingBuffer.send_eq_of_not_receiving hreceiving c
      refine .inr ⟨by rw [hsend], fun j => ?_⟩
      rw [Registry.queues_updateQueue]
      split
      · next e =>
        subst e
        rw [hq, Option.map_some, hsend]
      · rfl

/-- A command that an operator sends after having looked up the queue goes to that queue, or
nowhere. -/
theorem send (h : s.Routed) {errand : Nat} {c : Command} {id : Session.Id}
    (herrand : s.errands[errand]? = some ⟨c, some id, none⟩) :
    let after := s.send errand
    (after.errands[errand]? = some ⟨c, some id, some true⟩ ∧
        s.hub.agents.Enqueues id c after.hub.agents) ∨
      (after.errands[errand]? = some ⟨c, some id, some false⟩ ∧
        ∀ j, after.hub.agents.waiting? j = s.hub.agents.waiting? j) := by
  have hid := h.errands _ (List.mem_of_getElem? herrand) id rfl
  obtain ⟨q, hq⟩ := Option.isSome_iff_exists.mp (h.queues id hid)
  have hplace : errand < s.errands.length := (List.getElem?_eq_some_iff.mp herrand).choose
  simp only [System.send, herrand, hq, List.getElem?_set_self hplace]
  cases hreceiving : q.receiving with
  | true =>
    have hsent := ((h.valid id q hq).receivable_send hreceiving c).1
    exact .inl ⟨by rw [hsent], Registry.enqueues_updateQueue h.valid hq hreceiving c rfl⟩
  | false =>
    have hsend := Queue.RingBuffer.send_eq_of_not_receiving hreceiving c
    refine .inr ⟨by rw [hsend], fun j => ?_⟩
    change (s.hub.agents.updateQueue id fun q => (q.send c).2.dropSender).waiting? j = _
    rw [Registry.waiting?, Registry.queues_updateQueue, Registry.waiting?]
    split
    · next e =>
      subst e
      simp [hq, hsend, Queue.RingBuffer.dropSender, Queue.RingBuffer.receivable,
        Queue.RingBuffer.oldest]
    · rfl

/-- Ending a session leaves the routes that are not its own. -/
theorem route?_of_close (h : s.Routed) {id : Session.Id} {hostId : String}
    (hother : s.hub.agents.route? hostId ≠ some id) :
    (s.close id).hub.agents.route? hostId = s.hub.agents.route? hostId := by
  unfold System.close
  cases hv : s.visits[id]? with
  | none => rfl
  | some v =>
    dsimp only
    split
    · refine (route?_close s id (h.visits id v hv).1 hostId).trans ?_
      rw [if_neg fun hboth => hother hboth.2]
    · rfl

end Routed

/-- After every run, a host is routed to the session that was last admitted as that and routed for
it, as long as that is not closed, and else it is not routed. A session that is routed is
authenticated for the host, and the end of any other changes no route. A command, whether it is sent
at once or after its queue was looked up, is then the last that waits for the session found, with
all other queues unchanged, or it is refused with all queues unchanged. -/
theorem commands_reach_last_session (settings : Settings) (directory : Directory)
    (keeper : History.Keeper) (actions : List Action) :
    let s := (start settings directory keeper).run actions
    let agents := s.hub.agents
    (∀ hostId, agents.route? hostId = (s.entered.lookup hostId).filter s.isOpen) ∧
    (∀ hostId id, (hostId, id) ∈ s.entered → ∃ v, s.visits[id]? = some v ∧ v.AdmittedAs hostId) ∧
    (∀ hostId id, agents.route? hostId = some id →
      ∃ v, s.visits[id]? = some v ∧ v.session.state = .authenticated hostId) ∧
    (∀ id hostId, agents.route? hostId ≠ some id →
      (s.close id).hub.agents.route? hostId = agents.route? hostId) ∧
    (∀ hostId c,
      let sent := (s.hub.sendCommand hostId c).1
      let after := (s.hub.sendCommand hostId c).2.agents
      (sent = true ∧ ∃ id, agents.route? hostId = some id ∧ agents.Enqueues id c after) ∨
        (sent = false ∧ ∀ id : Session.Id, after.queues[id]? = agents.queues[id]?)) ∧
    ∀ errand c id, s.errands[errand]? = some ⟨c, some id, none⟩ →
      let after := s.send errand
      (after.errands[errand]? = some ⟨c, some id, some true⟩ ∧
          agents.Enqueues id c after.hub.agents) ∨
        (after.errands[errand]? = some ⟨c, some id, some false⟩ ∧
          ∀ j, after.hub.agents.waiting? j = agents.waiting? j) := by
  have h := (Routed.start settings directory keeper).run actions
  refine ⟨h.routes, fun hostId id hmem => ?_, fun _ _ => h.state_of_route?,
    fun _ _ => h.route?_of_close, h.sendCommand, fun _ _ _ => h.send⟩
  obtain ⟨v, hv, hadmitted, -⟩ := h.entered hostId id hmem
  exact ⟨v, hv, hadmitted⟩

def oneServer : Directory := .new [{ id := "a", token := "t" }] []

/-- The agent of the server presents itself. -/
def greeting : String := Message.FromAgent.schema.encode (.auth "a" "t" none)

/-- A session that has heard the greeting. -/
def greeted (id : Session.Id) : Visit :=
  { session := { id }, work := .checking "a" "t" none, heard := [greeting] }

theorem hear_greeting {s : System} {id : Session.Id}
    (hv : s.visits[id]? = some { session := { id } }) :
    s.hear id greeting = s.setVisit id (greeted id) := by
  simp only [hear, hv]
  rw [greeting, Visit.hear_auth rfl]
  rfl

/-- The steps of an authentication after its frame has arrived. -/
def admission (id : Session.Id) : List Action := List.replicate 5 (.proceed id .epoch)

def twoConnected (keeper : History.Keeper) : System :=
  (start .small oneServer keeper).run [.connect none, .connect none]

def firstAdmitted (keeper : History.Keeper) : System :=
  ((twoConnected keeper).setVisit 0 (greeted 0)).run (admission 0)

/-- A second session of a host is admitted, a command is looked up, and the first session ends. -/
def supersession : List Action :=
  [.connect none, .connect none] ++ .hear 0 greeting :: (admission 0 ++
    .hear 1 greeting :: (admission 1 ++ [.lookUp "a" ⟨"restart", none⟩, .close 0]))

theorem hear_first (keeper : History.Keeper) :
    (twoConnected keeper).hear 0 greeting = (twoConnected keeper).setVisit 0 (greeted 0) :=
  hear_greeting rfl

/-- A session of the host is admitted before anything else happens. -/
theorem run_firstAdmitted (keeper : History.Keeper) (rest : List Action) :
    (start .small oneServer keeper).run ([.connect none, .connect none] ++
        .hear 0 greeting :: (admission 0 ++ rest)) = (firstAdmitted keeper).run rest := by
  have htwo : (start .small oneServer keeper).run [.connect none, .connect none] =
    twoConnected keeper := rfl
  rw [run_append, run_hear, run_append, htwo, hear_first, ← firstAdmitted]

/-- Another session of the host is admitted after that. -/
theorem run_twoAdmitted (keeper : History.Keeper) (rest : List Action) :
    (start .small oneServer keeper).run ([.connect none, .connect none] ++
        .hear 0 greeting :: (admission 0 ++ .hear 1 greeting :: (admission 1 ++ rest))) =
      ((firstAdmitted keeper).setVisit 1 (greeted 1)).run (admission 1 ++ rest) := by
  have hsecond :
      (firstAdmitted keeper).hear 1 greeting = (firstAdmitted keeper).setVisit 1 (greeted 1) :=
    hear_greeting rfl
  rw [run_firstAdmitted, run_hear, hsecond]

theorem run_supersession :
    (start .small oneServer none).run supersession =
      ((firstAdmitted none).setVisit 1 (greeted 1)).run
        (admission 1 ++ [.lookUp "a" ⟨"restart", none⟩, .close 0]) :=
  run_twoAdmitted none _

/-- The command that was looked up reaches the second session, although the first one has ended. -/
theorem command_reaches_second_session :
    let s := (start .small oneServer none).run supersession
    s.hub.agents.route? "a" = some 1 ∧
    (∃ v, s.visits[1]? = some v ∧ v.session.state = .authenticated "a") ∧
    (∃ v, s.visits[0]? = some v ∧ v.AdmittedAs "a") ∧
    (s.close 0).hub.agents.route? "a" = some 1 ∧
    (s.send 0).errands[0]? = some ⟨⟨"restart", none⟩, some 1, some true⟩ ∧
    s.hub.agents.Enqueues 1 ⟨"restart", none⟩ (s.send 0).hub.agents := by
  obtain ⟨-, hentered, hstate, hclose, -, hsend⟩ :=
    commands_reach_last_session .small oneServer none supersession
  have hroute :
      ((start .small oneServer none).run supersession).hub.agents.route? "a" = some 1 := by
    rw [run_supersession]
    rfl
  have hmem : ("a", 0) ∈ ((start .small oneServer none).run supersession).entered := by
    rw [run_supersession]
    exact .tail _ (.head _)
  have herrand : ((start .small oneServer none).run supersession).errands[0]? =
      some ⟨⟨"restart", none⟩, some 1, none⟩ := by
    rw [run_supersession]
    rfl
  have hother :
      ((start .small oneServer none).run supersession).hub.agents.route? "a" ≠ some 0 := by
    simp [hroute]
  refine ⟨hroute, hstate "a" 1 hroute, hentered "a" 0 hmem, (hclose 0 "a" hother).trans hroute, ?_⟩
  rcases hsend 0 _ 1 herrand with hsent | ⟨hrefused, -⟩
  · exact hsent
  · rw [run_supersession] at hrefused
    cases hrefused

end System
end FleetWatch.Sessions
