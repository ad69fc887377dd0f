import FleetWatch.Proofs.Session.Routing
import FleetWatch.Web.Answer
import Mathlib.Data.List.Dedup

/-!
# Who is reachable

A host is served as long as some open session is authenticated for it. It is reachable, and counted
among the connected agents, as long as the session that was last routed for it is open. The first
follows from the second; the second follows from the first only while the sessions of a host end in
the order in which they were routed.

## Main definitions

* `System.served`: the hosts that open sessions are authenticated for.
* `System.standing?`: the session that was last routed for a host, as long as that is open.
* `System.isReceiving`: the writer of a session still takes commands.
-/
namespace FleetWatch.Session.Registry

/-- The routes are counted among any hosts that include all routed ones. -/
theorem size_eq_length_filter (r : Registry) {hosts : List String} (hnodup : hosts.Nodup)
    (hall : ∀ hostId, (r.route? hostId).isSome → hostId ∈ hosts) :
    r.size = (hosts.filter fun hostId => (r.route? hostId).isSome).length := by
  have hkeys : r.routes.keys.Perm (hosts.filter fun hostId => (r.route? hostId).isSome) := by
    refine (List.perm_ext_iff_of_nodup Std.TreeMap.nodup_keys (hnodup.filter _)).mpr ?_
    intro hostId
    have hrouted : hostId ∈ r.routes.keys ↔ (r.route? hostId).isSome := by
      simp [route?]
    grind
  exact Std.TreeMap.length_keys.symm.trans hkeys.length_eq

/-- A command is received exactly when the host is routed to a session whose writer takes it. -/
theorem sendCommand_eq_true_iff (r : Registry) (hostId : String) (c : Command) :
    (r.sendCommand hostId c).1 = true ↔
      ∃ id, r.route? hostId = some id ∧ (r.queues[id]?).any (·.receiving) := by
  cases hroute : r.route? hostId with
  | none => simp [sendCommand, hroute]
  | some id =>
    cases hq : r.queues[id]? with
    | none => simp [sendCommand, hroute, hq]
    | some q =>
      cases hreceiving : q.receiving <;>
        simp [sendCommand, hroute, hq, Queue.RingBuffer.send, hreceiving]

end FleetWatch.Session.Registry

namespace FleetWatch.Sessions.System

/-- The hosts that open sessions are authenticated for. -/
def served (s : System) : List String :=
  (s.visits.filterMap fun v => v.session.hostId?).dedup

/-- The session that was last routed for a host, as long as that is open. -/
def standing? (s : System) (hostId : String) : Option Session.Id :=
  (s.entered.lookup hostId).filter s.isOpen

/-- The writer of a session still takes commands. -/
def isReceiving (s : System) (id : Session.Id) : Bool :=
  (s.hub.agents.queues[id]?).any (·.receiving)

theorem mem_served {s : System} {hostId : String} :
    hostId ∈ s.served ↔
      ∃ (id : Session.Id) (v : Visit),
        s.visits[id]? = some v ∧ v.session.state = .authenticated hostId := by
  have hhost (v : Visit) :
      v.session.hostId? = some hostId ↔ v.session.state = .authenticated hostId := by
    grind [AgentSession.hostId?]
  rw [served, List.mem_dedup, List.mem_filterMap]
  constructor
  · rintro ⟨v, hv, hserves⟩
    obtain ⟨id, hid⟩ := List.mem_iff_getElem?.mp hv
    exact ⟨id, v, hid, (hhost v).mp hserves⟩
  · rintro ⟨id, v, hid, hstate⟩
    exact ⟨v, List.mem_of_getElem? hid, (hhost v).mpr hstate⟩

theorem standing?_eq_some_iff {s : System} {hostId : String} {id : Session.Id} :
    s.standing? hostId = some id ↔ s.entered.lookup hostId = some id ∧ s.isOpen id :=
  Option.filter_eq_some_iff

/-- A step adds at most one route to those that were made, and its session is open then. -/
theorem Step.entered {s t : System} (hstep : Step s t) :
    t.entered = s.entered ∨
      ∃ hostId id, t.entered = (hostId, id) :: s.entered ∧ t.isOpen id = true := by
  cases hstep with
  | enter hv hwork =>
    refine .inr ⟨_, _, rfl, ?_⟩
    have hopen := isOpen_setVisit hv
    exact (hopen _ _).trans (by simp)
  | _ => exact .inl rfl

namespace Routed
variable {s t : System}

/-- A host that can be reached is served. -/
theorem served_of_standing (h : s.Routed) {hostId : String} {id : Session.Id}
    (hstanding : s.standing? hostId = some id) : hostId ∈ s.served := by
  have hroute : s.hub.agents.route? hostId = some id := (h.routes hostId).trans hstanding
  obtain ⟨v, hv, hstate⟩ := h.state_of_route? hroute
  exact mem_served.mpr ⟨id, v, hv, hstate⟩

/-- A command is received as long as the session that was last routed for its host is open and its
writer takes commands. -/
theorem sendCommand_iff (h : s.Routed) (hostId : String) (c : Command) :
    (s.hub.sendCommand hostId c).1 = true ↔
      ∃ id, s.standing? hostId = some id ∧ s.isReceiving id := by
  have hroute : s.hub.agents.route? hostId = s.standing? hostId := h.routes hostId
  rw [← hroute]
  exact s.hub.agents.sendCommand_eq_true_iff hostId c

/-- The agents that are counted are those of the hosts that can be reached. -/
theorem size_agents (h : s.Routed) :
    s.hub.agents.size = (s.served.filter fun hostId => (s.standing? hostId).isSome).length := by
  have hroute : ∀ hostId, s.hub.agents.route? hostId = s.standing? hostId := h.routes
  simp only [← hroute]
  refine s.hub.agents.size_eq_length_filter (List.nodup_dedup _) fun hostId hrouted => ?_
  obtain ⟨id, hid⟩ := Option.isSome_iff_exists.mp hrouted
  exact h.served_of_standing ((hroute hostId).symm.trans hid)

/-- A step takes a host out of reach only by closing the session that it was routed to. -/
theorem isOpen_of_lost (h : s.Routed) (hstep : Step s t) {hostId : String} {id : Session.Id}
    (hbefore : s.hub.agents.route? hostId = some id)
    (hafter : t.hub.agents.route? hostId = none) : t.isOpen id = false := by
  have hlast : s.entered.lookup hostId = some id :=
    (standing?_eq_some_iff.mp ((h.routes hostId).symm.trans hbefore)).1
  rw [(h.step hstep).routes] at hafter
  rcases hstep.entered with hsame | ⟨other, new, hnew, hopen⟩
  · rw [hsame, hlast] at hafter
    simpa using hafter
  · rw [hnew, List.lookup_cons] at hafter
    cases hother : hostId == other with
    | true =>
      rw [hother] at hafter
      simp [hopen] at hafter
    | false =>
      rw [hother] at hafter
      simpa [hlast] using hafter

end Routed

/-- After every run, a host is routed, and its commands are taken, exactly as long as the session
that was last routed for it is open (and its writer takes commands); such a host is served. The
health page counts the served hosts of which that holds: as many agents as hosts are served when it
holds of all of them, and fewer else. What takes a host out of reach is the end of the session that
it is routed to, whichever other sessions serve it. -/
theorem reachable_iff_last_session_open (settings : Settings) (directory : Directory)
    (keeper : History.Keeper) (actions : List Action) :
    let s := (start settings directory keeper).run actions
    (∀ hostId, (s.hub.agents.route? hostId).isSome ↔
      ∃ id, s.entered.lookup hostId = some id ∧ s.isOpen id) ∧
    (∀ hostId, (s.hub.agents.route? hostId).isSome → hostId ∈ s.served) ∧
    (∀ hostId c, (s.hub.sendCommand hostId c).1 = true ↔
      ∃ id, s.entered.lookup hostId = some id ∧ s.isOpen id ∧ s.isReceiving id) ∧
    (∀ now, (Web.healthReport s.hub now).agents =
      .ofNat (s.served.filter fun hostId => (s.standing? hostId).isSome).length) ∧
    s.hub.agents.size ≤ s.served.length ∧
    (s.hub.agents.size = s.served.length ↔
      ∀ hostId ∈ s.served, ∃ id, s.entered.lookup hostId = some id ∧ s.isOpen id) ∧
    ∀ a hostId id, s.hub.agents.route? hostId = some id →
      (s.step a).hub.agents.route? hostId = none → (s.step a).isOpen id = false := by
  intro s
  have h : s.Routed := (Routed.start settings directory keeper).run actions
  have hroute : ∀ hostId, s.hub.agents.route? hostId = s.standing? hostId := h.routes
  have hsome : ∀ hostId, (s.standing? hostId).isSome ↔
      ∃ id, s.entered.lookup hostId = some id ∧ s.isOpen id := fun hostId => by
    simp only [Option.isSome_iff_exists, standing?_eq_some_iff]
  refine ⟨fun hostId => ?_, fun hostId hrouted => ?_, fun hostId c => ?_, fun now => ?_, ?_, ?_,
    fun a _ _ => h.isOpen_of_lost (s.step_step a)⟩
  · rw [hroute, hsome]
  · obtain ⟨id, hid⟩ := Option.isSome_iff_exists.mp hrouted
    exact h.served_of_standing ((hroute hostId).symm.trans hid)
  · simp only [h.sendCommand_iff, standing?_eq_some_iff, and_assoc]
  · exact congrArg UInt64.ofNat h.size_agents
  · rw [h.size_agents]
    exact List.length_filter_le ..
  · rw [h.size_agents, List.length_filter_eq_length_iff]
    exact forall₂_congr fun hostId _ => hsome hostId

/-- A second session of a host is admitted and ends, while the first goes on. -/
def abandonment : List Action :=
  [.connect none, .connect none] ++ .hear 0 greeting :: (admission 0 ++
    .hear 1 greeting :: (admission 1 ++ [.close 1]))

/-- The first session is still open, authenticated and taking commands, but its host is not routed,
its commands are refused and no agent is counted. -/
theorem served_host_is_unreachable :
    let s := (start .small oneServer none).run abandonment
    "a" ∈ s.served ∧ s.isOpen 0 = true ∧ s.isReceiving 0 = true ∧
      s.hub.agents.route? "a" = none ∧
      (s.hub.sendCommand "a" ⟨"restart", none⟩).1 = false ∧
      (Web.healthReport s.hub .epoch).agents = 0 ∧ s.served.length = 1 := by
  rw [abandonment, run_twoAdmitted]
  exact ⟨by decide, rfl, rfl, rfl, rfl, rfl, rfl⟩

end FleetWatch.Sessions.System
