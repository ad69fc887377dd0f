import FleetWatch.Proofs.Session.Routing

/-!
# Sessions without interruption

A frame whose steps follow one another is received as the session receives it, and a command that is
sent as soon as its queue was looked up is sent as the hub sends it.

## Main definitions

* `System.Ends`: the steps of a session, one after the other, leave it with nothing to do.
-/
namespace FleetWatch.Sessions

open Session (Registry)

namespace System

/-- The steps of a session, one after the other, come to an end with a session and a hub. -/
def Ends (s : System) (id : Session.Id) (now : ClockTime) (session : AgentSession) (hub : Hub) :
    Prop :=
  ∃ n v, (s.run (List.replicate n (.proceed id now))).hub = hub ∧
    (s.run (List.replicate n (.proceed id now))).visits[id]? = some v ∧
    v.session = session ∧ v.work = .idle

section Steps
variable {s : System} {id : Session.Id} {v : Visit} {hostId : String} {version : Option String}
  {reading : Snapshot}

theorem Ends.of_idle (v : Visit) (hv : s.visits[id]? = some v) (hwork : v.work = .idle)
    (now : ClockTime) : s.Ends id now v.session s.hub :=
  ⟨0, v, rfl, hv, rfl, hwork⟩

theorem Ends.of_proceed {now : ClockTime} {session : AgentSession} {hub : Hub}
    (h : (s.proceed id now).Ends id now session hub) : s.Ends id now session hub := by
  obtain ⟨n, w, hhub, hw⟩ := h
  exact ⟨n + 1, w, hhub, hw⟩

theorem visits_setVisit_self (hv : s.visits[id]? = some v) (w : Visit) :
    (s.setVisit id w).visits[id]? = some w :=
  (getElem?_setVisit hv).trans (if_pos rfl)

/-! ## Authentications -/

theorem ends_gathering (v : Visit) (hv : s.visits[id]? = some v) (hwork : v.work = .gathering)
    (now : ClockTime) : s.Ends id now v.session s.hub := by
  refine .of_proceed ?_
  simp only [proceed, hv, hwork]
  refine .of_idle { v with work := .idle } ?_ rfl now
  exact visits_setVisit_self hv _

theorem ends_noting (v : Visit) (hv : s.visits[id]? = some v)
    (hwork : v.work = .noting hostId version) (now : ClockTime) :
    s.Ends id now (v.session.noteVersion? s.hub hostId version).1
      (v.session.noteVersion? s.hub hostId version).2 := by
  let noted := v.session.noteVersion? s.hub hostId version
  refine .of_proceed ?_
  simp only [proceed, hv, hwork]
  refine ends_gathering { v with session := noted.1, work := .gathering } ?_ rfl now
  exact visits_setVisit_self hv _

theorem ends_remembering (v : Visit) (hv : s.visits[id]? = some v)
    (hwork : v.work = .remembering hostId version) (now : ClockTime) :
    let session := v.session.remember s.hub hostId
    s.Ends id now (session.noteVersion? s.hub hostId version).1
      (session.noteVersion? s.hub hostId version).2 := by
  let session := v.session.remember s.hub hostId
  refine .of_proceed ?_
  simp only [proceed, hv, hwork]
  refine ends_noting { v with session, work := .noting hostId version } ?_ rfl now
  exact visits_setVisit_self hv _

theorem ends_entering (v : Visit) (hv : s.visits[id]? = some v)
    (hwork : v.work = .entering hostId version) (now : ClockTime) :
    let entered := v.session.enter s.hub hostId
    let session := entered.1.remember entered.2 hostId
    s.Ends id now (session.noteVersion? entered.2 hostId version).1
      (session.noteVersion? entered.2 hostId version).2 := by
  let entered := v.session.enter s.hub hostId
  refine .of_proceed ?_
  simp only [proceed, hv, hwork]
  refine ends_remembering
    { v with session := entered.1, work := .remembering hostId version } ?_ rfl now
  exact visits_setVisit_self hv _

/-- The steps of an authentication come to the end of the session's. -/
theorem ends_checking {token : String} (v : Visit) (hv : s.visits[id]? = some v)
    (hwork : v.work = .checking hostId token version) (now : ClockTime) :
    s.Ends id now (v.session.authenticate s.hub hostId token version).2.1
      (v.session.authenticate s.hub hostId token version).2.2 := by
  let answer := some (s.hub.directory.resolveToken hostId)
  refine .of_proceed ?_
  simp only [proceed, hv, hwork, AgentSession.authenticate]
  cases hcheck : AgentSession.checkToken s.hub.directory hostId token with
  | ok u =>
    refine ends_entering { v with work := .entering hostId version, answer } ?_ rfl now
    exact visits_setVisit_self hv _
  | error e =>
    refine .of_idle
      { v with session := { v.session with state := .closed }, work := .idle, answer } ?_ rfl now
    exact visits_setVisit_self hv _

/-! ## Readings -/

theorem ends_locating (v : Visit) (hv : s.visits[id]? = some v)
    (hwork : v.work = .locating hostId reading) (now : ClockTime) :
    let noted := v.session.noteIp? s.hub hostId (v.session.observedIp reading)
    s.Ends id now noted.1 noted.2 := by
  let noted := v.session.noteIp? s.hub hostId (v.session.observedIp reading)
  refine .of_proceed ?_
  simp only [proceed, hv, hwork]
  refine .of_idle { v with session := noted.1, work := .idle } ?_ rfl now
  exact visits_setVisit_self hv _

theorem ends_learning (v : Visit) (hv : s.visits[id]? = some v)
    (hwork : v.work = .learning hostId reading version) (now : ClockTime) :
    let noted := v.session.noteVersion? s.hub hostId version
    let located := noted.1.noteIp? noted.2 hostId (noted.1.observedIp reading)
    s.Ends id now located.1 located.2 := by
  let noted := v.session.noteVersion? s.hub hostId version
  refine .of_proceed ?_
  simp only [proceed, hv, hwork]
  refine ends_locating { v with session := noted.1, work := .locating hostId reading } ?_ rfl now
  exact visits_setVisit_self hv _

theorem ends_putting (v : Visit) (hv : s.visits[id]? = some v)
    (hwork : v.work = .putting hostId reading version) (now : ClockTime) :
    let put := { s.hub with live := s.hub.live.put hostId reading now.1 }
    let noted := v.session.noteVersion? put hostId version
    let located := noted.1.noteIp? noted.2 hostId (noted.1.observedIp reading)
    s.Ends id now located.1 located.2 := by
  refine .of_proceed ?_
  simp only [proceed, hv, hwork]
  refine ends_learning { v with work := .learning hostId reading version } ?_ rfl now
  exact visits_setVisit_self hv _

theorem ends_recording (v : Visit) (hv : s.visits[id]? = some v)
    (hwork : v.work = .recording hostId reading version) (now : ClockTime) :
    let put := s.hub.putReading hostId reading now.1
    let noted := v.session.noteVersion? put hostId version
    let located := noted.1.noteIp? noted.2 hostId (noted.1.observedIp reading)
    s.Ends id now located.1 located.2 := by
  refine .of_proceed ?_
  simp only [proceed, hv, hwork]
  refine ends_putting { v with work := .putting hostId reading version } ?_ rfl now
  exact visits_setVisit_self hv _

/-! ## Frames -/

/-- The steps of a frame, one after the other, come to the end that the session makes of it. -/
theorem ends_hear (hv : s.visits[id]? = some v) (hwork : v.work = .idle) (text : String)
    (now : ClockTime) :
    (s.hear id text).Ends id now (v.session.receive s.hub now.1 text).2.1
      (v.session.receive s.hub now.1 text).2.2 := by
  have hlater := visits_setVisit_self hv (v.hear text)
  rw [show s.hear id text = s.setVisit id (v.hear text) by simp only [hear, hv, hwork]]
  -- a frame that there is nothing to do of
  have hquiet : plan v.session text = .idle →
      (v.session.receive s.hub now.1 text).2 = (v.session, s.hub) →
      (s.setVisit id (v.hear text)).Ends id now (v.session.receive s.hub now.1 text).2.1
        (v.session.receive s.hub now.1 text).2.2 := by
    intro hplan hreceive
    rw [hreceive]
    exact .of_idle _ hlater hplan now
  by_cases hclosed : v.session.state = .closed
  · exact hquiet (by simp [plan, hclosed]) (by simp [AgentSession.receive, hclosed])
  cases hdecode : Message.FromAgent.schema.decode text with
  | error fault =>
    exact hquiet (by simp [plan, hdecode]) (by simp [AgentSession.receive, hclosed, hdecode])
  | ok m =>
    have hreceive : v.session.receive s.hub now.1 text = v.session.handle s.hub now.1 m := by
      simp [AgentSession.receive, hclosed, hdecode]
    rw [hreceive] at hquiet ⊢
    cases m with
    | auth hostId token version =>
      by_cases hconnected : v.session.state = .connected
      · have hchecking : (v.hear text).work = .checking hostId token version := by
          simp [Visit.hear, plan, hdecode, hconnected]
        have hhandle : v.session.handle s.hub now.1 (.auth hostId token version) =
            v.session.authenticate s.hub hostId token version := by
          simp [AgentSession.handle, hconnected]
        rw [hhandle]
        exact ends_checking (v.hear text) hlater hchecking now
      · exact hquiet (by simp [plan, hclosed, hdecode, hconnected])
          (by simp [AgentSession.handle, hconnected])
    | metrics reading claimed version token =>
      cases hhost : v.session.hostId? with
      | none =>
        exact hquiet (by simp [plan, hdecode, hhost])
          (by simp [AgentSession.handle, AgentSession.ingest, hhost])
      | some hostId =>
        cases hrefusal : AgentSession.refusal? hostId claimed reading with
        | some e =>
          exact hquiet (by simp [plan, hdecode, hhost, hrefusal])
            (by simp [AgentSession.handle, AgentSession.ingest, hhost, hrefusal])
        | none =>
          have hrecording : (v.hear text).work =
              .recording hostId reading (version.or reading.version) := by
            simp [Visit.hear, plan, hclosed, hdecode, hhost, hrefusal]
          simp only [AgentSession.handle, AgentSession.ingest, hhost, hrefusal]
          exact ends_recording (v.hear text) hlater hrecording now

end Steps

/-- A command that is sent as soon as its queue was looked up is answered, and leaves all routes and
queues, as if it had been sent at once. -/
theorem send_lookUp {s : System} (h : s.Routed) (hostId : String) (c : Command) :
    let after := (s.lookUp hostId c).send s.errands.length
    let atOnce := s.hub.sendCommand hostId c
    after.errands = s.errands ++ [⟨c, s.hub.agents.route? hostId, some atOnce.1⟩] ∧
      (∀ k, after.hub.agents.route? k = atOnce.2.agents.route? k) ∧
      ∀ id : Session.Id, after.hub.agents.queues[id]? = atOnce.2.agents.queues[id]? := by
  dsimp only [Hub.sendCommand]
  cases hroute : s.hub.agents.route? hostId with
  | none =>
    have hsend : (s.lookUp hostId c).send s.errands.length = s.lookUp hostId c := by
      simp [send, lookUp, hroute]
    rw [hsend]
    simp [lookUp, hroute, Registry.sendCommand]
  | some id =>
    obtain ⟨q, hq⟩ := Option.isSome_iff_exists.mp (h.queues id (h.lt_of_route? hroute))
    obtain ⟨hanswer, -⟩ := q.send_cloneSender c
    let cloned := s.hub.agents.updateQueue id Queue.RingBuffer.cloneSender
    have hcloned : cloned.queues[id]? = some q.cloneSender := by
      rw [Registry.queues_updateQueue, if_pos rfl, hq, Option.map_some]
    have hlookUp : s.lookUp hostId c =
        { s with
          hub := { s.hub with agents := cloned }
          errands := s.errands ++ [⟨c, some id, none⟩] } := by
      simp only [lookUp, hroute]
      rfl
    have hsend : (s.lookUp hostId c).send s.errands.length =
        { s with
          hub := { s.hub with agents := cloned.updateQueue id fun q => (q.send c).2.dropSender }
          errands := s.errands ++ [⟨c, some id, some (q.send c).1⟩] } := by
      rw [hlookUp]
      simp [send, hcloned, updateQueue, hanswer]
    obtain ⟨hroutes, hqueues⟩ := Registry.updateQueue_held hroute hq c
    have hatOnce : (s.hub.agents.sendCommand hostId c).1 = (q.send c).1 := by
      rw [Registry.sendCommand_of_route? hroute hq]
    rw [hsend, hatOnce]
    exact ⟨rfl, hroutes, hqueues⟩

end System
end FleetWatch.Sessions
