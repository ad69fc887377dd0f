import FleetWatch.Proofs.Dispatch.DeltaStream
import FleetWatch.Proofs.Metrics.Survival
import FleetWatch.Session.Agent

/-!
# Frames of a session

What a text frame brings about. One that is refused leaves the hub as it was. An accepted reading
replaces the entry of its host and is offered to the history once; whatever the directory and the
history make of it, it is taken in.

## Main definitions

* `Directory.AgreesBut`: two directories differ in nothing but what is learnt about a host.
* `Hub.Takes`: what an accepted reading does to a hub.
-/
namespace FleetWatch

namespace Directory

/-- The directories differ in nothing but the version and the address of a host. -/
structure AgreesBut (d : Directory) (hostId : String) (e : Directory) : Prop where
  order : e.order = d.order
  targets : e.targets = d.targets
  outages : e.outages = d.outages
  others : ∀ k, k ≠ hostId → e.find? k = d.find? k
  own : ∃ learn : Profile → Option String × Option String,
    e.find? hostId =
      (d.find? hostId).map fun p => { p with version := (learn p).1, ip := (learn p).2 }

namespace AgreesBut
variable {d e f : Directory} {hostId : String}

theorem refl (d : Directory) (hostId : String) : d.AgreesBut hostId d where
  order := rfl
  targets := rfl
  outages := rfl
  others := fun _ _ => rfl
  own := ⟨fun p => (p.version, p.ip), by simp⟩

theorem trans (hd : d.AgreesBut hostId e) (he : e.AgreesBut hostId f) : d.AgreesBut hostId f where
  order := he.order.trans hd.order
  targets := he.targets.trans hd.targets
  outages := he.outages.trans hd.outages
  others := fun k hk => (he.others k hk).trans (hd.others k hk)
  own := by
    obtain ⟨learn, hlearn⟩ := hd.own
    obtain ⟨later, hlater⟩ := he.own
    refine ⟨fun p => later { p with version := (learn p).1, ip := (learn p).2 }, ?_⟩
    rw [hlater, hlearn, Option.map_map]
    rfl

/-- A change of the profile of a host that only tells its version and address. -/
theorem update (d : Directory) (hostId : String) (learn : Profile → Option String × Option String) :
    d.AgreesBut hostId
      (d.update hostId fun p => { p with version := (learn p).1, ip := (learn p).2 }) where
  order := order_update d hostId _
  targets := by unfold Directory.update; split <;> rfl
  outages := by unfold Directory.update; split <;> rfl
  others := fun k hk => by rw [find?_update, if_neg (Ne.symm hk)]
  own := ⟨learn, by rw [find?_update, if_pos rfl]⟩

theorem of_recordVersion {version : String} (h : d.recordVersion hostId version = .ok e) :
    d.AgreesBut hostId e := by
  obtain ⟨-, rfl⟩ := (answer_eq_ok_iff ..).mp h
  exact update d hostId fun p => (some version, p.ip)

theorem of_recordIp {ip : String} (h : d.recordIp hostId ip = .ok e) : d.AgreesBut hostId e := by
  obtain ⟨-, rfl⟩ := (answer_eq_ok_iff ..).mp h
  exact update d hostId fun p => (p.version, some ip)

end AgreesBut
end Directory

/-- A hub has taken in a reading of a host: the entry of the host is the reading, the reading was
offered to the history once, the directory may have learnt the version and address of the host, and
nothing else has changed. -/
structure Hub.Takes (h : Hub) (hostId : String) (reading : Snapshot) (now : Time.Instant)
    (after : Hub) : Prop where
  live : ∀ k, after.live.get? k = if hostId = k then some ⟨hostId, reading, now⟩ else h.live.get? k
  history : after.keeper = (h.keeper.record hostId now reading).2
  directory : h.directory.AgreesBut hostId after.directory
  rest : after =
    { h with live := after.live, keeper := after.keeper, directory := after.directory }

namespace AgentSession

/-- A session learns something and the directory with it; both are otherwise as before. -/
structure Learns (s : AgentSession) (h : Hub) (hostId : String) (after : AgentSession × Hub) :
    Prop where
  id : after.1.id = s.id
  state : after.1.state = s.state
  directory : h.directory.AgreesBut hostId after.2.directory
  rest : after.2 = { h with directory := after.2.directory }

namespace Learns
variable {s : AgentSession} {h : Hub} {hostId : String}

theorem refl (s : AgentSession) (h : Hub) (hostId : String) : s.Learns h hostId (s, h) :=
  ⟨rfl, rfl, .refl _ _, rfl⟩

theorem trans {mid after : AgentSession × Hub} (hmid : s.Learns h hostId mid)
    (hafter : mid.1.Learns mid.2 hostId after) : s.Learns h hostId after where
  id := hafter.id.trans hmid.id
  state := hafter.state.trans hmid.state
  directory := hmid.directory.trans hafter.directory
  rest := by rw [hafter.rest, hmid.rest]

theorem noteVersion (s : AgentSession) (h : Hub) (hostId version : String) :
    s.Learns h hostId (s.noteVersion h hostId version) := by
  unfold AgentSession.noteVersion
  split
  · exact refl s h hostId
  · split
    · next hrecord => exact ⟨rfl, rfl, .of_recordVersion hrecord, rfl⟩
    · exact refl s h hostId

theorem noteVersion? (s : AgentSession) (h : Hub) (hostId : String) (version : Option String) :
    s.Learns h hostId (s.noteVersion? h hostId version) := by
  cases version with
  | none => exact refl s h hostId
  | some version => exact noteVersion s h hostId version

theorem noteIp (s : AgentSession) (h : Hub) (hostId ip : String) :
    s.Learns h hostId (s.noteIp h hostId ip) := by
  unfold AgentSession.noteIp
  split
  · exact refl s h hostId
  · split
    · next hrecord => exact ⟨rfl, rfl, .of_recordIp hrecord, rfl⟩
    · exact refl s h hostId

theorem noteIp? (s : AgentSession) (h : Hub) (hostId : String) (ip : Option String) :
    s.Learns h hostId (s.noteIp? h hostId ip) := by
  cases ip with
  | none => exact refl s h hostId
  | some ip => exact noteIp s h hostId ip

/-- What a session learns does not concern the routes. -/
theorem agents {after : AgentSession × Hub} (hlearns : s.Learns h hostId after) :
    after.2.agents = h.agents := by
  rw [hlearns.rest]

end Learns

theorem id_remember (s : AgentSession) (h : Hub) (hostId : String) :
    (s.remember h hostId).id = s.id := by
  unfold remember
  split <;> rfl

theorem state_remember (s : AgentSession) (h : Hub) (hostId : String) :
    (s.remember h hostId).state = s.state := by
  unfold remember
  split <;> rfl

/-- A token will do exactly when the directory answers with it. -/
theorem checkToken_eq_ok_iff (d : Directory) (hostId token : String) :
    checkToken d hostId token = .ok () ↔ d.resolveToken hostId = .ok (some token) := by
  unfold checkToken
  cases hanswer : d.resolveToken hostId with
  | error e => simp
  | ok expected =>
    cases expected with
    | none => simp
    | some expected => by_cases e : expected = token <;> simp [e]

/-- A reading is accepted for a host: the agent claims no other, and the usages are numbers. -/
def Accepts (hostId : String) (claimed : Option String) (reading : Snapshot) : Prop :=
  (∀ other, claimed = some other → other = hostId) ∧
    reading.cpu.usage.isFinite ∧ reading.memory.usagePercent.isFinite

theorem refusal?_eq_none_iff (hostId : String) (claimed : Option String) (reading : Snapshot) :
    refusal? hostId claimed reading = none ↔ Accepts hostId claimed reading := by
  have hfault := reading.fault?_eq_none_iff
  cases claimed with
  | none => simp [refusal?, Accepts, hfault]
  | some other =>
    by_cases e : other = hostId
    · simp [refusal?, Accepts, hfault, e]
    · simp [refusal?, Accepts, e]

/-- A refused reading is refused as malformed. -/
theorem malformed_of_refusal? {hostId : String} {claimed : Option String} {reading : Snapshot}
    {e : HubError} (h : refusal? hostId claimed reading = some e) :
    ∃ reason, e = .malformed reason := by
  have hfault : (reading.fault?.map fun f => HubError.malformed f.message) = some e →
      ∃ reason, e = .malformed reason := by
    intro hr
    obtain ⟨f, -, rfl⟩ := Option.map_eq_some_iff.mp hr
    exact ⟨_, rfl⟩
  unfold refusal? at h
  split at h
  · split at h
    · exact hfault h
    · exact ⟨_, (Option.some.inj h).symm⟩
  · exact hfault h

/-- A token is refused by rejecting the authentication. -/
theorem authRejected_of_checkToken {d : Directory} {hostId token : String} {e : HubError}
    (h : checkToken d hostId token = .error e) : ∃ reason, e = .authRejected reason := by
  unfold checkToken at h
  split at h
  · exact ⟨_, (Except.error.inj h).symm⟩
  · exact ⟨_, (Except.error.inj h).symm⟩
  · split at h
    · cases h
    · exact ⟨_, (Except.error.inj h).symm⟩

/-- A reading that is accepted is taken in, whatever directory and history are like. -/
theorem takes_ingest {s : AgentSession} {h : Hub} {now : Time.Instant} {hostId : String}
    {reading : Snapshot} {claimed : Option String} (version : Option String)
    (hs : s.state = .authenticated hostId) (haccepts : Accepts hostId claimed reading) :
    let after := s.ingest h now reading claimed version
    after.1 = .ok none ∧ after.2.1.state = s.state ∧ h.Takes hostId reading now after.2.2 := by
  have hhost : s.hostId? = some hostId := by simp [hostId?, hs]
  have hrefusal := (refusal?_eq_none_iff hostId claimed reading).mpr haccepts
  let put := h.putReading hostId reading now
  let noted := s.noteVersion? put hostId (version.or reading.version)
  have hlearns : s.Learns put hostId
      (noted.1.noteIp? noted.2 hostId (noted.1.observedIp reading)) :=
    (Learns.noteVersion? s put hostId _).trans (Learns.noteIp? noted.1 noted.2 hostId _)
  simp only [ingest, hhost, hrefusal]
  refine ⟨trivial, hlearns.state, ?_⟩
  have hrest := hlearns.rest
  refine ⟨fun k => ?_, ?_, hlearns.directory, ?_⟩
  · rw [hrest]
    exact Hub.get?_putReading h hostId k reading now
  · rw [hrest]
    rfl
  · rw [hrest]
    rfl

theorem exists_of_answer {outcome : Outcome} {answer : Except HubError (Option Message.ToAgent)}
    (h : outcome.1 = answer) : ∃ session after, outcome = (answer, session, after) :=
  ⟨outcome.2.1, outcome.2.2, by rw [← h]⟩

end AgentSession
end FleetWatch
