import FleetWatch.Proofs.Session.System

/-!
# What a session can become

A session is admitted as a host only by the token that the directory answered with when the session
first asked to be, a reading is accepted of an admitted session alone, and no session is ever
admitted as another host or open again.

## Main definitions

* `Visit.AdmittedAs`, `Visit.Delivered`: how a session came to its host and to a reading.
* `Visit.Fits`, `Visit.Sound`: what a session is at and what it has been through agree.
* `Visit.Evolves`: what remains of a session however it goes on.
-/
namespace FleetWatch.Sessions

/-- The plans for a text by what the session can make of it. -/
theorem plan_cases (s : AgentSession) (text : String) :
    (s.state = .connected ∧ (∃ hostId token version,
        presented? text = some (hostId, token) ∧ plan s text = .checking hostId token version)) ∨
      ((s.state = .connected → presented? text = none) ∧ plan s text = .idle) ∨
      ∃ hostId reading claimed version token later,
        s.state = .authenticated hostId ∧
        Message.FromAgent.schema.decode text = .ok (.metrics reading claimed version token) ∧
        AgentSession.Accepts hostId claimed reading ∧
        plan s text = .recording hostId reading later := by
  cases hdecode : Message.FromAgent.schema.decode text with
  | error fault =>
    exact .inr (.inl ⟨fun _ => by simp [presented?, hdecode], by simp [plan, hdecode]⟩)
  | ok m =>
    cases m with
    | auth hostId token version =>
      by_cases hconnected : s.state = .connected
      · exact .inl ⟨hconnected, hostId, token, version, by simp [presented?, hdecode],
          by simp [plan, hdecode, hconnected]⟩
      · exact .inr (.inl ⟨fun h => absurd h hconnected, by simp [plan, hdecode, hconnected]⟩)
    | metrics reading claimed version token =>
      have hpresented : presented? text = none := by simp [presented?, hdecode]
      cases hstate : s.state with
      | authenticated hostId =>
        cases hrefusal : AgentSession.refusal? hostId claimed reading with
        | none =>
          have haccepts := (AgentSession.refusal?_eq_none_iff ..).mp hrefusal
          exact .inr (.inr ⟨hostId, reading, claimed, version, token, _, rfl, rfl, haccepts,
            by simp [plan, hdecode, hstate, AgentSession.hostId?, hrefusal]; rfl⟩)
        | some e =>
          exact .inr (.inl ⟨fun _ => hpresented,
            by simp [plan, hdecode, hstate, AgentSession.hostId?, hrefusal]⟩)
      | _ =>
        exact .inr (.inl ⟨fun _ => hpresented,
          by simp [plan, hdecode, hstate, AgentSession.hostId?]⟩)

namespace Visit

/-- The first authentication that the session has heard presented the token that the directory
answered with. -/
def AdmittedAs (v : Visit) (hostId : String) : Prop :=
  ∃ token, v.presented? = some (hostId, token) ∧ v.answer = some (.ok (some token))

/-- The session has heard a reading that is accepted for a host. -/
def Delivered (v : Visit) (hostId : String) (reading : Snapshot) : Prop :=
  ∃ text ∈ v.heard, ∃ claimed version token,
    Message.FromAgent.schema.decode text = .ok (.metrics reading claimed version token) ∧
      AgentSession.Accepts hostId claimed reading

/-- What a session has left to do goes with its state. -/
def Fits (v : Visit) : Prop :=
  match v.work with
  | .idle => v.session.state = .connected → v.presented? = none ∧ v.answer = none
  | .checking hostId token _ =>
    v.session.state = .connected ∧ v.presented? = some (hostId, token) ∧ v.answer = none
  | .entering hostId _ => v.session.state = .connected ∧ v.AdmittedAs hostId
  | .recording hostId reading _ | .putting hostId reading _ =>
    v.session.state = .authenticated hostId ∧ (hostId, reading) ∈ v.accepted
  | .remembering .. | .noting .. | .gathering | .learning .. | .locating .. =>
    ∃ hostId, v.session.state = .authenticated hostId

/-- Host, answer and readings of a session agree with what it has heard. -/
structure Sound (v : Visit) : Prop where
  fits : v.Fits
  admitted : ∀ hostId, v.session.state = .authenticated hostId → v.AdmittedAs hostId
  answered : ∀ a, v.answer = some a → ∃ hostId token, v.presented? = some (hostId, token) ∧
    (a = .ok (some token) ∨ v.IsClosed)
  accepted : ∀ hostId reading, (hostId, reading) ∈ v.accepted →
    v.AdmittedAs hostId ∧ v.Delivered hostId reading

/-- What remains of a session: its number, how it was admitted, and what was accepted of it. An
authenticated session keeps its host until it is closed, and a closed one stays closed. -/
structure Evolves (v w : Visit) : Prop where
  id : w.session.id = v.session.id
  state : w.session.state = v.session.state ∨ w.IsClosed ∨ v.session.state = .connected
  admitted : ∀ hostId, v.AdmittedAs hostId → w.AdmittedAs hostId
  accepted : ∀ p ∈ v.accepted, p ∈ w.accepted

theorem Evolves.refl (v : Visit) : v.Evolves v := ⟨rfl, .inl rfl, fun _ h => h, fun _ h => h⟩

theorem Evolves.trans {u v w : Visit} (huv : u.Evolves v) (hvw : v.Evolves w) : u.Evolves w where
  id := hvw.id.trans huv.id
  state := by
    rcases hvw.state with hsame | hclosed | hconnected
    · rcases huv.state with h | h | h
      · exact .inl (hsame.trans h)
      · exact .inr (.inl (hsame.trans h))
      · exact .inr (.inr h)
    · exact .inr (.inl hclosed)
    · rcases huv.state with h | h | h
      · exact .inr (.inr (h.symm.trans hconnected))
      · exact absurd (hconnected.symm.trans h) (by simp)
      · exact .inr (.inr h)
  admitted := fun h hu => hvw.admitted h (huv.admitted h hu)
  accepted := fun p hp => hvw.accepted p (huv.accepted p hp)

theorem presented?_hear (v : Visit) (text : String) :
    (v.hear text).presented? = v.presented?.or (Sessions.presented? text) := by
  simp [presented?, hear, List.findSome?_append]

/-- A session that nothing is known of starts to check what it is presented. -/
theorem hear_auth {v : Visit} (hstate : v.session.state = .connected) (hostId token : String)
    (version : Option String) :
    let text := Message.FromAgent.schema.encode (.auth hostId token version)
    v.hear text =
      { v with work := .checking hostId token version, heard := v.heard ++ [text] } := by
  simp [Visit.hear, plan, hstate, Message.FromAgent.decode_encode_auth, Work.accepted?]

/-- An authenticated session starts to deliver a reading that it accepts. -/
theorem hear_metrics {v : Visit} {hostId text : String} {reading : Snapshot}
    {claimed version token : Option String} (hstate : v.session.state = .authenticated hostId)
    (hdecode : Message.FromAgent.schema.decode text = .ok (.metrics reading claimed version token))
    (haccepts : AgentSession.Accepts hostId claimed reading) :
    v.hear text =
      { v with
        work := .recording hostId reading (version.or reading.version)
        heard := v.heard ++ [text]
        accepted := v.accepted ++ [(hostId, reading)] } := by
  have hrefusal := (AgentSession.refusal?_eq_none_iff hostId claimed reading).mpr haccepts
  simp [Visit.hear, plan, hstate, hdecode, AgentSession.hostId?, hrefusal, Work.accepted?]

theorem AdmittedAs.hear {v : Visit} {hostId : String} (h : v.AdmittedAs hostId) (text : String) :
    (v.hear text).AdmittedAs hostId := by
  obtain ⟨token, hpresented, hanswer⟩ := h
  exact ⟨token, by rw [presented?_hear, hpresented, Option.some_or], hanswer⟩

theorem Delivered.hear {v : Visit} {hostId : String} {reading : Snapshot}
    (h : v.Delivered hostId reading) (text : String) : (v.hear text).Delivered hostId reading := by
  obtain ⟨t, ht, hdelivered⟩ := h
  exact ⟨t, List.mem_append_left _ ht, hdelivered⟩

namespace Sound
variable {v w : Visit}

/-- A frame that arrives leaves a session sound. -/
theorem hear (h : v.Sound) (hwork : v.work = .idle) (text : String) : (v.hear text).Sound := by
  have hfresh : v.session.state = .connected → v.presented? = none ∧ v.answer = none := by
    have hfits := h.fits
    rwa [Fits, hwork] at hfits
  have hold : ∀ hostId reading, (hostId, reading) ∈ v.accepted →
      (v.hear text).AdmittedAs hostId ∧ (v.hear text).Delivered hostId reading :=
    fun k r hr => ⟨(h.accepted k r hr).1.hear text, (h.accepted k r hr).2.hear text⟩
  have hadmitted : ∀ hostId, (v.hear text).session.state = .authenticated hostId →
      (v.hear text).AdmittedAs hostId := fun k hk => (h.admitted k hk).hear text
  have hanswered : ∀ a, (v.hear text).answer = some a → ∃ hostId token,
      (v.hear text).presented? = some (hostId, token) ∧
        (a = .ok (some token) ∨ (v.hear text).IsClosed) := by
    intro a ha
    obtain ⟨k, token, hpresented, ha⟩ := h.answered a ha
    exact ⟨k, token, by rw [presented?_hear, hpresented, Option.some_or], ha⟩
  rcases plan_cases v.session text with
    ⟨hconnected, hostId, token, version, htext, hplan⟩ | ⟨htext, hplan⟩ |
      ⟨hostId, reading, claimed, version, token, later, hstate, hdecode, haccepts, hplan⟩
  · refine ⟨?_, hadmitted, hanswered, fun k r hr => hold k r ?_⟩
    · have hpresented : (v.hear text).presented? = some (hostId, token) := by
        rw [presented?_hear, (hfresh hconnected).1, Option.none_or, htext]
      have hfits : (v.hear text).work = .checking hostId token version := hplan
      rw [Fits, hfits]
      exact ⟨hconnected, hpresented, (hfresh hconnected).2⟩
    · simpa [Visit.hear, hplan, Work.accepted?] using hr
  · refine ⟨?_, hadmitted, hanswered, fun k r hr => hold k r ?_⟩
    · have hfits : (v.hear text).work = .idle := hplan
      rw [Fits, hfits]
      intro hconnected
      rw [presented?_hear, (hfresh hconnected).1, Option.none_or]
      exact ⟨htext hconnected, (hfresh hconnected).2⟩
    · simpa [Visit.hear, hplan, Work.accepted?] using hr
  · have hmem : (v.hear text).accepted = v.accepted ++ [(hostId, reading)] := by
      simp [Visit.hear, hplan, Work.accepted?]
    refine ⟨?_, hadmitted, hanswered, fun k r hr => ?_⟩
    · have hfits : (v.hear text).work = .recording hostId reading later := hplan
      rw [Fits, hfits]
      exact ⟨hstate, by simp [hmem]⟩
    · rw [hmem] at hr
      rcases List.mem_append.mp hr with hr | hr
      · exact hold k r hr
      · obtain ⟨rfl, rfl⟩ := Prod.mk.inj (List.mem_singleton.mp hr)
        have htext : text ∈ (v.hear text).heard := by simp [Visit.hear]
        exact ⟨(h.admitted k hstate).hear text, text, htext, claimed, version, token, hdecode,
          haccepts⟩

theorem evolves_hear (v : Visit) (text : String) : v.Evolves (v.hear text) :=
  ⟨rfl, .inl rfl, fun _ h => h.hear text, fun _ hp => List.mem_append_left _ hp⟩

/-- A session whose answer is still to come has been admitted as nobody. -/
theorem not_admittedAs (hanswer : v.answer = none) (hostId : String) : ¬ v.AdmittedAs hostId := by
  rintro ⟨token, -, h⟩
  rw [hanswer] at h
  cases h

section Checking
variable {hostId token : String} {version : Option String}

theorem of_checking (h : v.Sound) (hwork : v.work = .checking hostId token version) :
    v.session.state = .connected ∧ v.presented? = some (hostId, token) ∧ v.answer = none := by
  have hfits := h.fits
  rwa [Fits, hwork] at hfits

theorem grant (h : v.Sound) (hwork : v.work = .checking hostId token version) :
    let w := { v with work := .entering hostId version, answer := some (.ok (some token)) }
    w.Sound ∧ v.Evolves w := by
  obtain ⟨hstate, hpresented, hanswer⟩ := h.of_checking hwork
  refine ⟨⟨⟨hstate, token, hpresented, rfl⟩, fun k hk => ?_, fun a ha => ?_, fun k r hr => ?_⟩,
    ⟨rfl, .inl rfl, fun k hk => absurd hk (not_admittedAs hanswer k), fun _ hp => hp⟩⟩
  · exact absurd (hstate.symm.trans hk) (by simp)
  · exact ⟨hostId, token, hpresented, .inl (Option.some.inj ha).symm⟩
  · exact absurd (h.accepted k r hr).1 (not_admittedAs hanswer k)

theorem reject (h : v.Sound) (hwork : v.work = .checking hostId token version)
    (answer : Except HubError (Option String)) :
    let w := { v with
      session := { v.session with state := .closed }, work := .idle, answer := some answer }
    w.Sound ∧ v.Evolves w := by
  obtain ⟨hstate, hpresented, hanswer⟩ := h.of_checking hwork
  refine ⟨⟨fun hconnected => ?_, fun k hk => ?_, fun a _ => ?_, fun k r hr => ?_⟩,
    ⟨rfl, .inr (.inl rfl), fun k hk => absurd hk (not_admittedAs hanswer k), fun _ hp => hp⟩⟩
  · cases hconnected
  · cases hk
  · exact ⟨hostId, token, hpresented, .inr rfl⟩
  · exact absurd (h.accepted k r hr).1 (not_admittedAs hanswer k)

end Checking

theorem enter {hostId : String} {version : Option String} (h : v.Sound)
    (hwork : v.work = .entering hostId version) :
    let w := { v with
      session := { v.session with state := .authenticated hostId }
      work := .remembering hostId version }
    w.Sound ∧ v.Evolves w := by
  have hfits := h.fits
  rw [Fits, hwork] at hfits
  obtain ⟨hstate, hadmitted⟩ := hfits
  refine ⟨⟨⟨hostId, rfl⟩, fun k hk => ?_, fun a ha => ?_, h.accepted⟩,
    ⟨rfl, .inr (.inr hstate), fun _ hk => hk, fun _ hp => hp⟩⟩
  · obtain rfl : hostId = k := by simpa using hk
    exact hadmitted
  · obtain ⟨k, token, hpresented, ha | hclosed⟩ := h.answered a ha
    · exact ⟨k, token, hpresented, .inl ha⟩
    · exact absurd (hstate.symm.trans hclosed) (by simp)

/-- A session whose work alone has changed is sound when that goes with its state. -/
theorem of_same (h : v.Sound) (hfits : w.Fits) (hid : w.session.id = v.session.id)
    (hstate : w.session.state = v.session.state) (hheard : w.heard = v.heard)
    (hanswer : w.answer = v.answer) (haccepted : w.accepted = v.accepted) :
    w.Sound ∧ v.Evolves w := by
  have hpresented : w.presented? = v.presented? := by rw [presented?, hheard, presented?]
  have hadmitted : ∀ k, v.AdmittedAs k → w.AdmittedAs k := by
    rintro k ⟨token, hp, ha⟩
    exact ⟨token, hpresented.trans hp, hanswer.trans ha⟩
  refine ⟨⟨hfits, fun k hk => ?_, fun a ha => ?_, fun k r hr => ?_⟩,
    ⟨hid, .inl hstate, hadmitted, fun p hp => haccepted ▸ hp⟩⟩
  · exact hadmitted k (h.admitted k (hstate.symm.trans hk))
  · obtain ⟨k, token, hp, ha⟩ := h.answered a (hanswer.symm.trans ha)
    exact ⟨k, token, hpresented.trans hp, ha.imp_right hstate.trans⟩
  · obtain ⟨hk, text, htext, hdelivered⟩ := h.accepted k r (haccepted ▸ hr)
    exact ⟨hadmitted k hk, text, hheard ▸ htext, hdelivered⟩

theorem learn (h : v.Sound) (hw : v.Learns w) : w.Sound ∧ v.Evolves w := by
  have hstate : ∃ hostId, v.session.state = .authenticated hostId := by
    have hfits := h.fits
    unfold Fits at hfits
    rcases hw.before with
      ⟨_, _, hwork⟩ | ⟨_, _, hwork⟩ | hwork | ⟨_, _, _, hwork⟩ | ⟨_, _, hwork⟩ <;>
      rwa [hwork] at hfits
  obtain ⟨hostId, hstate⟩ := hstate
  have hlater : w.session.state = .authenticated hostId := hw.state.trans hstate
  refine h.of_same ?_ hw.id hw.state hw.heard hw.answer hw.accepted
  unfold Fits
  rcases hw.after with ⟨_, _, hwork⟩ | hwork | ⟨_, _, hwork⟩ | hwork <;> rw [hwork]
  · exact ⟨hostId, hlater⟩
  · exact ⟨hostId, hlater⟩
  · exact ⟨hostId, hlater⟩
  · exact fun hconnected => absurd (hlater.symm.trans hconnected) (by simp)

section Reading
variable {hostId : String} {reading : Snapshot} {version : Option String}

theorem of_recording (h : v.Sound) (hwork : v.work = .recording hostId reading version) :
    v.session.state = .authenticated hostId ∧ (hostId, reading) ∈ v.accepted := by
  have hfits := h.fits
  rwa [Fits, hwork] at hfits

theorem of_putting (h : v.Sound) (hwork : v.work = .putting hostId reading version) :
    v.session.state = .authenticated hostId ∧ (hostId, reading) ∈ v.accepted := by
  have hfits := h.fits
  rwa [Fits, hwork] at hfits

theorem record (h : v.Sound) (hwork : v.work = .recording hostId reading version) :
    let w := { v with work := .putting hostId reading version }
    w.Sound ∧ v.Evolves w :=
  h.of_same (h.of_recording hwork) rfl rfl rfl rfl rfl

theorem put (h : v.Sound) (hwork : v.work = .putting hostId reading version) :
    let w := { v with work := .learning hostId reading version }
    w.Sound ∧ v.Evolves w :=
  h.of_same ⟨hostId, (h.of_putting hwork).1⟩ rfl rfl rfl rfl rfl

end Reading

theorem close (h : v.Sound) (hwork : v.work = .idle) (hub : Hub) :
    let w := { v with session := (v.session.close hub).1 }
    w.Sound ∧ v.Evolves w := by
  refine ⟨⟨?_, fun k hk => ?_, fun a ha => ?_, h.accepted⟩,
    ⟨rfl, .inr (.inl rfl), fun _ hk => hk, fun _ hp => hp⟩⟩
  · rw [Fits, hwork]
    intro hconnected
    cases hconnected
  · cases hk
  · obtain ⟨k, token, hpresented, -⟩ := h.answered a ha
    exact ⟨k, token, hpresented, .inr rfl⟩

end Sound
end Visit

namespace System

/-- All sessions of a system are sound and have their places as numbers. -/
def SoundVisits (s : System) : Prop :=
  ∀ (id : Session.Id) (v : Visit), s.visits[id]? = some v → v.session.id = id ∧ v.Sound

/-- The sessions of a later system are those of an earlier one as they have gone on, and perhaps
more. -/
def Evolves (s t : System) : Prop :=
  ∀ (id : Session.Id) (v : Visit), s.visits[id]? = some v →
    ∃ w, t.visits[id]? = some w ∧ v.Evolves w

theorem Evolves.of_visits_eq {s t : System} (h : t.visits = s.visits) : s.Evolves t :=
  fun _ v hv => ⟨v, h ▸ hv, .refl v⟩

theorem Evolves.trans {s t u : System} (hst : s.Evolves t) (htu : t.Evolves u) : s.Evolves u := by
  intro id v hv
  obtain ⟨w, hw, hvw⟩ := hst id v hv
  obtain ⟨x, hx, hwx⟩ := htu id w hw
  exact ⟨x, hx, hvw.trans hwx⟩

theorem getElem?_setVisit {s : System} {id j : Session.Id} {v w : Visit}
    (hv : s.visits[id]? = some v) :
    (s.setVisit id w).visits[j]? = if id = j then some w else s.visits[j]? := by
  have hlt : id < s.visits.length := (List.getElem?_eq_some_iff.mp hv).choose
  by_cases e : id = j
  · subst e
    simp [setVisit, hlt]
  · simp [setVisit, e]

/-- Sessions stay sound when one of them goes on soundly. -/
theorem SoundVisits.setVisit {s : System} (h : s.SoundVisits) {id : Session.Id} {v w : Visit}
    (hv : s.visits[id]? = some v) (hw : v.Sound → w.Sound ∧ v.Evolves w) :
    (s.setVisit id w).SoundVisits ∧ s.Evolves (s.setVisit id w) := by
  obtain ⟨hid, hsound⟩ := h id v hv
  obtain ⟨hwsound, hevolves⟩ := hw hsound
  constructor
  · intro j u hu
    rw [getElem?_setVisit hv] at hu
    split at hu
    · next e =>
      obtain rfl := Option.some.inj hu
      exact ⟨(hevolves.id.trans hid).trans e, hwsound⟩
    · exact h j u hu
  · intro j u hu
    rw [getElem?_setVisit hv]
    split
    · next e =>
      subst e
      obtain rfl := Option.some.inj (hv.symm.trans hu)
      exact ⟨w, rfl, hevolves⟩
    · exact ⟨u, hu, .refl u⟩

/-- Whatever happens, sessions are sound and go on as they may. -/
theorem SoundVisits.step {s t : System} (h : s.SoundVisits) (hstep : Step s t) :
    t.SoundVisits ∧ s.Evolves t := by
  cases hstep with
  | stay => exact ⟨h, .of_visits_eq rfl⟩
  | connect remoteIp =>
    have hvisits : (s.connect remoteIp).visits =
        s.visits ++ [{ session := { id := s.visits.length, remoteIp } }] := rfl
    constructor
    · intro id v hv
      rw [hvisits, List.getElem?_append] at hv
      split at hv
      · exact h id v hv
      · next hid =>
        obtain ⟨hplace, rfl⟩ : id - s.visits.length = 0 ∧
            ({ session := { id := s.visits.length, remoteIp } } : Visit) = v := by
          simpa [List.getElem?_singleton] using hv
        have hlast : s.visits.length = id :=
          Nat.le_antisymm (Nat.not_lt.mp hid) (Nat.sub_eq_zero_iff_le.mp hplace)
        refine ⟨hlast, ⟨fun _ => ⟨rfl, rfl⟩, ?_, ?_, ?_⟩⟩ <;> simp
    · intro id v hv
      have hlt : id < s.visits.length := (List.getElem?_eq_some_iff.mp hv).choose
      exact ⟨v, by rw [hvisits, List.getElem?_append_left hlt, hv], .refl v⟩
  | hear hv hwork text =>
    exact h.setVisit hv fun hs => ⟨hs.hear hwork text, Visit.Sound.evolves_hear _ text⟩
  | grant hv hwork _ => exact h.setVisit hv fun hs => hs.grant hwork
  | reject hv hwork => exact h.setVisit hv fun hs => hs.reject hwork _
  | enter hv hwork => exact h.setVisit hv fun hs => hs.enter hwork
  | learn hv hw _ => exact h.setVisit hv fun hs => hs.learn hw
  | record hv hwork _ => exact h.setVisit hv fun hs => hs.record hwork
  | put hv hwork _ => exact h.setVisit hv fun hs => hs.put hwork
  | close hv hwork => exact h.setVisit hv fun hs => hs.close hwork s.hub
  | queue => exact ⟨h, .of_visits_eq rfl⟩
  | refuseErrand => exact ⟨h, .of_visits_eq rfl⟩
  | own => exact ⟨h, .of_visits_eq rfl⟩
  | recorder => exact ⟨h, .of_visits_eq rfl⟩
  | elsewhere => exact ⟨h, .of_visits_eq rfl⟩

theorem SoundVisits.run {s : System} (h : s.SoundVisits) (actions : List Action) :
    (s.run actions).SoundVisits ∧ s.Evolves (s.run actions) :=
  run_induction (P := fun t => t.SoundVisits ∧ s.Evolves t) ⟨h, .of_visits_eq rfl⟩
    (fun ht hstep => ⟨(ht.1.step hstep).1, ht.2.trans (ht.1.step hstep).2⟩) actions

theorem soundVisits_start (settings : Settings) (directory : Directory)
    (keeper : History.Keeper) : (start settings directory keeper).SoundVisits := by
  intro id v hv
  simp [start] at hv

end System
end FleetWatch.Sessions
