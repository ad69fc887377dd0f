import FleetWatch.Proofs.Session.Telling

/-!
# What sessions know of the directory

A session does not hear what other sessions of the same host tell the directory. After a frame the
directory has the version and address of that frame, unless the session knew them already and
another one has told something else since.

## Main definitions

* `System.Tracks`: the directory holds what sessions know, unless that was overwritten.
-/
namespace FleetWatch
namespace Sessions

open Session (overwrite overwritten? overwritten?_concat)

namespace System

/-- The directory is in service and has the hosts of all sessions, and it holds what a session knows
of its host, unless another session of the host has told something else since. -/
structure Tracks (s : System) (exchanges : List Exchange) : Prop where
  visits : s.SoundVisits
  service : s.hub.directory.outages = []
  attends : ∀ (id : Session.Id) (v : Visit), s.visits[id]? = some v → v.Attends
  configured : ∀ (id : Session.Id) (v : Visit) (hostId : String), s.visits[id]? = some v →
    v.AdmittedAs hostId → ∃ p, s.hub.directory.find? hostId = some p
  knows : ∀ (id : Session.Id) (v : Visit) (hostId : String) (p : Profile) (fact : Fact),
    s.visits[id]? = some v → v.Knows hostId → s.hub.directory.find? hostId = some p →
    p.fact fact =
      ((overwritten? id hostId fact exchanges).map Prod.snd).or (v.session.known fact)
  others : ∀ (id : Session.Id) (hostId : String) (fact : Fact) (j : Session.Id) (value : String),
    overwritten? id hostId fact exchanges = some (j, value) →
    j ≠ id ∧ ∃ w, s.visits[j]? = some w ∧ w.AdmittedAs hostId

/-- A directory that answers with a token has the host. -/
theorem exists_profile_of_resolveToken {d : Directory} {hostId token : String}
    (h : d.resolveToken hostId = .ok (some token)) : ∃ p, d.find? hostId = some p := by
  obtain ⟨-, htoken⟩ := (Directory.answer_eq_ok_iff ..).mp h
  obtain ⟨p, hp, -⟩ := Option.map_eq_some_iff.mp htoken
  exact ⟨p, hp⟩

namespace Tracks
variable {s t : System} {exchanges : List Exchange} {id : Session.Id} {v w : Visit}

/-- Hosts of sessions stay configured as long as the directory loses none. -/
theorem configured_of_step (h : s.Tracks exchanges) (hstep : Step s t)
    (hkeeps : ∀ hostId p, s.hub.directory.find? hostId = some p →
      ∃ q, t.hub.directory.find? hostId = some q)
    (id : Session.Id) (w : Visit) (hostId : String) (hw : t.visits[id]? = some w)
    (hadmitted : w.AdmittedAs hostId) : ∃ p, t.hub.directory.find? hostId = some p := by
  rcases admittedAs_of_step h.visits hstep hw hadmitted with ⟨v, hv, hv'⟩ | ⟨token, -, htoken⟩
  · obtain ⟨p, hp⟩ := h.configured id v hostId hv hv'
    exact hkeeps hostId p hp
  · obtain ⟨p, hp⟩ := exists_profile_of_resolveToken htoken
    exact hkeeps hostId p hp

/-- Whoever has told something is still there. -/
theorem admitted_of_step (h : s.Tracks exchanges) (hstep : Step s t) {j : Session.Id}
    {hostId : String} (hj : ∃ v, s.visits[j]? = some v ∧ v.AdmittedAs hostId) :
    ∃ w, t.visits[j]? = some w ∧ w.AdmittedAs hostId := by
  obtain ⟨v, hv, hadmitted⟩ := hj
  obtain ⟨w, hw, hevolves⟩ := (h.visits.step hstep).2 j v hv
  exact ⟨w, hw, hevolves.admitted hostId hadmitted⟩

/-- Whoever has told something over the knowledge of a session is another one of that host. -/
theorem others_of_step (h : s.Tracks exchanges) (hstep : Step s t) {e : Exchange}
    (hwriter : ∀ j hostId fact value, e = .write j hostId fact value →
      ∃ v, s.visits[j]? = some v ∧ v.AdmittedAs hostId) (id : Session.Id) (hostId : String)
    (fact : Fact) (j : Session.Id) (value : String)
    (hover : overwritten? id hostId fact (exchanges ++ [e]) = some (j, value)) :
    j ≠ id ∧ ∃ w, t.visits[j]? = some w ∧ w.AdmittedAs hostId := by
  rw [overwritten?_concat] at hover
  obtain ⟨hne, he⟩ | hlast := Session.of_overwrite hover
  · exact ⟨hne, h.admitted_of_step hstep (hwriter j hostId fact value he)⟩
  · obtain ⟨hne, hj⟩ := h.others id hostId fact j value hlast
    exact ⟨hne, h.admitted_of_step hstep hj⟩

/-- A step that nothing passes in between sessions and directory. -/
theorem of_quiet (h : s.Tracks exchanges) (hstep : Step s t)
    (hdirectory : t.hub.directory = s.hub.directory)
    (hvisits : ∀ (j : Session.Id) (w : Visit), t.visits[j]? = some w →
      w.Attends ∧ ∀ hostId, w.Knows hostId →
        ∃ v, s.visits[j]? = some v ∧ v.Knows hostId ∧ w.session.known = v.session.known) :
    t.Tracks exchanges where
  visits := (h.visits.step hstep).1
  service := hdirectory ▸ h.service
  attends := fun j w hw => (hvisits j w hw).1
  configured := h.configured_of_step hstep fun _ p hp => ⟨p, hdirectory ▸ hp⟩
  knows := fun j w hostId p fact hw hknows hp => by
    obtain ⟨v, hv, hv', hknown⟩ := (hvisits j w hw).2 hostId hknows
    rw [hknown]
    exact h.knows j v hostId p fact hv hv' (hdirectory ▸ hp)
  others := fun j hostId fact k value hover => by
    obtain ⟨hne, hk⟩ := h.others j hostId fact k value hover
    exact ⟨hne, h.admitted_of_step hstep hk⟩

/-- A step that leaves the sessions. -/
theorem of_visits (h : s.Tracks exchanges) (hstep : Step s t)
    (hdirectory : t.hub.directory = s.hub.directory) (hvisits : t.visits = s.visits) :
    t.Tracks exchanges :=
  h.of_quiet hstep hdirectory fun j w hw =>
    ⟨h.attends j w (hvisits ▸ hw), fun _ hknows => ⟨w, hvisits ▸ hw, hknows, rfl⟩⟩

/-- A step of one session that goes on without the directory. -/
theorem of_stays (h : s.Tracks exchanges) (hstep : Step s t)
    (hdirectory : t.hub.directory = s.hub.directory) (hv : s.visits[id]? = some v)
    (hvisits : t.visits = (s.setVisit id w).visits) (hstays : v.Stays w) :
    t.Tracks exchanges := by
  refine h.of_quiet hstep hdirectory fun j u hu => ?_
  rw [hvisits, getElem?_setVisit hv] at hu
  split at hu
  · next e =>
    subst e
    obtain rfl := Option.some.inj hu
    exact ⟨hstays.attends (h.attends id v hv),
      fun hostId hknows => ⟨v, hv, hstays.knows hostId hknows, hstays.known⟩⟩
  · exact ⟨h.attends j u hu, fun _ hknows => ⟨u, hu, hknows, rfl⟩⟩

/-- A session looks its host up. -/
theorem read (h : s.Tracks exchanges) (hstep : Step s t) {hostId : String}
    {version : Option String} (hv : s.visits[id]? = some v)
    (hwork : v.work = .remembering hostId version)
    (hvisits : t.visits = (s.setVisit id
      { v with session := v.session.remember s.hub hostId, work := .noting hostId version }).visits)
    (hdirectory : t.hub.directory = s.hub.directory) : t.Tracks (exchanges ++ [.read id]) := by
  have hstate : v.session.state = .authenticated hostId := by
    have hattends := h.attends id v hv
    rwa [Visit.Attends, hwork] at hattends
  have hlater : (v.session.remember s.hub hostId).state = .authenticated hostId :=
    (AgentSession.state_remember ..).trans hstate
  have hplaces := fun j : Session.Id => congrArg (fun visits => visits[j]?) hvisits
  simp only [getElem?_setVisit hv] at hplaces
  refine ⟨(h.visits.step hstep).1, hdirectory ▸ h.service, fun j w hw => ?_,
    h.configured_of_step hstep fun _ p hp => ⟨p, hdirectory ▸ hp⟩,
    fun j w k p fact hw hknows hp => ?_, h.others_of_step hstep fun _ _ _ _ he => by cases he⟩
  · rw [hplaces] at hw
    split at hw
    · obtain rfl := Option.some.inj hw
      exact hlater
    · exact h.attends j w hw
  · rw [hplaces] at hw
    rw [hdirectory] at hp
    rw [overwritten?_concat, overwrite]
    split at hw
    · next e =>
      obtain rfl := Option.some.inj hw
      obtain rfl : hostId = k := by simpa using hlater.symm.trans hknows.1
      rw [if_pos e, Option.map_none, Option.none_or]
      exact (AgentSession.known_remember h.service hp v.session fact).symm
    · next e =>
      rw [if_neg e]
      exact h.knows j w k p fact hw hknows hp

/-- A session tells the directory something. -/
theorem write (h : s.Tracks exchanges) (hstep : Step s t) {hostId value : String} {fact : Fact}
    (hv : s.visits[id]? = some v) (hknows : v.Knows hostId)
    (hvisits : t.visits = (s.setVisit id w).visits)
    (hsession : w.session = v.session.knowing fact value) (hattends : w.Attends)
    (hdirectory : t.hub.directory = s.hub.directory.update hostId fun p => p.learn fact value) :
    t.Tracks (exchanges ++ [.write id hostId fact value]) := by
  have hstate : w.session.state = .authenticated hostId := by
    rw [hsession, AgentSession.state_knowing, hknows.1]
  have hadmitted := (h.visits id v hv).2.admitted hostId hknows.1
  have hplaces := fun j : Session.Id => congrArg (fun visits => visits[j]?) hvisits
  simp only [getElem?_setVisit hv] at hplaces
  refine ⟨(h.visits.step hstep).1, ?_, fun j u hu => ?_,
    h.configured_of_step hstep fun k p hp => ?_, fun j u k q other hu hu' hq => ?_,
    h.others_of_step hstep fun _ _ _ _ he => ?_⟩
  · rw [hdirectory]
    exact (Directory.outages_update ..).trans h.service
  · rw [hplaces] at hu
    split at hu
    · exact Option.some.inj hu ▸ hattends
    · exact h.attends j u hu
  · rw [hdirectory, Directory.find?_update, hp]
    split <;> exact ⟨_, rfl⟩
  · obtain ⟨p, hp, hfact⟩ := Directory.fact_of_find?_update (hdirectory ▸ hq) other
    rw [hfact, overwritten?_concat, overwrite]
    rw [hplaces] at hu
    split at hu
    · -- the session knows what it has told
      next e =>
      obtain rfl := Option.some.inj hu
      obtain rfl : hostId = k := by simpa using hstate.symm.trans hu'.1
      rw [hsession, AgentSession.known_knowing]
      by_cases hsame : fact = other
      · simp [hsame, e]
      · simpa [hsame, e] using h.knows id v hostId p other hv hknows hp
    · -- for all others it was told over what they know
      next e =>
      by_cases hsame : hostId = k ∧ fact = other
      · simp [hsame, e]
      · simpa only [if_neg hsame] using h.knows j u k p other hu hu' hp
  · cases he
    exact ⟨v, hv, hadmitted⟩

/-- A session that has something to tell tells it, unless it knows that the directory holds it. -/
theorem tell (h : s.Tracks exchanges) {hostId : String} {fact : Fact} {value : Option String}
    (hv : s.visits[id]? = some v) (htelling : v.telling? = some (hostId, fact, value))
    (now : ClockTime) :
    (s.proceed id now).Tracks (exchanges ++ (v.exchange? id).toList) := by
  have hstep := s.step_proceed id now
  have hattends := Visit.attends_told h.service (h.attends id v hv) htelling
  have hknows := Visit.knows_of_telling (h.attends id v hv) htelling
  obtain ⟨hvisits, hhub⟩ := proceed_of_telling hv htelling now
  -- nothing is said if there is nothing to say, or nothing new
  have hsilent (hsame : v.session.tell? s.hub hostId fact value = (v.session, s.hub)) :
      (s.proceed id now).Tracks exchanges := by
    rw [hsame] at hattends hvisits hhub
    exact h.of_stays hstep (by rw [hhub]) hv hvisits
      (.of_session_eq rfl hknows.2 fun _ => hattends)
  rw [Visit.exchange?_of_telling htelling]
  cases value with
  | none => simpa using hsilent (AgentSession.tell?_none ..)
  | some value =>
    have htold := AgentSession.tell?_some h.service v.session hostId fact value
    rw [Option.bind_some]
    split
    · next hknown => simpa using hsilent (htold.trans (if_pos hknown))
    · next hknown =>
      rw [htold, if_neg hknown] at hattends hvisits hhub
      exact h.write hstep hv hknows hvisits rfl hattends (by rw [hhub])

theorem proceed (h : s.Tracks exchanges) (id : Session.Id) (now : ClockTime) :
    (s.proceed id now).Tracks (exchanges ++ (s.exchange? (.proceed id now)).toList) := by
  have hstep := s.step_proceed id now
  cases hv : s.visits[id]? with
  | none => simpa [System.proceed, exchange?, hv] using h
  | some v =>
    have hexchange : s.exchange? (.proceed id now) = v.exchange? id := by
      rw [exchange?, hv, Option.bind_some]
    rw [hexchange]
    cases htelling : v.telling? with
    | some told => exact h.tell hv htelling now
    | none =>
      by_cases hlooks : ∃ hostId version, v.work = .remembering hostId version
      · obtain ⟨hostId, version, hwork⟩ := hlooks
        have hlook : v.exchange? id = some (.read id) := by simp [Visit.exchange?, hwork]
        rw [hlook, Option.toList_some]
        refine h.read hstep hv hwork ?_ ?_ <;> simp [System.proceed, hv, hwork, setVisit]
      · have hlooked : ∀ hostId version, v.work ≠ .remembering hostId version :=
          fun hostId version hwork => hlooks ⟨hostId, version, hwork⟩
        obtain ⟨w, hstays, hvisits, hdirectory⟩ := stays_proceed hv htelling hlooked now
        rw [Visit.exchange?_eq_none htelling hlooked, Option.toList_none, List.append_nil]
        exact h.of_stays hstep hdirectory hv hvisits hstays

theorem connect (h : s.Tracks exchanges) (remoteIp : Option Net.IpAddress) :
    (s.connect remoteIp).Tracks exchanges := by
  refine h.of_quiet (.connect remoteIp) rfl fun j w hw => ?_
  have hvisits : (s.connect remoteIp).visits =
      s.visits ++ [{ session := { id := s.visits.length, remoteIp } }] := rfl
  rw [hvisits, List.getElem?_append] at hw
  split at hw
  · exact ⟨h.attends j w hw, fun _ hknows => ⟨w, hw, hknows, rfl⟩⟩
  · obtain ⟨-, rfl⟩ : _ ∧ ({ session := { id := s.visits.length, remoteIp } } : Visit) = w := by
      simpa [List.getElem?_singleton] using hw
    exact ⟨trivial, fun hostId hknows => by cases hknows.1⟩

theorem hear (h : s.Tracks exchanges) (id : Session.Id) (text : String) :
    (s.hear id text).Tracks exchanges := by
  unfold System.hear
  split
  · exact h
  · next v hv =>
    split
    · next hwork => exact h.of_stays (.hear hv hwork text) rfl hv rfl (.hear hwork text)
    · exact h

theorem close (h : s.Tracks exchanges) (id : Session.Id) : (s.close id).Tracks exchanges := by
  unfold System.close
  split
  · exact h
  · next v hv =>
    split
    · next hwork =>
      let w := { v with session := (v.session.close s.hub).1 }
      have hnot : ∀ hostId, ¬ w.Knows hostId := fun hostId hknows => by cases hknows.1
      have hattends : w.Attends := by
        rw [Visit.Attends, show w.work = .idle from hwork]
        trivial
      have hdirectory : (v.session.close s.hub).2.directory = s.hub.directory := by
        unfold AgentSession.close
        split <;> rfl
      exact h.of_stays (.close hv hwork) hdirectory hv rfl (.of_not_knows rfl hnot hattends)
    · exact h

/-- A step keeps what sessions know in agreement with the directory. -/
theorem step (h : s.Tracks exchanges) (a : Action) (hleaves : s.Leaves a) :
    (s.step a).Tracks (exchanges ++ (s.exchange? a).toList) := by
  have hstep := s.step_step a
  have hquiet (hexchange : s.exchange? a = none) (ht : (s.step a).Tracks exchanges) :
      (s.step a).Tracks (exchanges ++ (s.exchange? a).toList) := by
    rwa [hexchange, Option.toList_none, List.append_nil]
  cases a with
  | proceed id now => exact h.proceed id now
  | connect remoteIp => exact hquiet rfl (h.connect remoteIp)
  | hear id text => exact hquiet rfl (h.hear id text)
  | close id => exact hquiet rfl (h.close id)
  | lookUp hostId command =>
    refine hquiet rfl (h.of_visits hstep ?_ ?_) <;>
      (simp only [System.step, lookUp]; split <;> rfl)
  | send errand =>
    refine hquiet rfl (h.of_visits hstep ?_ ?_) <;>
      (simp only [System.step, send]; repeat' split) <;> rfl
  | dropSession id =>
    refine hquiet rfl (h.of_visits hstep ?_ ?_) <;>
      (simp only [System.step, dropSession]; repeat' split) <;> rfl
  | elsewhere directory dashboards seq => exact hquiet rfl (h.of_visits hstep hleaves rfl)
  | _ => exact hquiet rfl (h.of_visits hstep rfl rfl)

theorem run (h : s.Tracks exchanges) (actions : List Action)
    (hundisturbed : s.Undisturbed actions) :
    (s.run actions).Tracks (exchanges ++ s.exchanges actions) := by
  induction actions generalizing s exchanges with
  | nil => simpa [System.exchanges] using h
  | cons a actions ih =>
    have hlater := ih (h.step a hundisturbed.1) hundisturbed.2
    rwa [List.append_assoc] at hlater

theorem start (settings : Settings) {directory : Directory} (hservice : directory.outages = [])
    (keeper : History.Keeper) : (start settings directory keeper).Tracks [] where
  visits := soundVisits_start settings directory keeper
  service := hservice
  attends := fun id v hv => by simp [System.start] at hv
  configured := fun id v hostId hv => by simp [System.start] at hv
  knows := fun id v hostId p fact hv => by simp [System.start] at hv
  others := fun id hostId fact j value hover => by cases hover

/-- The directory answers with the profile of a host that a session knows. -/
theorem profile_of_knows (h : s.Tracks exchanges) {hostId : String} (hv : s.visits[id]? = some v)
    (hknows : v.Knows hostId) :
    ∃ p, s.hub.directory.profile hostId = .ok (some p) ∧ ∀ fact,
      p.fact fact =
        ((overwritten? id hostId fact exchanges).map Prod.snd).or (v.session.known fact) := by
  obtain ⟨p, hp⟩ := h.configured id v hostId hv ((h.visits id v hv).2.admitted hostId hknows.1)
  refine ⟨p, ?_, fun fact => h.knows id v hostId p fact hv hknows hp⟩
  exact (Directory.answer_eq_ok_iff ..).mpr ⟨by simp [h.service], hp⟩

/-- The last step of a frame: the session knows the version and address that it has told. -/
theorem knows_of_locating (h : s.Tracks exchanges) {hostId : String} {reading : Snapshot}
    (hv : s.visits[id]? = some v) (hwork : v.work = .locating hostId reading) (now : ClockTime) :
    ∃ w version, (s.proceed id now).visits[id]? = some w ∧ w.Knows hostId ∧
      v.Reports reading version ∧
      (∀ value, version = some value → w.session.known .version = some value) ∧
      ∀ ip, v.session.observedIp reading = some ip → w.session.known .ip = some ip := by
  have hattends := h.attends id v hv
  rw [Visit.Attends, hwork] at hattends
  obtain ⟨hstate, version, hreports, hversion⟩ := hattends
  have htelling : v.telling? = some (hostId, .ip, v.session.observedIp reading) := by
    rw [Visit.telling?, hwork]
  obtain ⟨hvisits, -⟩ := proceed_of_telling hv htelling now
  let told := v.session.tell? s.hub hostId .ip (v.session.observedIp reading)
  have hplace : (s.proceed id now).visits[id]? =
      some { v with session := told.1, work := v.work.told } := by
    rw [hvisits, getElem?_setVisit hv, if_pos rfl]
  have hlater : told.1.state = .authenticated hostId :=
    (AgentSession.state_tell? ..).trans hstate
  refine ⟨_, version, hplace, ⟨hlater, by simp [hwork, Work.told]⟩, hreports, ?_, fun ip hip => ?_⟩
  · intro value hvalue
    rw [← hversion value hvalue]
    exact AgentSession.known_tell?_of_ne h.service _ _ _ (by simp)
  · simp only [told, hip]
    exact AgentSession.known_tell?_some h.service ..

end Tracks

theorem undisturbed_append (s : System) (before after : List Action) :
    s.Undisturbed (before ++ after) ↔ s.Undisturbed before ∧ (s.run before).Undisturbed after := by
  induction before generalizing s with
  | nil => simp [Undisturbed]
  | cons a before ih => simp [Undisturbed, ih, and_assoc]

/-- A value is what it was last overwritten with, if it was. -/
theorem overwritten_or_eq_iff (newer : Option (Session.Id × String)) (value : String) :
    (newer.map Prod.snd).or (some value) = some value ↔ ∀ o ∈ newer, o.2 = value := by
  cases newer <;> simp

/-- In every run in which sessions alone change a directory that is in service, the directory
answers for every session with the profile of its host, and this holds what the session knows,
unless another session that was admitted as the host has told something else since. After the last
step of an accepted frame it therefore has the address observed for it and the version that it
carries exactly when nothing else has been told over these by another session since this one knew
them. -/
theorem directory_follows_iff (settings : Settings) (directory : Directory)
    (keeper : History.Keeper) (hservice : directory.outages = []) (actions : List Action)
    (hundisturbed : (start settings directory keeper).Undisturbed actions) :
    let start := start settings directory keeper
    let s := start.run actions
    let newer := fun id hostId fact => overwritten? id hostId fact (start.exchanges actions)
    (∀ (id : Session.Id) (v : Visit) (hostId : String), s.visits[id]? = some v →
      v.Knows hostId →
      ∃ p, s.hub.directory.profile hostId = .ok (some p) ∧
        ∀ fact, p.fact fact = ((newer id hostId fact).map Prod.snd).or (v.session.known fact)) ∧
    (∀ id hostId fact j value, newer id hostId fact = some (j, value) →
      j ≠ id ∧ ∃ w, s.visits[j]? = some w ∧ w.AdmittedAs hostId) ∧
    ∀ before id now hostId reading v, actions = before ++ [.proceed id now] →
      (start.run before).visits[id]? = some v → v.work = .locating hostId reading →
      v.session.state = .authenticated hostId ∧
      ∃ p version, s.hub.directory.profile hostId = .ok (some p) ∧ v.Reports reading version ∧
        (∀ ip, v.session.observedIp reading = some ip →
          (p.ip = some ip ↔ ∀ o ∈ newer id hostId .ip, o.2 = ip)) ∧
        ∀ value, version = some value →
          (p.version = some value ↔ ∀ o ∈ newer id hostId .version, o.2 = value) := by
  intro start s newer
  have hstart := Tracks.start settings hservice keeper
  have h : s.Tracks (start.exchanges actions) := hstart.run actions hundisturbed
  refine ⟨fun id v hostId hv hknows => h.profile_of_knows hv hknows, h.others, ?_⟩
  intro before id now hostId reading v hactions hv hwork
  have hbefore := hstart.run before ((undisturbed_append ..).mp (hactions ▸ hundisturbed)).1
  have hlast : s = (start.run before).proceed id now := by
    simp only [s, hactions, run_append]
    rfl
  obtain ⟨w, version, hw, hknows, hreports, hversion, hip⟩ :=
    hbefore.knows_of_locating hv hwork now
  obtain ⟨p, hp, hfacts⟩ := h.profile_of_knows (hlast ▸ hw) hknows
  have hstate := hbefore.attends id v hv
  rw [Visit.Attends, hwork] at hstate
  refine ⟨hstate.1, p, version, hp, hreports, fun ip hobserved => ?_, fun value hcarried => ?_⟩
  · have hfact := hfacts .ip
    rw [hip ip hobserved] at hfact
    exact (iff_of_eq (congrArg (· = some ip) hfact)).trans (overwritten_or_eq_iff ..)
  · have hfact := hfacts .version
    rw [hversion value hcarried] at hfact
    exact (iff_of_eq (congrArg (· = some value) hfact)).trans (overwritten_or_eq_iff ..)

/-- A reading with the version of the agent. -/
def report (version : String) : String :=
  Message.FromAgent.schema.encode (.metrics (.ofUsage 10) none (some version) none)

theorem decode_report (version : String) :
    Message.FromAgent.schema.decode (report version) =
      .ok (.metrics (.ofUsage 10) none (some version) none) :=
  (Message.FromAgent.decode_encode_metrics_iff ..).mpr
    ⟨fun hleap => absurd hleap (by decide), by decide +kernel⟩

/-- A session of the server that has heard a report. -/
def reporting (v : Visit) (version : String) : Visit :=
  { v with
    work := .recording "a" (.ofUsage 10) (some version)
    heard := v.heard ++ [report version]
    accepted := v.accepted ++ [("a", .ofUsage 10)] }

/-- A session of the server takes some steps of a report. -/
def reported (s : System) (id : Session.Id) (version : String) (steps : Nat) : System :=
  match s.visits[id]? with
  | some v =>
    (s.setVisit id (reporting v version)).run (List.replicate steps (.proceed id .epoch))
  | none => s

/-- The frame of a report and some of its steps. -/
def reportSteps (id : Session.Id) (version : String) (steps : Nat) : List Action :=
  .hear id (report version) :: List.replicate steps (.proceed id .epoch)

theorem run_reportSteps {s : System} {id : Session.Id}
    (hv : ∃ v, s.visits[id]? = some v ∧ v.work = .idle ∧ v.session.state = .authenticated "a")
    (version : String) (steps : Nat) (rest : List Action) :
    s.run (reportSteps id version steps ++ rest) = (s.reported id version steps).run rest := by
  obtain ⟨v, hv, hwork, hstate⟩ := hv
  have haccepts : AgentSession.Accepts "a" none (.ofUsage 10) := ⟨by simp, by decide, by decide⟩
  rw [reportSteps, List.cons_append, run_hear, run_append]
  simp only [hear, reported, hv, hwork]
  rw [Visit.hear_metrics hstate (decode_report version) haccepts]
  rfl

/-- One of two agents is admitted and reports its version, but for the last step. -/
def oneReport : List Action :=
  [.connect none, .connect none] ++ .hear 0 greeting :: (admission 0 ++ reportSteps 0 "2" 3)

theorem run_oneReport (rest : List Action) :
    (start .small oneServer none).run (oneReport ++ rest) =
      ((firstAdmitted none).reported 0 "2" 3).run rest := by
  have hactions : oneReport ++ rest = [.connect none, .connect none] ++ .hear 0 greeting ::
      (admission 0 ++ (reportSteps 0 "2" 3 ++ rest)) := by
    simp [oneReport]
  rw [hactions, run_firstAdmitted, run_reportSteps ⟨_, rfl, rfl, rfl⟩]

theorem undisturbed_oneReport :
    (start .small oneServer none).Undisturbed (oneReport ++ [.proceed 0 .epoch]) := by
  simp [oneReport, admission, reportSteps, List.replicate, Undisturbed, Leaves]

/-- The directory has the version that the only agent of the server reports. -/
theorem first_report_is_told :
    let s := (start .small oneServer none).run (oneReport ++ [.proceed 0 .epoch])
    oneServer.outages = [] ∧
    (start .small oneServer none).Undisturbed (oneReport ++ [.proceed 0 .epoch]) ∧
    ∃ p, s.hub.directory.profile "a" = .ok (some p) ∧ p.version = some "2" := by
  obtain ⟨-, hothers, hlast⟩ :=
    directory_follows_iff .small oneServer none rfl _ undisturbed_oneReport
  obtain ⟨v, hv, hwork, hheard⟩ :
      ∃ v, ((start .small oneServer none).run oneReport).visits[0]? = some v ∧
        v.work = .locating "a" (.ofUsage 10) ∧ v.heard = [greeting, report "2"] := by
    have hrun := run_oneReport []
    rw [List.append_nil] at hrun
    rw [hrun]
    exact ⟨_, rfl, rfl, rfl⟩
  have hnobody (k : String) (j : Session.Id) (hj : j ≠ 0) : ¬ ∃ w,
      ((start .small oneServer none).run (oneReport ++ [.proceed 0 .epoch])).visits[j]? = some w ∧
        w.AdmittedAs k := by
    rw [run_oneReport]
    rintro ⟨w, hw, token, -, hanswer⟩
    match j with
    | 0 => exact hj rfl
    | 1 =>
      obtain rfl : ({ session := { id := 1 } } : Visit) = w := Option.some.inj hw
      cases hanswer
    | j + 2 => cases hw
  obtain ⟨-, p, version, hp, ⟨text, claimed, given, token, htext, hdecode, hgiven⟩, -, hversion⟩ :=
    hlast oneReport 0 .epoch "a" _ v rfl hv hwork
  obtain rfl : report "2" = text := by simpa [hheard] using htext
  obtain ⟨rfl, rfl, rfl⟩ : none = claimed ∧ some "2" = given ∧ none = token := by
    simpa [decode_report] using hdecode
  refine ⟨rfl, undisturbed_oneReport, p, hp, (hversion "2" hgiven).mpr fun o ho => ?_⟩
  obtain ⟨hne, hj⟩ := hothers 0 "a" .version o.1 o.2 ho
  exact absurd hj (hnobody "a" o.1 hne)

/-- Both agents of a server are admitted and report their versions in turn, but for the last
step. -/
def threeReports : List Action :=
  [.connect none, .connect none] ++ .hear 0 greeting :: (admission 0 ++
    .hear 1 greeting :: (admission 1 ++
      (reportSteps 1 "2" 4 ++ (reportSteps 0 "1" 4 ++ reportSteps 1 "2" 3))))

/-- Both agents have been admitted. -/
def bothAdmitted : System := ((firstAdmitted none).setVisit 1 (greeted 1)).run (admission 1)

theorem run_threeReports (rest : List Action) :
    (start .small oneServer none).run (threeReports ++ rest) =
      (((bothAdmitted.reported 1 "2" 4).reported 0 "1" 4).reported 1 "2" 3).run rest := by
  have hactions : threeReports ++ rest = [.connect none, .connect none] ++ .hear 0 greeting ::
      (admission 0 ++ .hear 1 greeting :: (admission 1 ++
        (reportSteps 1 "2" 4 ++ (reportSteps 0 "1" 4 ++ (reportSteps 1 "2" 3 ++ rest))))) := by
    simp [threeReports]
  rw [hactions, run_twoAdmitted, run_append, ← bothAdmitted, run_reportSteps ⟨_, rfl, rfl, rfl⟩,
    run_reportSteps ⟨_, rfl, rfl, rfl⟩, run_reportSteps ⟨_, rfl, rfl, rfl⟩]

/-- The second agent reports its version again after the first one has reported another; the
directory keeps that of the first. -/
theorem repeated_report_is_not_told :
    (start .small oneServer none).Undisturbed (threeReports ++ [.proceed 1 .epoch]) ∧
    (∃ v, ((start .small oneServer none).run threeReports).visits[1]? = some v ∧
      v.session.state = .authenticated "a" ∧ v.work = .locating "a" (.ofUsage 10) ∧
      v.Reports (.ofUsage 10) (some "2")) ∧
    ∃ p, ((start .small oneServer none).run
        (threeReports ++ [.proceed 1 .epoch])).hub.directory.profile "a" = .ok (some p) ∧
      p.version = some "1" := by
  refine ⟨?_, ?_, ?_⟩
  · simp [threeReports, admission, reportSteps, List.replicate, Undisturbed, Leaves]
  · have hrun := run_threeReports []
    rw [List.append_nil] at hrun
    rw [hrun]
    exact ⟨_, rfl, rfl, rfl, report "2", none, some "2", none, rfl, decode_report "2", rfl⟩
  · rw [run_threeReports]
    exact ⟨_, rfl, rfl⟩

end System
end Sessions
end FleetWatch
