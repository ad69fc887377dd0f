import FleetWatch.Proofs.Session.Provenance

/-!
# What sessions tell the directory

A session looks up its host in the directory when it has been admitted, and tells the directory the
version and the address of its host. It remembers what it has told, so as not to tell it again.

## Main definitions

* `Fact`, `AgentSession.known`, `AgentSession.tell?`: what sessions tell the directory.
* `Exchange`, `System.exchanges`: what passes between sessions and directory in a run.
* `Session.overwritten?`: what another session has told since a session last had to do with that.
* `System.Undisturbed`: runs in which sessions alone change the directory.
* `Visit.Stays`: steps in which nothing passes between a session and the directory.
-/
namespace FleetWatch

/-- What agents tell about their hosts. -/
inductive Fact where
  | version
  | ip
deriving DecidableEq

/-- What a profile says. -/
def Profile.fact (p : Profile) : Fact → Option String
  | .version => p.version
  | .ip => p.ip

/-- A profile that says something else. -/
def Profile.learn (p : Profile) (fact : Fact) (value : String) : Profile :=
  match fact with
  | .version => { p with version := some value }
  | .ip => { p with ip := some value }

theorem Profile.fact_learn (p : Profile) (fact other : Fact) (value : String) :
    (p.learn fact value).fact other = if fact = other then some value else p.fact other := by
  cases fact <;> cases other <;> rfl

theorem Directory.outages_update (d : Directory) (hostId : String) (f : Profile → Profile) :
    (d.update hostId f).outages = d.outages := by
  unfold update
  split <;> rfl

/-- What a directory has of a host after it has been told something. -/
theorem Directory.fact_of_find?_update {d : Directory} {hostId k value : String} {fact : Fact}
    {q : Profile} (hq : (d.update hostId fun p => p.learn fact value).find? k = some q)
    (other : Fact) :
    ∃ p, d.find? k = some p ∧
      q.fact other = if hostId = k ∧ fact = other then some value else p.fact other := by
  rw [find?_update] at hq
  split at hq
  · next hsame =>
    obtain ⟨p, hp, rfl⟩ := Option.map_eq_some_iff.mp hq
    exact ⟨p, hp, by simp [Profile.fact_learn, hsame]⟩
  · next hsame => exact ⟨q, hq, by simp [hsame]⟩

namespace AgentSession

/-- What the directory is known to hold. -/
def known (s : AgentSession) : Fact → Option String
  | .version => s.knownVersion
  | .ip => s.knownIp

/-- The session knows what it has told. -/
def knowing (s : AgentSession) (fact : Fact) (value : String) : AgentSession :=
  match fact with
  | .version => { s with knownVersion := some value }
  | .ip => { s with knownIp := some value }

/-- Tells the directory something, if there is something to tell that it is not known to hold. -/
def tell? (s : AgentSession) (h : Hub) (hostId : String) (fact : Fact) (value : Option String) :
    AgentSession × Hub :=
  match fact with
  | .version => s.noteVersion? h hostId value
  | .ip => s.noteIp? h hostId value

@[simp] theorem state_knowing (s : AgentSession) (fact : Fact) (value : String) :
    (s.knowing fact value).state = s.state := by
  cases fact <;> rfl

theorem known_knowing (s : AgentSession) (fact other : Fact) (value : String) :
    (s.knowing fact value).known other = if fact = other then some value else s.known other := by
  cases fact <;> cases other <;> rfl

theorem tell?_none (s : AgentSession) (h : Hub) (hostId : String) (fact : Fact) :
    s.tell? h hostId fact none = (s, h) := by
  cases fact <;> rfl

/-- A directory in service is told whatever it is not known to hold. -/
theorem tell?_some {h : Hub} (hservice : h.directory.outages = []) (s : AgentSession)
    (hostId : String) (fact : Fact) (value : String) :
    s.tell? h hostId fact (some value) =
      if s.known fact = some value then (s, h)
      else (s.knowing fact value,
        { h with directory := h.directory.update hostId fun p => p.learn fact value }) := by
  cases fact with
  | version =>
    by_cases hknown : s.knownVersion = some value <;>
      simp [tell?, noteVersion?, noteVersion, known, knowing, Profile.learn,
        Directory.recordVersion, Directory.answer, hservice, hknown]
  | ip =>
    by_cases hknown : s.knownIp = some value <;>
      simp [tell?, noteIp?, noteIp, known, knowing, Profile.learn, Directory.recordIp,
        Directory.answer, hservice, hknown]

theorem state_tell? (s : AgentSession) (h : Hub) (hostId : String) (fact : Fact)
    (value : Option String) : (s.tell? h hostId fact value).1.state = s.state := by
  cases fact with
  | version => exact (Learns.noteVersion? s h hostId value).state
  | ip => exact (Learns.noteIp? s h hostId value).state

/-- What a session has told it knows. -/
theorem known_tell?_some {h : Hub} (hservice : h.directory.outages = []) (s : AgentSession)
    (hostId : String) (fact : Fact) (value : String) :
    (s.tell? h hostId fact (some value)).1.known fact = some value := by
  rw [tell?_some hservice]
  split
  · assumption
  · rw [known_knowing, if_pos rfl]

/-- What a session tells of one thing leaves what it knows of the others. -/
theorem known_tell?_of_ne {h : Hub} (hservice : h.directory.outages = []) (s : AgentSession)
    (hostId : String) (value : Option String) {fact other : Fact} (hne : fact ≠ other) :
    (s.tell? h hostId fact value).1.known other = s.known other := by
  cases value with
  | none => rw [tell?_none]
  | some value =>
    rw [tell?_some hservice]
    split
    · rfl
    · rw [known_knowing, if_neg hne]

/-- A session that looks its host up knows what the directory holds. -/
theorem known_remember {h : Hub} (hservice : h.directory.outages = []) {hostId : String}
    {p : Profile} (hp : h.directory.find? hostId = some p) (s : AgentSession) (fact : Fact) :
    (s.remember h hostId).known fact = p.fact fact := by
  cases fact <;>
    simp [remember, Directory.profile, Directory.answer, hservice, hp, known, Profile.fact]

end AgentSession

/-- What passes between a session and the directory. -/
inductive Exchange where
  | read (id : Session.Id)
  | write (id : Session.Id) (hostId : String) (fact : Fact) (value : String)

namespace Session

/-- What has been told over what a session knows of a host, and by which session. -/
def overwrite (id : Session.Id) (hostId : String) (fact : Fact)
    (last : Option (Session.Id × String)) : Exchange → Option (Session.Id × String)
  | .read reader => if reader = id then none else last
  | .write writer host told value =>
    if host = hostId ∧ told = fact then
      if writer = id then none else some (writer, value)
    else last

/-- What another session has told last since a session last looked its host up or told it itself. -/
def overwritten? (id : Session.Id) (hostId : String) (fact : Fact) (exchanges : List Exchange) :
    Option (Session.Id × String) :=
  exchanges.foldl (overwrite id hostId fact) none

theorem overwritten?_concat (id : Session.Id) (hostId : String) (fact : Fact)
    (exchanges : List Exchange) (e : Exchange) :
    overwritten? id hostId fact (exchanges ++ [e]) =
      overwrite id hostId fact (overwritten? id hostId fact exchanges) e := by
  simp [overwritten?]

/-- What has been told over the knowledge of a session is what another one tells now, or it had been
told over it already. -/
theorem of_overwrite {id j : Session.Id} {hostId value : String} {fact : Fact}
    {last : Option (Session.Id × String)} {e : Exchange}
    (h : overwrite id hostId fact last e = some (j, value)) :
    j ≠ id ∧ e = .write j hostId fact value ∨ last = some (j, value) := by
  cases e with
  | read reader =>
    rw [overwrite] at h
    split at h
    · cases h
    · exact .inr h
  | write writer host told written =>
    rw [overwrite] at h
    split at h
    · next hsame =>
      split at h
      · cases h
      · next hne =>
        obtain ⟨rfl, rfl⟩ := hsame
        cases h
        exact .inl ⟨hne, rfl⟩
    · exact .inr h

end Session

namespace Sessions

open Session (overwrite overwritten?)

/-- What a session is about to tell the directory, and of which host. -/
def Visit.telling? (v : Visit) : Option (String × Fact × Option String) :=
  match v.work with
  | .noting hostId version => some (hostId, .version, version)
  | .learning hostId _ version => some (hostId, .version, version)
  | .locating hostId reading => some (hostId, .ip, v.session.observedIp reading)
  | _ => none

/-- What is left to do after the directory has been told. -/
def Work.told : Work → Work
  | .noting .. => .gathering
  | .learning hostId reading _ => .locating hostId reading
  | .locating .. => .idle
  | work => work

/-- What passes between a session and the directory in its next step. -/
def Visit.exchange? (v : Visit) (id : Session.Id) : Option Exchange :=
  match v.work with
  | .remembering .. => some (.read id)
  | _ =>
    match v.telling? with
    | some (hostId, fact, some value) =>
      if v.session.known fact = some value then none else some (.write id hostId fact value)
    | _ => none

namespace System

/-- What passes between a session and the directory in a step. -/
def exchange? (s : System) : Action → Option Exchange
  | .proceed id _ => (s.visits[id]?).bind fun v => v.exchange? id
  | _ => none

/-- What passes between sessions and directory in a run. -/
def exchanges (s : System) : List Action → List Exchange
  | [] => []
  | a :: actions => (s.exchange? a).toList ++ (s.step a).exchanges actions

/-- A step leaves the directory to the sessions. -/
def Leaves (s : System) : Action → Prop
  | .elsewhere directory _ _ => directory = s.hub.directory
  | _ => True

/-- Nothing but the sessions changes the directory. -/
def Undisturbed (s : System) : List Action → Prop
  | [] => True
  | a :: actions => s.Leaves a ∧ (s.step a).Undisturbed actions

end System

/-! ## The frame that a session is at -/

/-- The session has last heard a reading with a version. -/
def Visit.Reports (v : Visit) (reading : Snapshot) (version : Option String) : Prop :=
  ∃ text claimed given token, v.heard.getLast? = some text ∧
    Message.FromAgent.schema.decode text = .ok (.metrics reading claimed given token) ∧
    version = given.or reading.version

/-- What a session has left to do is of its own host and of the frame that it heard last. -/
def Visit.Attends (v : Visit) : Prop :=
  match v.work with
  | .remembering hostId _ | .noting hostId _ => v.session.state = .authenticated hostId
  | .recording hostId reading version | .putting hostId reading version
  | .learning hostId reading version =>
    v.session.state = .authenticated hostId ∧ v.Reports reading version
  | .locating hostId reading =>
    v.session.state = .authenticated hostId ∧ ∃ version, v.Reports reading version ∧
      ∀ value, version = some value → v.session.known .version = some value
  | _ => True

/-- The session has a host and has looked it up. -/
def Visit.Knows (v : Visit) (hostId : String) : Prop :=
  v.session.state = .authenticated hostId ∧ ∀ host version, v.work ≠ .remembering host version

/-- A session that tells the directory something does so of the host that it knows. -/
theorem Visit.knows_of_telling {v : Visit} (h : v.Attends) {hostId : String} {fact : Fact}
    {value : Option String} (htelling : v.telling? = some (hostId, fact, value)) :
    v.Knows hostId := by
  unfold Visit.telling? at htelling
  unfold Visit.Attends at h
  split at htelling <;> simp_all [Visit.Knows]

theorem Visit.exchange?_of_telling {v : Visit} {hostId : String} {fact : Fact}
    {value : Option String} (htelling : v.telling? = some (hostId, fact, value))
    (id : Session.Id) :
    v.exchange? id = value.bind fun value =>
      if v.session.known fact = some value then none else some (.write id hostId fact value) := by
  have hlooks : ∀ k version, v.work ≠ .remembering k version := by
    rintro k version hwork
    simp [Visit.telling?, hwork] at htelling
  unfold Visit.exchange?
  split
  · next hwork => exact absurd hwork (hlooks _ _)
  · rw [htelling]
    cases value <;> rfl

theorem Visit.exchange?_eq_none {v : Visit} (htelling : v.telling? = none)
    (hlooked : ∀ hostId version, v.work ≠ .remembering hostId version) (id : Session.Id) :
    v.exchange? id = none := by
  unfold Visit.exchange?
  split
  · next hwork => exact absurd hwork (hlooked _ _)
  · rw [htelling]

/-- A session that has told what it had to attends to the rest of the frame. -/
theorem Visit.attends_told {v : Visit} {h : Hub} (hservice : h.directory.outages = [])
    (hattends : v.Attends) {hostId : String} {fact : Fact} {value : Option String}
    (htelling : v.telling? = some (hostId, fact, value)) :
    Visit.Attends
      { v with session := (v.session.tell? h hostId fact value).1, work := v.work.told } := by
  unfold Visit.telling? at htelling
  split at htelling
  · next hwork => simp [Visit.Attends, hwork, Work.told]
  · next k reading version hwork =>
    obtain ⟨rfl, rfl, rfl⟩ : k = hostId ∧ Fact.version = fact ∧ version = value := by
      simpa using htelling
    rw [Visit.Attends, hwork] at hattends
    obtain ⟨hstate, hreports⟩ := hattends
    rw [hwork]
    refine ⟨(AgentSession.state_tell? ..).trans hstate, version, hreports, ?_⟩
    rintro x rfl
    exact AgentSession.known_tell?_some hservice ..
  · next hwork => simp [Visit.Attends, hwork, Work.told]
  · cases htelling

/-- A session that goes on without the directory: it has looked its host up before if it has so
afterwards, and it knows the same. -/
structure Visit.Stays (v w : Visit) : Prop where
  known : w.session.known = v.session.known
  knows : ∀ hostId, w.Knows hostId → v.Knows hostId
  attends : v.Attends → w.Attends

/-- The reading that a session starts to record is what the text reports. -/
theorem reports_of_plan {s : AgentSession} {text hostId : String} {reading : Snapshot}
    {version : Option String} (hplan : plan s text = .recording hostId reading version) :
    s.state = .authenticated hostId ∧ ∃ claimed given token,
      Message.FromAgent.schema.decode text = .ok (.metrics reading claimed given token) ∧
      version = given.or reading.version := by
  unfold plan at hplan
  split at hplan
  · cases hplan
  · split at hplan
    · cases hplan
    · split at hplan <;> cases hplan
    · next r claimed given token hdecode =>
      cases hstate : s.state with
      | authenticated k =>
        simp only [AgentSession.hostId?, hstate] at hplan
        split at hplan
        · cases hplan
        · cases hplan
          exact ⟨rfl, claimed, given, token, hdecode, rfl⟩
      | _ => simp [AgentSession.hostId?, hstate] at hplan

namespace Visit.Stays

/-- A session that has looked its host up, and goes on as it is. -/
theorem of_session_eq {v w : Visit} (hsession : w.session = v.session)
    (hlooked : ∀ hostId version, v.work ≠ .remembering hostId version)
    (hattends : v.Attends → w.Attends) : v.Stays w :=
  ⟨by rw [hsession], fun _ h => ⟨hsession ▸ h.1, hlooked⟩, hattends⟩

/-- A session that has no host, or has still to look it up. -/
theorem of_not_knows {v w : Visit} (hknown : w.session.known = v.session.known)
    (hnot : ∀ hostId, ¬ w.Knows hostId) (hattends : w.Attends) : v.Stays w :=
  ⟨hknown, fun hostId h => absurd h (hnot hostId), fun _ => hattends⟩

theorem hear {v : Visit} (hwork : v.work = .idle) (text : String) : v.Stays (v.hear text) where
  known := rfl
  knows := fun hostId h => ⟨h.1, by simp [hwork]⟩
  attends := fun _ => by
    have hwork : (v.hear text).work = plan v.session text := rfl
    rcases plan_cases v.session text with
      ⟨-, _, _, _, -, hplan⟩ | ⟨-, hplan⟩ | ⟨_, _, _, _, _, _, -, -, -, hplan⟩
    · simp [Attends, hwork, hplan]
    · simp [Attends, hwork, hplan]
    · obtain ⟨hstate, claimed, given, token, hdecode, hversion⟩ := reports_of_plan hplan
      simp only [Attends, hwork, hplan]
      exact ⟨hstate, text, claimed, given, token, by simp [Visit.hear], hdecode, hversion⟩

end Visit.Stays

namespace System

/-- A session tells what it has to tell, and goes on to the next. -/
theorem proceed_of_telling {s : System} {id : Session.Id} {v : Visit}
    (hv : s.visits[id]? = some v) {hostId : String} {fact : Fact} {value : Option String}
    (htelling : v.telling? = some (hostId, fact, value)) (now : ClockTime) :
    let told := v.session.tell? s.hub hostId fact value
    (s.proceed id now).visits =
        (s.setVisit id { v with session := told.1, work := v.work.told }).visits ∧
      (s.proceed id now).hub = told.2 := by
  unfold Visit.telling? at htelling
  split at htelling
  · next hwork =>
    cases htelling
    simp [proceed, hv, hwork, AgentSession.tell?, Work.told, setVisit]
  · next hwork =>
    cases htelling
    simp [proceed, hv, hwork, AgentSession.tell?, Work.told, setVisit]
  · next hwork =>
    cases htelling
    simp [proceed, hv, hwork, AgentSession.tell?, Work.told, setVisit]
  · cases htelling

/-- A session that has nothing to ask or tell goes on without the directory. -/
theorem stays_proceed {s : System} {id : Session.Id} {v : Visit} (hv : s.visits[id]? = some v)
    (htelling : v.telling? = none)
    (hlooked : ∀ hostId version, v.work ≠ .remembering hostId version) (now : ClockTime) :
    ∃ w, v.Stays w ∧ (s.proceed id now).visits = (s.setVisit id w).visits ∧
      (s.proceed id now).hub.directory = s.hub.directory := by
  have hsame (w : Visit) (hsession : w.session = v.session) (hattends : v.Attends → w.Attends) :
      v.Stays w := .of_session_eq hsession hlooked hattends
  cases hwork : v.work with
  | idle =>
    have hset : (s.setVisit id v).visits = s.visits := by
      refine List.ext_getElem? fun j => ?_
      rw [getElem?_setVisit hv]
      split
      · next e => rw [← e, hv]
      · rfl
    have hstill : s.proceed id now = s := by simp [proceed, hv, hwork]
    rw [hstill]
    exact ⟨v, hsame v rfl fun h => h, hset.symm, rfl⟩
  | checking hostId token version =>
    cases hcheck : AgentSession.checkToken s.hub.directory hostId token with
    | ok u =>
      let w := { v with
        work := .entering hostId version
        answer := some (s.hub.directory.resolveToken hostId) }
      refine ⟨w, hsame w rfl fun _ => trivial, ?_, ?_⟩ <;>
        simp [proceed, hv, hwork, hcheck, setVisit, w]
    | error e =>
      let w := { v with
        session := { v.session with state := .closed }
        work := .idle
        answer := some (s.hub.directory.resolveToken hostId) }
      have hnot : ∀ k, ¬ w.Knows k := fun k h => by cases h.1
      refine ⟨w, .of_not_knows rfl hnot trivial, ?_, ?_⟩ <;>
        simp [proceed, hv, hwork, hcheck, setVisit, w]
  | entering hostId version =>
    let w := { v with
      session := { v.session with state := .authenticated hostId }
      work := .remembering hostId version }
    have hnot : ∀ k, ¬ w.Knows k := fun k h => h.2 hostId version rfl
    refine ⟨w, .of_not_knows rfl hnot rfl, ?_, ?_⟩ <;>
      simp [proceed, hv, hwork, AgentSession.enter, setVisit, w]
  | remembering hostId version => exact absurd hwork (hlooked hostId version)
  | gathering =>
    let w := { v with work := .idle }
    refine ⟨w, hsame w rfl fun _ => trivial, ?_, ?_⟩ <;> simp [proceed, hv, hwork, setVisit, w]
  | recording hostId reading version =>
    let w := { v with work := .putting hostId reading version }
    have hattends : v.Attends → w.Attends := by
      rw [Visit.Attends, hwork]
      exact fun h => h
    refine ⟨w, hsame w rfl hattends, ?_, ?_⟩ <;>
      simp [proceed, hv, hwork, setVisit, w, Hub.record]
  | putting hostId reading version =>
    let w := { v with work := .learning hostId reading version }
    have hattends : v.Attends → w.Attends := by
      rw [Visit.Attends, hwork]
      exact fun h => h
    refine ⟨w, hsame w rfl hattends, ?_, ?_⟩ <;> simp [proceed, hv, hwork, setVisit, w]
  | _ => simp [Visit.telling?, hwork] at htelling

end System
end Sessions
end FleetWatch
