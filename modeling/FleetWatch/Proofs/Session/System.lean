import FleetWatch.Proofs.History.Readable
import FleetWatch.Proofs.Session.Commands
import FleetWatch.Proofs.Session.Frames

/-!
# Sessions and operators interleaved

Any number of agent sessions on one hub, each with its own frames and its own end, and operators who
send commands. A frame that is not refused at once is several steps of its session, one for each
thing that is asked of the hub or told to it, and the other sessions, the operators and the rest of
the hub go on between them. A session takes a frame, or ends, when it has nothing left to do.

## Main definitions

* `Work`: what is left to do of a frame; `plan`: what there is to do of one that arrives.
* `Visit`: a session with what it was told and how that went.
* `Errand`: a command on its way from an operator.
* `System`, `Action`, `System.step`, `System.run`.
* `System.Step`: what a step can do.
-/
namespace FleetWatch.Sessions

open Queue

/-- A time that a clock shows; no clock shows leap seconds. -/
abbrev ClockTime := {t : Time.Instant // t.isLeap = false}

def ClockTime.epoch : ClockTime := ⟨.epoch, rfl⟩

/-- What is left to do of a frame: the steps of an authentication, and those of the arrival of a
reading. -/
inductive Work where
  | idle
  | checking (hostId token : String) (version : Option String)
  | entering (hostId : String) (version : Option String)
  | remembering (hostId : String) (version : Option String)
  | noting (hostId : String) (version : Option String)
  | gathering
  | recording (hostId : String) (reading : Snapshot) (version : Option String)
  | putting (hostId : String) (reading : Snapshot) (version : Option String)
  | learning (hostId : String) (reading : Snapshot) (version : Option String)
  | locating (hostId : String) (reading : Snapshot)

/-- The reading that has just been accepted. -/
def Work.accepted? : Work → Option (String × Snapshot)
  | recording hostId reading _ => some (hostId, reading)
  | _ => none

/-- What there is to do of a frame. -/
def plan (s : AgentSession) (text : String) : Work :=
  if s.state = .closed then .idle
  else match Message.FromAgent.schema.decode text with
    | .error _ => .idle
    | .ok (.auth hostId token version) =>
      if s.state = .connected then .checking hostId token version else .idle
    | .ok (.metrics reading claimed version _) =>
      match s.hostId? with
      | none => .idle
      | some hostId =>
        match AgentSession.refusal? hostId claimed reading with
        | some _ => .idle
        | none => .recording hostId reading (version.or reading.version)

/-- A session with the texts that it has heard, what the directory answered when it was asked for
the token, and the readings that were accepted, with their hosts. -/
structure Visit where
  session : AgentSession
  work : Work := .idle
  heard : List String := []
  answer : Option (Except HubError (Option String)) := none
  accepted : List (String × Snapshot) := []

/-- The host and token of an authentication. -/
def presented? (text : String) : Option (String × String) :=
  match Message.FromAgent.schema.decode text with
  | .ok (.auth hostId token _) => some (hostId, token)
  | _ => none

namespace Visit

/-- The host and token of the first authentication that the session has heard. -/
def presented? (v : Visit) : Option (String × String) := v.heard.findSome? Sessions.presented?

/-- A text frame arrives. -/
def hear (v : Visit) (text : String) : Visit :=
  let work := plan v.session text
  { v with work, heard := v.heard ++ [text], accepted := v.accepted ++ work.accepted?.toList }

def IsClosed (v : Visit) : Prop := v.session.state = .closed

instance (v : Visit) : Decidable v.IsClosed := inferInstanceAs (Decidable (_ = _))

end Visit

/-- A command on its way: the session whose queue the operator has got hold of, if there was one,
and the answer once there is one. -/
structure Errand where
  command : Command
  target : Option Session.Id
  answer : Option Bool := none

/-- A reading that was put into the live state. -/
structure Put where
  id : Session.Id
  hostId : String
  snapshot : Snapshot
  time : ClockTime

/-- The hub with its sessions, by their numbers, and the errands of its operators. Also, newest
first, which session was routed for which host and what was put into the live state, and all
readings of the hub's own machine. -/
structure System where
  hub : Hub
  visits : List Visit := []
  errands : List Errand := []
  entered : List (String × Session.Id) := []
  puts : List Put := []
  own : List (String × Snapshot) := []

inductive Action where
  | connect (remoteIp : Option Net.IpAddress)
  | hear (id : Session.Id) (text : String)
  | proceed (id : Session.Id) (now : ClockTime)
  | close (id : Session.Id)
  | lookUp (hostId : String) (command : Command)
  | send (errand : Nat)
  /-- The writer of a session takes a command. -/
  | receive (id : Session.Id)
  /-- The writer of a session ends. -/
  | dropReceiver (id : Session.Id)
  /-- A session that was closed is gone. -/
  | dropSession (id : Session.Id)
  | own (hostId : String) (reading : Snapshot) (now : ClockTime)
  | recorder (task : History.Recorder.Task)
  /-- Anything else that changes directory, dashboards and numbering. -/
  | elsewhere (directory : Directory) (dashboards : Dashboard.Registry Message.ToDashboard)
      (seq : Nat)

namespace System

def start (settings : Settings) (directory : Directory) (keeper : History.Keeper) : System where
  hub := { settings, directory, keeper }

def connect (s : System) (remoteIp : Option Net.IpAddress) : System :=
  let (session, hub) := AgentSession.start s.hub s.visits.length remoteIp
  { s with hub, visits := s.visits ++ [{ session }] }

def setVisit (s : System) (id : Session.Id) (v : Visit) : System :=
  { s with visits := s.visits.set id v }

def hear (s : System) (id : Session.Id) (text : String) : System :=
  match s.visits[id]? with
  | none => s
  | some v =>
    match v.work with
    | .idle => s.setVisit id (v.hear text)
    | _ => s

/-- The next step of a session. -/
def proceed (s : System) (id : Session.Id) (now : ClockTime) : System :=
  match s.visits[id]? with
  | none => s
  | some v =>
    match v.work with
    | .idle => s
    | .checking hostId token version =>
      let answer := some (s.hub.directory.resolveToken hostId)
      match AgentSession.checkToken s.hub.directory hostId token with
      | .ok () => s.setVisit id { v with work := .entering hostId version, answer }
      | .error _ =>
        s.setVisit id
          { v with session := { v.session with state := .closed }, work := .idle, answer }
    | .entering hostId version =>
      let (session, hub) := v.session.enter s.hub hostId
      { s.setVisit id { v with session, work := .remembering hostId version } with
        hub, entered := (hostId, id) :: s.entered }
    | .remembering hostId version =>
      s.setVisit id
        { v with session := v.session.remember s.hub hostId, work := .noting hostId version }
    | .noting hostId version =>
      let (session, hub) := v.session.noteVersion? s.hub hostId version
      { s.setVisit id { v with session, work := .gathering } with hub }
    | .gathering => s.setVisit id { v with work := .idle }
    | .recording hostId reading version =>
      { s.setVisit id { v with work := .putting hostId reading version } with
        hub := (s.hub.record hostId reading now.1).2 }
    | .putting hostId reading version =>
      { s.setVisit id { v with work := .learning hostId reading version } with
        hub := { s.hub with live := s.hub.live.put hostId reading now.1 }
        puts := ⟨id, hostId, reading, now⟩ :: s.puts }
    | .learning hostId reading version =>
      let (session, hub) := v.session.noteVersion? s.hub hostId version
      { s.setVisit id { v with session, work := .locating hostId reading } with hub }
    | .locating hostId reading =>
      let (session, hub) := v.session.noteIp? s.hub hostId (v.session.observedIp reading)
      { s.setVisit id { v with session, work := .idle } with hub }

def close (s : System) (id : Session.Id) : System :=
  match s.visits[id]? with
  | none => s
  | some v =>
    match v.work with
    | .idle =>
      let (session, hub) := v.session.close s.hub
      { s.setVisit id { v with session } with hub }
    | _ => s

def updateQueue (s : System) (id : Session.Id) (f : RingBuffer Command → RingBuffer Command) :
    System :=
  { s with hub := { s.hub with agents := s.hub.agents.updateQueue id f } }

/-- An operator gets hold of the queue of the session that a host is routed to. -/
def lookUp (s : System) (hostId : String) (command : Command) : System :=
  match s.hub.agents.route? hostId with
  | some id =>
    { s.updateQueue id RingBuffer.cloneSender with
      errands := s.errands ++ [⟨command, some id, none⟩] }
  | none => { s with errands := s.errands ++ [⟨command, none, some false⟩] }

/-- An operator sends a command to the queue that it has got hold of, and lets go of that. -/
def send (s : System) (errand : Nat) : System :=
  match s.errands[errand]? with
  | some ⟨command, some id, none⟩ =>
    match s.hub.agents.queues[id]? with
    | some q =>
      { s.updateQueue id fun q => (q.send command).2.dropSender with
        errands := s.errands.set errand ⟨command, some id, some (q.send command).1⟩ }
    | none => s
  | _ => s

def dropSession (s : System) (id : Session.Id) : System :=
  match s.visits[id]? with
  | some v => if v.IsClosed then s.updateQueue id RingBuffer.dropSender else s
  | none => s

def step (s : System) : Action → System
  | .connect remoteIp => s.connect remoteIp
  | .hear id text => s.hear id text
  | .proceed id now => s.proceed id now
  | .close id => s.close id
  | .lookUp hostId command => s.lookUp hostId command
  | .send errand => s.send errand
  | .receive id => { s with hub := { s.hub with agents := (s.hub.agents.receive id).2 } }
  | .dropReceiver id => s.updateQueue id RingBuffer.dropReceiver
  | .dropSession id => s.dropSession id
  | .own hostId reading now =>
    { s with hub := s.hub.putLocalReading hostId reading now.1, own := (hostId, reading) :: s.own }
  | .recorder task =>
    { s with hub := { s.hub with keeper := s.hub.keeper.map fun r => r.perform task } }
  | .elsewhere directory dashboards seq =>
    { s with hub := { s.hub with directory, dashboards, seq } }

def run (s : System) (actions : List Action) : System := actions.foldl step s

@[simp] theorem run_nil (s : System) : s.run [] = s := rfl

@[simp] theorem run_cons (s : System) (a : Action) (actions : List Action) :
    s.run (a :: actions) = (s.step a).run actions := rfl

theorem run_hear (s : System) (id : Session.Id) (text : String) (actions : List Action) :
    s.run (.hear id text :: actions) = (s.hear id text).run actions := rfl

theorem run_append (s : System) (before after : List Action) :
    s.run (before ++ after) = (s.run before).run after := List.foldl_append

end System

/-! ## What a step can do -/

/-- A session learns something of the directory, or has nothing left to do; all else about it is as
before. -/
structure Visit.Learns (v w : Visit) : Prop where
  id : w.session.id = v.session.id
  state : w.session.state = v.session.state
  heard : w.heard = v.heard
  answer : w.answer = v.answer
  accepted : w.accepted = v.accepted
  before : (∃ hostId version, v.work = .remembering hostId version) ∨
    (∃ hostId version, v.work = .noting hostId version) ∨ v.work = .gathering ∨
    (∃ hostId reading version, v.work = .learning hostId reading version) ∨
    ∃ hostId reading, v.work = .locating hostId reading
  after : (∃ hostId version, w.work = .noting hostId version) ∨ w.work = .gathering ∨
    (∃ hostId reading, w.work = .locating hostId reading) ∨ w.work = .idle

inductive System.Step (s : System) : System → Prop where
  | stay : Step s s
  | connect (remoteIp : Option Net.IpAddress) : Step s (s.connect remoteIp)
  | hear {id : Session.Id} {v : Visit} (hv : s.visits[id]? = some v) (hwork : v.work = .idle)
      (text : String) : Step s (s.setVisit id (v.hear text))
  | grant {id : Session.Id} {v : Visit} {hostId token : String} {version : Option String}
      (hv : s.visits[id]? = some v) (hwork : v.work = .checking hostId token version)
      (htoken : s.hub.directory.resolveToken hostId = .ok (some token)) :
      Step s
        (s.setVisit id
          { v with work := .entering hostId version, answer := some (.ok (some token)) })
  | reject {id : Session.Id} {v : Visit} {hostId token : String} {version : Option String}
      (hv : s.visits[id]? = some v) (hwork : v.work = .checking hostId token version) :
      Step s
        (s.setVisit id
          { v with
            session := { v.session with state := .closed }
            work := .idle
            answer := some (s.hub.directory.resolveToken hostId) })
  | enter {id : Session.Id} {v : Visit} {hostId : String} {version : Option String}
      (hv : s.visits[id]? = some v) (hwork : v.work = .entering hostId version) :
      Step s
        { s.setVisit id
            { v with
              session := { v.session with state := .authenticated hostId }
              work := .remembering hostId version } with
          hub := { s.hub with agents := s.hub.agents.register hostId v.session.id }
          entered := (hostId, id) :: s.entered }
  | learn {id : Session.Id} {v w : Visit} (hv : s.visits[id]? = some v) (hw : v.Learns w)
      (directory : Directory) :
      Step s { s.setVisit id w with hub := { s.hub with directory } }
  | record {id : Session.Id} {v : Visit} {hostId : String} {reading : Snapshot}
      {version : Option String} (hv : s.visits[id]? = some v)
      (hwork : v.work = .recording hostId reading version) (now : ClockTime) :
      Step s
        { s.setVisit id { v with work := .putting hostId reading version } with
          hub := (s.hub.record hostId reading now.1).2 }
  | put {id : Session.Id} {v : Visit} {hostId : String} {reading : Snapshot}
      {version : Option String} (hv : s.visits[id]? = some v)
      (hwork : v.work = .putting hostId reading version) (now : ClockTime) :
      Step s
        { s.setVisit id { v with work := .learning hostId reading version } with
          hub := { s.hub with live := s.hub.live.put hostId reading now.1 }
          puts := ⟨id, hostId, reading, now⟩ :: s.puts }
  | close {id : Session.Id} {v : Visit} (hv : s.visits[id]? = some v) (hwork : v.work = .idle) :
      Step s
        { s.setVisit id { v with session := (v.session.close s.hub).1 } with
          hub := (v.session.close s.hub).2 }
  | queue (id : Session.Id) {f : RingBuffer Command → RingBuffer Command}
      (hf : ∀ q, q.Valid → (f q).Valid) {errands : List Errand}
      (herrands : ∀ e ∈ errands, ∀ target, e.target = some target →
        (∃ d ∈ s.errands, d.target = some target) ∨
          ∃ hostId, s.hub.agents.route? hostId = some target) :
      Step s { s.updateQueue id f with errands }
  | refuseErrand (command : Command) :
      Step s { s with errands := s.errands ++ [⟨command, none, some false⟩] }
  | own (hostId : String) (reading : Snapshot) (now : ClockTime) :
      Step s
        { s with
          hub := s.hub.putLocalReading hostId reading now.1
          own := (hostId, reading) :: s.own }
  | recorder (task : History.Recorder.Task) :
      Step s { s with hub := { s.hub with keeper := s.hub.keeper.map fun r => r.perform task } }
  | elsewhere (directory : Directory) (dashboards : Dashboard.Registry Message.ToDashboard)
      (seq : Nat) : Step s { s with hub := { s.hub with directory, dashboards, seq } }

namespace System

theorem step_hear (s : System) (id : Session.Id) (text : String) : Step s (s.hear id text) := by
  unfold hear
  split
  · exact .stay
  · next v hv =>
    split
    · next hwork => exact .hear hv hwork text
    · exact .stay

theorem step_proceed (s : System) (id : Session.Id) (now : ClockTime) :
    Step s (s.proceed id now) := by
  unfold proceed
  split
  · exact .stay
  · next v hv =>
    split
    · exact .stay
    · next hostId token version hwork =>
      dsimp only
      split
      · next hcheck =>
        have htoken := (AgentSession.checkToken_eq_ok_iff _ hostId token).mp hcheck
        rw [htoken]
        exact .grant hv hwork htoken
      · exact .reject hv hwork
    · next hwork => exact .enter hv hwork
    · next hostId version hwork =>
      have hw : v.Learns
          { v with session := v.session.remember s.hub hostId, work := .noting hostId version } :=
        ⟨AgentSession.id_remember .., AgentSession.state_remember .., rfl, rfl, rfl,
          .inl ⟨_, _, hwork⟩, .inl ⟨_, _, rfl⟩⟩
      exact .learn hv hw s.hub.directory
    · next hostId version hwork =>
      let noted := v.session.noteVersion? s.hub hostId version
      have hlearns : v.session.Learns s.hub hostId noted := .noteVersion? ..
      have hw : v.Learns { v with session := noted.1, work := .gathering } :=
        ⟨hlearns.id, hlearns.state, rfl, rfl, rfl, .inr (.inl ⟨_, _, hwork⟩), .inr (.inl rfl)⟩
      have hstep := Step.learn hv hw noted.2.directory
      rwa [← hlearns.rest] at hstep
    · next hwork =>
      have hw : v.Learns { v with work := .idle } :=
        ⟨rfl, rfl, rfl, rfl, rfl, .inr (.inr (.inl hwork)), .inr (.inr (.inr rfl))⟩
      exact .learn hv hw s.hub.directory
    · next hwork => exact .record hv hwork now
    · next hwork => exact .put hv hwork now
    · next hostId reading version hwork =>
      let noted := v.session.noteVersion? s.hub hostId version
      have hlearns : v.session.Learns s.hub hostId noted := .noteVersion? ..
      have hw : v.Learns { v with session := noted.1, work := .locating hostId reading } :=
        ⟨hlearns.id, hlearns.state, rfl, rfl, rfl, .inr (.inr (.inr (.inl ⟨_, _, _, hwork⟩))),
          .inr (.inr (.inl ⟨_, _, rfl⟩))⟩
      have hstep := Step.learn hv hw noted.2.directory
      rwa [← hlearns.rest] at hstep
    · next hostId reading hwork =>
      let noted := v.session.noteIp? s.hub hostId (v.session.observedIp reading)
      have hlearns : v.session.Learns s.hub hostId noted := .noteIp? ..
      have hw : v.Learns { v with session := noted.1, work := .idle } :=
        ⟨hlearns.id, hlearns.state, rfl, rfl, rfl, .inr (.inr (.inr (.inr ⟨_, _, hwork⟩))),
          .inr (.inr (.inr rfl))⟩
      have hstep := Step.learn hv hw noted.2.directory
      rwa [← hlearns.rest] at hstep

theorem step_close (s : System) (id : Session.Id) : Step s (s.close id) := by
  unfold close
  split
  · exact .stay
  · next v hv =>
    split
    · next hwork => exact .close hv hwork
    · exact .stay

theorem step_lookUp (s : System) (hostId : String) (command : Command) :
    Step s (s.lookUp hostId command) := by
  unfold lookUp
  split
  · next id hroute =>
    refine .queue id (fun _ hq => hq.cloneSender) fun e he target htarget => ?_
    rcases List.mem_append.mp he with he | he
    · exact .inl ⟨e, he, htarget⟩
    · obtain rfl := List.mem_singleton.mp he
      exact .inr ⟨hostId, hroute.trans htarget⟩
  · exact .refuseErrand command

theorem step_send (s : System) (errand : Nat) : Step s (s.send errand) := by
  unfold send
  split
  · next command id hfound =>
    split
    · refine .queue id (fun _ hq => (hq.send command).dropSender) fun e he target htarget => ?_
      rcases List.mem_or_eq_of_mem_set he with he | rfl
      · exact .inl ⟨e, he, htarget⟩
      · exact .inl ⟨_, List.mem_of_getElem? hfound, htarget⟩
    · exact .stay
  · exact .stay

/-- A change of a queue alone is a step. -/
theorem step_updateQueue (s : System) (id : Session.Id)
    {f : RingBuffer Command → RingBuffer Command} (hf : ∀ q, q.Valid → (f q).Valid) :
    Step s (s.updateQueue id f) :=
  .queue id hf fun e he _ htarget => .inl ⟨e, he, htarget⟩

theorem step_step (s : System) (a : Action) : Step s (s.step a) := by
  cases a with
  | connect remoteIp => exact .connect remoteIp
  | hear id text => exact s.step_hear id text
  | proceed id now => exact s.step_proceed id now
  | close id => exact s.step_close id
  | lookUp hostId command => exact s.step_lookUp hostId command
  | send errand => exact s.step_send errand
  | receive id =>
    change Step s { s with hub := { s.hub with agents := (s.hub.agents.receive id).2 } }
    rw [Session.Registry.receive_eq_updateQueue]
    exact s.step_updateQueue id fun _ hq => hq.receive
  | dropReceiver id => exact s.step_updateQueue id fun _ hq => hq.dropReceiver
  | dropSession id =>
    change Step s (s.dropSession id)
    unfold dropSession
    split
    · split
      · exact s.step_updateQueue id fun _ hq => hq.dropSender
      · exact .stay
    · exact .stay
  | own hostId reading now => exact .own hostId reading now
  | recorder task => exact .recorder task
  | elsewhere directory dashboards seq => exact .elsewhere directory dashboards seq

/-- What holds at a start and is kept by every step holds throughout every run. -/
theorem run_induction {P : System → Prop} {s : System} (hs : P s)
    (hstep : ∀ {s t}, P s → Step s t → P t) (actions : List Action) : P (s.run actions) := by
  induction actions generalizing s with
  | nil => exact hs
  | cons a actions ih => exact ih (hstep hs (s.step_step a))

end System
end FleetWatch.Sessions
