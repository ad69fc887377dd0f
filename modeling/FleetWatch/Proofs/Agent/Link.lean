import FleetWatch.Proofs.Agent.Conversation
import FleetWatch.Proofs.Message.Kinds
import FleetWatch.Proofs.Session.Handshake

/-!
# An agent and the hub

An agent on a line of its own, among any number of other lines. What it sends arrives in order when
the reader of its line waits for a frame, and it reads in order what the writer has written. Every
step of the hub may come in between, the agent and the hub may find the connection closed at any
time, and what is under way is lost then.

As long as one of its readings is under way, the session is authenticated for the agent's server or
closed: a reading is never refused for the sake of the session.

## Main definitions

* `Connection.Moves`: what happens to a connection when no frame arrives.
* `Link`, `Link.Action`, `Link.step`, `Link.run`.
* `Link.Holds`, `Link.Sound`: what holds of a link at all times.
-/
namespace FleetWatch

open Agent (Client)

namespace Connection

/-- The reader waits for a frame. -/
def Reader.isReady : Reader → Bool
  | ready => true
  | _ => false

theorem Reader.eq_ready_of_isReady {reader : Reader} (h : reader.isReady = true) :
    reader = .ready := by
  cases reader <;> first | rfl | cases h

/-- What happens to a connection when no frame arrives. -/
inductive Moves (c : Connection) : Connection → Prop where
  | stay : Moves c c
  | hangUp (hready : c.reader = .ready) : Moves c { c with reader := .leaving }
  | read {d : Connection} {r after : Session.Registry} (hreads : c.Reads r d after) : Moves c d
  | write {d : Connection} {r after : Session.Registry} (hwrites : c.Writes r d after) : Moves c d

theorem moves_hangUp (c : Connection) : c.Moves c.hangUp := by
  unfold hangUp
  split
  · next hready => exact .hangUp hready
  · exact .stay

/-- A connection that was told the outcome of its authentication has a session that is no longer at
its beginning. -/
theorem Orderly.ne_connected {c : Connection} (h : c.Orderly) {m : Message.ToAgent}
    (hm : m ∈ c.written) (hverdict : m.isVerdict = true) : c.session.state ≠ .connected := by
  intro hconnected
  have hnone := h.undecided (.inl hconnected)
  have hmem : Outgoing.frame m ∈ c.verdicts := by
    simp [verdicts, sentOut, Outgoing.isVerdict, hm, hverdict]
  rw [hnone] at hmem
  cases hmem

end Connection

namespace Switchboard

/-- A frame comes in on a line. -/
def Action.bringsTo (id : Session.Id) : Action → Bool
  | .arrive j _ => j = id
  | _ => false

variable {s : Switchboard} {id : Session.Id} {l : Line}

theorem lines_act (hl : s.lines[id]? = some l) (j : Session.Id)
    (f : Connection → Hub → Connection × Hub) :
    (s.act j f).lines[id]? =
      some (if j = id then { l with connection := (f l.connection s.hub).1 } else l) := by
  unfold act
  by_cases hj : j = id
  · subst hj
    simp only [hl, if_true]
    rw [lines_place hl, if_pos rfl]
  · split
    · rw [hl, if_neg hj]
    · next k hk => rw [lines_place hk, if_neg hj, if_neg hj, hl]

/-- What happens to a line in a step that brings it no frame. -/
theorem moves_step (h : s.Sound) (hl : s.lines[id]? = some l) {a : Action}
    (ha : a.bringsTo id = false) :
    ∃ k, (s.step a).lines[id]? = some k ∧ l.connection.Moves k.connection := by
  have hstays (t : Switchboard) (ht : t.lines = s.lines) :
      ∃ k, t.lines[id]? = some k ∧ l.connection.Moves k.connection := ⟨l, ht ▸ hl, .stay⟩
  have hact (j : Session.Id) (f : Connection → Hub → Connection × Hub)
      (hf : j = id → l.connection.Moves (f l.connection s.hub).1) :
      ∃ k, (s.act j f).lines[id]? = some k ∧ l.connection.Moves k.connection := by
    refine ⟨_, lines_act hl j f, ?_⟩
    split
    · next hj => exact hf hj
    · exact .stay
  cases a with
  | connect remoteIp =>
    have hid : id < s.lines.length := (List.getElem?_eq_some_iff.mp hl).choose
    exact ⟨l, (List.getElem?_append_left hid).trans hl, .stay⟩
  | arrive j text => exact hact j _ fun hj => absurd hj (by simpa [Action.bringsTo] using ha)
  | hangUp j => exact hact j _ fun _ => l.connection.moves_hangUp
  | read j now =>
    have hstepwise := h.stepwise l (List.mem_of_getElem? hl)
    exact hact j _ fun _ => .read (Connection.reads_read l.connection s.hub now hstepwise)
  | write j => exact hact j _ fun _ => .write (Connection.writes_write l.connection s.hub)
  | breakOff j =>
    exact hact j _ fun _ => .write (r := s.hub.agents) (.finish l.connection.replies (.inl rfl))
  | lookUp hostId command =>
    refine hstays _ ?_
    simp only [step, lookUp]
    split <;> rfl
  | send errand =>
    simp only [step, send]
    split
    · split
      · rw [lines_deliver]
        split
        · exact ⟨_, by rw [hl, Option.map_some], by rw [Line.connection_deliver]; exact .stay⟩
        · exact ⟨l, hl, .stay⟩
      · exact hstays s rfl
    · exact hstays s rfl
  | elsewhere hub => exact hstays _ rfl

end Switchboard

/-- An agent and its line at the hub. What the agent does follows from what has happened to it, and
what has arrived of that, and what the agent has read of what was written to it, are counted. -/
structure Link where
  board : Switchboard
  id : Session.Id
  serverId : String
  token : String
  events : List (Client.Event × Snapshot) := []
  arrived : Nat := 0
  read : Nat := 0

namespace Link

inductive Action where
  /-- A step of the hub that brings no frame on the agent's line. -/
  | hub (a : Switchboard.Action)
  /-- The next frame of the agent arrives. -/
  | arrive
  /-- The agent reads the next frame that was written to it. -/
  | hear (reading : Snapshot)
  /-- Anything but a text happens to the agent. -/
  | happen (e : Client.Event) (reading : Snapshot)

def agent (l : Link) : Client := ((Client.start l.serverId l.token).1.run l.events).1

def sent (l : Link) : List Message.FromAgent := Client.said l.serverId l.token l.events

/-- The frames that are under way to the hub. -/
def underway (l : Link) : List Message.FromAgent := l.sent.drop l.arrived

def connection? (l : Link) : Option Connection := (l.board.lines[l.id]?).map (·.connection)

/-- An agent connects to a hub. -/
def start (board : Switchboard) (remoteIp : Option Net.IpAddress) (serverId token : String) :
    Link where
  board := board.connect remoteIp
  id := board.lines.length
  serverId
  token

def note (l : Link) (e : Client.Event) (reading : Snapshot) : Link :=
  { l with events := l.events ++ [(e, reading)] }

def step (l : Link) : Action → Link
  | .hub a => if a.bringsTo l.id then l else { l with board := l.board.step a }
  | .arrive =>
    match l.connection?, l.sent[l.arrived]? with
    | some c, some m =>
      if c.reader.isReady then
        { l with
          board := l.board.step (.arrive l.id (Message.FromAgent.schema.encode m))
          arrived := l.arrived + 1 }
      else l
    | _, _ => l
  | .hear reading =>
    match l.connection?.bind fun c => c.written[l.read]? with
    | some m =>
      { l.note (.text (Message.ToAgent.schema.encode m)) reading with read := l.read + 1 }
    | none => l
  | .happen e reading =>
    match e with
    | .text _ => l
    | e => l.note e reading

def run (l : Link) (actions : List Action) : Link := actions.foldl step l

/-- What holds of the hub's side of a link: the agent has read what was written, the session is or
becomes authenticated for the agent's server only, and acts on readings of the agent only then. -/
structure Holds (l : Link) (c : Connection) : Prop where
  heard : ∀ p ∈ l.events, ∀ s, p.1 = .text s →
    ∃ m ∈ c.written, s = Message.ToAgent.schema.encode m
  checking : ∀ hostId token version, c.reader = .checking hostId token version →
    hostId = l.serverId
  entering : ∀ hostId version, c.reader = .entering hostId version → hostId = l.serverId
  state : ∀ hostId, c.session.state = .authenticated hostId → hostId = l.serverId
  handling : ∀ m, c.reader = .handling m →
    (∃ r, m = Client.push r) ∧ c.session.state = .authenticated l.serverId
  fresh : l.arrived = 0 → c.reader = .ready ∧ c.session.state = .connected ∨
    c.reader = .leaving ∨ c.reader = .gone

structure Sound (l : Link) : Prop where
  board : l.board.Sound
  line : ∃ k, l.board.lines[l.id]? = some k ∧ l.Holds k.connection

variable {l : Link} {c d : Connection}

/-! ## The two sides agree -/

/-- What is read of a frame that was written is an answer to an authentication only if the frame
is one. -/
theorem isVerdict_of_decode {m : Message.ToAgent} {status : Message.AuthStatus}
    {reason : Option String} {targets : List ProbeTarget}
    (h : Message.ToAgent.schema.decode (Message.ToAgent.schema.encode m) =
      .ok (.auth status reason targets)) : m.isVerdict = true := by
  cases m with
  | auth => rfl
  | error message =>
    rw [Message.ToAgent.decode_encode_error] at h
    cases h
  | command command =>
    obtain ⟨other, hother⟩ := Message.ToAgent.exists_command_of_decode h
    cases hother

/-- A text that accepts an agent. -/
theorem exists_text_of_verdict {e : Client.Event} {targets : List ProbeTarget}
    (h : e.verdict? = some (.ok targets)) :
    ∃ s reason, e = .text s ∧ Message.ToAgent.schema.decode s = .ok (.auth .ok reason targets) := by
  cases e with
  | text s => grind [Client.Event.verdict?]
  | _ => cases h

/-- Once the agent streams, or has sent a reading, the hub has authenticated it. -/
theorem Holds.decided (h : l.Holds c) (horderly : c.Orderly)
    (hactive : l.agent.phase = .streaming ∨ ∃ r, Client.push r ∈ l.sent) :
    c.session.state = .authenticated l.serverId ∨ c.session.state = .closed := by
  have hsaid : l.agent.phase = .streaming ∨
      ((Client.start l.serverId l.token).1.run l.events).2 ≠ [] := by
    refine hactive.imp_right ?_
    rintro ⟨r, hr⟩
    obtain hfirst | hlater := List.mem_cons.mp hr
    · cases hfirst
    · exact List.ne_nil_of_mem hlater
  obtain ⟨p, hp, targets, hverdict⟩ := Client.exists_acceptance rfl hsaid
  obtain ⟨s, reason, hs, hdecode⟩ := exists_text_of_verdict hverdict
  obtain ⟨m, hm, rfl⟩ := h.heard p hp s hs
  have hnot := horderly.ne_connected hm (isVerdict_of_decode hdecode)
  cases hstate : c.session.state with
  | connected => exact absurd hstate hnot
  | authenticated hostId => exact .inl (by rw [h.state hostId hstate])
  | closed => exact .inr rfl

/-- What holds of the hub's side depends on the agent, and on whether a frame of it has arrived. -/
theorem Holds.of_same {later : Link} (h : l.Holds c) (hserver : later.serverId = l.serverId)
    (hevents : later.events = l.events) (harrived : later.arrived = 0 → l.arrived = 0) :
    later.Holds c where
  heard := hevents ▸ h.heard
  checking := hserver ▸ h.checking
  entering := hserver ▸ h.entering
  state := hserver ▸ h.state
  handling := hserver ▸ h.handling
  fresh := fun hd => h.fresh (harrived hd)

/-- A step after which the reader neither authenticates nor handles anything. -/
theorem Holds.calm (h : l.Holds c) (hwritten : c.written <+: d.written)
    (hreader : d.reader.isCalm = true ∨ d.reader.isPreparing = true)
    (hstate : ∀ hostId, d.session.state = .authenticated hostId → hostId = l.serverId)
    (hfresh : l.arrived = 0 → d.reader = .ready ∧ d.session.state = .connected ∨
      d.reader = .leaving ∨ d.reader = .gone) : l.Holds d := by
  refine ⟨fun p hp s hs => ?_, ?_, ?_, hstate, ?_, hfresh⟩
  · obtain ⟨m, hm, hencode⟩ := h.heard p hp s hs
    exact ⟨m, hwritten.mem hm, hencode⟩
  · rintro hostId token version hd
    rw [hd] at hreader
    simp [Connection.Reader.isCalm, Connection.Reader.isPreparing] at hreader
  · rintro hostId version hd
    rw [hd] at hreader
    simp [Connection.Reader.isCalm, Connection.Reader.isPreparing] at hreader
  · rintro m hd
    rw [hd] at hreader
    simp [Connection.Reader.isCalm, Connection.Reader.isPreparing] at hreader

theorem Holds.reads {r after : Session.Registry} (h : l.Holds c) (hreads : c.Reads r d after) :
    l.Holds d := by
  have hwritten : c.written <+: d.written := hreads.written ▸ List.prefix_refl _
  -- as long as no frame of the agent has arrived its reader has no work
  have hbusy (hworks : c.reader ≠ .ready ∧ c.reader ≠ .leaving ∧ c.reader ≠ .gone) {P : Prop} :
      l.arrived = 0 → P := by
    intro harrived
    obtain ⟨hd, -⟩ | hd | hd := h.fresh harrived
    · exact absurd hd hworks.1
    · exact absurd hd hworks.2.1
    · exact absurd hd hworks.2.2
  cases hreads with
  | wait => exact h
  | handle session waiting hreader hid hstate hwaiting =>
    obtain ⟨m, hreader⟩ := hreader
    exact h.calm hwritten (.inl rfl) (fun k hk => h.state k (hstate ▸ hk))
      (hbusy (by simp [hreader]))
  | reject reason hreader =>
    obtain ⟨hostId, token, version, hreader⟩ := hreader
    exact h.calm hwritten (.inl rfl) (fun k hk => by cases hk) (hbusy (by simp [hreader]))
  | grant hostId version hreader =>
    obtain ⟨token, hreader⟩ := hreader
    have hown := h.checking hostId token version hreader
    exact ⟨h.heard, fun _ _ _ hd => absurd hd (by simp),
      fun k later hd => (Connection.Reader.entering.inj hd).1 ▸ hown, h.state,
      fun _ hd => absurd hd (by simp), hbusy (by simp [hreader])⟩
  | enter hostId version hreader =>
    have hown := h.entering hostId version hreader
    exact h.calm hwritten (.inr rfl)
      (fun k hk => (Session.State.authenticated.inj hk) ▸ hown) (hbusy (by simp [hreader]))
  | prepare session reader hreader hid hstate hafter =>
    have hworks : c.reader ≠ .ready ∧ c.reader ≠ .leaving ∧ c.reader ≠ .gone := by
      obtain ⟨hostId, version, hreader⟩ | ⟨hostId, version, hreader⟩ | hreader := hreader <;>
        simp [hreader]
    have hkind : reader.isCalm = true ∨ reader.isPreparing = true := by
      obtain ⟨hostId, version, rfl⟩ | rfl | ⟨targets, rfl⟩ := hafter
      · exact .inr rfl
      · exact .inr rfl
      · exact .inl rfl
    exact h.calm hwritten hkind (fun k hk => h.state k (hstate ▸ hk)) (hbusy hworks)
  | finish hreader => exact h.calm hwritten (.inl rfl) h.state (hbusy (by simp [hreader]))
  | queue o rest replies reader hreader hwriting hreplies hafter =>
    have hkind : reader.isCalm = true := by
      obtain rfl | ⟨-, rfl⟩ := hafter <;> rfl
    exact h.calm hwritten (.inl hkind) h.state (hbusy (by simp [hreader]))
  | giveUp hreader hwriting =>
    exact h.calm hwritten (.inl rfl) h.state fun _ => .inr (.inl rfl)
  | leave after hreader hafter =>
    exact h.calm hwritten (.inl rfl) (fun k hk => by cases hk) fun _ => .inr (.inr rfl)

theorem Holds.moves (h : l.Holds c) (hmoves : c.Moves d) : l.Holds d := by
  cases hmoves with
  | stay => exact h
  | hangUp hready =>
    exact h.calm (List.prefix_refl _) (.inl rfl) h.state fun _ => .inr (.inl rfl)
  | read hreads => exact h.reads hreads
  | write hwrites =>
    have hreader := hwrites.reader
    have hsession := hwrites.session
    refine ⟨fun p hp s hs => ?_, ?_, ?_, ?_, ?_, ?_⟩
    · obtain ⟨m, hm, hencode⟩ := h.heard p hp s hs
      exact ⟨m, hwrites.written_grows.mem hm, hencode⟩
    · rw [hreader]; exact h.checking
    · rw [hreader]; exact h.entering
    · rw [hsession]; exact h.state
    · rw [hreader, hsession]; exact h.handling
    · rw [hreader, hsession]; exact h.fresh

/-- What a reader makes of the next frame of the agent. -/
theorem Holds.arrives (h : l.Holds c) (horderly : c.Orderly) {m : Message.FromAgent}
    (hm : l.sent[l.arrived]? = some m) (hready : c.reader = .ready) (board : Switchboard) :
    Link.Holds { l with board, arrived := l.arrived + 1 }
      (c.arrive (Message.FromAgent.schema.encode m)) := by
  cases harrived : l.arrived with
  | zero =>
    -- the authentication comes first, to a session that is at its beginning
    obtain ⟨-, hconnected⟩ := (h.fresh harrived).resolve_right (by simp [hready])
    rw [harrived] at hm
    obtain rfl : (Client.start l.serverId l.token).2 = m := Option.some.inj hm
    have harrive : c.arrive (Message.FromAgent.schema.encode (Client.start l.serverId l.token).2) =
        { c with reader := .checking l.serverId l.token (some Client.version) } := by
      simp [Connection.arrive, Client.start, hready, hconnected,
        Message.FromAgent.decode_encode_auth]
    rw [harrive]
    exact ⟨h.heard, fun k token version hd => (Connection.Reader.checking.inj hd).1.symm,
      fun _ _ hd => absurd hd (by simp), h.state, fun _ hd => absurd hd (by simp),
      fun hd => absurd hd (by simp)⟩
  | succ n =>
    -- then only readings come, to a session that was authenticated
    rw [harrived] at hm
    have hmem : m ∈ ((Client.start l.serverId l.token).1.run l.events).2 :=
      List.mem_of_getElem? (i := n) hm
    obtain ⟨r, rfl⟩ := Client.exists_push_of_mem_run hmem
    have hlater : Link.Holds { l with board, arrived := n + 1 + 1 } c :=
      h.of_same rfl rfl fun hd => absurd hd (by simp)
    have hbusy {P : Prop} (hd : n + 1 + 1 = 0) : P := absurd hd (by simp)
    obtain hstate | hclosed := h.decided horderly (.inr ⟨r, List.mem_cons_of_mem _ hmem⟩)
    · cases hdecode : Message.FromAgent.schema.decode
        (Message.FromAgent.schema.encode (Client.push r)) with
      | error fault =>
        have harrive : c.arrive (Message.FromAgent.schema.encode (Client.push r)) =
            { c with
              reader := .replying (Connection.outgoing (.error (.undecodable fault))) } := by
          simp [Connection.arrive, hready, hstate, hdecode]
        rw [harrive]
        exact hlater.calm (List.prefix_refl _) (.inl rfl) h.state hbusy
      | ok read =>
        obtain ⟨s, rfl⟩ := Message.FromAgent.exists_metrics_of_decode hdecode
        have harrive : c.arrive (Message.FromAgent.schema.encode (Client.push r)) =
            { c with reader := .handling (Client.push s) } := by
          simp [Connection.arrive, hready, hstate, hdecode]
          rfl
        rw [harrive]
        exact ⟨h.heard, fun _ _ _ hd => absurd hd (by simp), fun _ _ hd => absurd hd (by simp),
          h.state, fun m hd => ⟨⟨s, (Connection.Reader.handling.inj hd).symm⟩, hstate⟩, hbusy⟩
    · have harrive : c.arrive (Message.FromAgent.schema.encode (Client.push r)) = c := by
        simp [Connection.arrive, hready, hclosed]
      rw [harrive]
      exact hlater

/-- Something happens to the agent that it is told by the hub, or not told at all. -/
theorem Holds.note (h : l.Holds c) {e : Client.Event}
    (he : ∀ s, e = .text s → ∃ m ∈ c.written, s = Message.ToAgent.schema.encode m)
    (reading : Snapshot) : (l.note e reading).Holds c where
  heard := fun p hp s hs => by
    rcases List.mem_append.mp hp with hold | hnew
    · exact h.heard p hold s hs
    · obtain rfl := List.mem_singleton.mp hnew
      exact he s hs
  checking := h.checking
  entering := h.entering
  state := h.state
  handling := h.handling
  fresh := h.fresh

namespace Sound

theorem orderly (h : l.Sound) {k : Line} (hk : l.board.lines[l.id]? = some k) :
    k.connection.Orderly :=
  (h.board.lines l.id k hk).orderly

theorem hub (h : l.Sound) {a : Switchboard.Action} (ha : a.bringsTo l.id = false) :
    Link.Sound { l with board := l.board.step a } := by
  obtain ⟨k, hk, hholds⟩ := h.line
  obtain ⟨next, hnext, hmoves⟩ := Switchboard.moves_step h.board hk ha
  exact ⟨h.board.step (l.board.step_cases a h.board.stepwise), next, hnext,
    (hholds.moves hmoves).of_same rfl rfl fun hd => hd⟩

theorem arrive (h : l.Sound) {c : Connection} {m : Message.FromAgent}
    (hc : l.connection? = some c) (hm : l.sent[l.arrived]? = some m) (hready : c.reader = .ready) :
    Link.Sound
      { l with
        board := l.board.step (.arrive l.id (Message.FromAgent.schema.encode m))
        arrived := l.arrived + 1 } := by
  obtain ⟨k, hk, hholds⟩ := h.line
  obtain rfl : k.connection = c := by simpa [connection?, hk] using hc
  have hlines := Switchboard.lines_act hk l.id
    fun c h => (c.arrive (Message.FromAgent.schema.encode m), h)
  rw [if_pos rfl] at hlines
  let arrival : Switchboard.Action := .arrive l.id (Message.FromAgent.schema.encode m)
  have hboard : (l.board.step arrival).Sound :=
    h.board.step (l.board.step_cases arrival h.board.stepwise)
  exact ⟨hboard, _, hlines, hholds.arrives (h.orderly hk) hm hready _⟩

theorem note (h : l.Sound) {e : Client.Event}
    (he : ∀ s, e = .text s → ∃ c, l.connection? = some c ∧
      ∃ m ∈ c.written, s = Message.ToAgent.schema.encode m)
    (reading : Snapshot) : (l.note e reading).Sound := by
  obtain ⟨k, hk, hholds⟩ := h.line
  refine ⟨h.board, k, hk, hholds.note (fun s hs => ?_) reading⟩
  obtain ⟨c, hc, hm⟩ := he s hs
  obtain rfl : k.connection = c := by simpa [connection?, hk] using hc
  exact hm

/-- Whatever happens, the two sides agree. -/
theorem step (h : l.Sound) (a : Action) : (l.step a).Sound := by
  cases a with
  | hub a =>
    simp only [Link.step]
    split
    · exact h
    · next ha => exact h.hub (Bool.not_eq_true _ ▸ ha)
  | arrive =>
    simp only [Link.step]
    split
    · next c m hc hm =>
      split
      · next hready => exact h.arrive hc hm (Connection.Reader.eq_ready_of_isReady hready)
      · exact h
    · exact h
  | hear reading =>
    simp only [Link.step]
    split
    · next m hread =>
      obtain ⟨c, hc, hm⟩ := Option.bind_eq_some_iff.mp hread
      have hnoted := h.note (e := .text (Message.ToAgent.schema.encode m)) (fun s hs => by
        cases hs
        exact ⟨c, hc, m, List.mem_of_getElem? hm, rfl⟩) reading
      obtain ⟨k, hk, hholds⟩ := hnoted.line
      exact ⟨hnoted.board, k, hk, hholds.of_same rfl rfl fun hd => hd⟩
    · exact h
  | happen e reading =>
    cases e with
    | text s => exact h
    | _ => exact h.note (fun s hs => by cases hs) reading

theorem run (h : l.Sound) (actions : List Action) : (l.run actions).Sound := by
  induction actions generalizing l with
  | nil => exact h
  | cons a actions ih => exact ih (h.step a)

theorem start {board : Switchboard} (h : board.Sound) (remoteIp : Option Net.IpAddress)
    (serverId token : String) : (start board remoteIp serverId token).Sound := by
  have hline : (board.connect remoteIp).lines[board.lines.length]? =
      some { connection := (Connection.start board.hub board.lines.length remoteIp).1 } :=
    List.getElem?_concat_length
  refine ⟨h.connect remoteIp, _, hline, ?_⟩
  exact ⟨fun p hp => (by cases hp), nofun, nofun, nofun, fun m hd => (by cases hd),
    fun _ => .inl ⟨rfl, rfl⟩⟩

end Sound

/-! ## Readings are not refused for the sake of the session -/

/-- The answer to a reading has nothing to do with who sends it: the reading is taken in or passed
over, or it is refused because it cannot be read or for a fault of its own. -/
def IsFair (answer : Except HubError (Option Message.ToAgent)) : Prop :=
  answer = .ok none ∨ (∃ fault, answer = .error (.undecodable fault)) ∨
    ∃ (reading : Snapshot) (fault : ReadingFault),
      reading.fault? = some fault ∧ answer = .error (.malformed fault.message)

theorem isFair_handle {session : AgentSession} {hostId : String}
    (hstate : session.state = .authenticated hostId) (hub : Hub) (now : Time.Instant)
    (reading : Snapshot) : IsFair (session.handle hub now (Client.push reading)).1 := by
  have hhost : session.hostId? = some hostId := by simp [AgentSession.hostId?, hstate]
  cases hfault : reading.fault? with
  | none =>
    refine .inl ?_
    simp [Client.push, AgentSession.handle, AgentSession.ingest, hhost, AgentSession.refusal?,
      hfault]
  | some fault =>
    refine .inr (.inr ⟨reading, fault, hfault, ?_⟩)
    simp [Client.push, AgentSession.handle, AgentSession.ingest, hhost, AgentSession.refusal?,
      hfault]

theorem isFair_receive {session : AgentSession} {hostId : String}
    (hstate : session.state = .authenticated hostId ∨ session.state = .closed) (hub : Hub)
    (now : Time.Instant) (reading : Snapshot) :
    IsFair (session.receive hub now
      (Message.FromAgent.schema.encode (Client.push reading))).1 := by
  obtain hstate | hclosed := hstate
  · unfold AgentSession.receive
    rw [if_neg (by simp [hstate])]
    split
    · next fault _ => exact .inr (.inl ⟨fault, rfl⟩)
    · next m hdecode =>
      obtain ⟨r, rfl⟩ := Message.FromAgent.exists_metrics_of_decode hdecode
      exact isFair_handle hstate hub now r
  · exact .inl (by simp [AgentSession.receive, hclosed])

/-- A link stays one of the same agent and line. -/
theorem same_run (l : Link) (actions : List Action) :
    (l.run actions).serverId = l.serverId ∧ (l.run actions).id = l.id := by
  induction actions generalizing l with
  | nil => exact ⟨rfl, rfl⟩
  | cons a actions ih =>
    have hstep : (l.step a).serverId = l.serverId ∧ (l.step a).id = l.id := by
      unfold step
      grind [note]
    obtain ⟨hserver, hid⟩ := ih (l.step a)
    exact ⟨hserver.trans hstep.1, hid.trans hstep.2⟩

/-- Whatever happens to an agent, it presents itself and says nothing more until something decides
about that. If that is a refusal or an end, the connection fails and nothing more is said. If it is
an acceptance, the agent sends a reading for every tick and every command to refresh that comes
before the connection ends, and nothing else; a text is a command to refresh if it is read as a
command with that action.

On a line of its own, among any others and whatever happens there, as long as the agent streams or a
reading of it is under way its session is authenticated for its server or closed, and a reading is
acted on only while it is authenticated. No reading is refused for being sent too early or by
somebody else. -/
theorem agent_and_hub_agree (serverId token : String) :
    (∀ s, (Client.Event.text s).asks ↔
      ∃ command, Message.ToAgent.schema.decode s = .ok (.command command) ∧
        command.action = "refresh") ∧
    (∀ events : List (Client.Event × Snapshot),
      let agent := ((Client.start serverId token).1.run events).1
      let said := Client.said serverId token events
      let greeting := Message.FromAgent.auth serverId token (some Client.version)
      ((∀ p ∈ events, p.1.verdict? = none) →
        agent.phase = .authenticating ∧ said = [greeting]) ∧
      ∀ before e reading after, events = before ++ (e, reading) :: after →
        (∀ p ∈ before, p.1.verdict? = none) →
        (∀ failure, e.verdict? = some (.error failure) →
          agent.phase = .ended (some failure) ∧ said = [greeting]) ∧
        ∀ targets, e.verdict? = some (.ok targets) →
          agent.phase =
            ((after.findSome? fun p => p.1.ending?).map Client.Phase.ended).getD .streaming ∧
          agent.targets = targets ∧
          said = greeting :: (Client.asked after).map Client.push) ∧
    ∀ hub earlier remoteIp actions,
      let l := (start ((Switchboard.start hub).run earlier) remoteIp serverId token).run actions
      ∃ line, l.board.lines[l.id]? = some line ∧
        let session := line.connection.session
        (l.agent.phase = .streaming →
          session.state = .authenticated serverId ∨ session.state = .closed) ∧
        (∀ reading, Client.push reading ∈ l.underway →
          (session.state = .authenticated serverId ∨ session.state = .closed) ∧
          ∀ hub now, IsFair (session.receive hub now
            (Message.FromAgent.schema.encode (Client.push reading))).1) ∧
        ∀ m, line.connection.reader = .handling m →
          (∃ reading, m = Client.push reading) ∧ session.state = .authenticated serverId ∧
          ∀ hub now, IsFair (session.handle hub now m).1 := by
  let waiting := (Client.start serverId token).1
  have hwaiting : waiting.phase = .authenticating := rfl
  refine ⟨fun s => Client.Event.asks_text_iff, fun events => ⟨fun hnone => ?_, ?_⟩,
    fun hub earlier remoteIp actions => ?_⟩
  · have hrun := Client.run_of_undecided hwaiting hnone
    exact ⟨congrArg (·.1.phase) hrun, Client.said_of_run hrun⟩
  · rintro before e reading after rfl hbefore
    obtain ⟨hrefused, haccepted⟩ := Client.run_of_verdict (e := e) hwaiting hbefore reading after
    refine ⟨fun failure he => ?_, fun targets he => ?_⟩
    · have hrun := hrefused failure he
      exact ⟨congrArg (·.1.phase) hrun, Client.said_of_run hrun⟩
    · have hrun := haccepted targets he
      exact ⟨congrArg (·.1.phase) hrun, congrArg (·.1.targets) hrun,
        Client.said_of_run hrun⟩
  · intro l
    have hboard : ((Switchboard.start hub).run earlier).Sound :=
      (Switchboard.sound_start hub).run earlier
    have h : l.Sound := (Sound.start hboard remoteIp serverId token).run actions
    obtain ⟨line, hline, hholds⟩ := h.line
    have hserver : l.serverId = serverId :=
      (same_run (start ((Switchboard.start hub).run earlier) remoteIp serverId token) actions).1
    have hdecided := hserver ▸ hholds.decided (h.orderly hline)
    refine ⟨line, hline, fun hphase => hdecided (.inl hphase), fun reading hunderway => ?_,
      fun m hm => ?_⟩
    · have hstate := hdecided (.inr ⟨reading, List.mem_of_mem_drop hunderway⟩)
      exact ⟨hstate, fun hub now => isFair_receive hstate hub now reading⟩
    · obtain ⟨⟨reading, rfl⟩, hstate⟩ := hserver ▸ hholds.handling m hm
      exact ⟨⟨reading, rfl⟩, hstate, fun hub now => isFair_handle hstate hub now reading⟩

/-! ## An agent that is told to refresh -/

/-- An agent that has connected to a hub of one server. -/
def connected (slots : Nat) : Link where
  board :=
    { hub := { Switchboard.oneServer with agents := { queues := .insert {} 0 { slots } } }
      lines := [{ connection := { session := { id := 0 } } }] }
  id := 0
  serverId := "a"
  token := "t"

/-- The agent has presented itself. -/
def presented : Link :=
  { connected 4 with
    board.lines :=
      [{ connection :=
          { session := { id := 0 }, reader := .checking "a" "t" (some Client.version) } }]
    arrived := 1 }

theorem start_oneServer :
    start ((Switchboard.start Switchboard.oneServer).run []) none "a" "t" = connected 4 := by
  have hslots : Queue.commandSlots Settings.small.commandQueueCapacity = 4 := by decide +kernel
  have hstart : start ((Switchboard.start Switchboard.oneServer).run []) none "a" "t" =
    connected (Queue.commandSlots Settings.small.commandQueueCapacity) := rfl
  rw [hstart, hslots]

theorem arrive_connected : (connected 4).step .arrive = presented := by
  have harrive : (Connection.arrive { session := { id := 0 } }
      (Message.FromAgent.schema.encode (Client.start "a" "t").2)) =
      { session := { id := 0 }, reader := .checking "a" "t" (some Client.version) } := by
    simp [Connection.arrive, Client.start, Message.FromAgent.decode_encode_auth]
  change { connected 4 with
    board := (connected 4).board.place 0 { connection := { session := { id := 0 } } }
      (Connection.arrive { session := { id := 0 } }
        (Message.FromAgent.schema.encode (Client.start "a" "t").2), (connected 4).board.hub)
    arrived := 1 } = presented
  rw [harrive]
  rfl

/-- The agent is accepted and sends a reading at a tick, and another one when an operator tells it
to refresh. -/
def refreshment : List Action :=
  List.replicate 6 (.hub (.read 0 .epoch)) ++
    [.hub (.write 0), .hear (.ofUsage 10), .happen .tick (.ofUsage 20),
      .hub (.lookUp "a" Switchboard.refresh), .hub (.send 0), .hub (.write 0), .hear (.ofUsage 30)]

/-- The agent has sent a reading for the tick and one for the command, and its session is
authenticated while they are under way. -/
theorem refreshment_agrees :
    let l := (start ((Switchboard.start Switchboard.oneServer).run []) none "a" "t").run
      (.arrive :: refreshment)
    l.agent.phase = .streaming ∧
      l.underway = [Client.push (.ofUsage 20), Client.push (.ofUsage 30)] ∧
      ∃ line, l.board.lines[l.id]? = some line ∧
        (line.connection.session.state = .authenticated "a" ∨
          line.connection.session.state = .closed) ∧
        ∀ hub now, IsFair (line.connection.session.receive hub now
          (Message.FromAgent.schema.encode (Client.push (.ofUsage 30)))).1 := by
  obtain ⟨hasks, hagent, hlink⟩ := agent_and_hub_agree "a" "t"
  obtain ⟨line, hline, -, hunderway, -⟩ :=
    hlink Switchboard.oneServer [] none (.arrive :: refreshment)
  have hrun : (start ((Switchboard.start Switchboard.oneServer).run []) none "a" "t").run
      (.arrive :: refreshment) = presented.run refreshment := by
    rw [start_oneServer, run, List.foldl_cons, arrive_connected]
    rfl
  rw [hrun] at hline hunderway ⊢
  -- what the two texts are read as
  let accepted := Client.Event.text (Message.ToAgent.schema.encode (.accepted []))
  let command := Client.Event.text (Message.ToAgent.schema.encode (.command Switchboard.refresh))
  have haccepted : accepted.verdict? = some (.ok []) := by
    simp only [accepted, Client.Event.verdict?, Message.ToAgent.accepted,
      Message.ToAgent.decode_encode_verdict]
  have hcommand : command.asks :=
    (hasks _).mpr ⟨_, Message.ToAgent.decode_encode_command "refresh", rfl⟩
  have hasked : Client.asked [(.tick, .ofUsage 20), (command, .ofUsage 30)] =
      [.ofUsage 20, .ofUsage 30] := by
    have hgoes : Client.Event.tick.ending? = none ∧ command.ending? = none := ⟨rfl, rfl⟩
    have htick : Client.Event.tick.asks = true := rfl
    simp [Client.asked, hgoes, htick, hcommand]
  obtain ⟨hphase, -, hsaid⟩ := ((hagent _).2 [] accepted (.ofUsage 10)
    [(.tick, .ofUsage 20), (command, .ofUsage 30)] rfl (by simp)).2 [] haccepted
  rw [hasked] at hsaid
  have hsent : (presented.run refreshment).underway =
      [Client.push (.ofUsage 20), Client.push (.ofUsage 30)] := congrArg (List.drop 1) hsaid
  exact ⟨hphase, hsent, line, hline, hunderway (.ofUsage 30) (by simp [hsent])⟩

end Link
end FleetWatch
