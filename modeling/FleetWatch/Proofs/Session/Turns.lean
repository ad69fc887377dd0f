import FleetWatch.Proofs.Agent.Listening
import FleetWatch.Proofs.Session.Commands
import FleetWatch.Proofs.Session.Frames
import FleetWatch.Session.Connection

/-!
# The turns of a connection

What a step of a reader and of a writer can do to its connection, to the routes and to the queues.
A reader routes hosts to its own session and takes no commands; a writer takes the commands of its
own session and leaves the routes alone.

## Main definitions

* `Connection.Reads`, `Connection.Writes`, `Connection.Arrives`: what a step can do.
* `Connection.Reader.isEntered`: an authentication was accepted, and nobody has been told yet.
-/
namespace FleetWatch

open Queue

namespace Connection

def Outgoing.frame? : Outgoing → Option Message.ToAgent
  | .frame m => some m
  | .close => none

theorem command?_eq_none {m : Message.ToAgent}
    (h : ∀ command, Outgoing.frame m ≠ .frame (.command command)) : m.command? = none := by
  cases m with
  | command command => exact absurd rfl (h command)
  | _ => rfl

/-- An authentication has been accepted, and the answer to it has not been queued yet. -/
def Reader.isEntered : Reader → Bool
  | .remembering .. | .noting .. | .gathering => true
  | .replying [.frame (.auth .ok none _)] => true
  | _ => false

/-- What a step of a reader can do, with its effect on routes and queues. -/
inductive Reads (c : Connection) (r : Session.Registry) : Connection → Session.Registry → Prop where
  | wait : Reads c r c r
  | handle (session : AgentSession) (waiting : List Outgoing)
      (hreader : ∃ m, c.reader = .handling m)
      (hid : session.id = c.session.id) (hstate : session.state = c.session.state)
      (hwaiting : ∀ o ∈ waiting, ∃ message, o = .frame (.error message)) :
      Reads c r { c with session, reader := .replying waiting } r
  | reject (reason : String) (hreader : ∃ hostId token version,
      c.reader = .checking hostId token version) :
      Reads c r
        { c with
          session := { c.session with state := .closed }
          reader := .replying [.frame (.rejected reason), .close] } r
  | grant (hostId : String) (version : Option String)
      (hreader : ∃ token, c.reader = .checking hostId token version) :
      Reads c r { c with reader := .entering hostId version } r
  | enter (hostId : String) (version : Option String)
      (hreader : c.reader = .entering hostId version) :
      Reads c r
        { c with
          session := { c.session with state := .authenticated hostId }
          reader := .remembering hostId version }
        (r.register hostId c.session.id)
  | prepare (session : AgentSession) (reader : Reader)
      (hreader : (∃ hostId version, c.reader = .remembering hostId version) ∨
        (∃ hostId version, c.reader = .noting hostId version) ∨ c.reader = .gathering)
      (hid : session.id = c.session.id) (hstate : session.state = c.session.state)
      (hafter : (∃ hostId version, reader = .noting hostId version) ∨ reader = .gathering ∨
        ∃ targets, reader = .replying [.frame (.accepted targets)]) :
      Reads c r { c with session, reader } r
  | finish (hreader : c.reader = .replying []) : Reads c r { c with reader := .ready } r
  | queue (o : Outgoing) (rest : List Outgoing) (replies : Bounded Outgoing) (reader : Reader)
      (hreader : c.reader = .replying (o :: rest)) (hwriting : c.writing = true)
      (hreplies : replies.waiting = c.replies.waiting ++ [o])
      (hafter : reader = .replying rest ∨ o = .close ∧ reader = .leaving) :
      Reads c r { c with replies, reader } r
  | giveUp (hreader : ∃ waiting, c.reader = .replying waiting) (hwriting : c.writing = false) :
      Reads c r { c with reader := .leaving } r
  | leave (after : Session.Registry) (hreader : c.reader = .leaving)
      (hafter : after = r.dropSession c.session.id ∨
        ∃ hostId, after = (r.deregister hostId c.session.id).2.dropSession c.session.id) :
      Reads c r
        { c with session := { c.session with state := .closed }, reader := .gone } after

/-- A message that does not authenticate, or comes after an authentication, changes neither the
state of a session nor the routes, and is answered by errors only. -/
theorem handle_spec (s : AgentSession) (h : Hub) (now : Time.Instant) {m : Message.FromAgent}
    (hm : ∀ hostId token version, m = .auth hostId token version → s.state ≠ .connected) :
    (s.handle h now m).2.1.id = s.id ∧ (s.handle h now m).2.1.state = s.state ∧
      (s.handle h now m).2.2.agents = h.agents ∧
      ∀ o ∈ outgoing (s.handle h now m).1, ∃ message, o = .frame (.error message) := by
  cases m with
  | auth hostId token version =>
    simp [AgentSession.handle, hm hostId token version rfl, outgoing, HubError.reply?,
      HubError.isFatal]
  | metrics reading claimed version token =>
    unfold AgentSession.handle AgentSession.ingest
    cases hhost : s.hostId? with
    | none => simp [outgoing, HubError.reply?, HubError.isFatal]
    | some hostId =>
      cases hrefusal : AgentSession.refusal? hostId claimed reading with
      | some e =>
        obtain ⟨reason, rfl⟩ := AgentSession.malformed_of_refusal? hrefusal
        simp [hrefusal, outgoing, HubError.reply?, HubError.isFatal]
      | none =>
        let put := h.putReading hostId reading now
        let noted := s.noteVersion? put hostId (version.or reading.version)
        have hlearns : s.Learns put hostId
            (noted.1.noteIp? noted.2 hostId (noted.1.observedIp reading)) :=
          (AgentSession.Learns.noteVersion? s put hostId _).trans
            (AgentSession.Learns.noteIp? noted.1 noted.2 hostId _)
        simp only [hrefusal]
        exact ⟨hlearns.id, hlearns.state, hlearns.agents, by simp [outgoing]⟩

/-- A session is authenticated in steps only. -/
def IsStepwise (c : Connection) : Prop :=
  ∀ hostId token version, c.reader = .handling (.auth hostId token version) →
    c.session.state ≠ .connected

theorem reads_read (c : Connection) (h : Hub) (now : Time.Instant) (hc : c.IsStepwise) :
    c.Reads h.agents (c.read h now).1 (c.read h now).2.agents := by
  unfold read
  split
  · exact .wait
  · exact .wait
  · next m hreader =>
    obtain ⟨hid, hstate, hagents, hwaiting⟩ :=
      handle_spec c.session h now fun hostId token version hm =>
        hc hostId token version (hm ▸ hreader)
    dsimp only
    rw [hagents]
    exact .handle _ _ ⟨m, hreader⟩ hid hstate hwaiting
  · next hostId token version hreader =>
    split
    · next e hcheck =>
      obtain ⟨reason, rfl⟩ := AgentSession.authRejected_of_checkToken hcheck
      exact .reject reason ⟨hostId, token, version, hreader⟩
    · exact .grant hostId version ⟨token, hreader⟩
  · next hostId version hreader => exact .enter hostId version hreader
  · next hostId version hreader =>
    exact .prepare _ _ (.inl ⟨_, _, hreader⟩) (AgentSession.id_remember ..)
      (AgentSession.state_remember ..) (.inl ⟨_, _, rfl⟩)
  · next hostId version hreader =>
    have hlearns := AgentSession.Learns.noteVersion? c.session h hostId version
    dsimp only
    rw [hlearns.agents]
    exact .prepare _ _ (.inr (.inl ⟨_, _, hreader⟩)) hlearns.id hlearns.state (.inr (.inl rfl))
  · next hreader =>
    exact .prepare _ _ (.inr (.inr hreader)) rfl rfl (.inr (.inr ⟨_, rfl⟩))
  · next hreader => exact .finish hreader
  · next o rest hreader =>
    split
    · next hwriting =>
      split
      · next replies m hoffer =>
        exact .queue _ rest replies _ hreader hwriting (Bounded.waiting_of_offer? hoffer).1
          (.inl rfl)
      · next replies hoffer =>
        exact .queue _ rest replies _ hreader hwriting (Bounded.waiting_of_offer? hoffer).1
          (.inr ⟨rfl, rfl⟩)
      · exact .wait
    · next hwriting => exact .giveUp ⟨_, hreader⟩ (Bool.not_eq_true _ ▸ hwriting)
  · next hreader =>
    refine .leave _ hreader ?_
    cases hhost : c.session.hostId? with
    | none => exact .inl (by simp [AgentSession.close, hhost])
    | some hostId => exact .inr ⟨hostId, by simp [AgentSession.close, hhost]⟩

/-- What a step of a writer can do, with its effect on the queues. -/
inductive Writes (c : Connection) (r : Session.Registry) :
    Connection → Session.Registry → Prop where
  | wait : Writes c r c r
  | reply (m : Message.ToAgent) (replies : Bounded Outgoing) (hwriting : c.writing = true)
      (hreplies : c.replies.waiting = .frame m :: replies.waiting) :
      Writes c r { c with replies, written := c.written ++ [m] } r
  | finish (replies : Bounded Outgoing)
      (hreplies : c.replies.waiting = replies.waiting ∨
        c.replies.waiting = .close :: replies.waiting) :
      Writes c r { c with replies, writing := false } (r.dropReceiver c.session.id)
  | idle (hnone : (r.receive c.session.id).1 = none) :
      Writes c r c (r.receive c.session.id).2
  | command (command : Command) (hwriting : c.writing = true) (hreplies : c.replies.waiting = [])
      (hsome : (r.receive c.session.id).1 = some command) :
      Writes c r { c with written := c.written ++ [.command command] }
        (r.receive c.session.id).2

theorem writes_write (c : Connection) (h : Hub) :
    c.Writes h.agents (c.write h).1 (c.write h).2.agents := by
  unfold write
  split
  · next hwriting =>
    split
    · next m replies htake =>
      exact .reply m replies hwriting (Bounded.waiting_of_take? htake)
    · next replies htake => exact .finish replies (.inr (Bounded.waiting_of_take? htake))
    · next htake =>
      split
      · exact .finish c.replies (.inl rfl)
      · split
        · next command agents hreceive =>
          have hwrites := Writes.command (c := c) (r := h.agents) command hwriting
            (Bounded.waiting_of_take?_eq_none htake) (by rw [hreceive])
          rwa [hreceive] at hwrites
        · next agents hreceive =>
          have hwrites := Writes.idle (c := c) (r := h.agents) (by rw [hreceive])
          rwa [hreceive] at hwrites
  · exact .wait

/-- What can come over the wire. -/
inductive Arrives (c : Connection) : Connection → Prop where
  | wait : Arrives c c
  | take (reader : Reader) (hready : c.reader = .ready)
      (hafter : (∃ m, reader = .handling m ∧ ∀ hostId token version,
          m = .auth hostId token version → c.session.state ≠ .connected) ∨
        (∃ hostId token version, reader = .checking hostId token version ∧
          c.session.state = .connected) ∨
        reader = .replying [] ∨ reader = .leaving) :
      Arrives c { c with reader }

theorem arrives_arrive (c : Connection) (text : String) : c.Arrives (c.arrive text) := by
  unfold arrive
  split
  · next hready =>
    split
    · exact .wait
    · split
      · exact .take _ hready (.inr (.inr (.inl rfl)))
      · next hostId token version _ =>
        split
        · next hconnected =>
          exact .take _ hready (.inr (.inl ⟨hostId, token, version, rfl, hconnected⟩))
        · next hnot => exact .take _ hready (.inl ⟨_, rfl, fun _ _ _ _ => hnot⟩)
      · next m hother _ =>
        exact .take _ hready (.inl ⟨m, rfl, fun hostId token version hm =>
          absurd hm (hother hostId token version)⟩)
  · exact .wait

theorem arrives_hangUp (c : Connection) : c.Arrives c.hangUp := by
  unfold hangUp
  split
  · next hready => exact .take _ hready (.inr (.inr (.inr rfl)))
  · exact .wait

theorem Arrives.session {c d : Connection} (h : c.Arrives d) : d.session = c.session := by
  cases h <;> rfl

theorem Arrives.written {c d : Connection} (h : c.Arrives d) : d.written = c.written := by
  cases h <;> rfl

/-! ## Routes and queues -/

namespace Reads
variable {c d : Connection} {r after : Session.Registry}

theorem valid (h : c.Reads r d after) (hr : r.Valid) : after.Valid := by
  have hdrop (r : Session.Registry) (hr : r.Valid) : (r.dropSession c.session.id).Valid :=
    hr.updateQueue _ fun _ hq => hq.dropSender
  cases h with
  | enter hostId version => exact hr.register hostId _
  | leave _ hreader hafter =>
    obtain rfl | ⟨hostId, rfl⟩ := hafter
    · exact hdrop r hr
    · exact hdrop _ (hr.deregister hostId _)
  | _ => exact hr

/-- A reader takes no commands and sends none. -/
theorem waiting? (h : c.Reads r d after) (j : Session.Id) : after.waiting? j = r.waiting? j := by
  have hdrop (r : Session.Registry) : (r.dropSession c.session.id).waiting? j = r.waiting? j :=
    r.waiting?_updateQueue _ j fun _ => rfl
  cases h with
  | enter hostId version => exact r.waiting?_register hostId _ j
  | leave _ hreader hafter =>
    obtain rfl | ⟨hostId, rfl⟩ := hafter
    · exact hdrop r
    · exact (hdrop _).trans (r.waiting?_deregister hostId _ j)
  | _ => rfl

/-- A reader routes hosts to its own session only, and has then entered. -/
theorem route? (h : c.Reads r d after) {k : String} {j : Session.Id}
    (hroute : after.route? k = some j) :
    r.route? k = some j ∨ j = c.session.id ∧ d.reader.isEntered = true := by
  cases h with
  | enter hostId version hreader =>
    rw [Session.Registry.route?_register] at hroute
    split at hroute
    · exact .inr ⟨(Option.some.inj hroute).symm, rfl⟩
    · exact .inl hroute
  | leave _ hreader hafter =>
    obtain rfl | ⟨hostId, rfl⟩ := hafter
    · exact .inl (by simpa [Session.Registry.dropSession] using hroute)
    · rw [Session.Registry.dropSession, Session.Registry.route?_updateQueue,
        Session.Registry.route?_deregister] at hroute
      split at hroute
      · cases hroute
      · exact .inl hroute
  | _ => exact .inl hroute

theorem id (h : c.Reads r d after) : d.session.id = c.session.id := by
  cases h with
  | handle _ _ _ hid => exact hid
  | prepare _ _ _ hid => exact hid
  | _ => rfl

theorem written (h : c.Reads r d after) : d.written = c.written := by
  cases h <;> rfl

theorem writing (h : c.Reads r d after) : d.writing = c.writing := by
  cases h <;> rfl

end Reads

namespace Writes
variable {c d : Connection} {r after : Session.Registry}

theorem valid (h : c.Writes r d after) (hr : r.Valid) : after.Valid := by
  have hreceive : (r.receive c.session.id).2.Valid := by
    rw [Session.Registry.receive_eq_updateQueue]
    exact hr.updateQueue _ fun _ hq => hq.receive
  cases h with
  | finish => exact hr.updateQueue _ fun _ hq => hq.dropReceiver
  | idle => exact hreceive
  | command => exact hreceive
  | _ => exact hr

theorem route? (h : c.Writes r d after) (k : String) : after.route? k = r.route? k := by
  have hreceive : (r.receive c.session.id).2.route? k = r.route? k := by
    rw [Session.Registry.receive_eq_updateQueue, Session.Registry.route?_updateQueue]
  cases h with
  | finish => exact Session.Registry.route?_updateQueue ..
  | idle => exact hreceive
  | command => exact hreceive
  | _ => rfl

theorem session (h : c.Writes r d after) : d.session = c.session := by
  cases h <;> rfl

theorem reader (h : c.Writes r d after) : d.reader = c.reader := by
  cases h <;> rfl

theorem written_grows (h : c.Writes r d after) : c.written <+: d.written := by
  cases h with
  | reply m => exact List.prefix_append c.written [m]
  | command command => exact List.prefix_append c.written [.command command]
  | _ => exact List.prefix_refl c.written

/-- What waits for other sessions stays as it is. -/
theorem waiting?_of_ne (h : c.Writes r d after) {j : Session.Id} (hj : c.session.id ≠ j) :
    after.waiting? j = r.waiting? j := by
  cases h with
  | finish => exact r.waiting?_updateQueue _ j fun _ => rfl
  | idle => exact r.waiting?_receive_of_ne hj
  | command => exact r.waiting?_receive_of_ne hj
  | _ => rfl

/-- What a writer sends: nothing, a reply, or a command when no reply waits. -/
theorem written (h : c.Writes r d after)
    (hquiet : ∀ o ∈ c.replies.waiting, ∀ command, o ≠ .frame (.command command)) :
    d.written = c.written ∨
      (∃ m, d.written = c.written ++ [m] ∧ m.command? = none) ∨
      ∃ command, d.written = c.written ++ [.command command] ∧ c.writing = true ∧
        c.replies.waiting = [] := by
  cases h with
  | reply m replies hwriting hreplies =>
    exact .inr (.inl ⟨m, rfl, command?_eq_none (hquiet _ (hreplies ▸ List.mem_cons_self))⟩)
  | command command hwriting hreplies => exact .inr (.inr ⟨command, rfl, hwriting, hreplies⟩)
  | _ => exact .inl rfl

/-- A command that is written no longer waits. -/
theorem waiting? (h : c.Writes r d after)
    (hquiet : ∀ o ∈ c.replies.waiting, ∀ command, o ≠ .frame (.command command))
    {waiting : List Command} (hwaiting : r.waiting? c.session.id = some waiting) :
    ∃ rest, after.waiting? c.session.id = some rest ∧
      d.written.filterMap Message.ToAgent.command? ++ rest =
        c.written.filterMap Message.ToAgent.command? ++ waiting := by
  cases h with
  | wait => exact ⟨waiting, hwaiting, rfl⟩
  | reply m replies hwriting hreplies =>
    have hnone : m.command? = none :=
      command?_eq_none (hquiet _ (hreplies ▸ List.mem_cons_self))
    exact ⟨waiting, hwaiting, by simp [hnone]⟩
  | finish =>
    have hkept : (r.dropReceiver c.session.id).waiting? c.session.id = r.waiting? c.session.id :=
      r.waiting?_updateQueue _ _ fun _ => rfl
    exact ⟨waiting, hkept.trans hwaiting, rfl⟩
  | idle hnone =>
    obtain ⟨command, rest, -, hsome, -⟩ | ⟨rfl, -, hafter⟩ :=
      Session.Registry.receive_cases hwaiting
    · rw [hnone] at hsome
      cases hsome
    · exact ⟨[], hafter, rfl⟩
  | command command hwriting hreplies hsome =>
    obtain ⟨first, rest, rfl, hfirst, hafter⟩ | ⟨-, hnone, -⟩ :=
      Session.Registry.receive_cases hwaiting
    · obtain rfl : first = command := Option.some.inj (hfirst.symm.trans hsome)
      exact ⟨rest, hafter, by simp [Message.ToAgent.command?]⟩
    · rw [hnone] at hsome
      cases hsome

/-- When no command waits, none is written. -/
theorem waiting?_eq_nil (h : c.Writes r d after)
    (hquiet : ∀ o ∈ c.replies.waiting, ∀ command, o ≠ .frame (.command command))
    (hnone : r.waiting? c.session.id = some []) :
    after.waiting? c.session.id = some [] ∧
      ∀ command, d.written ≠ c.written ++ [.command command] := by
  obtain ⟨rest, hrest, hcommands⟩ := h.waiting? hquiet hnone
  rw [List.append_nil] at hcommands
  have hnew (command : Command) : d.written ≠ c.written ++ [.command command] := by
    intro hwritten
    have hlength := congrArg List.length hcommands
    simp only [hwritten, List.filterMap_append, List.filterMap_cons, Message.ToAgent.command?,
      List.filterMap_nil, List.length_append, List.length_singleton] at hlength
    omega
  refine ⟨?_, hnew⟩
  obtain hsame | ⟨m, hm, hcommand⟩ | ⟨command, hcommand, -⟩ := h.written hquiet
  · rw [hsame] at hcommands
    rw [hrest, List.append_right_eq_self.mp hcommands]
  · rw [hm, List.filterMap_append, List.filterMap_cons_none hcommand, List.filterMap_nil,
      List.append_nil] at hcommands
    rw [hrest, List.append_right_eq_self.mp hcommands]
  · exact absurd hcommand (hnew command)

end Writes

end Connection
end FleetWatch
