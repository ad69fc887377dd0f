import FleetWatch.Proofs.Session.System
import FleetWatch.Proofs.Session.Turns

/-!
# Connections and operators interleaved

Any number of connections to one hub, each with a reader and a writer that take their steps
independently, and operators who send commands in two steps, one to get hold of a queue and one to
use it. The wire may break between any two steps, and the rest of the hub may change.

## Main definitions

* `Line`: a connection with the commands that made room for others.
* `Switchboard`, `Switchboard.Action`, `Switchboard.step`, `Switchboard.run`.
* `Switchboard.promised`: the commands whose operators were told that somebody receives them.
* `Switchboard.Step`: what a step can do.
-/
namespace FleetWatch

open Queue Sessions

/-- A connection, and the commands that had to make room for later ones in its queue. -/
structure Line where
  connection : Connection
  displaced : List Command := []

/-- A command is sent to the queue of the line's session. -/
def Line.deliver (l : Line) (q : RingBuffer Command) (c : Command) : Line :=
  if (q.send c).1 then
    { l with displaced := l.displaced ++
        q.receivable.take (q.receivable.length + 1 - (q.send c).2.receivable.length) }
  else l

/-- The command of an errand, if the operator was told that a session receives it. -/
def Sessions.Errand.promised? (id : Session.Id) (e : Errand) : Option Command :=
  if e.target = some id ∧ e.answer = some true then some e.command else none

/-- A hub with its connections, by the numbers of their sessions, and the errands of its
operators. -/
structure Switchboard where
  hub : Hub
  lines : List Line := []
  errands : List Errand := []

namespace Switchboard

inductive Action where
  | connect (remoteIp : Option Net.IpAddress)
  | arrive (id : Session.Id) (text : String)
  | hangUp (id : Session.Id)
  /-- A step of a reader. -/
  | read (id : Session.Id) (now : Time.Instant)
  /-- A step of a writer. -/
  | write (id : Session.Id)
  /-- A writer finds its wire broken. -/
  | breakOff (id : Session.Id)
  | lookUp (hostId : String) (command : Command)
  | send (errand : Nat)
  /-- Anything that leaves the routes and command queues alone. -/
  | elsewhere (hub : Hub)

def start (hub : Hub) : Switchboard where
  hub := { hub with agents := {} }

/-- The system after a step of the connection of a line. -/
def place (s : Switchboard) (id : Session.Id) (l : Line) (after : Connection × Hub) :
    Switchboard :=
  { s with hub := after.2, lines := s.lines.set id { l with connection := after.1 } }

/-- A step of one connection. -/
def act (s : Switchboard) (id : Session.Id) (f : Connection → Hub → Connection × Hub) :
    Switchboard :=
  match s.lines[id]? with
  | none => s
  | some l => s.place id l (f l.connection s.hub)

def connect (s : Switchboard) (remoteIp : Option Net.IpAddress) : Switchboard :=
  let (connection, hub) := Connection.start s.hub s.lines.length remoteIp
  { s with hub, lines := s.lines ++ [{ connection }] }

def updateQueue (s : Switchboard) (id : Session.Id)
    (f : RingBuffer Command → RingBuffer Command) : Switchboard :=
  { s with hub.agents := s.hub.agents.updateQueue id f }

/-- An operator finds nobody to send a command to. -/
def refuse (s : Switchboard) (command : Command) : Switchboard :=
  { s with errands := s.errands ++ [⟨command, none, some false⟩] }

/-- An operator gets hold of the queue of a session. -/
def hold (s : Switchboard) (command : Command) (id : Session.Id) : Switchboard :=
  { s.updateQueue id RingBuffer.cloneSender with
    errands := s.errands ++ [⟨command, some id, none⟩] }

/-- An operator sends a command to the queue that it has got hold of, and lets go of that. -/
def deliver (s : Switchboard) (errand : Nat) (command : Command) (id : Session.Id)
    (q : RingBuffer Command) : Switchboard :=
  { s.updateQueue id fun q => (q.send command).2.dropSender with
    lines := s.lines.modify id fun l => l.deliver q command
    errands := s.errands.set errand ⟨command, some id, some (q.send command).1⟩ }

/-- The first half of sending a command. -/
def lookUp (s : Switchboard) (hostId : String) (command : Command) : Switchboard :=
  match s.hub.agents.route? hostId with
  | some id => s.hold command id
  | none => s.refuse command

/-- The second half of sending a command. -/
def send (s : Switchboard) (errand : Nat) : Switchboard :=
  match s.errands[errand]? with
  | some ⟨command, some id, none⟩ =>
    match s.hub.agents.queues[id]? with
    | some q => s.deliver errand command id q
    | none => s
  | _ => s

def step (s : Switchboard) : Action → Switchboard
  | .connect remoteIp => s.connect remoteIp
  | .arrive id text => s.act id fun c h => (c.arrive text, h)
  | .hangUp id => s.act id fun c h => (c.hangUp, h)
  | .read id now => s.act id fun c h => c.read h now
  | .write id => s.act id Connection.write
  | .breakOff id => s.act id Connection.endWriting
  | .lookUp hostId command => s.lookUp hostId command
  | .send errand => s.send errand
  | .elsewhere hub => { s with hub := { hub with agents := s.hub.agents } }

def run (s : Switchboard) (actions : List Action) : Switchboard := actions.foldl step s

/-- The commands whose operators were told that a session receives them. -/
def promised (s : Switchboard) (id : Session.Id) : List Command :=
  s.errands.filterMap (Errand.promised? id)

/-- Nobody can send to the queue of a session. -/
structure Unheld (s : Switchboard) (id : Session.Id) : Prop where
  routes : ∀ hostId, s.hub.agents.route? hostId ≠ some id
  errands : ∀ e ∈ s.errands, e.target ≠ some id

@[simp] theorem run_nil (s : Switchboard) : s.run [] = s := rfl

@[simp] theorem run_cons (s : Switchboard) (a : Action) (actions : List Action) :
    s.run (a :: actions) = (s.step a).run actions := rfl

theorem run_append (s : Switchboard) (before after : List Action) :
    s.run (before ++ after) = (s.run before).run after := List.foldl_append

/-! ## Lines and errands -/

theorem lines_place {s : Switchboard} {id : Session.Id} {l : Line} (hl : s.lines[id]? = some l)
    (after : Connection × Hub) (j : Session.Id) :
    (s.place id l after).lines[j]? =
      if id = j then some { l with connection := after.1 } else s.lines[j]? := by
  obtain ⟨hid, -⟩ := List.getElem?_eq_some_iff.mp hl
  simp only [place, List.getElem?_set, hid, if_true]

theorem length_lines_place (s : Switchboard) (id : Session.Id) (l : Line)
    (after : Connection × Hub) : (s.place id l after).lines.length = s.lines.length :=
  List.length_set

theorem lines_deliver (s : Switchboard) (errand : Nat) (command : Command) (id : Session.Id)
    (q : RingBuffer Command) (j : Session.Id) :
    (s.deliver errand command id q).lines[j]? =
      if id = j then (s.lines[j]?).map (·.deliver q command) else s.lines[j]? := by
  simp only [deliver, List.getElem?_modify]
  split <;> simp

@[simp] theorem Line.connection_deliver (l : Line) (q : RingBuffer Command) (c : Command) :
    (l.deliver q c).connection = l.connection := by
  unfold Line.deliver
  split <;> rfl

/-- Nobody has been promised anything that concerns a session whose queue nobody can send to. -/
theorem Unheld.promised {s : Switchboard} {id : Session.Id} (h : s.Unheld id) :
    s.promised id = [] :=
  List.filterMap_eq_nil_iff.mpr fun e he => if_neg fun hboth => h.errands e he hboth.1

theorem promised_append (errands : List Errand) (e : Errand) (id : Session.Id) :
    (errands ++ [e]).filterMap (Errand.promised? id) =
      errands.filterMap (Errand.promised? id) ++ (e.promised? id).toList := by
  cases h : e.promised? id <;> simp [h]

/-- An answer adds the command of its errand to those promised, if it is a promise. -/
theorem promised_set {errands : List Errand} {i : Nat} {e f : Errand} (id : Session.Id)
    (he : errands[i]? = some e) (hopen : e.promised? id = none) :
    ((errands.set i f).filterMap (Errand.promised? id)).Perm
      (errands.filterMap (Errand.promised? id) ++ (f.promised? id).toList) := by
  obtain ⟨hi, rfl⟩ := List.getElem?_eq_some_iff.mp he
  have hbefore : errands.filterMap (Errand.promised? id) =
      (errands.take i).filterMap (Errand.promised? id) ++
        (errands.drop (i + 1)).filterMap (Errand.promised? id) := by
    conv => lhs; rw [← List.take_append_drop i errands, List.drop_eq_getElem_cons hi]
    rw [List.filterMap_append, List.filterMap_cons_none hopen]
  rw [List.set_eq_take_append_cons_drop, if_pos hi, hbefore, List.filterMap_append,
    List.append_assoc]
  refine .append_left _ ?_
  cases hf : f.promised? id with
  | none => simp [hf]
  | some c =>
    rw [List.filterMap_cons_some hf]
    exact (List.perm_append_singleton c _).symm

/-! ## What a step can do -/

inductive Step (s : Switchboard) : Action → Switchboard → Prop where
  | stay (a : Action) : s.Step a s
  | connect (remoteIp : Option Net.IpAddress) :
      s.Step (.connect remoteIp) (s.connect remoteIp)
  | arrive (a : Action) (id : Session.Id) (l : Line) (c : Connection) (hl : s.lines[id]? = some l)
      (harrives : l.connection.Arrives c) : s.Step a (s.place id l (c, s.hub))
  | read (a : Action) (id : Session.Id) (l : Line) (after : Connection × Hub)
      (hl : s.lines[id]? = some l)
      (hreads : l.connection.Reads s.hub.agents after.1 after.2.agents) :
      s.Step a (s.place id l after)
  | write (id : Session.Id) (l : Line) (hl : s.lines[id]? = some l) :
      s.Step (.write id) (s.place id l (l.connection.write s.hub))
  | breakOff (id : Session.Id) (l : Line) (hl : s.lines[id]? = some l) :
      s.Step (.breakOff id) (s.place id l (l.connection.endWriting s.hub))
  | refuse (a : Action) (command : Command) : s.Step a (s.refuse command)
  | hold (a : Action) (hostId : String) (command : Command) (id : Session.Id)
      (hroute : s.hub.agents.route? hostId = some id) : s.Step a (s.hold command id)
  | deliver (errand : Nat) (command : Command) (id : Session.Id) (q : RingBuffer Command)
      (herrand : s.errands[errand]? = some ⟨command, some id, none⟩)
      (hq : s.hub.agents.queues[id]? = some q) :
      s.Step (.send errand) (s.deliver errand command id q)
  | elsewhere (hub : Hub) :
      s.Step (.elsewhere hub) { s with hub := { hub with agents := s.hub.agents } }

theorem step_cases (s : Switchboard) (a : Action)
    (hstepwise : ∀ l ∈ s.lines, l.connection.IsStepwise) : s.Step a (s.step a) := by
  have hact (id : Session.Id) (f : Connection → Hub → Connection × Hub)
      (hf : ∀ l, s.lines[id]? = some l → s.Step a (s.place id l (f l.connection s.hub))) :
      s.Step a (s.act id f) := by
    unfold act
    split
    · exact .stay a
    · next l hl => exact hf l hl
  cases a with
  | connect remoteIp => exact .connect remoteIp
  | arrive id text =>
    exact hact id (fun c h => (c.arrive text, h)) fun l hl =>
      .arrive _ id l _ hl (Connection.arrives_arrive l.connection text)
  | hangUp id =>
    exact hact id (fun c h => (c.hangUp, h)) fun l hl =>
      .arrive _ id l _ hl (Connection.arrives_hangUp l.connection)
  | read id now =>
    exact hact id (fun c h => c.read h now) fun l hl => .read _ id l _ hl
      (Connection.reads_read l.connection s.hub now (hstepwise l (List.mem_of_getElem? hl)))
  | write id => exact hact id Connection.write fun l hl => .write id l hl
  | breakOff id => exact hact id Connection.endWriting fun l hl => .breakOff id l hl
  | lookUp hostId command =>
    simp only [step, lookUp]
    split
    · next id hroute => exact .hold _ hostId command id hroute
    · exact .refuse _ command
  | send errand =>
    simp only [step, send]
    split
    · next command id herrand =>
      split
      · next q hq => exact .deliver errand command id q herrand hq
      · exact .stay _
    · exact .stay _
  | elsewhere hub => exact .elsewhere hub

end Switchboard
end FleetWatch
