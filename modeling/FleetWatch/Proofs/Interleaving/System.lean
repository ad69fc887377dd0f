import FleetWatch.Dashboard.View
import FleetWatch.Dispatch.Dispatcher
import FleetWatch.Proofs.Dashboard.Delivery
import FleetWatch.Proofs.Interleaving.Readings

/-!
# The hub with its actors interleaved

Agents and the hub's own machine write live state, the dispatcher ticks, the fan-out broadcasts and
dashboards attach, each in steps between which the others go on. A step does what nobody can come
between; a tick, a broadcast or an attachment whose steps follow one another is that of the hub.

## Main definitions

* `Delta`: a numbered message with what it was made from.
* `Tick`, `Fanout`, `Stage`: how far a tick, a broadcast and an attachment are.
* `System`, `Action`, `System.step`, `System.run`.
-/
namespace FleetWatch.Interleaving

open Dashboard

/-- A numbered message to dashboards, with the time and the reading of its tick. -/
structure Delta where
  seq : Nat
  now : Time.Instant
  reading : Reading
  changes : List Change

def Delta.message (d : Delta) : Message.ToDashboard := Dispatcher.delta d.seq d.now d.changes

/-- How far a tick is: it has copied the entries of the agents, found changes, taken a number, and
handed its delta over. -/
inductive Tick where
  | idle
  | copied (agents : Entries) (agentsAt : Nat)
  | found (now : Time.Instant) (reading : Reading) (changes : List Change)
  | numbered (delta : Delta)
  | handed (delta : Delta)

/-- How far the fan-out is: it has taken a message, and then read which dashboards are registered;
of these, some are still to be served, and some could not take the message. -/
inductive Fanout where
  | idle
  | taken (message : Message.ToDashboard)
  | sending (message : Message.ToDashboard) (targets failed : List Id)
deriving DecidableEq

/-- How far the attachment of a dashboard is: it has registered, read the number of the last
message, copied the entries of the agents, and is shown its full view. -/
inductive Stage where
  | registered
  | numbered (seq : Nat)
  | copied (seq : Nat) (agents : Entries) (agentsAt : Nat)
  | shown (seq : Nat) (reading : Reading) (now : Time.Instant) (views : List ServerView)

/-- A dashboard: how many deltas the fan-out had read the registered dashboards for when it
registered, all messages that it has been queued and that it has received, and how far it is. -/
structure Attachment where
  since : Nat
  queued : List Message.ToDashboard := []
  received : List Message.ToDashboard := []
  stage : Stage := .registered

/-- The hub and the steps that its actors are at. Also all writes, all deltas that were handed over,
how many of them were broadcast, and the time and the reading of the last tick that found nothing or
handed its delta over. -/
structure System where
  /-- The id of the hub's own machine. -/
  machine : String
  hub : Hub
  dispatcher : Dispatcher
  tick : Tick := .idle
  fanout : Fanout := .idle
  attachments : List Attachment := []
  log : List Write := []
  deltas : List Delta := []
  passed : Nat := 0
  lastTick : Option (Time.Instant × Reading) := none

inductive Action where
  | put (hostId : String) (snapshot : Snapshot) (at_ : Time.Instant)
  | putLocal (snapshot : Snapshot) (at_ : Time.Instant)
  | dispatch (now : Time.Instant)
  | take
  | address
  | serve (id : Id)
  | sweep
  | close
  | arrive (origin : String)
  | attach (id : Id) (profiles : List Profile) (now : Time.Instant)
  | receive (id : Id) (limit : Option Nat)
  | remove (id : Id)
  | dropQueue (id : Id)

namespace System

def start (machine : String) (settings : Settings) (directory : Directory) (capacity : Nat) :
    System where
  machine
  hub := { settings, directory }
  dispatcher := { handoff := .start capacity }

def threshold (s : System) : Time.Span := s.hub.settings.onlineThreshold

/-- The number of deltas that have left the queue to the fan-out. -/
def taken (s : System) : Nat :=
  match s.fanout with
  | .idle => s.passed
  | .taken .. | .sending .. => s.passed + 1

/-- The number of deltas that the fan-out has read the registered dashboards for. -/
def addressed (s : System) : Nat :=
  match s.fanout with
  | .idle | .taken .. => s.passed
  | .sending .. => s.passed + 1

/-- The next step of the dispatcher. -/
def dispatch (s : System) (now : Time.Instant) : System :=
  match s.tick with
  | .idle => { s with tick := .copied s.hub.live.entries s.log.length }
  | .copied agents agentsAt =>
    let entries := LiveStore.consolidated ⟨agents⟩ s.hub.localEntry
    let reading := ⟨agentsAt, s.log.length⟩
    let changes := s.dispatcher.reconciler.reconcile entries now s.threshold
    if changes.isEmpty then { s with tick := .idle, lastTick := some (now, reading) }
    else { s with tick := .found now reading changes }
  | .found now reading changes =>
    let (seq, hub) := s.hub.nextSeq
    { s with hub, tick := .numbered ⟨seq, now, reading, changes⟩ }
  | .numbered d =>
    match s.dispatcher.handoff.offer? d.message with
    | some handoff =>
      { s with
        dispatcher := { s.dispatcher with handoff }
        tick := .handed d
        deltas := s.deltas ++ [d]
        lastTick := some (d.now, d.reading) }
    | none => { s with tick := .idle }
  | .handed d =>
    let reconciler := s.dispatcher.reconciler.commit d.changes
    { s with dispatcher := { s.dispatcher with reconciler }, tick := .idle }

def take (s : System) : System :=
  match s.fanout, s.dispatcher.handoff.queue.take? with
  | .idle, some (m, queue) =>
    { s with
      dispatcher := { s.dispatcher with handoff := { s.dispatcher.handoff with queue } }
      fanout := .taken m }
  | _, _ => s

def address (s : System) : System :=
  match s.fanout with
  | .taken m => { s with fanout := .sending m s.hub.dashboards.origins.keys [] }
  | _ => s

/-- The fan-out queues its message for a dashboard that is still to be served. -/
def serve (s : System) (id : Id) : System :=
  match s.fanout with
  | .sending m targets failed =>
    if id ∈ targets then
      let rest := targets.filter (· ≠ id)
      match s.hub.dashboards.offer? m id with
      | some dashboards =>
        { s with
          hub := { s.hub with dashboards }
          fanout := .sending m rest failed
          attachments := s.attachments.modify id fun a => { a with queued := a.queued ++ [m] } }
      | none => { s with fanout := .sending m rest (failed ++ [id]) }
    else s
  | _ => s

/-- Once all have been served, the fan-out ends the registrations of those that could not take the
message. -/
def sweep (s : System) : System :=
  match s.fanout with
  | .sending _ [] failed =>
    { s with
      hub := { s.hub with
        dashboards := failed.foldl (fun r id => (r.remove id).2) s.hub.dashboards }
      fanout := .idle
      passed := s.passed + 1 }
  | _ => s

/-- An attachment after its next step. -/
def advance (s : System) (profiles : List Profile) (now : Time.Instant) (a : Attachment) :
    Attachment :=
  match a.stage with
  | .registered => { a with stage := .numbered s.hub.seq }
  | .numbered seq => { a with stage := .copied seq s.hub.live.entries s.log.length }
  | .copied seq agents agentsAt =>
    let entries := LiveStore.consolidated ⟨agents⟩ s.hub.localEntry
    let views := allViews s.hub.settings profiles entries now
    { a with stage := .shown seq ⟨agentsAt, s.log.length⟩ now views }
  | .shown .. => a

@[simp] theorem since_advance (s : System) (profiles : List Profile) (now : Time.Instant)
    (a : Attachment) : (s.advance profiles now a).since = a.since := by
  unfold advance
  split <;> rfl

@[simp] theorem queued_advance (s : System) (profiles : List Profile) (now : Time.Instant)
    (a : Attachment) : (s.advance profiles now a).queued = a.queued := by
  unfold advance
  split <;> rfl

@[simp] theorem received_advance (s : System) (profiles : List Profile) (now : Time.Instant)
    (a : Attachment) : (s.advance profiles now a).received = a.received := by
  unfold advance
  split <;> rfl

def receive (s : System) (id : Id) (limit : Option Nat) : System :=
  match s.hub.dashboards.receive id limit with
  | some ((frames, _), dashboards) =>
    { s with
      hub := { s.hub with dashboards }
      attachments := s.attachments.modify id fun a =>
        { a with received := a.received ++ frames } }
  | none => s

def step (s : System) : Action → System
  | .put hostId snapshot at_ =>
    { s with
      hub := s.hub.putReading hostId snapshot at_
      log := s.log ++ [⟨false, hostId, snapshot, at_⟩] }
  | .putLocal snapshot at_ =>
    { s with
      hub := s.hub.putLocalReading s.machine snapshot at_
      log := s.log ++ [⟨true, s.machine, snapshot, at_⟩] }
  | .dispatch now => s.dispatch now
  | .take => s.take
  | .address => s.address
  | .serve id => s.serve id
  | .sweep => s.sweep
  | .close =>
    { s with dispatcher := { s.dispatcher with handoff := s.dispatcher.handoff.close } }
  | .arrive origin =>
    { s with
      hub := Dashboard.register s.hub s.attachments.length origin
      attachments := s.attachments ++ [{ since := s.addressed }] }
  | .attach id profiles now =>
    { s with attachments := s.attachments.modify id (s.advance profiles now) }
  | .receive id limit => s.receive id limit
  | .remove id => { s with hub := { s.hub with dashboards := (s.hub.dashboards.remove id).2 } }
  | .dropQueue id =>
    { s with hub := { s.hub with dashboards := (s.hub.dashboards.dropQueue id).2 } }

def run (s : System) (actions : List Action) : System := actions.foldl step s

@[simp] theorem run_nil (s : System) : s.run [] = s := rfl

@[simp] theorem run_cons (s : System) (a : Action) (actions : List Action) :
    s.run (a :: actions) = (s.step a).run actions := rfl

theorem run_append (s : System) (actions later : List Action) :
    s.run (actions ++ later) = (s.run actions).run later := List.foldl_append

/-! ## What a step can do -/

inductive Step (s : System) : System → Prop where
  | stay : Step s s
  | put (hostId : String) (snapshot : Snapshot) (at_ : Time.Instant) :
      Step s
        { s with
          hub := s.hub.putReading hostId snapshot at_
          log := s.log ++ [⟨false, hostId, snapshot, at_⟩] }
  | putLocal (snapshot : Snapshot) (at_ : Time.Instant) :
      Step s
        { s with
          hub := s.hub.putLocalReading s.machine snapshot at_
          log := s.log ++ [⟨true, s.machine, snapshot, at_⟩] }
  | copy (h : s.tick = .idle) :
      Step s { s with tick := .copied s.hub.live.entries s.log.length }
  | findNothing {agents : Entries} {agentsAt : Nat} (now : Time.Instant)
      (h : s.tick = .copied agents agentsAt)
      (hnone : s.dispatcher.reconciler.reconcile
        (LiveStore.consolidated ⟨agents⟩ s.hub.localEntry) now s.threshold = []) :
      Step s { s with tick := .idle, lastTick := some (now, ⟨agentsAt, s.log.length⟩) }
  | find {agents : Entries} {agentsAt : Nat} (now : Time.Instant)
      (h : s.tick = .copied agents agentsAt) :
      Step s
        { s with
          tick := .found now ⟨agentsAt, s.log.length⟩
            (s.dispatcher.reconciler.reconcile
              (LiveStore.consolidated ⟨agents⟩ s.hub.localEntry) now s.threshold) }
  | number {now : Time.Instant} {reading : Reading} {changes : List Change}
      (h : s.tick = .found now reading changes) :
      Step s
        { s with
          hub := { s.hub with seq := s.hub.seq + 1 }
          tick := .numbered ⟨s.hub.seq + 1, now, reading, changes⟩ }
  | defer {d : Delta} (h : s.tick = .numbered d) : Step s { s with tick := .idle }
  | hand {d : Delta} {handoff : Handoff} (h : s.tick = .numbered d)
      (hoffer : s.dispatcher.handoff.offer? d.message = some handoff) :
      Step s
        { s with
          dispatcher := { s.dispatcher with handoff }
          tick := .handed d
          deltas := s.deltas ++ [d]
          lastTick := some (d.now, d.reading) }
  | commit {d : Delta} (h : s.tick = .handed d) :
      Step s
        { s with
          dispatcher :=
            { s.dispatcher with reconciler := s.dispatcher.reconciler.commit d.changes }
          tick := .idle }
  | take {m : Message.ToDashboard} {queue : Queue.Bounded Message.ToDashboard}
      (h : s.fanout = .idle)
      (htake : s.dispatcher.handoff.queue.take? = some (m, queue)) :
      Step s
        { s with
          dispatcher := { s.dispatcher with handoff := { s.dispatcher.handoff with queue } }
          fanout := .taken m }
  | address {m : Message.ToDashboard} (h : s.fanout = .taken m) :
      Step s { s with fanout := .sending m s.hub.dashboards.origins.keys [] }
  | serve {m : Message.ToDashboard} {targets failed : List Id} {id : Id}
      {dashboards : Registry Message.ToDashboard} (h : s.fanout = .sending m targets failed)
      (hid : id ∈ targets) (hoffer : s.hub.dashboards.offer? m id = some dashboards) :
      Step s
        { s with
          hub := { s.hub with dashboards }
          fanout := .sending m (targets.filter (· ≠ id)) failed
          attachments := s.attachments.modify id fun a => { a with queued := a.queued ++ [m] } }
  | refuse {m : Message.ToDashboard} {targets failed : List Id} {id : Id}
      (h : s.fanout = .sending m targets failed) (hid : id ∈ targets)
      (hoffer : s.hub.dashboards.offer? m id = none) :
      Step s { s with fanout := .sending m (targets.filter (· ≠ id)) (failed ++ [id]) }
  | sweep {m : Message.ToDashboard} {failed : List Id} (h : s.fanout = .sending m [] failed) :
      Step s
        { s with
          hub :=
            { s.hub with
              dashboards := failed.foldl (fun r id => (r.remove id).2) s.hub.dashboards }
          fanout := .idle
          passed := s.passed + 1 }
  | close :
    Step s { s with dispatcher := { s.dispatcher with handoff := s.dispatcher.handoff.close } }
  | arrive (origin : String) :
      Step s
        { s with
          hub := Dashboard.register s.hub s.attachments.length origin
          attachments := s.attachments ++ [{ since := s.addressed }] }
  | attach (id : Id) (profiles : List Profile) (now : Time.Instant) :
      Step s { s with attachments := s.attachments.modify id (s.advance profiles now) }
  | receive {id : Id} {limit : Option Nat} {frames : List Message.ToDashboard} {stop : QueueEnd}
      {dashboards : Registry Message.ToDashboard}
      (h : s.hub.dashboards.receive id limit = some ((frames, stop), dashboards)) :
      Step s
        { s with
          hub := { s.hub with dashboards }
          attachments := s.attachments.modify id fun a =>
            { a with received := a.received ++ frames } }
  | leave {dashboards : Registry Message.ToDashboard}
      (h : ∀ id, dashboards.isRegistered id → s.hub.dashboards.isRegistered id)
      (hwaiting : ∀ id w, dashboards.waiting? id = some w →
        s.hub.dashboards.waiting? id = some w) :
      Step s { s with hub := { s.hub with dashboards } }

theorem step_dispatch (s : System) (now : Time.Instant) : Step s (s.dispatch now) := by
  unfold dispatch
  split
  · next h => exact .copy h
  · next agents agentsAt h =>
    dsimp only
    split
    · next hnone => exact .findNothing now h (List.isEmpty_iff.mp hnone)
    · exact .find now h
  · next h => exact .number h
  · next d h =>
    split
    · next handoff hoffer => exact .hand h hoffer
    · exact .defer h
  · next d h => exact .commit h

theorem step_take (s : System) : Step s s.take := by
  unfold take
  split
  · next h htake => exact .take h htake
  · exact .stay

theorem step_address (s : System) : Step s s.address := by
  unfold address
  split
  · next h => exact .address h
  · exact .stay

theorem step_serve (s : System) (id : Id) : Step s (s.serve id) := by
  unfold serve
  split
  · next h =>
    split
    · next hid =>
      dsimp only
      split
      · next hoffer => exact .serve h hid hoffer
      · next hoffer => exact .refuse h hid hoffer
    · exact .stay
  · exact .stay

theorem step_sweep (s : System) : Step s s.sweep := by
  unfold sweep
  split
  · next h => exact .sweep h
  · exact .stay

theorem step_receive (s : System) (id : Id) (limit : Option Nat) :
    Step s (s.receive id limit) := by
  unfold receive
  split
  · next h => exact .receive h
  · exact .stay

theorem step_step (s : System) (a : Action) : Step s (s.step a) := by
  cases a with
  | put hostId snapshot at_ => exact .put hostId snapshot at_
  | putLocal snapshot at_ => exact .putLocal snapshot at_
  | dispatch now => exact s.step_dispatch now
  | take => exact s.step_take
  | address => exact s.step_address
  | serve id => exact s.step_serve id
  | sweep => exact s.step_sweep
  | close => exact .close
  | arrive origin => exact .arrive origin
  | attach id profiles now => exact .attach id profiles now
  | receive id limit => exact s.step_receive id limit
  | remove id =>
    refine .leave (fun j hj => ?_) fun j w hw => hw
    simp only [Registry.remove, Registry.isRegistered, Std.TreeMap.contains_erase,
      Bool.and_eq_true] at hj
    exact hj.2
  | dropQueue id =>
    refine .leave (fun j hj => hj) fun j w hw => ?_
    by_cases e : id = j
    · simp [Registry.dropQueue, Registry.waiting?, e] at hw
    · simpa [Registry.dropQueue, Registry.waiting?, Std.TreeMap.getElem?_erase, e] using hw

/-- What holds at a start and is kept by every step holds throughout every run. -/
theorem run_induction {P : System → Prop} {s : System} (hs : P s)
    (hstep : ∀ {s t}, P s → Step s t → P t) (actions : List Action) : P (s.run actions) := by
  induction actions generalizing s with
  | nil => exact hs
  | cons a actions ih => exact ih (hstep hs (s.step_step a))

end System

/-- A changed list has at each place what was there or its change. -/
theorem exists_of_getElem?_modify {α : Type} {l : List α} {i j : Nat} {f : α → α} {a : α}
    (h : (l.modify i f)[j]? = some a) : ∃ b, l[j]? = some b ∧ a = if i = j then f b else b := by
  rw [List.getElem?_modify] at h
  obtain ⟨b, hb, rfl⟩ := Option.map_eq_some_iff.mp h
  exact ⟨b, hb, rfl⟩

theorem exists_of_mem_modify {α : Type} {l : List α} {i : Nat} {f : α → α} {a : α}
    (h : a ∈ l.modify i f) : ∃ b ∈ l, a = b ∨ a = f b := by
  obtain ⟨j, hj⟩ := List.mem_iff_getElem?.mp h
  obtain ⟨b, hb, rfl⟩ := exists_of_getElem?_modify hj
  refine ⟨b, List.mem_of_getElem? hb, ?_⟩
  by_cases e : i = j <;> simp [e]

end FleetWatch.Interleaving
