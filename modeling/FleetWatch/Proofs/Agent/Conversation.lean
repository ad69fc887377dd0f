import FleetWatch.Agent.Client

/-!
# What an agent says

An agent presents itself first and then says nothing until something decides about that: an answer
to its authentication, or the end of the connection. If it is accepted it sends a reading whenever
it is asked for one, by a tick or by a command to refresh, until the connection ends, and nothing
else.

## Main definitions

* `Client.Event.verdict?`, `Client.Event.ending?`, `Client.Event.asks`: what events mean.
* `Client.run`: the frames that some events bring about.
* `Client.asked`: the readings that are asked for before the connection ends.
-/
namespace FleetWatch.Agent.Client

/-- How an event decides about an authentication: by a failure, or with what is to be probed. -/
def Event.verdict? : Event → Option (Except Failure (List ProbeTarget))
  | .text s =>
    match Message.ToAgent.schema.decode s with
    | .ok (.auth .ok _ targets) => some (.ok targets)
    | .ok (.auth .error reason _) => some (.error (.rejected reason))
    | _ => none
  | .close => some (.error .closedEarly)
  | .cut => some (.error .brokenEarly)
  | _ => none

/-- How an event ends the connection of an agent that was accepted. -/
def Event.ending? : Event → Option (Option Failure)
  | .close => some none
  | .cut => some (some .broken)
  | _ => none

/-- An event that a reading is sent for: a tick, or a command to refresh. -/
def Event.asks : Event → Bool
  | .tick => true
  | .text s =>
    match Message.ToAgent.schema.decode s with
    | .ok (.command command) => command.action = "refresh"
    | _ => false
  | _ => false

theorem Event.asks_text_iff {s : String} :
    (Event.text s).asks ↔ ∃ command, Message.ToAgent.schema.decode s = .ok (.command command) ∧
      command.action = "refresh" := by
  simp only [asks]
  split
  · next command hdecode => simp [hdecode]
  · next hother =>
    simp only [Bool.false_eq_true, false_iff, not_exists, not_and]
    exact fun command hdecode => absurd hdecode (hother command)

/-- The readings that are asked for before the connection ends. -/
def asked (events : List (Event × Snapshot)) : List Snapshot :=
  ((events.takeWhile fun p => p.1.ending?.isNone).filter fun p => p.1.asks).map Prod.snd

/-- The agent after some events, each with its reading at the time, and the frames that it has
sent. -/
def run (c : Client) : List (Event × Snapshot) → Client × List Message.FromAgent
  | [] => (c, [])
  | (e, reading) :: events =>
    let (after, frames) := c.step reading e
    let (last, more) := after.run events
    (last, frames ++ more)

variable {c : Client} {e : Event} {reading : Snapshot} {events : List (Event × Snapshot)}

theorem run_cons (c : Client) (e : Event) (reading : Snapshot) (events : List (Event × Snapshot)) :
    c.run ((e, reading) :: events) =
      (((c.step reading e).1.run events).1,
        (c.step reading e).2 ++ ((c.step reading e).1.run events).2) := rfl

theorem run_append (c : Client) (events more : List (Event × Snapshot)) :
    c.run (events ++ more) =
      (((c.run events).1.run more).1, (c.run events).2 ++ ((c.run events).1.run more).2) := by
  induction events generalizing c with
  | nil => rfl
  | cons p events ih => rw [List.cons_append, run_cons, run_cons, ih, List.append_assoc]

/-! ## Single events -/

/-- An event that decides nothing leaves an agent waiting. -/
theorem step_of_verdict?_eq_none (h : c.phase = .authenticating) (he : e.verdict? = none) :
    c.step reading e = (c, []) := by
  cases e with
  | text s =>
    simp only [step, h, answer]
    grind [Event.verdict?]
  | other => rfl
  | tick => simp [step, h]
  | _ => cases he

/-- A failure ends the connection of an agent that waits. -/
theorem step_of_verdict?_eq_error (h : c.phase = .authenticating) {failure : Failure}
    (he : e.verdict? = some (.error failure)) :
    c.step reading e = ({ c with phase := .ended (some failure) }, []) := by
  cases e with
  | text s =>
    simp only [step, h, answer]
    grind [Event.verdict?]
  | other => cases he
  | tick => cases he
  | close => cases he; simp [step, h]
  | cut => cases he; simp [step, h]

/-- An agent that is accepted streams. -/
theorem step_of_verdict?_eq_ok (h : c.phase = .authenticating) {targets : List ProbeTarget}
    (he : e.verdict? = some (.ok targets)) :
    c.step reading e = ({ c with phase := .streaming, targets }, []) := by
  cases e with
  | text s =>
    simp only [step, h, answer]
    grind [Event.verdict?]
  | _ => cases he

/-- An agent that streams sends a reading for an event that asks for one. -/
theorem step_of_ending?_eq_none (h : c.phase = .streaming) (he : e.ending? = none) :
    c.step reading e = (c, if e.asks then [push reading] else []) := by
  cases e with
  | text s =>
    simp only [step, h, asksForReading, Event.asks]
    rfl
  | other => rfl
  | tick => simp [step, h, Event.asks]
  | _ => cases he

theorem step_of_ending?_eq_some (h : c.phase = .streaming) {failure : Option Failure}
    (he : e.ending? = some failure) :
    c.step reading e = ({ c with phase := .ended failure }, []) := by
  cases e with
  | close => cases he; simp [step, h]
  | cut => cases he; simp [step, h]
  | _ => cases he

theorem step_of_ended {failure : Option Failure} (h : c.phase = .ended failure) :
    c.step reading e = (c, []) := by
  cases e <;> simp [step, h]

/-! ## Runs -/

theorem run_of_ended {failure : Option Failure} (h : c.phase = .ended failure)
    (events : List (Event × Snapshot)) : c.run events = (c, []) := by
  induction events with
  | nil => rfl
  | cons p events ih => rw [run_cons, step_of_ended h, ih]; rfl

/-- As long as nothing is decided an agent waits and says nothing. -/
theorem run_of_undecided (h : c.phase = .authenticating)
    (hnone : ∀ p ∈ events, p.1.verdict? = none) : c.run events = (c, []) := by
  induction events with
  | nil => rfl
  | cons p events ih =>
    obtain ⟨hp, hrest⟩ := List.forall_mem_cons.mp hnone
    rw [run_cons, step_of_verdict?_eq_none h hp, ih hrest]
    rfl

/-- An agent that streams sends the readings that it is asked for until the connection ends. -/
theorem run_of_streaming (h : c.phase = .streaming) (events : List (Event × Snapshot)) :
    c.run events =
      ({ c with
        phase := ((events.findSome? fun p => p.1.ending?).map Phase.ended).getD .streaming },
        (asked events).map push) := by
  induction events with
  | nil => simp [run, asked, ← h]
  | cons p events ih =>
    obtain ⟨e, reading⟩ := p
    rw [run_cons]
    cases he : e.ending? with
    | none =>
      rw [step_of_ending?_eq_none h he, ih]
      cases hasks : e.asks <;> simp [asked, he, hasks]
    | some failure =>
      rw [step_of_ending?_eq_some h he, run_of_ended rfl]
      simp [asked, he]

/-- An agent that has presented itself sends readings only. -/
theorem exists_push_of_mem_run {m : Message.FromAgent} (hm : m ∈ (c.run events).2) :
    ∃ r, m = push r := by
  induction events generalizing c with
  | nil => cases hm
  | cons p events ih =>
    rw [run_cons] at hm
    rcases List.mem_append.mp hm with hnow | hlater
    · refine ⟨p.2, ?_⟩
      unfold step at hnow
      grind
    · exact ih hlater

/-- Everything that an agent says on a connection. -/
def said (serverId token : String) (events : List (Event × Snapshot)) : List Message.FromAgent :=
  (start serverId token).2 :: ((start serverId token).1.run events).2

theorem said_of_run {serverId token : String} {frames : List Message.FromAgent}
    (h : (start serverId token).1.run events = (c, frames)) :
    said serverId token events = (start serverId token).2 :: frames := by
  rw [said, h]

/-- The first event that decides about an authentication settles what an agent says. -/
theorem run_of_verdict (h : c.phase = .authenticating) {before : List (Event × Snapshot)}
    (hbefore : ∀ p ∈ before, p.1.verdict? = none) (reading : Snapshot)
    (after : List (Event × Snapshot)) :
    (∀ failure, e.verdict? = some (.error failure) →
      c.run (before ++ (e, reading) :: after) =
        ({ c with phase := .ended (some failure) }, [])) ∧
    ∀ targets, e.verdict? = some (.ok targets) →
      c.run (before ++ (e, reading) :: after) =
        ({ phase := ((after.findSome? fun p => p.1.ending?).map Phase.ended).getD .streaming
           targets },
          (asked after).map push) := by
  rw [run_append, run_of_undecided h hbefore, run_cons]
  refine ⟨fun failure he => ?_, fun targets he => ?_⟩
  · rw [step_of_verdict?_eq_error h he, run_of_ended rfl]
    rfl
  · rw [step_of_verdict?_eq_ok h he, run_of_streaming rfl]
    rfl

/-- An agent that streams or has sent a reading has been accepted. -/
theorem exists_acceptance (h : c.phase = .authenticating)
    (hactive : (c.run events).1.phase = .streaming ∨ (c.run events).2 ≠ []) :
    ∃ p ∈ events, ∃ targets, p.1.verdict? = some (.ok targets) := by
  cases hfirst : events.findSome? fun p => p.1.verdict? with
  | none =>
    rw [run_of_undecided h fun p hp => List.findSome?_eq_none_iff.mp hfirst p hp, h] at hactive
    simp at hactive
  | some verdict =>
    obtain ⟨before, p, after, rfl, hp, hbefore⟩ := List.findSome?_eq_some_iff.mp hfirst
    obtain ⟨hrefused, -⟩ := run_of_verdict (e := p.1) h hbefore p.2 after
    cases verdict with
    | error failure =>
      rw [hrefused failure hp] at hactive
      simp at hactive
    | ok targets => exact ⟨p, by simp, targets, hp⟩

end FleetWatch.Agent.Client
