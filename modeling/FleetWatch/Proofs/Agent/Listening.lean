import FleetWatch.Agent.Client
import FleetWatch.Proofs.Wire.Scalars

/-!
# What an agent makes of the frames it is sent

An agent that waits to be accepted passes errors and commands over; one that has been accepted stays
so, whatever it is told.

## Main definitions

* `Message.ToAgent.isVerdict`, `Message.ToAgent.command?`: answers to an authentication, commands.
* `Message.ToAgent.Heralded`: no command before an acceptance.
* `Agent.Client.listen`: the agent after some frames.
-/
namespace FleetWatch

open Wire

@[simp] theorem ProbeTarget.proper : ProbeTarget.schema.Proper :=
  ⟨by decide, fun _ => rfl, by simp⟩

@[simp] theorem ProbeTarget.returns (surplus : Json.Fault) (room : Nat) (t : ProbeTarget) :
    ProbeTarget.schema.Returns surplus (room + 1) t := by
  obtain ⟨name, host, port, kind⟩ := t
  cases port with
  | none => simp [ProbeTarget.schema]
  | some p =>
    have hport : Schema.word16.write p ≠ .null := fun h => by cases h
    simpa [ProbeTarget.schema] using hport

namespace Message

@[simp] theorem AuthStatus.returns (surplus : Json.Fault) (room : Nat) (status : AuthStatus) :
    AuthStatus.schema.Returns surplus room status := trivial

end Message

namespace Message.ToAgent

/-- The frame answers an authentication. -/
def isVerdict : ToAgent → Bool
  | .auth .. => true
  | _ => false

def command? : ToAgent → Option Command
  | .command c => some c
  | _ => none

@[simp] theorem isVerdict_accepted (targets : List ProbeTarget) :
    (accepted targets).isVerdict = true := rfl

@[simp] theorem isVerdict_error (message : String) : (error message).isVerdict = false := rfl

@[simp] theorem isVerdict_command (c : Command) : (command c).isVerdict = false := rfl

@[simp] theorem proper : schema.Proper :=
  ⟨by decide, by decide, fun _ => rfl, by simp [AuthStatus.schema], by decide, fun _ => rfl,
    by simp, by decide, fun _ => rfl, by simp [Command.fields], trivial⟩

/-- An error is read as that. -/
theorem decode_encode_error (message : String) :
    schema.decode (schema.encode (.error message)) = .ok (.error message) := by
  rw [Schema.decode_encode_iff proper]
  simp [schema]

/-- An answer to an authentication is read as that. -/
theorem decode_encode_verdict (status : AuthStatus) (message : Option String)
    (targets : List ProbeTarget) :
    schema.decode (schema.encode (.auth status message targets)) =
      .ok (.auth status message targets) := by
  have htargets (t : ProbeTarget) :
      ProbeTarget.schema.Returns .shape (Json.nestingLimit - 1 - 1) t := t.returns .shape 124
  rw [Schema.decode_encode_iff proper]
  cases message <;> simp [schema, htargets]

/-- A command without payload is read as that. -/
theorem decode_encode_command (action : String) :
    schema.decode (schema.encode (.command ⟨action, none⟩)) = .ok (.command ⟨action, none⟩) := by
  rw [Schema.decode_encode_iff proper]
  simp [schema, Command.fields]

/-- Every command among some frames comes after an acceptance. -/
def Heralded (frames : List ToAgent) : Prop :=
  ∀ before c after, frames = before ++ .command c :: after → ∃ targets, accepted targets ∈ before

variable {frames more : List ToAgent}

theorem heralded_nil : Heralded [] := by simp [Heralded]

theorem Heralded.of_append (h : Heralded (frames ++ more)) : Heralded frames :=
  fun before c after hframes => h before c (after ++ more) (by simp [hframes])

theorem Heralded.append_singleton (h : Heralded frames) {m : ToAgent} (hm : m.command? = none) :
    Heralded (frames ++ [m]) := by
  intro before c after hframes
  rcases List.eq_nil_or_concat after with rfl | ⟨rest, last, rfl⟩
  · obtain ⟨-, hlast⟩ := List.append_inj' hframes rfl
    rw [List.singleton_inj.mp hlast] at hm
    cases hm
  · rw [List.concat_eq_append, ← List.cons_append, ← List.append_assoc] at hframes
    exact h before c rest (List.append_inj' hframes rfl).1

/-- A command may follow once an acceptance is there. -/
theorem heralded_append_command (c : Command) :
    Heralded (frames ++ [.command c]) ↔
      Heralded frames ∧ ∃ targets, accepted targets ∈ frames := by
  refine ⟨fun h => ⟨h.of_append, h frames c [] rfl⟩, ?_⟩
  rintro ⟨h, haccepted⟩ before d after hframes
  rcases List.eq_nil_or_concat after with rfl | ⟨rest, last, rfl⟩
  · rwa [← (List.append_inj' hframes rfl).1]
  · rw [List.concat_eq_append, ← List.cons_append, ← List.append_assoc] at hframes
    exact h before d rest (List.append_inj' hframes rfl).1

end Message.ToAgent

namespace Agent.Client

/-- The agent after it has read some frames; `reading` is its reading at the time. -/
def listen (c : Client) (reading : Snapshot) (frames : List Message.ToAgent) : Client :=
  frames.foldl (fun c m => (c.step reading (.text (Message.ToAgent.schema.encode m))).1) c

variable {c : Client} {reading : Snapshot}

@[simp] theorem listen_nil : c.listen reading [] = c := rfl

@[simp] theorem listen_cons (m : Message.ToAgent) (frames : List Message.ToAgent) :
    c.listen reading (m :: frames) =
      (c.step reading (.text (Message.ToAgent.schema.encode m))).1.listen reading frames := rfl

theorem listen_append (frames more : List Message.ToAgent) :
    c.listen reading (frames ++ more) = (c.listen reading frames).listen reading more :=
  List.foldl_append

theorem answer_error (c : Client) (message : String) :
    c.answer (Message.ToAgent.schema.encode (.error message)) = c := by
  rw [answer, Message.ToAgent.decode_encode_error]

theorem answer_accepted (c : Client) (targets : List ProbeTarget) :
    c.answer (Message.ToAgent.schema.encode (.accepted targets)) =
      { c with phase := .streaming, targets } := by
  rw [answer, Message.ToAgent.accepted, Message.ToAgent.decode_encode_verdict]

/-- An agent that waits to be accepted makes nothing of a command. -/
theorem step_command (h : c.phase = .authenticating) (action : String) :
    c.step reading (.text (Message.ToAgent.schema.encode (.command ⟨action, none⟩))) = (c, []) := by
  simp only [step, h, answer, Message.ToAgent.decode_encode_command]

/-- An agent that streams goes on to do so whatever it is told. -/
theorem listen_of_streaming (h : c.phase = .streaming) (frames : List Message.ToAgent) :
    (c.listen reading frames).phase = .streaming := by
  induction frames generalizing c with
  | nil => exact h
  | cons m frames ih => exact ih (by simp [step, h])

/-- Errors leave an agent that waits to be accepted as it is. -/
theorem listen_errors (h : c.phase = .authenticating) {frames : List Message.ToAgent}
    (hframes : ∀ m ∈ frames, ∃ message, m = .error message) : c.listen reading frames = c := by
  induction frames with
  | nil => rfl
  | cons m frames ih =>
    obtain ⟨⟨message, rfl⟩, hrest⟩ := List.forall_mem_cons.mp hframes
    have hstep : (c.step reading
        (.text (Message.ToAgent.schema.encode (.error message)))).1 = c := by
      simp only [step, h, answer_error]
    rw [listen_cons, hstep]
    exact ih hrest

/-- An agent that is accepted after nothing but errors streams from then on. -/
theorem listen_accepted (h : c.phase = .authenticating) {before : List Message.ToAgent}
    (hbefore : ∀ m ∈ before, ∃ message, m = .error message) (targets : List ProbeTarget)
    (after : List Message.ToAgent) :
    (c.listen reading (before ++ .accepted targets :: after)).phase = .streaming := by
  rw [listen_append, listen_errors h hbefore, listen_cons]
  refine listen_of_streaming ?_ after
  simp only [step, h, answer_accepted]

/-- An agent that is answered once at most streams when it reads a heralded command. -/
theorem listen_of_heralded (h : c.phase = .authenticating) {before after : List Message.ToAgent}
    {command : Command} (hheralded : Message.ToAgent.Heralded (before ++ .command command :: after))
    (honce : (before.filter Message.ToAgent.isVerdict).length ≤ 1) :
    (c.listen reading before).phase = .streaming := by
  obtain ⟨targets, haccepted⟩ := hheralded before command after rfl
  obtain ⟨earlier, later, rfl⟩ := List.append_of_mem haccepted
  have hnone : earlier.filter Message.ToAgent.isVerdict = [] := by
    simp only [List.filter_append, List.filter_cons, Message.ToAgent.isVerdict_accepted, if_true,
      List.length_append, List.length_cons] at honce
    exact List.eq_nil_of_length_eq_zero (by omega)
  have hverdict : ∀ m ∈ earlier, m.isVerdict = false := fun m hm =>
    Bool.not_eq_true _ ▸ List.filter_eq_nil_iff.mp hnone m hm
  -- A command among the earlier frames would have been heralded by an answer before it.
  have herrors : ∀ m ∈ earlier, ∃ message, m = .error message := by
    intro m hm
    cases m with
    | error message => exact ⟨message, rfl⟩
    | auth status message pingTargets => cases hverdict _ hm
    | command other =>
      obtain ⟨first, rest, rfl⟩ := List.append_of_mem hm
      obtain ⟨targets', haccepted'⟩ := hheralded first other
        (rest ++ .accepted targets :: later ++ .command command :: after) (by simp)
      cases hverdict _ (List.mem_append_left _ haccepted')
  exact listen_accepted h herrors targets later

end Agent.Client
end FleetWatch
