import FleetWatch.Proofs.Session.Turns

/-!
# One answer for one authentication

A connection is told once at most whether its agent is accepted, and not before that is decided.
From the moment that an agent is accepted it is on its way to be told, unless nothing is written any
more.

## Main definitions

* `Connection.sentOut`, `Connection.queued`: what was written and what is still to be.
* `Connection.Orderly`: what holds of a connection at all times.
* `Connection.IsAnswered`: an agent that was accepted has been told, or will be.
-/
namespace FleetWatch.Connection

open Queue

variable {c d : Connection} {r after : Session.Registry}

/-- What is sent answers an authentication. -/
def Outgoing.isVerdict : Outgoing → Bool
  | .frame m => m.isVerdict
  | .close => false

namespace Reader

/-- What is about to be queued. -/
def pending : Reader → List Outgoing
  | replying waiting => waiting
  | _ => []

/-- An authentication is under way and has not been answered. -/
def isUndecided : Reader → Bool
  | checking .. | entering .. | remembering .. | noting .. | gathering => true
  | _ => false

/-- The answer to an authentication that was accepted is being put together. -/
def isPreparing : Reader → Bool
  | remembering .. | noting .. | gathering => true
  | _ => false

/-- No message is acted on, and no authentication is under way. -/
def isCalm : Reader → Bool
  | ready | replying _ | leaving | gone => true
  | _ => false

variable {reader : Reader}

theorem isCalm_cases (h : reader.isCalm = true) :
    (∀ m, reader ≠ .handling m) ∧ reader.isUndecided = false ∧ reader.isPreparing = false := by
  refine ⟨?_, ?_, ?_⟩
  · rintro m rfl
    cases h
  · cases reader <;> first | rfl | cases h
  · cases reader <;> first | rfl | cases h

theorem isUndecided_of_isPreparing (h : reader.isPreparing = true) :
    reader.isUndecided = true := by
  cases reader <;> first | rfl | cases h

theorem isUndecided_cases (h : reader.isUndecided = true) :
    (∀ m, reader ≠ .handling m) ∧ reader.pending = [] := by
  refine ⟨?_, ?_⟩
  · rintro m rfl
    cases h
  · cases reader <;> first | rfl | cases h

/-- The answer to an accepted authentication is being put together or about to be queued. -/
theorem isEntered_cases (h : reader.isEntered = true) :
    reader.isPreparing = true ∨ ∃ targets, reader = .replying [.frame (.accepted targets)] := by
  unfold isEntered at h
  split at h
  · exact .inl rfl
  · exact .inl rfl
  · exact .inl rfl
  · exact .inr ⟨_, rfl⟩
  · cases h

end Reader

/-- What was written, and the replies that are queued. -/
def sentOut (c : Connection) : List Outgoing := c.written.map Outgoing.frame ++ c.replies.waiting

/-- What is queued or about to be. -/
def queued (c : Connection) : List Outgoing := c.replies.waiting ++ c.reader.pending

/-- The answers to authentications that were or will be written. -/
def verdicts (c : Connection) : List Outgoing :=
  (c.sentOut ++ c.reader.pending).filter Outgoing.isVerdict

/-- What holds of a connection at all times: it is told once whether it is accepted, after that was
decided, and no command takes the way of the replies. -/
structure Orderly (c : Connection) : Prop where
  stepwise : c.IsStepwise
  quiet : ∀ o ∈ c.queued, ∀ command, o ≠ .frame (.command command)
  once : c.verdicts.length ≤ 1
  undecided : c.session.state = .connected ∨ c.reader.isUndecided = true → c.verdicts = []
  preparing : c.reader.isPreparing = true → c.session.state ≠ .connected

/-- A reader that is not about to queue anything leaves at most the replies. -/
theorem queued_sublist (hreplies : d.replies = c.replies) (hnone : d.reader.pending = []) :
    d.queued.Sublist c.queued := by
  rw [queued, hreplies, hnone, List.append_nil]
  exact List.sublist_append_left _ _

/-- The acceptance has been queued or written. -/
def IsTold (c : Connection) : Prop := ∃ targets, .frame (.accepted targets) ∈ c.sentOut

/-- An agent that was accepted has been told, or will be unless nothing is written any more. -/
def IsAnswered (c : Connection) : Prop :=
  c.reader.isEntered = true ∨ c.IsTold ∨ c.writing = false

theorem orderly_start (h : Hub) (id : Session.Id) (remoteIp : Option Net.IpAddress) :
    (start h id remoteIp).1.Orderly where
  stepwise := nofun
  quiet := nofun
  once := Nat.zero_le 1
  undecided _ := rfl
  preparing := nofun

namespace Orderly

theorem quiet_replies (h : c.Orderly) :
    ∀ o ∈ c.replies.waiting, ∀ command, o ≠ .frame (.command command) :=
  fun o ho => h.quiet o (List.mem_append_left _ ho)

/-- A step after which no more is said about authentications keeps a connection in order. -/
theorem of_verdicts (h : c.Orderly) (hverdicts : d.verdicts.Sublist c.verdicts)
    (hstepwise : d.IsStepwise) (hquiet : ∀ o ∈ d.queued, ∀ command, o ≠ .frame (.command command))
    (hundecided : d.session.state = .connected ∨ d.reader.isUndecided = true →
      c.session.state = .connected ∨ c.reader.isUndecided = true)
    (hpreparing : d.reader.isPreparing = true → d.session.state ≠ .connected) : d.Orderly where
  stepwise := hstepwise
  quiet := hquiet
  once := Nat.le_trans hverdicts.length_le h.once
  undecided hd := List.sublist_nil.mp (h.undecided (hundecided hd) ▸ hverdicts)
  preparing := hpreparing

/-- So does a step that leaves the reader as it was and sends at most what was queued. -/
theorem of_queued (h : c.Orderly) (hwritten : d.written = c.written)
    (hqueued : d.queued.Sublist c.queued) (hstepwise : d.IsStepwise)
    (hundecided : d.session.state = .connected ∨ d.reader.isUndecided = true →
      c.session.state = .connected ∨ c.reader.isUndecided = true)
    (hpreparing : d.reader.isPreparing = true → d.session.state ≠ .connected) : d.Orderly := by
  refine h.of_verdicts ?_ hstepwise (fun o ho => h.quiet o (hqueued.mem ho)) hundecided hpreparing
  rw [verdicts, verdicts, sentOut, sentOut, List.append_assoc, List.append_assoc, hwritten]
  exact (hqueued.append_left _).filter _

/-- A reader comes to rest, or goes on to queue what it was about to. -/
theorem rest (h : c.Orderly) (hreader : d.reader.isCalm = true) (hwritten : d.written = c.written)
    (hqueued : d.queued.Sublist c.queued)
    (hstate : d.session.state = .connected → c.session.state = .connected) : d.Orderly := by
  obtain ⟨hhandling, hundecided, hpreparing⟩ := Reader.isCalm_cases hreader
  refine h.of_queued hwritten hqueued (fun _ _ _ hd => absurd hd (hhandling _)) ?_ ?_
  · rw [hundecided]
    exact fun hd => .inl (hstate (hd.resolve_right Bool.false_ne_true))
  · rw [hpreparing]
    exact fun hd => absurd hd Bool.false_ne_true

/-- An authentication that is under way goes on. -/
theorem proceed (h : c.Orderly) (hbefore : c.reader.isUndecided = true)
    (hafter : d.reader.isUndecided = true) (hwritten : d.written = c.written)
    (hreplies : d.replies = c.replies)
    (hpreparing : d.reader.isPreparing = true → d.session.state ≠ .connected) : d.Orderly := by
  obtain ⟨hhandling, hpending⟩ := Reader.isUndecided_cases hafter
  exact h.of_queued hwritten (queued_sublist hreplies hpending)
    (fun _ _ _ hd => absurd hd (hhandling _)) (fun _ => .inr hbefore) hpreparing

/-- An authentication that is under way is decided. -/
theorem decide (h : c.Orderly) (hreader : c.reader.isUndecided = true) {session : AgentSession}
    (hstate : session.state ≠ .connected) {m : Message.ToAgent} {rest : List Outgoing}
    (hm : ∀ command, m ≠ .command command) (hrest : ∀ o ∈ rest, o = .close) :
    { c with session, reader := .replying (.frame m :: rest) : Connection }.Orderly := by
  have hcalm : (Reader.replying (.frame m :: rest)).isCalm = true := rfl
  obtain ⟨hhandling, hundecided, hpreparing⟩ := Reader.isCalm_cases hcalm
  refine ⟨fun _ _ _ hd => absurd hd (hhandling _), ?_, ?_, ?_, ?_⟩
  · intro o ho command heq
    simp only [queued, Reader.pending, List.mem_append, List.mem_cons] at ho
    obtain hold | rfl | hclose := ho
    · exact h.quiet o (List.mem_append_left _ hold) command heq
    · exact hm command (Outgoing.frame.inj heq)
    · cases (hrest o hclose).symm.trans heq
  · have hbefore : c.sentOut.filter Outgoing.isVerdict = [] := by
      have hnone := h.undecided (.inr hreader)
      rwa [verdicts, (Reader.isUndecided_cases hreader).2, List.append_nil] at hnone
    have hclosing : rest.filter Outgoing.isVerdict = [] :=
      List.filter_eq_nil_iff.mpr fun o ho => by simp [hrest o ho, Outgoing.isVerdict]
    change ((c.sentOut ++ .frame m :: rest).filter Outgoing.isVerdict).length ≤ 1
    rw [List.filter_append, hbefore, List.nil_append, List.filter_cons, hclosing]
    split <;> simp
  · rw [hundecided]
    exact fun hd => absurd (hd.resolve_right Bool.false_ne_true) hstate
  · rw [hpreparing]
    exact fun hd => absurd hd Bool.false_ne_true

/-- A message that is no authentication is answered by errors. -/
theorem answer (h : c.Orderly) {session : AgentSession} (hstate : session.state = c.session.state)
    {waiting : List Outgoing} (hwaiting : ∀ o ∈ waiting, ∃ message, o = .frame (.error message)) :
    { c with session, reader := .replying waiting : Connection }.Orderly := by
  have hcalm : (Reader.replying waiting).isCalm = true := rfl
  obtain ⟨hhandling, hundecided, hpreparing⟩ := Reader.isCalm_cases hcalm
  have herrors : waiting.filter Outgoing.isVerdict = [] :=
    List.filter_eq_nil_iff.mpr fun o ho => by
      obtain ⟨message, rfl⟩ := hwaiting o ho
      simp [Outgoing.isVerdict]
  refine h.of_verdicts ?_ (fun _ _ _ hd => absurd hd (hhandling _)) ?_ ?_ ?_
  · change ((c.sentOut ++ waiting).filter Outgoing.isVerdict).Sublist c.verdicts
    rw [List.filter_append, herrors, List.append_nil]
    exact (List.sublist_append_left ..).filter _
  · intro o ho command heq
    obtain hold | hnew := List.mem_append.mp ho
    · exact h.quiet o (List.mem_append_left _ hold) command heq
    · obtain ⟨message, rfl⟩ := hwaiting o hnew
      cases heq
  · rw [hundecided, hstate]
    exact fun hd => .inl (hd.resolve_right Bool.false_ne_true)
  · rw [hpreparing]
    exact fun hd => absurd hd Bool.false_ne_true

theorem arrives (h : c.Orderly) (harrives : c.Arrives d) : d.Orderly := by
  cases harrives with
  | wait => exact h
  | take reader hready hafter =>
    obtain ⟨m, rfl, hm⟩ | ⟨hostId, token, version, rfl, hstate⟩ | rfl | rfl := hafter
    · refine h.of_queued rfl (queued_sublist rfl rfl) ?_ ?_ ?_
      · rintro hostId token version hreader
        exact hm _ _ _ (Reader.handling.inj hreader)
      · exact fun hd => .inl (hd.resolve_right Bool.false_ne_true)
      · exact fun hd => absurd hd Bool.false_ne_true
    · refine h.of_queued rfl (queued_sublist rfl rfl) ?_ (fun _ => .inl hstate) ?_
      · exact fun _ _ _ hd => absurd hd (by simp)
      · exact fun hd => absurd hd Bool.false_ne_true
    · exact h.rest rfl rfl (queued_sublist rfl rfl) id
    · exact h.rest rfl rfl (queued_sublist rfl rfl) id

theorem reads (h : c.Orderly) (hreads : c.Reads r d after) : d.Orderly := by
  cases hreads with
  | wait => exact h
  | handle session waiting hreader hid hstate hwaiting => exact h.answer hstate hwaiting
  | reject reason hreader =>
    obtain ⟨hostId, token, version, hreader⟩ := hreader
    exact h.decide (by rw [hreader]; rfl) (by simp) (by simp [Message.ToAgent.rejected]) (by simp)
  | grant hostId version hreader =>
    obtain ⟨token, hreader⟩ := hreader
    exact h.proceed (by rw [hreader]; rfl) rfl rfl rfl fun hd => absurd hd Bool.false_ne_true
  | enter hostId version hreader => exact h.proceed (by rw [hreader]; rfl) rfl rfl rfl (by simp)
  | prepare session reader hreader hid hstate hafter =>
    have hpreparing : c.reader.isPreparing = true := by
      obtain ⟨hostId, version, hreader⟩ | ⟨hostId, version, hreader⟩ | hreader := hreader <;>
        rw [hreader] <;> rfl
    have hundecided := Reader.isUndecided_of_isPreparing hpreparing
    have hnot : session.state ≠ .connected := hstate ▸ h.preparing hpreparing
    obtain ⟨hostId, version, rfl⟩ | rfl | ⟨targets, rfl⟩ := hafter
    · exact h.proceed hundecided rfl rfl rfl fun _ => hnot
    · exact h.proceed hundecided rfl rfl rfl fun _ => hnot
    · exact h.decide hundecided hnot (by simp [Message.ToAgent.accepted]) (by simp)
  | finish hreader => exact h.rest rfl rfl (queued_sublist rfl rfl) id
  | queue o rest replies reader hreader hwriting hreplies hafter =>
    have hqueued (later : List Outgoing) (hlater : reader.pending = later)
        (hsub : later.Sublist rest) :
        { c with replies, reader : Connection }.queued.Sublist c.queued := by
      change (replies.waiting ++ reader.pending).Sublist (c.replies.waiting ++ c.reader.pending)
      rw [hreplies, hlater, hreader, List.append_assoc]
      exact (hsub.cons_cons o).append_left _
    obtain rfl | ⟨-, rfl⟩ := hafter
    · exact h.rest rfl rfl (hqueued rest rfl (.refl _)) id
    · exact h.rest rfl rfl (hqueued [] rfl (List.nil_sublist _)) id
  | giveUp hreader hwriting => exact h.rest rfl rfl (queued_sublist rfl rfl) id
  | leave after hreader hafter =>
    exact h.rest rfl rfl (queued_sublist rfl rfl) fun hd => by cases hd

theorem writes (h : c.Orderly) (hwrites : c.Writes r d after) : d.Orderly := by
  cases hwrites with
  | wait => exact h
  | idle hnone => exact h
  | reply m replies hwriting hreplies =>
    have hsent :
        { c with replies, written := c.written ++ [m] : Connection }.sentOut = c.sentOut := by
      simp [sentOut, hreplies]
    have hverdicts :
        { c with replies, written := c.written ++ [m] : Connection }.verdicts = c.verdicts := by
      rw [verdicts, verdicts, hsent]
    refine h.of_verdicts (hverdicts ▸ .refl _) h.stepwise (fun o ho => h.quiet o ?_) id h.preparing
    rw [queued, hreplies]
    exact List.mem_cons_of_mem _ ho
  | finish replies hreplies =>
    have hsub : replies.waiting.Sublist c.replies.waiting := by
      obtain hsame | hclose := hreplies
      · exact hsame ▸ .refl _
      · exact hclose ▸ List.sublist_cons_self _ _
    exact h.of_queued rfl (hsub.append_right _) h.stepwise id h.preparing
  | command command hwriting hreplies hsome =>
    refine h.of_verdicts ?_ h.stepwise h.quiet id h.preparing
    simp [verdicts, sentOut, hreplies, Outgoing.isVerdict]

/-- Nobody is told before the answer to the authentication is queued. -/
theorem not_isTold_of_isEntered (h : c.Orderly) (hentered : c.reader.isEntered = true) :
    ¬ c.IsTold := by
  rintro ⟨targets, hmem⟩
  have hsent : 0 < (c.sentOut.filter Outgoing.isVerdict).length :=
    List.length_pos_of_mem (List.mem_filter.mpr ⟨hmem, rfl⟩)
  have honce := h.once
  rw [verdicts, List.filter_append, List.length_append] at honce
  obtain hpreparing | ⟨other, hreader⟩ := Reader.isEntered_cases hentered
  · have hnone := h.undecided (.inr (Reader.isUndecided_of_isPreparing hpreparing))
    rw [verdicts, List.filter_append, List.append_eq_nil_iff] at hnone
    rw [hnone.1] at hsent
    cases hsent
  · have hpending : 0 < (c.reader.pending.filter Outgoing.isVerdict).length := by
      rw [hreader]
      exact Nat.one_pos
    omega

/-- What was written answers one authentication at most. -/
theorem verdicts_written (h : c.Orderly) :
    (c.written.filter Message.ToAgent.isVerdict).length ≤ 1 := by
  have hmap : (c.written.map Outgoing.frame).filter Outgoing.isVerdict =
      (c.written.filter Message.ToAgent.isVerdict).map Outgoing.frame := List.filter_map
  have honce := h.once
  rw [verdicts, sentOut, List.append_assoc, List.filter_append, hmap, List.length_append,
    List.length_map] at honce
  omega

end Orderly

theorem IsTold.reads (h : c.IsTold) (hreads : c.Reads r d after) : d.IsTold := by
  obtain ⟨targets, hmem⟩ := h
  refine ⟨targets, ?_⟩
  cases hreads with
  | queue o rest replies reader hreader hwriting hreplies =>
    rw [sentOut, hreplies, ← List.append_assoc]
    exact List.mem_append_left _ hmem
  | _ => exact hmem

theorem IsTold.writes (h : c.IsTold) (hwrites : c.Writes r d after) : d.IsTold := by
  obtain ⟨targets, hmem⟩ := h
  refine ⟨targets, ?_⟩
  cases hwrites with
  | reply m replies hwriting hreplies => simpa [sentOut, hreplies] using hmem
  | finish replies hreplies =>
    obtain hsame | hclose := hreplies
    · rwa [sentOut, hsame] at hmem
    · simpa [sentOut, hclose] using hmem
  | command command hwriting hreplies =>
    simpa [sentOut, hreplies, Message.ToAgent.accepted] using hmem
  | _ => exact hmem

namespace IsAnswered

theorem arrives (h : c.IsAnswered) (harrives : c.Arrives d) : d.IsAnswered := by
  cases harrives with
  | wait => exact h
  | take reader hready =>
    obtain hentered | hlater := h
    · rw [hready] at hentered
      cases hentered
    · exact .inr hlater

theorem reads (h : c.IsAnswered) (hreads : c.Reads r d after) : d.IsAnswered := by
  obtain hentered | htold | hending := h
  · cases hreads with
    | wait => exact .inl hentered
    | prepare session reader hreader hid hstate hafter =>
      obtain ⟨hostId, version, rfl⟩ | rfl | ⟨targets, rfl⟩ := hafter <;> exact .inl rfl
    | queue o rest replies reader hreader hwriting hreplies =>
      obtain hpreparing | ⟨targets, hanswer⟩ := Reader.isEntered_cases hentered
      · rw [hreader] at hpreparing
        cases hpreparing
      · obtain ⟨rfl, rfl⟩ := List.cons.inj (Reader.replying.inj (hreader.symm.trans hanswer))
        exact .inr (.inl ⟨targets, by simp [sentOut, hreplies]⟩)
    | giveUp hreader hwriting => exact .inr (.inr hwriting)
    | finish hreader =>
      rw [hreader] at hentered
      cases hentered
    | enter hostId version hreader => exact .inl rfl
    | handle session waiting hreader =>
      obtain ⟨m, hreader⟩ := hreader
      rw [hreader] at hentered
      cases hentered
    | reject reason hreader =>
      obtain ⟨hostId, token, version, hreader⟩ := hreader
      rw [hreader] at hentered
      cases hentered
    | grant hostId version hreader =>
      obtain ⟨token, hreader⟩ := hreader
      rw [hreader] at hentered
      cases hentered
    | leave after hreader =>
      rw [hreader] at hentered
      cases hentered
  · exact .inr (.inl (htold.reads hreads))
  · exact .inr (.inr (hreads.writing.trans hending))

theorem writes (h : c.IsAnswered) (hwrites : c.Writes r d after) : d.IsAnswered := by
  obtain hentered | htold | hending := h
  · exact .inl (hwrites.reader ▸ hentered)
  · exact .inr (.inl (htold.writes hwrites))
  · cases hwrites with
    | finish => exact .inr (.inr rfl)
    | _ => exact .inr (.inr hending)

/-- When no reply waits and the writer goes on, an agent that was accepted has been told, unless the
answer is about to be queued. -/
theorem accepted_mem_written (h : c.IsAnswered) (hentered : c.reader.isEntered = false)
    (hwriting : c.writing = true) (hreplies : c.replies.waiting = []) :
    ∃ targets, .accepted targets ∈ c.written := by
  obtain hreader | ⟨targets, hmem⟩ | hending := h
  · rw [hentered] at hreader
    cases hreader
  · rw [sentOut, hreplies, List.append_nil, List.mem_map] at hmem
    obtain ⟨m, hm, heq⟩ := hmem
    exact ⟨targets, Outgoing.frame.inj heq ▸ hm⟩
  · rw [hwriting] at hending
    cases hending

end IsAnswered

end FleetWatch.Connection
