import FleetWatch.Proofs.Session.Routing

/-!
# Where live state comes from

Every live entry is the latest reading that was put for its host, by a session that was admitted as
that host, and was accepted then. A session is admitted by the token that the directory answers with
at the moment of its first authentication, and closed by any other outcome of that; a closed session
has no effect any more.

## Main definitions

* `System.Checks`: a session is about to check the token of its first authentication.
* `System.Sourced`: live entries are what was put, and what was put was accepted.
-/
namespace FleetWatch.Sessions

namespace System

/-- The session has just presented itself for the first time, with a token for a host, and the
directory is asked for that next. -/
def Checks (s : System) (id : Session.Id) (hostId token : String) : Prop :=
  ∃ v version, s.visits[id]? = some v ∧ v.session.state = .connected ∧
    v.presented? = some (hostId, token) ∧ v.work = .checking hostId token version

/-- Live entries are the latest that were put, and these were accepted of sessions that had the
host. -/
structure Sourced (s : System) : Prop where
  visits : s.SoundVisits
  live : ∀ hostId, s.hub.live.get? hostId =
    (s.puts.find? fun p => p.hostId = hostId).map fun p => ⟨hostId, p.snapshot, p.time⟩
  puts : ∀ p ∈ s.puts, ∃ v, s.visits[p.id]? = some v ∧ (p.hostId, p.snapshot) ∈ v.accepted ∧
    (v.session.state = .authenticated p.hostId ∨ v.IsClosed)

/-- The usages of a reading that was delivered are numbers. -/
theorem isFinite_of_delivered {v : Visit} {hostId : String} {reading : Snapshot}
    (h : v.Delivered hostId reading) :
    reading.cpu.usage.isFinite ∧ reading.memory.usagePercent.isFinite := by
  obtain ⟨_, _, _, _, _, -, -, hfinite⟩ := h
  exact hfinite

namespace Sourced
variable {s t : System}

/-- A step that puts nothing. -/
theorem of_quiet (h : s.Sourced) (hstep : Step s t) (hlive : t.hub.live = s.hub.live)
    (hputs : t.puts = s.puts) : t.Sourced where
  visits := (h.visits.step hstep).1
  live := fun hostId => by rw [hlive, hputs, h.live]
  puts := fun p hp => by
    obtain ⟨v, hv, haccepted, hstate⟩ := h.puts p (hputs ▸ hp)
    obtain ⟨w, hw, hvw⟩ := (h.visits.step hstep).2 p.id v hv
    exact ⟨w, hw, hvw.accepted _ haccepted, hvw.keeps hstate⟩

theorem put (h : s.Sourced) {id : Session.Id} {v : Visit} {hostId : String} {reading : Snapshot}
    {version : Option String} (hv : s.visits[id]? = some v)
    (hwork : v.work = .putting hostId reading version) (now : ClockTime) :
    System.Sourced
      { s.setVisit id { v with work := .learning hostId reading version } with
        hub := { s.hub with live := s.hub.live.put hostId reading now.1 }
        puts := ⟨id, hostId, reading, now⟩ :: s.puts } := by
  have hstep := h.visits.step (Step.put hv hwork now)
  obtain ⟨hstate, haccepted⟩ := (h.visits id v hv).2.of_putting hwork
  refine ⟨hstep.1, fun k => ?_, fun p hp => ?_⟩
  · rw [LiveStore.get?_put, List.find?_cons]
    by_cases e : hostId = k
    · simp [e]
    · simpa [e] using h.live k
  · rcases List.mem_cons.mp hp with rfl | hp
    · exact ⟨_, (getElem?_setVisit hv).trans (if_pos rfl), haccepted, .inl hstate⟩
    · obtain ⟨u, hu, hmem, hlater⟩ := h.puts p hp
      obtain ⟨w, hw, huw⟩ := hstep.2 p.id u hu
      exact ⟨w, hw, huw.accepted _ hmem, huw.keeps hlater⟩

theorem live_close (s : AgentSession) (h : Hub) : (s.close h).2.live = h.live := by
  unfold AgentSession.close
  split <;> rfl

theorem step (h : s.Sourced) (hstep : Step s t) : t.Sourced := by
  have hall := hstep
  cases hstep with
  | stay => exact h
  | put hv hwork now => exact h.put hv hwork now
  | close => exact h.of_quiet hall (live_close _ _) rfl
  | _ => exact h.of_quiet hall rfl rfl

theorem start (settings : Settings) (directory : Directory) (keeper : History.Keeper) :
    (start settings directory keeper).Sourced where
  visits := soundVisits_start settings directory keeper
  live := fun hostId => by simp [System.start, LiveStore.get?]
  puts := fun p hp => by cases hp

theorem run (h : s.Sourced) (actions : List Action) : (s.run actions).Sourced :=
  run_induction h (fun hs hstep => hs.step hstep) actions

end Sourced

/-! ## The moment of admission -/

/-- A session that has heard and been answered the same was admitted the same. -/
theorem admittedAs_of_same {v w : Visit} {hostId : String} (h : w.AdmittedAs hostId)
    (hheard : w.heard = v.heard) (hanswer : w.answer = v.answer) : v.AdmittedAs hostId := by
  obtain ⟨token, hpresented, ha⟩ := h
  refine ⟨token, ?_, hanswer.symm.trans ha⟩
  rwa [Visit.presented?, hheard] at hpresented

/-- A session that was admitted before it heard a text was not admitted by that. -/
theorem admittedAs_of_hear {v : Visit} (h : v.Sound) {text hostId : String}
    (hadmitted : (v.hear text).AdmittedAs hostId) : v.AdmittedAs hostId := by
  obtain ⟨token, hpresented, hanswer⟩ := hadmitted
  obtain ⟨k, t, hbefore, -⟩ := h.answered _ hanswer
  refine ⟨token, ?_, hanswer⟩
  rwa [Visit.presented?_hear, hbefore, Option.some_or, ← hbefore] at hpresented

/-- A session that is admitted after a step was so before it, or is admitted by it, with the token
that the directory answers with now. -/
theorem admittedAs_of_step {s t : System} (h : s.SoundVisits) (hstep : Step s t) {id : Session.Id}
    {w : Visit} (hw : t.visits[id]? = some w) {hostId : String} (hadmitted : w.AdmittedAs hostId) :
    (∃ v, s.visits[id]? = some v ∧ v.AdmittedAs hostId) ∨
      ∃ token, s.Checks id hostId token ∧
        s.hub.directory.resolveToken hostId = .ok (some token) := by
  -- a step that changes one session only
  have hset : ∀ {j : Session.Id} {u u' : Visit}, s.visits[j]? = some u →
      (s.visits.set j u')[id]? = some w →
      (u'.AdmittedAs hostId → u.AdmittedAs hostId ∨ ∃ token, s.Checks j hostId token ∧
        s.hub.directory.resolveToken hostId = .ok (some token)) →
      (∃ v, s.visits[id]? = some v ∧ v.AdmittedAs hostId) ∨
        ∃ token, s.Checks id hostId token ∧
          s.hub.directory.resolveToken hostId = .ok (some token) := by
    intro j u u' hu hplace himp
    rw [show s.visits.set j u' = (s.setVisit j u').visits from rfl, getElem?_setVisit hu] at hplace
    split at hplace
    · next e =>
      subst e
      obtain rfl := Option.some.inj hplace
      exact (himp hadmitted).imp_left fun hu' => ⟨u, hu, hu'⟩
    · exact .inl ⟨w, hplace, hadmitted⟩
  -- the answer that a check brings is that of the directory
  have hcheck : ∀ {j : Session.Id} {u u' : Visit} {k token : String} {version : Option String},
      s.visits[j]? = some u → u.work = .checking k token version → u'.AdmittedAs hostId →
      u'.heard = u.heard → u'.answer = some (s.hub.directory.resolveToken k) →
      ∃ token, s.Checks j hostId token ∧
        s.hub.directory.resolveToken hostId = .ok (some token) := by
    intro j u u' k token version hu hwork hu' hheard hanswer
    obtain ⟨hstate, hpresented, -⟩ := (h j u hu).2.of_checking hwork
    obtain ⟨given, hgiven, hadmits⟩ := hu'
    rw [Visit.presented?, hheard, ← Visit.presented?, hpresented] at hgiven
    obtain ⟨rfl, rfl⟩ := Prod.mk.inj (Option.some.inj hgiven)
    exact ⟨token, ⟨u, version, hu, hstate, hpresented, hwork⟩,
      Option.some.inj (hanswer.symm.trans hadmits)⟩
  cases hstep with
  | connect remoteIp =>
    have hvisits : (s.connect remoteIp).visits =
        s.visits ++ [{ session := { id := s.visits.length, remoteIp } }] := rfl
    rw [hvisits, List.getElem?_append] at hw
    split at hw
    · exact .inl ⟨w, hw, hadmitted⟩
    · obtain ⟨-, rfl⟩ : _ ∧ ({ session := { id := s.visits.length, remoteIp } } : Visit) = w := by
        simpa [List.getElem?_singleton] using hw
      obtain ⟨token, -, hanswer⟩ := hadmitted
      cases hanswer
  | hear hv hwork text =>
    exact hset hv hw fun hu => .inl (admittedAs_of_hear (h _ _ hv).2 hu)
  | grant hv hwork htoken =>
    exact hset hv hw fun hu => .inr (hcheck hv hwork hu rfl (congrArg some htoken.symm))
  | reject hv hwork => exact hset hv hw fun hu => .inr (hcheck hv hwork hu rfl rfl)
  | enter hv _ => exact hset hv hw fun hu => .inl (admittedAs_of_same hu rfl rfl)
  | learn hv hlearns _ =>
    exact hset hv hw fun hu => .inl (admittedAs_of_same hu hlearns.heard hlearns.answer)
  | record hv _ _ => exact hset hv hw fun hu => .inl (admittedAs_of_same hu rfl rfl)
  | put hv _ _ => exact hset hv hw fun hu => .inl (admittedAs_of_same hu rfl rfl)
  | close hv _ => exact hset hv hw fun hu => .inl (admittedAs_of_same hu rfl rfl)
  | _ => exact .inl ⟨w, hw, hadmitted⟩

/-- Every admission has its moment in the run, unless it was there before. -/
theorem checks_of_admittedAs {s : System} (h : s.SoundVisits) (actions : List Action)
    {id : Session.Id} {w : Visit} (hw : (s.run actions).visits[id]? = some w) {hostId : String}
    (hadmitted : w.AdmittedAs hostId) :
    (∃ v, s.visits[id]? = some v ∧ v.AdmittedAs hostId) ∨
      ∃ before after token, actions = before ++ after ∧ (s.run before).Checks id hostId token ∧
        (s.run before).hub.directory.resolveToken hostId = .ok (some token) := by
  induction actions generalizing s with
  | nil => exact .inl ⟨w, hw, hadmitted⟩
  | cons a actions ih =>
    have hstep := s.step_step a
    rcases ih (h.step hstep).1 hw with ⟨v, hv, hv'⟩ | ⟨before, after, token, rfl, hmoment⟩
    · refine (admittedAs_of_step h hstep hv hv').imp_right fun ⟨token, hmoment⟩ => ?_
      exact ⟨[], a :: actions, token, rfl, hmoment⟩
    · exact .inr ⟨a :: before, after, token, rfl, hmoment⟩

/-- A session whose token is not the directory's is closed by the check. -/
theorem closed_of_checks {s : System} {id : Session.Id} {hostId token : String}
    (h : s.Checks id hostId token)
    (hanswer : s.hub.directory.resolveToken hostId ≠ .ok (some token)) (now : ClockTime) :
    ∃ w, (s.proceed id now).visits[id]? = some w ∧ w.IsClosed := by
  obtain ⟨v, version, hv, -, -, hwork⟩ := h
  have hcheck : AgentSession.checkToken s.hub.directory hostId token ≠ .ok () :=
    fun hok => hanswer ((AgentSession.checkToken_eq_ok_iff ..).mp hok)
  simp only [proceed, hv, hwork]
  split
  · next hok => exact absurd hok hcheck
  · exact ⟨_, (getElem?_setVisit hv).trans (if_pos rfl), rfl⟩

/-! ## Closed sessions -/

/-- A closed session has nothing left to do. -/
theorem work_of_isClosed {v : Visit} (h : v.Sound) (hclosed : v.IsClosed) : v.work = .idle := by
  have hfits := h.fits
  rw [Visit.IsClosed] at hclosed
  unfold Visit.Fits at hfits
  split at hfits <;> simp_all

/-- Nothing that a closed session hears or does changes the hub. -/
theorem hub_of_isClosed {s : System} (h : s.SoundVisits) {id : Session.Id} {v : Visit}
    (hv : s.visits[id]? = some v) (hclosed : v.IsClosed) (text : String) (now : ClockTime) :
    (s.hear id text).hub = s.hub ∧ (s.proceed id now).hub = s.hub ∧ (s.close id).hub = s.hub := by
  have hwork := work_of_isClosed (h id v hv).2 hclosed
  rw [Visit.IsClosed] at hclosed
  simp [hear, proceed, close, hv, hwork, AgentSession.close, AgentSession.hostId?, hclosed,
    setVisit]

/-- A closed session stays closed. -/
theorem Evolves.isClosed {s t : System} (h : s.Evolves t) {id : Session.Id} {v : Visit}
    (hv : s.visits[id]? = some v) (hclosed : v.IsClosed) :
    ∃ w, t.visits[id]? = some w ∧ w.IsClosed := by
  obtain ⟨w, hw, hvw⟩ := h id v hv
  refine ⟨w, hw, ?_⟩
  rcases hvw.state with hsame | hlater | hconnected
  · exact hsame.trans hclosed
  · exact hlater
  · exact absurd (hconnected.symm.trans hclosed) (by simp)

/-- After every run, the entry of a host is the latest reading that was put for it: a reading that
was accepted of a session which had been admitted as the host, at the moment when the first
authentication that it heard was checked and the directory answered with the token presented. Any
other answer at such a moment has closed the session. Later a session has no other host, and a
closed one stays closed and changes the hub no more. -/
theorem live_state_provenance (settings : Settings) (directory : Directory)
    (keeper : History.Keeper) (actions : List Action) :
    let start := start settings directory keeper
    let s := start.run actions
    (∀ hostId e, s.hub.live.get? hostId = some e → e.hostId = hostId ∧ ∃ p v,
      s.puts.find? (fun p => p.hostId = hostId) = some p ∧
      e.snapshot = p.snapshot ∧ e.receivedAt = p.time ∧
      s.visits[p.id]? = some v ∧ (v.session.state = .authenticated hostId ∨ v.IsClosed) ∧
      v.Delivered hostId e.snapshot ∧
      e.snapshot.cpu.usage.isFinite ∧ e.snapshot.memory.usagePercent.isFinite ∧
      ∃ before after token, actions = before ++ after ∧
        (start.run before).Checks p.id hostId token ∧
        (start.run before).hub.directory.resolveToken hostId = .ok (some token)) ∧
    (∀ before id now after hostId token, actions = before ++ .proceed id now :: after →
      (start.run before).Checks id hostId token →
      (start.run before).hub.directory.resolveToken hostId ≠ .ok (some token) →
      ∃ v, s.visits[id]? = some v ∧ v.IsClosed) ∧
    ∀ id v, s.visits[id]? = some v → ∀ later, ∃ w, (s.run later).visits[id]? = some w ∧
      (∀ hostId, v.session.state = .authenticated hostId →
        w.session.state = .authenticated hostId ∨ w.IsClosed) ∧
      (v.IsClosed → w.IsClosed ∧ ∀ text now,
        ((s.run later).hear id text).hub = (s.run later).hub ∧
        ((s.run later).proceed id now).hub = (s.run later).hub ∧
        ((s.run later).close id).hub = (s.run later).hub) := by
  intro start s
  have hstart : start.SoundVisits := soundVisits_start settings directory keeper
  have h : s.Sourced := (Sourced.start settings directory keeper).run actions
  refine ⟨fun hostId e he => ?_, ?_, fun id v hv later => ?_⟩
  · rw [h.live] at he
    obtain ⟨p, hp, rfl⟩ := Option.map_eq_some_iff.mp he
    obtain rfl : p.hostId = hostId := by simpa using List.find?_some hp
    obtain ⟨v, hv, haccepted, hstate⟩ := h.puts p (List.mem_of_find?_eq_some hp)
    obtain ⟨hadmitted, hdelivered⟩ := (h.visits p.id v hv).2.accepted _ _ haccepted
    obtain ⟨hcpu, hmem⟩ := isFinite_of_delivered hdelivered
    refine ⟨rfl, p, v, hp, rfl, rfl, hv, hstate, hdelivered, hcpu, hmem, ?_⟩
    rcases checks_of_admittedAs hstart actions hv hadmitted with ⟨u, hu, -⟩ | hmoment
    · simp [start, System.start] at hu
    · exact hmoment
  · rintro before id now after hostId token hactions hchecks hanswer
    obtain ⟨w, hw, hclosed⟩ := closed_of_checks hchecks hanswer now
    have hafter : s = ((start.run before).step (.proceed id now)).run after := by
      simp only [s, hactions, run_append, run_cons]
    rw [hafter]
    have hsound := (hstart.run before).1.step ((start.run before).step_step (.proceed id now))
    exact (hsound.1.run after).2.isClosed hw hclosed
  · have hlater := h.visits.run later
    obtain ⟨w, hw, hvw⟩ := hlater.2 id v hv
    refine ⟨w, hw, fun hostId hstate => hvw.keeps (.inl hstate), fun hclosed => ?_⟩
    obtain ⟨u, hu, hstays⟩ := hlater.2.isClosed hv hclosed
    obtain rfl := Option.some.inj (hw.symm.trans hu)
    exact ⟨hstays, hub_of_isClosed hlater.1 hw hstays⟩

def frame (reading : Snapshot) : String :=
  Message.FromAgent.schema.encode (.metrics reading none none none)

/-- Somebody else presents a token for the server. -/
def guess : String := Message.FromAgent.schema.encode (.auth "a" "x" none)

/-- One of two agents is admitted and delivers a reading. -/
def delivery : List Action :=
  [.connect none, .connect none] ++ .hear 0 greeting :: (admission 0 ++
    .hear 0 (frame (.ofUsage 10)) :: [.proceed 0 .epoch, .proceed 0 .epoch])

/-- The other agent presents itself then. -/
def attempt : List Action := delivery ++ [.hear 1 guess]

/-- The other agent is rejected. -/
def rejection : List Action := attempt ++ [.proceed 1 .epoch]

theorem decode_frame :
    Message.FromAgent.schema.decode (frame (.ofUsage 10)) =
      .ok (.metrics (.ofUsage 10) none none none) :=
  (Message.FromAgent.decode_encode_metrics_iff (.ofUsage 10) none none none).mpr
    ⟨fun hleap => absurd hleap (by decide), by decide +kernel⟩

/-- The first session once it has heard the reading. -/
def delivering : Visit where
  session := { id := 0, state := .authenticated "a" }
  work := .recording "a" (.ofUsage 10) none
  heard := [greeting, frame (.ofUsage 10)]
  answer := some (.ok (some "t"))
  accepted := [("a", .ofUsage 10)]

/-- The second session once it has heard the guess. -/
def guessing : Visit where
  session := { id := 1 }
  work := .checking "a" "x" none
  heard := [guess]

theorem visits_firstAdmitted (keeper : History.Keeper) :
    (firstAdmitted keeper).visits =
      [{ delivering with work := .idle, heard := [greeting], accepted := [] },
        { session := { id := 1 } }] := rfl

theorem hear_frame (keeper : History.Keeper) :
    (firstAdmitted keeper).hear 0 (frame (.ofUsage 10)) =
      (firstAdmitted keeper).setVisit 0 delivering := by
  have haccepts : AgentSession.Accepts "a" none (.ofUsage 10) :=
    ⟨by simp, by decide, by decide⟩
  have hstate : ({ id := 0, state := .authenticated "a" } : AgentSession).state =
    .authenticated "a" := rfl
  have hv := congrArg (fun visits => visits[0]?) (visits_firstAdmitted keeper)
  simp only [List.getElem?_cons_zero] at hv
  simp only [hear, hv]
  rw [Visit.hear_metrics hstate decode_frame haccepts]
  rfl

/-- The reading has been put. -/
def delivered (keeper : History.Keeper) : System :=
  ((firstAdmitted keeper).setVisit 0 delivering).run
    [.proceed 0 .epoch, .proceed 0 .epoch]

theorem run_delivery (keeper : History.Keeper) :
    (start .small oneServer keeper).run delivery = delivered keeper := by
  rw [delivery, run_firstAdmitted, run_hear, hear_frame, ← delivered]

theorem run_attempt :
    (start .small oneServer none).run attempt = (delivered none).setVisit 1 guessing := by
  have hv : (delivered none).visits[1]? = some { session := { id := 1 } } := rfl
  rw [attempt, run_append, run_delivery, run_hear, run_nil]
  simp only [hear, hv]
  rw [guess, Visit.hear_auth rfl]
  rfl

theorem run_rejection :
    (start .small oneServer none).run rejection =
      ((delivered none).setVisit 1 guessing).step (.proceed 1 .epoch) := by
  rw [rejection, run_append, run_attempt, run_cons, run_nil]

theorem checks_attempt : ((start .small oneServer none).run attempt).Checks 1 "a" "x" := by
  rw [run_attempt]
  refine ⟨guessing, none, rfl, rfl, ?_, rfl⟩
  simp only [guessing, Visit.presented?, List.findSome?_cons, presented?, guess,
    Message.FromAgent.decode_encode_auth]

/-- The reading is traced back to the admission of its agent, and the other agent is closed. -/
theorem delivered_reading_is_traced :
    let s := (start .small oneServer none).run rejection
    s.hub.live.get? "a" = some ⟨"a", .ofUsage 10, .epoch⟩ ∧
    (∃ before after token, rejection = before ++ after ∧
      ((start .small oneServer none).run before).Checks 0 "a" token ∧
      ((start .small oneServer none).run before).hub.directory.resolveToken "a" =
        .ok (some token)) ∧
    ∃ v, s.visits[1]? = some v ∧ v.IsClosed ∧ ∀ text, (s.hear 1 text).hub = s.hub := by
  obtain ⟨hlive, hclosed, hlater⟩ := live_state_provenance .small oneServer none rejection
  have hentry : ((start .small oneServer none).run rejection).hub.live.get? "a" =
      some ⟨"a", .ofUsage 10, .epoch⟩ := by
    rw [run_rejection]
    rfl
  have hput : ((start .small oneServer none).run rejection).puts.find? (fun p => p.hostId = "a") =
      some ⟨0, "a", .ofUsage 10, .epoch⟩ := by
    rw [run_rejection]
    rfl
  have hanswer : ((start .small oneServer none).run attempt).hub.directory.resolveToken "a" ≠
      .ok (some "x") := by
    have htoken : ((delivered none).setVisit 1 guessing).hub.directory.resolveToken "a" =
      .ok (some "t") := rfl
    rw [run_attempt, htoken]
    simp
  obtain ⟨-, p, v, hp, -, -, -, -, -, -, -, hmoment⟩ := hlive "a" _ hentry
  have hfirst : p = ⟨0, "a", .ofUsage 10, .epoch⟩ := Option.some.inj (hp.symm.trans hput)
  rw [hfirst] at hmoment
  obtain ⟨w, hw, hwclosed⟩ := hclosed attempt 1 _ [] "a" "x" rfl checks_attempt hanswer
  obtain ⟨u, hu, -, hquiet⟩ := hlater 1 w hw []
  rw [run_nil] at hu hquiet
  obtain rfl := Option.some.inj (hw.symm.trans hu)
  exact ⟨hentry, hmoment, w, hw, hwclosed, fun text => ((hquiet hwclosed).2 text .epoch).1⟩

end System
end FleetWatch.Sessions
