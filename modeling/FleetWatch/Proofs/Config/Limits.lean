import FleetWatch.Dashboard.View
import FleetWatch.Proofs.History.Shutdown
import FleetWatch.Proofs.Session.System
import FleetWatch.Proofs.Time.Elapsed
import FleetWatch.Proofs.Wire.RoundTrip

/-!
# Configurations and the limits of queues and time

Four numbers of a configuration become sizes and lengths of time that cannot have every value. The
room for commands is brought between its bounds and the threshold for being online below the longest
span, so that these hold for every configuration. The room for what is broadcast is only brought
above its lower bound, and the retention time is taken as it is.

## Main definitions

* `Queue.largestRing`: the most slots that a ring can have.
* `HistoryChoice.retention?`: the retention time of a configuration.
* `Sessions.System.Configured`: what stays of a configuration while the hub runs.
-/
namespace FleetWatch

/-! ## Limits -/

namespace Queue

/-- The most slots that a ring can have: half of a word's values. -/
def largestRing : Nat := UInt64.size / 2 - 1

/-- Clamped sizes stay within the bounds when they are rounded up. -/
theorem commandSlots_le (capacity : UInt64) : commandSlots capacity ≤ maxCommandSlots := by
  -- the search for a power of two can only be run, and there are not many sizes to run it on
  have hround : ∀ n : Fin (maxCommandSlots + 1), n.val.nextPowerOfTwo ≤ maxCommandSlots := by
    decide +kernel
  have hclamped : max 1 (min capacity.toNat maxCommandSlots) < maxCommandSlots + 1 := by
    unfold maxCommandSlots
    omega
  exact hround ⟨_, hclamped⟩

end Queue

namespace Time.Instant

/-- A clock can be put back as long as that does not lead out of the range of time. -/
theorem isSome_minus?_iff {t : Instant} (h : t.isLeap = false) (seconds : Nat) :
    (t.minus? seconds).isSome ↔ firstSecond ≤ t.second - seconds := by
  have hlast := t.le_last
  have hnano := t.nano_lt
  rw [minus?, h, Bool.false_and, if_neg Bool.false_ne_true, of?]
  split
  · next hrange => simp [hrange.1]
  · next hrange =>
    simp only [Option.isSome_none, Bool.false_eq_true, false_iff, Int.not_le]
    grind

end Time.Instant

namespace History.Recorder

/-- A running recorder survives a cleanup exactly when that reaches back no further than time is
counted. -/
theorem running_cleanUp_iff {r : Recorder} (h : r.phase = .running) (now : Time.Instant) :
    (r.cleanUp now).phase = .running ↔ Task.InTime r.retentionDays (.cleanUp now) := by
  constructor
  · intro hafter days hdays
    have hretention : r.retentionDays = some days := hdays
    cases hcutoff : now.minus? (days.toNat * 86400) with
    | some cutoff => rfl
    | none => simp [cleanUp, h, hretention, hcutoff] at hafter
  · intro htime
    rw [(cleanUp_of_inTime htime).1, h]

@[simp] theorem retentionDays_perform (r : Recorder) (t : Task) :
    (r.perform t).retentionDays = r.retentionDays := by
  obtain ⟨s, -, hmoves, -, hperform⟩ | ⟨-, hmoves⟩ := r.perform_cases t
  · rw [hperform, retentionDays_flushBuffer, hmoves.retentionDays]
  · exact hmoves.retentionDays

@[simp] theorem retentionDays_record (r : Recorder) (row : Row) :
    (r.record row).2.retentionDays = r.retentionDays := by
  unfold record
  split
  · rfl
  · split <;> rfl

end History.Recorder

/-! ## What stays of a configuration -/

def HistoryChoice.retention? : HistoryChoice → Option UInt32
  | database _ days => some days
  | _ => none

/-- A recorder that is started runs. -/
theorem HistoryChoice.exists_of_start {opens : String → Bool} {choice : HistoryChoice}
    {keeper : History.Keeper} (h : choice.start opens = .ok keeper) :
    ∀ r ∈ keeper, ∃ backend, r = .start backend choice.retention? := by
  intro r hr
  cases choice with
  | nowhere =>
    obtain rfl := Except.ok.inj h
    cases hr
  | memory capacity =>
    obtain rfl := Except.ok.inj h
    exact ⟨_, (Option.some.inj hr).symm⟩
  | database path days =>
    simp only [start] at h
    split at h
    · obtain rfl := Except.ok.inj h
      exact ⟨_, (Option.some.inj hr).symm⟩
    · cases h

/-- A hub that starts has the settings of its configuration, a directory of its servers and targets,
and the recorder of its choice of history. -/
theorem Hub.ofConfig_eq_ok {opens : String → Bool} {c : Config} {h : Hub}
    (hstart : Hub.ofConfig opens c = .ok h) :
    ∃ keeper, c.effectiveHistory.start opens = .ok keeper ∧
      h = { settings := c.settings, directory := .ofConfig c, keeper } := by
  unfold ofConfig at hstart
  cases hkeeper : c.effectiveHistory.start opens with
  | error failure =>
    rw [hkeeper] at hstart
    cases hstart
  | ok keeper =>
    rw [hkeeper] at hstart
    exact ⟨keeper, rfl, (Except.ok.inj hstart).symm⟩

namespace Sessions.System

/-- Settings and retention time are those of the configuration. -/
structure Configured (c : Config) (s : System) : Prop where
  settings : s.hub.settings = c.settings
  retention : ∀ r ∈ s.hub.keeper, r.retentionDays = c.effectiveHistory.retention?

namespace Configured
variable {c : Config} {s t : System}

theorem record (h : s.Configured c) (hostId : String) (reading : Snapshot) (now : Time.Instant)
    {r : History.Recorder} (hr : r ∈ (s.hub.record hostId reading now).2.keeper) :
    r.retentionDays = c.effectiveHistory.retention? := by
  cases hkeeper : s.hub.keeper with
  | none => simp [Hub.record, History.Keeper.record, hkeeper] at hr
  | some before =>
    simp only [Hub.record, History.Keeper.record, hkeeper, Option.mem_def, Option.some.injEq] at hr
    rw [← hr, History.Recorder.retentionDays_record]
    exact h.retention before hkeeper

/-- Nothing that happens changes the settings or the retention time. -/
theorem step (h : s.Configured c) (hstep : Step s t) : t.Configured c := by
  cases hstep with
  | record => exact ⟨h.settings, fun _ => h.record _ _ _⟩
  | own => exact ⟨h.settings, fun _ => h.record _ _ _⟩
  | close hv hwork =>
    unfold AgentSession.close
    split <;> exact ⟨h.settings, h.retention⟩
  | recorder task =>
    refine ⟨h.settings, fun r hr => ?_⟩
    obtain ⟨before, hbefore, rfl⟩ := Option.map_eq_some_iff.mp hr
    rw [History.Recorder.retentionDays_perform]
    exact h.retention before hbefore
  | _ => exact ⟨h.settings, h.retention⟩

theorem run (h : s.Configured c) (actions : List Action) : (s.run actions).Configured c :=
  run_induction h (fun hs hstep => hs.step hstep) actions

/-- What a configuration starts goes by it. -/
theorem ofConfig {opens : String → Bool} {hub : Hub} (h : Hub.ofConfig opens c = .ok hub) :
    Configured c { hub } := by
  obtain ⟨keeper, hkeeper, rfl⟩ := Hub.ofConfig_eq_ok h
  refine ⟨rfl, fun r hr => ?_⟩
  obtain ⟨backend, rfl⟩ := HistoryChoice.exists_of_start hkeeper r hr
  rfl

end Configured

/-- Whatever the configuration and whatever has happened since, a session that begins gets a command
queue of a size that there can be, and who is online is found with differences of time that can be
represented, with the answer that the threshold as configured has. A dashboard attaches exactly when
a queue of the configured size can exist. The recorder runs when the hub starts, and survives a
cleanup, be it the one that is due at the start or a later one, exactly when going back by the
retention time from the time of the clock stays within the range of time. -/
theorem operations_within_limits_iff (c : Config) {opens : String → Bool} {hub : Hub}
    (hstart : Hub.ofConfig opens c = .ok hub) (actions : List Action) :
    let s := run { hub } actions
    (∀ remoteIp, ∃ q, (s.connect remoteIp).hub.agents.queues[s.visits.length]? = some q ∧
      0 < q.slots ∧ q.slots ≤ Queue.largestRing) ∧
    (∀ (hostId : String) (e : LiveEntry), s.hub.entries[hostId]? = some e → ∀ clock : Time.Instant,
      (clock.since e.receivedAt).natAbs ≤ longestSpan.nanos ∧
      e.isOnline clock s.hub.settings.onlineThreshold =
        decide (clock.since e.receivedAt < c.onlineThreshold.nanos)) ∧
    (∀ id origin clock, (Dashboard.attach s.hub id origin clock).isSome ↔
      c.dashboardQueueCapacity.toNat ≤ Queue.Bounded.largest) ∧
    (∀ r ∈ hub.keeper, r.phase = .running) ∧
    ∀ r ∈ s.hub.keeper, r.phase = .running → ∀ clock : ClockTime,
      ((r.cleanUp clock.1).phase = .running ↔ ∀ days ∈ c.effectiveHistory.retention?,
        Time.firstSecond ≤ clock.1.second - (days.toNat * 86400 : Nat)) := by
  intro s
  have h : s.Configured c := (Configured.ofConfig hstart).run actions
  have htime : ∀ (retention : Option UInt32) (clock : ClockTime),
      History.Recorder.Task.InTime retention (.cleanUp clock.1) ↔ ∀ days ∈ retention,
        Time.firstSecond ≤ clock.1.second - (days.toNat * 86400 : Nat) := fun retention clock =>
    forall₂_congr fun days _ => Time.Instant.isSome_minus?_iff clock.2 _
  refine ⟨fun remoteIp => ?_, fun hostId e he clock => ⟨?_, ?_⟩, fun id origin clock => ?_,
    fun r hr => ?_, fun r hr hrunning clock => ?_⟩
  · refine ⟨Queue.commandRing s.hub.settings.commandQueueCapacity, ?_, Queue.commandSlots_pos _, ?_⟩
    · simp [connect, AgentSession.start, Session.Registry.openQueue]
    · exact Nat.le_trans (Queue.commandSlots_le _) (by decide)
  · exact Nat.le_of_lt (clock.natAbs_since_lt e.receivedAt)
  · rw [h.settings]
    exact Time.Instant.isFresh_eq ..
  · have hroom : Dashboard.queueRoom s.hub = max 1 c.dashboardQueueCapacity.toNat := by
      rw [Dashboard.queueRoom, h.settings]
      rfl
    have hlargest : 1 ≤ Queue.Bounded.largest := by decide
    rw [Dashboard.attach, hroom]
    split
    · simp only [Option.isSome_some, true_iff]
      omega
    · simp only [Option.isSome_none, Bool.false_eq_true, false_iff]
      omega
  · obtain ⟨keeper, hkeeper, rfl⟩ := Hub.ofConfig_eq_ok hstart
    obtain ⟨backend, rfl⟩ := HistoryChoice.exists_of_start hkeeper r hr
    rfl
  · rw [History.Recorder.running_cleanUp_iff hrunning, h.retention r hr]
    exact htime _ clock

/-- A configuration that says how much room dashboards have and how long the history is kept. -/
def sparseDoc (dashboardQueueCapacity : UInt64) (days : UInt32) : Json.Doc :=
  .obj [("storage", .obj [("backend", .str "sqlite"), ("retention_days", .int days.toNat)]),
    ("dashboard_queue_capacity", .int dashboardQueueCapacity.toNat)]

theorem spelled_sparseDoc (dashboardQueueCapacity : UInt64) (days : UInt32) :
    (sparseDoc dashboardQueueCapacity days).Spelled :=
  ⟨⟨trivial, Json.Literal.spelled_ofInt _, trivial⟩, Json.Literal.spelled_ofInt _, trivial⟩

/-- All else is as configured when nothing is said about it. -/
def sparseConfig (dashboardQueueCapacity : UInt64) (days : UInt32) : Config where
  listen := ⟨.v4 0 0 0 0, 3001, 0⟩
  adminToken := none
  cors := false
  trustProxyHeaders := false
  broadcastIntervalMs := 1000
  onlineThresholdSecs := 30
  commandQueueCapacity := 16
  dashboardQueueCapacity
  localHost := none
  servers := []
  pingTargets := []
  history := some (.database "./history.db" days)

/-- The hub that a sparse configuration starts. -/
def sparseHub (dashboardQueueCapacity : UInt64) (days : UInt32) : Hub where
  settings := (sparseConfig dashboardQueueCapacity days).settings
  directory := .ofConfig (sparseConfig dashboardQueueCapacity days)
  keeper := some (.start { store := .table { path := "./history.db" } } (some days))

/-- A modest configuration starts a hub that dashboards can attach to, with a recorder that survives
its cleanups. -/
theorem modest_operations_within_limits :
    Config.parse (sparseDoc 64 30).print = .ok (sparseConfig 64 30) ∧
    Hub.ofConfig (fun _ => true) (sparseConfig 64 30) = .ok (sparseHub 64 30) ∧
    (Dashboard.attach (sparseHub 64 30) 0 "somewhere" .epoch).isSome ∧
    ∀ r ∈ (sparseHub 64 30).keeper, r.phase = .running ∧ (r.cleanUp .epoch).phase = .running := by
  have hstart : Hub.ofConfig (fun _ => true) (sparseConfig 64 30) = .ok (sparseHub 64 30) := rfl
  have hreach : ∀ days ∈ (sparseConfig 64 30).effectiveHistory.retention?,
      Time.firstSecond ≤ Time.Instant.epoch.second - (days.toNat * 86400 : Nat) := by
    intro days hdays
    obtain rfl : 30 = days := Option.some.inj hdays
    decide
  obtain ⟨-, -, hattach, hfirst, hcleanup⟩ :=
    operations_within_limits_iff (sparseConfig 64 30) hstart []
  refine ⟨?_, hstart, (hattach 0 "somewhere" .epoch).mpr (by decide), fun r hr => ?_⟩
  · rw [Config.parse, Wire.Schema.decode_print _ (spelled_sparseDoc ..)]
    rfl
  · have hrunning := hfirst r hr
    exact ⟨hrunning, (hcleanup r hr hrunning .epoch).mpr hreach⟩

/-- A careless configuration is accepted, but its recorder breaks down in its first cleanup, and no
dashboard can attach. -/
theorem careless_operations_break_down :
    Config.parse (sparseDoc 18446744073709551615 4294967295).print =
      .ok (sparseConfig 18446744073709551615 4294967295) ∧
    Hub.ofConfig (fun _ => true) (sparseConfig 18446744073709551615 4294967295) =
      .ok (sparseHub 18446744073709551615 4294967295) ∧
    ((sparseHub 18446744073709551615 4294967295).keeper.map fun r => (r.cleanUp .epoch).phase) =
      some .stopped ∧
    (Dashboard.attach (sparseHub 18446744073709551615 4294967295) 0 "somewhere" .epoch).isSome =
      false := by
  refine ⟨?_, rfl, by decide, by decide⟩
  rw [Config.parse, Wire.Schema.decode_print _ (spelled_sparseDoc ..)]
  rfl

end Sessions.System
end FleetWatch
