import FleetWatch.Proofs.Dashboard.Readable
import FleetWatch.Proofs.Session.Provenance

/-!
# What becomes of accepted readings

The readings that sessions accept are kept in the live state and in the history, and leave the hub
as text: in full views, and as rows of a table, which keeps them as text as well. As long as all
floats of the accepted readings are read back from what they are written as, everything that is
emitted can be read. That a reading is accepted does not see to that: only two of its floats are
looked at, and the narrowing of the others to 32 bits can end at infinity, which is written as
null.

## Main definitions

* `System.Took`: a reading was accepted for a host, or is the hub's own.
* `System.Holds`: nothing is kept but what was taken.
-/
namespace FleetWatch.Sessions

open History

namespace System

/-- The reading was accepted for the host, or was taken of the hub's own machine under it. -/
def Took (s : System) (hostId : String) (reading : Snapshot) : Prop :=
  (∃ (id : Session.Id) (v : Visit), s.visits[id]? = some v ∧ (hostId, reading) ∈ v.accepted) ∨
    (hostId, reading) ∈ s.own

/-- Live state and history hold nothing but what was taken. -/
structure Holds (s : System) : Prop where
  sourced : s.Sourced
  keeper : ∀ r, s.hub.keeper = some r → r.Holds s.Took
  machine : ∀ e, s.hub.localEntry = some e → s.Took e.hostId e.snapshot

theorem Took.mono {s t : System} (hevolves : s.Evolves t) (hown : ∀ p ∈ s.own, p ∈ t.own)
    {hostId : String} {reading : Snapshot} (h : s.Took hostId reading) : t.Took hostId reading := by
  rcases h with ⟨id, v, hv, hreading⟩ | hreading
  · obtain ⟨w, hw, hvw⟩ := hevolves id v hv
    exact .inl ⟨id, w, hw, hvw.accepted _ hreading⟩
  · exact .inr (hown _ hreading)

/-- A reading that may be kept is recorded. -/
theorem holds_record {kept : String → Snapshot → Prop} {k : Keeper}
    (h : ∀ r, k = some r → r.Holds kept) {hostId : String} {reading : Snapshot}
    (hkept : kept hostId reading) (now : ClockTime) :
    ∀ r, (k.record hostId now.1 reading).2 = some r → r.Holds kept := by
  intro r hr
  cases k with
  | none => cases hr
  | some old =>
    obtain rfl := Option.some.inj hr
    exact (h old rfl).record ⟨hkept, now.2⟩

/-- The table of a history that is kept in one. -/
def table? (s : System) : Option Table :=
  s.hub.keeper.bind fun r =>
    match r.backend.store with
    | .table t => some t
    | .memory _ => none

namespace Holds
variable {s t : System}

/-- A step that leaves history and the hub's own machine. -/
theorem of_quiet (h : s.Holds) (hstep : Step s t) (hown : t.own = s.own)
    (hkeeper : t.hub.keeper = s.hub.keeper) (hmachine : t.hub.localEntry = s.hub.localEntry) :
    t.Holds := by
  have htook : ∀ k reading, s.Took k reading → t.Took k reading := fun _ _ =>
    Took.mono (h.sourced.visits.step hstep).2 fun _ hp => hown ▸ hp
  exact ⟨h.sourced.step hstep, fun r hr => (h.keeper r (hkeeper ▸ hr)).mono htook,
    fun e he => htook _ _ (h.machine e (hmachine ▸ he))⟩

theorem close_eq (a : AgentSession) (h : Hub) :
    (a.close h).2.keeper = h.keeper ∧ (a.close h).2.localEntry = h.localEntry := by
  unfold AgentSession.close
  split <;> exact ⟨rfl, rfl⟩

/-- Whatever happens, nothing is kept but what was taken. -/
theorem step (h : s.Holds) (hstep : Step s t) : t.Holds := by
  have hall := hstep
  have hsourced := h.sourced.step hall
  have hevolves := (h.sourced.visits.step hall).2
  cases hstep with
  | stay => exact h
  | @record id v hostId reading version hv hwork now =>
    have hkeep : ∀ k r, s.Took k r → System.Took
        { s.setVisit id { v with work := .putting hostId reading version } with
          hub := (s.hub.record hostId reading now.1).2 } k r :=
      fun _ _ => Took.mono hevolves fun _ hp => hp
    have haccepted := ((h.sourced.visits id v hv).2.of_recording hwork).2
    refine ⟨hsourced, ?_, fun e he => hkeep _ _ (h.machine e he)⟩
    exact holds_record (fun r hr => (h.keeper r hr).mono hkeep)
      (hkeep _ _ (.inl ⟨id, v, hv, haccepted⟩)) now
  | own hostId reading now =>
    have hkeep : ∀ k r, s.Took k r → System.Took
        { s with
          hub := s.hub.putLocalReading hostId reading now.1
          own := (hostId, reading) :: s.own } k r :=
      fun _ _ => Took.mono hevolves fun _ hp => List.mem_cons_of_mem _ hp
    refine ⟨hsourced, ?_, fun e he => ?_⟩
    · exact holds_record (fun r hr => (h.keeper r hr).mono hkeep)
        (.inr List.mem_cons_self) now
    · obtain rfl := Option.some.inj he
      exact .inr List.mem_cons_self
  | recorder task =>
    refine ⟨hsourced, fun r hr => ?_, h.machine⟩
    obtain ⟨old, hold, rfl⟩ := Option.map_eq_some_iff.mp hr
    exact (h.keeper old hold).perform task
  | close =>
    exact h.of_quiet hall rfl (close_eq _ _).1 (close_eq _ _).2
  | _ => exact h.of_quiet hall rfl rfl rfl

theorem start {choice : HistoryChoice} {opens : String → Bool} {keeper : Keeper}
    (hkeeper : choice.start opens = .ok keeper) (settings : Settings) (directory : Directory) :
    (System.start settings directory keeper).Holds := by
  refine ⟨.start settings directory keeper, fun r hr => ?_, fun e he => by cases he⟩
  obtain rfl : keeper = some r := hr
  cases choice with
  | nowhere => cases hkeeper
  | memory capacity =>
    obtain rfl := Option.some.inj (Except.ok.inj hkeeper)
    exact Recorder.holds_start _ (by simp) none
  | database path days =>
    rw [HistoryChoice.start] at hkeeper
    split at hkeeper
    · obtain rfl := Option.some.inj (Except.ok.inj hkeeper)
      exact Recorder.holds_start _ (fun t ht => by cases ht; rfl) (some days)
    · cases hkeeper

theorem run (h : s.Holds) (actions : List Action) : (s.run actions).Holds :=
  run_induction h (fun hs hstep => hs.step hstep) actions

/-- Every live entry was taken, under its own host. -/
theorem took_of_entries (h : s.Holds) {k : String} {e : LiveEntry}
    (he : s.hub.entries[k]? = some e) : e.hostId = k ∧ s.Took k e.snapshot := by
  have hlive : s.hub.live.get? k = some e → e.hostId = k ∧ s.Took k e.snapshot := by
    intro hget
    rw [h.sourced.live] at hget
    obtain ⟨p, hp, rfl⟩ := Option.map_eq_some_iff.mp hget
    obtain rfl : p.hostId = k := by simpa using List.find?_some hp
    obtain ⟨v, hv, haccepted, -⟩ := h.sourced.puts p (List.mem_of_find?_eq_some hp)
    exact ⟨rfl, .inl ⟨p.id, v, hv, haccepted⟩⟩
  -- the entry of the hub's own machine is only seen where no agent has one
  unfold Hub.entries LiveStore.consolidated at he
  split at he
  · exact hlive he
  · next own hown =>
    rw [Std.TreeMap.getElem?_insertIfNew] at he
    split at he
    · next hnew =>
      obtain rfl := Option.some.inj he
      obtain rfl : own.hostId = k := by simpa using hnew.1
      exact ⟨rfl, h.machine own hown⟩
    · exact hlive he

theorem of_table? (h : s.Holds) {u : Table} (hu : s.table? = some u) : u.Holds s.Took := by
  obtain ⟨r, hr, htable⟩ := Option.bind_eq_some_iff.mp hu
  split at htable
  · next u' hstore =>
    obtain rfl := Option.some.inj htable
    exact (h.keeper r hr).table u' hstore
  · cases htable

end Holds

/-- A reading that came in a frame is read back from its text exactly when its floats survive. As
long as the floats of all accepted readings do, and the readings of the hub's own machine are read
back, every query of an open table succeeds with readings that were taken of the host, and every
full view that a dashboard is attached with is read back from its text. -/
theorem emissions_read_back {choice : HistoryChoice} {opens : String → Bool} {keeper : Keeper}
    (hkeeper : choice.start opens = .ok keeper) (settings : Settings) (directory : Directory)
    (actions : List Action) :
    let s := (start settings directory keeper).run actions
    (∀ text reading claimed version token,
      Message.FromAgent.schema.decode text = .ok (.metrics reading claimed version token) →
      (reading.ReadsBack ↔ reading.Survives)) ∧
    ((∀ (id : Session.Id) (v : Visit) hostId reading, s.visits[id]? = some v →
        (hostId, reading) ∈ v.accepted → reading.Survives) →
      (∀ hostId reading, (hostId, reading) ∈ s.own → reading.ReadsBack) →
      (∀ t, s.table? = some t → t.isOpen = true →
        (∀ q, ∃ rows, t.range q = .ok rows ∧
          ∀ row ∈ rows, row.hostId = q.hostId ∧ s.Took q.hostId row.snapshot) ∧
        ∀ hostId limit, ∃ rows, t.latest hostId limit = .ok rows ∧
          ∀ row ∈ rows, row.hostId = hostId ∧ s.Took hostId row.snapshot) ∧
      ∀ id origin now full after, Dashboard.attach s.hub id origin now = some (full, after) →
        Message.ToDashboard.schema.decode (Message.ToDashboard.schema.encode full) = .ok full) := by
  intro s
  have h : s.Holds := (Holds.start hkeeper settings directory).run actions
  have hframe : ∀ text reading claimed version token,
      Message.FromAgent.schema.decode text = .ok (.metrics reading claimed version token) →
      (reading.ReadsBack ↔ reading.Survives) := fun _ reading _ _ _ hdecode => by
    rw [Snapshot.readsBack_iff]
    exact and_iff_right (Snapshot.regular_of_decode hdecode)
  refine ⟨hframe, fun haccepted hown => ?_⟩
  have hback : ∀ k reading, s.Took k reading → reading.ReadsBack := by
    rintro k reading (⟨id, v, hv, hmem⟩ | hmem)
    · obtain ⟨-, _, -, _, _, _, hdecode, -⟩ := (h.sourced.visits id v hv).2.accepted _ _ hmem
      exact (hframe _ _ _ _ _ hdecode).mpr (haccepted id v k reading hv hmem)
    · exact hown k reading hmem
  constructor
  · intro t ht hopen
    have hholds := h.of_table? ht
    exact ⟨hholds.range hback hopen, hholds.latest hback hopen⟩
  · intro id origin now full after hattach
    unfold Dashboard.attach at hattach
    split at hattach
    · obtain ⟨rfl, -⟩ := Prod.mk.inj (Option.some.inj hattach)
      refine (Dashboard.decode_encode_currentView_iff _ (fun k e he => ?_) now).mpr fun k e he => ?_
      · exact (h.took_of_entries he).1
      · exact hback k _ (h.took_of_entries he).2
    · cases hattach

/-- A history in a database. -/
def database : Keeper := some (.start { store := .table { path := "db" } } (some 7))

/-- A reading is delivered, and its row stored. -/
def storage : List Action := delivery ++ [.recorder .takeRow, .recorder .flush]

theorem run_storage :
    (start .small oneServer database).run storage =
      (delivered database).run [.recorder .takeRow, .recorder .flush] := by
  rw [storage, run_append, run_delivery]

theorem accepted_storage :
    ((start .small oneServer database).run storage).visits.map Visit.accepted =
      [[("a", .ofUsage 10)], []] := by
  rw [run_storage]
  rfl

theorem table?_storage :
    (((start .small oneServer database).run storage).table?.map fun t =>
      (t.isOpen, (t.rowsOf "a").map Prod.fst)) = some (true, [0]) := by
  rw [run_storage]
  decide +kernel

/-- The stored row is found, and the full view is read back. -/
theorem stored_reading_reads_back :
    let s := (start .small oneServer database).run storage
    (∃ t, s.table? = some t ∧ (t.rowsOf "a").map Prod.fst = [0] ∧
      ∃ rows, t.latest "a" 5 = .ok rows ∧ ∀ row ∈ rows, row.hostId = "a") ∧
    ∃ full after, Dashboard.attach s.hub 0 "home" .epoch = some (full, after) ∧
      Message.ToDashboard.schema.decode (Message.ToDashboard.schema.encode full) = .ok full := by
  have hkeeper : HistoryChoice.start (fun _ => true) (.database "db" 7) = .ok database := rfl
  obtain ⟨-, h⟩ := emissions_read_back hkeeper .small oneServer storage
  have haccepted : ∀ (id : Session.Id) (v : Visit) hostId reading,
      ((start .small oneServer database).run storage).visits[id]? = some v →
      (hostId, reading) ∈ v.accepted → reading.Survives := by
    intro id v hostId reading hv hmem
    have hlist : v.accepted ∈ [[("a", Snapshot.ofUsage 10)], []] := by
      rw [← accepted_storage]
      exact List.mem_map_of_mem (List.mem_of_getElem? hv)
    have hreading : reading = .ofUsage 10 := by
      rcases List.mem_cons.mp hlist with e | hlist
      · rw [e] at hmem
        exact congrArg Prod.snd (List.mem_singleton.mp hmem)
      · rw [List.mem_singleton.mp hlist] at hmem
        cases hmem
    rw [hreading]
    decide +kernel
  have hown : ∀ hostId reading,
      (hostId, reading) ∈ ((start .small oneServer database).run storage).own →
      reading.ReadsBack := by
    intro hostId reading hmem
    rw [run_storage] at hmem
    cases hmem
  obtain ⟨htable, hattach⟩ := h haccepted hown
  obtain ⟨t, ht, htotal⟩ := Option.map_eq_some_iff.mp table?_storage
  obtain ⟨hopen, hrows⟩ := Prod.mk.inj htotal
  obtain ⟨rows, hlatest, hhost⟩ := (htable t ht hopen).2 "a" 5
  have hroom : Dashboard.queueRoom ((start .small oneServer database).run storage).hub ≤
      Queue.Bounded.largest := by
    rw [run_storage]
    decide +kernel
  refine ⟨⟨t, ht, hrows, rows, hlatest, fun row hrow => (hhost row hrow).1⟩, _, _, if_pos hroom, ?_⟩
  exact hattach 0 "home" .epoch _ _ (if_pos hroom)

open Json (Doc Literal)

/-- A number beyond those of 32 bits. -/
def huge : Literal := .ofDecimal Literal.floatLayout false ⟨1, 39⟩

/-- A metrics frame by which a core is used to an extent beyond all numbers of 32 bits. -/
def hugeFrame : Doc :=
  .object
    [(some "type", .str "metrics"),
      (some "metrics", .object
        [(some "timestamp", .str "1970-01-01T00:00:00Z"), (some "hostname", .str "a"),
          (some "os", .object [(some "name", .str "")]),
          (some "cpu", .object
            [(some "cores", .int 1), (some "usage", .int 10),
              (some "per_core", .array [.number huge])]),
          (some "memory", .object
            [(some "total", .int 0), (some "used", .int 0), (some "usage_percent", .int 0)]),
          (some "network", .object [(some "total_rx", .int 0), (some "total_tx", .int 0)])])]

/-- The reading of the frame: what was written down ends at infinity. -/
def hugeReading : Snapshot :=
  { Snapshot.ofUsage 10 with cpu := ⟨"", 1, .ofNat 10, 0, [.infinite false]⟩, disks := [] }

theorem ok_of_toOption_eq_some {ε α : Type} {e : Except ε α} {a : α} (h : e.toOption = some a) :
    e = .ok a := by
  cases e with
  | error => cases h
  | ok b => exact congrArg _ (Option.some.inj h)

theorem decode_hugeFrame :
    Message.FromAgent.schema.decode hugeFrame.print =
      .ok (.metrics hugeReading none none none) := by
  have hspelled : hugeFrame.Spelled := by
    have hhuge : huge.Spelled := Literal.spelled_ofDecimal _ _ (by decide)
    simp [hugeFrame, Doc.Spelled, Doc.MembersSpelled, Doc.ItemsSpelled, Doc.str, Doc.int,
      Literal.spelled_ofInt, hhuge]
  have hread : (Message.FromAgent.schema.read .text Json.nestingLimit hugeFrame).toOption =
      some (.metrics hugeReading none none none) := by decide +kernel
  rw [Wire.Schema.decode_print _ hspelled]
  exact ok_of_toOption_eq_some hread

/-- A session that is authenticated takes the reading in. -/
theorem takes_hugeFrame (session : AgentSession) (hub : Hub) (now : Time.Instant) {hostId : String}
    (hsession : session.state = .authenticated hostId) :
    ∃ session' after, session.receive hub now hugeFrame.print = (.ok none, session', after) ∧
      hub.Takes hostId hugeReading now after := by
  have haccepts : AgentSession.Accepts hostId none hugeReading :=
    ⟨by simp, by decide, by decide⟩
  have hreceive : session.receive hub now hugeFrame.print =
      session.ingest hub now hugeReading none none := by
    simp [AgentSession.receive, hsession, decode_hugeFrame, AgentSession.handle]
  obtain ⟨hanswer, -, htakes⟩ := AgentSession.takes_ingest (h := hub) none hsession haccepts
  obtain ⟨session', after, houtcome⟩ := AgentSession.exists_of_answer hanswer
  simp only [houtcome] at htakes
  exact ⟨session', after, hreceive.trans houtcome, htakes⟩

/-- What the reading is written as cannot be read. -/
theorem decode_encode_hugeReading :
    ∃ fault, Snapshot.schema.decode (Snapshot.schema.encode hugeReading) = .error fault := by
  have hread : (Snapshot.schema.read .text Json.nestingLimit
    (Snapshot.schema.write hugeReading)).toOption = none := by decide +kernel
  rw [Wire.Schema.decode_encode]
  cases hdecode :
      Snapshot.schema.read .text Json.nestingLimit (Snapshot.schema.write hugeReading) with
  | error fault => exact ⟨fault, rfl⟩
  | ok r => simp [hdecode, Except.toOption] at hread

/-- The row of the reading is stored all the same, and spoils the queries that meet it. -/
theorem latest_hugeReading :
    ∃ t, ({ path := "db" } : Table).append [.ofSnapshot "a" .epoch hugeReading] = .ok t ∧
      t.latest "a" 5 = .error (.serialization "failed to deserialize snapshot") := by
  have hcpu : (storedFloat hugeReading.cpu.usage).isSome := by decide +kernel
  have hmem : (storedFloat hugeReading.memory.usagePercent).isSome := by decide +kernel
  obtain ⟨cpu, hcpu⟩ := Option.isSome_iff_exists.mp hcpu
  obtain ⟨mem, hmem⟩ := Option.isSome_iff_exists.mp hmem
  obtain ⟨c, hc, hsnapshot⟩ : ∃ c, Cells.ofRow? (.ofSnapshot "a" .epoch hugeReading) = .ok c ∧
      c.snapshot = Snapshot.schema.encode hugeReading := by
    simp only [Cells.ofRow?, Row.ofSnapshot, hcpu, hmem]
    exact ⟨_, rfl, rfl⟩
  obtain ⟨fault, hfault⟩ := decode_encode_hugeReading
  have happend : ({ path := "db" } : Table).append [.ofSnapshot "a" .epoch hugeReading] =
      .ok (Table.put { path := "db" } "a" 0 c) := by
    rw [Table.append, List.foldlM_cons, hc]
    rfl
  have hrows : (Table.put { path := "db" } "a" 0 c).rowsOf "a" = [(0, c)] := rfl
  refine ⟨_, happend, ?_⟩
  have hcell : c.toRow "a" 0 = .error (.serialization "failed to deserialize snapshot") := by
    rw [Cells.toRow, hsnapshot, hfault]
  have hread : Table.readAll "a" (Table.rowLimit 5 [(0, c)].reverse) =
      .error (.serialization "failed to deserialize snapshot") := by
    rw [Table.readAll]
    change (Cells.toRow c "a" 0 >>= _) = _
    rw [hcell]
    rfl
  rw [Table.latest, hrows, hread]
  rfl

/-- The reading is accepted and put into the live state, but no text of it is read back: its row
spoils the queries that meet it, and the full view that it is shown in cannot be read. -/
theorem infinite_usage_does_not_read_back :
    ∃ session after,
      AgentSession.receive { id := 0, state := .authenticated "a" }
        { settings := .small, directory := oneServer } .epoch hugeFrame.print =
          (.ok none, session, after) ∧
      after.live.get? "a" = some ⟨"a", hugeReading, .epoch⟩ ∧
      ¬ hugeReading.ReadsBack ∧
      (∃ t, ({ path := "db" } : Table).append [.ofSnapshot "a" .epoch hugeReading] = .ok t ∧
        t.latest "a" 5 = .error (.serialization "failed to deserialize snapshot")) ∧
      ∃ full attached, Dashboard.attach after 0 "home" .epoch = some (full, attached) ∧
        Message.ToDashboard.schema.decode (Message.ToDashboard.schema.encode full) ≠ .ok full := by
  obtain ⟨session, after, hreceive, htakes⟩ :=
    takes_hugeFrame { id := 0, state := .authenticated "a" }
      { settings := .small, directory := oneServer } .epoch rfl
  have hget : after.live.get? "a" = some ⟨"a", hugeReading, .epoch⟩ := by
    rw [htakes.live, if_pos rfl]
  have hinfinite : ¬ hugeReading.ReadsBack := by
    intro hback
    obtain ⟨-, hsingles, -⟩ := hugeReading.readsBack_iff.mp hback
    have hcore : (.infinite false : Single) ∈ hugeReading.singles := .tail _ (.head _)
    exact absurd (hsingles _ hcore).isFinite (by decide)
  have hentries : ∀ k, after.entries[k]? = after.live.get? k := by
    intro k
    rw [htakes.rest]
    rfl
  have hids : ∀ (k : String) (e : LiveEntry), after.entries[k]? = some e → e.hostId = k := by
    intro k e he
    rw [hentries, htakes.live] at he
    split at he
    · next hk => rw [← Option.some.inj he, hk]
    · cases he
  have hroom : Dashboard.queueRoom after ≤ Queue.Bounded.largest := by
    rw [htakes.rest]
    change max 1 Settings.small.dashboardQueueCapacity.toNat ≤ Queue.Bounded.largest
    decide +kernel
  refine ⟨session, after, hreceive, hget, hinfinite, latest_hugeReading, _, _, if_pos hroom,
    fun hfull => ?_⟩
  have hentry : after.entries["a"]? = some ⟨"a", hugeReading, .epoch⟩ :=
    (hentries "a").trans hget
  have hview := (Dashboard.decode_encode_currentView_iff _ hids .epoch).mp hfull "a" _ hentry
  exact hinfinite hview

end System
end FleetWatch.Sessions
