import FleetWatch.Message.Agent
import FleetWatch.Proofs.Wire.Rearranged

/-!
# Readings in frames

A reading is read from a frame as it is from a text of its own, although the members of a frame are
held back until its tag is known.

## Main definitions

* `Message.FromAgent.Carries`: the members are those of a frame with the given readings.
-/
namespace FleetWatch.Message.FromAgent

open Json Wire

/-- What an agent may claim of itself beside its readings. -/
def claims : List String := ["server_id", "version", "token"]

/-- The members are those of a frame with the given readings: its tag says so, the readings are
there, and claims are made once at most and are strings or null. There may be other members, and
they may stand in any order. -/
structure Carries (ms : List Member) (readings : Doc) : Prop where
  tag : valuesOf "type" ms = [.str "metrics"]
  readings : valuesOf "metrics" ms = [readings]
  claims : ∀ k ∈ claims, valuesOf k ms = [] ∨ valuesOf k ms = [.null] ∨
    ∃ s, valuesOf k ms = [.str s]

/-- A claim can be read. -/
theorem settle_claim (surplus : Fault) (room : Nat) {ds : List Doc}
    (h : ds = [] ∨ ds = [.null] ∨ ∃ s, ds = [.str s]) :
    ∃ slot, Schema.settle surplus room (.option .text) none ds = .ok slot := by
  obtain rfl | rfl | ⟨s, rfl⟩ := h
  · exact ⟨none, rfl⟩
  · exact ⟨some none, rfl⟩
  · exact ⟨some (some s), rfl⟩

section Frame
variable {ms : List Member} {readings : Doc} {room : Nat} {reading : Snapshot}

/-- A frame is read when the readings in it are. -/
theorem read_object_iff (hkeep : (Doc.object ms).keepable room = true)
    (hcarries : Carries ms readings) :
    (∃ serverId version token, schema.read .text room (.object ms) =
        .ok (.metrics reading serverId version token)) ↔
      Snapshot.schema.read .shape (room - 1) readings = .ok reading := by
  obtain ⟨hroom, hmembers⟩ := Doc.keepable_object_iff.mp hkeep
  obtain ⟨htag, hreadings, hclaims⟩ := hcarries
  have hothers := membersKeepable_filter (fun m => m.1 ≠ some "type") hmembers
  have hvalues {k : String} (hk : k ≠ "type") : valuesOf k (besides "type" ms) = valuesOf k ms :=
    valuesOf_besides_of_ne hk
  obtain ⟨serverId, hserverId⟩ :=
    settle_claim .shape (room - 1) (hclaims "server_id" (by decide))
  obtain ⟨version, hversion⟩ :=
    settle_claim .shape (room - 1) (hclaims "version" (by decide))
  obtain ⟨token, htoken⟩ :=
    settle_claim .shape (room - 1) (hclaims "token" (by decide))
  constructor
  · rintro ⟨serverId, version, token, h⟩
    obtain ⟨-, name, ⟨hname, -⟩, -, h⟩ := Schema.read_tagged_eq_ok_iff.mp h
    obtain rfl : name = "metrics" := by simpa [Doc.str] using hname.symm.trans htag
    rw [Variants.readMembers_cons_eq_ok_iff, if_neg (by decide),
      Variants.readMembers_cons_eq_ok_iff, if_pos rfl] at h
    obtain ⟨⟨slot, slots⟩, hslots, parts, hparts, h⟩ := h
    obtain ⟨hslot, -⟩ := Fields.fillAll_cons_eq_ok_iff.mp hslots
    rw [hvalues (by decide), hreadings] at hslot
    obtain ⟨found, hfound, rfl⟩ := map_eq_ok_iff.mp hslot
    obtain ⟨claims, -, hparts⟩ := bind_eq_ok_iff.mp hparts
    obtain rfl := Except.ok.inj hparts
    obtain ⟨rfl, -⟩ := FromAgent.metrics.inj h
    exact hfound
  · intro h
    refine ⟨serverId.getD none, version.getD none, token.getD none,
      Schema.read_tagged_eq_ok_iff.mpr ⟨hroom, "metrics", ⟨htag, by decide⟩, hothers, ?_⟩⟩
    rw [Variants.readMembers_cons_eq_ok_iff, if_neg (by decide),
      Variants.readMembers_cons_eq_ok_iff, if_pos rfl]
    refine ⟨(some reading, serverId, version, token, ()), ?_,
      (reading, serverId.getD none, version.getD none, token.getD none, ()), ?_, rfl⟩
    · refine Fields.fillAll_cons_eq_ok_iff.mpr ⟨?_, Fields.fillAll_cons_eq_ok_iff.mpr
        ⟨?_, Fields.fillAll_cons_eq_ok_iff.mpr
          ⟨?_, Fields.fillAll_cons_eq_ok_iff.mpr ⟨?_, ?_⟩⟩⟩⟩
      · rw [hvalues (by decide), hreadings]
        exact map_eq_ok_iff.mpr ⟨reading, h, rfl⟩
      · simp (disch := decide) only [valuesOf_besides_of_ne]
        exact hserverId
      · simp (disch := decide) only [valuesOf_besides_of_ne]
        exact hversion
      · simp (disch := decide) only [valuesOf_besides_of_ne]
        exact htoken
      · exact Fields.fillAll_nil_eq_ok (membersKeepable_filter _ (membersKeepable_filter _
          (membersKeepable_filter _ (membersKeepable_filter _ hothers))))
    · cases serverId <;> cases version <;> cases token <;> rfl

end Frame

/-- A text of readings is read as what a frame that carries it reports. -/
theorem decode_iff_of_carries {text frame : String} {ms : List Member} {reading : Snapshot}
    (htext : WithinLimits text) (hframe : WithinLimits frame)
    (hms : (Doc.parse frame).1 = .object ms) (hcarries : Carries ms (Doc.parse text).1) :
    Snapshot.schema.decode text = .ok reading ↔
      ∃ serverId version token,
        schema.decode frame = .ok (.metrics reading serverId version token) := by
  have hkeep : (Doc.object ms).keepable nestingLimit = true := hms ▸ hframe.keepable
  have hreadings : (Doc.parse text).1.keepable (nestingLimit - 1) = true :=
    keepable_of_mem_valuesOf (Doc.keepable_object_iff.mp hkeep).2
      (hcarries.readings ▸ List.mem_singleton_self _)
  simp only [Schema.decode_eq_ok_iff htext.whole, Schema.decode_eq_ok_iff hframe.whole, hms,
    read_object_iff hkeep hcarries]
  -- the room and the fault for what is too much make no difference to readings that can be kept
  exact ⟨Schema.read_of_alike _ (Schema.alike_refl _ _) hreadings,
    Schema.read_of_alike _ (Schema.alike_refl _ _) htext.keepable⟩

/-- What is read depends on known members only: texts within the limits that are alike, be it in the
order of members or in members that are not known to a record, however deep it is, or to the variant
that is named by a tag, are read as the same value. And readings are read from a text of their own
exactly as they are from a frame that carries them. -/
theorem known_members_decide :
    (∀ {α : Type} (s : Schema α) (text text' : String) (a : α),
      WithinLimits text → WithinLimits text' →
        s.Alike (Doc.parse text).1 (Doc.parse text').1 →
          s.decode text = .ok a → s.decode text' = .ok a) ∧
    ∀ (text frame : String) (ms : List Member) (reading : Snapshot),
      WithinLimits text → WithinLimits frame → (Doc.parse frame).1 = .object ms →
        Carries ms (Doc.parse text).1 →
          (Snapshot.schema.decode text = .ok reading ↔
            ∃ serverId version token,
              schema.decode frame = .ok (.metrics reading serverId version token)) :=
  ⟨fun _ _ _ _ => Schema.decode_of_alike, fun _ _ _ _ => decode_iff_of_carries⟩

/-- A choice of history, its tag first, with a member that is not known. -/
def choice : Doc := .obj [("backend", .str "memory"), ("note", .null), ("capacity", .int 5)]

/-- The choice without this member, its tag last, and with a member that another variant knows. -/
def rearrangedChoice : Doc :=
  .obj [("path", .str "a"), ("capacity", .int 5), ("backend", .str "memory")]

theorem alike_rearrangedChoice : HistoryChoice.schema.Alike choice rearrangedChoice := by
  have hsame {names : List String} (hnote : "note" ∉ names) (hpath : "path" ∉ names) :
      SameMembers names
        [(some "backend", .str "memory"), (some "note", .null), (some "capacity", .int 5)]
        [(some "path", .str "a"), (some "capacity", .int 5), (some "backend", .str "memory")] := by
    have hremove := (SameMembers.insert (m := (some "note", .null))
      (fun k hk h => hnote (Option.some.inj h ▸ hk)) [(some "backend", .str "memory")]
      [(some "capacity", .int 5)]).symm
    have hinsert := SameMembers.insert (m := (some "path", .str "a"))
      (fun k hk h => hpath (Option.some.inj h ▸ hk)) []
      [(some "capacity", .int 5), (some "backend", .str "memory")]
    exact (hremove.trans (.of_perm names (.swap ..))).trans hinsert
  refine Schema.tagged_alike (hsame (by decide) (by decide)) fun name hname => ?_
  obtain rfl : name = "memory" := by simpa [valuesOf, Doc.str] using hname
  exact hsame (by decide) (by decide)

/-- A reading of nothing but what must be given. -/
def bareReading : Doc :=
  .obj [("timestamp", .str "2024-01-01T00:00:00Z"), ("hostname", .str "a"),
    ("os", .obj [("name", .str "b")]), ("cpu", .obj [("usage", .int 1), ("cores", .int 1)]),
    ("memory", .obj [("total", .int 1), ("used", .int 1), ("usage_percent", .int 1)]),
    ("network", .obj [("total_rx", .int 0), ("total_tx", .int 0)])]

/-- The members of a frame that carries it, the tag last. -/
def bareMembers : List Member :=
  [(some "metrics", bareReading), (some "note", .null), (some "type", .str "metrics")]

theorem exists_ok_of_isOk {α : Type} {x : Except Fault α} (h : x.isOk = true) : ∃ a, x = .ok a := by
  cases x with
  | ok a => exact ⟨a, rfl⟩
  | error e => cases h

theorem known_members_decide_when_rearranged :
    HistoryChoice.schema.decode rearrangedChoice.print = .ok (HistoryChoice.memory 5) ∧
    ∃ reading, Snapshot.schema.decode bareReading.print = .ok reading ∧
      ∃ serverId version token, schema.decode (Doc.object bareMembers).print =
        .ok (.metrics reading serverId version token) := by
  have hchoice : choice.Spelled ∧ rearrangedChoice.Spelled := by
    simp [choice, rearrangedChoice, Doc.obj, Doc.Spelled, Doc.MembersSpelled, Doc.str, Doc.int,
      Literal.spelled_ofInt]
  have hreading : bareReading.Spelled := by
    simp [bareReading, Doc.obj, Doc.Spelled, Doc.MembersSpelled, Doc.str, Doc.int,
      Literal.spelled_ofInt]
  have hframe : (Doc.object bareMembers).Spelled := ⟨hreading, trivial, trivial, trivial⟩
  constructor
  · refine known_members_decide.1 _ choice.print rearrangedChoice.print (HistoryChoice.memory 5)
      (withinLimits_print hchoice.1 (by decide +kernel))
      (withinLimits_print hchoice.2 (by decide +kernel)) ?_ ?_
    · rw [Doc.parse_print hchoice.1, Doc.parse_print hchoice.2]
      exact alike_rearrangedChoice
    · rw [Schema.decode_print _ hchoice.1]
      rfl
  · have hok : (Snapshot.schema.decode bareReading.print).isOk = true := by
      rw [Schema.decode_print _ hreading]
      decide +kernel
    obtain ⟨reading, hread⟩ := exists_ok_of_isOk hok
    refine ⟨reading, hread, (known_members_decide.2 bareReading.print (Doc.object bareMembers).print
      bareMembers reading (withinLimits_print hreading (by decide +kernel))
      (withinLimits_print hframe (by decide +kernel)) ?_ ?_).mp hread⟩
    · rw [Doc.parse_print hframe]
    · rw [Doc.parse_print hreading]
      constructor <;> simp [bareMembers, valuesOf, claims, Doc.str]

end FleetWatch.Message.FromAgent
