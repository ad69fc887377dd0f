import FleetWatch.Proofs.Agent.Listening
import FleetWatch.Proofs.Dashboard.Readable
import FleetWatch.Proofs.Json.Values

/-!
# Messages read back

Every message, and everything that is sent in one, is read back from its text if the leaves are:
floats that survive, regular timestamps and payloads that fit. Its members are those that are not
left out. A payload that is null does not come back, and one with an object in it that starts with
the embedding name comes back as something else.

## Main definitions

* `Message.FromAgent.snapshot?`, `Message.ToDashboard.snapshots`, `Message.ToAgent.payload?`: the
  parts of messages that can get lost.
* `Message.ToAgent.withoutNull`: the message without a payload that is null.
-/
namespace FleetWatch

open Json Wire

/-! ## Changes -/

@[simp] theorem Compact.proper : Compact.schema.Proper :=
  ⟨by decide, fun _ => rfl, by simp [Compact.fields]⟩

section Returns
variable (surplus : Fault) (room : Nat)

/-- An optional value is read back if all values are and none of them is written as null. -/
theorem option_returns {α : Type} {s : Schema α} (hnull : ∀ a, s.write a ≠ .null)
    (hreturns : ∀ a, s.Returns surplus room a) : ∀ a, s.option.Returns surplus room a
  | none => trivial
  | some a => ⟨hnull a, hreturns a⟩

theorem Compact.fields_returns (c : Compact) :
    Compact.fields.Returns surplus room (Compact.view.parts c) := by
  have hpercent : ∀ p, Schema.word8.option.Returns surplus room p :=
    option_returns surplus room (fun _ h => by cases h) (by simp)
  have hcount : ∀ n, Schema.word64.option.Returns surplus room n :=
    option_returns surplus room (fun _ h => by cases h) (by simp)
  exact ⟨fun _ => hpercent c.cpu, fun _ => hpercent c.mem, fun _ => hpercent c.disk,
    fun _ => hcount c.rx, fun _ => hcount c.tx, fun _ => hcount c.uptime, trivial⟩

@[simp] theorem Compact.returns (c : Compact) : Compact.schema.Returns surplus (room + 1) c :=
  ⟨Nat.succ_pos room, c.fields_returns surplus room⟩

@[simp] theorem DeltaRecord.returns (r : DeltaRecord) :
    DeltaRecord.schema.Returns surplus (room + 1) r := by
  have hflag : ∀ b, Schema.flag.option.Returns surplus room b :=
    option_returns surplus room (fun _ h => by cases h) (by simp)
  exact ⟨Nat.succ_pos room, ⟨by simp, fun _ => hflag r.online, trivial⟩,
    r.fields.fields_returns .shape room⟩

end Returns

namespace Message

/-! ## Messages to dashboards -/

namespace ToDashboard

def snapshots : ToDashboard → List Snapshot
  | .full _ _ servers => servers.filterMap ServerView.metrics
  | .delta .. => []

theorem decode_encode_delta (seq : UInt64) (ts : Int64) (records : List DeltaRecord) :
    schema.decode (schema.encode (.delta seq ts records)) = .ok (.delta seq ts records) := by
  have hrecord (r : DeltaRecord) :
      DeltaRecord.schema.Returns .shape (nestingLimit - 1 - 1) r := r.returns .shape 124
  rw [Schema.decode_encode_iff proper]
  simp [schema, hrecord]

/-- A message is read back when all snapshots that it shows are. -/
theorem decode_encode_iff (m : ToDashboard) :
    schema.decode (schema.encode m) = .ok m ↔
      ∀ s ∈ m.snapshots, s.timestamp.Regular ∧ s.Survives := by
  cases m with
  | full seq ts servers =>
    simp only [decode_encode_full_iff, snapshots, List.mem_filterMap, forall_exists_index, and_imp,
      Snapshot.readsBack_iff]
    exact ⟨fun h s v hv hs => h v hv s hs, fun h v hv s hs => h s v hv hs⟩
  | delta seq ts records => simp [decode_encode_delta, snapshots]

end ToDashboard

/-! ## Messages from agents -/

namespace FromAgent

def snapshot? : FromAgent → Option Snapshot
  | .auth .. => none
  | .metrics reading .. => some reading

/-- A message is read back when the snapshot in it is. -/
theorem decode_encode_iff (m : FromAgent) :
    schema.decode (schema.encode m) = .ok m ↔
      ∀ s ∈ m.snapshot?, s.timestamp.Regular ∧ s.Survives := by
  cases m with
  | auth hostId token version => simp [decode_encode_auth, snapshot?]
  | metrics s claimed version token => simp [decode_encode_metrics_iff, snapshot?]

end FromAgent

/-! ## Messages to agents -/

namespace ToAgent

def payload? : ToAgent → Option Value
  | .command c => c.payload
  | _ => none

/-- The message without a payload that is null. -/
def withoutNull : ToAgent → ToAgent
  | .command ⟨action, some .null⟩ => .command ⟨action, none⟩
  | m => m

/-- A payload that is null is read as none. -/
theorem decode_encode_null (action : String) :
    schema.decode (schema.encode (.command ⟨action, some .null⟩)) =
      .ok (.command ⟨action, none⟩) := by
  rw [Schema.decode_encode]
  rfl

/-- Any other payload is read back if it fits. -/
theorem decode_encode_payload_iff (action : String) {v : Value} (hv : v ≠ .null) :
    schema.decode (schema.encode (.command ⟨action, some v⟩)) = .ok (.command ⟨action, some v⟩) ↔
      (v.Canonical ∧ v.Survives ∧ v.IsPlain) ∧ v.toDoc.depth < nestingLimit := by
  have hread : v.toDoc ≠ .null ∧ Value.read .shape (nestingLimit - 1) v.toDoc = .ok v ↔
      (v.Canonical ∧ v.Survives ∧ v.IsPlain) ∧ v.toDoc.depth < nestingLimit := by
    rw [Value.read_toDoc_iff, Nat.le_sub_one_iff_lt nestingLimit_pos]
    exact and_iff_right_of_imp fun h => Value.toDoc_ne_null h.1.2.1 hv
  rw [Schema.decode_encode_iff proper, ← hread]
  simp [schema, Command.fields, Schema.write]

theorem depth_write_payload (action : String) (v : Value) :
    (schema.write (.command ⟨action, some v⟩)).depth = v.toDoc.depth + 1 := by
  simp [schema, Command.fields, Schema.write, Variants.write, Fields.write, Doc.depth,
    Doc.membersDepth, Doc.str, Scalar.write]

/-- What is read back nests within the limit. -/
theorem depth_write_le {m : ToAgent} (h : schema.decode (schema.encode m) = .ok m) :
    (schema.write m).depth ≤ nestingLimit := by
  rw [Schema.decode_encode_iff proper] at h
  exact Doc.depth_le_of_keepable (schema.keepable_write h)

/-- A message is read back, but for a payload that is null, when its payload fits and there is room
for it. -/
theorem decode_encode_iff (m : ToAgent) :
    schema.decode (schema.encode m) = .ok m.withoutNull ↔
      (∀ v ∈ m.payload?, v.Canonical ∧ v.Survives ∧ v.IsPlain) ∧
        (schema.write m).depth ≤ nestingLimit := by
  have hbare {m : ToAgent} (hm : m.payload? = none)
      (h : schema.decode (schema.encode m) = .ok m) :
      schema.decode (schema.encode m) = .ok m ↔
        (∀ v ∈ m.payload?, v.Canonical ∧ v.Survives ∧ v.IsPlain) ∧
          (schema.write m).depth ≤ nestingLimit :=
    iff_of_true h ⟨by simp [hm], depth_write_le h⟩
  cases m with
  | auth status message targets => exact hbare rfl (decode_encode_verdict status message targets)
  | error message => exact hbare rfl (decode_encode_error message)
  | command c =>
    obtain ⟨action, payload⟩ := c
    cases payload with
    | none => exact hbare rfl (decode_encode_command action)
    | some v =>
      rw [depth_write_payload, Nat.succ_le_iff]
      simp only [payload?, Option.mem_some_iff, forall_eq']
      by_cases hnull : v = .null
      · rw [hnull]
        refine iff_of_true (decode_encode_null action) ⟨?_, by decide⟩
        simp [Value.Canonical, Value.Survives, Value.IsPlain, Value.Everywhere, Value.IsHeld,
          Value.IsAccurate, Value.StartsPlain]
      · have hkept : withoutNull (.command ⟨action, some v⟩) = .command ⟨action, some v⟩ := by
          cases v with
          | null => exact absurd rfl hnull
          | _ => rfl
        rw [hkept]
        exact decode_encode_payload_iff action hnull

/-- A payload that looks like an embedded text is read as what this text says. -/
theorem decode_encode_embedded (action text : String) :
    schema.decode (schema.encode
        (.command ⟨action, some (.object [(Value.embeddingName, .text text)])⟩)) =
      match Value.parse? text with
      | some v => .ok (.command ⟨action, some v⟩)
      | none => .error .shape := by
  rw [Schema.decode_encode]
  cases h : Value.parse? text <;>
    simp [schema, Command.fields, Schema.write, Variants.write, Fields.write, Scalar.write,
      Value.toDoc, Value.membersToDoc, Schema.read, takeTag, Variants.names, Variants.readMembers,
      Fields.fill, Fields.finish, Fields.empty, Scalar.read, readText, Value.read, Value.readWith,
      Value.embedding?, h, Doc.str, Doc.keepable, Doc.membersKeepable, nestingLimit, bind,
      Except.bind, pure, Except.pure, Functor.map, Except.map, Absent.inObject?]

/-- An array. -/
def pair : Value := .array [.number (.integer 1), .number (.integer 2)]

/-- A payload that looks as if this array were embedded in it. -/
def lookalike : Value := .object [(Value.embeddingName, .text "[1,2]")]

/-- A command with this payload, which a text can hold, is read as one with the array. -/
theorem lookalike_is_read_as_pair :
    lookalike.Canonical ∧ lookalike.Survives ∧
      (schema.write (.command ⟨"a", some lookalike⟩)).depth = 2 ∧
      schema.decode (schema.encode (.command ⟨"a", some lookalike⟩)) =
        .ok (.command ⟨"a", some pair⟩) ∧
      .command ⟨"a", some pair⟩ ≠ (ToAgent.command ⟨"a", some lookalike⟩).withoutNull := by
  have hprint : pair.toDoc.print = "[1,2]" := by decide +kernel
  have hfits : pair.Canonical ∧ pair.Survives ∧ pair.IsPlain := by
    simp [pair, Value.Canonical, Value.Survives, Value.IsPlain, Value.Everywhere,
      Value.ItemsEverywhere, Value.IsHeld, Value.IsAccurate, Value.StartsPlain]
  refine ⟨?_, ?_, rfl, ?_, ?_⟩
  · simp [lookalike, Value.Canonical, Value.Everywhere, Value.MembersEverywhere, Value.IsHeld,
      Value.Ascending]
  · simp [lookalike, Value.Survives, Value.Everywhere, Value.MembersEverywhere, Value.IsAccurate]
  · rw [lookalike, decode_encode_embedded, ← hprint, Value.parse?_print hfits (by decide)]
  · simp [pair, lookalike, withoutNull]

end ToAgent

/-! ## All messages -/

/-- Snapshots, changes, views and messages are read back from their texts when their floats survive,
their timestamps are regular, and their payloads are ones that a text can hold, without an object
that starts with the embedding name, and not nested too deep; only a payload that is null is lost.
The text of a value is that of its document, and the objects in it have a member for all that must
be given, and for all else that there is. -/
theorem read_back_and_members :
    (∀ s : Snapshot, Snapshot.schema.decode (Snapshot.schema.encode s) = .ok s ↔
      s.timestamp.Regular ∧ s.Survives) ∧
    (∀ c : Compact, Compact.schema.decode (Compact.schema.encode c) = .ok c) ∧
    (∀ r : DeltaRecord, DeltaRecord.schema.decode (DeltaRecord.schema.encode r) = .ok r) ∧
    (∀ v : ServerView, ServerView.schema.decode (ServerView.schema.encode v) = .ok v ↔
      ∀ s ∈ v.metrics, s.timestamp.Regular ∧ s.Survives) ∧
    (∀ m : ToDashboard, ToDashboard.schema.decode (ToDashboard.schema.encode m) = .ok m ↔
      ∀ s ∈ m.snapshots, s.timestamp.Regular ∧ s.Survives) ∧
    (∀ m : FromAgent, FromAgent.schema.decode (FromAgent.schema.encode m) = .ok m ↔
      ∀ s ∈ m.snapshot?, s.timestamp.Regular ∧ s.Survives) ∧
    (∀ m : ToAgent, ToAgent.schema.decode (ToAgent.schema.encode m) = .ok m.withoutNull ↔
      (∀ v ∈ m.payload?, v.Canonical ∧ v.Survives ∧ v.IsPlain) ∧
        (ToAgent.schema.write m).depth ≤ nestingLimit) ∧
    (∀ {α : Type} (s : Schema α) (a : α), Doc.parse (s.encode a) = (s.write a, false)) ∧
    (∀ s : Snapshot, (Snapshot.schema.write s).names = given
      [("timestamp", true), ("hostname", true), ("os", true), ("cpu", true), ("memory", true),
        ("disks", true), ("network", true), ("uptime", true), ("load_average", true),
        ("ping", s.ping.isSome), ("version", s.version.isSome),
        ("ip_addresses", !s.ipAddresses.isEmpty)]) ∧
    (∀ p : PingResult, (PingResult.schema.write p).names = given
      [("name", true), ("host", true), ("latency_ms", p.latencyMs.isSome), ("packet_loss", true),
        ("status", true)]) ∧
    (∀ c : Compact, (Compact.schema.write c).names = given
      [("c", c.cpu.isSome), ("m", c.mem.isSome), ("d", c.disk.isSome), ("rx", c.rx.isSome),
        ("tx", c.tx.isSome), ("up", c.uptime.isSome)]) ∧
    (∀ r : DeltaRecord, (DeltaRecord.schema.write r).names = given
      [("id", true), ("on", r.online.isSome), ("c", r.fields.cpu.isSome),
        ("m", r.fields.mem.isSome), ("d", r.fields.disk.isSome), ("rx", r.fields.rx.isSome),
        ("tx", r.fields.tx.isSome), ("up", r.fields.uptime.isSome)]) ∧
    (∀ v : ServerView, (ServerView.schema.write v).names = given
      [("id", true), ("name", true), ("location", true), ("provider", true), ("tag", true),
        ("online", true), ("version", v.version.isSome), ("metrics", v.metrics.isSome)]) ∧
    (∀ (hostId token : String) (version : Option String),
      (FromAgent.schema.write (.auth hostId token version)).names = given
        [("type", true), ("server_id", true), ("token", true), ("version", version.isSome)]) ∧
    (∀ (reading : Snapshot) (claimed version token : Option String),
      (FromAgent.schema.write (.metrics reading claimed version token)).names = given
        [("type", true), ("metrics", true), ("server_id", claimed.isSome),
          ("version", version.isSome), ("token", token.isSome)]) ∧
    (∀ (status : AuthStatus) (message : Option String) (targets : List ProbeTarget),
      (ToAgent.schema.write (.auth status message targets)).names = given
        [("type", true), ("status", true), ("message", message.isSome),
          ("ping_targets", !targets.isEmpty)]) ∧
    (∀ c : Command, (ToAgent.schema.write (.command c)).names = given
      [("type", true), ("action", true), ("payload", c.payload.isSome)]) := by
  refine ⟨Snapshot.readsBack_iff, fun c => ?_, fun r => ?_, fun v => ?_,
    ToDashboard.decode_encode_iff, FromAgent.decode_encode_iff, ToAgent.decode_encode_iff,
    fun s a => Doc.parse_print (s.spelled_write a), ?_, ?_, ?_, ?_, ?_, ?_, ?_, ?_, ?_⟩
  · rw [Schema.decode_encode_iff Compact.proper]
    exact c.returns .text 126
  · rw [Schema.decode_encode_iff DeltaRecord.proper]
    exact r.returns .text 126
  · rw [Schema.decode_encode_iff ServerView.proper]
    simp only [← Snapshot.readsBack_iff]
    exact v.returns_iff .text 122
  · exact fun s => by simp [Snapshot.schema]
  · exact fun p => by simp [PingResult.schema]
  · exact fun c => by simp [Compact.schema, Compact.fields, Compact.view]
  · exact fun r => by simp [DeltaRecord.schema, Compact.fields, Compact.view]
  · exact fun v => by simp [ServerView.schema]
  · exact fun hostId token version => by simp [FromAgent.schema]
  · exact fun reading claimed version token => by simp [FromAgent.schema]
  · exact fun status message targets => by simp [ToAgent.schema]
  · exact fun c => by simp [ToAgent.schema, Command.fields]

end Message
end FleetWatch
