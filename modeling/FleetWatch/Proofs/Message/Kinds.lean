import FleetWatch.Message.Agent
import FleetWatch.Proofs.Wire.RoundTrip

/-!
# The kinds of messages

Whatever is read of the text of a message, if anything, is a message of the same kind: not every
reading and not every payload of a command survives being written and read, but a reading is never
taken for an authentication, nor a command for the answer to one. The members that a reading goes
without are missing from what is read.
-/
namespace FleetWatch

open Wire Json

namespace Wire

/-- Of a written union the tag is read first; then the members are, if they can be held back until
then. -/
theorem read_tagged_write {α : Type} {surplus : Fault} {room : Nat} {tag : String} (name : String)
    {variants : Variants α} {a : α} {ms : List Member} (hroom : 0 < room)
    (hname : name ∈ variants.names) (hwrite : variants.write tag a = (some tag, .str name) :: ms)
    (hms : ∀ m ∈ ms, ∃ k, m.1 = some k ∧ k ≠ tag) :
    (Schema.tagged tag variants).read surplus room ((Schema.tagged tag variants).write a) =
      if ms.all fun m => m.2.keepable (room - 1) then variants.readMembers (room - 1) name ms
      else .error .text := by
  rw [Schema.write, Schema.read, if_neg (Nat.ne_of_gt hroom), hwrite, takeTag_cons hname hms]
  split <;> rfl

/-- No member of a record is called like a tag that is not among its names. -/
theorem exists_ne_of_write {β σ : Type} {fields : Fields β σ} {tag : String}
    (htag : tag ∉ fields.names) (bs : β) :
    ∀ m ∈ fields.write bs, ∃ k, m.1 = some k ∧ k ≠ tag := by
  intro m hm
  obtain ⟨k, hk, hmk⟩ := fields.among_write bs m hm
  exact ⟨k, hmk, fun e => htag (e ▸ hk)⟩

/-- What is read as the first variant is of that variant. -/
theorem exists_inject_of_readMembers {α β σ : Type} {room : Nat} {name : String}
    {fields : Fields β σ} {inject : β → α} {project : α → Option β}
    {hproject : ∀ a b, project a = some b → inject b = a} {rest : Variants α} {ms : List Member}
    {a : α}
    (h : (Variants.cons name fields inject project hproject rest).readMembers room name ms =
      .ok a) : ∃ b, a = inject b := by
  rw [Variants.readMembers, if_pos rfl] at h
  obtain ⟨slots, -, h⟩ := bind_eq_ok_iff.mp h
  obtain ⟨b, -, h⟩ := bind_eq_ok_iff.mp h
  exact ⟨b, (Except.ok.inj h).symm⟩

end Wire

namespace Message

/-- What is read of a command is a command. -/
theorem ToAgent.exists_command_of_decode {c : Command} {m : ToAgent}
    (h : ToAgent.schema.decode (ToAgent.schema.encode (.command c)) = .ok m) :
    ∃ d, m = .command d := by
  have hms : ∀ m ∈ Command.fields.write (c.action, c.payload, ()),
      ∃ k, m.1 = some k ∧ k ≠ "type" := exists_ne_of_write (by decide) _
  rw [Schema.decode_encode, ToAgent.schema,
    read_tagged_write "command" (by decide) (by decide) rfl hms] at h
  split at h
  · rw [Variants.readMembers, if_neg (by decide), Variants.readMembers,
      if_neg (by decide)] at h
    obtain ⟨b, rfl⟩ := exists_inject_of_readMembers h
    exact ⟨_, rfl⟩
  · cases h

/-- What is read of a reading without claims is a reading without claims. -/
theorem FromAgent.exists_metrics_of_decode {reading : Snapshot} {m : FromAgent}
    (h : FromAgent.schema.decode (FromAgent.schema.encode (.metrics reading none none none)) =
      .ok m) : ∃ r, m = .metrics r none none none := by
  rw [Schema.decode_encode, FromAgent.schema,
    read_tagged_write "metrics" (by decide) (by decide) rfl
      (exists_ne_of_write (by decide) _)] at h
  split at h
  · rw [Variants.readMembers, if_neg (by decide), Variants.readMembers, if_pos rfl,
      Fields.foldlM_known (fun _ _ _ _ => rfl) (Fields.among_write _ _),
      Fields.fillAll_write (by decide)] at h
    -- the members that are not written are missing, whatever the reading itself is read as
    obtain ⟨r, -, _, _, _, _, ⟨rfl, rfl, rfl, rfl⟩, rfl⟩ :
        ∃ r, Schema.read .shape (nestingLimit - 1) Snapshot.schema (Snapshot.schema.write reading) =
            .ok r ∧
          ∃ a claimed version token,
            (r = a ∧ none = claimed ∧ none = version ∧ none = token) ∧
              metrics a claimed version token = m := by
      simpa [Fields.refill, Fields.finish, bind_eq_ok_iff, Presence.optional, Presence.required,
        Absent.inObject?, pure, Except.pure] using h
    exact ⟨r, rfl⟩
  · cases h

end Message
end FleetWatch
