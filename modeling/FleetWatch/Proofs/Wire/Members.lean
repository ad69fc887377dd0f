import FleetWatch.Wire.Reader
import FleetWatch.Wire.Writer

/-!
# Members

The members of a written record are read one after the other, each into its own place. Whatever a
reader does with members that it does not know, on these it does the same.

## Main definitions

* `Fields.fillAll`: reads members of known names in turn.
* `Fields.refill`: writes parts and reads them back.
* `Doc.names`: the names of the members of an object.
* `Fields.marks`, `Variants.marks`: the names of all members, marked if they are written.
-/
namespace FleetWatch

open Json

def Json.Doc.names : Doc → List String
  | .object ms => ms.filterMap Prod.fst
  | _ => []

namespace Wire

namespace Fields
variable {β σ : Type} {surplus : Fault} {room : Nat}

/-- Reads members into their places in turn; one of an unknown name is passed over. -/
def fillAll (surplus : Fault) (room : Nat) (fields : Fields β σ) :
    List Member → σ → Except Fault σ
  | [], slots => .ok slots
  | (none, _) :: _, _ => .error .text
  | (some k, d) :: ms, slots => do
    fields.fillAll surplus room ms ((← fields.fill surplus room k d slots).getD slots)

/-- Reads back what is written of the parts, each into its place. -/
def refill {β σ : Type} (surplus : Fault) (room : Nat) : Fields β σ → β → Except Fault σ
  | .nil, _ => .ok ()
  | .cons _ shape presence rest, (b, bs) => do
    let slot ← if presence.omits b then .ok none
      else some <$> shape.read surplus room (shape.write b)
    return (slot, ← rest.refill surplus room bs)

/-- The names of all members, marked if they are written. -/
def marks {β σ : Type} : Fields β σ → β → List (String × Bool)
  | .nil, _ => []
  | .cons name _ presence rest, (b, bs) => (name, !presence.omits b) :: rest.marks bs

/-- A member has one of the given names. -/
def Among (names : List String) (m : Member) : Prop := ∃ k ∈ names, m.1 = some k

theorem among_write {β σ : Type} : ∀ (fields : Fields β σ) (bs : β),
    ∀ m ∈ fields.write bs, Among fields.names m
  | .nil, _, m, hm => by simp [write] at hm
  | .cons name shape presence rest, (b, bs), m, hm => by
    simp only [write, List.mem_append] at hm
    rcases hm with hm | hm
    · split at hm
      · simp at hm
      · obtain rfl := List.mem_singleton.mp hm
        exact ⟨name, List.mem_cons_self, rfl⟩
    · obtain ⟨k, hk, hmk⟩ := among_write rest bs m hm
      exact ⟨k, List.mem_cons_of_mem _ hk, hmk⟩

/-- A member of an unknown name has no place. -/
theorem fill_of_notMem {β σ : Type} : ∀ {fields : Fields β σ} {k : String},
    k ∉ fields.names → ∀ (d : Doc) (slots : σ), fields.fill surplus room k d slots = .ok none
  | .nil, _, _, _, _ => rfl
  | .cons name shape presence rest, k, hk, d, (slot, slots) => by
    obtain ⟨hname, hrest⟩ : k ≠ name ∧ k ∉ rest.names := by simpa [names] using hk
    rw [fill, if_neg hname, fill_of_notMem hrest d slots]
    rfl

/-- A member of a known name has a place, if it can be read. -/
theorem fill_ne_none {β σ : Type} (surplus : Fault) (room : Nat) :
    ∀ {fields : Fields β σ} {k : String}, k ∈ fields.names → ∀ (d : Doc) (slots : σ),
      fields.fill surplus room k d slots ≠ .ok none
  | .nil, _, hk, _, _ => by simp [names] at hk
  | .cons name shape presence rest, k, hk, d, (slot, slots) => by
    rw [fill]
    split
    · split
      · simp
      · cases shape.read surplus room d <;> simp [bind, Except.bind, pure, Except.pure]
    · next hne =>
      have hrest : k ∈ rest.names := (List.mem_cons.mp hk).resolve_left hne
      have hfill := fill_ne_none surplus room hrest d slots
      cases hanswer : rest.fill surplus room k d slots with
      | error e => simp [bind, Except.bind]
      | ok found =>
        cases found with
        | none => exact absurd hanswer hfill
        | some slots => simp [bind, Except.bind, pure, Except.pure]

/-- Members of other names pass by the first place. -/
theorem fillAll_cons {γ : Type} {name : String} {shape : Schema γ} {presence : Presence γ}
    {rest : Fields β σ} {ms : List Member} (hms : ∀ m ∈ ms, m.1 ≠ some name) (slot : Option γ)
    (slots : σ) :
    (cons name shape presence rest).fillAll surplus room ms (slot, slots) =
      (fun slots => (slot, slots)) <$> rest.fillAll surplus room ms slots := by
  induction ms generalizing slots with
  | nil => rfl
  | cons m ms ih =>
    obtain ⟨k, d⟩ := m
    obtain ⟨hm, hrest⟩ := List.forall_mem_cons.mp hms
    cases k with
    | none => rfl
    | some k =>
      have hne : k ≠ name := fun h => hm (congrArg some h)
      rw [fillAll, fillAll, fill, if_neg hne]
      cases rest.fill surplus room k d slots with
      | error e => rfl
      | ok found => cases found <;> exact ih hrest _

/-- What is written of the parts is read back in turn. -/
theorem fillAll_write {β σ : Type} : ∀ {fields : Fields β σ}, fields.names.Nodup → ∀ bs : β,
    fields.fillAll surplus room (fields.write bs) fields.empty = fields.refill surplus room bs
  | .nil, _, _ => rfl
  | .cons name shape presence rest, hnodup, (b, bs) => by
    obtain ⟨hname, hrest⟩ := List.nodup_cons.mp hnodup
    have hothers : ∀ m ∈ rest.write bs, m.1 ≠ some name := by
      intro m hm hk
      obtain ⟨k, hmem, hmk⟩ := among_write rest bs m hm
      obtain rfl : k = name := Option.some.inj (hmk.symm.trans hk)
      exact hname hmem
    have ih := fillAll_write hrest bs
    rw [write, refill, empty]
    cases presence.omits b with
    | true =>
      simp only [if_true, List.nil_append]
      rw [fillAll_cons hothers, ih]
      rfl
    | false =>
      simp only [Bool.false_eq_true, if_false, List.singleton_append, fillAll, fill, if_true,
        Option.isSome_none]
      cases shape.read surplus room (shape.write b) with
      | error e => rfl
      | ok b' =>
        refine (fillAll_cons hothers (some b') rest.empty).trans ?_
        rw [ih]
        rfl

/-- A reader that puts known members into their places, and may keep more than the places, reads
members of known names as `fillAll` does. -/
theorem foldlM_eq_fillAll {τ : Type} (surplus : Fault) (room : Nat) {fields : Fields β σ}
    {f : τ → Member → Except Fault τ} {g : σ → τ}
    (hf : ∀ slots k d, k ∈ fields.names → f (g slots) (some k, d) =
      (fun found => g (found.getD slots)) <$> fields.fill surplus room k d slots)
    {ms : List Member} (hms : ∀ m ∈ ms, Among fields.names m) (slots : σ) :
    ms.foldlM f (g slots) = g <$> fields.fillAll surplus room ms slots := by
  induction ms generalizing slots with
  | nil => rfl
  | cons m ms ih =>
    obtain ⟨name, d⟩ := m
    obtain ⟨⟨k, hk, rfl⟩, hrest⟩ := List.forall_mem_cons.mp hms
    rw [List.foldlM_cons, hf slots k d hk, fillAll]
    cases fields.fill surplus room k d slots with
    | error e => rfl
    | ok found => exact ih hrest (found.getD slots)

/-- A reader that puts known members into their places reads these as `fillAll` does. -/
theorem foldlM_known {fields : Fields β σ} {f : σ → Member → Except Fault σ}
    (hf : ∀ slots k d, k ∈ fields.names → f slots (some k, d) =
      (fun found => found.getD slots) <$> fields.fill surplus room k d slots)
    {ms : List Member} (hms : ∀ m ∈ ms, Among fields.names m) (slots : σ) :
    ms.foldlM f slots = fields.fillAll surplus room ms slots := by
  have h := foldlM_eq_fillAll surplus room (g := id) hf hms slots
  rwa [id_map] at h

end Fields

/-- The names that are marked. -/
def given (names : List (String × Bool)) : List String := (names.filter Prod.snd).map Prod.fst

@[simp] theorem given_cons_true (name : String) (names : List (String × Bool)) :
    given ((name, true) :: names) = name :: given names := rfl

theorem given_append (names others : List (String × Bool)) :
    given (names ++ others) = given names ++ given others := by
  simp [given]

/-- The members of a written record are those that are marked. -/
@[simp] theorem Fields.names_write {β σ : Type} : ∀ (fields : Fields β σ) (bs : β),
    (fields.write bs).filterMap Prod.fst = given (fields.marks bs)
  | .nil, _ => rfl
  | .cons name shape presence rest, (b, bs) => by
    rw [write, List.filterMap_append, names_write rest bs, marks]
    cases presence.omits b <;> rfl

/-- The tag, and the names of all members of a value, marked if they are written. -/
def Variants.marks {α : Type} (tag : String) : Variants α → α → List (String × Bool)
  | .nil, _ => []
  | .cons _ fields _ project _ rest, a =>
    match project a with
    | some b => (tag, true) :: fields.marks b
    | none => rest.marks tag a

@[simp] theorem Variants.names_write {α : Type} (tag : String) : ∀ (variants : Variants α) (a : α),
    (variants.write tag a).filterMap Prod.fst = given (variants.marks tag a)
  | .nil, _ => rfl
  | .cons _ fields _ project _ rest, a => by
    rw [write, marks]
    cases project a with
    | some b => simp
    | none => exact names_write tag rest a

section Names
variable {α β γ σ τ : Type} {fields : Fields β σ} {inner : Fields γ τ}

@[simp] theorem names_write_record (view : View β α) (a : α) :
    ((Schema.record fields view).write a).names = given (fields.marks (view.parts a)) := by
  simp [Schema.write, Doc.names]

@[simp] theorem names_write_split (view : View (β × γ) α) (a : α) :
    ((Schema.split fields inner view).write a).names =
      given (fields.marks (view.parts a).1 ++ inner.marks (view.parts a).2) := by
  simp [Schema.write, Doc.names, given_append]

@[simp] theorem names_write_tagged (tag : String) (variants : Variants α) (a : α) :
    ((Schema.tagged tag variants).write a).names = given (variants.marks tag a) := by
  simp [Schema.write, Doc.names]

end Names

/-- A reader that holds back members, if they can be kept, holds back all of them. -/
theorem foldlM_eq_held {γ η : Type} (room : Nat)
    {f : γ × List η → Member → Except Fault (γ × List η)} {g : Member → η} {c : γ}
    {ms : List Member}
    (hf : ∀ m ∈ ms, ∀ held, f (c, held) m =
      if m.2.keepable room then .ok (c, held ++ [g m]) else .error .text) (held : List η) :
    ms.foldlM f (c, held) =
      if ms.all fun m => m.2.keepable room then .ok (c, held ++ ms.map g) else .error .text := by
  induction ms generalizing held with
  | nil => simp [pure, Except.pure]
  | cons m ms ih =>
    obtain ⟨hm, hms⟩ := List.forall_mem_cons.mp hf
    rw [List.foldlM_cons, hm held, List.all_cons]
    cases m.2.keepable room with
    | false => rfl
    | true =>
      simp only [Bool.true_and, List.map_cons]
      refine (ih hms (held ++ [g m])).trans ?_
      rw [List.append_assoc, List.singleton_append]

end Wire
end FleetWatch
