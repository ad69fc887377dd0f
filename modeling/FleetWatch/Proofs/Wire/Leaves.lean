import FleetWatch.Proofs.Wire.RoundTrip

/-!
# What is read

Whatever is true of every scalar that can be read is true of all scalars of a value that can be
read, if it is true of the defaults.

## Main definitions

* `Schema.All`: a property of all scalars of a value.
* `Schema.DefaultsAll`: the same of the defaults of a schema.
* `Fields.KeptByFill`: reading a member keeps it true of what has been read.
-/
namespace FleetWatch.Wire

open Json

variable (P : ∀ {α : Type}, Scalar α → α → Prop)

mutual

/-- All scalars of a value have a property. -/
def Schema.All {α : Type} : Schema α → α → Prop
  | .scalar s, a => P s a
  | .choice .., _ | .free, _ => True
  | .option s, a => ∀ b, a = some b → s.All b
  | .list s, as => ∀ a ∈ as, s.All a
  | .record fields view, a => fields.All (view.parts a)
  | .split outer inner view, a => outer.All (view.parts a).1 ∧ inner.All (view.parts a).2
  | .tagged _ variants, a => variants.All a

/-- All scalars of the parts have it. -/
def Fields.All {β σ : Type} : Fields β σ → β → Prop
  | .nil, _ => True
  | .cons _ shape _ rest, (b, bs) => shape.All b ∧ rest.All bs

/-- All scalars of the parts that the value has in some variant have it. -/
def Variants.All {α : Type} : Variants α → α → Prop
  | .nil, _ => False
  | .cons _ fields _ project _ rest, a => (∃ b, project a = some b ∧ fields.All b) ∨ rest.All a

end

/-- All scalars of the parts that have been read have the property. -/
def Fields.AllRead {β σ : Type} : Fields β σ → σ → Prop
  | .nil, _ => True
  | .cons _ shape _ rest, (slot, slots) => (∀ b, slot = some b → shape.All P b) ∧ rest.AllRead slots

mutual

/-- All scalars of the defaults have the property. -/
def Schema.DefaultsAll {α : Type} : Schema α → Prop
  | .scalar _ | .choice .. | .free => True
  | .option s | .list s => s.DefaultsAll
  | .record fields _ => fields.DefaultsAll
  | .split outer inner _ => outer.DefaultsAll ∧ inner.DefaultsAll
  | .tagged _ variants => variants.DefaultsAll

/-- All scalars of the defaults of members and inside their shapes have it. -/
def Fields.DefaultsAll {β σ : Type} : Fields β σ → Prop
  | .nil => True
  | .cons _ shape presence rest =>
    (shape.DefaultsAll ∧ ∀ b, presence.absent.inObject? = some b → shape.All P b) ∧
      rest.DefaultsAll

/-- All scalars of the defaults of all variants have it. -/
def Variants.DefaultsAll {α : Type} : Variants α → Prop
  | .nil => True
  | .cons _ fields _ _ _ rest => fields.DefaultsAll ∧ rest.DefaultsAll

end

/-- What may be missing from an array may be missing from an object. -/
theorem Absent.inObject?_of_inArray? {α : Type} {absent : Absent α} {a : α}
    (h : absent.inArray? = some a) : absent.inObject? = some a := by
  cases absent with
  | anywhere b => exact h
  | _ => cases h

/-- What every step of a reader keeps, the reader keeps. -/
theorem foldlM_invariant {γ η : Type} {f : γ → η → Except Fault γ} {Q : γ → Prop}
    (hf : ∀ c m d, Q c → f c m = .ok d → Q d) {ms : List η} {c d : γ} (hc : Q c)
    (h : ms.foldlM f c = .ok d) : Q d := by
  induction ms generalizing c with
  | nil => exact Except.ok.inj h ▸ hc
  | cons m ms ih =>
    rw [List.foldlM_cons] at h
    obtain ⟨mid, hmid, h⟩ := bind_eq_ok_iff.mp h
    exact ih (hf c m mid hc hmid) h

theorem forall_of_mapM {α β : Type} {g : β → Except Fault α} {Q : α → Prop}
    (hg : ∀ b a, g b = .ok a → Q a) {bs : List β} {as : List α} (h : bs.mapM g = .ok as) :
    ∀ a ∈ as, Q a := by
  induction bs generalizing as with
  | nil =>
    obtain rfl := Except.ok.inj h
    simp
  | cons b bs ih =>
    rw [List.mapM_cons] at h
    obtain ⟨a, ha, h⟩ := bind_eq_ok_iff.mp h
    obtain ⟨as', has, h⟩ := bind_eq_ok_iff.mp h
    obtain rfl := Except.ok.inj h
    exact List.forall_mem_cons.mpr ⟨hg b a ha, ih has⟩

theorem Fields.allRead_empty {β σ : Type} : ∀ fields : Fields β σ, fields.AllRead P fields.empty
  | .nil => trivial
  | .cons _ _ _ rest => ⟨by simp, rest.allRead_empty⟩

variable {P}

theorem Fields.all_finish {β σ : Type} : ∀ {fields : Fields β σ}, fields.DefaultsAll P →
    ∀ {slots : σ} {bs : β}, fields.AllRead P slots → fields.finish slots = .ok bs →
      fields.All P bs
  | .nil, _, _, _, _, _ => trivial
  | .cons name shape presence rest, hdefaults, (slot, slots), (b, bs), hread, h => by
    rw [Fields.finish] at h
    split at h
    · next b' hb =>
      obtain ⟨bs', hbs, h⟩ := bind_eq_ok_iff.mp h
      obtain ⟨rfl, rfl⟩ := Prod.mk.inj (Except.ok.inj h)
      refine ⟨?_, all_finish hdefaults.2 hread.2 hbs⟩
      cases slot with
      | some c => exact hread.1 _ hb
      | none => exact hdefaults.1.2 _ hb
    · cases h

/-- The property is true of whatever scalar is read. -/
def Scalar.ReadAs (P : ∀ {α : Type}, Scalar α → α → Prop) : Prop :=
  ∀ {α : Type} (s : Scalar α) (d : Doc) (a : α), s.read d = .ok a → P s a

/-- Reading a member keeps the property true of all that has been read. -/
def Fields.KeptByFill {β σ : Type} (P : ∀ {α : Type}, Scalar α → α → Prop) (surplus : Fault)
    (room : Nat) (fields : Fields β σ) : Prop :=
  ∀ {k : String} {d : Doc} {slots : σ} {found : Option σ}, fields.AllRead P slots →
    fields.fill surplus room k d slots = .ok found → fields.AllRead P (found.getD slots)

theorem Schema.all_of_read_record {α β σ : Type} {surplus : Fault} {room : Nat}
    {fields : Fields β σ} {view : View β α} (hview : ∀ b, view.parts (view.make b) = b)
    (hdefaults : fields.DefaultsAll P) (hkept : fields.KeptByFill P surplus (room - 1))
    {ms : List Member} {a : α}
    (h : (Schema.record fields view).read surplus room (.object ms) = .ok a) :
    fields.All P (view.parts a) := by
  rw [Schema.read] at h
  split at h
  · cases h
  · obtain ⟨slots, hslots, h⟩ := bind_eq_ok_iff.mp h
    obtain ⟨p, hp, h⟩ := bind_eq_ok_iff.mp h
    obtain rfl := Except.ok.inj h
    rw [hview]
    refine Fields.all_finish hdefaults (foldlM_invariant ?_ (fields.allRead_empty P) hslots) hp
    rintro slots ⟨k, d⟩ slots' hread hm
    cases k with
    | none => cases hm
    | some k =>
      obtain ⟨found, hfound, hm⟩ := bind_eq_ok_iff.mp hm
      have hafter := hkept hread hfound
      cases found with
      | some slots => exact Except.ok.inj hm ▸ hafter
      | none =>
        dsimp only at hm
        split at hm
        · exact Except.ok.inj hm ▸ hread
        · cases hm

theorem Schema.all_of_read_split {α β γ σ τ : Type} {surplus : Fault} {room : Nat}
    {outer : Fields β σ} {inner : Fields γ τ} {view : View (β × γ) α}
    (hview : ∀ b, view.parts (view.make b) = b) (houter : outer.DefaultsAll P)
    (hinner : inner.DefaultsAll P) (hkeptOuter : outer.KeptByFill P surplus (room - 1))
    (hkeptInner : inner.KeptByFill P .shape (room - 1)) {ms : List Member} {a : α}
    (h : (Schema.split outer inner view).read surplus room (.object ms) = .ok a) :
    outer.All P (view.parts a).1 ∧ inner.All P (view.parts a).2 := by
  rw [Schema.read] at h
  split at h
  · cases h
  · obtain ⟨⟨slots, held⟩, hslots, h⟩ := bind_eq_ok_iff.mp h
    obtain ⟨first, hfirst, h⟩ := bind_eq_ok_iff.mp h
    obtain ⟨later, hlater, h⟩ := bind_eq_ok_iff.mp h
    obtain ⟨second, hsecond, h⟩ := bind_eq_ok_iff.mp h
    obtain rfl := Except.ok.inj h
    rw [hview]
    refine ⟨Fields.all_finish houter ?_ hfirst, Fields.all_finish hinner ?_ hsecond⟩
    · refine foldlM_invariant (Q := fun c => outer.AllRead P c.1) ?_ (outer.allRead_empty P) hslots
      rintro ⟨slots, held⟩ ⟨k, d⟩ ⟨slots', held'⟩ hread hm
      cases k with
      | none => cases hm
      | some k =>
        obtain ⟨found, hfound, hm⟩ := bind_eq_ok_iff.mp hm
        have hafter := hkeptOuter hread hfound
        cases found with
        | some slots =>
          obtain ⟨rfl, -⟩ := Prod.mk.inj (Except.ok.inj hm)
          exact hafter
        | none =>
          -- the member is held back for the inner fields
          dsimp only at hm
          split at hm
          · obtain ⟨rfl, -⟩ := Prod.mk.inj (Except.ok.inj hm)
            exact hread
          · cases hm
    · refine foldlM_invariant ?_ (inner.allRead_empty P) hlater
      rintro slots ⟨k, d⟩ slots' hread hm
      obtain ⟨found, hfound, hm⟩ := bind_eq_ok_iff.mp hm
      exact Except.ok.inj hm ▸ hkeptInner hread hfound

mutual

/-- All scalars of a value that is read have the property. -/
theorem Schema.all_of_read {α : Type} {surplus : Fault} {room : Nat} (hP : Scalar.ReadAs P) :
    (s : Schema α) → s.Proper → s.DefaultsAll P → ∀ {d : Doc} {a : α},
      s.read surplus room d = .ok a → s.All P a
  | .scalar s, _, _, d, a, h => hP s d a h
  | .choice .., _, _, _, _, _ | .free, _, _, _, _, _ => trivial
  | .option s, hs, hdefaults, d, a, h => by
    intro b hb
    by_cases hd : d = .null
    · subst hd
      obtain rfl := Except.ok.inj h
      cases hb
    · rw [read_option s hd] at h
      obtain ⟨c, hc, rfl⟩ := map_eq_ok_iff.mp h
      obtain rfl := Option.some.inj hb
      exact s.all_of_read hP hs hdefaults hc
  | .list s, hs, hdefaults, d, as, h => by
    cases d with
    | array ds =>
      rw [Schema.read] at h
      split at h
      · cases h
      · exact forall_of_mapM (fun _ _ hread => s.all_of_read hP hs hdefaults hread) h
    | _ => simp [Schema.read] at h
  | .record fields view, hs, hdefaults, d, a, h => by
    obtain ⟨hnodup, hview, hfields⟩ := hs
    cases d with
    | object ms =>
      exact Schema.all_of_read_record hview hdefaults
        (fun hread h => fields.allRead_fill hP hfields hdefaults hread h) h
    | array ds =>
      rw [Schema.read] at h
      split at h
      · cases h
      · obtain ⟨⟨parts, rest⟩, hparts, h⟩ := bind_eq_ok_iff.mp h
        dsimp only at h
        split at h
        · obtain rfl := Except.ok.inj h
          rw [Schema.All, hview]
          exact fields.all_of_readItems hP hfields hdefaults hparts
        · cases h
    | _ => simp [Schema.read] at h
  | .split outer inner view, hs, hdefaults, d, a, h => by
    obtain ⟨hnodup, hview, houter, hinner⟩ := hs
    cases d with
    | object ms =>
      exact Schema.all_of_read_split hview hdefaults.1 hdefaults.2
        (fun hread h => outer.allRead_fill hP houter hdefaults.1 hread h)
        (fun hread h => inner.allRead_fill hP hinner hdefaults.2 hread h) h
    | _ => simp [Schema.read] at h
  | .tagged tag variants, hs, hdefaults, d, a, h => by
    cases d with
    | object ms =>
      rw [Schema.read] at h
      split at h
      · cases h
      · obtain ⟨⟨name, held⟩, -, h⟩ := bind_eq_ok_iff.mp h
        cases name with
        | none => cases h
        | some name => exact variants.all_of_readMembers hP hs.2 hdefaults h
    | array ds =>
      cases ds with
      | nil =>
        rw [Schema.read] at h
        split at h <;> cases h
      | cons d ds =>
        rw [Schema.read] at h
        split at h
        · cases h
        · obtain ⟨name, -, h⟩ := bind_eq_ok_iff.mp h
          split at h
          · exact variants.all_of_readItems hP hs.2 hdefaults h
          · cases h
    | _ => simp [Schema.read] at h

theorem Fields.allRead_fill {β σ : Type} {surplus : Fault} {room : Nat} (hP : Scalar.ReadAs P) :
    (fields : Fields β σ) →
    fields.Proper → fields.DefaultsAll P → ∀ {k : String} {d : Doc} {slots : σ} {found : Option σ},
      fields.AllRead P slots → fields.fill surplus room k d slots = .ok found →
        fields.AllRead P (found.getD slots)
  | .nil, _, _, _, _, _, _, hread, h => by
    obtain rfl := Except.ok.inj h
    exact hread
  | .cons name shape presence rest, hfields, hdefaults, k, d, (slot, slots), found, hread, h => by
    rw [Fields.fill] at h
    split at h
    · split at h
      · cases h
      · obtain ⟨b, hb, h⟩ := bind_eq_ok_iff.mp h
        obtain rfl := Except.ok.inj h
        refine ⟨fun c hc => ?_, hread.2⟩
        obtain rfl := Option.some.inj hc
        exact shape.all_of_read hP hfields.1 hdefaults.1.1 hb
    · obtain ⟨later, hlater, h⟩ := bind_eq_ok_iff.mp h
      obtain rfl := Except.ok.inj h
      have ih := rest.allRead_fill hP hfields.2 hdefaults.2 hread.2 hlater
      cases later with
      | none => exact hread
      | some slots' => exact ⟨hread.1, ih⟩

theorem Fields.all_of_readItems {β σ : Type} {surplus : Fault} {room : Nat}
    (hP : Scalar.ReadAs P) :
    (fields : Fields β σ) → fields.Proper → fields.DefaultsAll P →
      ∀ {ds : List Doc} {bs : β} {rest : List Doc},
        fields.readItems surplus room ds = .ok (bs, rest) → fields.All P bs
  | .nil, _, _, _, _, _, _ => trivial
  | .cons name shape presence rest, hfields, hdefaults, ds, (b, bs), left, h => by
    rw [Fields.readItems.eq_def] at h
    dsimp only at h
    cases ds with
    | cons d ds =>
      obtain ⟨b', hb, h⟩ := bind_eq_ok_iff.mp h
      obtain ⟨_, hpair, h⟩ := bind_eq_ok_iff.mp h
      obtain rfl := Except.ok.inj hpair
      obtain ⟨⟨bs', ds'⟩, hbs, h⟩ := bind_eq_ok_iff.mp h
      obtain ⟨hparts, -⟩ := Prod.mk.inj (Except.ok.inj h)
      obtain ⟨rfl, rfl⟩ := Prod.mk.inj hparts
      exact ⟨shape.all_of_read hP hfields.1 hdefaults.1.1 hb,
        rest.all_of_readItems hP hfields.2 hdefaults.2 hbs⟩
    | nil =>
      dsimp only at h
      split at h
      · next b' habsent =>
        obtain ⟨_, hpair, h⟩ := bind_eq_ok_iff.mp h
        obtain rfl := Except.ok.inj hpair
        obtain ⟨⟨bs', ds'⟩, hbs, h⟩ := bind_eq_ok_iff.mp h
        obtain ⟨hparts, -⟩ := Prod.mk.inj (Except.ok.inj h)
        obtain ⟨rfl, rfl⟩ := Prod.mk.inj hparts
        exact ⟨hdefaults.1.2 _ (Absent.inObject?_of_inArray? habsent),
          rest.all_of_readItems hP hfields.2 hdefaults.2 hbs⟩
      · cases h

theorem Variants.all_of_readMembers {α : Type} {tag : String} {room : Nat}
    (hP : Scalar.ReadAs P) :
    (variants : Variants α) → variants.Proper tag → variants.DefaultsAll P →
      ∀ {k : String} {ms : List Member} {a : α},
        variants.readMembers room k ms = .ok a → variants.All P a
  | .nil, _, _, _, _, _, h => by cases h
  | .cons name fields inject project hproject rest, hvariants, hdefaults, k, ms, a, h => by
    obtain ⟨-, hinject, hfields, hrest⟩ := hvariants
    rw [Variants.readMembers] at h
    split at h
    · obtain ⟨slots, hslots, h⟩ := bind_eq_ok_iff.mp h
      obtain ⟨bs, hbs, h⟩ := bind_eq_ok_iff.mp h
      obtain rfl := Except.ok.inj h
      refine .inl ⟨bs, hinject bs, Fields.all_finish hdefaults.1 ?_ hbs⟩
      refine foldlM_invariant ?_ (fields.allRead_empty P) hslots
      rintro slots ⟨k, d⟩ slots' hread hm
      cases k with
      | none => cases hm
      | some k =>
        obtain ⟨found, hfound, hm⟩ := bind_eq_ok_iff.mp hm
        exact Except.ok.inj hm ▸ fields.allRead_fill hP hfields hdefaults.1 hread hfound
    · exact .inr (rest.all_of_readMembers hP hrest hdefaults.2 h)

theorem Variants.all_of_readItems {α : Type} {tag : String} {room : Nat}
    (hP : Scalar.ReadAs P) :
    (variants : Variants α) → variants.Proper tag → variants.DefaultsAll P →
      ∀ {k : String} {ds : List Doc} {a : α},
        variants.readItems room k ds = .ok a → variants.All P a
  | .nil, _, _, _, _, _, h => by cases h
  | .cons name fields inject project hproject rest, hvariants, hdefaults, k, ds, a, h => by
    obtain ⟨-, hinject, hfields, hrest⟩ := hvariants
    rw [Variants.readItems] at h
    split at h
    · obtain ⟨⟨bs, left⟩, hbs, h⟩ := bind_eq_ok_iff.mp h
      dsimp only at h
      split at h
      · obtain rfl := Except.ok.inj h
        exact .inl ⟨bs, hinject bs, fields.all_of_readItems hP hfields hdefaults.1 hbs⟩
      · cases h
    · exact .inr (rest.all_of_readItems hP hrest hdefaults.2 h)

end

end FleetWatch.Wire
