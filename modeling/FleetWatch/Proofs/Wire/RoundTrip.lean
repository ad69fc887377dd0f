import FleetWatch.Proofs.Json.Printing
import FleetWatch.Proofs.Wire.Members

/-!
# The round trip

What a value is written as is read back as that value exactly when its leaves are: the shape of
records, lists, options and tagged unions never stands in the way, up to the depth of nesting.

## Main definitions

* `Schema.Proper`: a schema whose names are told apart and whose views lose nothing.
* `Schema.Returns`: the leaves of a value are read back.
-/
namespace FleetWatch

theorem bind_eq_ok_iff {ε α β : Type} {x : Except ε α} {f : α → Except ε β} {b : β} :
    x >>= f = .ok b ↔ ∃ a, x = .ok a ∧ f a = .ok b := by
  cases x <;> simp [bind, Except.bind]

theorem map_eq_ok_iff {ε α β : Type} {x : Except ε α} {f : α → β} {b : β} :
    f <$> x = .ok b ↔ ∃ a, x = .ok a ∧ f a = b := by
  cases x <;> simp [Functor.map, Except.map]

namespace Wire

open Json

/-! ## Spelling -/

theorem spelled_float {f : Binary.Format} (x : Binary f) : (Doc.float x).Spelled := by
  unfold Doc.float
  split
  · next l hl => exact Literal.spelled_of_ofFloat? hl
  · trivial

theorem Scalar.spelled_write {α : Type} (s : Scalar α) (a : α) : (s.write a).Spelled := by
  cases s with
  | float f => exact spelled_float a
  | text | flag | instant | endpoint => trivial
  | _ => exact Literal.spelled_ofInt _

mutual

theorem spelled_toDoc : (v : Value) → v.toDoc.Spelled
  | .null | .flag _ | .text _ => trivial
  | .number (.integer i) => Literal.spelled_ofInt i
  | .number (.real x) => spelled_float x
  | .array vs => spelled_itemsToDoc vs
  | .object ms => spelled_membersToDoc ms

theorem spelled_itemsToDoc : (vs : List Value) → Doc.ItemsSpelled (Value.itemsToDoc vs)
  | [] => trivial
  | v :: vs => ⟨spelled_toDoc v, spelled_itemsToDoc vs⟩

theorem spelled_membersToDoc : (ms : List (String × Value)) →
    Doc.MembersSpelled (Value.membersToDoc ms)
  | [] => trivial
  | (_, v) :: ms => ⟨spelled_toDoc v, spelled_membersToDoc ms⟩

end

theorem itemsSpelled_map {α : Type} {f : α → Doc} (h : ∀ a, (f a).Spelled) (as : List α) :
    Doc.ItemsSpelled (as.map f) := by
  induction as with
  | nil => trivial
  | cons a as ih => exact ⟨h a, ih⟩

theorem membersSpelled_append {ms ns : List Member} (hms : Doc.MembersSpelled ms)
    (hns : Doc.MembersSpelled ns) : Doc.MembersSpelled (ms ++ ns) := by
  induction ms with
  | nil => exact hns
  | cons m ms ih => exact ⟨hms.1, ih hms.2⟩

mutual

/-- Whatever is written has a spelling. -/
theorem Schema.spelled_write {α : Type} : (s : Schema α) → (a : α) → (s.write a).Spelled
  | .scalar s, a => s.spelled_write a
  | .choice .., _ => trivial
  | .free, v => spelled_toDoc v
  | .option _, none => trivial
  | .option s, some a => s.spelled_write a
  | .list s, as => itemsSpelled_map s.spelled_write as
  | .record fields view, a => fields.membersSpelled_write (view.parts a)
  | .split outer inner view, a =>
    membersSpelled_append (outer.membersSpelled_write (view.parts a).1)
      (inner.membersSpelled_write (view.parts a).2)
  | .tagged tag variants, a => variants.membersSpelled_write tag a

theorem Fields.membersSpelled_write {β σ : Type} : (fields : Fields β σ) → (bs : β) →
    Doc.MembersSpelled (fields.write bs)
  | .nil, _ => trivial
  | .cons name shape presence rest, (b, bs) => by
    refine membersSpelled_append ?_ (rest.membersSpelled_write bs)
    split
    · trivial
    · exact ⟨shape.spelled_write b, trivial⟩

theorem Variants.membersSpelled_write {α : Type} (tag : String) : (variants : Variants α) →
    (a : α) → Doc.MembersSpelled (variants.write tag a)
  | .nil, _ => trivial
  | .cons name fields inject project _ rest, a => by
    rw [Variants.write]
    split
    · next b _ => exact ⟨trivial, fields.membersSpelled_write b⟩
    · exact rest.membersSpelled_write tag a

end

/-- The text of a document is read as this document. -/
theorem Schema.decode_print {α : Type} (s : Schema α) {d : Doc} (hd : d.Spelled) :
    s.decode d.print = s.read .text nestingLimit d := by
  rw [decode, Doc.parse_print hd]
  dsimp only
  cases s.read .text nestingLimit d <;> rfl

/-- The text of a value is read as its document. -/
theorem Schema.decode_encode {α : Type} (s : Schema α) (a : α) :
    s.decode (s.encode a) = s.read .text nestingLimit (s.write a) :=
  s.decode_print (s.spelled_write a)

/-! ## Schemas -/

mutual

/-- The names of members and variants are told apart, and views lose nothing. -/
def Schema.Proper {α : Type} : Schema α → Prop
  | .scalar _ | .choice .. | .free => True
  | .option s | .list s => s.Proper
  | .record fields view =>
    fields.names.Nodup ∧ (∀ p, view.parts (view.make p) = p) ∧ fields.Proper
  | .split outer inner view =>
    (outer.names ++ inner.names).Nodup ∧ (∀ p, view.parts (view.make p) = p) ∧
      outer.Proper ∧ inner.Proper
  | .tagged tag variants => variants.names.Nodup ∧ variants.Proper tag

/-- The shapes of all members are proper. -/
def Fields.Proper {β σ : Type} : Fields β σ → Prop
  | .nil => True
  | .cons _ shape _ rest => shape.Proper ∧ rest.Proper

/-- The members of every variant are proper, and none is called like the tag. -/
def Variants.Proper {α : Type} (tag : String) : Variants α → Prop
  | .nil => True
  | .cons _ fields inject project _ rest =>
    (tag :: fields.names).Nodup ∧ (∀ b, project (inject b) = some b) ∧ fields.Proper ∧
      rest.Proper tag

end

mutual

/-- Every leaf of a value is read back as what it was, and there is room for the containers. -/
def Schema.Returns {α : Type} (surplus : Fault) (room : Nat) : Schema α → α → Prop
  | .scalar s, a => s.read (s.write a) = .ok a
  | .choice .., _ => True
  | .free, v => Value.read surplus room v.toDoc = .ok v
  | .option s, a => match a with
    | none => True
    | some a => s.write a ≠ .null ∧ s.Returns surplus room a
  | .list s, as => 0 < room ∧ ∀ a ∈ as, s.Returns surplus (room - 1) a
  | .record fields view, a => 0 < room ∧ fields.Returns surplus (room - 1) (view.parts a)
  | .split outer inner view, a =>
    0 < room ∧ outer.Returns surplus (room - 1) (view.parts a).1 ∧
      inner.Returns .shape (room - 1) (view.parts a).2
  | .tagged _ variants, a => 0 < room ∧ variants.Returns (room - 1) a

/-- Every part that is written is read back. -/
def Fields.Returns {β σ : Type} (surplus : Fault) (room : Nat) : Fields β σ → β → Prop
  | .nil, _ => True
  | .cons _ shape presence rest, (b, bs) =>
    (presence.omits b = false → shape.Returns surplus room b) ∧ rest.Returns surplus room bs

/-- The value is of some variant, and the parts it has in the first of these are read back. -/
def Variants.Returns {α : Type} (room : Nat) : Variants α → α → Prop
  | .nil, _ => False
  | .cons _ fields _ project _ rest, a => match project a with
    | some b => fields.Returns .shape room b
    | none => rest.Returns room a

end

/-! ## Values that are held back -/

theorem keepable_int {i : Int} (hlow : -(UInt64.size / 2 : Nat) ≤ i) (hhigh : i < UInt64.size)
    (room : Nat) : (Doc.int i).keepable room := by
  simp [Doc.int, Doc.keepable, Literal.read?_ofInt hlow hhigh]

/-- A number that can be read can be held back. -/
theorem isSome_read?_of_readNumber {α : Type} {parse : Number → Option α} {l : Literal} {a : α}
    (h : readNumber parse (.number l) = .ok a) : l.read?.isSome := by
  cases hread : l.read? with
  | none => simp [readNumber, hread] at h
  | some n => rfl

theorem Scalar.keepable_write {α : Type} {s : Scalar α} {a : α}
    (h : s.read (s.write a) = .ok a) (room : Nat) : (s.write a).keepable room := by
  cases s with
  | text | flag | instant | endpoint => rfl
  | word8 => exact keepable_int (by simp) (by have := a.toNat_lt; simp; omega) room
  | word16 => exact keepable_int (by simp) (by have := a.toNat_lt; simp; omega) room
  | word32 => exact keepable_int (by simp) (by have := a.toNat_lt; simp; omega) room
  | word64 => exact keepable_int (by simp) (by have := a.toNat_lt; simp; omega) room
  | int64 =>
    have hlow := a.le_toInt
    have hhigh := a.toInt_lt
    exact keepable_int (by simp; omega) (by simp; omega) room
  | float f =>
    simp only [Scalar.write, Scalar.read] at h ⊢
    unfold Doc.float at h ⊢
    split
    · next l hl =>
      rw [hl] at h
      exact isSome_read?_of_readNumber h
    · rfl

mutual

/-- A document that has a value can be held back. -/
theorem keepable_of_readWith {value? : String → Option Value} {surplus : Fault} {room : Nat} :
    {d : Doc} → {v : Value} → Value.readWith value? surplus room d = .ok v →
      d.keepable room = true
  | .null, _, _ | .flag _, _, _ => rfl
  | .number l, _, h => by
    rw [Value.readWith] at h
    rw [Doc.keepable]
    cases hread : l.read? with
    | none => simp [hread] at h
    | some n => rfl
  | .text none, _, h => by simp [Value.readWith] at h
  | .text (some s), _, _ => rfl
  | .array ds, _, h => by
    rw [Value.readWith] at h
    split at h
    · cases h
    · next hroom =>
      obtain ⟨vs, hvs, -⟩ := map_eq_ok_iff.mp h
      simp [Doc.keepable, Nat.pos_of_ne_zero hroom, itemsKeepable_of_readItems hvs]
  | .object ms, _, h => by
    rw [Value.readWith] at h
    split at h
    · cases h
    · next hroom =>
      have hpos := Nat.pos_of_ne_zero hroom
      split at h
      · next s others hembedding =>
        -- nothing but the embedded text may stand in the object
        split at h
        · split at h
          · next hothers =>
            unfold Value.embedding? at hembedding
            split at hembedding
            · next k d rest =>
              split at hembedding
              · obtain ⟨rfl, rfl⟩ := Prod.mk.inj (Option.some.inj hembedding)
                obtain rfl := List.isEmpty_iff.mp hothers
                simp [Doc.keepable, Doc.membersKeepable, hpos]
              · cases hembedding
            · cases hembedding
          · cases h
        · cases h
      · cases h
      · obtain ⟨vs, hvs, -⟩ := bind_eq_ok_iff.mp h
        simp [Doc.keepable, hpos, membersKeepable_of_readMembers hvs]
  | .broken, _, h => by simp [Value.readWith] at h

theorem itemsKeepable_of_readItems {value? : String → Option Value} {surplus : Fault}
    {room : Nat} : {ds : List Doc} → {vs : List Value} →
      Value.readItems value? surplus room ds = .ok vs → Doc.itemsKeepable room ds = true
  | [], _, _ => rfl
  | d :: ds, _, h => by
    obtain ⟨v, hv, h⟩ := bind_eq_ok_iff.mp h
    obtain ⟨vs, hvs, -⟩ := bind_eq_ok_iff.mp h
    simp [Doc.itemsKeepable, keepable_of_readWith hv, itemsKeepable_of_readItems hvs]

theorem membersKeepable_of_readMembers {value? : String → Option Value} {surplus : Fault}
    {room : Nat} : {ms : List Member} → {vs : List (String × Value)} →
      Value.readMembers value? surplus room ms = .ok vs → Doc.membersKeepable room ms = true
  | [], _, _ => rfl
  | (none, _) :: _, _, h => by simp [Value.readMembers] at h
  | (some k, d) :: ms, _, h => by
    rw [Value.readMembers] at h
    obtain ⟨v, hv, h⟩ := bind_eq_ok_iff.mp h
    obtain ⟨vs, hvs, -⟩ := bind_eq_ok_iff.mp h
    simp [Doc.membersKeepable, keepable_of_readWith hv, membersKeepable_of_readMembers hvs]

end

theorem itemsKeepable_map {α : Type} {f : α → Doc} {room : Nat} {as : List α}
    (h : ∀ a ∈ as, (f a).keepable room = true) : Doc.itemsKeepable room (as.map f) = true := by
  induction as with
  | nil => rfl
  | cons a as ih =>
    obtain ⟨ha, has⟩ := List.forall_mem_cons.mp h
    simp [Doc.itemsKeepable, ha, ih has]

theorem membersKeepable_append {room : Nat} (ms ns : List Member) :
    Doc.membersKeepable room (ms ++ ns) =
      (Doc.membersKeepable room ms && Doc.membersKeepable room ns) := by
  induction ms with
  | nil => rfl
  | cons m ms ih => simp [Doc.membersKeepable, ih, Bool.and_assoc]

mutual

/-- What is read back could as well be held back. -/
theorem Schema.keepable_write {α : Type} {surplus : Fault} {room : Nat} : (s : Schema α) →
    {a : α} → s.Returns surplus room a → (s.write a).keepable room = true
  | .scalar s, _, h => s.keepable_write h room
  | .choice .., _, _ => rfl
  | .free, _, h => keepable_of_readWith h
  | .option _, none, _ => rfl
  | .option s, some _, h => s.keepable_write h.2
  | .list s, as, h => by
    have hitems := itemsKeepable_map fun a ha => s.keepable_write (h.2 a ha)
    simp [Schema.write, Doc.keepable, h.1, hitems]
  | .record fields view, a, h => by
    simp [Schema.write, Doc.keepable, h.1, fields.membersKeepable_write h.2]
  | .split outer inner view, a, h => by
    simp [Schema.write, Doc.keepable, h.1, membersKeepable_append,
      outer.membersKeepable_write h.2.1, inner.membersKeepable_write h.2.2]
  | .tagged tag variants, a, h => by
    simp [Schema.write, Doc.keepable, h.1, variants.membersKeepable_write tag h.2]

theorem Fields.membersKeepable_write {β σ : Type} {surplus : Fault} {room : Nat} :
    (fields : Fields β σ) → {bs : β} → fields.Returns surplus room bs →
      Doc.membersKeepable room (fields.write bs) = true
  | .nil, _, _ => rfl
  | .cons name shape presence rest, (b, bs), h => by
    have hrest := rest.membersKeepable_write h.2
    rw [Fields.write, membersKeepable_append, hrest, Bool.and_true]
    split
    · rfl
    · next homits =>
      have hb := shape.keepable_write (h.1 (Bool.eq_false_iff.mpr homits))
      simp [Doc.membersKeepable, hb]

theorem Variants.membersKeepable_write {α : Type} {room : Nat} (tag : String) :
    (variants : Variants α) → {a : α} → variants.Returns room a →
      Doc.membersKeepable room (variants.write tag a) = true
  | .nil, _, h => h.elim
  | .cons name fields inject project _ rest, a, h => by
    rw [Variants.Returns] at h
    rw [Variants.write]
    split
    · next b hb =>
      rw [hb] at h
      have hfields := fields.membersKeepable_write h
      simp [Doc.membersKeepable, Doc.str, Doc.keepable, hfields]
    · next hb =>
      rw [hb] at h
      exact rest.membersKeepable_write tag h

end

/-! ## Reading back -/

theorem mapM_map_eq_ok_iff {α β : Type} {f : α → β} {g : β → Except Fault α} (as : List α) :
    (as.map f).mapM g = .ok as ↔ ∀ a ∈ as, g (f a) = .ok a := by
  induction as with
  | nil => simp [pure, Except.pure]
  | cons a as ih =>
    simp only [List.map_cons, List.mapM_cons, List.forall_mem_cons, ← ih, bind_eq_ok_iff]
    constructor
    · rintro ⟨b, hb, bs, hbs, h⟩
      obtain ⟨rfl, rfl⟩ := List.cons.inj (Except.ok.inj h)
      exact ⟨hb, hbs⟩
    · rintro ⟨ha, has⟩
      exact ⟨a, ha, as, has, rfl⟩

theorem map_eq_ok_self_iff {α β : Type} {view : View β α} {x : Except Fault β} {a : α}
    (hview : ∀ p, view.parts (view.make p) = p) :
    view.make <$> x = .ok a ↔ x = .ok (view.parts a) := by
  rw [map_eq_ok_iff]
  constructor
  · rintro ⟨p, hp, rfl⟩
    rw [hp, hview]
  · intro h
    exact ⟨_, h, view.make_parts a⟩

/-- A written record is read back part by part. -/
theorem read_object_write {α β σ : Type} {surplus : Fault} {room : Nat} {fields : Fields β σ}
    (view : View β α) (hnodup : fields.names.Nodup) (hroom : 0 < room) (bs : β) :
    (Schema.record fields view).read surplus room (.object (fields.write bs)) =
      view.make <$> (fields.refill surplus (room - 1) bs >>= fields.finish) := by
  have hstep : ∀ slots k d, k ∈ fields.names →
      (do
        match ← fields.fill surplus (room - 1) k d slots with
        | some slots => return slots
        | none => if d.intact then return slots else .error .text) =
      (fun found => found.getD slots) <$> fields.fill surplus (room - 1) k d slots := by
    intro slots k d hk
    have hne := Fields.fill_ne_none surplus (room - 1) hk d slots
    cases hfill : fields.fill surplus (room - 1) k d slots with
    | error e => rfl
    | ok found =>
      cases found with
      | none => exact absurd hfill hne
      | some slots => rfl
  rw [Schema.read, if_neg (Nat.ne_of_gt hroom),
    Fields.foldlM_known hstep (fields.among_write bs), Fields.fillAll_write hnodup]
  cases fields.refill surplus (room - 1) bs with
  | error e => rfl
  | ok slots => cases h : fields.finish slots <;> simp only [bind, Except.bind, h] <;> rfl

theorem all_keepable_of_membersKeepable {room : Nat} {ms : List Member}
    (h : Doc.membersKeepable room ms = true) : (ms.all fun m => m.2.keepable room) = true := by
  induction ms with
  | nil => rfl
  | cons m ms ih =>
    simp only [Doc.membersKeepable, Bool.and_eq_true] at h
    simp [h.1.2, ih h.2]

/-- Of a written split record the outer part is read first; then the inner part is, if it can be
held back until then. -/
theorem read_split_write {α β γ σ τ : Type} {surplus : Fault} {room : Nat} {outer : Fields β σ}
    {inner : Fields γ τ} (view : View (β × γ) α) (hnodup : (outer.names ++ inner.names).Nodup)
    (hroom : 0 < room) (bs : β) (cs : γ) :
    (Schema.split outer inner view).read surplus room (.object (outer.write bs ++ inner.write cs)) =
      (do
        let slots ← outer.refill surplus (room - 1) bs
        if (inner.write cs).all fun m => m.2.keepable (room - 1) then do
          let first ← outer.finish slots
          let slots ← inner.refill .shape (room - 1) cs
          return view.make (first, ← inner.finish slots)
        else .error .text) := by
  obtain ⟨houter, hinner, hdisjoint⟩ := List.nodup_append.mp hnodup
  rw [Schema.read, if_neg (Nat.ne_of_gt hroom), List.foldlM_append]
  rw [Fields.foldlM_eq_fillAll surplus (room - 1)
    (g := fun slots => (slots, ([] : List (String × Doc)))) ?known (outer.among_write bs)]
  case known =>
    intro slots k d hk
    have hne := Fields.fill_ne_none surplus (room - 1) hk d slots
    dsimp only
    cases hfill : outer.fill surplus (room - 1) k d slots with
    | error e => rfl
    | ok found =>
      cases found with
      | none => exact absurd hfill hne
      | some slots => rfl
  rw [Fields.fillAll_write houter]
  cases outer.refill surplus (room - 1) bs with
  | error e => rfl
  | ok slots =>
    change (List.foldlM _ (slots, []) (inner.write cs) >>= _) = _
    rw [foldlM_eq_held (room - 1) (g := fun m => (m.1.getD "", m.2)) ?held []]
    case held =>
      intro m hm held
      obtain ⟨k, d⟩ := m
      obtain ⟨k, hk, rfl⟩ := inner.among_write cs _ hm
      have hnotMem : k ∉ outer.names := fun hmem => hdisjoint k hmem k hk rfl
      simp only [Fields.fill_of_notMem hnotMem]
      rfl
    cases (inner.write cs).all fun m => m.2.keepable (room - 1) with
    | false => rfl
    | true =>
      simp only [if_true, List.nil_append]
      change (outer.finish slots >>= fun first => _ >>= _) = _
      rw [List.foldlM_map, Fields.foldlM_known (fun _ _ _ _ => rfl) (inner.among_write cs),
        Fields.fillAll_write hinner]
      rfl

theorem takeTag_cons {tag name : String} {known : List String} {room : Nat} {ms : List Member}
    (hname : name ∈ known) (hms : ∀ m ∈ ms, ∃ k, m.1 = some k ∧ k ≠ tag) :
    takeTag tag known room ((some tag, .str name) :: ms) =
      if ms.all fun m => m.2.keepable room then .ok (some name, ms) else .error .text := by
  rw [takeTag, List.foldlM_cons]
  have htag : readText (fun s => if s ∈ known then some s else none) (.str name) =
      .ok name := by
    simp [readText, Doc.str, hname]
  simp only [if_true, Option.isSome_none, Bool.false_eq_true, if_false, htag]
  change List.foldlM _ (some name, []) ms = _
  rw [foldlM_eq_held room (g := id) ?held []]
  case held =>
    intro m hm held
    obtain ⟨k, d⟩ := m
    obtain ⟨k, rfl, hne⟩ := hms _ hm
    simp [hne]
  simp

theorem read_option {α : Type} {surplus : Fault} {room : Nat} (s : Schema α) {d : Doc}
    (h : d ≠ .null) : s.option.read surplus room d = some <$> s.read surplus room d := by
  cases d with
  | null => exact absurd rfl h
  | _ => rfl

mutual

/-- A value is read back from what is written of it exactly when its leaves are. -/
theorem Schema.read_write_iff {α : Type} (surplus : Fault) (room : Nat) : (s : Schema α) →
    s.Proper → ∀ a : α, s.read surplus room (s.write a) = .ok a ↔ s.Returns surplus room a
  | .scalar _, _, _ => Iff.rfl
  | .choice names nameOf hlookup, _, a => by
    simp [Schema.read, Schema.write, Schema.Returns, readChoice, Doc.str, hlookup]
  | .free, _, _ => Iff.rfl
  | .option s, _, none => by simp [Schema.read, Schema.write, Schema.Returns]
  | .option s, hs, some a => by
    rw [Schema.write, Schema.Returns]
    by_cases hnull : s.write a = .null
    · -- null is read as no value, so one that is written as null is lost
      simp [hnull, Schema.read]
    · simp [read_option s hnull, map_eq_ok_iff, hnull, ← s.read_write_iff surplus _ hs a]
  | .list s, hs, as => by
    rw [Schema.write, Schema.read, Schema.Returns]
    split
    · next hroom => simp [hroom]
    · next hroom =>
      rw [mapM_map_eq_ok_iff]
      simp only [Nat.pos_of_ne_zero hroom, true_and]
      exact forall₂_congr fun a _ => s.read_write_iff surplus _ hs a
  | .record fields view, h, a => by
    obtain ⟨hnodup, hview, hfields⟩ := h
    rw [Schema.write, Schema.Returns]
    rcases Nat.eq_zero_or_pos room with rfl | hroom
    · simp [Schema.read]
    · rw [read_object_write view hnodup hroom, map_eq_ok_self_iff hview,
        fields.refill_finish_iff surplus _ hfields]
      simp [hroom]
  | .split outer inner view, h, a => by
    obtain ⟨hnodup, hview, houter, hinner⟩ := h
    rw [Schema.write, Schema.Returns]
    rcases Nat.eq_zero_or_pos room with rfl | hroom
    · simp [Schema.read]
    · rw [read_split_write view hnodup hroom, ← outer.refill_finish_iff surplus _ houter,
        ← inner.refill_finish_iff .shape _ hinner]
      simp only [hroom, true_and, bind_eq_ok_iff]
      constructor
      · rintro ⟨slots, hslots, h⟩
        split at h
        · simp only [bind_eq_ok_iff] at h
          obtain ⟨first, hfirst, later, hlater, second, hsecond, h⟩ := h
          obtain rfl := Except.ok.inj h
          simp only [hview] at hslots hlater ⊢
          exact ⟨⟨slots, hslots, hfirst⟩, later, hlater, hsecond⟩
        · cases h
      · -- the members of the inner fields are held back at first, which they must be fit for
        rintro ⟨⟨slots, hslots, hfirst⟩, later, hlater, hsecond⟩
        have hreturns := (inner.refill_finish_iff .shape _ hinner (view.parts a).2).mp
          (bind_eq_ok_iff.mpr ⟨later, hlater, hsecond⟩)
        have hkeepable := all_keepable_of_membersKeepable (inner.membersKeepable_write hreturns)
        refine ⟨slots, hslots, ?_⟩
        rw [if_pos hkeepable]
        simp only [bind_eq_ok_iff]
        exact ⟨_, hfirst, later, hlater, _, hsecond, congrArg _ (view.make_parts a)⟩
  | .tagged tag variants, h, a => by
    obtain ⟨hnodup, hvariants⟩ := h
    rw [Schema.write, Schema.Returns]
    rcases Nat.eq_zero_or_pos room with rfl | hroom
    · simp [Schema.read]
    · rw [Schema.read, if_neg (Nat.ne_of_gt hroom)]
      rcases variants.readMembers_write (room - 1) hvariants hnodup a with
        ⟨hnone, hreturns⟩ | ⟨name, ms, hname, hwrite, hms, hread⟩
      · simp [hnone, hreturns, takeTag, pure, Except.pure, bind, Except.bind]
      · rw [hwrite, takeTag_cons hname hms, ← hread]
        simp only [hroom, true_and]
        constructor
        · intro h
          obtain ⟨found, hfound, h⟩ := bind_eq_ok_iff.mp h
          split at hfound
          · obtain rfl := Except.ok.inj hfound
            exact h
          · cases hfound
        · intro h
          have hkeepable := variants.membersKeepable_write tag (hread.mp h)
          rw [hwrite] at hkeepable
          have hall := all_keepable_of_membersKeepable hkeepable
          rw [List.all_cons, Bool.and_eq_true] at hall
          rw [if_pos hall.2]
          exact h

theorem Fields.refill_finish_iff {β σ : Type} (surplus : Fault) (room : Nat) :
    (fields : Fields β σ) → fields.Proper → ∀ bs : β,
      fields.refill surplus room bs >>= fields.finish = .ok bs ↔ fields.Returns surplus room bs
  | .nil, _, _ => by simp [Fields.refill, Fields.finish, Fields.Returns, bind, Except.bind]
  | .cons name shape presence rest, h, (b, bs) => by
    obtain ⟨hshape, hrest⟩ := h
    have hbs := rest.refill_finish_iff surplus room hrest bs
    rw [bind_eq_ok_iff] at hbs
    rw [Fields.refill, Fields.Returns, ← shape.read_write_iff surplus room hshape b, ← hbs]
    rw [bind_eq_ok_iff]
    cases homits : presence.omits b with
    | true =>
      have habsent := presence.inObject_of_omits b homits
      simp only [if_true, bind_eq_ok_iff]
      constructor
      · rintro ⟨_, ⟨slot, hslot, slots, hslots, h⟩, hfinish⟩
        obtain rfl := Except.ok.inj h
        obtain rfl := Except.ok.inj hslot
        simp only [Fields.finish, Option.none_or, habsent, bind_eq_ok_iff] at hfinish
        obtain ⟨bs', hbs', h⟩ := hfinish
        obtain ⟨-, rfl⟩ := Prod.mk.inj (Except.ok.inj h)
        exact ⟨by simp, slots, hslots, hbs'⟩
      · rintro ⟨-, slots, hslots, hfinish⟩
        refine ⟨(none, slots), ⟨none, rfl, slots, hslots, rfl⟩, ?_⟩
        simp only [Fields.finish, Option.none_or, habsent, hfinish]
        rfl
    | false =>
      simp only [Bool.false_eq_true, if_false, bind_eq_ok_iff, map_eq_ok_iff, forall_const]
      constructor
      · rintro ⟨_, ⟨_, ⟨b', hb', rfl⟩, slots, hslots, h⟩, hfinish⟩
        obtain rfl := Except.ok.inj h
        simp only [Fields.finish, Option.some_or, bind_eq_ok_iff] at hfinish
        obtain ⟨bs', hbs', h⟩ := hfinish
        obtain ⟨rfl, rfl⟩ := Prod.mk.inj (Except.ok.inj h)
        exact ⟨hb', slots, hslots, hbs'⟩
      · rintro ⟨hb, slots, hslots, hfinish⟩
        refine ⟨(some b, slots), ⟨some b, ⟨b, hb, rfl⟩, slots, hslots, rfl⟩, ?_⟩
        simp only [Fields.finish, Option.some_or, hfinish]
        rfl

theorem Variants.readMembers_write {α : Type} {tag : String} (room : Nat) :
    (variants : Variants α) → variants.Proper tag → variants.names.Nodup → ∀ a : α,
      (variants.write tag a = [] ∧ ¬ variants.Returns room a) ∨
        ∃ name ms, name ∈ variants.names ∧ variants.write tag a = (some tag, .str name) :: ms ∧
          (∀ m ∈ ms, ∃ k, m.1 = some k ∧ k ≠ tag) ∧
          (variants.readMembers room name ms = .ok a ↔ variants.Returns room a)
  | .nil, _, _, _ => .inl ⟨rfl, id⟩
  | .cons name fields inject project hproject rest, h, hnodup, a => by
    obtain ⟨htag, hinject, hfields, hrest⟩ := h
    obtain ⟨hname, hnames⟩ := List.nodup_cons.mp hnodup
    rw [Variants.write, Variants.Returns]
    cases hparts : project a with
    | some b =>
      obtain ⟨hnotMem, hnodup⟩ := List.nodup_cons.mp htag
      have hread : (Variants.cons name fields inject project hproject rest).readMembers room name
          (fields.write b) = inject <$> (fields.refill .shape room b >>= fields.finish) := by
        rw [Variants.readMembers, if_pos rfl,
          Fields.foldlM_known (fun _ _ _ _ => rfl) (fields.among_write b),
          Fields.fillAll_write hnodup]
        cases fields.refill .shape room b with
        | error e => rfl
        | ok slots => cases h : fields.finish slots <;> simp only [bind, Except.bind, h] <;> rfl
      refine .inr ⟨name, fields.write b, List.mem_cons_self, rfl, fun m hm => ?_, ?_⟩
      · obtain ⟨k, hk, hmk⟩ := fields.among_write b m hm
        exact ⟨k, hmk, fun h => hnotMem (h ▸ hk)⟩
      · dsimp only
        rw [hread, ← fields.refill_finish_iff .shape room hfields, map_eq_ok_iff]
        constructor
        · rintro ⟨b', hb', rfl⟩
          obtain rfl : b' = b := Option.some.inj ((hinject b').symm.trans hparts)
          exact hb'
        · intro h
          exact ⟨b, h, hproject a b hparts⟩
    | none =>
      rcases rest.readMembers_write room hrest hnames a with
        h | ⟨k, ms, hk, hwrite, hms, hread⟩
      · exact .inl h
      · refine .inr ⟨k, ms, List.mem_cons_of_mem _ hk, hwrite, hms, ?_⟩
        have hne : k ≠ name := fun h => hname (h ▸ hk)
        rw [Variants.readMembers, if_neg hne]
        exact hread

end

/-- A value is read back from its text exactly when its leaves are. -/
theorem Schema.decode_encode_iff {α : Type} {s : Schema α} (hs : s.Proper) (a : α) :
    s.decode (s.encode a) = .ok a ↔ s.Returns .text nestingLimit a := by
  rw [s.decode_encode, s.read_write_iff .text nestingLimit hs a]

end Wire
end FleetWatch
