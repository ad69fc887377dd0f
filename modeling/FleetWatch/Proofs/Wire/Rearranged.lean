import FleetWatch.Proofs.Wire.Alike
import FleetWatch.Proofs.Wire.RoundTrip

/-!
# Reading documents alike

A document that can be kept is read as whatever a document like it is read as. Where records are
read as they come and where they are held back first makes no difference, nor does the fault that a
reader has for what is too much.

## Main definitions

* `Schema.settle`: reads the values of a member into its place.
* `Fields.others`: the members that a record does not know.
-/
namespace FleetWatch

open Json

theorem Json.Doc.keepable_array_iff {room : Nat} {ds : List Doc} :
    (Doc.array ds).keepable room = true ↔ 0 < room ∧ itemsKeepable (room - 1) ds = true := by
  simp [keepable]

theorem Json.Doc.keepable_object_iff {room : Nat} {ms : List Member} :
    (Doc.object ms).keepable room = true ↔ 0 < room ∧ membersKeepable (room - 1) ms = true := by
  simp [keepable]

/-! ## Free values -/

namespace Json.Value
variable {value? : String → Option Value} {surplus surplus' : Fault}

mutual

/-- A document has the same value wherever it can be kept. -/
theorem readWith_of_keepable {room room' : Nat} : {d : Doc} → {v : Value} →
    d.keepable room' = true → readWith value? surplus room d = .ok v →
      readWith value? surplus' room' d = .ok v
  | .null, _, _, h | .flag _, _, _, h | .number _, _, _, h | .text _, _, _, h => h
  | .array ds, v, hkeep, h => by
    obtain ⟨hroom, hitems⟩ := Doc.keepable_array_iff.mp hkeep
    rw [readWith] at h
    rw [readWith, if_neg (Nat.ne_of_gt hroom)]
    split at h
    · cases h
    · obtain ⟨vs, hvs, rfl⟩ := map_eq_ok_iff.mp h
      exact map_eq_ok_iff.mpr ⟨vs, readItems_of_keepable hitems hvs, rfl⟩
  | .object ms, v, hkeep, h => by
    obtain ⟨hroom, hmembers⟩ := Doc.keepable_object_iff.mp hkeep
    rw [readWith] at h
    rw [readWith, if_neg (Nat.ne_of_gt hroom)]
    split at h
    · cases h
    · split at h
      · -- nothing may stand beside an embedded text, so it does not matter what would be at fault
        split at h
        · split at h
          · next hothers => exact (if_pos hothers).trans h
          · cases h
        · cases h
      · cases h
      · obtain ⟨vs, hvs, h⟩ := bind_eq_ok_iff.mp h
        exact bind_eq_ok_iff.mpr ⟨vs, readMembers_of_keepable hmembers hvs, h⟩
  | .broken, _, hkeep, _ => by cases hkeep

theorem readItems_of_keepable {room room' : Nat} : {ds : List Doc} → {vs : List Value} →
    Doc.itemsKeepable room' ds = true → readItems value? surplus room ds = .ok vs →
      readItems value? surplus' room' ds = .ok vs
  | [], _, _, h => h
  | d :: ds, vs, hkeep, h => by
    obtain ⟨hd, hds⟩ : d.keepable room' = true ∧ Doc.itemsKeepable room' ds = true := by
      simpa [Doc.itemsKeepable] using hkeep
    obtain ⟨v, hv, h⟩ := bind_eq_ok_iff.mp h
    obtain ⟨ws, hws, h⟩ := bind_eq_ok_iff.mp h
    exact bind_eq_ok_iff.mpr ⟨v, readWith_of_keepable hd hv,
      bind_eq_ok_iff.mpr ⟨ws, readItems_of_keepable hds hws, h⟩⟩

theorem readMembers_of_keepable {room room' : Nat} : {ms : List Member} →
    {vs : List (String × Value)} → Doc.membersKeepable room' ms = true →
      readMembers value? surplus room ms = .ok vs → readMembers value? surplus' room' ms = .ok vs
  | [], _, _, h => h
  | (none, _) :: _, _, _, h => by cases h
  | (some k, d) :: ms, vs, hkeep, h => by
    obtain ⟨hd, hms⟩ : d.keepable room' = true ∧ Doc.membersKeepable room' ms = true := by
      simpa [Doc.membersKeepable] using hkeep
    rw [readMembers] at h ⊢
    obtain ⟨v, hv, h⟩ := bind_eq_ok_iff.mp h
    obtain ⟨ws, hws, h⟩ := bind_eq_ok_iff.mp h
    exact bind_eq_ok_iff.mpr ⟨v, readWith_of_keepable hd hv,
      bind_eq_ok_iff.mpr ⟨ws, readMembers_of_keepable hms hws, h⟩⟩

end

end Json.Value

namespace Wire

/-! ## Kept parts -/

theorem keepable_of_mem_items {room : Nat} {ds : List Doc}
    (h : Doc.itemsKeepable room ds = true) : ∀ d ∈ ds, d.keepable room = true := by
  induction ds with
  | nil => simp
  | cons d ds ih =>
    simp only [Doc.itemsKeepable, Bool.and_eq_true] at h
    exact List.forall_mem_cons.mpr ⟨h.1, ih h.2⟩

/-- Members can be kept when all have a name and a value that can be. -/
theorem membersKeepable_iff {room : Nat} {ms : List Member} :
    Doc.membersKeepable room ms = true ↔
      ∀ m ∈ ms, m.1.isSome = true ∧ m.2.keepable room = true := by
  induction ms with
  | nil => simp [Doc.membersKeepable]
  | cons m ms ih => simp [Doc.membersKeepable, ih, and_assoc]

theorem membersKeepable_filter {room : Nat} {ms : List Member} (p : Member → Bool)
    (h : Doc.membersKeepable room ms = true) : Doc.membersKeepable room (ms.filter p) = true :=
  membersKeepable_iff.mpr fun m hm => membersKeepable_iff.mp h m (List.mem_of_mem_filter hm)

theorem keepable_of_mem_valuesOf {room : Nat} {name : String} {ms : List Member} {d : Doc}
    (h : Doc.membersKeepable room ms = true) (hd : d ∈ valuesOf name ms) :
    d.keepable room = true :=
  (membersKeepable_iff.mp h _ (mem_valuesOf_iff.mp hd)).2

mutual

/-- Nothing in a document that can be kept is broken. -/
theorem intact_of_keepable {room : Nat} : {d : Doc} → d.keepable room = true → d.intact = true
  | .null, _ | .flag _, _ | .number _, _ | .text _, _ => rfl
  | .array ds, h => by
    simp only [Doc.keepable, Bool.and_eq_true] at h
    exact itemsIntact_of_keepable h.2
  | .object ms, h => by
    simp only [Doc.keepable, Bool.and_eq_true] at h
    exact membersIntact_of_keepable h.2
  | .broken, h => by cases h

theorem itemsIntact_of_keepable {room : Nat} : {ds : List Doc} →
    Doc.itemsKeepable room ds = true → Doc.itemsIntact ds = true
  | [], _ => rfl
  | d :: ds, h => by
    simp only [Doc.itemsKeepable, Bool.and_eq_true] at h
    simp [Doc.itemsIntact, intact_of_keepable h.1, itemsIntact_of_keepable h.2]

theorem membersIntact_of_keepable {room : Nat} : {ms : List Member} →
    Doc.membersKeepable room ms = true → Doc.membersIntact ms = true
  | [], _ => rfl
  | (_, d) :: ms, h => by
    simp only [Doc.membersKeepable, Bool.and_eq_true] at h
    simp [Doc.membersIntact, intact_of_keepable h.1.2, membersIntact_of_keepable h.2]

end

/-! ## Members in any order -/

/-- Reads the values of a member into its place, which takes one. -/
def Schema.settle {β : Type} (surplus : Fault) (room : Nat) (shape : Schema β) :
    Option β → List Doc → Except Fault (Option β)
  | slot, [] => .ok slot
  | none, [d] => some <$> shape.read surplus room d
  | _, _ => .error .shape

section Fill
variable {β σ : Type} {surplus : Fault} {room : Nat}

/-- A first value is read into an empty place, and then there is no place for others. -/
theorem Schema.settle_cons_eq_ok_iff {shape : Schema β} {d : Doc} {ds : List Doc}
    {slot slot' : Option β} :
    shape.settle surplus room slot (d :: ds) = .ok slot' ↔
      slot = none ∧ ∃ b, shape.read surplus room d = .ok b ∧
        shape.settle surplus room (some b) ds = .ok slot' := by
  cases slot with
  | some b => simp [settle]
  | none =>
    cases ds with
    | nil => simp [settle, map_eq_ok_iff]
    | cons e es => simp [settle]

/-- The members of one name are read into its place and the others into theirs. -/
theorem Fields.fillAll_cons_eq_ok_iff {γ : Type} {name : String} {shape : Schema γ}
    {presence : Presence γ} {rest : Fields β σ} {ms : List Member} {slot slot' : Option γ}
    {slots slots' : σ} :
    (cons name shape presence rest).fillAll surplus room ms (slot, slots) = .ok (slot', slots') ↔
      shape.settle surplus room slot (valuesOf name ms) = .ok slot' ∧
        rest.fillAll surplus room (besides name ms) slots = .ok slots' := by
  induction ms generalizing slot slots with
  | nil => cases slot <;> simp [fillAll, Schema.settle]
  | cons m ms ih =>
    obtain ⟨k, d⟩ := m
    cases k with
    | none => simp [fillAll]
    | some k =>
      by_cases hk : k = name
      · subst hk
        rw [valuesOf_cons_self, besides_cons_self, Schema.settle_cons_eq_ok_iff, fillAll, fill,
          if_pos rfl]
        cases slot with
        | some c => simp [bind, Except.bind]
        | none =>
          cases hread : shape.read surplus room d with
          | error e => simp [bind, Except.bind]
          | ok c => simpa [bind, Except.bind, pure, Except.pure] using ih
      · have hne : ((some k, d) : Member).1 ≠ some name := by simpa using hk
        rw [valuesOf_cons_of_ne hne, besides_cons_of_ne hne, fillAll, fill, if_neg hk, fillAll]
        cases hfill : rest.fill surplus room k d slots with
        | error e => simp [bind, Except.bind]
        | ok found => cases found <;> simpa [bind, Except.bind, pure, Except.pure] using ih

/-- Members can be passed over when they have names. -/
theorem Fields.fillAll_nil_eq_ok {ms : List Member} (h : Doc.membersKeepable room ms = true) :
    Fields.nil.fillAll surplus room ms () = .ok () := by
  induction ms with
  | nil => rfl
  | cons m ms ih =>
    obtain ⟨k, d⟩ := m
    cases k with
    | none => simp [Doc.membersKeepable] at h
    | some k =>
      rw [Doc.membersKeepable, Bool.and_eq_true] at h
      exact ih h.2

end Fill

/-- The members that a record does not know. -/
def Fields.others {β σ : Type} (fields : Fields β σ) (ms : List Member) : List Member :=
  ms.filter fun m => m.1.all (· ∉ fields.names)

section Readers
variable {β σ : Type} {fields : Fields β σ}

/-- A member of a known name cannot be read or comes into its place. -/
theorem Fields.fill_cases {k : String} (hk : k ∈ fields.names) (surplus : Fault) (room : Nat)
    (d : Doc) (slots : σ) :
    (∃ e, fields.fill surplus room k d slots = .error e) ∨
      ∃ filled, fields.fill surplus room k d slots = .ok (some filled) := by
  have hplace := fields.fill_ne_none surplus room hk d slots
  cases hfill : fields.fill surplus room k d slots with
  | error e => exact .inl ⟨e, rfl⟩
  | ok found =>
    cases found with
    | none => exact absurd hfill hplace
    | some filled => exact .inr ⟨filled, rfl⟩

/-- A reader that puts known members into their places, and keeps others if they pass a check, has
the others in the end, and in the places what `fillAll` has there. -/
theorem Fields.foldlM_eq_ok_iff {τ : Type} (fields : Fields β σ) (surplus : Fault) (room : Nat)
    {f : τ → Member → Except Fault τ} (g : σ → List Member → τ) (check : Doc → Bool)
    (held : List Member) (hunnamed : ∀ c d, f c (none, d) = .error .text)
    (hknown : ∀ slots held k d, k ∈ fields.names → f (g slots held) (some k, d) =
      (fun found => g (found.getD slots) held) <$> fields.fill surplus room k d slots)
    (hother : ∀ slots held k d, k ∉ fields.names → f (g slots held) (some k, d) =
      if check d then .ok (g slots (held ++ [(some k, d)])) else .error .text)
    {ms : List Member} {slots : σ} {c : τ} :
    ms.foldlM f (g slots held) = .ok c ↔
      ∃ slots', fields.fillAll surplus room ms slots = .ok slots' ∧
        (∀ m ∈ fields.others ms, check m.2) ∧ c = g slots' (held ++ fields.others ms) := by
  induction ms generalizing slots held with
  | nil =>
    simp only [List.foldlM_nil, others, fillAll, pure, Except.pure]
    simpa using eq_comm
  | cons m ms ih =>
    obtain ⟨k, d⟩ := m
    rw [List.foldlM_cons]
    cases k with
    | none => simp [hunnamed, fillAll, bind, Except.bind]
    | some k =>
      by_cases hk : k ∈ fields.names
      · have hothers : fields.others ((some k, d) :: ms) = fields.others ms := by
          simp [others, hk]
        rw [hknown slots held k d hk, hothers, fillAll]
        cases fields.fill surplus room k d slots with
        | error e => simp [bind, Except.bind, Functor.map, Except.map]
        | ok found => exact ih held
      · have hothers : fields.others ((some k, d) :: ms) = (some k, d) :: fields.others ms := by
          simp [others, hk]
        rw [hother slots held k d hk, hothers, fillAll, fields.fill_of_notMem hk]
        cases hd : check d with
        | false => simp [bind, Except.bind, hd]
        | true =>
          refine (ih (held ++ [(some k, d)])).trans ?_
          simp [bind, Except.bind, hd]

theorem readText_known_eq_ok_iff {known : List String} {d : Doc} {name : String} :
    readText (fun s => if s ∈ known then some s else none) d = .ok name ↔
      d = .text (some name) ∧ name ∈ known := by
  cases d with
  | text s =>
    cases s with
    | none => simp [readText]
    | some s =>
      by_cases hs : s ∈ known
      · have hname : s = name → name ∈ known := fun e => e ▸ hs
        simpa [readText, hs] using hname
      · have hname : s = name → name ∉ known := fun e => e ▸ hs
        simpa [readText, hs] using hname
  | _ => simp [readText]

/-- A reader that looks for a tag, and keeps other members if they can be kept, has found it in the
end if it was given once. -/
theorem foldlM_tag_eq_ok_iff (tag : String) (known : List String) (room : Nat) {name : String}
    {f : Option String × List Member → Member → Except Fault (Option String × List Member)}
    (hunnamed : ∀ c d, f c (none, d) = .error .text)
    (hfirst : ∀ held d, f (none, held) (some tag, d) =
      (fun name => (some name, held)) <$> readText (fun s => if s ∈ known then some s else none) d)
    (hagain : ∀ found held d, f (some found, held) (some tag, d) = .error .shape)
    (hother : ∀ found held k d, k ≠ tag → f (found, held) (some k, d) =
      if d.keepable room then .ok (found, held ++ [(some k, d)]) else .error .text)
    {ms : List Member} {found : Option String} {held kept : List Member} :
    ms.foldlM f (found, held) = .ok (some name, kept) ↔
      (found = none ∧ valuesOf tag ms = [.text (some name)] ∧ name ∈ known ∨
        found = some name ∧ valuesOf tag ms = []) ∧
      Doc.membersKeepable room (besides tag ms) = true ∧ kept = held ++ besides tag ms := by
  induction ms generalizing found held with
  | nil =>
    simp only [List.foldlM_nil, pure, Except.pure]
    simp [Doc.membersKeepable, eq_comm]
  | cons m ms ih =>
    obtain ⟨k, d⟩ := m
    rw [List.foldlM_cons]
    cases k with
    | none => simp [hunnamed, Doc.membersKeepable, bind, Except.bind]
    | some k =>
      by_cases hk : k = tag
      · subst hk
        rw [valuesOf_cons_self, besides_cons_self]
        cases found with
        | some found => simp [hagain, bind, Except.bind]
        | none =>
          rw [hfirst, bind_eq_ok_iff]
          constructor
          · rintro ⟨c, hc, h⟩
            obtain ⟨name', hread, rfl⟩ := map_eq_ok_iff.mp hc
            obtain ⟨rfl, hknown⟩ := readText_known_eq_ok_iff.mp hread
            obtain ⟨hvalues | ⟨hname, hvalues⟩, hrest⟩ := ih.mp h
            · cases hvalues.1
            · obtain rfl := Option.some.inj hname
              exact ⟨.inl ⟨rfl, by rw [hvalues], hknown⟩, hrest⟩
          · rintro ⟨⟨-, hvalues, hknown⟩ | ⟨hname, -⟩, hrest⟩
            · obtain ⟨rfl, hnoOther⟩ := List.cons.inj hvalues
              exact ⟨(some name, held),
                map_eq_ok_iff.mpr ⟨name, readText_known_eq_ok_iff.mpr ⟨rfl, hknown⟩, rfl⟩,
                ih.mpr ⟨.inr ⟨rfl, hnoOther⟩, hrest⟩⟩
            · cases hname
      · have hne : ((some k, d) : Member).1 ≠ some tag := by simpa using hk
        rw [valuesOf_cons_of_ne hne, besides_cons_of_ne hne, hother found held k d hk]
        cases hd : d.keepable room with
        | false => simp [Doc.membersKeepable, bind, Except.bind, hd]
        | true =>
          refine ih.trans ?_
          simp [Doc.membersKeepable, hd]

/-- The tag is found when it is given once and is a known name. The other members are what is
left. -/
theorem takeTag_eq_ok_iff {tag name : String} {known : List String} {room : Nat}
    {ms held : List Member} :
    takeTag tag known room ms = .ok (some name, held) ↔
      (valuesOf tag ms = [.text (some name)] ∧ name ∈ known) ∧
        Doc.membersKeepable room (besides tag ms) = true ∧ held = besides tag ms := by
  rw [takeTag]
  refine (foldlM_tag_eq_ok_iff tag known room (fun _ _ => rfl) (fun held d => ?_)
    (fun found held d => ?_) fun found held k d hk => ?_).trans (by simp)
  · simp [Functor.map, Except.map, bind, Except.bind, pure, Except.pure]
  · simp
  · simp [hk]

end Readers

/-! ## Objects -/

section Objects
variable {α β γ σ τ : Type} {surplus : Fault} {room : Nat} {ms : List Member}

/-- Members that have been read have names. -/
theorem Fields.named_of_fillAll {fields : Fields β σ} {slots slots' : σ}
    (h : fields.fillAll surplus room ms slots = .ok slots') : ∀ m ∈ ms, m.1.isSome = true := by
  induction ms generalizing slots with
  | nil => simp
  | cons m ms ih =>
    obtain ⟨k, d⟩ := m
    cases k with
    | none => cases h
    | some k =>
      rw [fillAll] at h
      obtain ⟨found, -, h⟩ := bind_eq_ok_iff.mp h
      exact List.forall_mem_cons.mpr ⟨rfl, ih h⟩

/-- Members that have been held back are read as they are. -/
theorem Fields.foldlM_held (fields : Fields β σ) (surplus : Fault) (room : Nat)
    (hnamed : ∀ m ∈ ms, m.1.isSome = true) (slots : σ) :
    (ms.map fun m => (m.1.getD "", m.2)).foldlM (fun slots (k, d) => do
        return (← fields.fill surplus room k d slots).getD slots) slots =
      fields.fillAll surplus room ms slots := by
  induction ms generalizing slots with
  | nil => rfl
  | cons m ms ih =>
    obtain ⟨k, d⟩ := m
    obtain ⟨hk, hms⟩ := List.forall_mem_cons.mp hnamed
    obtain ⟨k, rfl⟩ := Option.isSome_iff_exists.mp hk
    rw [List.map_cons, List.foldlM_cons, fillAll]
    cases hfill : fields.fill surplus room k d slots with
    | error e => simp [hfill, bind, Except.bind]
    | ok found =>
      refine Eq.trans ?_ (ih hms (found.getD slots))
      simp [hfill, bind, Except.bind, pure, Except.pure]

theorem Schema.read_record_eq_ok_iff {fields : Fields β σ} {view : View β α} {a : α} :
    (Schema.record fields view).read surplus room (.object ms) = .ok a ↔
      0 < room ∧ ∃ slots, fields.fillAll surplus (room - 1) ms fields.empty = .ok slots ∧
        (∀ m ∈ fields.others ms, m.2.intact = true) ∧
          ∃ p, fields.finish slots = .ok p ∧ view.make p = a := by
  rw [Schema.read]
  split
  · next hroom => simp [hroom]
  · next hroom =>
    rw [bind_eq_ok_iff, and_iff_right (Nat.pos_of_ne_zero hroom)]
    refine (exists_congr fun c => and_congr_left fun _ => fields.foldlM_eq_ok_iff surplus
      (room - 1) (fun slots _ => slots) Doc.intact [] (fun _ _ => rfl) (fun slots _ k d hk => ?_)
      fun slots _ k d hk => ?_).trans ?_
    · obtain ⟨e, hfill⟩ | ⟨filled, hfill⟩ := fields.fill_cases hk surplus (room - 1) d slots <;>
        simp [hfill, bind, Except.bind, pure, Except.pure]
    · cases hd : d.intact <;>
        simp [fields.fill_of_notMem hk, hd, bind, Except.bind, pure, Except.pure]
    · simp [bind_eq_ok_iff, pure, Except.pure, and_assoc]

/-- The outer members of a split record are read from all of its members and the inner ones from
what the outer record does not know. -/
theorem Schema.read_split_eq_ok_iff {outer : Fields β σ} {inner : Fields γ τ}
    {view : View (β × γ) α} {a : α} :
    (Schema.split outer inner view).read surplus room (.object ms) = .ok a ↔
      0 < room ∧ ∃ slots, outer.fillAll surplus (room - 1) ms outer.empty = .ok slots ∧
        (∀ m ∈ outer.others ms, m.2.keepable (room - 1) = true) ∧
          ∃ p, outer.finish slots = .ok p ∧
            ∃ held, inner.fillAll .shape (room - 1) (outer.others ms) inner.empty = .ok held ∧
              ∃ q, inner.finish held = .ok q ∧ view.make (p, q) = a := by
  rw [Schema.read]
  split
  · next hroom => simp [hroom]
  · next hroom =>
    rw [bind_eq_ok_iff, and_iff_right (Nat.pos_of_ne_zero hroom)]
    refine (exists_congr fun c => and_congr_left fun _ => outer.foldlM_eq_ok_iff surplus (room - 1)
      (fun slots held => (slots, held.map fun m => (m.1.getD "", m.2))) (Doc.keepable (room - 1)) []
      (fun _ _ => rfl) (fun slots _ k d hk => ?_) fun slots _ k d hk => ?_).trans ?_
    · obtain ⟨e, hfill⟩ | ⟨filled, hfill⟩ := outer.fill_cases hk surplus (room - 1) d slots <;>
        simp [hfill, bind, Except.bind, pure, Except.pure]
    · cases hd : d.keepable (room - 1) <;>
        simp [outer.fill_of_notMem hk, hd, bind, Except.bind, pure, Except.pure]
    · have hnamed {slots : σ} (h : outer.fillAll surplus (room - 1) ms outer.empty = .ok slots) :
          ∀ m ∈ outer.others ms, m.1.isSome = true :=
        fun m hm => outer.named_of_fillAll h m (List.mem_of_mem_filter hm)
      have hheld {slots : σ} (h : outer.fillAll surplus (room - 1) ms outer.empty = .ok slots) :=
        inner.foldlM_held .shape (room - 1) (hnamed h) inner.empty
      constructor
      · rintro ⟨_, ⟨slots, hslots, hothers, rfl⟩, h⟩
        obtain ⟨p, hp, h⟩ := bind_eq_ok_iff.mp h
        obtain ⟨held, hread, h⟩ := bind_eq_ok_iff.mp h
        obtain ⟨q, hq, h⟩ := bind_eq_ok_iff.mp h
        rw [List.nil_append, hheld hslots] at hread
        exact ⟨slots, hslots, hothers, p, hp, held, hread, q, hq, Except.ok.inj h⟩
      · rintro ⟨slots, hslots, hothers, p, hp, held, hread, q, hq, rfl⟩
        rw [← hheld hslots] at hread
        exact ⟨_, ⟨slots, hslots, hothers, rfl⟩, bind_eq_ok_iff.mpr ⟨p, hp,
          bind_eq_ok_iff.mpr ⟨held, hread, bind_eq_ok_iff.mpr ⟨q, hq, rfl⟩⟩⟩⟩

/-- A tagged union is read as the variant that its tag names. -/
theorem Schema.read_tagged_eq_ok_iff {tag : String} {variants : Variants α} {a : α} :
    (Schema.tagged tag variants).read surplus room (.object ms) = .ok a ↔
      0 < room ∧ ∃ name, (valuesOf tag ms = [.text (some name)] ∧ name ∈ variants.names) ∧
        Doc.membersKeepable (room - 1) (besides tag ms) = true ∧
          variants.readMembers (room - 1) name (besides tag ms) = .ok a := by
  rw [Schema.read]
  split
  · next hroom => simp [hroom]
  · next hroom =>
    rw [bind_eq_ok_iff, and_iff_right (Nat.pos_of_ne_zero hroom)]
    constructor
    · rintro ⟨⟨found, held⟩, htag, h⟩
      cases found with
      | none => cases h
      | some name =>
        obtain ⟨hname, hkeep, rfl⟩ := takeTag_eq_ok_iff.mp htag
        exact ⟨name, hname, hkeep, h⟩
    · rintro ⟨name, hname, hkeep, h⟩
      exact ⟨(some name, besides tag ms), takeTag_eq_ok_iff.mpr ⟨hname, hkeep, rfl⟩, h⟩

theorem Variants.readMembers_cons_eq_ok_iff {name k : String} {fields : Fields β σ}
    {inject : β → α} {project : α → Option β} {h : ∀ a b, project a = some b → inject b = a}
    {rest : Variants α} {a : α} :
    (Variants.cons name fields inject project h rest).readMembers room k ms = .ok a ↔
      if k = name then ∃ slots, fields.fillAll .shape room ms fields.empty = .ok slots ∧
        ∃ p, fields.finish slots = .ok p ∧ inject p = a
      else rest.readMembers room k ms = .ok a := by
  rw [readMembers]
  split
  · rw [bind_eq_ok_iff]
    refine (exists_congr fun c => and_congr_left fun _ => fields.foldlM_eq_ok_iff .shape room
      (fun slots _ => slots) (fun _ => true) [] (fun _ _ => rfl) (fun _ _ _ _ _ => rfl)
      fun slots _ k d hk => ?_).trans ?_
    · simp [fields.fill_of_notMem hk, bind, Except.bind, pure, Except.pure]
    · simp [bind_eq_ok_iff, pure, Except.pure]
  · rfl

end Objects

/-! ## Arrays -/

section Arrays
variable {α β σ : Type} {surplus : Fault} {room : Nat} {ds : List Doc}

theorem Schema.read_list_eq_ok_iff {s : Schema α} {as : List α} :
    (Schema.list s).read surplus room (.array ds) = .ok as ↔
      0 < room ∧ ds.mapM (fun d => s.read surplus (room - 1) d) = .ok as := by
  rw [Schema.read]
  split
  · next hroom => simp [hroom]
  · next hroom => rw [and_iff_right (Nat.pos_of_ne_zero hroom)]

/-- The items of a record are read as its members in turn, and none may be left. -/
theorem Schema.read_record_items_eq_ok_iff {fields : Fields β σ} {view : View β α} {a : α} :
    (Schema.record fields view).read surplus room (.array ds) = .ok a ↔
      0 < room ∧ ∃ p, fields.readItems surplus (room - 1) ds = .ok (p, []) ∧ view.make p = a := by
  rw [Schema.read]
  split
  · next hroom => simp [hroom]
  · next hroom =>
    rw [bind_eq_ok_iff, and_iff_right (Nat.pos_of_ne_zero hroom)]
    constructor
    · rintro ⟨⟨p, rest⟩, hitems, h⟩
      cases rest with
      | nil => exact ⟨p, hitems, Except.ok.inj h⟩
      | cons _ _ => cases h
    · rintro ⟨p, hitems, rfl⟩
      exact ⟨(p, []), hitems, rfl⟩

/-- The first item of a tagged union names the variant that reads the others. -/
theorem Schema.read_tagged_items_eq_ok_iff {tag : String} {variants : Variants α} {d : Doc}
    {a : α} :
    (Schema.tagged tag variants).read surplus room (.array (d :: ds)) = .ok a ↔
      0 < room ∧ ∃ name, (d = .text (some name) ∧ name ∈ variants.names) ∧
        ds.all (Doc.keepable (room - 1)) = true ∧
          variants.readItems (room - 1) name ds = .ok a := by
  rw [Schema.read]
  split
  · next hroom => simp [hroom]
  · next hroom =>
    rw [bind_eq_ok_iff, and_iff_right (Nat.pos_of_ne_zero hroom)]
    simp only [readText_known_eq_ok_iff]
    refine exists_congr fun name => and_congr_right fun _ => ?_
    split
    · next hall => rw [and_iff_right hall]
    · next hall => simp [hall]

end Arrays

/-! ## Reading what is alike -/

/-- The members that are alike are so among those that are kept by their names. -/
theorem Fields.alike_filter {β σ : Type} (p : Option String → Bool) : (fields : Fields β σ) →
    {ms ns : List Member} → fields.Alike ms ns →
      fields.Alike (ms.filter fun m => p m.1) (ns.filter fun m => p m.1)
  | .nil, _, _, _ => trivial
  | .cons name shape presence rest, ms, ns, h => by
    refine ⟨?_, rest.alike_filter p h.2⟩
    rw [valuesOf_filter, valuesOf_filter]
    split
    · exact h.1
    · exact ⟨[], .refl _, .nil⟩

theorem Schema.settle_of_paired {β : Type} {surplus surplus' : Fault} {room room' : Nat}
    {shape : Schema β} {R : Doc → Doc → Prop} {ds es : List Doc} {slot : Option β}
    (hpaired : Paired R ds es)
    (hread : ∀ {d e b}, R d e → e ∈ es → shape.read surplus room d = .ok b →
      shape.read surplus' room' e = .ok b)
    (h : shape.settle surplus room none ds = .ok slot) :
    shape.settle surplus' room' none es = .ok slot := by
  obtain ⟨fs, hperm, hmatch⟩ := hpaired
  cases ds with
  | nil =>
    obtain rfl := hperm.nil_eq
    cases hmatch
    exact h
  | cons d ds =>
    cases ds with
    | nil =>
      obtain rfl := List.singleton_perm.mp hperm
      obtain _ | ⟨hde, hnil⟩ := hmatch
      cases hnil
      obtain ⟨b, hb, rfl⟩ := map_eq_ok_iff.mp h
      exact map_eq_ok_iff.mpr ⟨b, hread hde (List.mem_singleton_self _) hb, rfl⟩
    | cons _ _ => cases h

theorem mapM_of_forall₂ {α : Type} {R : Doc → Doc → Prop} {f g : Doc → Except Fault α}
    {ds es : List Doc} (hmatch : List.Forall₂ R ds es)
    (hread : ∀ {d e a}, R d e → e ∈ es → f d = .ok a → g e = .ok a) {as : List α}
    (h : ds.mapM f = .ok as) : es.mapM g = .ok as := by
  induction hmatch generalizing as with
  | nil => exact h
  | cons hde _ ih =>
    rw [List.mapM_cons] at h ⊢
    obtain ⟨a, ha, h⟩ := bind_eq_ok_iff.mp h
    obtain ⟨as', has, h⟩ := bind_eq_ok_iff.mp h
    exact bind_eq_ok_iff.mpr ⟨a, hread hde List.mem_cons_self ha, bind_eq_ok_iff.mpr
      ⟨as', ih (fun hR he => hread hR (List.mem_cons_of_mem _ he)) has, h⟩⟩

/-- Only null is like null. -/
theorem Schema.eq_null_iff_of_alike {α : Type} : (s : Schema α) → {d e : Doc} → s.Alike d e →
    (d = .null ↔ e = .null)
  | .scalar _, _, _, h | .choice .., _, _, h | .free, _, _, h => by
    obtain rfl : _ = _ := h
    rfl
  | .option s, _, _, h => s.eq_null_iff_of_alike h
  | .list s, d, e, h => by
    rw [Schema.Alike.eq_def] at h
    cases d <;> cases e <;> simp_all
  | .record .., d, e, h | .split .., d, e, h => by
    rw [Schema.Alike.eq_def] at h
    cases d <;> cases e <;> simp_all
  | .tagged .., d, e, h => by
    rw [Schema.Alike.eq_def] at h
    cases d <;> cases e <;> simp_all

/-- What can be kept of members can be kept of those that a record does not know. -/
theorem Fields.others_keepable {β σ : Type} {fields : Fields β σ} {room : Nat} {ms : List Member}
    (h : Doc.membersKeepable room ms = true) :
    ∀ m ∈ fields.others ms, m.2.keepable room = true :=
  fun m hm => (membersKeepable_iff.mp h m (List.mem_of_mem_filter hm)).2

mutual

/-- A document that can be kept is read as what a document like it is read as. -/
theorem Schema.read_of_alike {α : Type} {surplus surplus' : Fault} {room room' : Nat} :
    (s : Schema α) → {d e : Doc} → {a : α} → s.Alike d e → e.keepable room' = true →
      s.read surplus room d = .ok a → s.read surplus' room' e = .ok a
  | .scalar _, _, _, _, halike, _, h | .choice .., _, _, _, halike, _, h => by
    obtain rfl : _ = _ := halike
    exact h
  | .free, _, _, _, halike, hkeep, h => by
    obtain rfl : _ = _ := halike
    exact Value.readWith_of_keepable hkeep h
  | .option s, d, e, a, halike, hkeep, h => by
    by_cases hnull : d = .null
    · obtain rfl := (s.eq_null_iff_of_alike halike).mp hnull
      subst hnull
      exact h
    · have hnull' : e ≠ .null := fun he => hnull ((s.eq_null_iff_of_alike halike).mpr he)
      rw [read_option s hnull] at h
      rw [read_option s hnull']
      obtain ⟨b, hb, rfl⟩ := map_eq_ok_iff.mp h
      exact map_eq_ok_iff.mpr ⟨b, s.read_of_alike halike hkeep hb, rfl⟩
  | .list s, d, e, as, halike, hkeep, h => by
    cases d with
    | array ds =>
      cases e with
      | array es =>
        obtain ⟨hroom, hitems⟩ := Doc.keepable_array_iff.mp hkeep
        obtain ⟨-, h⟩ := Schema.read_list_eq_ok_iff.mp h
        exact Schema.read_list_eq_ok_iff.mpr ⟨hroom, mapM_of_forall₂ halike (fun hde he hread =>
          s.read_of_alike hde (keepable_of_mem_items hitems _ he) hread) h⟩
      | _ => cases halike
    | _ => simp [Schema.read] at h
  | .record fields view, d, e, a, halike, hkeep, h => by
    cases d with
    | object ms =>
      cases e with
      | object ns =>
        obtain ⟨hroom, hmembers⟩ := Doc.keepable_object_iff.mp hkeep
        obtain ⟨-, slots, hslots, -, h⟩ := Schema.read_record_eq_ok_iff.mp h
        exact Schema.read_record_eq_ok_iff.mpr ⟨hroom, slots,
          fields.fillAll_of_alike halike hmembers hslots,
          fun m hm => intact_of_keepable (Fields.others_keepable hmembers m hm), h⟩
      | _ => cases halike
    | array ds =>
      cases e with
      | array es =>
        obtain ⟨hroom, hitems⟩ := Doc.keepable_array_iff.mp hkeep
        obtain ⟨-, parts, hparts, h⟩ := Schema.read_record_items_eq_ok_iff.mp h
        exact Schema.read_record_items_eq_ok_iff.mpr
          ⟨hroom, parts, fields.readItems_of_alike halike hitems hparts, h⟩
      | _ => cases halike
    | _ => simp [Schema.read] at h
  | .split outer inner view, d, e, a, halike, hkeep, h => by
    cases d with
    | object ms =>
      cases e with
      | object ns =>
        obtain ⟨hroom, hmembers⟩ := Doc.keepable_object_iff.mp hkeep
        obtain ⟨houter, hinner⟩ := halike
        obtain ⟨-, slots, hslots, -, p, hp, held, hheld, h⟩ := Schema.read_split_eq_ok_iff.mp h
        exact Schema.read_split_eq_ok_iff.mpr ⟨hroom, slots,
          outer.fillAll_of_alike houter hmembers hslots, Fields.others_keepable hmembers, p, hp,
          held, inner.fillAll_of_alike (inner.alike_filter _ hinner)
            (membersKeepable_filter _ hmembers) hheld, h⟩
      | _ => cases halike
    | _ => simp [Schema.read] at h
  | .tagged tag variants, d, e, a, halike, hkeep, h => by
    cases d with
    | object ms =>
      cases e with
      | object ns =>
        obtain ⟨hroom, hmembers⟩ := Doc.keepable_object_iff.mp hkeep
        obtain ⟨htag, hvariant⟩ := halike
        obtain ⟨-, name, ⟨hname, hknown⟩, -, h⟩ := Schema.read_tagged_eq_ok_iff.mp h
        rw [hname] at htag hvariant
        have hothers := membersKeepable_filter (fun m => m.1 ≠ some tag) hmembers
        exact Schema.read_tagged_eq_ok_iff.mpr ⟨hroom, name,
          ⟨List.singleton_perm.mp htag |>.symm, hknown⟩, hothers,
          variants.readMembers_of_alike (hvariant name (List.mem_singleton_self _)) hothers h⟩
      | _ => cases halike
    | array ds =>
      cases ds with
      | nil =>
        rw [Schema.read] at h
        split at h <;> cases h
      | cons d ds =>
        cases e with
        | array es =>
          cases es with
          | nil => cases halike
          | cons e es =>
            obtain ⟨rfl, hmatch⟩ := halike
            obtain ⟨hroom, -, hitems⟩ : 0 < room' ∧ d.keepable (room' - 1) = true ∧
                Doc.itemsKeepable (room' - 1) es = true := by
              simpa [Doc.keepable, Doc.itemsKeepable] using hkeep
            obtain ⟨-, name, ⟨hname, hknown⟩, -, h⟩ := Schema.read_tagged_items_eq_ok_iff.mp h
            exact Schema.read_tagged_items_eq_ok_iff.mpr ⟨hroom, name, ⟨hname, hknown⟩,
              List.all_eq_true.mpr (keepable_of_mem_items hitems),
              variants.readItems_of_alike (hmatch name hname) hitems h⟩
        | _ => cases halike
    | _ => simp [Schema.read] at h

theorem Fields.fillAll_of_alike {β σ : Type} {surplus surplus' : Fault} {room room' : Nat} :
    (fields : Fields β σ) → {ms ns : List Member} → {slots : σ} → fields.Alike ms ns →
      Doc.membersKeepable room' ns = true →
      fields.fillAll surplus room ms fields.empty = .ok slots →
        fields.fillAll surplus' room' ns fields.empty = .ok slots
  | .nil, _, _, _, _, hkeep, _ => Fields.fillAll_nil_eq_ok hkeep
  | .cons name shape presence rest, ms, ns, (slot, slots), halike, hkeep, h => by
    obtain ⟨hfirst, hrest⟩ := Fields.fillAll_cons_eq_ok_iff.mp h
    refine Fields.fillAll_cons_eq_ok_iff.mpr ⟨?_, ?_⟩
    · exact Schema.settle_of_paired halike.1 (fun hde he hread =>
        shape.read_of_alike hde (keepable_of_mem_valuesOf hkeep he) hread) hfirst
    · exact rest.fillAll_of_alike (rest.alike_filter (· ≠ some name) halike.2)
        (membersKeepable_filter _ hkeep) hrest

theorem Fields.readItems_of_alike {β σ : Type} {surplus surplus' : Fault} {room room' : Nat} :
    (fields : Fields β σ) → {ds es : List Doc} → {p : β × List Doc} → fields.ItemsAlike ds es →
      Doc.itemsKeepable room' es = true → fields.readItems surplus room ds = .ok p →
        fields.readItems surplus' room' es = .ok p
  | .nil, _, _, _, halike, _, h => by
    obtain rfl : _ = _ := halike
    exact h
  | .cons name shape presence rest, d :: ds, e :: es, p, halike, hkeep, h => by
    obtain ⟨he, hes⟩ : e.keepable room' = true ∧ Doc.itemsKeepable room' es = true := by
      simpa [Doc.itemsKeepable] using hkeep
    rw [Fields.readItems] at h ⊢
    obtain ⟨b, hb, h⟩ := bind_eq_ok_iff.mp h
    obtain ⟨_, hpair, h⟩ := bind_eq_ok_iff.mp h
    obtain rfl := Except.ok.inj hpair
    obtain ⟨parts, hparts, h⟩ := bind_eq_ok_iff.mp h
    exact bind_eq_ok_iff.mpr ⟨b, shape.read_of_alike halike.1 he hb, bind_eq_ok_iff.mpr
      ⟨(b, es), rfl, bind_eq_ok_iff.mpr
        ⟨parts, rest.readItems_of_alike halike.2 hes hparts, h⟩⟩⟩
  | .cons name shape presence rest, [], [], p, _, hkeep, h => by
    rw [Fields.readItems] at h ⊢
    split at h
    · next b habsent =>
      obtain ⟨_, hpair, h⟩ := bind_eq_ok_iff.mp h
      obtain rfl := Except.ok.inj hpair
      obtain ⟨parts, hparts, h⟩ := bind_eq_ok_iff.mp h
      exact bind_eq_ok_iff.mpr ⟨(b, []), rfl, bind_eq_ok_iff.mpr
        ⟨parts, rest.readItems_of_alike (rest.itemsAlike_refl []) hkeep hparts, h⟩⟩
    · cases h

theorem Variants.readMembers_of_alike {α : Type} {room room' : Nat} : (variants : Variants α) →
    {name : String} → {ms ns : List Member} → {a : α} → variants.Alike name ms ns →
      Doc.membersKeepable room' ns = true → variants.readMembers room name ms = .ok a →
        variants.readMembers room' name ns = .ok a
  | .nil, _, _, _, _, _, _, h => by cases h
  | .cons name fields inject project hproject rest, k, ms, ns, a, halike, hkeep, h => by
    rw [Variants.readMembers_cons_eq_ok_iff] at h ⊢
    rw [Variants.Alike] at halike
    split at h
    · next hname =>
      rw [if_pos hname] at halike ⊢
      obtain ⟨slots, hslots, h⟩ := h
      exact ⟨slots, fields.fillAll_of_alike halike hkeep hslots, h⟩
    · next hname =>
      rw [if_neg hname] at halike ⊢
      exact rest.readMembers_of_alike halike hkeep h

theorem Variants.readItems_of_alike {α : Type} {room room' : Nat} : (variants : Variants α) →
    {name : String} → {ds es : List Doc} → {a : α} → variants.ItemsAlike name ds es →
      Doc.itemsKeepable room' es = true → variants.readItems room name ds = .ok a →
        variants.readItems room' name es = .ok a
  | .nil, _, _, _, _, _, _, h => by cases h
  | .cons name fields inject project hproject rest, k, ds, es, a, halike, hkeep, h => by
    rw [Variants.readItems] at h ⊢
    rw [Variants.ItemsAlike] at halike
    split at h
    · next hname =>
      rw [if_pos hname] at halike ⊢
      obtain ⟨⟨parts, left⟩, hparts, h⟩ := bind_eq_ok_iff.mp h
      exact bind_eq_ok_iff.mpr ⟨(parts, left), fields.readItems_of_alike halike hkeep hparts, h⟩
    · next hname =>
      rw [if_neg hname] at halike ⊢
      exact rest.readItems_of_alike halike hkeep h

end

end Wire

/-! ## Texts -/

/-- The text is that of a document that can be kept: it nests within the limit, its numbers are
within the range of floats, and all of its strings have values. -/
structure Json.WithinLimits (text : String) : Prop where
  whole : (Doc.parse text).2 = false
  keepable : (Doc.parse text).1.keepable nestingLimit = true

theorem Json.withinLimits_print {d : Doc} (hspelled : d.Spelled)
    (hkeep : d.keepable nestingLimit = true) : WithinLimits d.print := by
  constructor <;> simp [Doc.parse_print hspelled, hkeep]

namespace Wire

theorem Schema.decode_eq_ok_iff {α : Type} {s : Schema α} {text : String} {a : α}
    (h : (Doc.parse text).2 = false) :
    s.decode text = .ok a ↔ s.read .text nestingLimit (Doc.parse text).1 = .ok a := by
  rw [decode]
  simp [h, bind_eq_ok_iff, pure, Except.pure]

/-- A text within the limits is read as what a text like it is read as. -/
theorem Schema.decode_of_alike {α : Type} {s : Schema α} {text text' : String} {a : α}
    (hlimits : WithinLimits text) (hlimits' : WithinLimits text')
    (halike : s.Alike (Doc.parse text).1 (Doc.parse text').1) (h : s.decode text = .ok a) :
    s.decode text' = .ok a := by
  rw [decode_eq_ok_iff hlimits.whole] at h
  rw [decode_eq_ok_iff hlimits'.whole]
  exact s.read_of_alike halike hlimits'.keepable h

end Wire
end FleetWatch
