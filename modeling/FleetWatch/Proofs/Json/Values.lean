import FleetWatch.Proofs.Binary.Exact
import FleetWatch.Proofs.Wire.Scalars

/-!
# Free values read back

Which free values are read back from what they are written as: those that a text can hold at all,
with numbers that survive, not nested too deep, and without an object that starts with the embedding
name. What such an object is read as is never the object itself.

## Main definitions

* `Json.Doc.depth`: how deep the containers of a document nest.
* `Json.Value.Everywhere`: a property of a value and all values in it.
* `Json.Value.Canonical`, `Json.Value.Survives`, `Json.Value.IsPlain`: the conditions on values.
-/
namespace FleetWatch

open Wire

namespace Json

/-! ## Depth -/

namespace Doc

mutual

/-- How deep containers nest, the outermost included. -/
def depth : Doc → Nat
  | .array ds => itemsDepth ds + 1
  | .object ms => membersDepth ms + 1
  | _ => 0

def itemsDepth : List Doc → Nat
  | [] => 0
  | d :: ds => max d.depth (itemsDepth ds)

def membersDepth : List Member → Nat
  | [] => 0
  | (_, d) :: ms => max d.depth (membersDepth ms)

end

@[simp] theorem depth_float {f : Binary.Format} (x : Binary f) : (Doc.float x).depth = 0 := by
  unfold Doc.float
  split <;> rfl

mutual

/-- What can be held back nests no deeper than there is room. -/
theorem depth_le_of_keepable {room : Nat} : {d : Doc} → d.keepable room = true → d.depth ≤ room
  | .array ds, h => by
    simp only [keepable, Bool.and_eq_true, decide_eq_true_eq] at h
    have hitems := itemsDepth_le_of_keepable h.2
    simp only [depth]
    omega
  | .object ms, h => by
    simp only [keepable, Bool.and_eq_true, decide_eq_true_eq] at h
    have hmembers := membersDepth_le_of_keepable h.2
    simp only [depth]
    omega
  | .null, _ | .flag _, _ | .number _, _ | .text _, _ | .broken, _ => Nat.zero_le room

theorem itemsDepth_le_of_keepable {room : Nat} :
    {ds : List Doc} → itemsKeepable room ds = true → itemsDepth ds ≤ room
  | [], _ => Nat.zero_le room
  | d :: ds, h => by
    simp only [itemsKeepable, Bool.and_eq_true] at h
    exact Nat.max_le.mpr ⟨depth_le_of_keepable h.1, itemsDepth_le_of_keepable h.2⟩

theorem membersDepth_le_of_keepable {room : Nat} :
    {ms : List Member} → membersKeepable room ms = true → membersDepth ms ≤ room
  | [], _ => Nat.zero_le room
  | (k, d) :: ms, h => by
    simp only [membersKeepable, Bool.and_eq_true] at h
    exact Nat.max_le.mpr ⟨depth_le_of_keepable h.1.2, membersDepth_le_of_keepable h.2⟩

end

end Doc

/-! ## Numbers -/

theorem fst_absorb_le {n : Nat} (h : n ≤ significandLimit) (ds : List Digit) :
    (absorb n ds).1 ≤ significandLimit := by
  induction ds generalizing n with
  | nil => exact h
  | cons d ds ih =>
    rw [absorb]
    split
    · exact h
    · next hfits => exact ih (Nat.not_lt.mp hfits)

/-- Only integers of 64 bits are read, signed or not. -/
theorem Literal.within_of_read? {l : Literal} {i : Int} (h : l.read? = some (.integer i)) :
    -(UInt64.size / 2 : Nat) ≤ i ∧ i < UInt64.size := by
  have hsize : UInt64.size = 18446744073709551616 := rfl
  have hlimit := fst_absorb_le (Nat.zero_le significandLimit) l.whole
  simp only [significandLimit] at hlimit
  unfold read? at h
  dsimp only at h
  split at h
  · have hwhole := Option.some.inj h
    unfold readWhole at hwhole
    split at hwhole
    · obtain rfl := Number.integer.inj hwhole
      omega
    · split at hwhole
      · obtain rfl := Number.integer.inj hwhole
        omega
      · cases hwhole
  · obtain ⟨x, -, hx⟩ := Option.map_eq_some_iff.mp h
    cases hx

/-- A literal with a point or an exponent is read as a float. -/
theorem Literal.exists_real_of_read? {l : Literal} (hl : l.isWhole = false) {n : Number}
    (h : l.read? = some n) : ∃ x, n = .real x := by
  unfold read? at h
  simp only [hl, Bool.false_and, Bool.false_eq_true, if_false] at h
  obtain ⟨x, -, rfl⟩ := Option.map_eq_some_iff.mp h
  exact ⟨_, rfl⟩

/-- Decimals are written with a point or an exponent. -/
theorem Literal.isWhole_ofDecimal (layout : Layout) (negative : Bool) (d : Decimal) :
    (ofDecimal layout negative d).isWhole = false := by
  unfold ofDecimal
  dsimp only
  split
  · simp [isWhole]
  · split
    · simp [isWhole, digitsOf_ne_nil]
    · split
      · rfl
      · next hfraction => simp only [isWhole, hfraction, Bool.false_and]

theorem Literal.isWhole_of_ofFloat? {f : Binary.Format} {x : Binary f} {l : Literal}
    (h : ofFloat? x = some l) : l.isWhole = false := by
  cases x with
  | finite negative units hunits =>
    simp only [ofFloat?] at h
    split at h
    · exact Option.some.inj h ▸ rfl
    · exact Option.some.inj h ▸ isWhole_ofDecimal ..
  | _ => cases h

/-- A float that survives is read back as a number, too. -/
theorem read?_of_float_iff (x : Double) :
    (Literal.ofFloat? x).bind Literal.read? = some (.real x) ↔ x.Survives := by
  have hsame (y : Double) : (y.convert : Double) = y := by
    cases y with
    | finite negative units hunits =>
      have hwithin : Binary.Format.double.Within .double := ⟨by decide, by decide, by decide⟩
      simp [Binary.convert_finite hwithin (by decide)]
    | _ => rfl
  unfold Binary.Survives
  cases hl : Literal.ofFloat? x with
  | none => simp
  | some l =>
    cases hread : l.read? with
    | none => simp [hread]
    | some n =>
      obtain ⟨y, rfl⟩ := Literal.exists_real_of_read? (Literal.isWhole_of_ofFloat? hl) hread
      simp [hread, floatOf, hsame]

namespace Value

/-! ## Properties of values -/

mutual

/-- A value and all values in it have a property. -/
def Everywhere (p : Value → Prop) : Value → Prop
  | .array vs => p (.array vs) ∧ ItemsEverywhere p vs
  | .object ms => p (.object ms) ∧ MembersEverywhere p ms
  | v => p v

def ItemsEverywhere (p : Value → Prop) : List Value → Prop
  | [] => True
  | v :: vs => v.Everywhere p ∧ ItemsEverywhere p vs

def MembersEverywhere (p : Value → Prop) : List (String × Value) → Prop
  | [] => True
  | (_, v) :: ms => v.Everywhere p ∧ MembersEverywhere p ms

end

section And
variable {p q : Value → Prop}

mutual

theorem everywhere_and : (v : Value) →
    (v.Everywhere (fun w => p w ∧ q w) ↔ v.Everywhere p ∧ v.Everywhere q)
  | .array vs => by
    simp only [Everywhere, itemsEverywhere_and vs]
    grind
  | .object ms => by
    simp only [Everywhere, membersEverywhere_and ms]
    grind
  | .null | .flag _ | .number _ | .text _ => Iff.rfl

theorem itemsEverywhere_and : (vs : List Value) →
    (ItemsEverywhere (fun w => p w ∧ q w) vs ↔ ItemsEverywhere p vs ∧ ItemsEverywhere q vs)
  | [] => by simp [ItemsEverywhere]
  | v :: vs => by
    simp only [ItemsEverywhere, everywhere_and v, itemsEverywhere_and vs]
    grind

theorem membersEverywhere_and : (ms : List (String × Value)) →
    (MembersEverywhere (fun w => p w ∧ q w) ms ↔ MembersEverywhere p ms ∧ MembersEverywhere q ms)
  | [] => by simp [MembersEverywhere]
  | (_, v) :: ms => by
    simp only [MembersEverywhere, everywhere_and v, membersEverywhere_and ms]
    grind

end

end And

/-- Members in the order of their names, each name once. -/
def Ascending (ms : List (String × Value)) : Prop :=
  ms.Pairwise fun a b => compare a.1 b.1 = .lt

/-- Integers have 64 bits, and the members of objects are in order. -/
def IsHeld : Value → Prop
  | .number (.integer i) => -(UInt64.size / 2 : Nat) ≤ i ∧ i < UInt64.size
  | .object ms => Ascending ms
  | _ => True

/-- A float is read back from what it is written as. -/
def IsAccurate : Value → Prop
  | .number (.real x) => x.Survives
  | _ => True

/-- An object does not start with the embedding name. -/
def StartsPlain : Value → Prop
  | .object ((k, _) :: _) => k ≠ embeddingName
  | _ => True

/-- The value is one that a text can hold. -/
def Canonical (v : Value) : Prop := v.Everywhere IsHeld

/-- All floats in the value are read back. -/
def Survives (v : Value) : Prop := v.Everywhere IsAccurate

/-- No object in the value starts with the embedding name. -/
def IsPlain (v : Value) : Prop := v.Everywhere StartsPlain

/-- The three together, of a value without what is in it. -/
def Fits (v : Value) : Prop := v.IsHeld ∧ v.IsAccurate ∧ v.StartsPlain

theorem everywhere_fits_iff (v : Value) :
    v.Everywhere Fits ↔ v.Canonical ∧ v.Survives ∧ v.IsPlain :=
  (everywhere_and v).trans (and_congr_right fun _ => everywhere_and v)

/-! ## Names in order -/

/-- Members in order are left as they are. -/
theorem normalize_of_ascending {ms : List (String × Value)} (h : Ascending ms) :
    normalize ms = ms := by
  have hdistinct : ms.Pairwise fun a b => ¬ compare a.1 b.1 = .eq :=
    h.imp fun hlt heq => by rw [hlt] at heq; cases heq
  have hfound (k : String) (v : Value) :
      (Std.TreeMap.ofList ms compare)[k]? = some v ↔ (k, v) ∈ ms := by
    constructor
    · intro hv
      have hmem : k ∈ Std.TreeMap.ofList ms compare := by
        rw [Std.TreeMap.mem_iff_isSome_getElem?, hv]
        rfl
      rw [Std.TreeMap.mem_ofList, List.contains_iff_mem] at hmem
      obtain ⟨⟨_, w⟩, hw, rfl⟩ := List.mem_map.mp hmem
      rw [Std.TreeMap.getElem?_ofList_of_mem Std.ReflCmp.compare_self hdistinct hw] at hv
      exact Option.some.inj hv ▸ hw
    · exact Std.TreeMap.getElem?_ofList_of_mem Std.ReflCmp.compare_self hdistinct
  have hnodup {l : List (String × Value)} (hl : Ascending l) : l.Nodup :=
    hl.imp fun hlt heq => by simp [heq] at hlt
  have hsorted : Ascending (normalize ms) := Std.TreeMap.ordered_keys_toList
  have hperm : (normalize ms).Perm ms := by
    refine (List.perm_ext_iff_of_nodup (hnodup hsorted) (hnodup h)).mpr fun ⟨k, v⟩ => ?_
    exact Std.TreeMap.mem_toList_iff_getElem?_eq_some.trans (hfound k v)
  refine hperm.eq_of_pairwise (fun a b _ _ hab hba => ?_) hsorted h
  rw [Std.OrientedCmp.gt_of_lt hab] at hba
  cases hba

/-- Every name is still there in order. -/
theorem mem_normalize {ms : List (String × Value)} {k : String} (h : k ∈ ms.map Prod.fst) :
    k ∈ (normalize ms).map Prod.fst := by
  rw [normalize, Std.TreeMap.map_fst_toList_eq_keys, Std.TreeMap.mem_keys, Std.TreeMap.mem_ofList]
  simpa using h

section Reading
variable {value? : String → Option Value} {surplus : Fault}

/-- Reading members keeps their names. -/
theorem names_of_readMembers {room : Nat} {ms : List Member} {vs : List (String × Value)}
    (h : readMembers value? surplus room ms = .ok vs) :
    ms.map Prod.fst = (vs.map Prod.fst).map some := by
  induction ms generalizing vs with
  | nil =>
    obtain rfl := Except.ok.inj h
    rfl
  | cons m ms ih =>
    obtain ⟨k, d⟩ := m
    cases k with
    | none => cases h
    | some k =>
      rw [readMembers] at h
      obtain ⟨v, -, h⟩ := bind_eq_ok_iff.mp h
      obtain ⟨ws, hws, h⟩ := bind_eq_ok_iff.mp h
      obtain rfl := Except.ok.inj h
      simp [ih hws]

theorem names_membersToDoc (ms : List (String × Value)) :
    (membersToDoc ms).map Prod.fst = (ms.map Prod.fst).map some := by
  induction ms with
  | nil => rfl
  | cons m ms ih => simp [membersToDoc, ih]

theorem ascending_of_names {ms ns : List (String × Value)}
    (h : ms.map Prod.fst = ns.map Prod.fst) (hms : Ascending ms) : Ascending ns := by
  have hsorted : (ms.map Prod.fst).Pairwise fun a b => compare a b = .lt :=
    List.pairwise_map.mpr hms
  rw [h] at hsorted
  exact List.pairwise_map.mp hsorted

/-! ## Embedded texts -/

/-- The value is an object of nothing but the embedding name. -/
def IsEmbedding (v : Value) : Prop := ∃ w, v = .object [(embeddingName, w)]

/-- Nothing is read as an object of nothing but the embedding name, if no embedded text is. -/
theorem not_isEmbedding_of_readWith (hvalue : ∀ s w, value? s = some w → ¬ w.IsEmbedding)
    {room : Nat} {d : Doc} {v : Value} (h : readWith value? surplus room d = .ok v) :
    ¬ v.IsEmbedding := by
  rintro ⟨w, rfl⟩
  cases d with
  | object ms =>
    rw [readWith] at h
    split at h
    · cases h
    · split at h
      · next s others _ =>
        split at h
        · next u hu =>
          split at h
          · obtain rfl := Except.ok.inj h
            exact hvalue s _ hu ⟨w, rfl⟩
          · cases h
        · cases h
      · cases h
      · next hembedding =>
        -- the members were read one by one, so the first of them has another name
        obtain ⟨vs, hvs, h⟩ := bind_eq_ok_iff.mp h
        have hnormal : normalize vs = [(embeddingName, w)] :=
          Value.object.inj (Except.ok.inj h)
        have hnames := names_of_readMembers hvs
        cases vs with
        | nil =>
          change [] = _ at hnormal
          cases hnormal
        | cons u us =>
          have hmem : u.1 ∈ (normalize (u :: us)).map Prod.fst := mem_normalize (by simp)
          rw [hnormal, List.map_singleton, List.mem_singleton] at hmem
          cases ms with
          | nil => simp at hnames
          | cons m ms =>
            obtain ⟨k, d⟩ := m
            simp only [List.map_cons, List.cons.injEq] at hnames
            simp [embedding?, hnames.1, hmem] at hembedding
  | array ds =>
    rw [readWith] at h
    split at h
    · cases h
    · obtain ⟨vs, -, h⟩ := map_eq_ok_iff.mp h
      cases h
  | number l =>
    rw [readWith] at h
    split at h <;> cases h
  | text s => cases s <;> simp [readWith] at h
  | null | flag _ | broken => cases h

theorem not_isEmbedding_of_parseWithin? {depth : Nat} {s : String} {v : Value}
    (h : parseWithin? depth s = some v) : ¬ v.IsEmbedding := by
  induction depth generalizing s v with
  | zero => cases h
  | succ depth ih =>
    simp only [parseWithin?] at h
    split at h
    · cases h
    · cases hread : readWith (parseWithin? depth) .text nestingLimit (Doc.parse s).1 with
      | error e => simp [hread, Except.toOption] at h
      | ok w =>
        obtain rfl : w = v := by simpa [hread, Except.toOption] using h
        exact not_isEmbedding_of_readWith (fun _ _ => ih) hread

/-! ## Reading back -/

theorem readWith_number_iff (room : Nat) (n : Number) :
    readWith value? surplus room (Value.number n).toDoc = .ok (.number n) ↔
      (Value.number n).IsHeld ∧ (Value.number n).IsAccurate := by
  cases n with
  | integer i =>
    simp only [toDoc, Doc.int, readWith, IsHeld, IsAccurate, and_true]
    constructor
    · intro h
      cases hread : (Literal.ofInt i).read? with
      | none => simp [hread] at h
      | some n =>
        obtain rfl : n = .integer i := by simpa [hread] using h
        exact Literal.within_of_read? hread
    · rintro ⟨hlow, hhigh⟩
      rw [Literal.read?_ofInt hlow hhigh]
  | real x =>
    simp only [toDoc, Doc.float, IsHeld, IsAccurate, true_and, ← read?_of_float_iff]
    cases hl : Literal.ofFloat? x with
    | none => simp [readWith]
    | some l => cases hread : l.read? <;> simp [readWith, hread]

/-- No text is embedded in what is written of an object that starts plainly. -/
theorem embedding?_membersToDoc_of_startsPlain {ms : List (String × Value)}
    (h : (Value.object ms).StartsPlain) : embedding? (membersToDoc ms) = none := by
  cases ms with
  | nil => rfl
  | cons m ms => exact if_neg h

/-- What stands for an embedded text is not the object that it is embedded in. -/
theorem not_ok_of_embedding (hvalue : ∀ s w, value? s = some w → ¬ w.IsEmbedding)
    {ms : List (String × Value)} (h : ¬ (Value.object ms).StartsPlain) {room : Nat} :
    readWith value? surplus room (Value.object ms).toDoc ≠ .ok (.object ms) := by
  intro hread
  cases ms with
  | nil => exact h trivial
  | cons m ms =>
    obtain ⟨k, w⟩ := m
    obtain rfl : k = embeddingName := Decidable.not_not.mp h
    rw [toDoc, readWith, membersToDoc, embedding?, if_pos rfl] at hread
    split at hread
    · cases hread
    · split at hread
      · next s others hembedding =>
        obtain ⟨-, rfl⟩ := Prod.mk.inj (Option.some.inj hembedding)
        split at hread
        · next v hv =>
          split at hread
          · next hothers =>
            obtain rfl := Except.ok.inj hread
            -- nothing stands beside the text, so the value would be nothing but its embedding
            cases ms with
            | nil => exact hvalue s _ hv ⟨w, rfl⟩
            | cons => cases hothers
          · cases hread
        · cases hread
      · cases hread
      · next hembedding => cases hembedding

mutual

/-- A value is read back exactly when all values in it fit and there is room for its containers. -/
theorem readWith_toDoc_iff (hvalue : ∀ s w, value? s = some w → ¬ w.IsEmbedding) (room : Nat) :
    (v : Value) → (readWith value? surplus room v.toDoc = .ok v ↔
      v.Everywhere Fits ∧ v.toDoc.depth ≤ room)
  | .null | .flag _ | .text _ => by
    simp [toDoc, Doc.str, readWith, Everywhere, Fits, IsHeld, IsAccurate, StartsPlain, Doc.depth]
  | .number n => by
    have hdepth : (Value.number n).toDoc.depth = 0 := by
      cases n with
      | integer i => rfl
      | real x => exact Doc.depth_float x
    simp [readWith_number_iff, Everywhere, Fits, StartsPlain, hdepth]
  | .array vs => by
    rw [toDoc, readWith]
    simp only [Everywhere, Fits, IsHeld, IsAccurate, StartsPlain, true_and, Doc.depth]
    split
    · next hroom => simp [hroom]
    · next hroom =>
      rw [map_eq_ok_iff]
      simp only [Value.array.injEq, exists_eq_right]
      rw [readItems_itemsToDoc_iff hvalue (room - 1) vs]
      refine and_congr_right fun _ => ?_
      omega
  | .object ms => by
    simp only [Everywhere, Fits, IsHeld, IsAccurate, true_and]
    by_cases hplain : (Value.object ms).StartsPlain
    · rw [toDoc, readWith, embedding?_membersToDoc_of_startsPlain hplain]
      simp only [hplain, and_true, Doc.depth]
      split
      · next hroom => simp [hroom]
      · next hroom =>
        have hmembers := readMembers_membersToDoc_iff hvalue (room - 1) ms
        rw [bind_eq_ok_iff]
        constructor
        · rintro ⟨vs, hvs, h⟩
          obtain rfl : normalize vs = ms := Value.object.inj (Except.ok.inj h)
          have hnames := names_of_readMembers hvs
          rw [names_membersToDoc, List.map_inj_right fun _ _ => Option.some.inj] at hnames
          have hsorted : Ascending (normalize vs) := Std.TreeMap.ordered_keys_toList
          have hsame := normalize_of_ascending (ascending_of_names hnames hsorted)
          rw [hsame] at hsorted hmembers hvs ⊢
          obtain ⟨heverywhere, hdepth⟩ := hmembers.mp hvs
          exact ⟨⟨hsorted, heverywhere⟩, by omega⟩
        · rintro ⟨⟨hsorted, heverywhere⟩, hdepth⟩
          exact ⟨ms, hmembers.mpr ⟨heverywhere, by omega⟩,
            by rw [normalize_of_ascending hsorted]; rfl⟩
    · simp only [hplain, and_false, false_and, iff_false]
      exact not_ok_of_embedding hvalue hplain

theorem readItems_itemsToDoc_iff (hvalue : ∀ s w, value? s = some w → ¬ w.IsEmbedding)
    (room : Nat) : (vs : List Value) → (readItems value? surplus room (itemsToDoc vs) = .ok vs ↔
      ItemsEverywhere Fits vs ∧ Doc.itemsDepth (itemsToDoc vs) ≤ room)
  | [] => by simp [itemsToDoc, readItems, ItemsEverywhere, Doc.itemsDepth]
  | v :: vs => by
    have hfirst := readWith_toDoc_iff hvalue room v
    have hrest := readItems_itemsToDoc_iff hvalue room vs
    simp only [itemsToDoc, readItems, ItemsEverywhere, Doc.itemsDepth, bind_eq_ok_iff]
    constructor
    · rintro ⟨w, hw, ws, hws, h⟩
      obtain ⟨rfl, rfl⟩ := List.cons.inj (Except.ok.inj h)
      grind
    · rintro ⟨⟨hv, hvs⟩, hdepth⟩
      exact ⟨v, hfirst.mpr ⟨hv, by omega⟩, vs, hrest.mpr ⟨hvs, by omega⟩, rfl⟩

theorem readMembers_membersToDoc_iff (hvalue : ∀ s w, value? s = some w → ¬ w.IsEmbedding)
    (room : Nat) : (ms : List (String × Value)) →
      (readMembers value? surplus room (membersToDoc ms) = .ok ms ↔
        MembersEverywhere Fits ms ∧ Doc.membersDepth (membersToDoc ms) ≤ room)
  | [] => by simp [membersToDoc, readMembers, MembersEverywhere, Doc.membersDepth]
  | (k, v) :: ms => by
    have hfirst := readWith_toDoc_iff hvalue room v
    have hrest := readMembers_membersToDoc_iff hvalue room ms
    simp only [membersToDoc, readMembers, MembersEverywhere, Doc.membersDepth, bind_eq_ok_iff]
    constructor
    · rintro ⟨w, hw, ws, hws, h⟩
      obtain ⟨hm, rfl⟩ := List.cons.inj (Except.ok.inj h)
      obtain ⟨-, rfl⟩ := Prod.mk.inj hm
      grind
    · rintro ⟨⟨hv, hvs⟩, hdepth⟩
      exact ⟨v, hfirst.mpr ⟨hv, by omega⟩, ms, hrest.mpr ⟨hvs, by omega⟩, rfl⟩

end

end Reading

/-- Only null is written as null, apart from floats that do not survive. -/
theorem toDoc_ne_null {v : Value} (hsurvives : v.Survives) (h : v ≠ .null) : v.toDoc ≠ .null := by
  cases v with
  | null => exact absurd rfl h
  | number n =>
    cases n with
    | integer i => simp [toDoc, Doc.int]
    | real x => exact float_ne_null_of_survives hsurvives
  | flag | text | array | object => simp [toDoc, Doc.str]

/-- A value is read back from what it is written as exactly when it is one that a text can hold, its
floats survive, no object in it starts with the embedding name, and there is room for it. -/
theorem read_toDoc_iff (surplus : Fault) (room : Nat) (v : Value) :
    read surplus room v.toDoc = .ok v ↔
      (v.Canonical ∧ v.Survives ∧ v.IsPlain) ∧ v.toDoc.depth ≤ room := by
  rw [← everywhere_fits_iff]
  exact readWith_toDoc_iff (fun _ _ => not_isEmbedding_of_parseWithin?) room v

/-- The text of a value that fits is that of this value. -/
theorem parse?_print {v : Value} (h : v.Canonical ∧ v.Survives ∧ v.IsPlain)
    (hdepth : v.toDoc.depth ≤ nestingLimit) : parse? v.toDoc.print = some v := by
  rw [← everywhere_fits_iff] at h
  have hread : readWith (parseWithin? v.toDoc.print.length) .text nestingLimit v.toDoc = .ok v :=
    (readWith_toDoc_iff (fun _ _ => not_isEmbedding_of_parseWithin?) nestingLimit v).mpr ⟨h, hdepth⟩
  rw [parse?, parseWithin?, Doc.parse_print (spelled_toDoc v)]
  simp [hread, Except.toOption]

end Value
end Json
end FleetWatch
