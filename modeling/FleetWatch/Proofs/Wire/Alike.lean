import FleetWatch.Wire.Schema
import Mathlib.Data.List.Forall2
import Mathlib.Data.List.Perm.Basic

/-!
# Documents alike

Two documents are alike under a schema when they differ only in what it is not to look at: the order
of members, and members whose names it does not know. This goes for the records inside them as well,
wherever the schema has one. Of a tagged union it is the variant that is named by the tag that knows
the names.

## Main definitions

* `Wire.valuesOf`, `Wire.besides`: the members of a name and the others.
* `Wire.SameMembers`: the members of some names are the same up to their order.
* `Wire.Paired`: lists that correspond one to one, in whatever order.
* `Wire.Schema.Alike`: documents that are alike.
-/
namespace FleetWatch.Wire

open Json

/-! ## Members of a name -/

/-- The values of the members of a name. -/
def valuesOf (name : String) (ms : List Member) : List Doc :=
  ms.filterMap fun m => if m.1 = some name then some m.2 else none

/-- The members of other names. -/
def besides (name : String) (ms : List Member) : List Member :=
  ms.filter fun m => m.1 ≠ some name

section ValuesOf
variable {name k : String} {m : Member} {ms : List Member}

@[simp] theorem valuesOf_nil : valuesOf name [] = [] := rfl

@[simp] theorem besides_nil : besides name [] = [] := rfl

@[simp] theorem valuesOf_cons_self (d : Doc) :
    valuesOf name ((some name, d) :: ms) = d :: valuesOf name ms := by
  simp [valuesOf]

@[simp] theorem besides_cons_self (d : Doc) :
    besides name ((some name, d) :: ms) = besides name ms := by
  simp [besides]

@[simp] theorem valuesOf_cons_of_ne (h : m.1 ≠ some name) :
    valuesOf name (m :: ms) = valuesOf name ms := by
  simp [valuesOf, h]

@[simp] theorem besides_cons_of_ne (h : m.1 ≠ some name) :
    besides name (m :: ms) = m :: besides name ms := by
  simp [besides, h]

theorem valuesOf_append (ns : List Member) :
    valuesOf name (ms ++ ns) = valuesOf name ms ++ valuesOf name ns :=
  List.filterMap_append

theorem mem_valuesOf_iff {d : Doc} : d ∈ valuesOf name ms ↔ (some name, d) ∈ ms := by
  simp [valuesOf]

/-- Members that are kept or left out by name keep all values of a name or none. -/
theorem valuesOf_filter (p : Option String → Bool) :
    valuesOf name (ms.filter fun m => p m.1) = if p (some name) then valuesOf name ms else [] := by
  induction ms with
  | nil => simp
  | cons m ms ih =>
    rw [List.filter_cons]
    by_cases hname : m.1 = some name
    · obtain ⟨k, d⟩ := m
      obtain rfl : k = some name := hname
      cases hp : p (some name) <;> simp [hp, ih]
    · cases p m.1 <;> simp [hname, ih]

theorem valuesOf_besides_self : valuesOf name (besides name ms) = [] := by
  refine (valuesOf_filter fun n => n ≠ some name).trans (if_neg ?_)
  simp

theorem valuesOf_besides_of_ne (h : k ≠ name) : valuesOf k (besides name ms) = valuesOf k ms := by
  refine (valuesOf_filter fun n => n ≠ some name).trans (if_pos ?_)
  simp [h]

end ValuesOf

/-- The members of the given names are the same up to their order. -/
def SameMembers (names : List String) (ms ns : List Member) : Prop :=
  ∀ k ∈ names, (valuesOf k ms).Perm (valuesOf k ns)

namespace SameMembers
variable {names others : List String} {ms ns : List Member}

theorem refl (names : List String) (ms : List Member) : SameMembers names ms ms :=
  fun _ _ => .refl _

theorem symm (h : SameMembers names ms ns) : SameMembers names ns ms :=
  fun k hk => (h k hk).symm

theorem trans {ls : List Member} (h : SameMembers names ms ns) (h' : SameMembers names ns ls) :
    SameMembers names ms ls :=
  fun k hk => (h k hk).trans (h' k hk)

theorem subset (h : SameMembers names ms ns) (hsubset : others ⊆ names) :
    SameMembers others ms ns :=
  fun k hk => h k (hsubset hk)

/-- Members may stand in any order. -/
theorem of_perm (names : List String) (h : ms.Perm ns) : SameMembers names ms ns :=
  fun _ _ => h.filterMap _

/-- A member of another name may come in anywhere. -/
theorem insert {m : Member} (hm : ∀ k ∈ names, m.1 ≠ some k) (ms ns : List Member) :
    SameMembers names (ms ++ ns) (ms ++ m :: ns) := by
  intro k hk
  rw [valuesOf_append, valuesOf_append, valuesOf_cons_of_ne (hm k hk)]

/-- So it is without the members of a name. -/
theorem rest (h : SameMembers names ms ns) (name : String) :
    SameMembers names (besides name ms) (besides name ns) := by
  intro k hk
  by_cases hname : k = name
  · rw [hname, valuesOf_besides_self, valuesOf_besides_self]
  · rw [valuesOf_besides_of_ne hname, valuesOf_besides_of_ne hname]
    exact h k hk

end SameMembers

/-! ## Alike -/

/-- The documents of two lists correspond one to one, in whatever order. -/
def Paired (R : Doc → Doc → Prop) (ds es : List Doc) : Prop :=
  ∃ fs, ds.Perm fs ∧ List.Forall₂ R fs es

mutual

/-- The documents differ only in the order of members, and in members that are not known. -/
def Schema.Alike {α : Type} : Schema α → Doc → Doc → Prop
  | .scalar _, d, e | .choice .., d, e | .free, d, e => d = e
  | .option s, d, e => s.Alike d e
  | .list s, d, e => match d, e with
    | .array ds, .array es => List.Forall₂ (fun d e => s.Alike d e) ds es
    | d, e => d = e
  | .record fields _, d, e => match d, e with
    | .object ms, .object ns => fields.Alike ms ns
    | .array ds, .array es => fields.ItemsAlike ds es
    | d, e => d = e
  | .split outer inner _, d, e => match d, e with
    | .object ms, .object ns => outer.Alike ms ns ∧ inner.Alike ms ns
    | d, e => d = e
  | .tagged tag variants, d, e => match d, e with
    | .object ms, .object ns =>
      (valuesOf tag ms).Perm (valuesOf tag ns) ∧
        ∀ name, .text (some name) ∈ valuesOf tag ms →
          variants.Alike name (besides tag ms) (besides tag ns)
    | .array (d :: ds), .array (e :: es) =>
      d = e ∧ ∀ name, d = .text (some name) → variants.ItemsAlike name ds es
    | d, e => d = e

/-- The members of each known name correspond, in whatever order. -/
def Fields.Alike {β σ : Type} : Fields β σ → List Member → List Member → Prop
  | .nil, _, _ => True
  | .cons name shape _ rest, ms, ns =>
    Paired (fun d e => shape.Alike d e) (valuesOf name ms) (valuesOf name ns) ∧ rest.Alike ms ns

/-- The items that stand for members correspond. -/
def Fields.ItemsAlike {β σ : Type} : Fields β σ → List Doc → List Doc → Prop
  | .cons _ shape _ rest, d :: ds, e :: es => shape.Alike d e ∧ rest.ItemsAlike ds es
  | _, ds, es => ds = es

/-- The members that the variant of a name knows correspond. -/
def Variants.Alike {α : Type} : Variants α → String → List Member → List Member → Prop
  | .nil, _, _, _ => True
  | .cons name fields _ _ _ rest, k, ms, ns =>
    if k = name then fields.Alike ms ns else rest.Alike k ms ns

/-- The items that stand for members of the variant of a name correspond. -/
def Variants.ItemsAlike {α : Type} : Variants α → String → List Doc → List Doc → Prop
  | .nil, _, _, _ => True
  | .cons name fields _ _ _ rest, k, ds, es =>
    if k = name then fields.ItemsAlike ds es else rest.ItemsAlike k ds es

end

/-- The names that the variant of a name knows. -/
def Variants.known {α : Type} : Variants α → String → List String
  | .nil, _ => []
  | .cons name fields _ _ _ rest, k => if k = name then fields.names else rest.known k

/-! ## What is alike -/

theorem forall₂_refl_of {R : Doc → Doc → Prop} (h : ∀ d, R d d) (ds : List Doc) :
    List.Forall₂ R ds ds :=
  List.forall₂_same.mpr fun d _ => h d

theorem Paired.of_perm {R : Doc → Doc → Prop} (h : ∀ d, R d d) {ds es : List Doc}
    (hperm : ds.Perm es) : Paired R ds es :=
  ⟨es, hperm, forall₂_refl_of h es⟩

mutual

/-- Every document is like itself. -/
theorem Schema.alike_refl {α : Type} : (s : Schema α) → (d : Doc) → s.Alike d d
  | .scalar _, _ | .choice .., _ | .free, _ => rfl
  | .option s, d => s.alike_refl d
  | .list s, d => by
    rw [Schema.Alike.eq_def]
    cases d with
    | array ds => exact forall₂_refl_of s.alike_refl ds
    | _ => rfl
  | .record fields _, d => by
    rw [Schema.Alike.eq_def]
    cases d with
    | object ms => exact fields.alike_of_sameMembers (.refl _ ms)
    | array ds => exact fields.itemsAlike_refl ds
    | _ => rfl
  | .split outer inner _, d => by
    rw [Schema.Alike.eq_def]
    cases d with
    | object ms =>
      exact ⟨outer.alike_of_sameMembers (.refl _ ms), inner.alike_of_sameMembers (.refl _ ms)⟩
    | _ => rfl
  | .tagged tag variants, d => by
    rw [Schema.Alike.eq_def]
    cases d with
    | object ms => exact ⟨.refl _, fun name _ => variants.alike_of_sameMembers (.refl _ _)⟩
    | array ds =>
      cases ds with
      | nil => rfl
      | cons d ds => exact ⟨rfl, fun name _ => variants.itemsAlike_refl name ds⟩
    | _ => rfl

/-- Members are alike if those of known names are the same up to their order. -/
theorem Fields.alike_of_sameMembers {β σ : Type} : (fields : Fields β σ) →
    {ms ns : List Member} → SameMembers fields.names ms ns → fields.Alike ms ns
  | .nil, _, _, _ => trivial
  | .cons name shape _ rest, _, _, h => by
    obtain ⟨hname, hrest⟩ := List.forall_mem_cons.mp h
    exact ⟨Paired.of_perm shape.alike_refl hname, rest.alike_of_sameMembers hrest⟩

theorem Fields.itemsAlike_refl {β σ : Type} : (fields : Fields β σ) → (ds : List Doc) →
    fields.ItemsAlike ds ds
  | .nil, _ | .cons .., [] => rfl
  | .cons _ shape _ rest, d :: ds => ⟨shape.alike_refl d, rest.itemsAlike_refl ds⟩

theorem Variants.alike_of_sameMembers {α : Type} : (variants : Variants α) → {name : String} →
    {ms ns : List Member} → SameMembers (variants.known name) ms ns → variants.Alike name ms ns
  | .nil, _, _, _, _ => trivial
  | .cons _ fields _ _ _ rest, _, _, _, h => by
    rw [Variants.known] at h
    rw [Variants.Alike]
    split at h
    · next hname => exact (if_pos hname).mpr (fields.alike_of_sameMembers h)
    · next hname => exact (if_neg hname).mpr (rest.alike_of_sameMembers h)

theorem Variants.itemsAlike_refl {α : Type} : (variants : Variants α) → (name : String) →
    (ds : List Doc) → variants.ItemsAlike name ds ds
  | .nil, _, _ => trivial
  | .cons _ fields _ _ _ rest, name, ds => by
    rw [Variants.ItemsAlike]
    split
    · exact fields.itemsAlike_refl ds
    · exact rest.itemsAlike_refl name ds

end

section Objects
variable {α β γ σ τ : Type} {ms ns : List Member}

theorem Schema.record_alike {fields : Fields β σ} (view : View β α)
    (h : SameMembers fields.names ms ns) :
    (Schema.record fields view).Alike (.object ms) (.object ns) :=
  fields.alike_of_sameMembers h

theorem Schema.split_alike {outer : Fields β σ} {inner : Fields γ τ} (view : View (β × γ) α)
    (h : SameMembers (outer.names ++ inner.names) ms ns) :
    (Schema.split outer inner view).Alike (.object ms) (.object ns) :=
  ⟨outer.alike_of_sameMembers (h.subset (List.subset_append_left ..)),
    inner.alike_of_sameMembers (h.subset (List.subset_append_right ..))⟩

/-- In a tagged union the tag may stand anywhere, too. -/
theorem Schema.tagged_alike {tag : String} {variants : Variants α}
    (htag : SameMembers [tag] ms ns)
    (h : ∀ name, .text (some name) ∈ valuesOf tag ms →
      SameMembers (variants.known name) ms ns) :
    (Schema.tagged tag variants).Alike (.object ms) (.object ns) :=
  ⟨htag tag (List.mem_singleton_self tag),
    fun name hname => variants.alike_of_sameMembers ((h name hname).rest tag)⟩

end Objects

end FleetWatch.Wire
