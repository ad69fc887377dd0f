import FleetWatch.Proofs.Time.Rfc3339
import FleetWatch.Proofs.Wire.Leaves

/-!
# Scalars on the wire

Which scalars are read back from what they are written as. Texts, booleans and integers always are;
a float is if its decimal leads back to it, an instant if it is regular.

## Main definitions

* `Binary.Survives`: the decimal of a float leads back to it.
* `Scalar.Keeps`: a scalar is read back.
* `Scalar.Dated`: an instant is regular.
-/
namespace FleetWatch

open Json Wire

/-- The decimal that a float is written as leads back to it. Those that are not finite have none. -/
def Binary.Survives {f : Binary.Format} (x : Binary f) : Prop :=
  ((Literal.ofFloat? x).bind Literal.read?).map floatOf = some x

instance {f : Binary.Format} (x : Binary f) : Decidable x.Survives :=
  inferInstanceAs (Decidable (_ = _))

theorem Binary.Survives.isFinite {f : Binary.Format} {x : Binary f} (h : x.Survives) :
    x.isFinite = true := by
  cases x with
  | finite => rfl
  | _ => cases h

namespace Wire

theorem read_float_iff {f : Binary.Format} (x : Binary f) :
    (Scalar.float f).read (.float x) = .ok x ↔ x.Survives := by
  simp only [Scalar.read, Doc.float, Binary.Survives]
  cases Literal.ofFloat? x with
  | none => simp [readNumber]
  | some l => cases hread : l.read? <;> simp [readNumber, hread]

/-- A float that survives is not written as null. -/
theorem float_ne_null_of_survives {f : Binary.Format} {x : Binary f} (h : x.Survives) :
    Doc.float x ≠ .null := by
  unfold Binary.Survives at h
  unfold Doc.float
  cases hl : Literal.ofFloat? x with
  | none => simp [hl] at h
  | some l => simp

theorem readNumber_int {α : Type} {parse : Number → Option α} {i : Int}
    (hlow : -(UInt64.size / 2 : Nat) ≤ i) (hhigh : i < UInt64.size) :
    readNumber parse (.int i) = ((parse (.integer i)).map .ok).getD (.error .shape) := by
  simp [Doc.int, readNumber, Literal.read?_ofInt hlow hhigh]

theorem readWord_int (size : Nat) {n : Nat} (hn : n < size) (hsize : size ≤ UInt64.size) :
    readWord size (.int n) = .ok n := by
  have hlow : -(UInt64.size / 2 : Nat) ≤ (n : Int) := by omega
  have hhigh : (n : Int) < UInt64.size := by omega
  have hin : (0 : Int) ≤ n ∧ (n : Int) < size := by omega
  rw [readWord, readNumber_int hlow hhigh, integerWithin, if_pos hin]
  rfl

/-- The scalars that are read back from what they are written as. -/
def Scalar.Keeps {α : Type} : Scalar α → α → Prop
  | .float _, x => x.Survives
  | .instant, t => t.Regular
  | .endpoint, e => Net.Endpoint.parse? e.print = some e
  | _, _ => True

theorem readText_str_iff {α : Type} {parse : String → Option α} {s : String} {a : α} :
    readText parse (.str s) = .ok a ↔ parse s = some a := by
  simp only [readText, Doc.str]
  cases parse s <;> simp

@[simp] theorem Scalar.read_write_iff {α : Type} (s : Scalar α) (a : α) :
    s.read (s.write a) = .ok a ↔ s.Keeps a := by
  cases s with
  | text => simp [Scalar.read, Scalar.write, Scalar.Keeps, readText_str_iff]
  | flag => simp [Scalar.read, Scalar.write, Scalar.Keeps]
  | word8 =>
    rw [Scalar.read, Scalar.write, readWord_int UInt8.size a.toNat_lt (by decide), map_eq_ok_iff]
    simp [Scalar.Keeps]
  | word16 =>
    rw [Scalar.read, Scalar.write, readWord_int UInt16.size a.toNat_lt (by decide), map_eq_ok_iff]
    simp [Scalar.Keeps]
  | word32 =>
    rw [Scalar.read, Scalar.write, readWord_int UInt32.size a.toNat_lt (by decide), map_eq_ok_iff]
    simp [Scalar.Keeps]
  | word64 =>
    rw [Scalar.read, Scalar.write, readWord_int UInt64.size a.toNat_lt (by decide), map_eq_ok_iff]
    simp [Scalar.Keeps]
  | int64 =>
    have hlow : -(UInt64.size / 2 : Nat) ≤ a.toInt := a.le_toInt
    have hhigh : a.toInt < UInt64.size := Int.lt_trans a.toInt_lt (by decide)
    have hin : Int64.minValue.toInt ≤ a.toInt ∧ a.toInt < Int64.maxValue.toInt + 1 :=
      ⟨a.le_toInt, a.toInt_lt⟩
    rw [Scalar.read, Scalar.write, readNumber_int hlow hhigh, integerWithin, if_pos hin,
      map_eq_ok_iff]
    simp [Scalar.Keeps]
  | float f => exact read_float_iff a
  | instant =>
    rw [Scalar.read, Scalar.write, readText_str_iff]
    exact ⟨Time.Instant.regular_of_parse?, Time.Instant.parse?_print⟩
  | endpoint => exact readText_str_iff

@[simp] theorem text_write_ne_null (s : String) : Schema.text.write s ≠ .null :=
  fun h => by cases h

/-- An instant is regular. -/
def Scalar.Dated {α : Type} : Scalar α → α → Prop
  | .instant, t => t.Regular
  | _, _ => True

theorem Scalar.dated_of_read : Scalar.ReadAs Scalar.Dated := by
  intro α s d a h
  cases s with
  | instant =>
    cases d with
    | text s =>
      cases s with
      | none => simp [Scalar.read, readText] at h
      | some s => exact Time.Instant.regular_of_parse? (readText_str_iff.mp h)
    | _ => simp [Scalar.read, readText] at h
  | _ => trivial

end Wire
/-! A schema is looked at field by field. -/

attribute [simp] Schema.Proper Fields.Proper
attribute [simp] Schema.Returns Fields.Returns Variants.Returns Scalar.Keeps
attribute [simp] Presence.required Presence.orElse Presence.optional Presence.nonempty
attribute [simp] Fields.marks Variants.marks

/-! There is always room for a frame, and for an array in it. -/

@[simp] theorem Json.nestingLimit_pos : 0 < nestingLimit := by decide

@[simp] theorem Json.one_lt_nestingLimit : 1 < nestingLimit := by decide

@[simp] theorem Json.nestingLimit_sub_one_pos : 0 < nestingLimit - 1 := by decide

end FleetWatch
