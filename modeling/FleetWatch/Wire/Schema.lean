import FleetWatch.Json.Value
import FleetWatch.Net.Address
import FleetWatch.Time.Rfc3339

/-!
# Wire schemas

The JSON form of a type as data. A schema says which members a record has and what stands for a
missing one; its reading (`Wire.Schema.read`) and writing (`Wire.Schema.write`) are the same for all
types.

## Main definitions

* `Wire.Scalar`: strings, booleans, words, floats, instants, endpoints.
* `Wire.Presence`: whether a member may be missing, and when it is left out.
* `Wire.Schema`, `Wire.Fields`, `Wire.Variants`: the schemas of values, of the members of records,
  and of the alternatives of tagged unions.
-/
namespace FleetWatch.Wire

/-- The types without parts. -/
inductive Scalar : Type → Type where
  | text : Scalar String
  | flag : Scalar Bool
  | word8 : Scalar UInt8
  | word16 : Scalar UInt16
  | word32 : Scalar UInt32
  | word64 : Scalar UInt64
  | int64 : Scalar Int64
  | float (f : Binary.Format) : Scalar (Binary f)
  | instant : Scalar Time.Instant
  | endpoint : Scalar Net.Endpoint

/-- What stands for a missing member. Records are also read from arrays of their members; there only
members that are missing `anywhere` may be missing at the end. -/
inductive Absent (α : Type) where
  | refused
  | fromObject (a : α)
  | anywhere (a : α)

namespace Absent
variable {α : Type}

/-- The value of a member missing from an object. -/
def inObject? : Absent α → Option α
  | refused => none
  | fromObject a | anywhere a => some a

/-- The value of a member missing at the end of an array. -/
def inArray? : Absent α → Option α
  | anywhere a => some a
  | _ => none

end Absent

/-- How a member is present: what stands for it when it is missing, and when it is left out. Only a
member that stands for itself when missing is left out. -/
structure Presence (α : Type) where
  absent : Absent α
  omits : α → Bool
  inObject_of_omits : ∀ a, omits a = true → absent.inObject? = some a

namespace Presence
variable {α : Type}

/-- Must be given and is always written. -/
def required : Presence α := ⟨.refused, fun _ => false, by simp⟩

/-- Has a default and is always written. -/
def orElse (a : α) : Presence α := ⟨.anywhere a, fun _ => false, by simp⟩

/-- May be missing from an object only, and is always written. -/
def nullable : Presence (Option α) := ⟨.fromObject none, fun _ => false, by simp⟩

/-- May be missing, and is written only with a value. -/
def optional : Presence (Option α) :=
  ⟨.anywhere none, Option.isNone, fun a h => by cases a <;> simp_all [Absent.inObject?]⟩

/-- May be missing, and is written only with items. -/
def nonempty : Presence (List α) :=
  ⟨.anywhere [], List.isEmpty, fun a h => by cases a <;> simp_all [Absent.inObject?]⟩

end Presence

/-- A value as the parts it is made of. -/
structure View (β α : Type) where
  make : β → α
  parts : α → β
  make_parts : ∀ a, make (parts a) = a

mutual

/-- The JSON form of a type. -/
inductive Schema : Type → Type 1 where
  /-- A value without parts. -/
  | scalar {α : Type} (s : Scalar α) : Schema α
  /-- One of some names. -/
  | choice {α : Type} (names : List (String × α)) (nameOf : α → String)
    (lookup_nameOf : ∀ a, names.lookup (nameOf a) = some a) : Schema α
  /-- Any value. -/
  | free : Schema Json.Value
  /-- A value or null. -/
  | option {α : Type} (s : Schema α) : Schema (Option α)
  /-- An array. -/
  | list {α : Type} (s : Schema α) : Schema (List α)
  /-- An object with the given members. -/
  | record {α β σ : Type} (fields : Fields β σ) (view : View β α) : Schema α
  /-- An object whose members belong to two parts. -/
  | split {α β γ σ τ : Type} (outer : Fields β σ) (inner : Fields γ τ) (view : View (β × γ) α) :
    Schema α
  /-- An object whose member `tag` names one of some variants. -/
  | tagged {α : Type} (tag : String) (variants : Variants α) : Schema α

/-- The members of a record, with the type of its parts and that of the parts read so far. -/
inductive Fields : Type → Type → Type 1 where
  | nil : Fields Unit Unit
  | cons {β γ σ : Type} (name : String) (shape : Schema β) (presence : Presence β)
    (rest : Fields γ σ) : Fields (β × γ) (Option β × σ)

/-- The variants of a tagged union: for each its name, its members, and how its parts make a value
and are found in one. -/
inductive Variants : Type → Type 1 where
  | nil {α : Type} : Variants α
  | cons {α β σ : Type} (name : String) (fields : Fields β σ) (inject : β → α)
    (project : α → Option β) (inject_project : ∀ a b, project a = some b → inject b = a)
    (rest : Variants α) : Variants α

end

namespace Schema

abbrev text : Schema String := .scalar .text
abbrev flag : Schema Bool := .scalar .flag
abbrev word8 : Schema UInt8 := .scalar .word8
abbrev word16 : Schema UInt16 := .scalar .word16
abbrev word32 : Schema UInt32 := .scalar .word32
abbrev word64 : Schema UInt64 := .scalar .word64
abbrev int64 : Schema Int64 := .scalar .int64
abbrev single : Schema Single := .scalar (.float .single)
abbrev double : Schema Double := .scalar (.float .double)
abbrev instant : Schema Time.Instant := .scalar .instant
abbrev endpoint : Schema Net.Endpoint := .scalar .endpoint

end Schema

namespace Fields

def names {β σ : Type} : Fields β σ → List String
  | nil => []
  | cons name _ _ rest => name :: rest.names

def empty {β σ : Type} : Fields β σ → σ
  | nil => ()
  | cons _ _ _ rest => (none, rest.empty)

end Fields

def Variants.names {α : Type} : Variants α → List String
  | nil => []
  | cons name _ _ _ _ rest => name :: rest.names

end FleetWatch.Wire
