import FleetWatch.Wire.Schema

/-!
# Writing documents

The document of a value under a schema. Records are objects with their members in order, without
those that are left out; a tagged union has its tag first. Floats that are not finite are written as
null.

## Main definitions

* `Wire.Schema.write`: the document of a value.
* `Wire.Schema.encode`: its text.
-/
namespace FleetWatch.Wire

open Json

def Scalar.write {α : Type} : Scalar α → α → Doc
  | .text, s => .str s
  | .flag, b => .flag b
  | .word8, n => .int n.toNat
  | .word16, n => .int n.toNat
  | .word32, n => .int n.toNat
  | .word64, n => .int n.toNat
  | .int64, i => .int i.toInt
  | .float _, x => .float x
  | .instant, t => .str t.print
  | .endpoint, e => .str e.print

mutual

def Schema.write {α : Type} : Schema α → α → Doc
  | .scalar s, a => s.write a
  | .choice _ nameOf _, a => .str (nameOf a)
  | .free, v => v.toDoc
  | .option s, a => match a with
    | none => .null
    | some a => s.write a
  | .list s, as => .array (as.map fun a => s.write a)
  | .record fields view, a => .object (fields.write (view.parts a))
  | .split outer inner view, a =>
    .object (outer.write (view.parts a).1 ++ inner.write (view.parts a).2)
  | .tagged tag variants, a => .object (variants.write tag a)

def Fields.write {β σ : Type} : Fields β σ → β → List Member
  | .nil, _ => []
  | .cons name shape presence rest, (b, bs) =>
    (if presence.omits b then [] else [(some name, shape.write b)]) ++ rest.write bs

/-- Writes the tag and the members of the first variant that the value is of. -/
def Variants.write {α : Type} (tag : String) : Variants α → α → List Member
  | .nil, _ => []
  | .cons name fields _ project _ rest, a =>
    match project a with
    | some b => (some tag, .str name) :: fields.write b
    | none => rest.write tag a

end

def Schema.encode {α : Type} (s : Schema α) (a : α) : String := (s.write a).print

end FleetWatch.Wire
