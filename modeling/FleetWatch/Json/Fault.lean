import FleetWatch.Json.Document

/-!
# Faults

Why a text is refused: as a text, or for the shape of what it says.

## Main definitions

* `Json.Fault`: what is wrong with a text.
* `Json.Doc.refusal`: the fault of a value of the wrong kind.
* `Json.nestingLimit`: how deep containers may nest.
-/
namespace FleetWatch.Json

/-- What is wrong with a text: it is no JSON that can be held, or JSON of another shape. -/
inductive Fault where
  | text
  | shape
deriving DecidableEq, Repr

/-- The fault of a value of the wrong kind. A scalar is read before it is refused. -/
def Doc.refusal : Doc → Fault
  | .number l => if l.read?.isSome then .shape else .text
  | .text s => if s.isSome then .shape else .text
  | .broken => .text
  | _ => .shape

/-- The deepest nesting of containers that is read, the outermost included. -/
def nestingLimit : Nat := 127

end FleetWatch.Json
