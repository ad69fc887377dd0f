import FleetWatch.Json.Fault

/-!
# Free values

JSON of no fixed shape, held by value: numbers as read, objects with each name once and in the order
of names. Of a repeated name the last value counts. An object that starts with the embedding name
holds a text there and stands for the value of this text.

## Main definitions

* `Json.Value`, with `Json.Value.read` and `Json.Value.toDoc`.
* `Json.Value.parse?`: the value of a text that stands inside another.
-/
namespace FleetWatch.Json

inductive Value where
  | null
  | flag (b : Bool)
  | number (n : Number)
  | text (s : String)
  | array (items : List Value)
  | object (members : List (String × Value))

instance : Inhabited Value := ⟨.null⟩

namespace Value

/-- Members in the order of their names, the last of a repeated name. -/
def normalize (members : List (String × Value)) : List (String × Value) :=
  (Std.TreeMap.ofList members compare).toList

/-- The name of the member that holds a text in place of a value. -/
def embeddingName : String := "$serde_json::private::RawValue"

/-- What stands for an embedded text, and the members after it. Only the first member can hold
one. -/
def embedding? : List Member → Option (Doc × List Member)
  | (some k, d) :: ms => if k = embeddingName then some (d, ms) else none
  | _ => none

mutual

/-- The value of a document that may nest `room` containers, where `value?` gives the values of
embedded texts. Any failure of such a text is one of shape; after it comes `surplus`, the fault of
members beside it. -/
def readWith (value? : String → Option Value) (surplus : Fault) (room : Nat) :
    Doc → Except Fault Value
  | .null => .ok .null
  | .flag b => .ok (.flag b)
  | .number l => match l.read? with
    | some n => .ok (.number n)
    | none => .error .text
  | .text s => match s with
    | some s => .ok (.text s)
    | none => .error .text
  | .array ds =>
    if room = 0 then .error .text else .array <$> readItems value? surplus (room - 1) ds
  | .object ms =>
    if room = 0 then .error .text
    else match embedding? ms with
      | some (.text (some s), others) => match value? s with
        | some v => if others.isEmpty then .ok v else .error surplus
        | none => .error .shape
      | some (d, _) => .error d.refusal
      | none => do return .object (normalize (← readMembers value? surplus (room - 1) ms))
  | .broken => .error .text

def readItems (value? : String → Option Value) (surplus : Fault) (room : Nat) :
    List Doc → Except Fault (List Value)
  | [] => .ok []
  | d :: ds => do
    return (← readWith value? surplus room d) :: (← readItems value? surplus room ds)

def readMembers (value? : String → Option Value) (surplus : Fault) (room : Nat) :
    List Member → Except Fault (List (String × Value))
  | [] => .ok []
  | (some k, d) :: ms => do
    return (k, ← readWith value? surplus room d) :: (← readMembers value? surplus room ms)
  | (none, _) :: _ => .error .text

end

/-- The value of a whole text in which at most `depth` texts stand one in another, itself
included. -/
def parseWithin? : Nat → String → Option Value
  | 0, _ => none
  | depth + 1, s =>
    let (d, more) := Doc.parse s
    if more then none else (readWith (parseWithin? depth) .text nestingLimit d).toOption

/-- The value of a whole text. An embedded text is shorter than the one around it, so the length
bounds their number. -/
def parse? (s : String) : Option Value := parseWithin? (s.length + 1) s

/-- The value of a document that may nest `room` containers; `surplus` is the fault of members
beside an embedded text. -/
def read (surplus : Fault) (room : Nat) (d : Doc) : Except Fault Value :=
  readWith parse? surplus room d

mutual

def toDoc : Value → Doc
  | .null => .null
  | .flag b => .flag b
  | .number (.integer i) => .int i
  | .number (.real x) => .float x
  | .text s => .str s
  | .array vs => .array (itemsToDoc vs)
  | .object ms => .object (membersToDoc ms)

def itemsToDoc : List Value → List Doc
  | [] => []
  | v :: vs => v.toDoc :: itemsToDoc vs

def membersToDoc : List (String × Value) → List Member
  | [] => []
  | (k, v) :: ms => (some k, v.toDoc) :: membersToDoc ms

end

end Value
end FleetWatch.Json
