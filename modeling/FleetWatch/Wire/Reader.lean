import FleetWatch.Wire.Schema

/-!
# Reading documents

A document is read against a schema in text order, and the first fault met decides. Members that a
record does not know are passed over unread; only their grammar counts. The members of a tagged
union are held back until its tag is known, and so are those of the inner part of a split record;
held values must be within the range of numbers, without lone surrogates, and not nested too deep.

## Main definitions

* `Wire.Schema.read`: reading a document.
* `Wire.Schema.decode`: reading a whole text.
-/
namespace FleetWatch.Wire

open Json

/-- A string that `parse` accepts. -/
def readText {α : Type} (parse : String → Option α) : Doc → Except Fault α
  | .text (some s) => ((parse s).map .ok).getD (.error .shape)
  | d => .error d.refusal

/-- A number that `parse` accepts. -/
def readNumber {α : Type} (parse : Number → Option α) : Doc → Except Fault α
  | .number l =>
    match l.read? with
    | some n => ((parse n).map .ok).getD (.error .shape)
    | none => .error .text
  | d => .error d.refusal

/-- An integer from `low` up to, but without, `high`. -/
def integerWithin (low high : Int) : Number → Option Int
  | .integer i => if low ≤ i ∧ i < high then some i else none
  | .real _ => none

/-- A natural number below `size`. -/
def readWord (size : Nat) (d : Doc) : Except Fault Nat :=
  Int.toNat <$> readNumber (integerWithin 0 size) d

/-- The float nearest to a number. -/
def floatOf {f : Binary.Format} : Number → Binary f
  | .integer i => .ofInt i
  | .real x => x.convert

def Scalar.read {α : Type} : Scalar α → Doc → Except Fault α
  | .text, d => readText some d
  | .flag, d => match d with
    | .flag b => .ok b
    | d => .error d.refusal
  | .word8, d => UInt8.ofNat <$> readWord UInt8.size d
  | .word16, d => UInt16.ofNat <$> readWord UInt16.size d
  | .word32, d => UInt32.ofNat <$> readWord UInt32.size d
  | .word64, d => UInt64.ofNat <$> readWord UInt64.size d
  | .int64, d =>
    Int64.ofInt <$> readNumber (integerWithin Int64.minValue.toInt (Int64.maxValue.toInt + 1)) d
  | .float _, d => readNumber (fun n => some (floatOf n)) d
  | .instant, d => readText Time.Instant.parse? d
  | .endpoint, d => readText Net.Endpoint.parse? d

/-- Reads one of some names: a string, or an object with the name as its only member and nothing as
its value. -/
def readChoice {α : Type} (names : List (String × α)) : Doc → Except Fault α
  | .text (some s) => ((names.lookup s).map .ok).getD (.error .shape)
  | .object [(some s, .null)] | .object [(some s, .object [])] =>
    ((names.lookup s).map .ok).getD (.error .shape)
  | d => .error d.refusal

/-- The tag of a union among its members, and the members besides it. -/
def takeTag (tag : String) (known : List String) (room : Nat) :
    List Member → Except Fault (Option String × List Member)
  | ms => ms.foldlM (fun (found, held) (k, d) =>
      match k with
      | none => .error .text
      | some k =>
        if k = tag then
          if found.isSome then .error .shape
          else do
            let name ← readText (fun s => if s ∈ known then some s else none) d
            return (some name, held)
        else if d.keepable room then .ok (found, held ++ [(some k, d)])
        else .error .text)
    (none, [])

mutual

/-- Reads a document that may nest `room` containers. `surplus` is the fault of an array that has
more items than its record has members, and of an object that has more than an embedded text. -/
def Schema.read {α : Type} (surplus : Fault) (room : Nat) : Schema α → Doc → Except Fault α
  | .scalar s, d => s.read d
  | .choice names _ _, d => readChoice names d
  | .free, d => Value.read surplus room d
  | .option s, d => match d with
    | .null => .ok none
    | d => some <$> s.read surplus room d
  | .list s, d => match d with
    | .array ds => if room = 0 then .error .text else ds.mapM fun d => s.read surplus (room - 1) d
    | d => .error d.refusal
  | .record fields view, d => match d with
    | .object ms =>
      if room = 0 then .error .text
      else do
        let slots ← ms.foldlM (fun slots (k, d) => match k with
          | none => .error .text
          | some k => do
            match ← fields.fill surplus (room - 1) k d slots with
            | some slots => return slots
            | none => if d.intact then return slots else .error .text) fields.empty
        return view.make (← fields.finish slots)
    | .array ds =>
      if room = 0 then .error .text
      else do
        let (parts, rest) ← fields.readItems surplus (room - 1) ds
        if rest.isEmpty then return view.make parts else .error surplus
    | d => .error d.refusal
  | .split outer inner view, d => match d with
    | .object ms =>
      if room = 0 then .error .text
      else do
        let (slots, held) ← ms.foldlM (fun (slots, held) (k, d) => match k with
          | none => .error .text
          | some k => do
            match ← outer.fill surplus (room - 1) k d slots with
            | some slots => return (slots, held)
            | none =>
              if d.keepable (room - 1) then return (slots, held ++ [(k, d)]) else .error .text)
          (outer.empty, ([] : List (String × Doc)))
        let first ← outer.finish slots
        let slots ← held.foldlM (fun slots (k, d) => do
          return (← inner.fill .shape (room - 1) k d slots).getD slots) inner.empty
        return view.make (first, ← inner.finish slots)
    | d => .error d.refusal
  | .tagged tag variants, d => match d with
    | .object ms =>
      if room = 0 then .error .text
      else do
        match ← takeTag tag variants.names (room - 1) ms with
        | (some name, held) => variants.readMembers (room - 1) name held
        | (none, _) => .error .shape
    | .array [] => if room = 0 then .error .text else .error .shape
    | .array (d :: ds) =>
      if room = 0 then .error .text
      else do
        let name ← readText (fun s => if s ∈ variants.names then some s else none) d
        if ds.all (Doc.keepable (room - 1)) then variants.readItems (room - 1) name ds
        else .error .text
    | d => .error d.refusal

/-- Reads the value of a member into its place: `none` when no member has the name. A member given
twice is at fault before its value is read. -/
def Fields.fill {β σ : Type} (surplus : Fault) (room : Nat) :
    Fields β σ → String → Doc → σ → Except Fault (Option σ)
  | .nil, _, _, _ => .ok none
  | .cons name shape _ rest, k, d, (slot, slots) =>
    if k = name then
      if slot.isSome then .error .shape
      else do return some (some (← shape.read surplus room d), slots)
    else do return (← rest.fill surplus room k d slots).map fun slots => (slot, slots)

/-- The parts once all members are read. -/
def Fields.finish {β σ : Type} : Fields β σ → σ → Except Fault β
  | .nil, _ => .ok ()
  | .cons _ _ presence rest, (slot, slots) =>
    match slot.or presence.absent.inObject? with
    | some b => do return (b, ← rest.finish slots)
    | none => .error .shape

/-- Reads the items of an array as the members of a record in turn; also what is left of them. -/
def Fields.readItems {β σ : Type} (surplus : Fault) (room : Nat) :
    Fields β σ → List Doc → Except Fault (β × List Doc)
  | .nil, ds => .ok ((), ds)
  | .cons _ shape presence rest, ds => do
    let (b, ds) ← match ds with
      | d :: ds => do pure (← shape.read surplus room d, ds)
      | [] => match presence.absent.inArray? with
        | some b => pure (b, [])
        | none => .error .shape
    let (parts, ds) ← rest.readItems surplus room ds
    return ((b, parts), ds)

/-- Reads the members of the variant of a name. -/
def Variants.readMembers {α : Type} (room : Nat) :
    Variants α → String → List Member → Except Fault α
  | .nil, _, _ => .error .shape
  | .cons name fields inject _ _ rest, k, ms =>
    if k = name then do
      let slots ← ms.foldlM (fun slots (k, d) => match k with
        | none => .error .text
        | some k => do return (← fields.fill .shape room k d slots).getD slots) fields.empty
      return inject (← fields.finish slots)
    else rest.readMembers room k ms

/-- Reads the items of the variant of a name. -/
def Variants.readItems {α : Type} (room : Nat) : Variants α → String → List Doc → Except Fault α
  | .nil, _, _ => .error .shape
  | .cons name fields inject _ _ rest, k, ds =>
    if k = name then do
      let (parts, left) ← fields.readItems .shape room ds
      if left.isEmpty then return inject parts else .error .shape
    else rest.readItems room k ds

end

/-- Reads the document at the front of a text; what follows it does not count. -/
def Schema.decodeFront {α : Type} (s : Schema α) (text : String) : Except Fault α :=
  s.read .text nestingLimit (Doc.parse text).1

/-- Reads a whole text. -/
def Schema.decode {α : Type} (s : Schema α) (text : String) : Except Fault α := do
  let (d, more) := Doc.parse text
  let a ← s.read .text nestingLimit d
  if more then .error .text else return a

end FleetWatch.Wire
