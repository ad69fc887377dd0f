import FleetWatch.Json.Token
import Std.Data.TreeMap

/-!
# Documents

A JSON text as a tree that keeps what the text says: member order, repeated names, numbers and
strings as spelled. A text that breaks off becomes a tree with a `broken` leaf at that place, so one
that walks the tree in text order meets what stands before the fault first.

## Main definitions

* `Json.Doc`: the tree; `Json.Doc.ofTokens`, `Json.Doc.parse`: its reading.
* `Json.Doc.tokens`, `Json.Doc.print`: its writing.
* `Json.Doc.intact`: no part is broken.
* `Json.Doc.keepable`: every number, string and depth can be held as a value.
* `Json.Doc.sorted`: members in the order of their names.
-/
namespace FleetWatch.Json

/-- A document. A name is missing where its spelling has no value or where none could be read. -/
inductive Doc where
  | null
  | flag (b : Bool)
  | number (l : Literal)
  | text (s : Option String)
  | array (items : List Doc)
  | object (members : List (Option String × Doc))
  | broken

instance : Inhabited Doc := ⟨.null⟩

abbrev Member := Option String × Doc

namespace Doc

/-- A container whose end has not been read, with what it holds so far, last first. -/
inductive Open where
  | items (before : List Doc)
  | member (before : List Member) (name : Option String)

/-- The container with a last value in it. -/
def Open.close (d : Doc) : Open → Doc
  | .items before => .array (d :: before).reverse
  | .member before name => .object ((name, d) :: before).reverse

/-- The document of a text that breaks off inside the given containers, innermost first. -/
def abandon (stack : List Open) : Doc := stack.foldl Open.close .broken

mutual

/-- Reads a value that stands inside the given containers, and then the rest of these. -/
def readValue (stack : List Open) : List Token → Doc × List Token
  | .null :: ts => readNext stack .null ts
  | .flag b :: ts => readNext stack (.flag b) ts
  | .number l :: ts => readNext stack (.number l) ts
  | .text s :: ts => readNext stack (.text s) ts
  | .openBracket :: .closeBracket :: ts => readNext stack (.array []) ts
  | .openBracket :: ts => readValue (.items [] :: stack) ts
  | .openBrace :: .closeBrace :: ts => readNext stack (.object []) ts
  | .openBrace :: .text k :: .colon :: ts => readValue (.member [] k :: stack) ts
  | .openBrace :: .text k :: _ => (abandon (.member [] k :: stack), [])
  | .openBrace :: _ => (abandon (.member [] none :: stack), [])
  | _ => (abandon stack, [])

/-- Goes on after a value that stands inside the given containers. -/
def readNext : List Open → Doc → List Token → Doc × List Token
  | [], d, ts => (d, ts)
  | .items before :: stack, d, .comma :: ts => readValue (.items (d :: before) :: stack) ts
  | .items before :: stack, d, .closeBracket :: ts =>
    readNext stack (.array (d :: before).reverse) ts
  | .items before :: stack, d, _ => (abandon (.items (d :: before) :: stack), [])
  | .member before name :: stack, d, .comma :: .text k :: .colon :: ts =>
    readValue (.member ((name, d) :: before) k :: stack) ts
  | .member before name :: stack, d, .comma :: .text k :: _ =>
    (abandon (.member ((name, d) :: before) k :: stack), [])
  | .member before name :: stack, d, .closeBrace :: ts =>
    readNext stack (.object ((name, d) :: before).reverse) ts
  | .member before name :: stack, d, _ =>
    (abandon (.member ((name, d) :: before) none :: stack), [])

end

/-- The document at the front of the tokens, and what follows it. -/
def ofTokens (ts : List Token) : Doc × List Token := readValue [] ts

/-- The document at the front of a text, and whether text follows it. -/
def parse (s : String) : Doc × Bool :=
  let (d, rest) := ofTokens (Token.scan s)
  (d, !rest.isEmpty)

mutual

def tokens : Doc → List Token
  | .null => [.null]
  | .flag b => [.flag b]
  | .number l => [.number l]
  | .text s => [.text s]
  | .array [] => [.openBracket, .closeBracket]
  | .array (d :: ds) => .openBracket :: (d.tokens ++ itemTokens ds)
  | .object [] => [.openBrace, .closeBrace]
  | .object ((k, d) :: ms) => .openBrace :: .text k :: .colon :: (d.tokens ++ memberTokens ms)
  | .broken => [.fault]

/-- The tokens of the items after the first, and of the end of the array. -/
def itemTokens : List Doc → List Token
  | [] => [.closeBracket]
  | d :: ds => .comma :: (d.tokens ++ itemTokens ds)

/-- The tokens of the members after the first, and of the end of the object. -/
def memberTokens : List Member → List Token
  | [] => [.closeBrace]
  | (k, d) :: ms => .comma :: .text k :: .colon :: (d.tokens ++ memberTokens ms)

end

/-- The shortest text of a document: no space between tokens. -/
def print (d : Doc) : String := String.ofList (d.tokens.flatMap Token.spell)

mutual

/-- No part is broken. -/
def intact : Doc → Bool
  | .array ds => itemsIntact ds
  | .object ms => membersIntact ms
  | .broken => false
  | _ => true

def itemsIntact : List Doc → Bool
  | [] => true
  | d :: ds => d.intact && itemsIntact ds

def membersIntact : List Member → Bool
  | [] => true
  | (_, d) :: ms => d.intact && membersIntact ms

end

mutual

/-- Every number is within the floats, every string has a value, and at most `room` containers nest.
Broken parts cannot be kept. -/
def keepable (room : Nat) : Doc → Bool
  | .number l => l.read?.isSome
  | .text s => s.isSome
  | .array ds => 0 < room && itemsKeepable (room - 1) ds
  | .object ms => 0 < room && membersKeepable (room - 1) ms
  | .broken => false
  | _ => true

def itemsKeepable (room : Nat) : List Doc → Bool
  | [] => true
  | d :: ds => d.keepable room && itemsKeepable room ds

def membersKeepable (room : Nat) : List Member → Bool
  | [] => true
  | (k, d) :: ms => k.isSome && d.keepable room && membersKeepable room ms

end

mutual

/-- The document with the members of every object in the order of their names. -/
def sorted : Doc → Doc
  | .array ds => .array (itemsSorted ds)
  | .object ms =>
    .object ((membersSorted ms).mergeSort fun a b => (compare (a.1.getD "") (b.1.getD "")).isLE)
  | d => d

def itemsSorted : List Doc → List Doc
  | [] => []
  | d :: ds => d.sorted :: itemsSorted ds

def membersSorted : List Member → List Member
  | [] => []
  | (k, d) :: ms => (k, d.sorted) :: membersSorted ms

end

def obj (members : List (String × Doc)) : Doc := .object (members.map fun (k, d) => (some k, d))

def str (s : String) : Doc := .text (some s)

def int (i : Int) : Doc := .number (.ofInt i)

/-- A float; one that is not finite has no literal and is written as null. -/
def float {f : Binary.Format} (x : Binary f) : Doc :=
  match Literal.ofFloat? x with
  | some l => .number l
  | none => .null

def get? (d : Doc) (name : String) : Option Doc :=
  match d with
  | .object ms => (ms.find? fun m => m.1 = some name).map Prod.snd
  | _ => none

end Doc
end FleetWatch.Json
