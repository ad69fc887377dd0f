import FleetWatch.Json.Literal

/-!
# Tokens

The words of a JSON text. Scanning goes on up to the first place that no token can start at or where
one breaks off; that place is the token `fault`.

A string token holds its text, or nothing when an escape names half of a surrogate pair alone: such
a string has a valid spelling and no value.

## Main definitions

* `Json.Token`, `Json.Token.scan`: the tokens of a text.
* `Json.Token.spell`: the spelling of a token.
-/
namespace FleetWatch.Json

/-- A word of a JSON text. -/
inductive Token where
  | openBracket | closeBracket | openBrace | closeBrace | comma | colon
  | null
  | flag (b : Bool)
  | number (l : Literal)
  | text (s : Option String)
  | fault
deriving DecidableEq

/-- A piece of a string literal: a character, or one half of a surrogate pair. -/
inductive Piece where
  | char (c : Char)
  | half (unit : Nat)
deriving DecidableEq

/-- Space, tab, line feed and carriage return separate tokens. -/
def isSpace (c : Char) : Bool := c = ' ' || c = '\n' || c = '\t' || c = '\r'

def hexDigit? (c : Char) : Option Nat :=
  if '0' ≤ c ∧ c ≤ '9' then some (c.toNat - 48)
  else if 'a' ≤ c ∧ c ≤ 'f' then some (c.toNat - 87)
  else if 'A' ≤ c ∧ c ≤ 'F' then some (c.toNat - 55)
  else none

def hexUnit? (a b c d : Char) : Option Nat := do
  return (((← hexDigit? a) * 16 + (← hexDigit? b)) * 16 + (← hexDigit? c)) * 16 + (← hexDigit? d)

/-- The character after a backslash, by the letter that follows it. -/
def escape? (c : Char) : Option Char :=
  match c with
  | '"' => some '"'
  | '\\' => some '\\'
  | '/' => some '/'
  | 'b' => some '\x08'
  | 'f' => some '\x0c'
  | 'n' => some '\n'
  | 'r' => some '\r'
  | 't' => some '\t'
  | _ => none

namespace Piece

/-- A code unit as a piece. -/
def ofUnit (n : Nat) : Piece :=
  if 0xD800 ≤ n ∧ n < 0xE000 then .half n else .char (Char.ofNat n)

/-- Joins neighbouring halves into characters, in reverse order of the pieces; `none` when a half
stands alone. -/
def joinReversed (acc : List Char) : List Piece → Option (List Char)
  | [] => some acc
  | .char c :: ps => joinReversed (c :: acc) ps
  | .half low :: .half high :: ps =>
    if 0xDC00 ≤ low ∧ high < 0xDC00 then
      joinReversed (Char.ofNat (0x10000 + (high - 0xD800) * 0x400 + (low - 0xDC00)) :: acc) ps
    else none
  | .half _ :: _ => none

end Piece

namespace Token

/-- The pieces of a string literal up to its closing quote, last first, and the rest of the text;
`none` when it is not closed, holds a control character or an unknown escape. -/
def scanPieces (before : List Piece) : List Char → Option (List Piece × List Char)
  | [] => none
  | '"' :: rest => some (before, rest)
  | '\\' :: 'u' :: a :: b :: c :: d :: rest =>
    match hexUnit? a b c d with
    | some n => scanPieces (Piece.ofUnit n :: before) rest
    | none => none
  | '\\' :: e :: rest =>
    match escape? e with
    | some c => scanPieces (.char c :: before) rest
    | none => none
  | c :: rest => if c.toNat < 0x20 ∨ c = '\\' then none else scanPieces (.char c :: before) rest

def digit? (c : Char) : Option Digit :=
  if '0' ≤ c ∧ c ≤ '9' then some (Digit.ofNat (c.toNat - 48)) else none

/-- The digits at the front, last first before `before`, and the rest of the text. -/
def scanDigits (before : List Digit) : List Char → List Digit × List Char
  | [] => (before.reverse, [])
  | c :: rest =>
    match digit? c with
    | some d => scanDigits (d :: before) rest
    | none => (before.reverse, c :: rest)

/-- The fraction after a point, if the text goes on with one; `none` when no digit follows. -/
def scanFraction : List Char → Option (List Digit × List Char)
  | '.' :: rest =>
    match scanDigits [] rest with
    | ([], _) => none
    | r => some r
  | rest => some ([], rest)

/-- The exponent, if the text goes on with one; `none` when no digit follows. -/
def scanExponent : List Char → Option (Option Exponent × List Char)
  | c :: rest =>
    if c = 'e' ∨ c = 'E' then
      let (negative, rest) := match rest with
        | '-' :: rest => (true, rest)
        | '+' :: rest => (false, rest)
        | rest => (false, rest)
      match scanDigits [] rest with
      | ([], _) => none
      | (ds, rest) => some (some ⟨negative, ds⟩, rest)
    else some (none, c :: rest)
  | [] => some (none, [])

/-- A number literal after its sign: no leading zero before another digit. -/
def scanNumber (negative : Bool) (cs : List Char) : Option (Literal × List Char) := do
  let (whole, rest) := scanDigits [] cs
  if whole.isEmpty || (whole.head?.any (·.val = 0) && 1 < whole.length) then none
  else
    let (fraction, rest) ← scanFraction rest
    let (exponent, rest) ← scanExponent rest
    some (⟨negative, whole, fraction, exponent⟩, rest)

/-- The token at the front of a text that starts with `c`, and the rest; `none` where no token can
be read. -/
def next (c : Char) (rest : List Char) : Option (Token × List Char) :=
  match c, rest with
  | '[', rest => some (.openBracket, rest)
  | ']', rest => some (.closeBracket, rest)
  | '{', rest => some (.openBrace, rest)
  | '}', rest => some (.closeBrace, rest)
  | ',', rest => some (.comma, rest)
  | ':', rest => some (.colon, rest)
  | 'n', 'u' :: 'l' :: 'l' :: rest => some (.null, rest)
  | 't', 'r' :: 'u' :: 'e' :: rest => some (.flag true, rest)
  | 'f', 'a' :: 'l' :: 's' :: 'e' :: rest => some (.flag false, rest)
  | '"', rest =>
    (scanPieces [] rest).map fun (ps, rest) =>
      (.text ((Piece.joinReversed [] ps).map String.ofList), rest)
  | '-', rest => (scanNumber true rest).map fun (l, rest) => (.number l, rest)
  | c, rest => (scanNumber false (c :: rest)).map fun (l, rest) => (.number l, rest)

theorem length_scanPieces (ps : List Piece) (cs : List Char) {qs : List Piece} {rest : List Char}
    (h : scanPieces ps cs = some (qs, rest)) : rest.length ≤ cs.length := by
  fun_induction scanPieces ps cs <;> simp_all <;> grind

theorem length_scanDigits (ds : List Digit) (cs : List Char) :
    (scanDigits ds cs).2.length ≤ cs.length := by
  fun_induction scanDigits ds cs <;> simp_all; omega

theorem length_scanDigits_lt (cs : List Char) (h : (scanDigits [] cs).1 ≠ []) :
    (scanDigits [] cs).2.length < cs.length := by
  cases cs with
  | nil => simp [scanDigits] at h
  | cons c rest =>
    unfold scanDigits at h ⊢
    split
    · exact Nat.lt_succ_of_le (length_scanDigits _ rest)
    · simp_all

theorem length_scanFraction {cs : List Char} {r : List Digit × List Char}
    (h : scanFraction cs = some r) : r.2.length ≤ cs.length := by
  unfold scanFraction at h
  split at h
  · rename_i rest
    have := length_scanDigits [] rest
    split at h
    · simp at h
    · simp only [Option.some.injEq] at h; subst h; simp; omega
  · simp only [Option.some.injEq] at h; subst h; simp

theorem length_scanExponent {cs : List Char} {r : Option Exponent × List Char}
    (h : scanExponent cs = some r) : r.2.length ≤ cs.length := by
  unfold scanExponent at h
  split at h
  · rename_i c rest
    split at h
    · dsimp only at h
      split at h
      · simp at h
      · rename_i ds tail _ heq
        simp only [Option.some.injEq] at h
        subst h
        have := length_scanDigits [] (match rest with
          | '-' :: rest => (true, rest)
          | '+' :: rest => (false, rest)
          | rest => (false, rest)).2
        rw [heq] at this
        dsimp only at this ⊢
        refine Nat.le_trans this ?_
        split <;> simp <;> omega
    · simp only [Option.some.injEq] at h; subst h; simp
  · simp only [Option.some.injEq] at h; subst h; simp

theorem length_scanNumber {negative : Bool} {cs : List Char} {r : Literal × List Char}
    (h : scanNumber negative cs = some r) : r.2.length < cs.length := by
  unfold scanNumber at h
  dsimp only at h
  split at h
  · simp at h
  · rename_i hw
    have h0 := length_scanDigits_lt cs (by intro h0; simp [h0] at hw)
    cases h1 : scanFraction (scanDigits [] cs).2 with
    | none => simp [h1] at h
    | some r1 =>
      have l1 := length_scanFraction h1
      cases h2 : scanExponent r1.2 with
      | none => simp [h1, h2] at h
      | some r2 =>
        have l2 := length_scanExponent h2
        simp [h1, h2] at h
        subst h
        dsimp only
        omega

/-- A token takes at least one character. -/
theorem length_next {c : Char} {cs : List Char} {r : Token × List Char}
    (h : next c cs = some r) : r.2.length < (c :: cs).length := by
  unfold next at h
  split at h
  all_goals first
    | (simp only [Option.some.injEq] at h; subst h; simp; done)
    | (simp only [Option.some.injEq] at h; subst h; simp; omega)
    | skip
  · obtain ⟨⟨ps, rest⟩, h1, h2⟩ := Option.map_eq_some_iff.1 h
    subst h2
    exact Nat.lt_succ_of_le (length_scanPieces _ _ h1)
  · obtain ⟨⟨l, rest⟩, h1, h2⟩ := Option.map_eq_some_iff.1 h
    subst h2
    exact Nat.lt_succ_of_lt (length_scanNumber h1)
  · obtain ⟨⟨l, rest⟩, h1, h2⟩ := Option.map_eq_some_iff.1 h
    subst h2
    exact length_scanNumber h1

/-- The tokens of a text, those read so far last first before them. -/
def scanFrom (before : List Token) : List Char → List Token
  | [] => before.reverse
  | c :: cs =>
    if isSpace c then scanFrom before cs
    else match h : next c cs with
      | some (t, rest) =>
        have : rest.length < (c :: cs).length := length_next h
        scanFrom (t :: before) rest
      | none => (fault :: before).reverse
termination_by cs => cs.length
decreasing_by
  · exact Nat.lt_succ_self cs.length
  · exact this

def scan (s : String) : List Token := scanFrom [] s.toList

def spellDigit (d : Digit) : Char := Char.ofNat (48 + d.val)

/-- The spelling of a number literal; a positive exponent has its sign. -/
def spellNumber (l : Literal) : List Char :=
  (if l.negative then ['-'] else []) ++ l.whole.map spellDigit
    ++ (if l.fraction.isEmpty then [] else '.' :: l.fraction.map spellDigit)
    ++ (match l.exponent with
      | none => []
      | some e => 'e' :: (if e.negative then '-' else '+') :: e.digits.map spellDigit)

def hexDigit (n : Nat) : Char := if n < 10 then Char.ofNat (48 + n) else Char.ofNat (87 + n)

/-- The spelling of a character inside a string: quote, backslash and control characters are
escaped, all others stand for themselves. -/
def spellChar (c : Char) : List Char :=
  match c with
  | '"' => ['\\', '"']
  | '\\' => ['\\', '\\']
  | '\x08' => ['\\', 'b']
  | '\x0c' => ['\\', 'f']
  | '\n' => ['\\', 'n']
  | '\r' => ['\\', 'r']
  | '\t' => ['\\', 't']
  | c =>
    if c.toNat < 0x20 then ['\\', 'u', '0', '0', hexDigit (c.toNat / 16), hexDigit (c.toNat % 16)]
    else [c]

/-- The spelling of a token; a string without a value is spelled by a lone half. -/
def spell : Token → List Char
  | openBracket => ['[']
  | closeBracket => [']']
  | openBrace => ['{']
  | closeBrace => ['}']
  | comma => [',']
  | colon => [':']
  | null => ['n', 'u', 'l', 'l']
  | flag true => ['t', 'r', 'u', 'e']
  | flag false => ['f', 'a', 'l', 's', 'e']
  | number l => spellNumber l
  | text (some s) => '"' :: (s.toList.flatMap spellChar ++ ['"'])
  | text none => ['"', '\\', 'u', 'd', '8', '0', '0', '"']
  | fault => ['!']

end Token
end FleetWatch.Json
