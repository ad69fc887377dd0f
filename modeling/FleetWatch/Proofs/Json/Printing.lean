import FleetWatch.Json.Document
import FleetWatch.Proofs.Json.Numbers

/-!
# Printed documents

The text of a document is read as that document.

## Main definitions

* `Doc.Spelled`: a document whose numbers have a spelling and that breaks off nowhere.
-/
namespace FleetWatch.Json

/-! ## Numbers -/

/-- A text that does not go on with what could belong to a number. -/
def EndsNumber (cs : List Char) : Prop :=
  ∀ c rest, cs = c :: rest → Token.digit? c = none ∧ c ≠ '.' ∧ c ≠ 'e' ∧ c ≠ 'E'

theorem endsNumber_nil : EndsNumber [] := by simp [EndsNumber]

namespace Token

@[simp] theorem digit?_spellDigit (d : Digit) : digit? (spellDigit d) = some d := by
  revert d
  decide

theorem scanDigits_append (ds before : List Digit) {rest : List Char}
    (hrest : ∀ c tail, rest = c :: tail → digit? c = none) :
    scanDigits before (ds.map spellDigit ++ rest) = (before.reverse ++ ds, rest) := by
  induction ds generalizing before with
  | nil =>
    cases rest with
    | nil => simp [scanDigits]
    | cons c tail => simp [scanDigits, hrest c tail rfl]
  | cons d ds ih => simp [scanDigits, ih]

theorem scanFraction_append (ds : List Digit) {rest : List Char}
    (hrest : ∀ c tail, rest = c :: tail → digit? c = none ∧ c ≠ '.') :
    scanFraction ((if ds.isEmpty then [] else '.' :: ds.map spellDigit) ++ rest) =
      some (ds, rest) := by
  cases ds with
  | nil =>
    cases rest with
    | nil => rfl
    | cons c tail =>
      have hc := (hrest c tail rfl).2
      simp only [List.isEmpty_nil, if_true, List.nil_append]
      unfold scanFraction
      split
      · next heq => exact absurd (List.cons.inj heq).1 hc
      · rfl
  | cons d ds =>
    have hscan := scanDigits_append (d :: ds) [] fun c tail h => (hrest c tail h).1
    simp only [List.isEmpty_cons, Bool.false_eq_true, if_false, List.cons_append, scanFraction]
    rw [hscan]
    rfl

/-- The spelling of an exponent, if there is one. -/
def spellExponent : Option Exponent → List Char
  | none => []
  | some e => 'e' :: (if e.negative then '-' else '+') :: e.digits.map spellDigit

theorem scanExponent_append {e : Option Exponent} (he : ∀ x, e = some x → x.digits ≠ [])
    {rest : List Char} (hrest : EndsNumber rest) :
    scanExponent (spellExponent e ++ rest) = some (e, rest) := by
  cases e with
  | none =>
    cases rest with
    | nil => rfl
    | cons c tail =>
      obtain ⟨-, -, hlower, hupper⟩ := hrest c tail rfl
      simp [spellExponent, scanExponent, hlower, hupper]
  | some x =>
    have hscan := scanDigits_append x.digits [] fun c tail h => (hrest c tail h).1
    obtain ⟨d, ds, hds⟩ := List.exists_cons_of_ne_nil (he x rfl)
    rw [hds] at hscan
    obtain ⟨negative, digits⟩ := x
    cases negative <;> simp_all [spellExponent, scanExponent]

theorem spellNumber_eq (l : Literal) :
    spellNumber l = (if l.negative then ['-'] else []) ++ (l.whole.map spellDigit ++
      ((if l.fraction.isEmpty then [] else '.' :: l.fraction.map spellDigit) ++
        spellExponent l.exponent)) := by
  simp only [spellNumber, List.append_assoc]
  cases l.exponent <;> rfl

/-- The digits of a number, its fraction and its exponent are read as that number. -/
theorem scanNumber_append {l : Literal} (hl : l.Spelled) {rest : List Char}
    (hrest : EndsNumber rest) :
    scanNumber l.negative (l.whole.map spellDigit ++
      ((if l.fraction.isEmpty then [] else '.' :: l.fraction.map spellDigit) ++
        spellExponent l.exponent) ++ rest) = some (l, rest) := by
  obtain ⟨negative, whole, fraction, exponent⟩ := l
  dsimp only
  -- neither the fraction nor the exponent starts with a digit, nor the latter with a point
  have hexponent : ∀ c tail, spellExponent exponent ++ rest = c :: tail →
      digit? c = none ∧ c ≠ '.' := by
    intro c tail h
    cases exponent with
    | none => exact ⟨(hrest c tail h).1, (hrest c tail h).2.1⟩
    | some x =>
      obtain ⟨rfl, -⟩ := List.cons.inj h
      decide
  have hfraction : ∀ c tail,
      (if fraction.isEmpty then [] else '.' :: fraction.map spellDigit) ++
        (spellExponent exponent ++ rest) = c :: tail → digit? c = none := by
    intro c tail h
    cases fraction with
    | nil => exact (hexponent c tail h).1
    | cons d ds =>
      obtain ⟨rfl, -⟩ := List.cons.inj h
      decide
  have hwhole : (whole.isEmpty || (whole.head?.any (·.val = 0) && 1 < whole.length)) = false := by
    rcases hl.whole with h | ⟨d, ds, h, hd⟩
    · simp only at h
      simp [h]
    · simp only at h
      simp only [h, List.isEmpty_cons, List.head?_cons, Option.any_some, hd, decide_false,
        Bool.false_and, Bool.or_false]
  rw [List.append_assoc, List.append_assoc]
  simp only [scanNumber, scanDigits_append whole [] hfraction, List.reverse_nil, List.nil_append,
    hwhole, Bool.false_eq_true, if_false, scanFraction_append fraction hexponent,
    Option.bind_eq_bind, Option.bind_some, scanExponent_append hl.exponent hrest]

/-! ## Strings -/

theorem hexUnit?_control :
    ∀ n < 0x20, hexUnit? '0' '0' (hexDigit (n / 16)) (hexDigit (n % 16)) = some n := by
  decide

/-- The spelling of a character inside a string is read as that character. -/
theorem scanPieces_spellChar (c : Char) (before : List Piece) (rest : List Char) :
    scanPieces before (spellChar c ++ rest) = scanPieces (.char c :: before) rest := by
  unfold spellChar
  split
  · rfl
  · rfl
  · rfl
  · rfl
  · rfl
  · rfl
  · rfl
  · next hquote hslash _ _ _ _ _ =>
    split
    · next hcontrol =>
      have hunit := hexUnit?_control c.toNat hcontrol
      have hpiece : Piece.ofUnit c.toNat = .char c := by
        rw [Piece.ofUnit, if_neg (by omega), Char.ofNat_toNat]
      simp only [List.cons_append, List.nil_append, scanPieces, hunit, hpiece]
    · next hcontrol =>
      simp only [List.cons_append, List.nil_append]
      rw [scanPieces.eq_def]
      split <;> grind

theorem scanPieces_spell (cs : List Char) (before : List Piece) (rest : List Char) :
    scanPieces before (cs.flatMap spellChar ++ '"' :: rest) =
      some ((cs.map Piece.char).reverse ++ before, rest) := by
  induction cs generalizing before with
  | nil => simp [scanPieces]
  | cons c cs ih =>
    rw [List.flatMap_cons, List.append_assoc, scanPieces_spellChar, ih]
    simp

theorem joinReversed_chars (cs acc : List Char) :
    Piece.joinReversed acc (cs.map Piece.char) = some (cs.reverse ++ acc) := by
  induction cs generalizing acc with
  | nil => rfl
  | cons c cs ih => simp [Piece.joinReversed, ih]

/-! ## Tokens -/

/-- A token with a spelling of its own: no fault, and no number but those of the grammar. -/
def Spelled : Token → Prop
  | number l => l.Spelled
  | fault => False
  | _ => True

theorem next_of_digit {c : Char} {d : Digit} (h : digit? c = some d) (rest : List Char) :
    next c rest = (scanNumber false (c :: rest)).map fun (l, rest) => (.number l, rest) := by
  unfold next
  split
  all_goals first
    | rfl
    | simp [digit?] at h

theorem scanFrom_cons {c : Char} {cs rest : List Char} {t : Token} (hspace : isSpace c = false)
    (hnext : next c cs = some (t, rest)) (before : List Token) :
    scanFrom before (c :: cs) = scanFrom (t :: before) rest := by
  rw [scanFrom]
  simp only [hspace, Bool.false_eq_true, if_false]
  split
  · next heq =>
    obtain ⟨rfl, rfl⟩ := Prod.mk.inj (Option.some.inj (heq.symm.trans hnext))
    rfl
  · next heq => simp [heq] at hnext

theorem isSpace_spellDigit (d : Digit) : isSpace (spellDigit d) = false := by
  revert d
  decide

theorem scanFrom_spellNumber {l : Literal} (hl : l.Spelled) (before : List Token)
    {rest : List Char} (hrest : EndsNumber rest) :
    scanFrom before (spellNumber l ++ rest) = scanFrom (.number l :: before) rest := by
  have hscan := scanNumber_append hl hrest
  have hwhole : ∃ d ds, l.whole = d :: ds := by
    rcases hl.whole with h | ⟨d, ds, h, -⟩
    · exact ⟨_, _, h⟩
    · exact ⟨d, ds, h⟩
  obtain ⟨d, ds, hds⟩ := hwhole
  rw [spellNumber_eq]
  cases hsign : l.negative with
  | true =>
    rw [hsign] at hscan
    refine scanFrom_cons (by decide) ?_ before
    simp only [next, List.append_eq, List.nil_append]
    rw [hscan]
    rfl
  | false =>
    rw [hsign, hds] at hscan
    simp only [Bool.false_eq_true, if_false, List.nil_append, hds, List.map_cons, List.cons_append]
      at hscan ⊢
    refine scanFrom_cons (isSpace_spellDigit d) ?_ before
    rw [next_of_digit (digit?_spellDigit d), hscan]
    rfl

theorem scanFrom_spellText (s : Option String) (before : List Token) (rest : List Char) :
    scanFrom before ((text s).spell ++ rest) = scanFrom (.text s :: before) rest := by
  cases s with
  | none => exact scanFrom_cons (by decide) rfl before
  | some s =>
    refine scanFrom_cons (by decide) ?_ before
    simp only [List.append_eq, List.append_assoc, List.singleton_append, next, scanPieces_spell,
      List.append_nil, ← List.map_reverse, joinReversed_chars, List.reverse_reverse,
      Option.map_some, String.ofList_toList]

/-- A spelled token is read, if the text after it cannot be part of it. -/
theorem scanFrom_spell {t : Token} (ht : t.Spelled) (before : List Token) {rest : List Char}
    (hrest : (∃ l, t = number l) → EndsNumber rest) :
    scanFrom before (t.spell ++ rest) = scanFrom (t :: before) rest := by
  cases t with
  | fault => exact ht.elim
  | number l => exact scanFrom_spellNumber ht before (hrest ⟨l, rfl⟩)
  | text s => exact scanFrom_spellText s before rest
  | flag b => cases b <;> exact scanFrom_cons (by decide) rfl before
  | _ => exact scanFrom_cons (by decide) rfl before

end Token
namespace Doc

/-! ## Documents -/

mutual

/-- The numbers have spellings, and no part is broken. -/
def Spelled : Doc → Prop
  | .number l => l.Spelled
  | .array ds => ItemsSpelled ds
  | .object ms => MembersSpelled ms
  | .broken => False
  | _ => True

def ItemsSpelled : List Doc → Prop
  | [] => True
  | d :: ds => d.Spelled ∧ ItemsSpelled ds

def MembersSpelled : List Member → Prop
  | [] => True
  | (_, d) :: ms => d.Spelled ∧ MembersSpelled ms

end

theorem endsNumber_itemTokens (ds : List Doc) (rest : List Char) :
    EndsNumber ((itemTokens ds).flatMap Token.spell ++ rest) := by
  intro c tail h
  cases ds with
  | nil =>
    obtain ⟨rfl, -⟩ := List.cons.inj h
    decide
  | cons d ds =>
    obtain ⟨rfl, -⟩ := List.cons.inj h
    decide

theorem endsNumber_memberTokens (ms : List Member) (rest : List Char) :
    EndsNumber ((memberTokens ms).flatMap Token.spell ++ rest) := by
  intro c tail h
  cases ms with
  | nil =>
    obtain ⟨rfl, -⟩ := List.cons.inj h
    decide
  | cons m ms =>
    obtain ⟨rfl, -⟩ := List.cons.inj h
    decide

/-- A token that is no number is read whatever follows. -/
theorem scanFrom_cons_spell (t : Token) (ht : t.Spelled) (hnumber : ∀ l, t ≠ .number l)
    (before ts : List Token) (rest : List Char) :
    Token.scanFrom before ((t :: ts).flatMap Token.spell ++ rest) =
      Token.scanFrom (t :: before) (ts.flatMap Token.spell ++ rest) := by
  rw [List.flatMap_cons, List.append_assoc]
  exact Token.scanFrom_spell ht before fun ⟨l, hl⟩ => absurd hl (hnumber l)

mutual

/-- The tokens of a document are read from its text. -/
theorem scanFrom_tokens : (d : Doc) → d.Spelled → ∀ (before : List Token) {rest : List Char},
    EndsNumber rest → Token.scanFrom before (d.tokens.flatMap Token.spell ++ rest) =
      Token.scanFrom (d.tokens.reverse ++ before) rest
  | .null, _, before, rest, _ => by
    simpa [tokens] using scanFrom_cons_spell .null trivial (by simp) before [] rest
  | .flag b, _, before, rest, _ => by
    simpa [tokens] using scanFrom_cons_spell (.flag b) trivial (by simp) before [] rest
  | .number l, hl, before, rest, hrest => by
    simpa [tokens, Token.spell] using Token.scanFrom_spellNumber hl before hrest
  | .text s, _, before, rest, _ => by
    simpa [tokens] using scanFrom_cons_spell (.text s) trivial (by simp) before [] rest
  | .array [], _, before, rest, _ => by
    rw [tokens, scanFrom_cons_spell .openBracket trivial (by simp),
      scanFrom_cons_spell .closeBracket trivial (by simp)]
    rfl
  | .array (d :: ds), hd, before, rest, _ => by
    obtain ⟨hd, hds⟩ := hd
    rw [tokens, scanFrom_cons_spell .openBracket trivial (by simp), List.flatMap_append,
      List.append_assoc, scanFrom_tokens d hd _ (endsNumber_itemTokens ds rest),
      scanFrom_itemTokens ds hds]
    simp
  | .object [], _, before, rest, _ => by
    rw [tokens, scanFrom_cons_spell .openBrace trivial (by simp),
      scanFrom_cons_spell .closeBrace trivial (by simp)]
    rfl
  | .object ((k, d) :: ms), hd, before, rest, _ => by
    obtain ⟨hd, hms⟩ := hd
    rw [tokens, scanFrom_cons_spell .openBrace trivial (by simp),
      scanFrom_cons_spell (.text k) trivial (by simp),
      scanFrom_cons_spell .colon trivial (by simp), List.flatMap_append, List.append_assoc,
      scanFrom_tokens d hd _ (endsNumber_memberTokens ms rest), scanFrom_memberTokens ms hms]
    simp
  | .broken, hd, _, _, _ => hd.elim

theorem scanFrom_itemTokens : (ds : List Doc) → ItemsSpelled ds →
    ∀ (before : List Token) (rest : List Char),
      Token.scanFrom before ((itemTokens ds).flatMap Token.spell ++ rest) =
        Token.scanFrom ((itemTokens ds).reverse ++ before) rest
  | [], _, before, rest => by
    rw [itemTokens, scanFrom_cons_spell .closeBracket trivial (by simp)]
    rfl
  | d :: ds, hds, before, rest => by
    obtain ⟨hd, hds⟩ := hds
    rw [itemTokens, scanFrom_cons_spell .comma trivial (by simp), List.flatMap_append,
      List.append_assoc, scanFrom_tokens d hd _ (endsNumber_itemTokens ds rest),
      scanFrom_itemTokens ds hds]
    simp

theorem scanFrom_memberTokens : (ms : List Member) → MembersSpelled ms →
    ∀ (before : List Token) (rest : List Char),
      Token.scanFrom before ((memberTokens ms).flatMap Token.spell ++ rest) =
        Token.scanFrom ((memberTokens ms).reverse ++ before) rest
  | [], _, before, rest => by
    rw [memberTokens, scanFrom_cons_spell .closeBrace trivial (by simp)]
    rfl
  | (k, d) :: ms, hms, before, rest => by
    obtain ⟨hd, hms⟩ := hms
    rw [memberTokens, scanFrom_cons_spell .comma trivial (by simp),
      scanFrom_cons_spell (.text k) trivial (by simp),
      scanFrom_cons_spell .colon trivial (by simp), List.flatMap_append, List.append_assoc,
      scanFrom_tokens d hd _ (endsNumber_memberTokens ms rest), scanFrom_memberTokens ms hms]
    simp

end

/-- An array that goes on with a document is not empty. -/
theorem readValue_openBracket (stack : List Open) (d : Doc) (ts : List Token) :
    readValue stack (.openBracket :: (d.tokens ++ ts)) =
      readValue (.items [] :: stack) (d.tokens ++ ts) := by
  cases d with
  | array ds => cases ds <;> simp [tokens, readValue]
  | object ms => cases ms <;> simp [tokens, readValue]
  | _ => simp [tokens, readValue]

mutual

/-- A document is built from its tokens, inside whatever containers it stands. -/
theorem readValue_tokens : (d : Doc) → d.Spelled → ∀ (stack : List Open) (ts : List Token),
    readValue stack (d.tokens ++ ts) = readNext stack d ts
  | .null, _, stack, ts => by simp [tokens, readValue]
  | .flag b, _, stack, ts => by simp [tokens, readValue]
  | .number l, _, stack, ts => by simp [tokens, readValue]
  | .text s, _, stack, ts => by simp [tokens, readValue]
  | .array [], _, stack, ts => by simp [tokens, readValue]
  | .array (d :: ds), hd, stack, ts => by
    obtain ⟨hd, hds⟩ := hd
    rw [tokens, List.cons_append, List.append_assoc, readValue_openBracket, readValue_tokens d hd,
      readNext_itemTokens ds hds]
    rfl
  | .object [], _, stack, ts => by simp [tokens, readValue]
  | .object ((k, d) :: ms), hd, stack, ts => by
    obtain ⟨hd, hms⟩ := hd
    simp only [tokens, List.cons_append, List.append_assoc, readValue]
    rw [readValue_tokens d hd, readNext_memberTokens ms hms]
    rfl
  | .broken, hd, _, _ => hd.elim

theorem readNext_itemTokens : (ds : List Doc) → ItemsSpelled ds →
    ∀ (before : List Doc) (stack : List Open) (d : Doc) (ts : List Token),
      readNext (.items before :: stack) d (itemTokens ds ++ ts) =
        readNext stack (.array (before.reverse ++ d :: ds)) ts
  | [], _, before, stack, d, ts => by simp [itemTokens, readNext]
  | e :: ds, hds, before, stack, d, ts => by
    obtain ⟨he, hds⟩ := hds
    simp only [itemTokens, List.cons_append, List.append_assoc, readNext]
    rw [readValue_tokens e he, readNext_itemTokens ds hds]
    simp

theorem readNext_memberTokens : (ms : List Member) → MembersSpelled ms →
    ∀ (before : List Member) (name : Option String) (stack : List Open) (d : Doc)
      (ts : List Token),
      readNext (.member before name :: stack) d (memberTokens ms ++ ts) =
        readNext stack (.object (before.reverse ++ (name, d) :: ms)) ts
  | [], _, before, name, stack, d, ts => by simp [memberTokens, readNext]
  | (k, e) :: ms, hms, before, name, stack, d, ts => by
    obtain ⟨he, hms⟩ := hms
    simp only [memberTokens, List.cons_append, List.append_assoc, readNext]
    rw [readValue_tokens e he, readNext_memberTokens ms hms]
    simp

end

/-- The text of a document is read as the document, and nothing is left of it. -/
theorem parse_print {d : Doc} (h : d.Spelled) : parse d.print = (d, false) := by
  have hscan := scanFrom_tokens d h [] endsNumber_nil
  have hread := readValue_tokens d h [] []
  simp only [List.append_nil] at hscan hread
  simp [parse, ofTokens, Token.scan, print, hscan, Token.scanFrom, hread, readNext]

end Doc
end FleetWatch.Json
