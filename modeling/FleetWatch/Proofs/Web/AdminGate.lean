import FleetWatch.Proofs.Text.Blank
import FleetWatch.Web.Router

/-!
# The gate

A request for a page of the administrators is let through exactly when its first `authorization`
header presents their token: the scheme, in any case, a space, and the token with blanks around it
at most. So a token that begins or ends with a blank is never presented. A request that is let
through is answered as if there were no gate; any other is refused, and its refusal says nothing of
the hub.

## Main definitions

* `Net.isReadable`: the characters that a header can be read with.
* `Web.Presents`: a header presents a token.
* `Web.Request.IsGuarded`: the request is for a page of the administrators.
-/
namespace FleetWatch

open Text

/-! ## Texts as bytes -/

theorem toList_loop_eq (bs : ByteArray) (i : Nat) (read : List UInt8) :
    ByteArray.toList.loop bs i read = read.reverse ++ bs.data.toList.drop i := by
  fun_induction ByteArray.toList.loop bs i read with
  | case1 i read hi ih =>
    have hlength : i < bs.data.toList.length := by simpa using hi
    rw [ih, List.reverse_cons, List.append_assoc, List.drop_eq_getElem_cons hlength]
    simp [ByteArray.get!, getElem!_pos bs.data i hi]
  | case2 i read hi =>
    have hlength : bs.data.toList.length ≤ i := by simpa using hi
    rw [List.drop_eq_nil_of_le hlength, List.append_nil]

theorem toList_toUTF8 (s : String) :
    s.toUTF8.toList = s.toList.flatMap String.utf8EncodeChar := by
  rw [ByteArray.toList, toList_loop_eq, String.toUTF8_eq_toByteArray, ← String.utf8Encode_toList,
    List.utf8Encode, List.toList_data_toByteArray]
  rfl

namespace Net

/-- A header can be read with the character: it is visible and of one byte, a space or a tab. -/
def isReadable (c : Char) : Bool := (32 ≤ c.toNat && c.toNat < 127) || c.toNat = 9

theorem readable_ofNat {n : Nat} (h : n < 256) :
    ((32 ≤ UInt8.ofNat n && UInt8.ofNat n < 127) || UInt8.ofNat n = 9) =
      ((32 ≤ n && n < 127) || decide (n = 9)) := by
  simp [UInt8.le_iff_toNat_le, UInt8.lt_iff_toNat_lt, ← UInt8.toNat_inj, Nat.mod_eq_of_lt h]

theorem not_readable {n : Nat} (h : 127 ≤ n) : ((32 ≤ n && n < 127) || decide (n = 9)) = false := by
  simp
  omega

/-- A header can be read with all bytes of a character, or not with the first of them. -/
theorem all_utf8EncodeChar (c : Char) :
    (String.utf8EncodeChar c).all (fun b => (32 ≤ b && b < 127) || b = 9) = isReadable c := by
  have hvalue : c.toNat = c.val.toNat := rfl
  rw [isReadable, hvalue]
  unfold String.utf8EncodeChar
  dsimp only
  split
  · rw [List.all_cons, List.all_nil, Bool.and_true, readable_ofNat (by omega)]
  · next hlarge =>
    rw [not_readable (n := c.val.toNat) (by omega)]
    split
    · rw [List.all_cons, readable_ofNat (by omega), not_readable (by omega), Bool.false_and]
    · split <;>
        rw [List.all_cons, readable_ofNat (by omega), not_readable (by omega), Bool.false_and]

theorem toNat_lt_of_isReadable {c : Char} (h : isReadable c = true) : c.toNat < 127 := by
  simp only [isReadable, Bool.or_eq_true, Bool.and_eq_true, decide_eq_true_eq] at h
  omega

theorem utf8EncodeChar_of_isReadable {c : Char} (h : isReadable c = true) :
    String.utf8EncodeChar c = [UInt8.ofNat c.toNat] :=
  if_pos (Nat.le_of_lt (toNat_lt_of_isReadable h))

theorem chars_utf8Encode {cs : List Char} (h : cs.all isReadable = true) :
    (cs.flatMap String.utf8EncodeChar).map (fun b => Char.ofNat b.toNat) = cs := by
  induction cs with
  | nil => rfl
  | cons c cs ih =>
    obtain ⟨hc, hcs⟩ := Bool.and_eq_true_iff.mp (List.all_cons ▸ h)
    have hbyte : c.toNat < UInt8.size := Nat.lt_trans (toNat_lt_of_isReadable hc) (by decide)
    rw [List.flatMap_cons, List.map_append, ih hcs, utf8EncodeChar_of_isReadable hc,
      List.map_singleton, UInt8.toNat_ofNat_of_lt' hbyte, Char.ofNat_toNat, List.singleton_append]

/-- The bytes of a text are read as the text if a header can be read with its characters. -/
theorem text?_toUTF8 (s : String) :
    HeaderValue.text? s.toUTF8.toList = if s.toList.all isReadable then some s else none := by
  rw [HeaderValue.text?, toList_toUTF8, List.all_flatMap]
  simp only [all_utf8EncodeChar]
  split
  · next hall => rw [chars_utf8Encode hall, String.ofList_toList]
  · rfl

end Net

/-! ## What a header presents -/

namespace Web

/-- The value of a header presents the token: it is the scheme, in any case, a space and the token
between blanks, where the token is not empty and has no blanks at its own ends. -/
def Presents (value token : String) : Prop :=
  token ≠ "" ∧ IsTrimmed token ∧ ∃ scheme before after : List Char,
    scheme.map Char.toLower = "bearer".toList ∧
    (∀ c ∈ before, isBlank c = true) ∧ (∀ c ∈ after, isBlank c = true) ∧
    value.toList = scheme ++ ' ' :: (before ++ token.toList ++ after)

/-- There is no space in the scheme. -/
theorem ne_space_of_scheme {scheme : List Char} (h : scheme.map Char.toLower = "bearer".toList)
    {c : Char} (hc : c ∈ scheme) : c ≠ ' ' := by
  rintro rfl
  have hspace : ' ' ∈ "bearer".toList := h ▸ List.mem_map_of_mem hc
  exact absurd hspace (by decide)

theorem takeWhile_append_space {scheme : List Char} (h : ∀ c ∈ scheme, c ≠ ' ')
    (rest : List Char) :
    (scheme ++ ' ' :: rest).takeWhile (· ≠ ' ') = scheme ∧
      (scheme ++ ' ' :: rest).dropWhile (· ≠ ' ') = ' ' :: rest := by
  constructor
  · rw [List.takeWhile_append_of_pos (by simpa using h)]
    simp
  · rw [List.dropWhile_append_of_pos (by simpa using h)]
    simp

theorem head_of_dropWhile_space {cs rest : List Char} {c : Char}
    (h : cs.dropWhile (· ≠ ' ') = c :: rest) : c = ' ' := by
  have hsome : cs.dropWhile (· ≠ ' ') ≠ [] := h ▸ List.cons_ne_nil c rest
  have hhead : (cs.dropWhile (· ≠ ' ')).head hsome = c := by simp only [h, List.head_cons]
  have hstop := List.head_dropWhile_not (· ≠ ' ') hsome
  rw [hhead] at hstop
  simpa using hstop

/-- What a value presents follows the first space, without blanks at its ends. -/
theorem presents_iff {value token : String} :
    Presents value token ↔
      (value.toList.takeWhile (· ≠ ' ')).map Char.toLower = "bearer".toList ∧ token ≠ "" ∧
      ∃ rest, value.toList.dropWhile (· ≠ ' ') = ' ' :: rest ∧
        trim (String.ofList rest) = token := by
  constructor
  · rintro ⟨hsome, htrimmed, scheme, before, after, hscheme, hbefore, hafter, hvalue⟩
    obtain ⟨htake, hdrop⟩ := takeWhile_append_space (fun c hc => ne_space_of_scheme hscheme hc)
      (before ++ token.toList ++ after)
    rw [hvalue, htake, hdrop]
    exact ⟨hscheme, hsome, _, rfl,
      trim_eq_iff.mpr ⟨htrimmed, before, after, hbefore, hafter, String.toList_ofList⟩⟩
  · rintro ⟨hscheme, hsome, rest, hrest, htoken⟩
    obtain ⟨htrimmed, before, after, hbefore, hafter, hmiddle⟩ := trim_eq_iff.mp htoken
    refine ⟨hsome, htrimmed, _, before, after, hscheme, hbefore, hafter, ?_⟩
    rw [← hmiddle, String.toList_ofList, ← hrest, List.takeWhile_append_dropWhile]

/-- A value presents one token at most. -/
theorem Presents.unique {value token token' : String} (h : Presents value token)
    (h' : Presents value token') : token' = token := by
  obtain ⟨-, -, rest, hrest, rfl⟩ := presents_iff.mp h
  obtain ⟨-, -, rest', hrest', rfl⟩ := presents_iff.mp h'
  rw [hrest, List.cons.injEq] at hrest'
  rw [hrest'.2]

theorem presents_iff_forall {value token : String} :
    Presents value token ↔ ∀ presented, Presents value presented ↔ presented = token :=
  ⟨fun h _ => ⟨h.unique, fun heq => heq ▸ h⟩, fun h => (h token).mpr rfl⟩

/-- The token of a request is the one that its first header presents, if that can be read. -/
theorem bearerToken_eq_ok_iff {headers : Net.Headers} {token : String} :
    bearerToken headers = .ok token ↔
      ∃ value, headers.readable? "authorization" = some value ∧ Presents value token := by
  rw [bearerToken]
  cases headers.readable? "authorization" with
  | none => simp
  | some value =>
    simp only [Option.some.injEq, exists_eq_left', presents_iff]
    cases hdrop : value.toList.dropWhile (· ≠ ' ') with
    | nil => simp
    | cons c rest =>
      obtain rfl := head_of_dropWhile_space hdrop
      simp only [List.cons.injEq, true_and, exists_eq_left']
      split
      · next hpresented =>
        obtain ⟨hscheme, hsome⟩ := Bool.and_eq_true_iff.mp hpresented
        constructor
        · intro h
          obtain rfl := Except.ok.inj h
          exact ⟨of_decide_eq_true hscheme, by simpa using hsome, rfl⟩
        · rintro ⟨-, -, rfl⟩
          rfl
      · next hpresented =>
        constructor
        · intro h
          cases h
        · rintro ⟨hscheme, hsome, rfl⟩
          refine absurd (Bool.and_eq_true_iff.mpr ⟨decide_eq_true hscheme, ?_⟩) hpresented
          simpa using hsome

theorem letThrough_eq_ok_iff {token : String} {headers : Net.Headers} :
    letThrough token headers = .ok () ↔ bearerToken headers = .ok token := by
  rw [letThrough]
  cases bearerToken headers with
  | error e => simp
  | ok presented =>
    by_cases h : token = presented
    · simp [h]
    · simp [h, Ne.symm h]

/-- The scheme, a space and a token present just that token, if it is not empty and has no blanks at
its ends. -/
theorem presents_bearer_iff {token : String} :
    Presents ("Bearer " ++ token) token ↔ token ≠ "" ∧ IsTrimmed token := by
  constructor
  · rintro ⟨hsome, htrimmed, -⟩
    exact ⟨hsome, htrimmed⟩
  · rintro ⟨hsome, htrimmed⟩
    exact ⟨hsome, htrimmed, "Bearer".toList, [], [], by decide, by simp, by simp, by simp⟩

/-- A header with the scheme, a space and a token can be read if the token can. -/
theorem text?_bearer (token : String) :
    Net.HeaderValue.text? ("Bearer " ++ token).toUTF8.toList =
      if token.toList.all Net.isReadable then some ("Bearer " ++ token) else none := by
  have hscheme : "Bearer ".toList.all Net.isReadable = true := by decide
  rw [Net.text?_toUTF8, String.toList_append, List.all_append, hscheme, Bool.true_and]

/-! ## The pages behind the gate -/

/-- The request is for a page of the administrators, with a method of that page. -/
def Request.IsGuarded (r : Request) : Prop :=
  ∃ page, Page.ofPath? r.path = some page ∧ page.isGuarded = true ∧ page.allows r.method = true

/-- What is seen of an answer on such a page. -/
def Response.seen (a : Response) (settings : WebSettings) (m : Method) : Response :=
  { (if m = .head then a.withoutBody else a) with anyOrigin := settings.cors }

section Gate
variable {settings : WebSettings} {token : String} {page : Page} {h : Hub} {now : Time.Instant}
  {r : Request}

theorem gateRefusal?_eq_none_iff (htoken : settings.adminToken = some token)
    (hguarded : page.isGuarded = true) :
    gateRefusal? settings page r = none ↔ letThrough token r.headers = .ok () := by
  rw [gateRefusal?, htoken]
  simp only [hguarded, if_true]
  cases letThrough token r.headers <;> simp

/-- Only what is got can be looked up. -/
theorem Page.isGot_of_head (hallows : page.allows .head = true) : page.isGot = true :=
  (Bool.and_eq_true_iff.mp hallows).1

/-- What is seen of a page is the answer behind its gate. -/
theorem respond_of_isGuarded (hpath : Page.ofPath? r.path = some page)
    (hallows : page.allows r.method = true) :
    respond settings h now r =
      ((guardedResponse settings h now r page).1.map (Response.seen · settings r.method),
        (guardedResponse settings h now r page).2) := by
  have hasked : ¬ (settings.cors && r.method = .options) = true := by
    intro hoptions
    have hmethod : r.method = .options := by
      simpa using (Bool.and_eq_true_iff.mp hoptions).2
    rw [hmethod] at hallows
    cases hallows
  rw [respond, if_neg hasked, routeResponse, hpath]
  by_cases hmethod : r.method = .head
  · have hgot : page.isGot = true := Page.isGot_of_head (hmethod ▸ hallows)
    simp [hgot, hmethod, Response.seen, Option.map_map, Function.comp_def]
  · simp [hmethod, Response.seen]

/-- A request that is let through is answered as if there were no gate. -/
theorem respond_of_letThrough (htoken : settings.adminToken = some token) (hguarded : r.IsGuarded)
    (hthrough : letThrough token r.headers = .ok ()) :
    respond settings h now r = respond { settings with adminToken := none } h now r := by
  obtain ⟨page, hpath, hpage, hallows⟩ := hguarded
  rw [respond_of_isGuarded hpath hallows, respond_of_isGuarded hpath hallows, guardedResponse,
    (gateRefusal?_eq_none_iff htoken hpage).mpr hthrough]
  rfl

/-- A refused request has a response of its own, whatever the hub is like. -/
theorem respond_of_refused {e : GateRefusal} (htoken : settings.adminToken = some token)
    (hguarded : r.IsGuarded) (hrefused : letThrough token r.headers = .error e) :
    respond settings h now r = (some ((Response.ofRefusal e).seen settings r.method), h) := by
  obtain ⟨page, hpath, hpage, hallows⟩ := hguarded
  have hgate : gateRefusal? settings page r = some e := by
    simp [gateRefusal?, htoken, hpage, hrefused]
  rw [respond_of_isGuarded hpath hallows, guardedResponse, hgate]
  rfl

theorem Response.status_seen_ofRefusal (settings : WebSettings) (e : GateRefusal) (m : Method) :
    ((Response.ofRefusal e).seen settings m).status ∈ [401, 403] := by
  by_cases hmethod : m = .head <;> cases e <;> simp [hmethod, seen, ofRefusal, withoutBody,
    GateRefusal.status]

/-- The gate before the pages of the administrators. A request is let through exactly when its first
header can be read and presents their token, and then it is answered as if there were no gate. Any
other is refused, by a response that is the same for all hubs, times, paths, queries and bodies, and
the hub stays as it is. The scheme, a space and the token are let through exactly when the token is
not empty, has no blanks at its ends and can be read. -/
theorem gate_decides_by_token (settings : WebSettings) (token : String) (h : Hub)
    (now : Time.Instant) (r : Request) (htoken : settings.adminToken = some token)
    (hguarded : r.IsGuarded) :
    (letThrough token r.headers = .ok () ↔
      ∃ value, r.headers.readable? "authorization" = some value ∧
        ∀ presented, Presents value presented ↔ presented = token) ∧
    (letThrough token r.headers = .ok () →
      respond settings h now r = respond { settings with adminToken := none } h now r) ∧
    (letThrough token r.headers ≠ .ok () →
      ∃ response : Response, response.status ∈ [401, 403] ∧
        ∀ (h' : Hub) (now' : Time.Instant) (r' : Request), r'.IsGuarded → r'.method = r.method →
          r'.headers = r.headers → respond settings h' now' r' = (some response, h')) ∧
    (r.headers.first? "authorization" = some ("Bearer " ++ token).toUTF8.toList →
      (letThrough token r.headers = .ok () ↔
        token ≠ "" ∧ IsTrimmed token ∧ token.toList.all Net.isReadable = true)) := by
  have hthrough : letThrough token r.headers = .ok () ↔
      ∃ value, r.headers.readable? "authorization" = some value ∧ Presents value token :=
    letThrough_eq_ok_iff.trans bearerToken_eq_ok_iff
  refine ⟨?_, respond_of_letThrough htoken hguarded, fun hrefused => ?_, fun hfirst => ?_⟩
  · simp only [← presents_iff_forall]
    exact hthrough
  · cases hgate : letThrough token r.headers with
    | ok _ => exact absurd hgate hrefused
    | error e =>
      refine ⟨_, Response.status_seen_ofRefusal settings e r.method,
        fun h' now' r' hguarded' hmethod hheaders => ?_⟩
      rw [← hmethod]
      exact respond_of_refused htoken hguarded' (hheaders ▸ hgate)
  · rw [hthrough, Net.Headers.readable?, hfirst, Option.bind_some, text?_bearer]
    by_cases hall : token.toList.all Net.isReadable = true
    · rw [if_pos hall]
      simp only [Option.some.injEq, exists_eq_left', presents_bearer_iff, hall, and_true]
    · rw [if_neg hall]
      simp [hall]

end Gate

/-- Settings with a token for the administrators. -/
def gated (token : String) : WebSettings := ⟨⟨.v4 0 0 0 0, 3001, 0⟩, some token, false⟩

def emptyHub : Hub where
  settings := ⟨.ofSeconds 30, 16, 64, false, none⟩
  directory := .new [] []

/-- A request for history with the scheme, a space and the token. -/
def presenting (token : String) : Request where
  method := .get
  path := "/api/servers/a/history"
  query := ""
  headers := [("authorization", ("Bearer " ++ token).toUTF8.toList)]

theorem isGuarded_presenting (token : String) : (presenting token).IsGuarded := by
  refine ⟨.history "a", ?_, rfl, rfl⟩
  change Page.ofPath? "/api/servers/a/history" = some (.history "a")
  decide

/-- A request with the token is let through. -/
theorem secret_is_let_through :
    (gated "secret").adminToken = some "secret" ∧ (presenting "secret").IsGuarded ∧
    letThrough "secret" (presenting "secret").headers = .ok () ∧
    respond (gated "secret") emptyHub .epoch (presenting "secret") =
      respond { gated "secret" with adminToken := none } emptyHub .epoch (presenting "secret") := by
  have hguarded := isGuarded_presenting "secret"
  obtain ⟨-, hanswered, -, hpresented⟩ := gate_decides_by_token (gated "secret") "secret" emptyHub
    .epoch (presenting "secret") rfl hguarded
  have hthrough := (hpresented rfl).mpr ⟨by decide, by decide, by decide⟩
  exact ⟨rfl, hguarded, hthrough, hanswered hthrough⟩

/-- A token that begins with a blank is refused even where it is all that follows the scheme and a
space. -/
theorem blank_at_front_is_refused :
    (gated " secret").adminToken = some " secret" ∧ (presenting " secret").IsGuarded ∧
    (presenting " secret").headers.first? "authorization" =
      some ("Bearer " ++ " secret").toUTF8.toList ∧
    " secret".toList.all Net.isReadable = true ∧
    gateRefusal? (gated " secret") (.history "a") (presenting " secret") = some .invalidToken ∧
    (respond (gated " secret") emptyHub .epoch (presenting " secret")).1.map Response.status =
      some 403 := by
  refine ⟨rfl, isGuarded_presenting _, rfl, by decide, ?_, ?_⟩
  · decide +kernel
  · decide +kernel

end Web
end FleetWatch
