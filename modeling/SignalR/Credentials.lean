/-
SignalR/Credentials.lean

`HttpClient::authorization_header`: the credentials of a configuration as the text of one
header, and what a server reads in it.  A server finds the user of Basic authentication in
front of the first `:`, and takes the blanks around a field value for no part of it.

So it sees other credentials than those given when the user name contains a `:`, when there
is no password, or when a token begins or ends with a blank (`authorization_round_trip`).

The base64 crate is the parameter `Engine`; `Engine.standard` is the library
`SignalR/Base64.lean`.
-/
import Mathlib.Data.List.DropRight
import SignalR.Base64
import SignalR.Negotiation

namespace SignalR

namespace HttpClient

/-- `general_purpose::STANDARD`, which only the letters of its alphabet come out of. -/
structure Engine where
  encodeString : List UInt8 → String
  decode : String → Option (List UInt8)
  decode_encode : ∀ bytes, decode (encodeString bytes) = some bytes
  visible : ∀ bytes, ∀ c ∈ (encodeString bytes).toList, 33 ≤ c.toNat ∧ c.toNat ≤ 126

/-- The engine with the standard alphabet and padding. -/
def Engine.standard : Engine where
  encodeString bytes := .ofList (Base64.encode bytes)
  decode text := Base64.decode text.toList
  decode_encode bytes := by
    show Base64.decode (String.ofList _).toList = _
    rw [String.toList_ofList, Base64.decode_encode]
  visible bytes c hc := by
    rw [String.toList_ofList] at hc
    exact (Base64.isCode_of_mem_encode hc).visible

variable (E : Engine)

/-- `basic_auth`. -/
def basicAuth (username : String) (password : Option String) : String :=
  let ret := match password with
    | some password => E.encodeString (asBytes (username ++ ":" ++ password))
    | none => E.encodeString (asBytes (username ++ ":"))
  "Basic " ++ ret

/-- `authorization_header`. -/
def authorizationHeader : Authentication → Option String
  | .none => none
  | .basic user password => some (basicAuth E user password)
  | .bearer token => some ("Bearer " ++ token)

/-! ### What a server reads -/

/-- A blank in a header. -/
def isBlank (c : Char) : Bool :=
  c == ' ' || c == '\t'

/-- A text without the blanks at its two ends. -/
def trim (l : List Char) : List Char :=
  (l.dropWhile isBlank).rdropWhile isBlank

/-- The text in front of the first `:` and the text behind it. -/
def userAndPassword (l : List Char) : Authentication :=
  .basic (.ofList (l.takeWhile (· != ':'))) (some (.ofList ((l.dropWhile (· != ':')).drop 1)))

/-- The credentials of the Basic scheme. -/
def readBasic (code : List Char) : Option Authentication := do
  let bytes ← E.decode (.ofList code)
  let text ← fromUtf8 bytes
  if ':' ∈ text.toList then some (userAndPassword text.toList) else none

/-- The credentials in a request: the scheme is the first word of the header, and what
follows it is read by the scheme. -/
def readAuthorization : Option String → Option Authentication
  | none => some .none
  | some header =>
      let scheme := header.toList.takeWhile (!isBlank ·)
      let value := trim (header.toList.dropWhile (!isBlank ·))
      if scheme = "Basic".toList then readBasic E value
      else if scheme = "Bearer".toList then some (.bearer (.ofList value))
      else none

end HttpClient

open HttpClient

namespace Authentication

/-- What the server takes the credentials for. -/
def seen : Authentication → Authentication
  | .none => .none
  | .basic user password => userAndPassword (user.toList ++ ':' :: (password.getD "").toList)
  | .bearer token => .bearer (.ofList (trim token.toList))

/-- The credentials that a header carries as they are. -/
def Plain : Authentication → Prop
  | .none => True
  | .basic user password => ':' ∉ user.toList ∧ password.isSome = true
  | .bearer token => ∀ h : token.toList ≠ [],
      isBlank (token.toList.head h) = false ∧ isBlank (token.toList.getLast h) = false

end Authentication

namespace HttpClient

variable (E : Engine)

/-! ### Blanks -/

theorem trim_blank_cons {c : Char} (hc : isBlank c = true) (l : List Char) :
    trim (c :: l) = trim l := by
  rw [trim, List.dropWhile_cons_of_pos hc, trim]

/-- A text is trimmed if it has no blank at either end. -/
theorem trim_eq_self_iff {l : List Char} :
    trim l = l ↔ ∀ h : l ≠ [], isBlank (l.head h) = false ∧ isBlank (l.getLast h) = false := by
  constructor
  · intro heq hne
    have hlength : l.length ≤ (l.dropWhile isBlank).length := by
      calc l.length = (trim l).length := by rw [heq]
        _ ≤ _ := (List.rdropWhile_prefix isBlank _).length_le
    have hdrop : l.dropWhile isBlank = l :=
      (List.dropWhile_suffix isBlank).eq_of_length_le hlength
    rw [trim, hdrop] at heq
    constructor
    · have hfirst := List.dropWhile_eq_self_iff.mp hdrop (List.length_pos_of_ne_nil hne)
      rw [List.head_eq_getElem]
      exact Bool.eq_false_iff.mpr hfirst
    · exact Bool.eq_false_iff.mpr (List.rdropWhile_eq_self_iff.mp heq hne)
  · intro h
    have hdrop : l.dropWhile isBlank = l := by
      apply List.dropWhile_eq_self_iff.mpr
      intro hpos
      have hfirst := (h (List.ne_nil_of_length_pos hpos)).1
      rw [List.head_eq_getElem] at hfirst
      exact Bool.eq_false_iff.mp hfirst
    rw [trim, hdrop]
    exact List.rdropWhile_eq_self_iff.mpr fun hne => Bool.eq_false_iff.mp (h hne).2

/-- What is left after trimming has no blank at its ends. -/
theorem trim_trim (l : List Char) : trim (trim l) = trim l := by
  rw [trim_eq_self_iff]
  intro hne
  have hbegins : trim l <+: l.dropWhile isBlank := List.rdropWhile_prefix isBlank _
  have hlast := List.rdropWhile_last_not isBlank (l.dropWhile isBlank) hne
  rw [hbegins.head hne]
  exact ⟨List.head_dropWhile_not isBlank _, Bool.eq_false_iff.mpr hlast⟩

/-- A visible character is no blank. -/
theorem isBlank_of_visible {c : Char} (h : 33 ≤ c.toNat) : isBlank c = false := by
  have hne : ∀ d : Char, d.toNat < 33 → (c == d) = false := by
    intro d hd
    rw [beq_eq_false_iff_ne]
    rintro rfl
    omega
  rw [isBlank, hne ' ' (by decide), hne '\t' (by decide)]
  rfl

/-- The names of the schemes. -/
theorem scheme_visible {scheme : List Char}
    (h : scheme = "Basic".toList ∨ scheme = "Bearer".toList) :
    ∀ c ∈ scheme, 33 ≤ c.toNat ∧ c.toNat ≤ 126 := by
  have hall : scheme.all (fun c => 33 ≤ c.toNat && c.toNat ≤ 126) = true := by
    rcases h with rfl | rfl
    · rfl
    · rfl
  simpa using hall

theorem trim_visible {l : List Char} (h : ∀ c ∈ l, 33 ≤ c.toNat) : trim l = l := by
  rw [trim_eq_self_iff]
  intro hne
  exact ⟨isBlank_of_visible (h _ (List.head_mem hne)),
    isBlank_of_visible (h _ (List.getLast_mem hne))⟩

/-! ### The round trip -/

/-- The text in front of the first `:` and behind it, put together again. -/
theorem userAndPassword_append {user : List Char} (hu : ':' ∉ user) (password : List Char) :
    userAndPassword (user ++ ':' :: password)
      = .basic (.ofList user) (some (.ofList password)) := by
  have hall := UrlQuery.all_ne_of_not_mem hu
  rw [userAndPassword, UrlQuery.takeWhile_append_cons hall (by simp),
    UrlQuery.dropWhile_append_cons hall (by simp), List.drop_one, List.tail_cons]

/-- The credentials that Basic authentication encodes. -/
theorem basicAuth_eq (user : String) (password : Option String) :
    basicAuth E user password
      = "Basic " ++ E.encodeString (asBytes (user ++ ":" ++ password.getD "")) := by
  rcases password with - | password
  · show "Basic " ++ E.encodeString (asBytes (user ++ ":")) = _
    rw [Option.getD_none, String.append_empty]
  · rfl

/-- The words of a header. -/
theorem readAuthorization_append (scheme : List Char)
    (hs : scheme = "Basic".toList ∨ scheme = "Bearer".toList) (value : List Char)
    (header : String) (hh : header.toList = scheme ++ ' ' :: value) :
    readAuthorization E (some header)
      = if scheme = "Basic".toList then readBasic E (trim value)
        else if scheme = "Bearer".toList then some (.bearer (.ofList (trim value)))
        else none := by
  have hall : ∀ c ∈ scheme, (!isBlank c) = true := by
    intro c hc
    rw [isBlank_of_visible (scheme_visible hs c hc).1]
    rfl
  rw [readAuthorization, hh, UrlQuery.takeWhile_append_cons hall rfl,
    UrlQuery.dropWhile_append_cons hall rfl, trim_blank_cons rfl]

/-- What is encoded for the Basic scheme is read back. -/
theorem readBasic_encodeString {text : String} (h : ':' ∈ text.toList) :
    readBasic E (trim (E.encodeString (asBytes text)).toList)
      = some (userAndPassword text.toList) := by
  rw [trim_visible fun c hc => (E.visible _ c hc).1, readBasic, String.ofList_toList,
    E.decode_encode]
  show (fromUtf8 (asBytes text)).bind _ = _
  rw [fromUtf8_asBytes]
  show (if ':' ∈ text.toList then _ else _) = _
  rw [if_pos h]

/-- The header of Basic authentication in words. -/
theorem toList_basicAuth (user : String) (password : Option String) :
    (basicAuth E user password).toList = "Basic".toList ++
      ' ' :: (E.encodeString (asBytes (user ++ ":" ++ password.getD ""))).toList := by
  rw [basicAuth_eq, String.toList_append]
  rfl

/-- What the server makes of the header. -/
theorem readAuthorization_header (a : Authentication) :
    readAuthorization E (authorizationHeader E a) = some a.seen := by
  cases a with
  | none => rfl
  | basic user password =>
      have htext : (user ++ ":" ++ password.getD "").toList
          = user.toList ++ ':' :: (password.getD "").toList := by
        rw [String.toList_append, String.toList_append, List.append_assoc]
        rfl
      have hmem : ':' ∈ (user ++ ":" ++ password.getD "").toList := by
        rw [htext]
        exact List.mem_append_right _ List.mem_cons_self
      rw [authorizationHeader, readAuthorization_append E "Basic".toList (.inl rfl) _ _
        (toList_basicAuth E user password), if_pos rfl, readBasic_encodeString E hmem, htext]
      rfl
  | bearer token =>
      have hheader : ("Bearer " ++ token).toList = "Bearer".toList ++ ' ' :: token.toList := by
        rw [String.toList_append]
        rfl
      rw [authorizationHeader, readAuthorization_append E "Bearer".toList (.inr rfl) _ _ hheader,
        if_neg (by decide), if_pos rfl]
      rfl

end HttpClient

namespace Authentication

/-- The credentials that are seen as they are. -/
theorem seen_eq_self_iff (a : Authentication) : a.seen = a ↔ a.Plain := by
  cases a with
  | none => exact iff_of_true rfl trivial
  | basic user password =>
      constructor
      · intro heq
        obtain ⟨huser, hpassword⟩ := Authentication.basic.inj heq
        refine ⟨fun hmem => ?_, ?_⟩
        · -- what stands in front of the first `:` has none
          rw [← huser, String.toList_ofList] at hmem
          simpa using List.mem_takeWhile_imp hmem
        · rw [← hpassword]
          rfl
      · rintro ⟨huser, hsome⟩
        obtain ⟨password, rfl⟩ := Option.isSome_iff_exists.mp hsome
        rw [seen, userAndPassword_append huser, Option.getD_some, String.ofList_toList,
          String.ofList_toList]
  | bearer token =>
      rw [Plain, ← trim_eq_self_iff, seen]
      constructor
      · intro heq
        calc trim token.toList = (String.ofList (trim token.toList)).toList := by
              rw [String.toList_ofList]
          _ = token.toList := by rw [Authentication.bearer.inj heq]
      · intro heq
        rw [heq, String.ofList_toList]

/-- What the server sees, used again, is seen as it is. -/
theorem plain_seen (a : Authentication) : a.seen.Plain := by
  cases a with
  | none => trivial
  | basic user password =>
      refine ⟨fun hmem => ?_, rfl⟩
      rw [String.toList_ofList] at hmem
      simpa using List.mem_takeWhile_imp hmem
  | bearer token =>
      rw [seen, Plain, ← trim_eq_self_iff, String.toList_ofList]
      exact trim_trim _

end Authentication

namespace HttpClient

variable (E : Engine)

/-- **The credentials on their way to the server.**  Whatever base64 engine is used, a
server reads the header without an error; it sees the credentials as they were given if
and only if they are plain, and otherwise others that are; and with Basic authentication
the header has visible characters and blanks only, so it stays one header. -/
theorem authorization_round_trip (a : Authentication) :
    readAuthorization E (authorizationHeader E a) = some a.seen ∧ a.seen.Plain ∧
      (readAuthorization E (authorizationHeader E a) = some a ↔ a.Plain) ∧
      ∀ user password, a = .basic user password → ∀ header, authorizationHeader E a = some header →
        ∀ c ∈ header.toList, 32 ≤ c.toNat ∧ c.toNat ≤ 126 := by
  refine ⟨readAuthorization_header E a, a.plain_seen, ?_, ?_⟩
  · rw [readAuthorization_header, Option.some_inj]
    exact a.seen_eq_self_iff
  · rintro user password rfl header hheader c hc
    obtain rfl := Option.some.inj hheader
    rw [toList_basicAuth, List.mem_append, List.mem_cons] at hc
    rcases hc with hc | rfl | hc
    · have h := scheme_visible (.inl rfl) c hc
      omega
    · decide
    · have h := E.visible _ c hc
      omega

example : basicAuth .standard "Aladdin" (some "open sesame")
    = "Basic QWxhZGRpbjpvcGVuIHNlc2FtZQ==" := by
  decide

end HttpClient

end SignalR
