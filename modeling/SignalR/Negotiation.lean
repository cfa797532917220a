/-
SignalR/Negotiation.lean

`HttpClient::negotiate`: from a configuration to the endpoint of the websocket, with
`post`, the request to the server, as a parameter.

The answer of the server lists transports with their transfer formats.  The code looks
at the first transport named `WebSockets` alone, so an offer that a later entry of that
name makes is missed (`createConfiguration_iff`).

The token goes into the endpoint as it is.  A token with characters that have a meaning
in a query, such as the `+` that is legal in a bearer token, is read back as something
else (`endpoint_parameters_iff`).
-/
import SignalR.Cycles
import SignalR.Handshake
import SignalR.UrlQuery

namespace SignalR

open UrlQuery

/-! ### The configuration -/

/-- `Authentication`. -/
inductive Authentication
  | none
  | basic (user : String) (password : Option String)
  | bearer (token : String)
  deriving DecidableEq

/-- `ReconnectPolicy::disabled`. -/
def TimedPolicy.disabled : TimedPolicy where
  enabled := false
  toReconnectDelays := .default
  maxAttempts := none

/-- `ConnectionConfiguration`; the port is an `i32`. -/
structure ConnectionConfiguration where
  secure : Bool
  domain : String
  hub : String
  port : Option Int
  authentication : Authentication
  skipNegotiation : Bool
  protocol : Protocol
  reconnect : TimedPolicy
  deferredMessageCapacity : Nat

namespace ConnectionConfiguration

/-- `ConnectionConfiguration::new`. -/
def new (domain hub : String) : ConnectionConfiguration where
  secure := true
  domain
  hub
  port := none
  authentication := .none
  skipNegotiation := false
  protocol := .json
  reconnect := .disabled
  deferredMessageCapacity := 4096

def getHttpSchema (c : ConnectionConfiguration) : String :=
  if c.secure then "https" else "http"

def getSocketSchema (c : ConnectionConfiguration) : String :=
  if c.secure then "wss" else "ws"

def getDomain (c : ConnectionConfiguration) : String :=
  match c.port with
  | some port => c.domain ++ ":" ++ toString port
  | none => c.domain

def getWebUrl (c : ConnectionConfiguration) : String :=
  c.getHttpSchema ++ "://" ++ c.getDomain ++ "/" ++ c.hub

def getSocketUrl (c : ConnectionConfiguration) : String :=
  c.getSocketSchema ++ "://" ++ c.getDomain ++ "/" ++ c.hub

end ConnectionConfiguration

/-! ### The answer of the server -/

/-- `TransportSpec`. -/
structure TransportSpec where
  transport : String
  transferFormats : List String
  deriving DecidableEq

/-- `NegotiateResponseV0`. -/
structure NegotiateResponseV0 where
  connectionId : String
  connectionToken : Option String
  negotiateVersion : Nat
  availableTransports : List TransportSpec
  deriving DecidableEq

namespace HttpClient

/-- `ConnectionData` with all its fields. -/
structure ConnectionData extends SignalR.ConnectionData where
  connectionId : String
  authentication : Authentication
  sourceConfiguration : ConnectionConfiguration

/-- `WEB_SOCKET_TRANSPORT`. -/
def webSocketTransport : String := "WebSockets"

/-- `TEXT_TRANSPORT_FORMAT` and `BINARY_TRANSPORT_FORMAT`. -/
def transferFormat : Protocol → String
  | .json => "Text"
  | .messagePack => "Binary"

/-- The answer fits the protocol. -/
def fit (negotiate : NegotiateResponseV0) (protocol : Protocol) : Bool :=
  ((negotiate.availableTransports.find? fun i => i.transport == webSocketTransport).bind
    fun i => i.transferFormats.find? fun j => j == transferFormat protocol).isSome

/-- `create_configuration`. -/
def createConfiguration (endpoint : String) (negotiate : NegotiateResponseV0)
    (protocol : Protocol) (authentication : Authentication)
    (sourceConfiguration : ConnectionConfiguration) : Option ConnectionData :=
  if fit negotiate protocol then
    let idParam := negotiate.connectionToken.getD negotiate.connectionId
    some {
      endpoint := endpoint ++ "?id=" ++ idParam
      connectionId := negotiate.connectionId
      protocol, authentication, sourceConfiguration }
  else
    none

/-- `negotiate`. -/
def negotiate (post : String → Authentication → Except String NegotiateResponseV0)
    (options : ConnectionConfiguration) : Except String ConnectionData :=
  if options.skipNegotiation then
    let endpoint := match options.authentication with
      | .bearer token => options.getSocketUrl ++ "?access_token=" ++ token
      | _ => options.getSocketUrl
    .ok {
      endpoint
      connectionId := ""
      protocol := options.protocol
      authentication := options.authentication
      sourceConfiguration := options }
  else do
    let negotiation ← post (options.getWebUrl ++ "/negotiate?negotiateVersion=1")
      options.authentication
    match createConfiguration options.getSocketUrl negotiation options.protocol
        options.authentication options with
    | some data => .ok data
    | none => .error "The negotiation concluded no matching communication protocols"

/-! ### Which offers are taken -/

/-- Some transport named `WebSockets` offers the transfer format of the protocol. -/
def Offers (response : NegotiateResponseV0) (protocol : Protocol) : Prop :=
  ∃ i ∈ response.availableTransports,
    i.transport = webSocketTransport ∧ transferFormat protocol ∈ i.transferFormats

/-- The first transport named `WebSockets` does not offer the format, and a later one of
that name does. -/
def Shadowed (response : NegotiateResponseV0) (protocol : Protocol) : Prop :=
  ∃ before first later, response.availableTransports = before ++ first :: later ∧
    (∀ i ∈ before, i.transport ≠ webSocketTransport) ∧
    first.transport = webSocketTransport ∧ transferFormat protocol ∉ first.transferFormats ∧
    ∃ i ∈ later, i.transport = webSocketTransport ∧ transferFormat protocol ∈ i.transferFormats

section

variable {endpoint : String} {response : NegotiateResponseV0} {protocol : Protocol}
variable {authentication : Authentication} {source : ConnectionConfiguration}
variable {before later : List TransportSpec} {first : TransportSpec}

/-- The first transport named `WebSockets` decides. -/
theorem fit_append_cons (hsplit : response.availableTransports = before ++ first :: later)
    (hbefore : ∀ i ∈ before, i.transport ≠ webSocketTransport)
    (hfirst : first.transport = webSocketTransport) :
    fit response protocol = true ↔ transferFormat protocol ∈ first.transferFormats := by
  have hfind : response.availableTransports.find? (fun i => i.transport == webSocketTransport)
      = some first := by
    rw [List.find?_eq_some_iff_append]
    refine ⟨by simp [hfirst], before, later, hsplit, fun i hi => ?_⟩
    simpa using hbefore i hi
  rw [fit, hfind]
  show (List.find? _ first.transferFormats).isSome = true ↔ _
  rw [List.find?_isSome]
  constructor
  · rintro ⟨j, hj, heq⟩
    rwa [← beq_iff_eq.mp heq]
  · intro hmem
    exact ⟨_, hmem, beq_self_eq_true _⟩

/-- A transport named `WebSockets` means that there is a first one. -/
theorem exists_first {i : TransportSpec} (hi : i ∈ response.availableTransports)
    (hname : i.transport = webSocketTransport) :
    ∃ before first later, response.availableTransports = before ++ first :: later ∧
      (∀ i ∈ before, i.transport ≠ webSocketTransport) ∧ first.transport = webSocketTransport := by
  have hsome : (response.availableTransports.find?
      fun i => i.transport == webSocketTransport).isSome = true := by
    rw [List.find?_isSome]
    exact ⟨i, hi, by simp [hname]⟩
  obtain ⟨first, hfind⟩ := Option.isSome_iff_exists.mp hsome
  obtain ⟨hfirst, before, later, hsplit, hbefore⟩ := List.find?_eq_some_iff_append.mp hfind
  refine ⟨before, first, later, hsplit, fun i hi => ?_, beq_iff_eq.mp hfirst⟩
  simpa using hbefore i hi

/-- What fits was offered. -/
theorem offers_of_fit (h : fit response protocol = true) : Offers response protocol := by
  rw [fit] at h
  obtain ⟨j, hj⟩ := Option.isSome_iff_exists.mp h
  obtain ⟨i, hi, hj⟩ := Option.bind_eq_some_iff.mp hj
  refine ⟨i, List.mem_of_find?_eq_some hi, ?_, ?_⟩
  · simpa using List.find?_some hi
  · have hformat : j = transferFormat protocol := by simpa using List.find?_some hj
    rw [← hformat]
    exact List.mem_of_find?_eq_some hj

/-- **The offers that are taken** are all offers, unless one is shadowed. -/
theorem fit_iff_offers_iff :
    (fit response protocol = true ↔ Offers response protocol) ↔ ¬ Shadowed response protocol := by
  constructor
  · rintro h ⟨before, first, later, hsplit, hbefore, hfirst, hno, i, hi, hname, hformat⟩
    have hoffers : Offers response protocol :=
      ⟨i, by rw [hsplit]; exact List.mem_append_right _ (List.mem_cons_of_mem _ hi), hname, hformat⟩
    exact hno ((fit_append_cons hsplit hbefore hfirst).mp (h.mpr hoffers))
  · intro hshadow
    refine ⟨offers_of_fit, ?_⟩
    rintro ⟨i, hi, hname, hformat⟩
    obtain ⟨before, first, later, hsplit, hbefore, hfirst⟩ := exists_first hi hname
    rw [fit_append_cons hsplit hbefore hfirst]
    by_contra hno
    rw [hsplit, List.mem_append, List.mem_cons] at hi
    rcases hi with hi | rfl | hi
    · exact hbefore i hi hname
    · exact hno hformat
    · exact hshadow ⟨before, first, later, hsplit, hbefore, hfirst, hno, i, hi, hname, hformat⟩

theorem isSome_createConfiguration :
    (createConfiguration endpoint response protocol authentication source).isSome
      = fit response protocol := by
  rw [createConfiguration]
  split
  · simp [*]
  · simp [*]

/-- What a configuration is created with. -/
theorem createConfiguration_eq_some {data : ConnectionData}
    (h : createConfiguration endpoint response protocol authentication source = some data) :
    data.endpoint = endpoint ++ "?id=" ++ response.connectionToken.getD response.connectionId ∧
      data.protocol = protocol ∧ data.authentication = authentication ∧
      data.sourceConfiguration = source := by
  rw [createConfiguration] at h
  split at h
  · obtain rfl := Option.some.inj h
    exact ⟨rfl, rfl, rfl, rfl⟩
  · simp at h

end

/-- **Transport negotiation accepts exactly the usable offers**, and passes on what it is
given, if and only if the first transport named `WebSockets` shadows no later one. -/
theorem createConfiguration_iff (endpoint : String) (response : NegotiateResponseV0)
    (protocol : Protocol) (authentication : Authentication) (source : ConnectionConfiguration) :
    (((createConfiguration endpoint response protocol authentication source).isSome ↔
        Offers response protocol) ∧
      ∀ data, createConfiguration endpoint response protocol authentication source = some data →
        data.endpoint = endpoint ++ "?id=" ++ response.connectionToken.getD response.connectionId ∧
        data.protocol = protocol ∧ data.authentication = authentication ∧
        data.sourceConfiguration = source) ↔
      ¬ Shadowed response protocol := by
  rw [isSome_createConfiguration, fit_iff_offers_iff]
  exact and_iff_left fun data => createConfiguration_eq_some

/-- An answer that lists `WebSockets` twice, with one transfer format each. -/
def splitOffer : NegotiateResponseV0 where
  connectionId := "connection-id"
  connectionToken := none
  negotiateVersion := 1
  availableTransports := [⟨"WebSockets", ["Binary"]⟩, ⟨"WebSockets", ["Text"]⟩]

/-- The text format is offered and not found. -/
theorem createConfiguration_misses_offer :
    ¬ ((createConfiguration "ws://localhost/hub" splitOffer .json .none
      (.new "localhost" "hub")).isSome ↔ Offers splitOffer .json) := by
  intro h
  have hoffers : Offers splitOffer .json := by
    refine ⟨⟨"WebSockets", ["Text"]⟩, ?_, rfl, List.mem_cons_self⟩
    exact List.mem_cons_of_mem _ List.mem_cons_self
  exact absurd (h.mpr hoffers) (by decide)

/-! ### The parameter of the endpoint -/

/-- The parameter that the endpoint is to carry: the bearer token when the negotiation is
skipped, otherwise the connection token or the connection id of the answer. -/
def carried (post : String → Authentication → Except String NegotiateResponseV0)
    (options : ConnectionConfiguration) : Option (String × String) :=
  if options.skipNegotiation then
    match options.authentication with
    | .bearer token => some ("access_token", token)
    | _ => none
  else
    match post (options.getWebUrl ++ "/negotiate?negotiateVersion=1") options.authentication with
    | .ok response => some ("id", response.connectionToken.getD response.connectionId)
    | .error _ => none

/-- The digits and the sign of a port. -/
theorem not_mem_toString_port {c : Char} (hdigit : c.isDigit = false) (hsign : c ≠ '-')
    (port : Int) : c ∉ (toString port).toList := by
  have hnat : ∀ n : Nat, c ∉ (toString n).toList := by
    intro n hmem
    rw [Nat.toString_eq_repr, Nat.toList_repr] at hmem
    have hd := Nat.isDigit_of_mem_toDigits (by decide) (by decide) hmem
    rw [hdigit] at hd
    exact absurd hd nofun
  cases port with
  | ofNat n => exact hnat n
  | negSucc n =>
      show c ∉ ("-" ++ toString (n + 1)).toList
      rw [String.toList_append, List.mem_append, not_or]
      exact ⟨by simpa using hsign, hnat (n + 1)⟩

/-- Neither mark stands in what the URL is put together with. -/
theorem not_mem_literals {c : Char} (hc : c = '?' ∨ c = '#') :
    c ∉ "wss".toList ∧ c ∉ "ws".toList ∧ c ∉ "://".toList ∧ c ∉ ":".toList ∧ c ∉ "/".toList ∧
      c.isDigit = false ∧ c ≠ '-' := by
  rcases hc with rfl | rfl
  · decide
  · decide

/-- The socket URL has no `?` and no `#` other than those of the domain and the hub. -/
theorem not_mem_getSocketUrl {options : ConnectionConfiguration} {c : Char}
    (hc : c = '?' ∨ c = '#') (hdomain : c ∉ options.domain.toList)
    (hhub : c ∉ options.hub.toList) : c ∉ options.getSocketUrl.toList := by
  obtain ⟨hwss, hws, hseparator, hcolon, hslash, hdigit, hsign⟩ := not_mem_literals hc
  have hschema : c ∉ options.getSocketSchema.toList := by
    rw [ConnectionConfiguration.getSocketSchema]
    split
    · exact hwss
    · exact hws
  have hhost : c ∉ options.getDomain.toList := by
    rw [ConnectionConfiguration.getDomain]
    split
    · rename_i port _
      simp only [String.toList_append, List.mem_append, not_or]
      exact ⟨⟨hdomain, hcolon⟩, not_mem_toString_port hdigit hsign port⟩
    · exact hdomain
  simp only [ConnectionConfiguration.getSocketUrl, String.toList_append, List.mem_append, not_or]
  exact ⟨⟨⟨⟨hschema, hseparator⟩, hhost⟩, hslash⟩, hhub⟩

/-- The endpoint is the socket URL with the carried parameter behind it. -/
theorem endpoint_of_negotiate {post : String → Authentication → Except String NegotiateResponseV0}
    {options : ConnectionConfiguration} {data : ConnectionData} {name token : String}
    (hok : negotiate post options = .ok data) (hcarried : carried post options = some (name, token)) :
    (name = "access_token" ∨ name = "id") ∧ data.endpoint.toList =
      options.getSocketUrl.toList ++ '?' :: (name.toList ++ '=' :: token.toList) := by
  rw [negotiate] at hok
  rw [carried] at hcarried
  split at hok
  · rename_i hskip
    rw [if_pos hskip] at hcarried
    split at hcarried
    · rename_i token' hbearer
      obtain ⟨rfl, rfl⟩ := Prod.mk.inj (Option.some.inj hcarried)
      obtain rfl := Except.ok.inj hok
      refine ⟨Or.inl rfl, ?_⟩
      simp only [hbearer, String.toList_append, List.append_assoc]
      rfl
    · simp at hcarried
  · rename_i hskip
    rw [if_neg hskip] at hcarried
    split at hcarried
    · rename_i response hpost
      obtain ⟨rfl, rfl⟩ := Prod.mk.inj (Option.some.inj hcarried)
      rw [hpost] at hok
      replace hok : (match createConfiguration options.getSocketUrl response options.protocol
          options.authentication options with
        | some data => Except.ok data
        | none => .error "The negotiation concluded no matching communication protocols")
          = .ok data := hok
      split at hok
      · rename_i data' hcreate
        obtain rfl := Except.ok.inj hok
        obtain ⟨hendpoint, -⟩ := createConfiguration_eq_some hcreate
        refine ⟨Or.inr rfl, ?_⟩
        rw [hendpoint, String.toList_append, String.toList_append, List.append_assoc]
        rfl
      · simp at hok
    · simp at hcarried

/-- The names are read back as they are. -/
theorem verbatim_name {name : String} (h : name = "access_token" ∨ name = "id") :
    Verbatim name.toList ∧ '=' ∉ name.toList := by
  rcases h with rfl | rfl
  · exact ⟨⟨by decide, by decide, by decide, by decide⟩, by decide⟩
  · exact ⟨⟨by decide, by decide, by decide, by decide⟩, by decide⟩

/-- **The endpoint parameter survives URL parsing** if and only if nothing in the token
has a meaning in a query. -/
theorem endpoint_parameters_iff
    {post : String → Authentication → Except String NegotiateResponseV0}
    {options : ConnectionConfiguration} {data : ConnectionData} {name token : String}
    (hdomain : '?' ∉ options.domain.toList ∧ '#' ∉ options.domain.toList)
    (hhub : '?' ∉ options.hub.toList ∧ '#' ∉ options.hub.toList)
    (hok : negotiate post options = .ok data)
    (hcarried : carried post options = some (name, token)) :
    parameters data.endpoint.toList = [(asBytes name, asBytes token)] ↔ Verbatim token.toList := by
  obtain ⟨hname, hendpoint⟩ := endpoint_of_negotiate hok hcarried
  obtain ⟨hverbatim, hequals⟩ := verbatim_name hname
  rw [hendpoint]
  exact parameters_single_iff (not_mem_getSocketUrl (Or.inl rfl) hdomain.1 hhub.1)
    (not_mem_getSocketUrl (Or.inr rfl) hdomain.2 hhub.2) hverbatim hequals

/-- A configuration that skips the negotiation and has a bearer token. -/
def bearerOptions (token : String) : ConnectionConfiguration :=
  { ConnectionConfiguration.new "localhost" "hub" with
    secure := false
    port := some 5000
    authentication := .bearer token
    skipNegotiation := true }

/-- The endpoint of that configuration. -/
def bearerData (token : String) : ConnectionData where
  endpoint := (bearerOptions token).getSocketUrl ++ "?access_token=" ++ token
  protocol := .json
  connectionId := ""
  authentication := .bearer token
  sourceConfiguration := bearerOptions token

theorem endpoint_parameters_iff_letters :
    parameters (bearerData "test_token_123").endpoint.toList
        = [(asBytes "access_token", asBytes "test_token_123")] ↔
      Verbatim "test_token_123".toList :=
  have hok : negotiate (fun _ _ => .error "No host in URI") (bearerOptions "test_token_123")
      = .ok (bearerData "test_token_123") := rfl
  endpoint_parameters_iff (by decide) (by decide) hok rfl

/-- A token with a `+` in it is read back with a space. -/
theorem not_endpoint_parameters_plus :
    ¬ ∀ data, negotiate (fun _ _ => .error "No host in URI") (bearerOptions "a+b") = .ok data →
      parameters data.endpoint.toList = [(asBytes "access_token", asBytes "a+b")] := by
  intro h
  exact absurd (h _ rfl) (by decide)

end HttpClient

end SignalR
