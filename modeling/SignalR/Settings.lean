/-
SignalR/Settings.lean

From the builder calls of the caller to the requests of a client's whole life.  The closure
given to `connect_with` calls builders on the configuration (`configure`).  With it the
client negotiates and opens its first socket, and does so again for every attempt of every
reconnect cycle.

A builder overwrites one part of the configuration, so each part is what the last call for
it left there (`Overwrites.foldl`).  What a request says does not depend on when it is made
(`life_requests`).
-/
import SignalR.Credentials

namespace SignalR

open HttpClient

/-! ### Builders -/

/-- A call on a `ConnectionConfiguration`. -/
inductive Setting
  | withPort (port : Int)
  | withHub (hub : String)
  | secure
  | unsecure
  | authenticateBasic (user : String) (password : Option String)
  | authenticateBearer (token : String)
  | skipNegotiation
  | withProtocol (protocol : Protocol)
  | withDeferredMessageCapacity (capacity : Nat)
  | withAutoReconnect
  | withoutAutoReconnect
  | withReconnectDelays (initialDelay maxDelay : Duration)
  | withMaxReconnectAttempts (maxAttempts : Nat)
  | withUnlimitedReconnectAttempts
  deriving DecidableEq

namespace Setting

/-- The bodies of the builders. -/
def apply (c : ConnectionConfiguration) : Setting → ConnectionConfiguration
  | withPort port => { c with port := some port }
  | withHub hub => { c with hub }
  | secure => { c with secure := true }
  | unsecure => { c with secure := false }
  | authenticateBasic user password => { c with authentication := .basic user password }
  | authenticateBearer token => { c with authentication := .bearer token }
  | skipNegotiation => { c with skipNegotiation := true }
  | withProtocol protocol => { c with protocol }
  | withDeferredMessageCapacity capacity => { c with deferredMessageCapacity := capacity }
  | withAutoReconnect => { c with reconnect := { c.reconnect with enabled := true } }
  | withoutAutoReconnect => { c with reconnect := { c.reconnect with enabled := false } }
  | withReconnectDelays initialDelay maxDelay =>
      { c with reconnect := { c.reconnect with
          toReconnectDelays := .withReconnectDelays initialDelay maxDelay } }
  | withMaxReconnectAttempts maxAttempts =>
      { c with reconnect := { c.reconnect with maxAttempts := some maxAttempts } }
  | withUnlimitedReconnectAttempts =>
      { c with reconnect := { c.reconnect with maxAttempts := none } }

/-- The credentials that a call sets. -/
def authentication : Setting → Option Authentication
  | authenticateBasic user password => some (.basic user password)
  | authenticateBearer token => some (.bearer token)
  | _ => none

/-- The switch that a call sets. -/
def enabled : Setting → Option Bool
  | withAutoReconnect => some true
  | withoutAutoReconnect => some false
  | _ => none

/-- The delays that a call sets. -/
def delays : Setting → Option ReconnectDelays
  | withReconnectDelays initialDelay maxDelay => some (.withReconnectDelays initialDelay maxDelay)
  | _ => none

/-- The attempts that a call allows. -/
def attempts : Setting → Option (Option Nat)
  | withMaxReconnectAttempts maxAttempts => some (some maxAttempts)
  | withUnlimitedReconnectAttempts => some none
  | _ => none

end Setting

/-- The configuration after the closure. -/
def configure (domain hub : String) (settings : List Setting) : ConnectionConfiguration :=
  settings.foldl Setting.apply (.new domain hub)

/-- The last of the values that were set, or the one it began with. -/
def lastSet {α : Type} (read : Setting → Option α) (default : α) (settings : List Setting) : α :=
  (settings.filterMap read).getLast?.getD default

section

variable {σ ι τ : Type} {f : σ → ι → σ} {get : σ → τ} {read : ι → Option τ}

/-- A step overwrites a part of the state, or leaves it. -/
def Overwrites (f : σ → ι → σ) (get : σ → τ) (read : ι → Option τ) : Prop :=
  ∀ s i, get (f s i) = (read i).getD (get s)

/-- The part is what the last step to overwrite it left there. -/
theorem Overwrites.foldl (h : Overwrites f get read) (l : List ι) (s : σ) :
    get (l.foldl f s) = (l.filterMap read).getLast?.getD (get s) := by
  induction l generalizing s with
  | nil => rfl
  | cons i l ih =>
      rw [List.foldl_cons, ih, h s i]
      rcases hi : read i with - | t
      · rw [List.filterMap_cons_none hi, Option.getD_none]
      · rw [List.filterMap_cons_some hi, List.getLast?_cons, Option.getD_some, Option.getD_some]

end

theorem overwrites_authentication :
    Overwrites Setting.apply ConnectionConfiguration.authentication Setting.authentication := by
  intro c i
  cases i with
  | _ => rfl

theorem overwrites_enabled :
    Overwrites Setting.apply (fun c => c.reconnect.enabled) Setting.enabled := by
  intro c i
  cases i with
  | _ => rfl

theorem overwrites_delays :
    Overwrites Setting.apply (fun c => c.reconnect.toReconnectDelays) Setting.delays := by
  intro c i
  cases i with
  | _ => rfl

theorem overwrites_attempts :
    Overwrites Setting.apply (fun c => c.reconnect.maxAttempts) Setting.attempts := by
  intro c i
  cases i with
  | _ => rfl

variable {domain hub : String} {settings : List Setting}

theorem authentication_configure :
    (configure domain hub settings).authentication
      = lastSet Setting.authentication .none settings :=
  overwrites_authentication.foldl settings (.new domain hub)

theorem enabled_configure :
    (configure domain hub settings).reconnect.enabled = lastSet Setting.enabled false settings :=
  overwrites_enabled.foldl settings (.new domain hub)

theorem delays_configure :
    (configure domain hub settings).reconnect.toReconnectDelays
      = lastSet Setting.delays .default settings :=
  overwrites_delays.foldl settings (.new domain hub)

theorem maxAttempts_configure :
    (configure domain hub settings).reconnect.maxAttempts
      = lastSet Setting.attempts none settings :=
  overwrites_attempts.foldl settings (.new domain hub)

/-- Whatever is called, the delays stay ordered. -/
theorem delays_lastSet_le :
    (lastSet Setting.delays .default settings).initialDelay.nanos
      ≤ (lastSet Setting.delays .default settings).maxDelay.nanos := by
  rw [lastSet]
  rcases hlast : (settings.filterMap Setting.delays).getLast? with - | d
  · exact ReconnectDelays.default_le
  · obtain ⟨i, -, hi⟩ := List.mem_filterMap.mp (List.mem_of_getLast? hlast)
    cases i with
    | withReconnectDelays initialDelay maxDelay =>
        obtain rfl := Option.some.inj hi
        exact ReconnectDelays.withReconnectDelays_le initialDelay maxDelay
    | _ => simp [Setting.delays] at hi

/-! ### One attempt -/

namespace HttpClient

/-- A request of the client, as far as it depends on the configuration. -/
structure HttpRequest where
  method : String
  url : String
  authorization : Option String
  deriving DecidableEq

/-- The server during one attempt, and what lies between it and the client. -/
structure Server where
  /-- The rest of `post`. -/
  post : HttpRequest → Except String NegotiateResponseV0
  /-- The rest of `connect_socket`. -/
  connectSocket : HttpRequest → Except String Unit

variable (E : Engine)

/-- The request of `post`. -/
def postRequest (endpoint : String) (authentication : Authentication) : HttpRequest where
  method := "POST"
  url := endpoint
  authorization := authorizationHeader E authentication

/-- The request of `connect_socket`. -/
def upgradeRequest (configuration : ConnectionData) : HttpRequest where
  method := "GET"
  url := configuration.endpoint
  authorization := authorizationHeader E configuration.authentication

/-- `negotiate` with this server. -/
def negotiated (server : Server) (options : ConnectionConfiguration) :
    Except String ConnectionData :=
  negotiate (fun endpoint authentication => server.post (postRequest E endpoint authentication))
    options

/-- The requests of `negotiate`. -/
def negotiationRequests (options : ConnectionConfiguration) : List HttpRequest :=
  if options.skipNegotiation then []
  else [postRequest E (options.getWebUrl ++ "/negotiate?negotiateVersion=1")
    options.authentication]

/-- The requests of one attempt. -/
def attemptRequests (server : Server) (options : ConnectionConfiguration) : List HttpRequest :=
  negotiationRequests E options ++
    match negotiated E server options with
    | .ok configuration => [upgradeRequest E configuration]
    | .error _ => []

/-- What becomes of one attempt. -/
def attemptOutcome (server : Server) (options : ConnectionConfiguration) : AttemptOutcome :=
  match negotiated E server options with
  | .error e => .negotiationFails e
  | .ok configuration =>
      match server.connectSocket (upgradeRequest E configuration) with
      | .error e => .socketFails e
      | .ok () => .succeeds

/-- `connect_internal`, up to the configuration that the client keeps. -/
def connectInternal (server : Server) (options : ConnectionConfiguration) :
    Except String ConnectionData := do
  let configuration ← negotiated E server options
  server.connectSocket (upgradeRequest E configuration)
  pure configuration

/-- What a negotiation ends with. -/
theorem negotiated_eq_ok {server : Server} {options : ConnectionConfiguration}
    {data : ConnectionData} (h : negotiated E server options = .ok data) :
    data.authentication = options.authentication ∧ data.sourceConfiguration = options ∧
      ((options.skipNegotiation = true ∧
          ((∃ token, options.authentication = .bearer token ∧
              data.endpoint = options.getSocketUrl ++ "?access_token=" ++ token) ∨
            (∀ token, options.authentication ≠ .bearer token) ∧
              data.endpoint = options.getSocketUrl)) ∨
        options.skipNegotiation = false ∧
          ∃ response, server.post (postRequest E
              (options.getWebUrl ++ "/negotiate?negotiateVersion=1") options.authentication)
                = .ok response ∧
            data.endpoint = options.getSocketUrl ++ "?id="
              ++ response.connectionToken.getD response.connectionId) := by
  rw [negotiated, negotiate] at h
  split at h
  · rename_i hskip
    obtain rfl := Except.ok.inj h
    refine ⟨rfl, rfl, .inl ⟨hskip, ?_⟩⟩
    rcases options.authentication with - | ⟨user, password⟩ | token
    · exact .inr ⟨by simp, rfl⟩
    · exact .inr ⟨by simp, rfl⟩
    · exact .inl ⟨token, rfl, rfl⟩
  · rename_i hskip
    rcases hpost : server.post (postRequest E
        (options.getWebUrl ++ "/negotiate?negotiateVersion=1") options.authentication)
      with e | response
    · rw [hpost] at h
      exact absurd h (by simp [bind, Except.bind])
    · rw [hpost] at h
      rcases hcreate : createConfiguration options.getSocketUrl response options.protocol
          options.authentication options with - | data'
      · exact absurd h (by simp [bind, Except.bind, hcreate])
      · obtain rfl : data' = data := by simpa [bind, Except.bind, hcreate] using h
        obtain ⟨hendpoint, -, hauth, hsource⟩ := createConfiguration_eq_some hcreate
        exact ⟨hauth, hsource, .inr ⟨by simpa using hskip, response, rfl, hendpoint⟩⟩

/-- The negotiation request of a client with this configuration. -/
def IsNegotiation (options : ConnectionConfiguration) (r : HttpRequest) : Prop :=
  options.skipNegotiation = false ∧ r.method = "POST" ∧
    r.url = options.getWebUrl ++ "/negotiate?negotiateVersion=1"

/-- A websocket request of a client with this configuration: the bearer token, or the id
that the server gave, is its parameter. -/
def IsUpgrade (options : ConnectionConfiguration) (r : HttpRequest) : Prop :=
  r.method = "GET" ∧
    ((options.skipNegotiation = true ∧
        ((∃ token, options.authentication = .bearer token ∧
            r.url = options.getSocketUrl ++ "?access_token=" ++ token) ∨
          (∀ token, options.authentication ≠ .bearer token) ∧ r.url = options.getSocketUrl)) ∨
      options.skipNegotiation = false ∧ ∃ id, r.url = options.getSocketUrl ++ "?id=" ++ id)

/-- The requests of an attempt go to the configured server with the configured
credentials. -/
theorem mem_attemptRequests {server : Server} {options : ConnectionConfiguration}
    {r : HttpRequest} (h : r ∈ attemptRequests E server options) :
    r.authorization = authorizationHeader E options.authentication ∧
      (IsNegotiation options r ∨ IsUpgrade options r) := by
  rw [attemptRequests, List.mem_append] at h
  rcases h with h | h
  · rw [negotiationRequests] at h
    split at h
    · simp at h
    · rename_i hskip
      obtain rfl := List.mem_singleton.mp h
      exact ⟨rfl, .inl ⟨by simpa using hskip, rfl, rfl⟩⟩
  · rcases hdata : negotiated E server options with e | data
    · simp [hdata] at h
    · rw [hdata] at h
      obtain rfl := List.mem_singleton.mp h
      obtain ⟨hauth, -, hurl⟩ := negotiated_eq_ok E hdata
      refine ⟨by rw [upgradeRequest, hauth], .inr ⟨rfl, ?_⟩⟩
      rcases hurl with hurl | ⟨hskip, response, -, hurl⟩
      · exact .inl hurl
      · exact .inr ⟨hskip, _, hurl⟩

/-! ### The reconnect cycles -/

variable {p : TimedPolicy} {outcome : Nat → AttemptOutcome} {attempt : Nat} {s : Reconnect}

/-- The loop after at most `fuel` turns, whether it has returned or not. -/
def turns (p : TimedPolicy) (outcome : Nat → AttemptOutcome) :
    (fuel : Nat) → (attempt : Nat) → Reconnect → Reconnect
  | 0, _, s => s
  | fuel + 1, attempt, s =>
      match iteration p (outcome attempt) attempt s with
      | .returned t => t
      | .again t => turns p outcome fuel (attempt + 1) t

/-- With enough turns it is the state that the loop returns. -/
theorem turns_of_reconnectFrom {fuel : Nat} {t : Reconnect}
    (h : reconnectFrom p outcome fuel attempt s = some t) : turns p outcome fuel attempt s = t := by
  induction fuel generalizing attempt s with
  | zero => simp [reconnectFrom] at h
  | succ fuel ih =>
      rw [reconnectFrom] at h
      rw [turns]
      rcases hturn : iteration p (outcome attempt) attempt s with u | u
      · rw [hturn] at h
        exact Option.some.inj h
      · rw [hturn] at h
        exact ih h

/-- Neither a wait nor an attempt is among the events. -/
def Quiet (events : List CycleEvent) : Prop :=
  ∀ e ∈ events, (∀ d, e ≠ .slept d) ∧ ∀ k, e ≠ .attempted k

theorem quiet_nil : Quiet [] := by
  simp [Quiet]

theorem Quiet.append {l r : List CycleEvent} (hl : Quiet l) (hr : Quiet r) : Quiet (l ++ r) := by
  intro e he
  rcases List.mem_append.mp he with he | he
  · exact hl e he
  · exact hr e he

theorem events_store (s : Reconnect) (state : ConnectionState) :
    ∃ ending, (s.store state).events = s.events ++ ending ∧ Quiet ending := by
  rw [Reconnect.store]
  split
  · exact ⟨[], (List.append_nil _).symm, quiet_nil⟩
  · exact ⟨[.stored state], rfl, by simp [Quiet]⟩

theorem events_callHandler (s : Reconnect) :
    ∃ ending, s.callHandler.events = s.events ++ ending ∧ Quiet ending := by
  rw [Reconnect.callHandler]
  split
  · exact ⟨[.handlerCalled], rfl, by simp [Quiet]⟩
  · exact ⟨[], (List.append_nil _).symm, quiet_nil⟩

/-- The rest of a turn that makes its attempt. -/
def afterAttempt (p : TimedPolicy) (o : AttemptOutcome) (attempt : Nat) (s : Reconnect) : Turn :=
  match o with
  | .negotiationFails _ => .again (s.begin p attempt)
  | .socketFails _ => .again (s.begin p attempt).takeGeneration
  | .succeeds => .returned (((s.begin p attempt).takeGeneration.store
      (.connected s.nextGeneration)).callHandler)

/-- What a turn leaves in the trace: no attempt, at the end of the loop, or one within the
cap. -/
theorem iteration_events (p : TimedPolicy) (o : AttemptOutcome) (attempt : Nat) (s : Reconnect) :
    (∃ t ending, iteration p o attempt s = .returned t ∧ t.events = s.events ++ ending ∧
      Quiet ending) ∨
    p.exhausted attempt = false ∧
      ((∃ t ending, iteration p o attempt s = .returned t ∧
          t.events = s.events ++ attemptEvents p attempt ++ ending ∧ Quiet ending) ∨
        ∃ t, iteration p o attempt s = .again t ∧
          t.events = s.events ++ attemptEvents p attempt) := by
  by_cases hshutdown : s.shutdown = true
  · refine .inl ⟨s, [], ?_, (List.append_nil _).symm, quiet_nil⟩
    rw [iteration, if_pos hshutdown]
  by_cases hexhausted : p.exhausted attempt = true
  · obtain ⟨ending, hevents, hquiet⟩ := events_store s .notConnected
    refine .inl ⟨_, ending, ?_, hevents, hquiet⟩
    rw [iteration, if_neg hshutdown, if_pos hexhausted]
  -- the flag is still down after the sleep
  have hturn : iteration p o attempt s = afterAttempt p o attempt s := by
    rw [iteration, if_neg hshutdown, if_neg hexhausted]
    show (if s.shutdown = true then _ else _) = _
    rw [if_neg hshutdown]
    rfl
  refine .inr ⟨by simpa using hexhausted, ?_⟩
  cases o with
  | negotiationFails error => exact .inr ⟨_, hturn, Reconnect.events_begin⟩
  | socketFails error => exact .inr ⟨_, hturn, Reconnect.events_begin⟩
  | succeeds =>
      obtain ⟨stored, hstored, hquiet⟩ := events_store (s.begin p attempt).takeGeneration
        (.connected s.nextGeneration)
      obtain ⟨called, hcalled, hquiet'⟩ := events_callHandler
        ((s.begin p attempt).takeGeneration.store (.connected s.nextGeneration))
      refine .inl ⟨_, stored ++ called, hturn, ?_, hquiet.append hquiet'⟩
      rw [hcalled, hstored, ← List.append_assoc]
      show (s.begin p attempt).events ++ stored ++ called = _
      rw [Reconnect.events_begin]

theorem attemptsEvents_succ (attempt n : Nat) :
    attemptsEvents p attempt (n + 1)
      = attemptEvents p attempt ++ attemptsEvents p (attempt + 1) n := by
  rw [attemptsEvents, List.range'_succ, List.flatMap_cons, attemptsEvents]

/-- What the loop leaves in the trace: its attempts, each after its wait and all of them
within the cap. -/
theorem turns_events (p : TimedPolicy) (outcome : Nat → AttemptOutcome) (attempt : Nat)
    (s : Reconnect) (fuel : Nat) :
    ∃ n ending, (turns p outcome fuel attempt s).events
        = s.events ++ attemptsEvents p attempt n ++ ending ∧ Quiet ending ∧
      ∀ k ∈ List.range' attempt n, p.exhausted k = false := by
  induction fuel generalizing attempt s with
  | zero =>
      refine ⟨0, [], ?_, quiet_nil, by simp⟩
      simp [turns, attemptsEvents]
  | succ fuel ih =>
      rw [turns]
      rcases iteration_events p (outcome attempt) attempt s with
        ⟨t, ending, hturn, hevents, hquiet⟩ |
        ⟨hcap, ⟨t, ending, hturn, hevents, hquiet⟩ | ⟨t, hturn, hevents⟩⟩
      · refine ⟨0, ending, ?_, hquiet, by simp⟩
        simp [hturn, hevents, attemptsEvents]
      · refine ⟨1, ending, ?_, hquiet, by simpa using hcap⟩
        rw [hturn]
        show t.events = _
        rw [hevents, attemptsEvents_succ]
        simp [attemptsEvents]
      · obtain ⟨n, ending, hrest, hquiet, hrange⟩ := ih (attempt + 1) t
        refine ⟨n + 1, ending, ?_, hquiet, ?_⟩
        · rw [hturn]
          show (turns p outcome fuel (attempt + 1) t).events = _
          rw [hrest, hevents, attemptsEvents_succ, ← List.append_assoc]
        · intro k hk
          rw [List.range'_succ, List.mem_cons] at hk
          rcases hk with rfl | hk
          · exact hcap
          · exact hrange k hk

/-! ### A whole life -/

/-- What is seen of a client from outside. -/
inductive Activity
  | waited (d : Duration)
  | requested (r : HttpRequest)

/-- A reconnect cycle: what the loop finds when it begins, the server at each attempt, how
many turns are looked at, and how much is seen of them before the client is shut down. -/
structure Cycle where
  start : Reconnect
  server : Nat → Server
  fuel : Nat
  seen : Nat
  fresh : start.events = []

/-- What is seen of an event of the loop. -/
def activities (server : Nat → Server) (options : ConnectionConfiguration) :
    CycleEvent → List Activity
  | .slept d => [.waited d]
  | .attempted k => (attemptRequests E (server k) options).map .requested
  | .stored _ => []
  | .handlerCalled => []

/-- What is seen of a cycle. -/
def Cycle.activities (c : Cycle) (options : ConnectionConfiguration) : List Activity :=
  let events := (turns options.reconnect (fun k => attemptOutcome E (c.server k) options)
    c.fuel 1 c.start).events
  (events.flatMap (HttpClient.activities E c.server options)).take c.seen

/-- What is seen of a client that is connected with these options: one attempt, and then the
cycles, for which the options are those of the configuration that it keeps. -/
def life (options : ConnectionConfiguration) (first : Server) (cycles : List Cycle) :
    List Activity :=
  (attemptRequests E first options).map .requested ++
    match connectInternal E first options with
    | .ok configuration =>
        let options := configuration.sourceConfiguration
        if options.reconnect.enabled then cycles.flatMap (·.activities E options) else []
    | .error _ => []

/-- One attempt of a cycle, seen from outside. -/
def attemptActivities (server : Nat → Server) (options : ConnectionConfiguration) (k : Nat) :
    List Activity :=
  .waited (options.reconnect.delayForAttempt k) ::
    (attemptRequests E (server k) options).map .requested

theorem flatMap_activities_quiet {server : Nat → Server} {options : ConnectionConfiguration}
    {events : List CycleEvent} (h : Quiet events) :
    events.flatMap (activities E server options) = [] := by
  rw [List.flatMap_eq_nil_iff]
  intro e he
  cases e with
  | slept d => exact absurd rfl ((h _ he).1 d)
  | attempted k => exact absurd rfl ((h _ he).2 k)
  | stored state => rfl
  | handlerCalled => rfl

/-- A cycle is a row of attempts within the cap, or the beginning of one. -/
theorem Cycle.activities_prefix (c : Cycle) (options : ConnectionConfiguration) :
    ∃ n, c.activities E options
        <+: (List.range' 1 n).flatMap (attemptActivities E c.server options) ∧
      ∀ cap, options.reconnect.maxAttempts = some cap → n ≤ cap := by
  obtain ⟨n, ending, hevents, hquiet, hrange⟩ := turns_events options.reconnect
    (fun k => attemptOutcome E (c.server k) options) 1 c.start c.fuel
  refine ⟨n, ?_, ?_⟩
  · have hrow : (attemptsEvents options.reconnect 1 n).flatMap
          (HttpClient.activities E c.server options)
        = (List.range' 1 n).flatMap (attemptActivities E c.server options) := by
      rw [attemptsEvents, List.flatMap_assoc]
      congr 1
      funext k
      exact congrArg _ (List.append_nil _)
    rw [← hrow, Cycle.activities, hevents, c.fresh, List.nil_append, List.flatMap_append,
      flatMap_activities_quiet E hquiet, List.append_nil]
    exact List.take_prefix ..
  · intro cap hcap
    by_contra hlt
    have hmem : n ∈ List.range' 1 n := List.mem_range'_1.mpr (by omega)
    have hlast := hrange n hmem
    rw [exhausted_of_cap hcap, decide_eq_false_iff_not] at hlast
    omega

/-- The client keeps the options it was connected with. -/
theorem connectInternal_eq_ok {server : Server} {options : ConnectionConfiguration}
    {data : ConnectionData} (h : connectInternal E server options = .ok data) :
    data.sourceConfiguration = options := by
  rw [connectInternal] at h
  rcases hdata : negotiated E server options with e | data'
  · simp [hdata, bind, Except.bind] at h
  · rw [hdata] at h
    rcases hsocket : server.connectSocket (upgradeRequest E data') with e | u
    · simp [hsocket, bind, Except.bind] at h
    · obtain rfl : data' = data := by simpa [hsocket, bind, Except.bind, pure, Except.pure] using h
      exact (negotiated_eq_ok E hdata).2.1

/-- A request of a cycle is one of an attempt. -/
theorem mem_cycle {c : Cycle} {options : ConnectionConfiguration} {r : HttpRequest}
    (h : .requested r ∈ c.activities E options) :
    ∃ k, r ∈ attemptRequests E (c.server k) options := by
  obtain ⟨n, hbegins, -⟩ := c.activities_prefix E options
  obtain ⟨k, -, hk⟩ := List.mem_flatMap.mp (hbegins.subset h)
  simp only [attemptActivities, List.mem_cons, reduceCtorEq, false_or, List.mem_map,
    Activity.requested.injEq, exists_eq_right] at hk
  exact ⟨k, hk⟩

/-- A request of a life is one of an attempt with the same options. -/
theorem mem_life {options : ConnectionConfiguration} {first : Server} {cycles : List Cycle}
    {r : HttpRequest} (h : .requested r ∈ life E options first cycles) :
    ∃ server, r ∈ attemptRequests E server options := by
  rw [life, List.mem_append] at h
  rcases h with h | h
  · simp only [List.mem_map, Activity.requested.injEq, exists_eq_right] at h
    exact ⟨first, h⟩
  · rcases hdata : connectInternal E first options with e | data
    · simp [hdata] at h
    · rw [hdata] at h
      replace h : .requested r ∈ if data.sourceConfiguration.reconnect.enabled = true then
          cycles.flatMap (·.activities E data.sourceConfiguration) else [] := h
      rw [connectInternal_eq_ok E hdata] at h
      split at h
      · obtain ⟨c, -, hc⟩ := List.mem_flatMap.mp h
        obtain ⟨k, hk⟩ := mem_cycle E hc
        exact ⟨_, hk⟩
      · simp at h

/-- The first wait is the initial delay, if the cap allows it. -/
theorem delayForAttempt_one {d : ReconnectDelays} (h : d.initialDelay.nanos ≤ d.maxDelay.nanos) :
    d.delayForAttempt 1 = d.initialDelay := by
  have hnanos : (d.delayForAttempt 1).nanos = d.initialDelay.nanos := by
    rw [ReconnectDelays.nanos_delayForAttempt, show multiplier 1 = 1 from rfl, Nat.mul_one]
    exact Nat.min_eq_left h
  rcases hd : d.delayForAttempt 1 with ⟨nanos, hle⟩
  rcases hi : d.initialDelay with ⟨nanos', hle'⟩
  rw [hd, hi] at hnanos
  obtain rfl : nanos = nanos' := hnanos
  rfl

/-- **The requests of a whole life.**  Whatever builders the caller calls, and whatever the
server answers at whichever attempt,

* every request of the client, the first ones and those of all reconnect cycles, goes to the
  configured server, and the server sees the credentials of the last call that set some;
* there are no reconnect cycles unless the last switch turned them on;
* a cycle is a row of attempts, each after its wait and no more than the last cap allows, or
  the beginning of one; the first wait is the configured initial delay, and none is longer
  than the configured maximum. -/
theorem life_requests (domain hub : String) (settings : List Setting) (first : Server)
    (cycles : List Cycle) :
    let options := configure domain hub settings
    let delays := lastSet Setting.delays .default settings
    (∀ r, .requested r ∈ life E options first cycles →
      readAuthorization E r.authorization
          = some (lastSet Setting.authentication .none settings).seen ∧
        (IsNegotiation options r ∨ IsUpgrade options r)) ∧
    (lastSet Setting.enabled false settings = false →
      life E options first cycles = (attemptRequests E first options).map .requested) ∧
    (∀ c ∈ cycles, ∃ n, c.activities E options <+: (List.range' 1 n).flatMap (fun k =>
        .waited (delays.delayForAttempt k) ::
          (attemptRequests E (c.server k) options).map .requested) ∧
      ∀ cap, lastSet Setting.attempts none settings = some cap → n ≤ cap) ∧
    delays.delayForAttempt 1 = delays.initialDelay ∧
    ∀ k, (delays.delayForAttempt k).nanos ≤ delays.maxDelay.nanos := by
  intro options delays
  refine ⟨?_, ?_, ?_, delayForAttempt_one delays_lastSet_le, ?_⟩
  · intro r hr
    obtain ⟨server, hmem⟩ := mem_life E hr
    obtain ⟨hauth, hurl⟩ := mem_attemptRequests E hmem
    rw [hauth, readAuthorization_header, authentication_configure]
    exact ⟨rfl, hurl⟩
  · intro hoff
    rw [life]
    rcases hdata : connectInternal E first options with e | data
    · exact List.append_nil _
    · show _ ++ (if data.sourceConfiguration.reconnect.enabled = true then _ else _) = _
      rw [connectInternal_eq_ok E hdata, if_neg, List.append_nil]
      rw [enabled_configure, hoff]
      decide
  · intro c _
    obtain ⟨n, hbegins, hcap⟩ := c.activities_prefix E options
    refine ⟨n, ?_, fun cap hset => hcap cap ?_⟩
    · have hdelays : options.reconnect.toReconnectDelays = delays := delays_configure
      rw [← hdelays]
      exact hbegins
    · rw [maxAttempts_configure, hset]
  · intro k
    rw [ReconnectDelays.nanos_delayForAttempt]
    exact Nat.min_le_right ..

end HttpClient

end SignalR
