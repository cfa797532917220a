/-
SignalR/Cycles.lean

One call of `reconnect_until_connected`, with its waits.  What the server and the
network do is an `AttemptOutcome` for every attempt; a failed negotiation takes no
generation number, a failed socket does.

`iteration` is one turn of the loop, and `reconnectFrom` the loop itself with a
bound on the turns (`none` means that it still runs).  `failures_events` says what
a row of failed attempts leaves behind; the two exits of the loop follow it.

Main results:

* `reconnect_cycle` — the waits, attempts, stores and handler calls of a cycle;
* `reconnectFrom_follows_monitor` — the reconnect monitor of the client system
  takes the same turns.
-/
import Mathlib.Data.Nat.Find
import SignalR.Backoff

namespace SignalR

open Transition

variable {V : Type}

/-! ### The loop -/

/-- `ReconnectPolicy` with all its fields. -/
structure TimedPolicy extends ReconnectPolicy, ReconnectDelays

/-- What becomes of an attempt. -/
inductive AttemptOutcome
  | negotiationFails (error : String)
  | socketFails (error : String)
  | succeeds
  deriving DecidableEq

/-- What the loop does, in order. -/
inductive CycleEvent
  | slept (d : Duration)
  | attempted (attempt : Nat)
  | stored (state : ConnectionState)
  /-- The `on_reconnected` handler was called. -/
  | handlerCalled
  deriving DecidableEq

/-- What `reconnect_until_connected` shares with the rest of the client.  A lock that
is poisoned cannot be taken.  `used`, a ghost field, are the generations handed out. -/
structure Reconnect where
  shutdown : Bool
  state : ConnectionState
  statePoisoned : Bool
  reconnectedHandler : Bool
  handlerPoisoned : Bool
  /-- `_next_generation`, short of the wrap at `usizeSize`. -/
  nextGeneration : Nat
  used : List Nat
  used_lt : ∀ g ∈ used, g < nextGeneration
  events : List CycleEvent

namespace Reconnect

def record (s : Reconnect) (e : CycleEvent) : Reconnect :=
  { s with events := s.events ++ [e] }

/-- `_next_generation.fetch_add(1)`; the number handed out is the old value. -/
def takeGeneration (s : Reconnect) : Reconnect :=
  { s with
    nextGeneration := s.nextGeneration + 1
    used := s.used ++ [s.nextGeneration]
    used_lt := by
      intro g hg
      rcases List.mem_append.mp hg with h | h
      · exact (s.used_lt g h).trans (Nat.lt_succ_self _)
      · rw [List.mem_singleton.mp h]
        exact Nat.lt_succ_self _ }

/-- `if let Ok(mut state) = shared._state.lock()`. -/
def store (s : Reconnect) (state : ConnectionState) : Reconnect :=
  if s.statePoisoned then s else { s with state }.record (.stored state)

/-- Call the `on_reconnected` handler, if there is one and its lock can be taken. -/
def callHandler (s : Reconnect) : Reconnect :=
  if s.handlerPoisoned = false ∧ s.reconnectedHandler = true then s.record .handlerCalled else s

theorem store_of_clean {s : Reconnect} (h : s.statePoisoned = false) (state : ConnectionState) :
    s.store state = { s with state }.record (.stored state) := by
  rw [store, h]
  rfl

theorem callHandler_of_clean {s : Reconnect} (h : s.handlerPoisoned = false) :
    s.callHandler = { s with
      events := s.events ++ if s.reconnectedHandler then [.handlerCalled] else [] } := by
  by_cases hr : s.reconnectedHandler = true
  · rw [callHandler, if_pos ⟨h, hr⟩, if_pos hr]
    rfl
  · rw [callHandler, if_neg (fun h' => hr h'.2), if_neg hr, List.append_nil]

end Reconnect

/-- How a turn of the loop ends. -/
inductive Turn
  | returned (s : Reconnect)
  | again (s : Reconnect)

/-- `attempt > max_attempts`, when there is a cap. -/
def ReconnectPolicy.exhausted (p : ReconnectPolicy) (attempt : Nat) : Bool :=
  match p.maxAttempts with
  | some maxAttempts => decide (attempt > maxAttempts)
  | none => false

/-- One turn of the loop, for an attempt with the given outcome. -/
def iteration (p : TimedPolicy) (outcome : AttemptOutcome) (attempt : Nat) (s : Reconnect) :
    Turn :=
  if s.shutdown then .returned s
  else if p.exhausted attempt then .returned (s.store .notConnected)
  else
    -- the flag is read again after the sleep
    let s := s.record (.slept (p.delayForAttempt attempt))
    if s.shutdown then .returned s
    else
      let s := s.record (.attempted attempt)
      match outcome with
      | .negotiationFails _ => .again s
      -- the number was taken before the socket was opened
      | .socketFails _ => .again s.takeGeneration
      | .succeeds =>
          .returned ((s.takeGeneration.store (.connected s.nextGeneration)).callHandler)

/-- The loop from an attempt on, for at most `fuel` turns. -/
def reconnectFrom (p : TimedPolicy) (outcome : Nat → AttemptOutcome) :
    (fuel : Nat) → (attempt : Nat) → Reconnect → Option Reconnect
  | 0, _, _ => none
  | fuel + 1, attempt, s =>
      match iteration p (outcome attempt) attempt s with
      | .returned t => some t
      | .again t => reconnectFrom p outcome fuel (attempt + 1) t

/-- `reconnect_until_connected`. -/
def reconnectUntilConnected (p : TimedPolicy) (outcome : Nat → AttemptOutcome) (fuel : Nat)
    (s : Reconnect) : Option Reconnect :=
  reconnectFrom p outcome fuel 1 s

/-! ### One turn -/

/-- The cycle is left alone: nobody shuts the client down, and the locks are free of
poison. -/
structure Reconnect.Undisturbed (s : Reconnect) : Prop where
  running : s.shutdown = false
  state : s.statePoisoned = false
  handler : s.handlerPoisoned = false

/-- What an attempt shows, whatever its outcome. -/
def attemptEvents (p : TimedPolicy) (attempt : Nat) : List CycleEvent :=
  [.slept (p.delayForAttempt attempt), .attempted attempt]

/-- The events of `n` attempts from a given one on. -/
def attemptsEvents (p : TimedPolicy) (attempt n : Nat) : List CycleEvent :=
  (List.range' attempt n).flatMap (attemptEvents p)

/-- The handler's share of a successful cycle. -/
def handlerEvents (s : Reconnect) : List CycleEvent :=
  if s.reconnectedHandler then [.handlerCalled] else []

section

variable {p : TimedPolicy} {o : AttemptOutcome} {attempt : Nat} {s t : Reconnect}

/-- The loop gives up: it stores `NotConnected` and calls no handler. -/
theorem iteration_exhausted (hs : s.Undisturbed) (hp : p.exhausted attempt = true) :
    iteration p o attempt s
      = .returned { s with
          state := .notConnected
          events := s.events ++ [.stored .notConnected] } := by
  rw [iteration, if_neg (by simp [hs.running]), if_pos hp, Reconnect.store_of_clean hs.state]
  rfl

/-- The sleep is over and the attempt begins. -/
def Reconnect.begin (s : Reconnect) (p : TimedPolicy) (attempt : Nat) : Reconnect :=
  (s.record (.slept (p.delayForAttempt attempt))).record (.attempted attempt)

/-- A turn below the cap is decided by the outcome of its attempt. -/
theorem iteration_attempt (hs : s.Undisturbed) (hp : p.exhausted attempt = false) :
    iteration p o attempt s =
      match o with
      | .negotiationFails _ => .again (s.begin p attempt)
      | .socketFails _ => .again (s.begin p attempt).takeGeneration
      | .succeeds => .returned (((s.begin p attempt).takeGeneration.store
          (.connected s.nextGeneration)).callHandler) := by
  rw [iteration, if_neg (by simp [hs.running]), if_neg (by simp [hp])]
  show (if s.shutdown = true then _ else _) = _
  rw [if_neg (by simp [hs.running])]
  rfl

@[simp] theorem Reconnect.events_begin :
    (s.begin p attempt).events = s.events ++ attemptEvents p attempt :=
  List.append_assoc ..

/-- A failed attempt leaves the state as it is and the numbers unused, or one more
of them used. -/
theorem iteration_fails (hs : s.Undisturbed) (hp : p.exhausted attempt = false)
    (ho : o ≠ .succeeds) :
    ∃ t, iteration p o attempt s = .again t ∧ t.Undisturbed ∧
      t.reconnectedHandler = s.reconnectedHandler ∧ s.used <+: t.used ∧
      t.events = s.events ++ attemptEvents p attempt := by
  rw [iteration_attempt hs hp]
  have hbegin : (s.begin p attempt).Undisturbed := ⟨hs.running, hs.state, hs.handler⟩
  cases o with
  | negotiationFails error =>
      exact ⟨_, rfl, hbegin, rfl, List.prefix_rfl, Reconnect.events_begin⟩
  | socketFails error =>
      refine ⟨_, rfl, ⟨hbegin.running, hbegin.state, hbegin.handler⟩, rfl, ?_, ?_⟩
      · exact List.prefix_append ..
      · exact Reconnect.events_begin
  | succeeds => exact absurd rfl ho

/-- A successful attempt stores `Connected` with a number that was not used before,
and calls the handler after that. -/
theorem iteration_succeeds (hs : s.Undisturbed) (hp : p.exhausted attempt = false) :
    ∃ t g, iteration p .succeeds attempt s = .returned t ∧ t.state = .connected g ∧
      g ∉ s.used ∧ t.used = s.used ++ [g] ∧
      t.events = s.events ++ attemptEvents p attempt ++
        .stored (.connected g) :: handlerEvents s := by
  rw [iteration_attempt hs hp]
  show ∃ t g, Turn.returned _ = .returned t ∧ _
  rw [Reconnect.store_of_clean (s := (s.begin p attempt).takeGeneration) hs.state,
    Reconnect.callHandler_of_clean (by exact hs.handler)]
  refine ⟨_, s.nextGeneration, rfl, rfl, ?_, rfl, ?_⟩
  · intro h
    exact absurd (s.used_lt _ h) (Nat.lt_irrefl _)
  · show (s.begin p attempt).events ++ [_] ++ handlerEvents s = _
    rw [Reconnect.events_begin, List.append_assoc]
    rfl

end

/-! ### The cap -/

section

variable {p : ReconnectPolicy}

theorem exhausted_of_cap {cap : Nat} (h : p.maxAttempts = some cap) (attempt : Nat) :
    p.exhausted attempt = decide (cap < attempt) := by
  rw [ReconnectPolicy.exhausted, h]

/-- The cap, if there is one, allows an attempt. -/
theorem not_exhausted {attempt : Nat} (h : ∀ cap, p.maxAttempts = some cap → attempt ≤ cap) :
    p.exhausted attempt = false := by
  rcases hc : p.maxAttempts with - | cap
  · rw [ReconnectPolicy.exhausted, hc]
  · rw [exhausted_of_cap hc]
    exact decide_eq_false (Nat.not_lt.mpr (h cap hc))

end

/-! ### The whole loop -/

section

variable {p : TimedPolicy} {outcome : Nat → AttemptOutcome} {s t : Reconnect}

/-- **The run lemma.**  A row of failed attempts takes as many turns, shows their waits
in order, and changes nothing but the numbers used. -/
theorem reconnectFrom_failures (n attempt : Nat) (hs : s.Undisturbed)
    (h : ∀ j, attempt ≤ j → j < attempt + n →
      p.exhausted j = false ∧ outcome j ≠ .succeeds) :
    ∃ t, (∀ fuel, reconnectFrom p outcome (n + fuel) attempt s
        = reconnectFrom p outcome fuel (attempt + n) t) ∧
      t.Undisturbed ∧ t.reconnectedHandler = s.reconnectedHandler ∧ s.used <+: t.used ∧
      t.events = s.events ++ attemptsEvents p attempt n := by
  induction n generalizing attempt s with
  | zero =>
      refine ⟨s, fun fuel => ?_, hs, rfl, List.prefix_rfl, ?_⟩
      · rw [Nat.zero_add, Nat.add_zero]
      · exact (List.append_nil _).symm
  | succ n ih =>
      obtain ⟨hp, ho⟩ := h attempt (Nat.le_refl _) (by omega)
      obtain ⟨u, hturn, hu, hhandler, hused, hevents⟩ := iteration_fails hs hp ho
      obtain ⟨t, hrun, ht, hhandler', hused', hevents'⟩ :=
        ih (attempt + 1) hu fun j hj hj' => h j (by omega) (by omega)
      refine ⟨t, fun fuel => ?_, ht, hhandler'.trans hhandler, hused.trans hused', ?_⟩
      · rw [show n + 1 + fuel = (n + fuel) + 1 by omega, reconnectFrom, hturn]
        show reconnectFrom p outcome (n + fuel) (attempt + 1) u = _
        rw [hrun fuel, show attempt + 1 + n = attempt + (n + 1) by omega]
      · rw [hevents', hevents, List.append_assoc]
        rfl

/-- The first success below the cap ends the cycle. -/
theorem reconnect_succeeds {k : Nat} (hs : s.Undisturbed) (hk : 1 ≤ k)
    (hsucc : outcome k = .succeeds) (hfirst : ∀ j, 1 ≤ j → j < k → outcome j ≠ .succeeds)
    (hcap : ∀ cap, p.maxAttempts = some cap → k ≤ cap) :
    ∃ t g before, (∀ fuel, k ≤ fuel → reconnectUntilConnected p outcome fuel s = some t) ∧
      t.state = .connected g ∧ s.used <+: before ∧ g ∉ before ∧ t.used = before ++ [g] ∧
      t.events = s.events ++ attemptsEvents p 1 k ++ .stored (.connected g) :: handlerEvents s := by
  have hbelow : ∀ j, j ≤ k → p.exhausted j = false := fun j hj =>
    not_exhausted fun cap hc => hj.trans (hcap cap hc)
  obtain ⟨u, hrun, hu, hhandler, hused, hevents⟩ :=
    reconnectFrom_failures (k - 1) 1 hs fun j hj hj' =>
      ⟨hbelow j (by omega), hfirst j hj (by omega)⟩
  rw [show 1 + (k - 1) = k by omega] at hrun
  obtain ⟨t, g, hturn, hstate, hg, hused', hevents'⟩ := iteration_succeeds hu (hbelow k (by omega))
  refine ⟨t, g, u.used, fun fuel hfuel => ?_, hstate, hused, hg, hused', ?_⟩
  · obtain ⟨extra, rfl⟩ := Nat.exists_eq_add_of_le hfuel
    rw [reconnectUntilConnected, show k + extra = (k - 1) + (extra + 1) by omega, hrun,
      reconnectFrom, hsucc, hturn]
  · have hlast : attemptsEvents p 1 k = attemptsEvents p 1 (k - 1) ++ attemptEvents p k := by
      rw [attemptsEvents, attemptsEvents, show k = (k - 1) + 1 by omega, List.range'_concat,
        List.flatMap_append]
      simp [show 1 + (k - 1) = k - 1 + 1 by omega]
    rw [hevents', hevents, hlast, handlerEvents, handlerEvents, hhandler,
      List.append_assoc s.events]

/-- A row of failures up to the cap ends the cycle as well. -/
theorem reconnect_exhausted {cap : Nat} (hs : s.Undisturbed) (hcap : p.maxAttempts = some cap)
    (hfail : ∀ j, 1 ≤ j → j ≤ cap → outcome j ≠ .succeeds) :
    ∃ t, (∀ fuel, cap < fuel → reconnectUntilConnected p outcome fuel s = some t) ∧
      t.state = .notConnected ∧
      t.events = s.events ++ attemptsEvents p 1 cap ++ [.stored .notConnected] := by
  have hrow : ∀ j, 1 ≤ j → j < 1 + cap → p.exhausted j = false ∧ outcome j ≠ .succeeds := by
    intro j hj hj'
    refine ⟨?_, hfail j hj (by omega)⟩
    rw [exhausted_of_cap hcap]
    exact decide_eq_false (by omega)
  obtain ⟨u, hrun, hu, -, -, hevents⟩ := reconnectFrom_failures cap 1 hs hrow
  have hdone : p.exhausted (1 + cap) = true := by
    rw [exhausted_of_cap hcap]
    exact decide_eq_true (by omega)
  refine ⟨{ u with state := .notConnected, events := u.events ++ [.stored .notConnected] },
    fun fuel hfuel => ?_, rfl, ?_⟩
  · obtain ⟨extra, rfl⟩ := Nat.exists_eq_add_of_lt hfuel
    rw [reconnectUntilConnected, show cap + extra + 1 = cap + (extra + 1) by omega, hrun,
      reconnectFrom, iteration_exhausted hu hdone]
  · show u.events ++ _ = _
    rw [hevents]

/-- Failures without a cap never end the cycle: after `n` turns it has made the attempts
`1` to `n` and goes on with the next. -/
theorem reconnect_endless (hs : s.Undisturbed) (hcap : p.maxAttempts = none)
    (hfail : ∀ j, 1 ≤ j → outcome j ≠ .succeeds) (n : Nat) :
    reconnectUntilConnected p outcome n s = none ∧
      ∃ t, (∀ fuel, reconnectUntilConnected p outcome (n + fuel) s
          = reconnectFrom p outcome fuel (n + 1) t) ∧
        t.events = s.events ++ attemptsEvents p 1 n := by
  have hnever : ∀ j, p.exhausted j = false := fun j =>
    not_exhausted fun cap hc => by simp [hcap] at hc
  obtain ⟨t, hrun, -, -, -, hevents⟩ :=
    reconnectFrom_failures n 1 hs fun j hj _ => ⟨hnever j, hfail j hj⟩
  rw [Nat.add_comm 1 n] at hrun
  exact ⟨hrun 0, t, hrun, hevents⟩

/-- The loop is left by one of its two stores only. -/
theorem state_of_returned (fuel : Nat) {attempt : Nat} (hs : s.Undisturbed)
    (h : reconnectFrom p outcome fuel attempt s = some t) : t.state ≠ .reconnecting := by
  induction fuel generalizing attempt s with
  | zero => exact absurd h nofun
  | succ fuel ih =>
      rw [reconnectFrom] at h
      rcases hp : p.exhausted attempt with - | -
      · by_cases ho : outcome attempt = .succeeds
        · obtain ⟨u, g, hturn, hstate, -⟩ := iteration_succeeds hs hp
          rw [ho, hturn] at h
          obtain rfl := Option.some.inj h
          rw [hstate]
          exact nofun
        · obtain ⟨u, hturn, hu, -⟩ := iteration_fails hs hp ho
          rw [hturn] at h
          exact ih hu h
      · rw [iteration_exhausted hs hp] at h
        obtain rfl := Option.some.inj h
        exact nofun

/-- With a cap some turn ends the loop. -/
theorem reconnect_returns {cap : Nat} (hs : s.Undisturbed) (hcap : p.maxAttempts = some cap)
    (fuel : Nat) (hfuel : cap < fuel) : ∃ t, reconnectUntilConnected p outcome fuel s = some t := by
  by_cases h : ∃ k, 1 ≤ k ∧ k ≤ cap ∧ outcome k = .succeeds
  · -- the first of the successes
    obtain ⟨hk, hle, hsucc⟩ := Nat.find_spec h
    obtain ⟨t, g, before, hrun, -⟩ := reconnect_succeeds (p := p) hs hk hsucc
      (fun j hj hlt ho => Nat.find_min h hlt ⟨hj, by omega, ho⟩)
      (fun cap' hc => by
        obtain rfl := Option.some.inj (hcap.symm.trans hc)
        exact hle)
    exact ⟨t, hrun fuel (by omega)⟩
  · obtain ⟨t, hrun, -⟩ := reconnect_exhausted hs hcap
      fun j hj hle ho => h ⟨j, hj, hle, ho⟩
    exact ⟨t, hrun fuel hfuel⟩

end

/-- **The reconnect cycle.**  Left alone, one call of `reconnect_until_connected`

* that succeeds first at attempt `k` within the cap makes the attempts `1` to `k`, each
  after its wait, stores `Connected` with a number that was never used before, and then
  calls the handler, if there is one;
* whose attempts within the cap all fail makes exactly these, stores `NotConnected` and
  calls no handler;
* returns, if there is a cap;
* whose attempts all fail without a cap makes one attempt after the other, each after
  its wait, and does not return;
* never returns with the state `Reconnecting`. -/
theorem reconnect_cycle (p : TimedPolicy) (outcome : Nat → AttemptOutcome) (s : Reconnect)
    (hs : s.Undisturbed) :
    (∀ k, 1 ≤ k → outcome k = .succeeds → (∀ j, 1 ≤ j → j < k → outcome j ≠ .succeeds) →
      (∀ cap, p.maxAttempts = some cap → k ≤ cap) →
      ∃ t g before, (∀ fuel, k ≤ fuel → reconnectUntilConnected p outcome fuel s = some t) ∧
        t.state = .connected g ∧ s.used <+: before ∧ g ∉ before ∧ t.used = before ++ [g] ∧
        t.events = s.events ++ attemptsEvents p 1 k ++
          .stored (.connected g) :: handlerEvents s) ∧
    (∀ cap, p.maxAttempts = some cap → (∀ j, 1 ≤ j → j ≤ cap → outcome j ≠ .succeeds) →
      ∃ t, (∀ fuel, cap < fuel → reconnectUntilConnected p outcome fuel s = some t) ∧
        t.state = .notConnected ∧
        t.events = s.events ++ attemptsEvents p 1 cap ++ [.stored .notConnected]) ∧
    (∀ cap, p.maxAttempts = some cap → ∀ fuel, cap < fuel →
      ∃ t, reconnectUntilConnected p outcome fuel s = some t) ∧
    (p.maxAttempts = none → (∀ j, 1 ≤ j → outcome j ≠ .succeeds) → ∀ n,
      reconnectUntilConnected p outcome n s = none ∧
        ∃ t, (∀ fuel, reconnectUntilConnected p outcome (n + fuel) s
            = reconnectFrom p outcome fuel (n + 1) t) ∧
          t.events = s.events ++ attemptsEvents p 1 n) ∧
    ∀ fuel t, reconnectUntilConnected p outcome fuel s = some t → t.state ≠ .reconnecting := by
  refine ⟨?_, ?_, ?_, ?_, ?_⟩
  · intro k hk hsucc hfirst hcap
    exact reconnect_succeeds hs hk hsucc hfirst hcap
  · intro cap hcap hfail
    exact reconnect_exhausted hs hcap hfail
  · intro cap hcap fuel hfuel
    exact reconnect_returns hs hcap fuel hfuel
  · intro hcap hfail n
    exact reconnect_endless hs hcap hfail n
  · intro fuel t h
    exact state_of_returned fuel hs h

/-- The policy of a client that allows two attempts. -/
def twoAttempts : TimedPolicy where
  enabled := true
  maxAttempts := some 2
  toReconnectDelays := .default

/-- A lost connection: generation 1 was in use, and there is a handler. -/
def lostConnection : Reconnect where
  shutdown := false
  state := .reconnecting
  statePoisoned := false
  reconnectedHandler := true
  handlerPoisoned := false
  nextGeneration := 2
  used := [1]
  used_lt := by decide
  events := []

/-- With a first attempt whose socket fails, the second installs a later generation. -/
theorem reconnect_cycle_second_attempt :
    lostConnection.Undisturbed ∧ ∃ t g before,
      (∀ fuel, 2 ≤ fuel → reconnectUntilConnected twoAttempts
        (fun j => if j = 2 then .succeeds else .socketFails "refused") fuel lostConnection
          = some t) ∧
        t.state = .connected g ∧ [1] <+: before ∧ g ∉ before ∧ t.used = before ++ [g] ∧
        t.events = [] ++ attemptsEvents twoAttempts 1 2 ++
          .stored (.connected g) :: handlerEvents lostConnection := by
  have hclean : lostConnection.Undisturbed := ⟨rfl, rfl, rfl⟩
  refine ⟨hclean, (reconnect_cycle twoAttempts _ lostConnection hclean).1 2 (by decide) rfl ?_ ?_⟩
  · intro j hj hlt
    obtain rfl : j = 1 := by omega
    decide
  · intro cap hcap
    exact (Option.some.inj hcap).le

/-! ### The monitor takes the same turns -/

/-- The monitor's steps for one turn of the loop. -/
def turnLabels (exhausted : Bool) (o : AttemptOutcome) : List Client.MonitorLabel :=
  if exhausted then [.checkTop, .storeExhausted]
  else
    match o with
    | .negotiationFails _ => [.checkTop, .wake, .negotiated false]
    | .socketFails _ => [.checkTop, .wake, .negotiated true, .socket false]
    | .succeeds =>
        [.checkTop, .wake, .negotiated true, .socket true, .install, .startReconnected]

/-- The client shares with the loop what the loop sees of it. -/
structure Client.Shares (s : Client V) (r : Reconnect) : Prop where
  shutdown : s.shutdown = r.shutdown
  state : s.state = r.state
  nextGeneration : s.nextGeneration = r.nextGeneration
  reconnectedHandler : s.reconnectedHandler = r.reconnectedHandler

/-- The monitor has left `reconnect_until_connected`, or awaits its handler. -/
def MonitorPc.OutOfCycle : MonitorPc → Prop
  | .idle => True
  | .reconnected _ none => True
  | _ => False

section

variable {C : Config} {p : TimedPolicy} {s : Client V} {r r' : Reconnect} {attempt : Nat}

theorem checkTop_of_exhausted (hrun : s.shutdown = false)
    (hp : C.policy.exhausted attempt = true) :
    s.checkTop C attempt = { s with monitor := .exhausted } := by
  rw [Client.checkTop, if_neg (by simp [hrun])]
  rcases hc : C.policy.maxAttempts with - | cap
  · rw [ReconnectPolicy.exhausted, hc] at hp
    exact absurd hp nofun
  · rw [exhausted_of_cap hc] at hp
    exact if_pos (of_decide_eq_true hp)

theorem checkTop_of_not_exhausted (hrun : s.shutdown = false)
    (hp : C.policy.exhausted attempt = false) :
    s.checkTop C attempt = { s with monitor := .sleeping attempt } := by
  rw [Client.checkTop, if_neg (by simp [hrun])]
  rcases hc : C.policy.maxAttempts with - | cap
  · rfl
  · rw [exhausted_of_cap hc] at hp
    exact if_neg (of_decide_eq_false hp)

/-- Below the cap the monitor gets as far as the negotiation. -/
theorem exec_attempt (hrun : s.shutdown = false) (hp : C.policy.exhausted attempt = false)
    (hpc : s.monitor = .loopTop attempt) (ls : List Client.MonitorLabel) :
    exec (Client.monitorStep C) s (.checkTop :: .wake :: ls)
      = exec (Client.monitorStep C) { s with monitor := .negotiating attempt } ls := by
  simp [exec, Client.monitorStep, hpc, checkTop_of_not_exhausted hrun hp, hrun]

/-- **The simulation step.**  What one turn of the loop does to the state it shares,
the monitor does by the steps of that turn. -/
theorem turn_follows (hC : C.policy = p.toReconnectPolicy) (o : AttemptOutcome)
    (hs : s.Shares r) (hr : r.Undisturbed) (hpc : s.monitor = .loopTop attempt) :
    ∃ s', exec (Client.monitorStep C) s (turnLabels (p.exhausted attempt) o) = some s' ∧
      match iteration p o attempt r with
      | .again r' => s'.Shares r' ∧ r'.Undisturbed ∧ s'.monitor = .loopTop (attempt + 1)
      | .returned r' => s'.Shares r' ∧ s'.monitor.OutOfCycle := by
  have hrun : s.shutdown = false := hs.shutdown.trans hr.running
  rcases hp : p.exhausted attempt with - | -
  · have hexec := exec_attempt hrun (hC ▸ hp) hpc
    rw [iteration_attempt hr hp]
    cases o with
    | negotiationFails error =>
        refine ⟨{ s with monitor := .loopTop (attempt + 1) }, hexec _, ?_, ?_, rfl⟩
        · exact ⟨hs.shutdown, hs.state, hs.nextGeneration, hs.reconnectedHandler⟩
        · exact ⟨hr.running, hr.state, hr.handler⟩
    | socketFails error =>
        refine ⟨{ s with
          nextGeneration := s.nextGeneration + 1
          monitor := .loopTop (attempt + 1) }, hexec _, ?_, ?_, rfl⟩
        · exact ⟨hs.shutdown, hs.state, congrArg (· + 1) hs.nextGeneration, hs.reconnectedHandler⟩
        · exact ⟨hr.running, hr.state, hr.handler⟩
    | succeeds =>
        have hclean : (r.begin p attempt).takeGeneration.statePoisoned = false := hr.state
        rw [Reconnect.store_of_clean hclean, Reconnect.callHandler_of_clean (by exact hr.handler)]
        -- the new connection runs and is stored; what is left is the handler
        let s₁ : Client V := { s with
          nextGeneration := s.nextGeneration + 1
          monitor := .connecting attempt s.nextGeneration }
        let s₂ : Client V := { s₁.setConnection s.nextGeneration (.start .monitor) with
          monitor := .installing s.nextGeneration }.install s.nextGeneration
        have hend : exec (Client.monitorStep C) s (turnLabels false .succeeds)
            = Client.monitorStep C s₂ .startReconnected := by
          refine (hexec _).trans ?_
          show (Client.monitorStep C s₂ .startReconnected).bind some = _
          exact Option.bind_fun_some _
        have hstate : s₂.state = .connected r.nextGeneration :=
          congrArg ConnectionState.connected hs.nextGeneration
        have hnext : s₂.nextGeneration = r.nextGeneration + 1 :=
          congrArg (· + 1) hs.nextGeneration
        rcases hh : s.reconnectedHandler with - | -
        · refine ⟨{ s₂ with monitor := .idle }, hend.trans ?_, ?_, trivial⟩
          · show some (if s.reconnectedHandler = true then _ else _) = _
            rw [if_neg (by simp [hh])]
          · exact ⟨hs.shutdown, hstate, hnext, hs.reconnectedHandler⟩
        · refine ⟨Client.observe { s₂ with monitor := .reconnected s.nextGeneration none }
            (.reconnected s.nextGeneration), hend.trans ?_, ?_, trivial⟩
          · show some (if s.reconnectedHandler = true then _ else _) = _
            rw [if_pos hh]
          · exact ⟨hs.shutdown, hstate, hnext, hs.reconnectedHandler⟩
  · have htop := checkTop_of_exhausted hrun (hC ▸ hp)
    rw [iteration_exhausted hr hp]
    refine ⟨{ s.setState .notConnected with monitor := .idle }, ?_, ?_, trivial⟩
    · simp [turnLabels, exec, Client.monitorStep, hpc, htop, Client.setState]
    · exact ⟨hs.shutdown, rfl, hs.nextGeneration, hs.reconnectedHandler⟩

/-- **The monitor follows the loop.**  A cycle that returns is taken step by step by the
reconnect monitor of a client that shares the loop's state. -/
theorem reconnectFrom_follows_monitor (hC : C.policy = p.toReconnectPolicy)
    (outcome : Nat → AttemptOutcome) (fuel : Nat) (hs : s.Shares r) (hr : r.Undisturbed)
    (hpc : s.monitor = .loopTop attempt)
    (h : reconnectFrom p outcome fuel attempt r = some r') :
    ∃ ls s', exec (Client.monitorStep C) s ls = some s' ∧ s'.Shares r' ∧
      s'.monitor.OutOfCycle := by
  induction fuel generalizing attempt s r with
  | zero => exact absurd h nofun
  | succ fuel ih =>
      obtain ⟨u, hexec, hturn⟩ := turn_follows hC (outcome attempt) hs hr hpc
      rw [reconnectFrom] at h
      rcases hit : iteration p (outcome attempt) attempt r with r₁ | r₁
      · rw [hit] at h hturn
        obtain rfl := Option.some.inj h
        exact ⟨_, u, hexec, hturn⟩
      · rw [hit] at h hturn
        obtain ⟨hshares, hclean, hu⟩ := hturn
        obtain ⟨ls, s', hexec', hs', hout⟩ := ih hshares hclean hu h
        refine ⟨turnLabels (p.exhausted attempt) (outcome attempt) ++ ls, s', ?_, hs', hout⟩
        exact run_free_iff_exec.mp
          ((run_free_iff_exec.mpr hexec).append (run_free_iff_exec.mpr hexec'))

end

end SignalR
