/-
SignalR/Generations.lean

The generations of a client's connections and their tear-downs.  All of it is
about the `Control` part, which only the monitor and the disconnects write.

`Control.Inv` orders the generations: the installed ones increase, the torn-down
ones increase, a connected state holds the latest installed one, and the one being
set up is newer than all of them.  While the monitor is in a reconnect cycle
nothing is connected, so no generation can be torn down twice.

`Phase` is the order of the monitor's actions as an automaton over the trace:

    tornDown g · cancelled g · [reconnecting] · cycle · [installed h · [reconnected h]]

and `Phase.Fits` ties its state to the monitor's place in the code.
-/
import SignalR.Parties

namespace SignalR

open Transition

variable {V : Type}

/-! ### Generations in a trace -/

/-- The generations stored by the reconnect loop, in order. -/
def installs (trace : List Observation) : List Nat :=
  trace.filterMap fun
    | .installed h => some h
    | _ => none

/-- The generations torn down, in order. -/
def tearDowns (trace : List Observation) : List Nat :=
  trace.filterMap fun
    | .tornDown g => some g
    | _ => none

/-- The generation installed last; `connect` installs generation 1. -/
def latest (trace : List Observation) : Nat :=
  (installs trace).getLastD 1

/-- The observation installs or tears down nothing. -/
def Observation.Plain : Observation → Prop
  | .tornDown _ => False
  | .installed _ => False
  | _ => True

section

variable {trace : List Observation} {o : Observation} {g h : Nat}

theorem installs_append_plain (ho : o.Plain) : installs (trace ++ [o]) = installs trace := by
  cases o <;> simp_all [installs, Observation.Plain]

theorem tearDowns_append_plain (ho : o.Plain) : tearDowns (trace ++ [o]) = tearDowns trace := by
  cases o <;> simp_all [tearDowns, Observation.Plain]

@[simp] theorem installs_append_installed :
    installs (trace ++ [.installed h]) = installs trace ++ [h] := by
  simp [installs]

@[simp] theorem tearDowns_append_installed :
    tearDowns (trace ++ [.installed h]) = tearDowns trace := by
  simp [tearDowns]

@[simp] theorem installs_append_tornDown :
    installs (trace ++ [.tornDown g]) = installs trace := by
  simp [installs]

@[simp] theorem tearDowns_append_tornDown :
    tearDowns (trace ++ [.tornDown g]) = tearDowns trace ++ [g] := by
  simp [tearDowns]

@[simp] theorem latest_append_installed : latest (trace ++ [.installed h]) = h := by
  simp [latest]

@[simp] theorem latest_append_tornDown : latest (trace ++ [.tornDown g]) = latest trace := by
  simp [latest]

theorem latest_append_plain (ho : o.Plain) : latest (trace ++ [o]) = latest trace := by
  rw [latest, latest, installs_append_plain ho]

end

/-! ### Places of the monitor -/

namespace MonitorPc

/-- The monitor is between a tear-down and the end of its reconnect cycle. -/
def inCycle : MonitorPc → Bool
  | .cancelling _ _ | .cancelled | .reconnecting _ | .loopTop _ | .exhausted | .sleeping _
  | .negotiating _ | .connecting _ _ | .installing _ => true
  | _ => false

/-- The monitor is outside the cycle and has nothing to do with a generation, but
perhaps an event in hand. -/
def Resting : MonitorPc → Prop
  | .idle | .received _ _ | .marking _ _ | .stopped => True
  | _ => False

/-- The monitor sets up the connection of generation `h`. -/
def Upcoming (h : Nat) : MonitorPc → Prop
  | .connecting _ h' => h' = h
  | .installing h' => h' = h
  | _ => False

/-- The monitor deals with generation `g`, torn down or just installed. -/
def Current (g : Nat) : MonitorPc → Prop
  | .cancelling g' _ => g' = g
  | .installed g' => g' = g
  | .reconnected g' _ => g' = g
  | _ => False

end MonitorPc

/-! ### The order of generations -/

namespace Control

/-- Generations are used in order. -/
structure Inv (k : Control) : Prop where
  installs_sorted : (1 :: installs k.trace).Pairwise (· < ·)
  tearDowns_sorted : (tearDowns k.trace).Pairwise (· < ·)
  installs_le : ∀ g ∈ 1 :: installs k.trace, g ≤ latest k.trace
  torn_le : ∀ g ∈ tearDowns k.trace, g ≤ latest k.trace
  latest_lt : latest k.trace < k.nextGeneration
  state_latest : ∀ g, k.state = .connected g → g = latest k.trace
  state_fresh : ∀ g, k.state = .connected g → ∀ x ∈ tearDowns k.trace, x < g
  cycle : k.monitor.inCycle = true → ∀ g, k.state ≠ .connected g
  upcoming : ∀ h, k.monitor.Upcoming h → latest k.trace < h ∧ h < k.nextGeneration
  current : ∀ g, k.monitor.Current g → g = latest k.trace

variable {k : Control}

/-- The monitor moves on without an observation. -/
theorem Inv.goto (hi : k.Inv) (pc : MonitorPc)
    (hcycle : pc.inCycle = true → ∀ g, k.state ≠ .connected g)
    (hupcoming : ∀ h, pc.Upcoming h → k.monitor.Upcoming h)
    (hcurrent : ∀ g, pc.Current g → k.monitor.Current g) : { k with monitor := pc }.Inv where
  installs_sorted := hi.installs_sorted
  tearDowns_sorted := hi.tearDowns_sorted
  installs_le := hi.installs_le
  torn_le := hi.torn_le
  latest_lt := hi.latest_lt
  state_latest := hi.state_latest
  state_fresh := hi.state_fresh
  cycle := hcycle
  upcoming := fun h hh => hi.upcoming h (hupcoming h hh)
  current := fun g hg => hi.current g (hcurrent g hg)

/-- The monitor comes to rest. -/
theorem Inv.rest (hi : k.Inv) (pc : MonitorPc) (hpc : pc.Resting) :
    { k with monitor := pc }.Inv := by
  refine hi.goto pc ?_ ?_ ?_
  all_goals cases pc <;> simp_all [MonitorPc.Resting, MonitorPc.inCycle, MonitorPc.Upcoming,
    MonitorPc.Current]

/-- The monitor moves on inside the cycle, away from any particular generation. -/
theorem Inv.advance (hi : k.Inv) (pc : MonitorPc) (hm : k.monitor.inCycle = true)
    (hupcoming : ∀ h, ¬ pc.Upcoming h) (hcurrent : ∀ g, ¬ pc.Current g) :
    { k with monitor := pc }.Inv :=
  hi.goto pc (fun _ => hi.cycle hm) (fun h hh => absurd hh (hupcoming h))
    fun g hg => absurd hg (hcurrent g)

/-- An observation that installs and tears down nothing. -/
theorem Inv.plain (hi : k.Inv) {o : Observation} (ho : o.Plain) :
    { k with trace := k.trace ++ [o] }.Inv := by
  refine ⟨?_, ?_, ?_, ?_, ?_, ?_, ?_, hi.cycle, ?_, ?_⟩
  all_goals
    simp only [installs_append_plain ho, tearDowns_append_plain ho, latest_append_plain ho]
  · exact hi.installs_sorted
  · exact hi.tearDowns_sorted
  · exact hi.installs_le
  · exact hi.torn_le
  · exact hi.latest_lt
  · exact hi.state_latest
  · exact hi.state_fresh
  · exact hi.upcoming
  · exact hi.current

/-- The state is left for one without a connection. -/
theorem Inv.unconnected (hi : k.Inv) (state : ConnectionState) (h : ∀ g, state ≠ .connected g) :
    { k with state }.Inv where
  installs_sorted := hi.installs_sorted
  tearDowns_sorted := hi.tearDowns_sorted
  installs_le := hi.installs_le
  torn_le := hi.torn_le
  latest_lt := hi.latest_lt
  state_latest := fun g hg => absurd hg (h g)
  state_fresh := fun g hg => absurd hg (h g)
  cycle := fun _ => h
  upcoming := hi.upcoming
  current := hi.current

/-- The connected generation is torn down. -/
theorem Inv.tearDown (hi : k.Inv) {g : Nat} {reason : String} (state : ConnectionState)
    (hg : k.state = .connected g) (hstate : ∀ h, state ≠ .connected h) :
    ({ k with
      state
      monitor := .cancelling g reason
      trace := k.trace ++ [.tornDown g] } : Control).Inv := by
  -- no torn-down generation is as new as the connected one
  have hlatest := hi.state_latest g hg
  refine ⟨?_, ?_, ?_, ?_, ?_, fun h hh => absurd hh (hstate h), fun h hh => absurd hh (hstate h),
    fun _ => hstate, fun h hh => hh.elim, ?_⟩
  · simpa using hi.installs_sorted
  · rw [tearDowns_append_tornDown, List.pairwise_append]
    refine ⟨hi.tearDowns_sorted, List.pairwise_singleton _ _, ?_⟩
    intro x hx y hy
    rw [List.mem_singleton.mp hy]
    exact hi.state_fresh g hg x hx
  · simpa using hi.installs_le
  · intro x hx
    rw [tearDowns_append_tornDown, List.mem_append, List.mem_singleton] at hx
    rw [latest_append_tornDown]
    rcases hx with hx | rfl
    · exact hi.torn_le x hx
    · exact Nat.le_of_eq hlatest
  · simpa using hi.latest_lt
  · intro h hh
    rw [latest_append_tornDown, ← hlatest]
    exact hh.symm

/-- The upcoming generation is stored. -/
theorem Inv.install (hi : k.Inv) {h : Nat} (hm : k.monitor = .installing h) :
    ({ k with
      state := .connected h
      monitor := .installed h
      trace := k.trace ++ [.installed h] } : Control).Inv := by
  -- the upcoming generation is newer than all that were installed or torn down
  obtain ⟨hlt, hnext⟩ := hi.upcoming h (by rw [hm]; rfl)
  refine ⟨?_, ?_, ?_, ?_, ?_, ?_, ?_, fun hc => ?_, fun _ hh => hh.elim, ?_⟩
  · rw [installs_append_installed, ← List.cons_append, List.pairwise_append]
    refine ⟨hi.installs_sorted, List.pairwise_singleton _ _, ?_⟩
    intro x hx y hy
    rw [List.mem_singleton.mp hy]
    exact Nat.lt_of_le_of_lt (hi.installs_le x hx) hlt
  · simpa using hi.tearDowns_sorted
  · intro x hx
    rw [installs_append_installed, ← List.cons_append, List.mem_append, List.mem_singleton] at hx
    rw [latest_append_installed]
    rcases hx with hx | rfl
    · exact Nat.le_of_lt (Nat.lt_of_le_of_lt (hi.installs_le x hx) hlt)
    · exact Nat.le_refl _
  · intro x hx
    rw [tearDowns_append_installed] at hx
    rw [latest_append_installed]
    exact Nat.le_of_lt (Nat.lt_of_le_of_lt (hi.torn_le x hx) hlt)
  · simpa using hnext
  · intro g hg
    rw [latest_append_installed]
    exact (ConnectionState.connected.inj hg).symm
  · intro g hg x hx
    rw [tearDowns_append_installed] at hx
    rw [← ConnectionState.connected.inj hg]
    exact Nat.lt_of_le_of_lt (hi.torn_le x hx) hlt
  · simp [MonitorPc.inCycle] at hc
  · intro g hg
    rw [latest_append_installed]
    exact hg.symm

theorem Inv.init (C : Config) : (Client.init C : Client V).control.Inv where
  installs_sorted := List.pairwise_singleton _ _
  tearDowns_sorted := List.Pairwise.nil
  installs_le := fun _ hg => Nat.le_of_eq (List.mem_singleton.mp hg)
  torn_le := fun _ hg => absurd hg List.not_mem_nil
  latest_lt := Nat.lt_succ_self 1
  state_latest := fun _ hg => (ConnectionState.connected.inj hg).symm
  state_fresh := fun _ _ _ hx => absurd hx List.not_mem_nil
  cycle := fun h => absurd h Bool.false_ne_true
  upcoming := fun _ h => h.elim
  current := fun _ h => h.elim

end Control

namespace Client

/-- Every step of the monitor keeps the order of generations. -/
theorem MonitorMove.control_inv {C : Config} {s t : Client V} (h : MonitorMove C s t)
    (hi : s.control.Inv) : t.control.Inv := by
  have hno : ∀ x : Nat, ¬ False := fun _ => id
  have hin : ∀ {pc : MonitorPc}, s.monitor = pc → pc.inCycle = true →
      s.control.monitor.inCycle = true := by
    intro pc hm hpc
    rw [← hpc, ← hm]
    rfl
  cases h with
  | recv => exact hi.rest (.received _ _) trivial
  | recvShutdown | leave => exact hi.rest .stopped trivial
  | load => exact hi.rest (.marking _ _) trivial
  | markCurrent hm hstate =>
      refine hi.tearDown (if C.policy.enabled then .reconnecting else .notConnected)
        hstate fun h => ?_
      split <;> simp
  | markStale | disabled | interrupt | finish => exact hi.rest .idle trivial
  | cancel hm =>
      exact (hi.advance .cancelled (hin hm rfl) hno hno).plain (o := .cancelled _ _) trivial
  | notify hm =>
      exact (hi.advance (.reconnecting none) (hin hm rfl) hno hno).plain
        (o := .reconnecting) trivial
  | startCycle hm =>
      have hm' : s.control.monitor.inCycle = true := by
        rcases hm with ⟨hm, -⟩ | hm
        · exact hin hm rfl
        · exact hin hm rfl
      exact (hi.advance (.loopTop 1) hm' hno hno).plain (o := .cycle) trivial
  | @handler on on' hm => exact hi.advance (.reconnecting on') (hin hm rfl) hno hno
  | exhaust hm => exact hi.advance .exhausted (hin hm rfl) hno hno
  | @sleep attempt hm => exact hi.advance (.sleeping attempt) (hin hm rfl) hno hno
  | storeExhausted =>
      exact (hi.rest .idle trivial).unconnected .notConnected (by simp)
  | @wake attempt hm => exact hi.advance (.negotiating attempt) (hin hm rfl) hno hno
  | @negotiated attempt hm =>
      -- the new generation is the counter's old value, and the counter moves past it
      have hadv := hi.advance (.negotiating attempt) (hin hm rfl) hno hno
      exact
        { hadv with
          latest_lt := Nat.lt_succ_of_lt hi.latest_lt
          upcoming := by
            rintro h rfl
            exact ⟨hi.latest_lt, Nat.lt_succ_self _⟩
          current := fun _ hg => hg.elim }
  | @retry attempt hm =>
      have hm' : s.control.monitor.inCycle = true := by
        rcases hm with hm | ⟨h, hm⟩
        · exact hin hm rfl
        · exact hin hm rfl
      exact hi.advance (.loopTop (attempt + 1)) hm' hno hno
  | @connect attempt h hm =>
      refine hi.goto (.installing h) (fun _ => hi.cycle (hin hm rfl)) ?_ fun _ hg => hg.elim
      intro h' hh
      show s.monitor.Upcoming h'
      rw [hm]
      exact hh
  | install hm => exact hi.install hm
  | @notifyReconnected h hm =>
      refine (hi.goto (.reconnected h none) (fun hc => absurd hc Bool.false_ne_true)
        (fun _ hh => hh.elim) ?_).plain (o := .reconnected h) trivial
      intro g hg
      show s.monitor.Current g
      rw [hm]
      exact hg
  | @handlerReconnected h on on' hm =>
      refine hi.goto (.reconnected h on') (fun hc => absurd hc Bool.false_ne_true)
        (fun _ hh => hh.elim) ?_
      intro g hg
      show s.monitor.Current g
      rw [hm]
      exact hg

/-- Every step of a disconnect keeps the order of generations. -/
theorem DisconnectMove.control_inv {s t : Client V} {d : Nat} (h : DisconnectMove s d t)
    (hi : s.control.Inv) : t.control.Inv := by
  cases h with
  | raiseFlag => exact { hi with }
  | store => exact hi.unconnected .notConnected (by simp)
  | _ => exact hi

theorem control_inv_step {C : Config} {s t : Client V} {l : Label V} (hi : s.control.Inv)
    (h : step C s l = some t) : t.control.Inv := by
  rcases step_control h with hcontrol | hm | ⟨d, hd⟩
  · rw [hcontrol]
    exact hi
  · exact hm.control_inv hi
  · exact hd.control_inv hi

/-- **Generations are used in order in every run.** -/
theorem Reachable.control_inv {C : Config} {allowed : Client V → Label V → Prop} {s : Client V}
    (h : Reachable C allowed s) : s.control.Inv :=
  Reaches.invariant (I := fun s => s.control.Inv) h (Control.Inv.init C)
    fun _ _ _ hi _ hst => control_inv_step hi hst

end Client

/-! ### The order of the monitor's actions -/

/-- Where the monitor's observable actions stand. -/
inductive Phase
  | quiet
  /-- A generation was torn down. -/
  | torn (g : Nat)
  /-- Its calls were cancelled, and a reconnect cycle is to follow. -/
  | cancelled
  /-- The `on_reconnecting` handler was called. -/
  | notified
  /-- The reconnect cycle has begun. -/
  | cycling
  /-- The cycle has stored a connection. -/
  | installed (h : Nat)
  deriving DecidableEq

namespace Phase

/-- The actions that may come next: a tear-down is followed by the cancellation
for the same generation, and then, if reconnecting is enabled, by one cycle, before
which the `on_reconnecting` handler may be called once. -/
def next (enabled : Bool) : Phase → Observation → Option Phase
  | .quiet, .tornDown g => some (.torn g)
  | .torn g, .cancelled g' _ =>
      if g = g' then some (if enabled then .cancelled else .quiet) else none
  | .cancelled, .reconnecting => some .notified
  | .cancelled, .cycle => some .cycling
  | .notified, .cycle => some .cycling
  | .cycling, .installed h => some (.installed h)
  | .installed h, .reconnected h' => if h = h' then some .quiet else none
  | .installed _, .tornDown g => some (.torn g)
  | _, _ => none

/-- The phase after a trace, if the trace keeps the order. -/
def after (enabled : Bool) (trace : List Observation) : Option Phase :=
  trace.foldlM (next enabled) .quiet

theorem after_append {enabled : Bool} {trace : List Observation} {phase phase' : Phase}
    {o : Observation} (h : after enabled trace = some phase)
    (hnext : next enabled phase o = some phase') : after enabled (trace ++ [o]) = some phase' := by
  rw [after] at h ⊢
  rw [List.foldlM_append, h]
  simpa using hnext

/-- What the phase says about the monitor's place. -/
def Fits (enabled : Bool) (k : Control) (phase : Phase) : Prop :=
  match k.monitor with
  | .cancelling g _ => phase = .torn g
  | .cancelled => phase = if enabled then .cancelled else .quiet
  | .reconnecting _ => phase = .notified
  | .loopTop _ | .exhausted | .sleeping _ | .negotiating _ | .connecting _ _ | .installing _ =>
      phase = .cycling
  | .installed h => phase = .installed h
  | .reconnected _ _ => phase = .quiet
  | .idle | .received _ _ | .marking _ _ | .stopped =>
      phase = .quiet ∨ (∃ h, phase = .installed h) ∨
        phase = .cycling ∧ ∀ g, k.state ≠ .connected g

/-- The trace keeps the order, and its phase fits the monitor's place. -/
def Tracks (enabled : Bool) (k : Control) : Prop :=
  ∃ phase, after enabled k.trace = some phase ∧ phase.Fits enabled k

end Phase

namespace Client

open Phase

/-- Every step of the monitor keeps the order of its actions. -/
theorem MonitorMove.tracks {C : Config} {s t : Client V} (h : MonitorMove C s t)
    (hi : s.control.Inv) (ht : Tracks C.policy.enabled s.control) :
    Tracks C.policy.enabled t.control := by
  obtain ⟨phase, hafter, hfits⟩ := ht
  have hfits' : ∀ {pc : MonitorPc}, s.monitor = pc →
      phase.Fits C.policy.enabled { s.control with monitor := pc } := by
    rintro _ rfl
    exact hfits
  -- the phase stays, and fits the new place as it fitted the old one
  have stay : ∀ {pc : MonitorPc} {k : Control}, s.monitor = pc → k.trace = s.trace →
      (phase.Fits C.policy.enabled { s.control with monitor := pc } →
        phase.Fits C.policy.enabled k) → Tracks C.policy.enabled k := by
    intro pc k hm htrace hk
    refine ⟨phase, ?_, hk (hfits' hm)⟩
    rw [htrace]
    exact hafter
  cases h with
  | recv hm | recvShutdown hm | leave hm | load hm | markStale hm | handler hm | exhaust hm
  | sleep hm | wake hm | negotiated hm | connect hm | handlerReconnected hm =>
      exact stay hm rfl id
  | markCurrent hm hstate =>
      rcases hfits' hm with rfl | ⟨h, rfl⟩ | ⟨rfl, hno⟩
      · exact ⟨_, after_append hafter rfl, rfl⟩
      · exact ⟨_, after_append hafter rfl, rfl⟩
      · -- an interrupted cycle has left nothing to tear down
        exact absurd hstate (hno _)
  | cancel hm =>
      obtain rfl : phase = .torn _ := hfits' hm
      exact ⟨_, after_append hafter (if_pos rfl), rfl⟩
  | disabled hm hd =>
      -- without reconnecting, nothing follows the cancellation
      have hphase : phase = if C.policy.enabled then .cancelled else .quiet := hfits' hm
      rw [hd] at hphase
      exact ⟨phase, hafter, .inl hphase⟩
  | notify hm he =>
      have hphase : phase = if C.policy.enabled then .cancelled else .quiet := hfits' hm
      rw [he] at hphase
      obtain rfl : phase = .cancelled := hphase
      exact ⟨_, after_append hafter rfl, rfl⟩
  | startCycle hm =>
      rcases hm with ⟨hm, he⟩ | hm
      · have hphase : phase = if C.policy.enabled then .cancelled else .quiet := hfits' hm
        rw [he] at hphase
        obtain rfl : phase = .cancelled := hphase
        exact ⟨_, after_append hafter rfl, rfl⟩
      · obtain rfl : phase = .notified := hfits' hm
        exact ⟨_, after_append hafter rfl, rfl⟩
  | interrupt hm =>
      have hcycle : phase = .cycling ∧ s.control.monitor.inCycle = true := by
        rcases hm with hm | hm
        · exact ⟨hfits' hm, by rw [show s.control.monitor = _ from hm]; rfl⟩
        · exact ⟨hfits' hm, by rw [show s.control.monitor = _ from hm]; rfl⟩
      exact ⟨phase, hafter, .inr (.inr ⟨hcycle.1, hi.cycle hcycle.2⟩)⟩
  | storeExhausted hm =>
      exact ⟨phase, hafter, .inr (.inr ⟨hfits' hm, by simp [setState, control]⟩)⟩
  | retry hm =>
      rcases hm with hm | ⟨h, hm⟩
      · exact stay hm rfl id
      · exact stay hm rfl id
  | install hm =>
      obtain rfl : phase = .cycling := hfits' hm
      exact ⟨_, after_append hafter rfl, rfl⟩
  | notifyReconnected hm =>
      obtain rfl : phase = .installed _ := hfits' hm
      exact ⟨_, after_append hafter (if_pos rfl), rfl⟩
  | finish hm =>
      rcases hm with hm | hm
      · exact ⟨phase, hafter, .inr (.inl ⟨_, hfits' hm⟩)⟩
      · exact ⟨phase, hafter, .inl (hfits' hm)⟩

/-- A phase that fits still fits after a connection was lost otherwise. -/
theorem Tracks.unconnected {enabled : Bool} {k : Control} (h : Tracks enabled k)
    (state : ConnectionState) (hstate : ∀ g, state ≠ .connected g) :
    Tracks enabled { k with state } := by
  obtain ⟨phase, hafter, hfits⟩ := h
  refine ⟨phase, hafter, ?_⟩
  rw [Fits] at hfits ⊢
  cases hm : k.monitor <;> simp only [hm] at hfits ⊢
  all_goals first
    | exact hfits
    | exact hfits.imp id (Or.imp id fun h => ⟨h.1, hstate⟩)

theorem tracks_step {C : Config} {s t : Client V} {l : Label V} (hi : s.control.Inv)
    (ht : Tracks C.policy.enabled s.control) (h : step C s l = some t) :
    Tracks C.policy.enabled t.control := by
  rcases step_control h with hcontrol | hm | ⟨d, hd⟩
  · rw [hcontrol]
    exact ht
  · exact hm.tracks hi ht
  · cases hd with
    | store => exact Tracks.unconnected ht .notConnected (by simp)
    | _ => exact ht

/-- **The monitor keeps the order of its actions in every run.** -/
theorem Reachable.tracks {C : Config} {allowed : Client V → Label V → Prop} {s : Client V}
    (h : Reachable C allowed s) : Tracks C.policy.enabled s.control := by
  have hinit : Phase.quiet.Fits C.policy.enabled (init C : Client V).control := Or.inl rfl
  exact Reaches.induction (I := fun s => Tracks C.policy.enabled s.control) h
    ⟨.quiet, rfl, hinit⟩ fun s _ _ (hs : Reachable C allowed s) ht _ hst =>
      tracks_step hs.control_inv ht hst

end Client

end SignalR
