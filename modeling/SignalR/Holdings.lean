/-
SignalR/Holdings.lean

Who owns a connection.  A `CommunicationConnection` is shared by clones of its
`Arc`: the connection state has one, and so has the monitor until it has stored the
connection, a call from its look-up to the end of its `send`, and a disconnect from
its look-up to the end of its close.  The last clone to be dropped aborts the reader
and the writer task.

The places of the parties say who owns what (`Client.owned`), the connections list
their owners (`holders`), and the two make a ledger.  Every step of every party is a
few moves on it (`step_moves`), so it balances in every run: a task is aborted only
when nobody can use its connection any more, and nobody ever will again
(`connections_shared_soundly`).  Conversely a connection that was given up is let go
of by those who still use it, without the help of the server, the monitor or the
user (`given_up_connection_drains`): no task leaks.
-/
import SignalR.Ledger
import SignalR.Charges

namespace SignalR

open Transition

variable {V : Type}

/-! ### What each party owns -/

/-- The connection that the connection state holds. -/
def ConnectionState.connection : ConnectionState → Option Nat
  | .connected g => some g
  | _ => none

/-- The connection that the monitor has yet to store. -/
def MonitorPc.connection : MonitorPc → Option Nat
  | .installing h => some h
  | _ => none

/-- The connection that a call was given by `current_connection`. -/
def CallPc.connection : CallPc → Option Nat
  | .holding g => some g
  | .rejected g _ => some g
  | _ => none

/-- The connection that a disconnect closes. -/
def DisconnectPc.connection : DisconnectPc → Option Nat
  | .closing g => some g
  | .awaiting g => some g
  | .answered g _ => some g
  | _ => none

namespace Client

/-- The connection that a party owns. -/
def owned (s : Client V) : Holder → Option Nat
  | .state => s.state.connection
  | .monitor => s.monitor.connection
  | .call c => (s.calls c).pc.connection
  | .disconnect d => (s.disconnects d).connection

/-- The owners of every connection, as the connections and as the parties know
them. -/
def ledger (s : Client V) : Ledger Nat Holder where
  held := fun g => (s.connections g).holders
  owned := s.owned

/-- From `s` to `t`, the monitor set up the connection of generation `h`. -/
def Creates (s t : Client V) (h : Nat) : Prop :=
  (∃ attempt, s.monitor = .connecting attempt h) ∧ t.monitor = .installing h

section

variable {C : Config} {s t : Client V}

/-- A ledger is known by its two sides. -/
theorem ledger_eq {b : Ledger Nat Holder} (hheld : ∀ g, (s.connections g).holders = b.held g)
    (howned : ∀ x, s.owned x = b.owned x) : s.ledger = b := by
  rcases b with ⟨held, owned⟩
  have h₁ : (fun g => (s.connections g).holders) = held := funext hheld
  have h₂ : s.owned = owned := funext howned
  rw [ledger, h₁, h₂]

theorem ledger_congr (hheld : ∀ g, (t.connections g).holders = (s.connections g).holders)
    (howned : ∀ x, t.owned x = s.owned x) : t.ledger = s.ledger :=
  ledger_eq hheld howned

/-! ### The primitive changes -/

theorem holders_acquire (s : Client V) (g : Nat) (x : Holder) (g' : Nat) :
    ((s.acquire g x).connections g').holders
      = Function.update (fun g => (s.connections g).holders) g
          (x :: (s.connections g).holders) g' := by
  by_cases hg : g' = g
  · subst hg
    simp [acquire, setConnection]
  · simp [acquire, setConnection, hg]

theorem holders_release (s : Client V) (g : Nat) (x : Holder) (g' : Nat) :
    ((s.release g x).connections g').holders
      = Function.update (fun g => (s.connections g).holders) g
          ((s.connections g).holders.erase x) g' := by
  by_cases hg : g' = g
  · subst hg
    simp [release, setConnection]
  · simp [release, setConnection, hg]

/-- A connection with the same owners. -/
theorem holders_setConnection (s : Client V) {g : Nat} {k : Connection}
    (h : k.holders = (s.connections g).holders) (g' : Nat) :
    ((s.setConnection g k).connections g').holders = (s.connections g').holders := by
  by_cases hg : g' = g
  · subst hg
    simpa [setConnection] using h
  · simp [setConnection, hg]

/-- Two ways to give connection `g` the same owners. -/
theorem holders_update_congr (s : Client V) {g : Nat} {k k' : Connection} (g' : Nat)
    (h : k.holders = k'.holders) :
    ((s.setConnection g k).connections g').holders
      = ((s.setConnection g k').connections g').holders := by
  by_cases hg : g' = g
  · subst hg
    simpa [setConnection] using h
  · simp [setConnection, hg]

/-- The party whose place has changed. -/
theorem owned_update {x : Holder} {o : Option Nat} (hx : t.owned x = o)
    (hother : ∀ y, y ≠ x → t.owned y = s.owned y) (y : Holder) :
    t.owned y = Function.update s.owned x o y := by
  by_cases hy : y = x
  · subst hy
    rw [Function.update_self]
    exact hx
  · rw [Function.update_of_ne hy]
    exact hother y hy

/-- Party `x` gets a clone of connection `g`. -/
theorem ledger_take {g : Nat} {x : Holder}
    (hheld : ∀ g', (t.connections g').holders = ((s.acquire g x).connections g').holders)
    (hx : t.owned x = some g) (hother : ∀ y, y ≠ x → t.owned y = s.owned y) :
    t.ledger = s.ledger.take g x :=
  ledger_eq (fun g' => (hheld g').trans (holders_acquire s g x g')) (owned_update hx hother)

/-- Party `x` drops its clone of connection `g`. -/
theorem ledger_drop {g : Nat} {x : Holder}
    (hheld : ∀ g', (t.connections g').holders = ((s.release g x).connections g').holders)
    (hx : t.owned x = none) (hother : ∀ y, y ≠ x → t.owned y = s.owned y) :
    t.ledger = s.ledger.drop g x :=
  ledger_eq (fun g' => (hheld g').trans (holders_release s g x g')) (owned_update hx hother)

/-- The other parties stay where they are while a call takes a step. -/
theorem CallFrame.owned {c : Nat} (hf : CallFrame s c t) {y : Holder} (hy : y ≠ .call c) :
    t.owned y = s.owned y := by
  cases y with
  | state => exact congrArg ConnectionState.connection (state_of_control hf.control)
  | monitor => exact congrArg MonitorPc.connection (monitor_of_control hf.control)
  | call c' =>
      have hc : c' ≠ c := fun h => hy (h ▸ rfl)
      exact congrArg (·.pc.connection) (hf.calls c' hc)
  | disconnect d => exact congrArg (fun f => (f d).connection) hf.disconnects

/-! ### Calls -/

namespace CallFrame

variable {c g : Nat}

theorem ledger_same (hf : CallFrame s c t)
    (hheld : ∀ g, (t.connections g).holders = (s.connections g).holders)
    (hc : (t.calls c).pc.connection = (s.calls c).pc.connection) : t.ledger = s.ledger := by
  refine ledger_congr hheld fun x => ?_
  by_cases hx : x = .call c
  · subst hx
    exact hc
  · exact hf.owned hx

theorem ledger_take (hf : CallFrame s c t)
    (hheld : ∀ g', (t.connections g').holders = ((s.acquire g (.call c)).connections g').holders)
    (hc : (t.calls c).pc.connection = some g) : t.ledger = s.ledger.take g (.call c) :=
  Client.ledger_take hheld hc fun _ => hf.owned

theorem ledger_drop (hf : CallFrame s c t)
    (hheld : ∀ g', (t.connections g').holders = ((s.release g (.call c)).connections g').holders)
    (hc : (t.calls c).pc.connection = none) : t.ledger = s.ledger.drop g (.call c) :=
  Client.ledger_drop hheld hc fun _ => hf.owned

end CallFrame

/-- What a step of call `c` does to the ledger: it clones the connected generation
when it looks it up, and drops the clone when its `send` ends. -/
theorem callStep_ledger {c : Nat} {l : CallLabel V} (h : s.callStep c l = some t) :
    t.ledger = s.ledger ∨
      (∃ g, s.state = .connected g ∧ s.owned (.call c) = none ∧
        t.ledger = s.ledger.take g (.call c)) ∨
      ∃ g, s.owned (.call c) = some g ∧ t.ledger = s.ledger.drop g (.call c) := by
  have hf := (callStep_frame h).1
  have howned : ∀ {pc : CallPc}, (s.calls c).pc = pc → (s.calls c).pc.connection = pc.connection :=
    fun hpc => congrArg CallPc.connection hpc
  cases callStep_transition h with
  | invoke hpc | enumerate hpc =>
      refine .inl (hf.ledger_same (fun _ => rfl) ?_)
      rw [createKey, setCall_self, howned hpc]
      rfl
  | send hpc | insertStream hpc | insertFuture hpc | reject hpc | removeInvoke hpc
  | removeEnumerate hpc | removeSend hpc | pollReady hpc | abandon hpc | cleanup hpc =>
      refine .inl (hf.ledger_same (fun _ => rfl) ?_)
      rw [setCall_self, howned hpc]
      rfl
  | lookupNotConnected hpc | lookupReconnecting hpc =>
      refine .inl (hf.ledger_same (fun _ => rfl) ?_)
      rw [failCall, setCall_self, howned hpc]
      rfl
  | lookup hpc hstate =>
      refine .inr (.inl ⟨_, hstate, howned hpc, hf.ledger_take (fun _ => rfl) ?_⟩)
      rw [setCall_self]
      rfl
  | serializeFails hpc | report hpc =>
      refine .inr (.inr ⟨_, howned hpc, hf.ledger_drop (fun _ => rfl) ?_⟩)
      rw [failCall, setCall_self]
      rfl
  | accept hpc =>
      refine .inr (.inr ⟨_, howned hpc, hf.ledger_drop (fun g' => ?_) ?_⟩)
      · exact holders_update_congr s g' rfl
      · rw [setCall_self]
        split <;> rfl
  | pollPending | pollStream => exact .inl (hf.ledger_same (fun _ => rfl) rfl)

/-! ### The other parties -/

/-- The tasks of a connection own nothing. -/
theorem connectionStep_ledger {g : Nat} {l : ConnectionLabel}
    (h : s.connectionStep C g l = some t) : t.ledger = s.ledger := by
  have hf := connectionStep_frame h
  refine ledger_congr (fun g' => ?_) fun x => ?_
  · by_cases hg : g' = g
    · rw [hg, hf.holders]
    · rw [hf.connections g' hg]
  · cases x with
    | state => exact congrArg ConnectionState.connection (state_of_control hf.control)
    | monitor => exact congrArg MonitorPc.connection (monitor_of_control hf.control)
    | call c => exact congrArg (fun f => (f c).pc.connection) hf.calls
    | disconnect d =>
        rcases hf.disconnects d with hd | ⟨g', r, hd, hd'⟩
        · exact congrArg DisconnectPc.connection hd
        · -- an answered disconnect holds on to its connection
          show (t.disconnects d).connection = (s.disconnects d).connection
          rw [hd, hd']
          rfl

/-- The state is left for one without a connection. -/
theorem ledger_setState (fresh : Nat → Prop) (new : ConnectionState) (h : new.connection = none)
    (hheld : ∀ g, (t.connections g).holders = ((s.setState new).connections g).holders)
    (hstate : t.state = new) (hother : ∀ y, y ≠ .state → t.owned y = s.owned y) :
    s.ledger.Moves fresh t.ledger := by
  have hnone : t.owned .state = none := (congrArg ConnectionState.connection hstate).trans h
  rcases hs : s.state.connection with - | g
  · -- no connection is dropped
    have hdrop : dropState s.connections s.state = s.connections := by
      cases hstate' : s.state with
      | connected g => simp [hstate', ConnectionState.connection] at hs
      | _ => rfl
    have hledger : t.ledger = s.ledger := by
      refine ledger_congr (fun g => ?_) fun x => ?_
      · rw [hheld g, setState, hdrop]
      · by_cases hx : x = .state
        · subst hx
          exact hnone.trans hs.symm
        · exact hother x hx
    rw [hledger]
    exact .refl
  · have hstate' : s.state = .connected g := by
      cases hstate' : s.state <;> simp_all [ConnectionState.connection]
    have hledger : t.ledger = s.ledger.drop g .state := by
      refine ledger_drop (fun g' => ?_) hnone hother
      rw [hheld g', setState, hstate']
      rfl
    rw [hledger]
    exact .single (.drop hs)

/-- What the invariants say of a connection that is to be set up: it has no owner. -/
structure Known (s : Client V) : Prop where
  balanced : s.ledger.Balanced
  known : ∀ x g, s.owned x = some g → g ≤ latest s.trace ∨ s.monitor = .installing g

theorem Known.fresh (hi : s.Known) (hk : s.control.Inv) {attempt h : Nat}
    (hm : s.monitor = .connecting attempt h) : (s.connections h).holders = [] := by
  have hlt : latest s.trace < h :=
    (hk.upcoming h (by rw [show s.control.monitor = _ from hm]; rfl)).1
  rcases hheld : (s.connections h).holders with - | ⟨x, l⟩
  · rfl
  · have hx : s.owned x = some h := (hi.balanced.mem h x).mp (by simp [ledger, hheld])
    rcases hi.known x h hx with hle | hm'
    · exact absurd hle (Nat.not_le_of_lt hlt)
    · simp [hm] at hm'

/-- The moves of a step of the monitor. -/
theorem MonitorMove.moves (hi : s.Known) (hk : s.control.Inv) (h : MonitorMove C s t) :
    s.ledger.Moves (s.Creates t) t.ledger := by
  -- the monitor moves between places where it owns nothing
  have goto : ∀ {u : Client V} {pc pc' : MonitorPc}, s.monitor = pc → u.monitor = pc' →
      pc.connection = none → pc'.connection = none → u.state = s.state → u.calls = s.calls →
      u.disconnects = s.disconnects → u.connections = s.connections →
      s.ledger.Moves (s.Creates u) u.ledger := by
    intro u pc pc' hm hm' hpc hpc' hstate hcalls hdisconnects hconnections
    have hledger : u.ledger = s.ledger := by
      refine ledger_congr (fun g => by rw [hconnections]) fun x => ?_
      cases x with
      | state => exact congrArg ConnectionState.connection hstate
      | monitor =>
          show u.monitor.connection = s.monitor.connection
          rw [hm, hm', hpc, hpc']
      | call c => exact congrArg (fun f => (f c).pc.connection) hcalls
      | disconnect d => exact congrArg (fun f => (f d).connection) hdisconnects
    rw [hledger]
    exact .refl
  cases h with
  | recv hm | recvShutdown hm | leave hm | load hm | markStale hm | cancel hm | disabled hm
  | notify hm | handler hm | exhaust hm | sleep hm | wake hm | negotiated hm
  | notifyReconnected hm | handlerReconnected hm =>
      exact goto hm rfl rfl rfl rfl rfl rfl rfl
  | startCycle hm =>
      rcases hm with ⟨hm, -⟩ | hm <;> exact goto hm rfl rfl rfl rfl rfl rfl rfl
  | interrupt hm | finish hm =>
      rcases hm with hm | hm <;> exact goto hm rfl rfl rfl rfl rfl rfl rfl
  | retry hm =>
      rcases hm with hm | ⟨h, hm⟩ <;> exact goto hm rfl rfl rfl rfl rfl rfl rfl
  | @markCurrent g reason hm hstate =>
      refine ledger_setState _ (if C.policy.enabled then .reconnecting else .notConnected)
        ?_ (fun _ => rfl) rfl fun y hy => ?_
      · split <;> rfl
      · cases y with
        | state => exact absurd rfl hy
        | monitor => exact (congrArg MonitorPc.connection hm).symm
        | _ => rfl
  | storeExhausted hm =>
      refine ledger_setState _ .notConnected rfl (fun _ => rfl) rfl fun y hy => ?_
      cases y with
      | state => exact absurd rfl hy
      | monitor => exact (congrArg MonitorPc.connection hm).symm
      | _ => rfl
  | @connect attempt h hm =>
      have hfresh := hi.fresh hk hm
      have hnone : s.owned .monitor = none := congrArg MonitorPc.connection hm
      have hledger : ({ s.setConnection h (.start .monitor) with
          monitor := .installing h } : Client V).ledger = s.ledger.take h .monitor := by
        refine ledger_take (fun g' => ?_) rfl fun y hy => ?_
        · refine holders_update_congr s g' ?_
          rw [hfresh]
          rfl
        · cases y with
          | monitor => exact absurd rfl hy
          | _ => rfl
      rw [hledger]
      exact .single (.create ⟨⟨attempt, hm⟩, rfl⟩ hnone)
  | @install h hm =>
      -- the state clones the monitor's connection, which the monitor drops then
      have hno : ∀ g, s.state ≠ .connected g := hk.cycle (by
        rw [show s.control.monitor = _ from hm]
        rfl)
      have hnone : s.ledger.owned .state = none := by
        show s.state.connection = none
        cases hstate : s.state with
        | connected g => exact absurd hstate (hno g)
        | _ => rfl
      have hmonitor : s.owned .monitor = some h := congrArg MonitorPc.connection hm
      have hheld : s.ledger.held h ≠ [] := List.ne_nil_of_mem
        ((hi.balanced.mem h .monitor).mpr hmonitor)
      have hdrop : dropState s.connections s.state = s.connections := by
        cases hstate : s.state with
        | connected g => exact absurd hstate (hno g)
        | _ => rfl
      have htake : ((s.setState (.connected h)).acquire h .state).ledger
          = s.ledger.take h .state := by
        refine ledger_take (fun g' => ?_) rfl fun y hy => ?_
        · rw [acquire, setState, hdrop]
          rfl
        · cases y with
          | state => exact absurd rfl hy
          | _ => rfl
      have hdropped : (s.install h).ledger
          = ((s.setState (.connected h)).acquire h .state).ledger.drop h .monitor := by
        refine ledger_drop (fun _ => rfl) rfl fun y hy => ?_
        cases y with
        | monitor => exact absurd rfl hy
        | _ => rfl
      rw [hdropped, htake]
      have hclone : s.ledger.Move (s.Creates (s.install h)) (s.ledger.take h .state) :=
        .clone hheld hnone
      refine .tail (.single hclone) (.drop ?_)
      rw [Ledger.take_owned_of_ne (by simp)]
      exact hmonitor

/-- The other parties stay where they are while a disconnect changes its place. -/
theorem owned_setDisconnect {u : Client V} {d : Nat} {pc : DisconnectPc}
    (hstate : u.state = s.state) (hmonitor : u.monitor = s.monitor) (hcalls : u.calls = s.calls)
    (hdisconnects : u.disconnects = s.disconnects) (y : Holder) (hy : y ≠ .disconnect d) :
    (u.setDisconnect d pc).owned y = s.owned y := by
  cases y with
  | state => exact congrArg ConnectionState.connection hstate
  | monitor => exact congrArg MonitorPc.connection hmonitor
  | call c => exact congrArg (fun f => (f c).pc.connection) hcalls
  | disconnect d' =>
      have hd : d' ≠ d := fun heq => hy (heq ▸ rfl)
      show (Function.update u.disconnects d pc d').connection = (s.disconnects d').connection
      rw [Function.update_of_ne hd, hdisconnects]

theorem owned_setDisconnect_self (u : Client V) (d : Nat) (pc : DisconnectPc) :
    (u.setDisconnect d pc).owned (.disconnect d) = pc.connection :=
  congrArg DisconnectPc.connection (setDisconnect_self u d pc)

/-- The end of a close drops the disconnect's clone. -/
theorem finishClose_ledger (s : Client V) (d g : Nat) (result : Except String Unit) :
    (s.finishClose d g result).ledger = s.ledger.drop g (.disconnect d) :=
  ledger_drop (fun _ => rfl) (owned_setDisconnect_self _ _ _)
    (owned_setDisconnect rfl rfl rfl rfl)

/-- The moves of a step of a disconnect. -/
theorem DisconnectMove.moves {d : Nat} (hi : s.Known) (h : DisconnectMove s d t) :
    s.ledger.Moves (s.Creates t) t.ledger := by
  -- the disconnect goes on with what it owns
  have keep : ∀ {u : Client V} {pc pc' : DisconnectPc}, s.disconnects d = pc' →
      pc.connection = pc'.connection → u.state = s.state → u.monitor = s.monitor →
      u.calls = s.calls → u.disconnects = s.disconnects →
      (∀ g, (u.connections g).holders = (s.connections g).holders) →
      s.ledger.Moves (s.Creates (u.setDisconnect d pc)) (u.setDisconnect d pc).ledger := by
    intro u pc pc' hd hpc hstate hmonitor hcalls hdisconnects hheld
    have hledger : (u.setDisconnect d pc).ledger = s.ledger := by
      refine ledger_congr hheld fun x => ?_
      by_cases hx : x = .disconnect d
      · subst hx
        rw [owned_setDisconnect_self, hpc, ← hd]
        rfl
      · exact owned_setDisconnect hstate hmonitor hcalls hdisconnects x hx
    rw [hledger]
    exact .refl
  cases h with
  | cancel hd | raiseFlag hd | lookupNone hd | sendShutdown hd =>
      exact keep hd rfl rfl rfl rfl rfl fun _ => rfl
  | requestClose hd =>
      exact keep hd rfl rfl rfl rfl rfl (holders_setConnection s rfl)
  | @lookup g hd hstate =>
      have hnone : s.owned (.disconnect d) = none := congrArg DisconnectPc.connection hd
      have hstate' : s.owned .state = some g := congrArg ConnectionState.connection hstate
      have hheld : s.ledger.held g ≠ [] := List.ne_nil_of_mem
        ((hi.balanced.mem g .state).mpr hstate')
      rw [ledger_take (t := (s.acquire g (.disconnect d)).setDisconnect d (.closing g))
        (fun _ => rfl) (owned_setDisconnect_self _ _ _) (owned_setDisconnect rfl rfl rfl rfl)]
      exact .single (.clone hheld hnone)
  | @finishClose g result hd =>
      have howned : s.owned (.disconnect d) = some g := by
        rcases hd with hd | hd | hd <;> exact congrArg DisconnectPc.connection hd
      rw [finishClose_ledger]
      exact .single (.drop howned)
  | @store g result hd =>
      refine ledger_setState _ .notConnected rfl (fun _ => rfl) rfl fun y hy => ?_
      by_cases hx : y = .disconnect d
      · subst hx
        rw [owned_setDisconnect_self]
        exact (congrArg DisconnectPc.connection hd).symm
      · rw [owned_setDisconnect rfl rfl rfl rfl y hx]
        cases y with
        | state => exact absurd rfl hy
        | _ => rfl

/-! ### The ledger of a run -/

/-- **The step lemma of the ledger.** -/
theorem step_moves {l : Label V} (hi : s.Known) (hk : s.control.Inv) (h : step C s l = some t) :
    s.ledger.Moves (s.Creates t) t.ledger := by
  cases l with
  | call c l =>
      rcases callStep_ledger h with hledger | ⟨g, hstate, hnone, hledger⟩ | ⟨g, howned, hledger⟩
      · rw [hledger]
        exact .refl
      · rw [hledger]
        have hstate' : s.owned .state = some g := congrArg ConnectionState.connection hstate
        exact .single (.clone (List.ne_nil_of_mem ((hi.balanced.mem g .state).mpr hstate')) hnone)
      · rw [hledger]
        exact .single (.drop howned)
  | connection g l =>
      rw [connectionStep_ledger h]
      exact .refl
  | monitor l => exact (monitorStep_move h).moves hi hk
  | disconnect d l => exact (disconnectStep_move h).moves hi
  | user l =>
      obtain rfl := Option.some.inj h
      have hledger : (s.userStep C l).ledger = s.ledger := by cases l <;> rfl
      rw [hledger]
      exact .refl

/-- The latest installed generation never goes back. -/
theorem latest_mono {l : Label V} (hk : s.control.Inv) (h : step C s l = some t) :
    latest s.trace ≤ latest t.trace := by
  have hmem : latest s.trace ∈ 1 :: installs t.trace := by
    rcases step_trace h with htrace | ⟨o, htrace⟩
    · rw [htrace]
      exact latest_mem _
    · rw [htrace]
      exact mem_installs_append (latest_mem _)
  exact (control_inv_step hk h).installs_le _ hmem

/-- A connection that the monitor is to store is stored, or still to be stored. -/
theorem installing_step {l : Label V} {g : Nat} (hm : s.monitor = .installing g)
    (h : step C s l = some t) : g ≤ latest t.trace ∨ t.monitor = .installing g := by
  rcases step_control h with hcontrol | hmove | ⟨d, hmove⟩
  · exact .inr ((monitor_of_control hcontrol).trans hm)
  · cases hmove with
    | @install g' hm' =>
        obtain rfl := MonitorPc.installing.inj (hm.symm.trans hm')
        refine .inl (Nat.le_of_eq ?_)
        exact latest_append_installed.symm
    | _ => simp_all
  · exact .inr (hmove.frame.monitor.trans hm)

theorem Known.step {l : Label V} (hi : s.Known) (hk : s.control.Inv)
    (h : Client.step C s l = some t) : t.Known := by
  have hmoves := step_moves hi hk h
  refine ⟨hmoves.balanced hi.balanced, fun x g hx => ?_⟩
  have hbefore : (∃ y, s.owned y = some g) ∨ s.Creates t g := hmoves.owned hi.balanced hx
  rcases hbefore with ⟨y, hy⟩ | ⟨-, hm⟩
  · rcases hi.known y g hy with hle | hm
    · exact .inl (Nat.le_trans hle (latest_mono hk h))
    · exact installing_step hm h
  · exact .inr hm

theorem Known.init (C : Config) : (Client.init C : Client V).Known where
  balanced := by
    refine ⟨fun g => ?_, fun g x => ?_⟩
    · by_cases hg : g = 1
      · subst hg
        exact List.nodup_singleton _
      · show (Function.update (fun _ => Connection.absent) 1 (.start .state) g).holders.Nodup
        rw [Function.update_of_ne hg]
        exact List.nodup_nil
    · show x ∈ (Function.update (fun _ => Connection.absent) 1 (.start .state) g).holders ↔
        (Client.init C : Client V).owned x = some g
      by_cases hg : g = 1
      · subst hg
        rw [Function.update_self]
        cases x <;> simp [Connection.start, owned, Client.init, ConnectionState.connection,
          MonitorPc.connection, CallPc.connection, DisconnectPc.connection, Call.new]
      · rw [Function.update_of_ne hg]
        cases x <;> simp [Connection.absent, owned, Client.init, ConnectionState.connection,
          MonitorPc.connection, CallPc.connection, DisconnectPc.connection, Call.new, Ne.symm hg]
  known := by
    intro x g hx
    cases x with
    | state =>
        obtain rfl := Option.some.inj hx
        exact .inl (Nat.le_refl 1)
    | _ => simp [owned, Client.init, MonitorPc.connection, CallPc.connection,
        DisconnectPc.connection, Call.new] at hx

/-- **The ledger balances in every run.** -/
theorem Reachable.known {allowed : Client V → Label V → Prop} (h : Reachable C allowed s) :
    s.Known :=
  Reaches.induction (I := Known) h (.init C) fun u _ _ (hu : Reachable C allowed u) hi _ hst =>
    hi.step hu.control_inv hst

/-! ### Aborted tasks -/

/-- A connection whose tasks were started was stored, or is still to be stored, and a
task is aborted only when its connection has no owner. -/
structure Spared (s : Client V) : Prop where
  started : ∀ g, (s.connections g).reader ≠ .absent ∨ (s.connections g).writer ≠ .absent →
    g ≤ latest s.trace ∨ s.monitor = .installing g
  spared : ∀ g, (s.connections g).reader = .aborted ∨ (s.connections g).writer = .aborted →
    (s.connections g).holders = []

/-- Only running tasks take steps, and a task is aborted for want of an owner only. -/
theorem connectionStep_tasks {g : Nat} {l : ConnectionLabel} (h : s.connectionStep C g l = some t) :
    ((s.connections g).reader ≠ .absent ∨ (s.connections g).writer ≠ .absent) ∧
      ((t.connections g).reader = .aborted →
        (s.connections g).reader = .aborted ∨ (s.connections g).holders = []) ∧
      ((t.connections g).writer = .aborted →
        (s.connections g).writer = .aborted ∨ (s.connections g).holders = []) := by
  have hself : ∀ (u : Client V) (k : Connection), (u.setConnection g k).connections g = k :=
    fun u k => setConnection_self u g k
  cases connectionStep_transition h with
  | readClose hreader | readFrame hreader | readError hreader =>
      refine ⟨.inl (by simp [hreader]), fun ht => ?_, fun ht => .inl ?_⟩
      · simp [endReader, emit, setConnection] at ht
      · simpa [endReader, emit, setConnection] using ht
  | dispatch hreader | dispatchPanics hreader =>
      refine ⟨.inl (by simp [hreader]), fun ht => ?_, fun ht => .inl ?_⟩
      · simp [hself] at ht
      · rwa [hself] at ht
  | write hwriter | writeError hwriter | close hwriter | closeError hwriter
  | writeFails hwriter =>
      refine ⟨.inr (by simp [hwriter]), fun ht => .inl ?_, fun ht => ?_⟩
      · simpa [endWriter, answerClose, emit, setConnection] using ht
      · simp [endWriter, answerClose, emit, setConnection, hwriter] at ht
  -- the two aborts wait until nobody owns the connection
  | abortReader hreader hnobody =>
      refine ⟨.inl (by simp [hreader]), fun _ => .inr hnobody, fun ht => .inl ?_⟩
      rwa [hself] at ht
  | abortWriter hwriter hnobody =>
      refine ⟨.inr (by simp [hwriter]), fun ht => .inl ?_, fun _ => .inr hnobody⟩
      rwa [hself] at ht

/-- Where the tasks of connection `g` may change in a step. -/
theorem step_tasks {l : Label V} (h : step C s l = some t) (g : Nat) :
    ((t.connections g).reader = (s.connections g).reader ∧
      (t.connections g).writer = (s.connections g).writer) ∨
      s.Creates t g ∧ t.connections g = .start .monitor ∨ ∃ l', l = .connection g l' := by
  cases l with
  | call c l => exact .inl ((callStep_frame h).1.tasks g)
  | connection g' l =>
      by_cases hg : g = g'
      · subst hg
        exact .inr (.inr ⟨l, rfl⟩)
      · rw [(connectionStep_frame h).connections g hg]
        exact .inl ⟨rfl, rfl⟩
  | monitor l =>
      cases monitorStep_move h with
      | markCurrent => exact .inl (dropState_tasks s.connections s.state g)
      | storeExhausted => exact .inl (dropState_tasks s.connections s.state g)
      | @connect attempt h' hm =>
          by_cases hg : g = h'
          · subst hg
            exact .inr (.inl ⟨⟨⟨attempt, hm⟩, rfl⟩, setConnection_self ..⟩)
          · exact .inl (by simp [setConnection, hg])
      | @install h' hm =>
          have hdrop := dropState_tasks s.connections s.state g
          refine .inl ?_
          by_cases hg : g = h'
          · subst hg
            simpa [install, observe, acquire, release, setConnection, setState] using hdrop
          · simpa [install, observe, acquire, release, setConnection, setState, hg] using hdrop
      | _ => exact .inl ⟨rfl, rfl⟩
  | disconnect d l => exact .inl ((disconnectStep_move h).frame.tasks g)
  | user l =>
      obtain rfl := Option.some.inj h
      rw [(userStep_frame C s l).2.2.1]
      exact .inl ⟨rfl, rfl⟩

theorem Spared.step {l : Label V} (hi : s.Spared) (hn : s.Known) (hk : s.control.Inv)
    (h : Client.step C s l = some t) : t.Spared := by
  have hmoves := step_moves hn hk h
  -- what was started before is stored, or still to be stored
  have later : ∀ g, g ≤ latest s.trace ∨ s.monitor = .installing g →
      g ≤ latest t.trace ∨ t.monitor = .installing g := by
    rintro g (hle | hm)
    · exact .inl (Nat.le_trans hle (latest_mono hk h))
    · exact installing_step hm h
  -- a connection that is set up had no task yet
  have hnew : ∀ g, g ≤ latest s.trace ∨ s.monitor = .installing g → ¬ s.Creates t g := by
    rintro g hg ⟨⟨attempt, hm⟩, -⟩
    have hlt := (hk.upcoming g (by rw [show s.control.monitor = _ from hm]; rfl)).1
    rcases hg with hle | hm'
    · exact Nat.not_le_of_lt hlt hle
    · simp [hm] at hm'
  have hfree : ∀ g, g ≤ latest s.trace ∨ s.monitor = .installing g →
      (s.connections g).holders = [] → (t.connections g).holders = [] :=
    fun g hg hnobody => hmoves.free hnobody (hnew g hg)
  refine ⟨fun g hstarted => ?_, fun g haborted => ?_⟩
  · rcases step_tasks h g with ⟨hreader, hwriter⟩ | ⟨hcreates, -⟩ | ⟨l', rfl⟩
    · rw [hreader, hwriter] at hstarted
      exact later g (hi.started g hstarted)
    · exact .inr hcreates.2
    · exact later g (hi.started g (connectionStep_tasks h).1)
  · rcases step_tasks h g with ⟨hreader, hwriter⟩ | ⟨-, hstart⟩ | ⟨l', rfl⟩
    · rw [hreader, hwriter] at haborted
      have hstarted : (s.connections g).reader ≠ .absent ∨ (s.connections g).writer ≠ .absent := by
        rcases haborted with ha | ha <;> simp [ha]
      exact hfree g (hi.started g hstarted) (hi.spared g haborted)
    · simp [hstart, Connection.start] at haborted
    · obtain ⟨hstarted, hreader, hwriter⟩ := connectionStep_tasks h
      refine hfree g (hi.started g hstarted) ?_
      rcases haborted with ha | ha
      · exact (hreader ha).elim (fun ha => hi.spared g (.inl ha)) id
      · exact (hwriter ha).elim (fun ha => hi.spared g (.inr ha)) id

theorem Spared.init (C : Config) : (Client.init C : Client V).Spared where
  started := by
    intro g hstarted
    by_cases hg : g = 1
    · subst hg
      exact .inl (Nat.le_refl 1)
    · simp [Client.init, hg, Connection.absent] at hstarted
  spared := by
    intro g haborted
    by_cases hg : g = 1
    · subst hg
      simp [Client.init, Connection.start] at haborted
    · simp [Client.init, hg, Connection.absent] at haborted

theorem Reachable.spared {allowed : Client V → Label V → Prop} (h : Reachable C allowed s) :
    s.Spared :=
  Reaches.induction (I := Spared) h (.init C) fun u _ _ (hu : Reachable C allowed u) hi _ hst =>
    hi.step hu.known hu.control_inv hst

/-- A stored connection without an owner stays without one. -/
theorem unowned_step {l : Label V} {g : Nat} (hn : s.Known) (hk : s.control.Inv)
    (h : step C s l = some t) (hg : g ≤ latest s.trace) (hnobody : (s.connections g).holders = []) :
    (t.connections g).holders = [] := by
  refine (step_moves hn hk h).free (i := g) hnobody ?_
  rintro ⟨⟨attempt, hm⟩, -⟩
  have hlt := (hk.upcoming g (by rw [show s.control.monitor = _ from hm]; rfl)).1
  exact Nat.not_le_of_lt hlt hg

/-- What the owners of connection `g` can rely on. -/
structure SharedSoundly (C : Config) (s : Client V) (g : Nat) : Prop where
  nodup : (s.connections g).holders.Nodup
  owners : ∀ x, x ∈ (s.connections g).holders ↔ s.owned x = some g
  aborted : (s.connections g).reader = .aborted ∨ (s.connections g).writer = .aborted →
    ∀ x, s.owned x ≠ some g
  final : g ≤ latest s.trace → (∀ x, s.owned x ≠ some g) →
    ∀ t, Reaches (step C) free s t → ∀ x, t.owned x ≠ some g

/-- **Connections are shared soundly.**  In every run, the owners a connection counts
are exactly the parties that have it at hand, each once; a task is aborted only if
nobody has its connection; and nobody ever gets at a stored connection again that all
its owners have let go of. -/
theorem connections_shared_soundly {C : Config} {s : Client V} (h : Reachable C free s)
    (g : Nat) : s.SharedSoundly C g := by
  have hmem : ∀ {u : Client V}, Reachable C free u → ∀ x,
      x ∈ (u.connections g).holders ↔ u.owned x = some g := fun hu x => hu.known.balanced.mem g x
  have hnobody : ∀ {u : Client V}, Reachable C free u → (u.connections g).holders = [] →
      ∀ x, u.owned x ≠ some g := by
    intro u hu hnil x hx
    have hx' := (hmem hu x).mpr hx
    rw [hnil] at hx'
    exact List.not_mem_nil hx'
  refine ⟨h.known.balanced.nodup g, hmem h, fun ha => hnobody h (h.spared.spared g ha), ?_⟩
  intro hle hunowned t ht
  have hnil : (s.connections g).holders = [] := by
    rw [List.eq_nil_iff_forall_not_mem]
    exact fun x hx => hunowned x ((hmem h x).mp hx)
  have hrun : Reachable C free t ∧ g ≤ latest t.trace ∧ (t.connections g).holders = [] := by
    refine Reaches.invariant (I := fun u =>
      Reachable C free u ∧ g ≤ latest u.trace ∧ (u.connections g).holders = []) ht
      ⟨h, hle, hnil⟩ ?_
    rintro u l v ⟨hu, hle, hnil⟩ - hst
    exact ⟨hu.trans (.head l trivial hst (.refl v)),
      Nat.le_trans hle (latest_mono hu.control_inv hst),
      unowned_step hu.known hu.control_inv hst hle hnil⟩
  exact hnobody hrun.1 hrun.2.2

theorem connections_shared_soundly_aborted :
    ∃ s : Client Int, (s.connections 1).writer = .aborted ∧ s.SharedSoundly sample 1 := by
  refine ⟨_, ?_, connections_shared_soundly (Reaches.of_exec
    [.connection 1 (.readError "reset"), .monitor .recv, .monitor .loadShutdown,
      .monitor .mark, .connection 1 .abortWriter] rfl) 1⟩
  rfl

/-! ### Letting go -/

/-- A step by which a party that has connection `g` comes closer to dropping it, or by
which a task of `g` comes to its end. -/
def Winds (g : Nat) (s : Client V) : Label V → Prop
  | .call c .offer => s.owned (.call c) = some g
  | .call c .report => s.owned (.call c) = some g
  | .disconnect d .requestClose => s.owned (.disconnect d) = some g
  | .disconnect d .timeout => s.owned (.disconnect d) = some g
  | .disconnect d .finishClose => s.owned (.disconnect d) = some g
  | .connection g' .dispatch => g' = g
  | .connection g' .abortReader => g' = g
  | .connection g' .abortWriter => g' = g
  | _ => False

/-- What is left to do before connection `g` is gone: its owners, the calls its
reader has to make, its tasks. -/
def busy (s : Client V) (g : Nat) : Nat :=
  (s.connections g).holders.length +
    (match (s.connections g).reader with
      | .running todo => todo.length + 1
      | _ => 0) +
    if (s.connections g).writer = .running then 1 else 0

/-- Nobody owns connection `g`, and neither of its tasks runs. -/
structure Freed (s : Client V) (g : Nat) : Prop where
  holders : (s.connections g).holders = []
  reader : ∀ todo, (s.connections g).reader ≠ .running todo
  writer : (s.connections g).writer ≠ .running

/-- A step of a call that owned connection `g` and owns nothing after it. -/
theorem callStep_drop {c g : Nat} {l : CallLabel V} (h : s.callStep c l = some t)
    (howned : s.owned (.call c) = some g) (hnone : t.owned (.call c) = none) :
    t.ledger = s.ledger.drop g (.call c) := by
  rcases callStep_ledger h with hledger | ⟨g', -, hnone', -⟩ | ⟨g', howned', hledger⟩
  · have howned' : t.owned (.call c) = s.owned (.call c) :=
      congrArg (fun b : Ledger Nat Holder => b.owned (.call c)) hledger
    rw [hnone, howned] at howned'
    simp at howned'
  · rw [howned] at hnone'
    simp at hnone'
  · rw [howned] at howned'
    obtain rfl := Option.some.inj howned'
    exact hledger

/-- Letting go of connection `g` by `x`: a few steps, after which everything but the
ledger's account of `x` is as before, as far as other parties' connections, the tasks
and the control part go. -/
structure LetsGo (C : Config) (g : Nat) (x : Holder) (s t : Client V) : Prop where
  reaches : Reaches (step C) (Winds g) s t
  control : t.control = s.control
  ledger : t.ledger = s.ledger.drop g x
  tasks : (t.connections g).reader = (s.connections g).reader ∧
    (t.connections g).writer = (s.connections g).writer

/-- A refused call reports the loss and lets go. -/
theorem letsGo_rejected {c g : Nat} {error : String} (hpc : (s.calls c).pc = .rejected g error) :
    ∃ t, LetsGo C g (.call c) s t := by
  have howned : s.owned (.call c) = some g := congrArg CallPc.connection hpc
  have hstep : s.callStep c .report = some
      (((s.emit (.connectionLost g error)).release g (.call c)).failCall c error) := by
    simp [callStep, hpc]
  have hf := (callStep_frame hstep).1
  refine ⟨_, .head (.call c .report) howned hstep (.refl _), hf.control,
    callStep_drop hstep howned ?_, hf.tasks g⟩
  exact congrArg (·.pc.connection) (setCall_self _ c _)

/-- A call that has connection `g` offers its request, and lets go at once or after
its report. -/
theorem letsGo_call {c g : Nat} (howned : s.owned (.call c) = some g) :
    ∃ t, LetsGo C g (.call c) s t := by
  cases hpc : (s.calls c).pc with
  | holding g' =>
      obtain rfl : g' = g := Option.some.inj ((congrArg CallPc.connection hpc).symm.trans howned)
      have hstep : s.callStep c .offer = some (s.offer c g') := by simp [callStep, hpc]
      have hf := (callStep_frame hstep).1
      by_cases hwriter : (s.connections g').writer = .running
      · refine ⟨_, .head (.call c .offer) howned hstep (.refl _), hf.control,
          callStep_drop hstep howned ?_, hf.tasks g'⟩
        rw [offer, if_pos hwriter]
        refine (congrArg (·.pc.connection) (setCall_self _ c _)).trans ?_
        show CallPc.connection (if _ then _ else _) = none
        split <;> rfl
      · -- the channel is closed
        have hpc' : ((s.offer c g').calls c).pc
            = .rejected g' ("Failed to send: " ++ channelClosed) := by
          rw [offer, if_neg hwriter, setCall_self]
        have hledger : (s.offer c g').ledger = s.ledger := by
          rw [offer, if_neg hwriter] at hf ⊢
          refine hf.ledger_same (fun _ => rfl) ?_
          rw [setCall_self, hpc]
          rfl
        obtain ⟨t, ht⟩ := letsGo_rejected (C := C) hpc'
        refine ⟨t, .head (.call c .offer) howned hstep ht.reaches, ht.control.trans hf.control, ?_,
          ht.tasks.1.trans (hf.tasks g').1, ht.tasks.2.trans (hf.tasks g').2⟩
        rw [ht.ledger, hledger]
  | rejected g' error =>
      obtain rfl : g' = g := Option.some.inj ((congrArg CallPc.connection hpc).symm.trans howned)
      exact letsGo_rejected hpc
  | _ =>
      rw [show s.owned (.call c) = _ from congrArg CallPc.connection hpc] at howned
      simp [CallPc.connection] at howned

/-- The end of a close. -/
theorem letsGo_finishClose {d g : Nat} {l : DisconnectLabel} (result : Except String Unit)
    (hwinds : Winds g s (.disconnect d l))
    (hstep : s.disconnectStep d l = some (s.finishClose d g result)) :
    ∃ t, LetsGo C g (.disconnect d) s t := by
  refine ⟨_, .head (.disconnect d l) hwinds hstep (.refl _), rfl, ?_,
    (disconnectStep_move hstep).frame.tasks g⟩
  exact finishClose_ledger s d g result

/-- A disconnect that waits for its answer times out. -/
theorem letsGo_awaiting {d g : Nat} (hd : s.disconnects d = .awaiting g) :
    ∃ t, LetsGo C g (.disconnect d) s t := by
  have howned : s.owned (.disconnect d) = some g := congrArg DisconnectPc.connection hd
  exact letsGo_finishClose (l := .timeout) _ howned (by rw [disconnectStep, hd])

/-- A disconnect gives up on its answer, if there is none yet, and lets go. -/
theorem letsGo_disconnect {d g : Nat} (howned : s.owned (.disconnect d) = some g) :
    ∃ t, LetsGo C g (.disconnect d) s t := by
  cases hd : s.disconnects d with
  | closing g' =>
      obtain rfl : g' = g :=
        Option.some.inj ((congrArg DisconnectPc.connection hd).symm.trans howned)
      by_cases hwriter : (s.connections g').writer = .running
      · -- the command is accepted; no answer is waited for longer than the timeout
        have hstep : s.disconnectStep d .requestClose = some
            ((s.setConnection g' { s.connections g' with
              commands := (s.connections g').commands ++ [.close d] }).setDisconnect d
                (.awaiting g')) := by
          simp [disconnectStep, hd, hwriter]
        generalize hu : (s.setConnection g' { s.connections g' with
          commands := (s.connections g').commands ++ [.close d] }).setDisconnect d
            (.awaiting g') = u at hstep
        have hd' : u.disconnects d = .awaiting g' := by
          rw [← hu, setDisconnect_self]
        have hledger : u.ledger = s.ledger := by
          rw [← hu]
          refine ledger_congr (holders_setConnection s rfl) fun x => ?_
          by_cases hx : x = .disconnect d
          · subst hx
            rw [owned_setDisconnect_self, howned]
            rfl
          · exact owned_setDisconnect rfl rfl rfl rfl x hx
        have hcontrol : u.control = s.control := by
          rw [← hu]
          rfl
        have htasks := (disconnectStep_move hstep).frame.tasks g'
        obtain ⟨t, ht⟩ := letsGo_awaiting (C := C) hd'
        refine ⟨t, .head (.disconnect d .requestClose) howned hstep ht.reaches,
          ht.control.trans hcontrol, ?_, ht.tasks.1.trans htasks.1, ht.tasks.2.trans htasks.2⟩
        rw [ht.ledger, hledger]
      · refine letsGo_finishClose (l := .requestClose)
          (.error ("Failed to request graceful close: " ++ channelClosed)) howned ?_
        rw [disconnectStep, hd]
        exact congrArg some (if_neg hwriter)
  | awaiting g' =>
      obtain rfl : g' = g :=
        Option.some.inj ((congrArg DisconnectPc.connection hd).symm.trans howned)
      exact letsGo_awaiting hd
  | answered g' result =>
      obtain rfl : g' = g :=
        Option.some.inj ((congrArg DisconnectPc.connection hd).symm.trans howned)
      exact letsGo_finishClose (l := .finishClose) _ howned (by rw [disconnectStep, hd])
  | _ =>
      rw [show s.owned (.disconnect d) = _ from congrArg DisconnectPc.connection hd] at howned
      simp [DisconnectPc.connection] at howned

/-- Any owner but the state and the monitor lets go. -/
theorem letsGo {x : Holder} {g : Nat} (howned : s.owned x = some g)
    (hstate : s.state ≠ .connected g) (hmonitor : s.monitor ≠ .installing g) :
    ∃ t, LetsGo C g x s t := by
  cases x with
  | state =>
      have hs : s.state.connection = some g := howned
      cases hs' : s.state <;> simp_all [ConnectionState.connection]
  | monitor =>
      have hm : s.monitor.connection = some g := howned
      cases hm' : s.monitor <;> simp_all [MonitorPc.connection]
  | call c => exact letsGo_call howned
  | disconnect d => exact letsGo_disconnect howned

/-- An owner fewer. -/
theorem LetsGo.busy_lt {x : Holder} {g : Nat} (h : LetsGo C g x s t)
    (hx : x ∈ (s.connections g).holders) : t.busy g < s.busy g := by
  have hheld : (t.connections g).holders = (s.connections g).holders.erase x := by
    have := congrArg (fun b : Ledger Nat Holder => b.held g) h.ledger
    exact this.trans (Function.update_self ..)
  have hlt := List.length_erase_of_mem hx
  have hpos := List.length_pos_of_mem hx
  rw [busy, busy, hheld, h.tasks.1, h.tasks.2]
  omega

/-- The reader makes its next call. -/
theorem busy_dispatch {g : Nat} {m : RawMessage} {rest : List RawMessage}
    (hreader : (s.connections g).reader = .running (m :: rest)) :
    (s.dispatch C g m rest).busy g < s.busy g := by
  rw [dispatch]
  split
  · rw [busy, busy, setConnection_self, hreader]
    simp only [List.length_cons]
    omega
  · rw [busy, busy, setConnection_self, hreader]
    simp only [List.length_cons]
    omega

/-- A task of a connection without owners comes to its end, or nearer to it. -/
theorem tasks_end {g : Nat} (hnil : (s.connections g).holders = []) (hfreed : ¬ s.Freed g) :
    ∃ l t, s.connectionStep C g l = some t ∧ Winds g s (.connection g l) ∧
      t.busy g < s.busy g := by
  by_cases hreader : ∃ todo, (s.connections g).reader = .running todo
  · obtain ⟨_ | ⟨m, rest⟩, hreader⟩ := hreader
    · refine ⟨.abortReader, _, if_pos ⟨hreader, hnil⟩, rfl, ?_⟩
      rw [busy, busy, setConnection_self, hreader]
      simp only [List.length_nil]
      omega
    · refine ⟨.dispatch, s.dispatch C g m rest, ?_, rfl, busy_dispatch hreader⟩
      simp only [connectionStep, hreader]
  · have hwriter : (s.connections g).writer = .running := by
      by_contra hwriter
      exact hfreed ⟨hnil, fun todo ht => hreader ⟨todo, ht⟩, hwriter⟩
    refine ⟨.abortWriter, _, if_pos ⟨hwriter, hnil⟩, rfl, ?_⟩
    rw [busy, busy, setConnection_self, hwriter]
    simp

/-- Where neither the connection state nor the monitor has connection `g`, there is a
next step on its way to its end, or two. -/
theorem drain_progress {C : Config} {s : Client V} (h : Reachable C free s) {g : Nat}
    (hstate : s.state ≠ .connected g) (hmonitor : s.monitor ≠ .installing g)
    (hfreed : ¬ s.Freed g) :
    ∃ t, Reaches (step C) (Winds g) s t ∧ t.control = s.control ∧ t.busy g < s.busy g := by
  rcases hheld : (s.connections g).holders with - | ⟨x, l⟩
  · obtain ⟨l, t, hst, hwinds, hlt⟩ := tasks_end (C := C) hheld hfreed
    have hstep : step C s (.connection g l) = some t := hst
    exact ⟨t, .head _ hwinds hstep (.refl t), (connectionStep_frame hst).control, hlt⟩
  · have hx : x ∈ (s.connections g).holders := by simp [hheld]
    obtain ⟨t, ht⟩ := letsGo (C := C) ((h.known.balanced.mem g x).mp hx) hstate hmonitor
    exact ⟨t, ht.reaches, ht.control, ht.busy_lt hx⟩

/-- **A connection that was given up drains.**  From every reachable state in which
neither the connection state nor the monitor has connection `g`, the parties that
still have it can let go of it and its tasks can end, by steps of their own only:
no frame from the server, no step of the monitor, no new call or disconnect and no
user is needed, and the control part stays as it is. -/
theorem given_up_connection_drains {C : Config} {s : Client V} (h : Reachable C free s) {g : Nat}
    (hstate : s.state ≠ .connected g) (hmonitor : s.monitor ≠ .installing g) :
    ∃ t, Reaches (step C) (Winds g) s t ∧ t.Freed g ∧ t.control = s.control := by
  have hdrain : ∀ u : Client V, Reachable C free u ∧ u.control = s.control → ¬ u.Freed g →
      ∃ v, Reaches (step C) (Winds g) u v ∧
        (Reachable C free v ∧ v.control = s.control) ∧ v.busy g < u.busy g := by
    rintro u ⟨hu, hcontrol⟩ hfreed
    obtain ⟨v, hv, hcontrol', hlt⟩ := drain_progress hu
      (fun hg => hstate ((state_of_control hcontrol).symm.trans hg))
      (fun hg => hmonitor ((monitor_of_control hcontrol).symm.trans hg)) hfreed
    exact ⟨v, hv, ⟨hu.trans (hv.mono fun _ _ _ => trivial), hcontrol'.trans hcontrol⟩, hlt⟩
  obtain ⟨t, ht, ⟨-, hcontrol⟩, hfreed⟩ := Reaches.variant (busy · g) hdrain ⟨h, rfl⟩
  exact ⟨t, ht, hfreed, hcontrol⟩

theorem given_up_connection_drains_call :
    ∃ s : Client Int, (s.connections 1).holders = [.call 0] ∧
      ∃ t, Reaches (step sample) (Winds 1) s t ∧ t.Freed 1 ∧ t.control = s.control := by
  refine ⟨_, ?_, given_up_connection_drains (Reaches.of_exec
    [.call 0 .send, .call 0 .lookup, .connection 1 (.readError "reset"), .monitor .recv,
      .monitor .loadShutdown, .monitor .mark] rfl) ?_ ?_⟩
  · rfl
  · exact nofun
  · exact nofun

end

end Client

end SignalR
