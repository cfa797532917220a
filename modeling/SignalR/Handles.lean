/-
SignalR/Handles.lean

Client handles and the reconnect monitor.  Every `SignalRClient` owns a reference of the
shared part of the client, and the monitor upgrades its weak reference to one while it
works on an event, a whole reconnect cycle included.

`disconnect` raises the shutdown flag only if it counts no other reference, so the last
handle does not raise it while the monitor is at work: the cycle goes on without a
client.  After the last handle is gone nothing is renewed if and as long as the
monitor's work is over at that moment, by its position or by the flag
(`no_renewal_when_gone`).
-/
import SignalR.Parties

namespace SignalR

open Transition

variable {V : Type}

/-! ### Handles -/

/-- Where a `SignalRClient` is.  After `disconnect(self)` the value is dropped, and `drop`
calls the same `disconnect` once more: `again` says that this is still to come. -/
inductive HandlePc
  | live
  /-- Before `disconnect` reads the strong count. -/
  | counting (again : Bool)
  /-- It was the last reference; next is the flag. -/
  | flagging (again : Bool)
  /-- Before the state is changed. -/
  | storing (again : Bool)
  /-- Before `Shutdown` is sent. -/
  | sending (again : Bool)
  /-- Before the fields are dropped. -/
  | leaving
  | gone
  deriving DecidableEq

/-- After one `disconnect`. -/
def HandlePc.afterDisconnect (again : Bool) : HandlePc :=
  if again then .counting false else .leaving

/-- The monitor owns a reference: it has upgraded at `recv`, and drops the reference when
it comes back there or returns. -/
def MonitorPc.upgraded : MonitorPc → Bool
  | .idle | .stopped => false
  | _ => true

/-- A client and its handles. -/
structure Handles (V : Type) where
  client : Client V
  handles : List HandlePc

/-- The steps of the handle with a given number, of the monitor, and of the other
parties of the client. -/
inductive HandleLabel (V : Type)
  | clone (k : Nat)
  /-- The handle goes out of scope. -/
  | drop (k : Nat)
  /-- `SignalRClient::disconnect`. -/
  | disconnect (k : Nat)
  | count (k : Nat)
  | raiseFlag (k : Nat)
  | store (k : Nat)
  | sendShutdown (k : Nat)
  /-- The reference is dropped. -/
  | release (k : Nat)
  | monitor (l : Client.MonitorLabel)
  | other (l : Client.Label V)

/-- The shared part is freed, and the connection in its state is dropped. -/
def Client.freeShared (s : Client V) : Client V :=
  s.setState .notConnected

namespace Handles

/-- What `connect` returns. -/
def init (C : Config) : Handles V where
  client := .init C
  handles := [.live]

/-- `Arc::strong_count` of the shared part. -/
def strongCount (s : Handles V) : Nat :=
  s.handles.countP (· ≠ .gone) + if s.client.monitor.upgraded then 1 else 0

/-- No handle is left. -/
def AllGone (s : Handles V) : Prop :=
  ∀ pc ∈ s.handles, pc = .gone

instance (s : Handles V) : Decidable s.AllGone :=
  inferInstanceAs (Decidable (∀ pc ∈ s.handles, pc = .gone))

def setHandle (s : Handles V) (k : Nat) (pc : HandlePc) : Handles V :=
  { s with handles := s.handles.set k pc }

/-- The shared part is freed with its last reference. -/
def settle (s : Handles V) : Handles V :=
  if s.strongCount = 0 then { s with client := s.client.freeShared } else s

/-- One step. -/
def step (C : Config) (s : Handles V) : HandleLabel V → Option (Handles V)
  | .clone k =>
      if s.handles[k]? = some .live then some { s with handles := s.handles ++ [.live] }
      else none
  | .drop k =>
      if s.handles[k]? = some .live then some (s.setHandle k (.counting false)) else none
  | .disconnect k =>
      if s.handles[k]? = some .live then some (s.setHandle k (.counting true)) else none
  | .count k =>
      match s.handles[k]? with
      | some (.counting again) =>
          -- the count includes the handle's own reference
          some (s.setHandle k
            (if s.strongCount - 1 > 0 then .afterDisconnect again else .flagging again))
      | _ => none
  | .raiseFlag k =>
      match s.handles[k]? with
      | some (.flagging again) =>
          some ({ s with client := { s.client with shutdown := true } }.setHandle k
            (.storing again))
      | _ => none
  | .store k =>
      match s.handles[k]? with
      | some (.storing again) =>
          some ({ s with client := s.client.setState .notConnected }.setHandle k (.sending again))
      | _ => none
  | .sendShutdown k =>
      match s.handles[k]? with
      | some (.sending again) =>
          some ({ s with client := s.client.emit .shutdown }.setHandle k
            (.afterDisconnect again))
      | _ => none
  | .release k =>
      if s.handles[k]? = some .leaving then some (s.setHandle k .gone).settle else none
  | .monitor l =>
      if s.client.monitor = .idle ∧ s.AllGone then
        -- an event is still delivered, but the upgrade right after `recv` fails
        if l = .recv ∧ s.client.events ≠ [] then
          some { s with client := { s.client with monitor := .stopped } }
        else none
      else (s.client.monitorStep C l).map fun client => { s with client }.settle
  | .other (.monitor _) => none
  | .other (.connection g l) =>
      (s.client.connectionStep C g l).map fun client => { s with client }
  | .other (.call c l) =>
      if .live ∈ s.handles then (s.client.callStep c l).map fun client => { s with client }
      else none
  | .other (.disconnect d l) =>
      if .live ∈ s.handles then (s.client.disconnectStep d l).map fun client => { s with client }
      else none
  | .other (.user l) =>
      if .live ∈ s.handles then some { s with client := s.client.userStep C l } else none

/-- The states that a run reaches. -/
def Reachable (C : Config) (allowed : Handles V → HandleLabel V → Prop) (s : Handles V) : Prop :=
  Reaches (step C) allowed (init C) s

/-! ### The work of the monitor -/

/-- A cycle that comes to the top of the loop would make this attempt. -/
def CycleOpen (C : Config) (shutdown : Bool) (attempt : Nat) : Prop :=
  shutdown = false ∧ ∀ n, C.policy.maxAttempts = some n → attempt ≤ n

/-- The monitor's work is over: it negotiates, installs and calls `on_reconnected` no
more before it comes back to `recv`. -/
def WorkOver (C : Config) (s : Client V) : Prop :=
  match s.monitor with
  | .idle | .stopped | .exhausted | .reconnected _ _ => True
  | .received g _ | .marking g _ =>
      -- a stale loss does not start a cycle
      s.state ≠ .connected g ∨ C.policy.enabled = false ∨ ¬ CycleOpen C s.shutdown 1
  | .cancelling _ _ | .cancelled => C.policy.enabled = false ∨ ¬ CycleOpen C s.shutdown 1
  | .reconnecting _ => ¬ CycleOpen C s.shutdown 1
  | .loopTop attempt => ¬ CycleOpen C s.shutdown attempt
  | .sleeping _ => s.shutdown = true
  | .installed _ => s.reconnectedHandler = false
  -- nothing looks at the flag from here to the new connection
  | .negotiating _ | .connecting _ _ | .installing _ => False

/-- A step begins a negotiation, installs a connection or calls the `on_reconnected`
handler. -/
def Renews (s t : Client V) : Prop :=
  (∃ attempt, s.monitor ≠ .negotiating attempt ∧ t.monitor = .negotiating attempt) ∨
    (∃ g, t.trace = s.trace ++ [.installed g]) ∨ ∃ g, t.trace = s.trace ++ [.reconnected g]

theorem not_renews_of_eq {s t : Client V} (hmonitor : t.monitor = s.monitor)
    (htrace : t.trace = s.trace) : ¬ Renews s t := by
  rintro (⟨attempt, hs, ht⟩ | ⟨g, ht⟩ | ⟨g, ht⟩)
  · exact hs (hmonitor ▸ ht)
  · simp [htrace] at ht
  · simp [htrace] at ht

theorem not_renews_of_append {s t : Client V} {l : List Observation}
    (hmonitor : ∀ attempt, t.monitor ≠ .negotiating attempt) (htrace : t.trace = s.trace ++ l)
    (hl : ∀ g, l ≠ [.installed g] ∧ l ≠ [.reconnected g]) : ¬ Renews s t := by
  rintro (⟨attempt, -, ht⟩ | ⟨g, ht⟩ | ⟨g, ht⟩)
  · exact hmonitor attempt ht
  · exact (hl g).1 (List.append_cancel_left (htrace.symm.trans ht))
  · exact (hl g).2 (List.append_cancel_left (htrace.symm.trans ht))

/-- The reference is gone with the work. -/
theorem workOver_of_not_upgraded {C : Config} {s : Client V} (h : s.monitor.upgraded = false) :
    WorkOver C s := by
  rw [WorkOver]
  split <;> simp_all [MonitorPc.upgraded]

theorem workOver_congr {C : Config} {s t : Client V} (hcontrol : t.control = s.control)
    (hhandler : t.reconnectedHandler = s.reconnectedHandler) : WorkOver C t ↔ WorkOver C s := by
  rw [WorkOver, WorkOver, Client.monitor_of_control hcontrol, Client.state_of_control hcontrol,
    Client.shutdown_of_control hcontrol, hhandler]

/-- From the top of the loop the monitor goes to sleep only if the cycle is open. -/
theorem cycleOpen_of_sleeping {C : Config} {s t : Client V} {l : Client.MonitorLabel}
    {attempt attempt' : Nat} (h : s.monitorStep C l = some t)
    (hs : s.monitor = .loopTop attempt) (ht : t.monitor = .sleeping attempt') :
    CycleOpen C s.shutdown attempt := by
  cases Client.monitorStep_move h with
  | sleep hm hflag hmax =>
      obtain rfl := MonitorPc.loopTop.inj (hs.symm.trans hm)
      exact ⟨hflag, hmax⟩
  -- no other move puts the monitor to sleep
  | _ => simp_all

/-- **A step of a monitor whose work is over** renews nothing, and the work stays over. -/
theorem WorkOver.monitorStep {C : Config} {s t : Client V} {l : Client.MonitorLabel}
    (ho : WorkOver C s) (hidle : s.monitor ≠ .idle) (h : s.monitorStep C l = some t) :
    WorkOver C t ∧ ¬ Renews s t := by
  have hnil : ∀ g, ([] : List Observation) ≠ [.installed g] ∧
      ([] : List Observation) ≠ [.reconnected g] := fun g => ⟨nofun, nofun⟩
  have htrace : s.trace = s.trace ++ [] := (List.append_nil _).symm
  cases Client.monitorStep_move h with
  | recv hm | recvShutdown hm => exact absurd hm hidle
  | leave | interrupt | exhaust | disabled | storeExhausted | finish | markStale
  | handlerReconnected =>
      exact ⟨trivial, not_renews_of_append nofun htrace hnil⟩
  | load hm hflag =>
      simp only [WorkOver, hm] at ho
      exact ⟨ho, not_renews_of_append nofun htrace hnil⟩
  | markCurrent hm hstate =>
      simp only [WorkOver, hm] at ho
      exact ⟨ho.resolve_left (absurd hstate),
        not_renews_of_append nofun rfl fun g => ⟨nofun, nofun⟩⟩
  | cancel hm =>
      simp only [WorkOver, hm] at ho
      exact ⟨ho, not_renews_of_append nofun rfl fun g => ⟨nofun, nofun⟩⟩
  | notify hm henabled =>
      simp only [WorkOver, hm] at ho
      exact ⟨ho.resolve_left (by simp [henabled]),
        not_renews_of_append nofun rfl fun g => ⟨nofun, nofun⟩⟩
  | startCycle hm =>
      have hclosed : ¬ CycleOpen C s.shutdown 1 := by
        rcases hm with ⟨hm, henabled⟩ | hm
        · simp only [WorkOver, hm] at ho
          exact ho.resolve_left (by simp [henabled])
        · simpa only [WorkOver, hm] using ho
      exact ⟨hclosed, not_renews_of_append nofun rfl fun g => ⟨nofun, nofun⟩⟩
  | handler hm =>
      simp only [WorkOver, hm] at ho
      exact ⟨ho, not_renews_of_append nofun htrace hnil⟩
  | sleep hm =>
      simp only [WorkOver, hm] at ho
      exact absurd (cycleOpen_of_sleeping h hm rfl) ho
  | wake hm hflag =>
      simp only [WorkOver, hm] at ho
      exact absurd (hflag.symm.trans ho) nofun
  | negotiated hm | connect hm | install hm =>
      simp only [WorkOver, hm] at ho
  | retry hm =>
      rcases hm with hm | ⟨_, hm⟩
      · simp only [WorkOver, hm] at ho
      · simp only [WorkOver, hm] at ho
  | notifyReconnected hm hhandler =>
      simp only [WorkOver, hm] at ho
      exact absurd (hhandler.symm.trans ho) nofun

/-! ### The last handle -/

/-- No callback is registered. -/
def NoCallbacks (_ : Handles V) (l : HandleLabel V) : Prop :=
  ∀ target callback, l ≠ .other (.user (.register target callback))

/-- Besides, the last handle drops its reference only when the monitor's work is over. -/
def LastLeavesQuietly (C : Config) (s : Handles V) (l : HandleLabel V) : Prop :=
  s.NoCallbacks l ∧
    ∀ k, l = .release k → (∀ j pc, s.handles[j]? = some pc → j ≠ k → pc = .gone) →
      WorkOver C s.client

variable {C : Config} {s t : Handles V} {l : HandleLabel V} {k : Nat}

/-- A handle that is not gone, in the list after a change. -/
theorem not_allGone_setHandle {pc pc' : HandlePc} (hk : s.handles[k]? = some pc)
    (hpc : pc' ≠ .gone) : ¬ (s.setHandle k pc').AllGone := by
  intro hgone
  obtain ⟨hlt, -⟩ := List.getElem?_eq_some_iff.mp hk
  have hmem : pc' ∈ s.handles.set k pc' := by
    apply List.mem_iff_getElem?.mpr
    exact ⟨k, List.getElem?_set_self hlt⟩
  exact hpc (hgone pc' hmem)

theorem afterDisconnect_ne_gone (again : Bool) : HandlePc.afterDisconnect again ≠ .gone := by
  cases again <;> simp [HandlePc.afterDisconnect]

theorem handles_settle : s.settle.handles = s.handles := by
  rw [settle]
  split <;> rfl

/-- The shared part is freed while the monitor is at `recv` or has returned. -/
theorem workOver_settle (h : WorkOver C s.client) : WorkOver C s.settle.client := by
  rw [settle]
  split
  · rename_i hcount
    apply workOver_of_not_upgraded
    show s.client.monitor.upgraded = false
    rw [strongCount] at hcount
    by_contra hup
    rw [if_pos (by simpa using hup)] at hcount
    omega
  · exact h

theorem renews_settle {u : Client V} : Renews u s.settle.client ↔ Renews u s.client := by
  rw [settle]
  split <;> rfl

/-- The steps that leave no handle. -/
inductive LastStep (C : Config) (s : Handles V) : HandleLabel V → Handles V → Prop
  | release {k : Nat} :
      s.handles[k]? = some .leaving → LastStep C s (.release k) (s.setHandle k .gone).settle
  | connection {g : Nat} {m : Client.ConnectionLabel} {u : Client V} :
      s.client.connectionStep C g m = some u →
      LastStep C s (.other (.connection g m)) { s with client := u }
  | stop {m : Client.MonitorLabel} :
      s.client.monitor = .idle →
      LastStep C s (.monitor m) { s with client := { s.client with monitor := .stopped } }
  | monitor {m : Client.MonitorLabel} {u : Client V} :
      s.client.monitor ≠ .idle → s.client.monitorStep C m = some u →
      LastStep C s (.monitor m) { s with client := u }.settle

theorem not_allGone_of_live {handles : List HandlePc} (h : .live ∈ handles) (u : Client V) :
    ¬ ({ client := u, handles } : Handles V).AllGone :=
  fun hgone => absurd (hgone .live h) nofun

/-- Any other step takes a handle or leaves one. -/
theorem lastStep (hst : step C s l = some t) (hgone : t.AllGone) : LastStep C s l t := by
  cases l with
  | clone k =>
      obtain ⟨-, rfl⟩ := guard_of_eq_some hst
      exact absurd hgone (not_allGone_of_live (by simp) _)
  | drop k | disconnect k =>
      obtain ⟨hk, rfl⟩ := guard_of_eq_some hst
      exact absurd hgone (not_allGone_setHandle hk nofun)
  | count k =>
      simp only [step] at hst
      split at hst
      · rename_i hk
        obtain rfl := Option.some.inj hst
        refine absurd hgone (not_allGone_setHandle hk ?_)
        split
        · exact afterDisconnect_ne_gone _
        · simp
      · simp at hst
  | raiseFlag k | store k =>
      simp only [step] at hst
      split at hst
      · rename_i hk
        obtain rfl := Option.some.inj hst
        exact absurd hgone (not_allGone_setHandle (s := { s with client := _ }) hk nofun)
      · simp at hst
  | sendShutdown k =>
      simp only [step] at hst
      split at hst
      · rename_i hk
        obtain rfl := Option.some.inj hst
        exact absurd hgone
          (not_allGone_setHandle (s := { s with client := _ }) hk (afterDisconnect_ne_gone _))
      · simp at hst
  | release k =>
      obtain ⟨hk, rfl⟩ := guard_of_eq_some hst
      exact .release hk
  | monitor m =>
      simp only [step] at hst
      split at hst
      · rename_i hidle
        split at hst
        · obtain rfl := Option.some.inj hst
          exact .stop hidle.1
        · simp at hst
      · rename_i hnot
        obtain ⟨u, hu, rfl⟩ := Option.map_eq_some_iff.mp hst
        have hs : s.AllGone := by
          rw [AllGone, handles_settle] at hgone
          exact hgone
        exact .monitor (fun hidle => hnot ⟨hidle, hs⟩) hu
  | other l =>
      cases l with
      | monitor => simp [step] at hst
      | connection g m =>
          obtain ⟨u, hu, rfl⟩ := Option.map_eq_some_iff.mp hst
          exact .connection hu
      | call | disconnect =>
          simp only [step] at hst
          split at hst
          · rename_i hlive
            obtain ⟨u, -, rfl⟩ := Option.map_eq_some_iff.mp hst
            exact absurd hgone (not_allGone_of_live hlive _)
          · simp at hst
      | user =>
          obtain ⟨hlive, rfl⟩ := guard_of_eq_some hst
          exact absurd hgone (not_allGone_of_live hlive _)

theorem gone_of_getElem? (hgone : s.AllGone) {pc : HandlePc} (hk : s.handles[k]? = some pc) :
    pc = .gone :=
  hgone pc (List.mem_of_getElem? hk)

/-- No handle comes back. -/
theorem allGone_step (hgone : s.AllGone) (hst : step C s l = some t) : t.AllGone := by
  cases l with
  | clone k | drop k | disconnect k | count k | raiseFlag k | store k | sendShutdown k
  | release k =>
      simp only [step] at hst
      split at hst
      · rename_i hk
        exact absurd (gone_of_getElem? hgone hk) nofun
      · simp at hst
  | monitor m =>
      simp only [step] at hst
      split at hst
      · split at hst
        · obtain rfl := Option.some.inj hst
          exact hgone
        · simp at hst
      · obtain ⟨u, -, rfl⟩ := Option.map_eq_some_iff.mp hst
        rw [AllGone, handles_settle]
        exact hgone
  | other l =>
      cases l with
      | monitor => simp [step] at hst
      | connection g m =>
          obtain ⟨u, -, rfl⟩ := Option.map_eq_some_iff.mp hst
          exact hgone
      | call | disconnect | user =>
          simp only [step] at hst
          split at hst
          · rename_i hlive
            exact absurd (hgone .live hlive) nofun
          · simp at hst

/-- Without handles the monitor's work is over. -/
theorem workOver_of_allGone (h : Reachable C (LastLeavesQuietly C) s) (hgone : s.AllGone) :
    WorkOver C s.client := by
  refine Reaches.invariant (I := fun s => s.AllGone → WorkOver C s.client) h ?_ ?_ hgone
  · intro hgone
    exact absurd (hgone .live List.mem_cons_self) nofun
  · intro s l t hi hallowed hst hgone
    cases lastStep hst hgone with
    | release hk =>
        rename_i k
        -- the others were gone before
        apply workOver_settle
        apply hallowed.2 k rfl
        intro j pc hj hne
        rw [AllGone, handles_settle] at hgone
        apply hgone
        apply List.mem_iff_getElem?.mpr
        refine ⟨j, ?_⟩
        show (s.handles.set k .gone)[j]? = some pc
        rw [List.getElem?_set_ne (Ne.symm hne), hj]
    | connection hu =>
        have hf := Client.connectionStep_frame hu
        exact (workOver_congr hf.control hf.handlers.2).mpr (hi hgone)
    | stop => exact trivial
    | monitor hidle hu =>
        rw [AllGone, handles_settle] at hgone
        exact workOver_settle ((hi hgone).monitorStep hidle hu).1

/-- **After the last handle is gone nothing is renewed.**  In every run without callbacks
in which the last handle drops its reference only when the monitor's work is over: once
no handle is left, no step begins a negotiation, installs a connection or calls the
`on_reconnected` handler. -/
theorem no_renewal_when_gone (h : Reachable C (LastLeavesQuietly C) s) (hgone : s.AllGone)
    (hst : step C s l = some t) : ¬ Renews s.client t.client := by
  have ho := workOver_of_allGone h hgone
  cases lastStep hst (allGone_step hgone hst) with
  | release hk => exact absurd (gone_of_getElem? hgone hk) nofun
  | connection hu =>
      have hf := Client.connectionStep_frame hu
      exact not_renews_of_eq (Client.monitor_of_control hf.control)
        (Client.trace_of_control hf.control)
  | stop =>
      exact not_renews_of_append nofun (List.append_nil _).symm fun g => ⟨nofun, nofun⟩
  | monitor hidle hu =>
      rw [renews_settle]
      exact (ho.monitorStep hidle hu).2

/-- The last handle has seen the monitor at `recv`; before it raises the flag a loss
starts a cycle, which the flag stops. -/
theorem no_renewal_when_gone_flagged :
    ∃ s t : Handles Int, s.AllGone ∧ s.client.monitor = .sleeping 1 ∧
      step Client.sample s (.monitor .wake) = some t ∧ ¬ Renews s.client t.client := by
  have hrun : Reachable Client.sample (LastLeavesQuietly Client.sample) (V := Int) _ :=
    .head (.drop 0) ⟨nofun, nofun⟩ rfl <|
    .head (.count 0) ⟨nofun, nofun⟩ rfl <|
    .head (.other (.connection 1 (.readError "reset"))) ⟨nofun, nofun⟩ rfl <|
    .head (.monitor .recv) ⟨nofun, nofun⟩ rfl <|
    .head (.monitor .loadShutdown) ⟨nofun, nofun⟩ rfl <|
    .head (.monitor .mark) ⟨nofun, nofun⟩ rfl <|
    .head (.monitor .cancel) ⟨nofun, nofun⟩ rfl <|
    .head (.monitor .startReconnecting) ⟨nofun, nofun⟩ rfl <|
    .head (.monitor .checkTop) ⟨nofun, nofun⟩ rfl <|
    .head (.raiseFlag 0) ⟨nofun, nofun⟩ rfl <|
    .head (.store 0) ⟨nofun, nofun⟩ rfl <|
    .head (.sendShutdown 0) ⟨nofun, nofun⟩ rfl <|
    .head (.release 0) ⟨nofun, fun _ _ _ => rfl⟩ rfl <|
    .refl _
  obtain ⟨s, hrun, hhandles, hm, t, hst⟩ : ∃ s : Handles Int,
      Reachable Client.sample (LastLeavesQuietly Client.sample) s ∧ s.handles = [.gone] ∧
        s.client.monitor = .sleeping 1 ∧ ∃ t, step Client.sample s (.monitor .wake) = some t :=
    ⟨_, hrun, rfl, rfl, _, rfl⟩
  have hgone : s.AllGone := by simp [AllGone, hhandles]
  exact ⟨s, t, hgone, hm, hst, no_renewal_when_gone hrun hgone hst⟩

/-- The last handle counts the monitor's reference and leaves without the flag: the cycle
goes on to a negotiation and a new connection. -/
theorem cycle_outlives_handles :
    ∃ s t u : Handles Int,
      Reachable Client.sample NoCallbacks s ∧
      s.AllGone ∧ step Client.sample s (.monitor .wake) = some t ∧ Renews s.client t.client ∧
      Reaches (step Client.sample) free t u ∧ u.client.state = .connected 2 := by
  have hrun : Reachable Client.sample NoCallbacks (V := Int) _ :=
    .head (.other (.connection 1 (.readError "reset"))) nofun rfl <|
    .head (.monitor .recv) nofun rfl <|
    .head (.monitor .loadShutdown) nofun rfl <|
    .head (.monitor .mark) nofun rfl <|
    .head (.monitor .cancel) nofun rfl <|
    .head (.monitor .startReconnecting) nofun rfl <|
    .head (.monitor .checkTop) nofun rfl <|
    .head (.drop 0) nofun rfl <|
    .head (.count 0) nofun rfl <|
    .head (.release 0) nofun rfl <|
    .refl _
  obtain ⟨s, hrun, hhandles, hm, t, hst, ht, u, hu, hstate⟩ : ∃ s : Handles Int,
      Reachable Client.sample NoCallbacks s ∧
        s.handles = [.gone] ∧ s.client.monitor = .sleeping 1 ∧
        ∃ t, step Client.sample s (.monitor .wake) = some t ∧
          t.client.monitor = .negotiating 1 ∧
          ∃ u, Reaches (step Client.sample) free t u ∧ u.client.state = .connected 2 :=
    ⟨_, hrun, rfl, rfl, _, rfl, rfl, _,
      .head (.monitor (.negotiated true)) trivial rfl <|
      .head (.monitor (.socket true)) trivial rfl <|
      .head (.monitor .install) trivial rfl <|
      .refl _, rfl⟩
  refine ⟨s, t, u, hrun, ?_, hst, .inl ⟨1, ?_, ht⟩, hu, hstate⟩
  · simp [AllGone, hhandles]
  · simp [hm]

end Handles

end SignalR
