/-
SignalR/Charges.lean

Which generation the cancellation of a call is charged to.

Cancellation takes everything in the map.  So it also hits a call that has inserted
its action but has yet to look up a connection, and such a call may find a later
connection and be sent there, although its caller was told that the connection was
lost (`cancelled_call_sent_later`).  If no call finds a connection after its own
cancellation, every cancellation comes from the generation that accepted the call or
from a later one (`ChargeInv`, `loss_charged_in_order`).
-/
import SignalR.Losses

namespace SignalR

open Transition

variable {V : Type}

/-! ### Installed generations -/

theorem mem_installs_append {trace l : List Observation} {g : Nat}
    (h : g ∈ 1 :: installs trace) : g ∈ 1 :: installs (trace ++ l) := by
  rw [installs] at h ⊢
  rw [List.filterMap_append, ← List.cons_append]
  exact List.mem_append_left _ h

/-- The latest generation has been installed. -/
theorem latest_mem (trace : List Observation) : latest trace ∈ 1 :: installs trace := by
  rw [latest]
  rcases h : installs trace with - | ⟨g, l⟩
  · exact List.mem_singleton_self 1
  · rw [List.getLastD_eq_getLast?, List.getLast?_eq_some_getLast (List.cons_ne_nil g l)]
    exact List.mem_cons_of_mem _ (List.getLast_mem _)

namespace Client

/-! ### The condition and the invariant -/

/-- The future of call `c` was resolved by the cancellation for generation `g`. -/
def CancelledFor (s : Client V) (c g : Nat) : Prop :=
  ∃ f futures, (s.calls c).cell = some (.future f) ∧ .cancelled g futures ∈ s.trace ∧ f ∈ futures

/-- No call finds a connection after a loss has cancelled it. -/
def FindsUncancelled (s : Client V) : Label V → Prop
  | .call c .lookup => ∀ h, s.state = .connected h → ∀ g, ¬ s.CancelledFor c g
  | _ => True

/-- A call finds installed generations only. -/
def UsesInstalled (s : Client V) : Prop :=
  ∀ c h, (s.calls c).Uses h → h ∈ 1 :: installs s.trace

/-- A call that found generation `h` is cancelled for `h` or a later one only. -/
def ChargeInv (s : Client V) : Prop :=
  ∀ c h g, (s.calls c).Uses h → s.CancelledFor c g → h ≤ g

section

variable {C : Config} {s t : Client V}

/-- A call that has its action in the map can only look up the connection. -/
theorem eq_lookup_of_inserted {c : Nat} {l : CallLabel V} (hpc : (s.calls c).pc = .inserted)
    (h : s.callStep c l = some t) : l = .lookup := by
  cases callStep_transition h with
  | lookup | lookupNotConnected | lookupReconnecting => rfl
  -- every other transition starts from another place
  | _ => simp_all

/-- A step that changes neither the call nor the trace keeps its cancellations. -/
theorem CancelledFor.of_eq {c g : Nat} (h : t.CancelledFor c g)
    (hcell : (t.calls c).cell = (s.calls c).cell) (htrace : t.trace = s.trace) :
    s.CancelledFor c g := by
  obtain ⟨f, futures, hf, hmem, hin⟩ := h
  rw [hcell] at hf
  rw [htrace] at hmem
  exact ⟨f, futures, hf, hmem, hin⟩

/-- A step adds one observation at most. -/
theorem step_trace {l : Label V} (h : step C s l = some t) :
    t.trace = s.trace ∨ ∃ o, t.trace = s.trace ++ [o] := by
  rcases step_control h with hcontrol | hm | ⟨d, hd⟩
  · exact .inl (trace_of_control hcontrol)
  · rcases hm.kinds with ⟨g, reason, -, -, -, htrace, -⟩ | ⟨g, reason, -, rfl⟩ | hq
    · exact .inr ⟨_, htrace⟩
    · exact .inr ⟨_, rfl⟩
    · exact hq.trace.imp id fun ⟨o, htrace, _⟩ => ⟨o, htrace⟩
  · exact .inl hd.frame.trace

theorem UsesInstalled.step {l : Label V} (hi : s.UsesInstalled) (hk : s.control.Inv)
    (h : Client.step C s l = some t) : t.UsesInstalled := by
  intro c g huse
  have hmem : g ∈ 1 :: installs s.trace := by
    rcases step_call h c with hcall | ⟨-, -, hmove⟩
    · rw [hcall] at huse
      exact hi c g huse
    · rcases hmove.uses huse with huse | ⟨-, hstate⟩
      · exact hi c g huse
      · have hlatest : g = latest s.trace := hk.state_latest g hstate
        rw [hlatest]
        exact latest_mem s.trace
  rcases step_trace h with htrace | ⟨o, htrace⟩
  · rw [htrace]
    exact hmem
  · rw [htrace]
    exact mem_installs_append hmem

theorem not_uses_init (C : Config) (c g : Nat) : ¬ ((init C : Client V).calls c).Uses g := by
  rintro (huse | huse) <;> simp [init, Call.new] at huse

/-- **A call finds installed generations only**, in every run. -/
theorem Reachable.usesInstalled {allowed : Client V → Label V → Prop}
    (h : Reachable C allowed s) : s.UsesInstalled :=
  Reaches.induction (I := UsesInstalled) h (fun c g huse => absurd huse (not_uses_init C c g))
    fun s _ _ (hs : Reachable C allowed s) hi _ hst => hi.step hs.control_inv hst

theorem ChargeInv.monitor {l : MonitorLabel} (hi : s.ChargeInv) (huses : s.UsesInstalled)
    (hk : s.control.Inv) (h : s.monitorStep C l = some t) : t.ChargeInv := by
  have hcalls : t.calls = s.calls := (monitorStep_move h).frame.calls
  -- one more observation, which is the cancellation for the latest generation at most
  have extend : ∀ o, t.trace = s.trace ++ [o] →
      (∀ g futures, o = .cancelled g futures → g = latest s.trace) → t.ChargeInv := by
    rintro o htrace ho c h g huse ⟨f, futures, hf, hmem, hin⟩
    rw [hcalls] at huse hf
    rw [htrace] at hmem
    rcases List.mem_append.mp hmem with hmem | hmem
    · exact hi c h g huse ⟨f, futures, hf, hmem, hin⟩
    · rw [ho g futures (List.mem_singleton.mp hmem).symm]
      exact hk.installs_le h (huses c h huse)
  rcases (monitorStep_move h).kinds with
    ⟨g, reason, -, -, -, htrace, -⟩ | ⟨g, reason, hm, rfl⟩ | hq
  · exact extend _ htrace (by simp)
  · refine extend _ rfl fun g' futures ho => ?_
    obtain ⟨rfl, -⟩ := Observation.cancelled.inj ho
    refine hk.current g ?_
    show s.monitor.Current g
    rw [hm]
    rfl
  · rcases hq.trace with htrace | ⟨o, htrace, -, ho⟩
    · intro c h g huse hc
      refine hi c h g (by rwa [hcalls] at huse) (hc.of_eq ?_ htrace)
      rw [hcalls]
    · exact extend o htrace fun g futures he => absurd he (ho g futures)

theorem ChargeInv.call {l : Label V} (hi : s.ChargeInv) (hordered : ∀ c, (s.calls c).Ordered)
    (hallowed : FindsUncancelled s l) (htrace : t.trace = s.trace) (h : step C s l = some t) :
    t.ChargeInv := by
  intro c g g' huse hc
  rcases step_call h c with hcall | ⟨⟨l', rfl⟩, -, hmove⟩
  · rw [hcall] at huse
    exact hi c g g' huse (hc.of_eq (by rw [hcall]) htrace)
  · have hc' := hc.of_eq (hmove.cell (hordered c) huse) htrace
    rcases hmove.uses huse with huse | ⟨hpc, hstate⟩
    · exact hi c g g' huse hc'
    · -- the call finds the connection only now
      obtain rfl := eq_lookup_of_inserted hpc h
      exact absurd hc' (hallowed g hstate g')

theorem ChargeInv.step {l : Label V} (hi : s.ChargeInv) (huses : s.UsesInstalled)
    (hk : s.control.Inv) (hordered : ∀ c, (s.calls c).Ordered) (hallowed : FindsUncancelled s l)
    (h : Client.step C s l = some t) : t.ChargeInv := by
  cases l with
  | call c l =>
      exact hi.call hordered hallowed (trace_of_control (callStep_frame h).1.control) h
  | connection g l =>
      exact hi.call hordered hallowed (trace_of_control (connectionStep_frame h).control) h
  | monitor l => exact hi.monitor huses hk h
  | disconnect d l => exact hi.call hordered hallowed (disconnectStep_move h).frame.trace h
  | user l =>
      refine hi.call hordered hallowed ?_ h
      obtain rfl := Option.some.inj h
      exact trace_of_control (userStep_frame C s l).1

end

/-- A request that generation `h` accepted is not cancelled for an earlier one. -/
def ChargedInOrder (s : Client V) : Prop :=
  ∀ c h g, (s.calls c).accepted = some h → s.CancelledFor c g → ¬ g < h

/-- **A loss is charged to the right generation**, if no call finds a connection
after it was cancelled. -/
theorem loss_charged_in_order {C : Config} {s : Client V} (h : Reachable C FindsUncancelled s) :
    s.ChargedInOrder := by
  have hinv : s.ChargeInv := by
    refine Reaches.induction (I := ChargeInv) h (fun c g _ huse => ?_)
      fun s _ _ (hs : Reachable C FindsUncancelled s) hi hallowed hst =>
        hi.step hs.usesInstalled hs.control_inv hs.ordered hallowed hst
    exact absurd huse (not_uses_init C c g)
  intro c g g' haccepted hc
  exact Nat.not_lt_of_le (hinv c g g' (.inr haccepted) hc)

theorem loss_charged_in_order_first :
    ∃ s : Client Int, (s.calls 0).accepted = some 1 ∧ s.CancelledFor 0 1 ∧ s.ChargedInOrder := by
  have hrun : Reachable sample FindsUncancelled (V := Int) _ :=
    .head (.call 0 (.invoke "add")) trivial rfl <|
    .head (.call 0 (.insert .i64)) trivial rfl <|
    .head (.call 0 .lookup) (fun _ _ _ ⟨_, _, _, hmem, _⟩ => absurd hmem List.not_mem_nil) rfl <|
    .head (.call 0 .offer) trivial rfl <|
    .head (.connection 1 (.readError "reset")) trivial rfl <|
    .head (.monitor .recv) trivial rfl <|
    .head (.monitor .loadShutdown) trivial rfl <|
    .head (.monitor .mark) trivial rfl <|
    .head (.monitor .cancel) trivial rfl <|
    .refl _
  exact ⟨_, rfl, ⟨0, [0], rfl, by decide, by decide⟩, loss_charged_in_order hrun⟩

/-- A call whose action was in the map when connection 1 was lost is sent on
connection 2. -/
theorem cancelled_call_sent_later :
    ∃ s : Client Int, Reachable sample NoDisconnect s ∧ ¬ s.ChargedInOrder := by
  have hrun : Reachable sample NoDisconnect (V := Int) _ :=
    .head (.call 0 (.invoke "add")) trivial rfl <|
    .head (.call 0 (.insert .i64)) trivial rfl <|
    .head (.connection 1 (.readError "reset")) trivial rfl <|
    .head (.monitor .recv) trivial rfl <|
    .head (.monitor .loadShutdown) trivial rfl <|
    .head (.monitor .mark) trivial rfl <|
    .head (.monitor .cancel) trivial rfl <|
    .head (.monitor .startReconnecting) trivial rfl <|
    .head (.monitor .checkTop) trivial rfl <|
    .head (.monitor .wake) trivial rfl <|
    .head (.monitor (.negotiated true)) trivial rfl <|
    .head (.monitor (.socket true)) trivial rfl <|
    .head (.monitor .install) trivial rfl <|
    .head (.call 0 .lookup) trivial rfl <|
    .head (.call 0 .offer) trivial rfl <|
    .refl _
  exact ⟨_, hrun, fun hcharged =>
    hcharged 0 2 1 rfl ⟨0, [0], rfl, by decide, by decide⟩ (by decide)⟩

end Client

end SignalR
