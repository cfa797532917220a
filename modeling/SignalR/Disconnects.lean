/-
SignalR/Disconnects.lean

What holds after a graceful disconnect.

`disconnect_gracefully` cancels the pending actions, raises the shutdown flag,
closes the connection and stores `NotConnected`.  The monitor reads the flag at the
top of its reconnect loop and after the sleep, but not after the socket is set up.
So a disconnect is final (`disconnect_final`) only if it does not fall between the
second check and the end of an attempt that succeeds: such an attempt stores its
connection over `NotConnected` (`disconnect_undone`).

The cancellation comes first, while the connection still accepts requests.  So no
caller is left waiting (`disconnect_leaves_nobody_waiting`) only if the connection
accepts no unresolved call from then on (`call_left_waiting`).
-/
import SignalR.Losses

namespace SignalR

open Transition

variable {V : Type}

/-! ### How far a disconnect is -/

namespace DisconnectPc

/-- The disconnect has stored `NotConnected`. -/
def HasStored : DisconnectPc → Prop
  | .stored _ _ => True
  | .returned _ _ => True
  | _ => False

/-- The disconnect has cancelled the pending actions, and it closed connection `g`
or may yet. -/
def Closes (g : Nat) : DisconnectPc → Prop
  | .idle => False
  | .cancelled => True
  | .flagged => True
  | .closing g' => g' = g
  | .awaiting g' => g' = g
  | .answered g' _ => g' = g
  | .closed g' _ => g' = some g
  | .stored g' _ => g' = some g
  | .returned g' _ => g' = some g

end DisconnectPc

namespace Client

section

variable {C : Config} {s t : Client V}

/-- How the place of disconnect `d` changes in a step. -/
theorem step_disconnect {l : Label V} (h : step C s l = some t) (d : Nat) :
    t.disconnects d = s.disconnects d ∨
      (∃ g r, s.disconnects d = .awaiting g ∧ t.disconnects d = .answered g r) ∨
      ∃ l', l = .disconnect d l' := by
  cases l with
  | call c l => exact .inl (by rw [(callStep_frame h).1.disconnects])
  | connection g l =>
      rcases (connectionStep_frame h).disconnects d with hd | hd
      · exact .inl hd
      · exact .inr (.inl hd)
  | monitor l => exact .inl (by rw [(monitorStep_move h).frame.disconnects])
  | disconnect d' l =>
      by_cases hd : d = d'
      · subst hd
        exact .inr (.inr ⟨l, rfl⟩)
      · exact .inl ((disconnectStep_move h).frame.disconnects d hd)
  | user l =>
      obtain rfl := Option.some.inj h
      exact .inl (by rw [(userStep_frame C s l).2.2.2.2])

/-- Only the store step stores. -/
theorem DisconnectMove.hasStored {d : Nat} (h : DisconnectMove s d t)
    (hd : (t.disconnects d).HasStored) :
    (s.disconnects d).HasStored ∨ ∃ g r, s.disconnects d = .closed g r := by
  cases h with
  | store h => exact .inr ⟨_, _, h⟩
  | sendShutdown h =>
      rw [h]
      exact .inl trivial
  | finishClose =>
      rw [Client.finishClose, setDisconnect_self] at hd
      exact hd.elim
  | _ =>
      rw [setDisconnect_self] at hd
      exact hd.elim

/-- What is stored stays stored. -/
theorem DisconnectMove.hasStored_mono {d : Nat} (h : DisconnectMove s d t)
    (hd : (s.disconnects d).HasStored) : (t.disconnects d).HasStored := by
  cases h with
  | store | sendShutdown =>
      rw [setDisconnect_self]
      trivial
  | finishClose result h =>
      rcases h with h | h | h
      all_goals
        rw [h] at hd
        exact hd.elim
  | cancel h | raiseFlag h | lookup h | lookupNone h | requestClose h =>
      rw [h] at hd
      exact hd.elim

/-- `HasStored` is decided by the disconnect's own steps. -/
theorem hasStored_of_step {l : Label V} {d : Nat} (h : step C s l = some t)
    (hd : (t.disconnects d).HasStored) :
    (s.disconnects d).HasStored ∨ l = .disconnect d .store := by
  rcases step_disconnect h d with hs | ⟨g, r, -, ht⟩ | ⟨l', rfl⟩
  · rw [hs] at hd
    exact .inl hd
  · rw [ht] at hd
    exact hd.elim
  · refine ((disconnectStep_move h).hasStored hd).imp id ?_
    rintro ⟨g, r, hclosed⟩
    cases l' <;> simp_all [step, disconnectStep]

theorem hasStored_step {l : Label V} {d : Nat} (h : step C s l = some t)
    (hd : (s.disconnects d).HasStored) : (t.disconnects d).HasStored := by
  rcases step_disconnect h d with ht | ⟨g, r, hs, -⟩ | ⟨l', rfl⟩
  · rw [ht]
    exact hd
  · rw [hs] at hd
    exact hd.elim
  · exact (disconnectStep_move h).hasStored_mono hd

end

/-! ### The finished client -/

/-- The generations whose `on_reconnected` handler was started, in order. -/
def reconnectedStarts (trace : List Observation) : List Nat :=
  trace.filterMap fun
    | .reconnected g => some g
    | _ => none

/-- Nothing is connected, the monitor has no connection left to store and no
handler left to start. -/
structure Finished (s : Client V) : Prop where
  state : s.state = .notConnected
  installing : ∀ h, s.monitor ≠ .installing h
  installed : s.reconnectedHandler = true → ∀ h, s.monitor ≠ .installed h

section

variable {C : Config} {s t : Client V}

/-- The monitor comes to store a connection only by a successful socket attempt. -/
theorem eq_socket_of_installing {l : MonitorLabel} {h : Nat} (hst : s.monitorStep C l = some t)
    (hm : t.monitor = .installing h) : l = .socket true := by
  by_contra hne
  cases monitorStep_move hst with
  | connect hc => cases l <;> simp_all [monitorStep]
  | _ => simp_all [observe, startCycle, cancelLost, install]

/-- The monitor of a finished client starts nothing, unless a socket attempt
succeeds. -/
theorem Finished.monitor {l : MonitorLabel} (hi : s.Finished) (hl : l ≠ .socket true)
    (hst : s.monitorStep C l = some t) :
    t.Finished ∧ reconnectedStarts t.trace = reconnectedStarts s.trace := by
  have hinstalling : ∀ h, t.monitor ≠ .installing h := fun h hm =>
    hl (eq_socket_of_installing hst hm)
  have hno : ∀ {g : Nat}, s.state = .connected g → False := by
    intro g hg
    rw [hi.state] at hg
    exact ConnectionState.noConfusion hg
  -- a step to a place where no connection was stored
  have goto : t.state = s.state → (∀ h, t.monitor ≠ .installed h) →
      (t.trace = s.trace ∨ ∃ o, t.trace = s.trace ++ [o] ∧ ∀ g, o ≠ .reconnected g) →
      t.Finished ∧ reconnectedStarts t.trace = reconnectedStarts s.trace := by
    intro hstate hinstalled htrace
    refine ⟨⟨hstate.trans hi.state, hinstalling, fun _ => hinstalled⟩, ?_⟩
    rcases htrace with htrace | ⟨o, htrace, ho⟩
    · rw [htrace]
    · rw [htrace, reconnectedStarts, List.filterMap_append, reconnectedStarts]
      cases o with
      | reconnected g => exact absurd rfl (ho g)
      | _ => exact List.append_nil _
  cases monitorStep_move hst with
  | markCurrent hm hstate => exact (hno hstate).elim
  | cancel =>
      exact goto rfl (fun _ h => MonitorPc.noConfusion h) (.inr ⟨.cancelled _ _, rfl, by simp⟩)
  | notify =>
      exact goto rfl (fun _ h => MonitorPc.noConfusion h) (.inr ⟨.reconnecting, rfl, by simp⟩)
  | startCycle =>
      exact goto rfl (fun _ h => MonitorPc.noConfusion h) (.inr ⟨.cycle, rfl, by simp⟩)
  | storeExhausted => exact goto hi.state.symm (by simp) (.inl rfl)
  -- the three moves that the disconnect must not overlap
  | @connect _ h => exact absurd rfl (hinstalling h)
  | @install h hm => exact absurd hm (hi.installing h)
  | @notifyReconnected h hm hh => exact absurd hm (hi.installed hh h)
  | _ => exact goto rfl (by simp) (.inl rfl)

/-- A disconnect never stores anything but `NotConnected`. -/
theorem Finished.disconnect {d : Nat} (hi : s.Finished) (h : DisconnectMove s d t) :
    t.Finished ∧ t.trace = s.trace := by
  have hf := h.frame
  have hstate : t.state = .notConnected := by
    cases h with
    | store => rfl
    | _ => exact hi.state
  refine ⟨⟨hstate, ?_, ?_⟩, hf.trace⟩
  · rw [hf.monitor]
    exact hi.installing
  · rw [hf.monitor, hf.handlers.2]
    exact hi.installed

/-- A step of another party that keeps the control part and the handler. -/
theorem Finished.of_control (hi : s.Finished) (hcontrol : t.control = s.control)
    (hhandler : t.reconnectedHandler = s.reconnectedHandler) :
    t.Finished ∧ t.trace = s.trace := by
  have hstate : t.state = s.state := state_of_control hcontrol
  have hmonitor : t.monitor = s.monitor := monitor_of_control hcontrol
  refine ⟨⟨hstate.trans hi.state, ?_, ?_⟩, trace_of_control hcontrol⟩
  · rw [hmonitor]
    exact hi.installing
  · rw [hmonitor, hhandler]
    exact hi.installed

end

/-! ### A disconnect is final -/

/-- A disconnect stores `NotConnected` only while the monitor has no connection to
store and no handler to start; no socket attempt succeeds after that, and no
handler is registered for a connection stored before. -/
def DisconnectsBetweenAttempts (s : Client V) : Label V → Prop
  | .disconnect _ .store =>
      (∀ h, s.monitor ≠ .installing h) ∧
        (s.reconnectedHandler = true → ∀ h, s.monitor ≠ .installed h)
  | .monitor (.socket true) => ∀ d, ¬ (s.disconnects d).HasStored
  | .user .onReconnected =>
      ∀ d, (s.disconnects d).HasStored → ∀ h, s.monitor ≠ .installed h
  | _ => True

section

variable {C : Config} {s t : Client V} {l : Label V}

/-- **The step lemma of a finished client.** -/
theorem Finished.step {d : Nat} (hi : s.Finished) (hd : (s.disconnects d).HasStored)
    (hallowed : DisconnectsBetweenAttempts s l) (h : Client.step C s l = some t) :
    t.Finished ∧ reconnectedStarts t.trace = reconnectedStarts s.trace := by
  have same : t.Finished ∧ t.trace = s.trace →
      t.Finished ∧ reconnectedStarts t.trace = reconnectedStarts s.trace := by
    rintro ⟨ht, htrace⟩
    rw [htrace]
    exact ⟨ht, rfl⟩
  cases l with
  | call c l =>
      have hf := (callStep_frame h).1
      exact same (hi.of_control hf.control hf.handlers.2)
  | connection g l =>
      have hf := connectionStep_frame h
      exact same (hi.of_control hf.control hf.handlers.2)
  | monitor l =>
      refine hi.monitor ?_ h
      rintro rfl
      exact hallowed d hd
  | disconnect d' l => exact same (hi.disconnect (disconnectStep_move h))
  | user l =>
      obtain rfl := Option.some.inj h
      cases l with
      | onReconnected => exact ⟨⟨hi.state, hi.installing, fun _ => hallowed d hd⟩, rfl⟩
      | _ => exact same (hi.of_control rfl rfl)

/-- The client is finished as soon as a disconnect has stored. -/
theorem finished_step (hi : ∀ d, (s.disconnects d).HasStored → s.Finished)
    (hallowed : DisconnectsBetweenAttempts s l) (h : Client.step C s l = some t) (d : Nat)
    (hd : (t.disconnects d).HasStored) : t.Finished := by
  rcases hasStored_of_step h hd with hs | rfl
  · exact ((hi d hs).step hs hallowed h).1
  · -- the store itself: the condition says where the monitor is
    obtain ⟨hinstalling, hinstalled⟩ := hallowed
    cases hst : s.disconnects d with
    | closed g r =>
        simp only [step, disconnectStep, hst] at h
        obtain rfl := Option.some.inj h
        exact ⟨rfl, hinstalling, hinstalled⟩
    | _ => simp [step, disconnectStep, hst] at h

end

/-- What a caller sees of a client that was disconnected in state `s`, later, in
state `t`. -/
structure StaysDisconnected (C : Config) (s t : Client V) : Prop where
  state : t.state = .notConnected
  handlers : reconnectedStarts t.trace = reconnectedStarts s.trace
  sends : ∀ c u, Client.step C t (.call c .lookup) = some u →
    ∃ e, (u.calls c).pc = .failed e ∧ (u.calls c).sent = some (.error e)

/-- **A graceful disconnect is final.**  After it has stored `NotConnected` the
state stays so, no `on_reconnected` handler is started, and every send fails. -/
theorem disconnect_final {C : Config} {s t : Client V} {d : Nat}
    (hs : Reachable C DisconnectsBetweenAttempts s) (hd : (s.disconnects d).HasStored)
    (ht : Reaches (step C) DisconnectsBetweenAttempts s t) : StaysDisconnected C s t := by
  have hfinished : s.Finished := by
    refine Reaches.invariant (I := fun s => ∀ d, (s.disconnects d).HasStored → s.Finished) hs
      ?_ (fun s l t hi hallowed hst => finished_step hi hallowed hst) d hd
    exact fun _ h => h.elim
  -- the store is never undone, and while it holds the client stays finished
  have hlater : t.Finished ∧ (t.disconnects d).HasStored ∧
      reconnectedStarts t.trace = reconnectedStarts s.trace := by
    refine Reaches.invariant (I := fun t => t.Finished ∧ (t.disconnects d).HasStored ∧
      reconnectedStarts t.trace = reconnectedStarts s.trace) ht ⟨hfinished, hd, rfl⟩ ?_
    rintro t l u ⟨hf, hd, hstarts⟩ hallowed hst
    obtain ⟨hf', hstarts'⟩ := hf.step hd hallowed hst
    exact ⟨hf', hasStored_step hst hd, hstarts'.trans hstarts⟩
  refine ⟨hlater.1.state, hlater.2.2, fun c u hst => ?_⟩
  replace hst : t.callStep c .lookup = some u := hst
  cases callStep_transition hst with
  | lookupNotConnected =>
      have hcall : (t.failCall c "Client is not connected, cannot send").calls c = _ :=
        setCall_self ..
      rw [hcall]
      exact ⟨_, rfl, rfl⟩
  | lookup _ hstate | lookupReconnecting _ hstate => simp [hlater.1.state] at hstate

theorem disconnect_final_stopped :
    ∃ s t : Client Int, s.monitor = .sleeping 1 ∧ t.monitor = .idle ∧
      StaysDisconnected sample s t := by
  have hs : Reachable sample DisconnectsBetweenAttempts (V := Int) _ :=
    .head (.connection 1 (.readError "reset")) trivial rfl <|
    .head (.monitor .recv) trivial rfl <|
    .head (.monitor .loadShutdown) trivial rfl <|
    .head (.monitor .mark) trivial rfl <|
    .head (.monitor .cancel) trivial rfl <|
    .head (.monitor .startReconnecting) trivial rfl <|
    .head (.monitor .checkTop) trivial rfl <|
    .head (.disconnect 0 .cancel) trivial rfl <|
    .head (.disconnect 0 .raiseFlag) trivial rfl <|
    .head (.disconnect 0 .lookup) trivial rfl <|
    .head (.disconnect 0 .store)
      ⟨fun _ h => MonitorPc.noConfusion h, fun h => Bool.noConfusion h⟩ rfl <|
    .refl _
  exact ⟨_, _, rfl, rfl, disconnect_final (d := 0) hs trivial <|
    .head (.monitor .wake) trivial rfl <| .refl _⟩

/-- A disconnect while the monitor sets up a socket: the new connection is stored
over `NotConnected`, the handler is started and a send succeeds. -/
theorem disconnect_undone :
    ∃ s t : Client Int, Reachable sample free s ∧ (s.disconnects 0).HasStored ∧
      Reaches (step sample) free s t ∧ t.state = .connected 2 ∧
      reconnectedStarts t.trace ≠ reconnectedStarts s.trace ∧
      (t.calls 0).sent = some (.ok ()) ∧ ¬ StaysDisconnected sample s t := by
  have hs : Reachable sample free (V := Int) _ :=
    .head (.user .onReconnected) trivial rfl <|
    .head (.connection 1 (.readError "reset")) trivial rfl <|
    .head (.monitor .recv) trivial rfl <|
    .head (.monitor .loadShutdown) trivial rfl <|
    .head (.monitor .mark) trivial rfl <|
    .head (.monitor .cancel) trivial rfl <|
    .head (.monitor .startReconnecting) trivial rfl <|
    .head (.monitor .checkTop) trivial rfl <|
    .head (.monitor .wake) trivial rfl <|
    .head (.monitor (.negotiated true)) trivial rfl <|
    .head (.disconnect 0 .cancel) trivial rfl <|
    .head (.disconnect 0 .raiseFlag) trivial rfl <|
    .head (.disconnect 0 .lookup) trivial rfl <|
    .head (.disconnect 0 .store) trivial rfl <|
    .refl _
  refine ⟨_, _, hs, trivial,
    .head (.monitor (.socket true)) trivial rfl <|
    .head (.monitor .install) trivial rfl <|
    .head (.monitor .startReconnected) trivial rfl <|
    .head (.call 0 .send) trivial rfl <|
    .head (.call 0 .lookup) trivial rfl <|
    .head (.call 0 .offer) trivial rfl <|
    .refl _, rfl, by decide, rfl, fun h => ConnectionState.noConfusion h.state⟩

/-! ### A disconnect leaves nobody waiting -/

/-- A connection that a disconnect closes, or may yet close, accepts no unresolved
call after the disconnect has cancelled, which it does while the action-map mutex is
not poisoned. -/
def AcceptsBeforeCancellation (s : Client V) : Label V → Prop
  | .call c .offer =>
      ∀ g, (s.calls c).pc = .holding g → (s.connections g).writer = .running →
        (∃ d, (s.disconnects d).Closes g) →
        ∀ x, (s.calls c).cell = some x → s.store.heap.Settled x
  | .disconnect _ .cancel => s.store.poisoned = false
  | _ => True

/-- The calls accepted by a connection that a disconnect closes are settled. -/
def ClosedInv (s : Client V) : Prop :=
  ∀ d g, (s.disconnects d).Closes g → ∀ c x, (s.calls c).accepted = some g →
    (s.calls c).cell = some x → s.store.heap.Settled x

section

variable {C : Config} {s t : Client V}

/-- A disconnect comes to close a connection when it cancels. -/
theorem DisconnectMove.closes {d g : Nat} (h : DisconnectMove s d t)
    (hd : (t.disconnects d).Closes g) :
    (s.disconnects d).Closes g ∨
      s.disconnects d = .idle ∧ t.store = s.store.cancelPending "Client disconnected" := by
  cases h with
  | cancel h => exact .inr ⟨h, rfl⟩
  | raiseFlag h | lookup h | lookupNone h =>
      -- until it knows its connection, the disconnect may close any
      rw [h]
      exact .inl trivial
  | requestClose h | store h | sendShutdown h =>
      rw [setDisconnect_self] at hd
      rw [h]
      exact .inl hd
  | finishClose result h =>
      rw [Client.finishClose, setDisconnect_self] at hd
      refine .inl ?_
      rcases h with h | h | h
      all_goals
        rw [h]
        exact Option.some.inj hd

/-- Only the cancellation step leaves `idle`. -/
theorem eq_cancel_of_idle {d : Nat} {l : DisconnectLabel} (hd : s.disconnects d = .idle)
    (h : s.disconnectStep d l = some t) : l = .cancel := by
  cases l <;> simp_all [disconnectStep]

theorem ClosedInv.step {l : Label V} (hi : s.ClosedInv) (hs : s.StoreInv)
    (hordered : ∀ c, (s.calls c).Ordered) (hallowed : AcceptsBeforeCancellation s l)
    (h : Client.step C s l = some t) : t.ClosedInv := by
  have hadv := View.Touches.advances (step_touches hs h)
  -- a call that was accepted by a connection which the disconnect closed before
  have old : ∀ d g, (s.disconnects d).Closes g → ∀ c x, (t.calls c).accepted = some g →
      (t.calls c).cell = some x → t.store.heap.Settled x := by
    intro d g hd c x haccepted hx
    rcases step_call h c with hc | ⟨⟨l', rfl⟩, -, hmove⟩
    · rw [hc] at haccepted hx
      exact hadv.settled x (hs.owns c x hx) (hi d g hd c x haccepted hx)
    · rw [hmove.cell (hordered c) (.inr haccepted)] at hx
      refine hadv.settled x (hs.owns c x hx) ?_
      rcases accepted_of_callStep h haccepted with haccepted | ⟨rfl, hpc, hwriter⟩
      · exact hi d g hd c x haccepted hx
      · exact hallowed g hpc hwriter ⟨d, hd⟩ x hx
  intro d g hd
  rcases step_disconnect h d with hsame | ⟨g', r, hawaiting, hanswered⟩ | ⟨l', rfl⟩
  · rw [hsame] at hd
    exact old d g hd
  · rw [hanswered] at hd
    refine old d g ?_
    rw [hawaiting]
    exact hd
  · have hmove := disconnectStep_move h
    rcases hmove.closes hd with hd | ⟨hidle, hstore⟩
    · exact old d g hd
    · -- the disconnect cancels everything
      obtain rfl := eq_cancel_of_idle hidle h
      intro c x _ hx
      rw [hmove.frame.calls] at hx
      rw [hstore]
      exact Storage.settled_cancelPending hs.view hallowed _ (hs.owns c x hx)

end

/-- Once a disconnect has returned, every call that the connection it closed had
accepted is settled. -/
def NobodyWaits (s : Client V) : Prop :=
  ∀ d g result c, s.disconnects d = .returned (some g) result →
    (s.calls c).accepted = some g → (s.calls c).kind ≠ .send →
    ∃ x, (s.calls c).cell = some x ∧ s.store.heap.Settled x

/-- **A graceful disconnect leaves nobody waiting**, if the connection accepts
nothing after the cancellation. -/
theorem disconnect_leaves_nobody_waiting {C : Config} {s : Client V}
    (h : Reachable C AcceptsBeforeCancellation s) : s.NobodyWaits := by
  have hinv : s.ClosedInv :=
    Reaches.induction (I := ClosedInv) h (fun _ _ hd => hd.elim)
      fun s _ _ (hs : Reachable C AcceptsBeforeCancellation s) hi hallowed hst =>
        hi.step hs.storeInv hs.ordered hallowed hst
  intro d g result c hd haccepted hkind
  obtain ⟨x, hx⟩ := (h.ordered c).cell_of_accepted haccepted hkind
  refine ⟨x, hx, hinv d g ?_ c x haccepted hx⟩
  rw [hd]
  rfl

theorem disconnect_leaves_nobody_waiting_invoke :
    ∃ s : Client Int, s.disconnects 0 = .returned (some 1) (.ok ()) ∧
      (s.calls 0).accepted = some 1 ∧ s.NobodyWaits := by
  have hrun : Reachable sample AcceptsBeforeCancellation (V := Int) _ :=
    .head (.call 0 (.invoke "add")) trivial rfl <|
    .head (.call 0 (.insert .i64)) trivial rfl <|
    .head (.call 0 .lookup) trivial rfl <|
    .head (.call 0 .offer) (fun _ _ _ ⟨_, hd⟩ => hd.elim) rfl <|
    .head (.connection 1 (.write (.ok ()))) trivial rfl <|
    .head (.disconnect 0 .cancel) (Eq.refl false) rfl <|
    .head (.disconnect 0 .raiseFlag) trivial rfl <|
    .head (.disconnect 0 .lookup) trivial rfl <|
    .head (.disconnect 0 .requestClose) trivial rfl <|
    .head (.connection 1 (.write (.ok ()))) trivial rfl <|
    .head (.disconnect 0 .finishClose) trivial rfl <|
    .head (.disconnect 0 .store) trivial rfl <|
    .head (.disconnect 0 .sendShutdown) trivial rfl <|
    .refl _
  exact ⟨_, rfl, rfl, disconnect_leaves_nobody_waiting hrun⟩

/-- A call that is inserted and accepted between the cancellation and the close of
the connection is left waiting: the monitor stops without cancelling it. -/
theorem call_left_waiting :
    ∃ s : Client Int, Reachable sample free s ∧ s.monitor = .stopped ∧ ¬ s.NobodyWaits := by
  have hrun : Reachable sample free (V := Int) _ :=
    .head (.disconnect 0 .cancel) trivial rfl <|
    .head (.call 0 (.invoke "add")) trivial rfl <|
    .head (.call 0 (.insert .i64)) trivial rfl <|
    .head (.call 0 .lookup) trivial rfl <|
    .head (.call 0 .offer) trivial rfl <|
    .head (.disconnect 0 .raiseFlag) trivial rfl <|
    .head (.disconnect 0 .lookup) trivial rfl <|
    .head (.disconnect 0 .requestClose) trivial rfl <|
    .head (.connection 1 (.write (.ok ()))) trivial rfl <|
    .head (.connection 1 (.write (.ok ()))) trivial rfl <|
    .head (.disconnect 0 .finishClose) trivial rfl <|
    .head (.disconnect 0 .store) trivial rfl <|
    .head (.disconnect 0 .sendShutdown) trivial rfl <|
    .head (.monitor .recv) trivial rfl <|
    .refl _
  refine ⟨_, hrun, rfl, fun hnobody => ?_⟩
  obtain ⟨x, hx, hsettled⟩ := hnobody 0 1 (.ok ()) 0 rfl rfl (by decide)
  obtain rfl : Cell.future 0 = x := Option.some.inj hx
  refine absurd hsettled ?_
  show ¬ Heap.Resolved _ 0
  decide

end Client

end SignalR
