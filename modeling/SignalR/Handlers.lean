/-
SignalR/Handlers.lean

The monitor and the `on_reconnected` handler it awaits.

While the monitor awaits the handler it takes no event from its queue.  If the new
connection is lost meanwhile, the calls it accepted are not cancelled; and if the
handler itself awaits one of them, neither it nor the monitor goes on
(`handler_deadlock`).

If no connection is lost under its handler with a call pending, the monitor is free
whenever a call waits for a lost connection, and takes the events in its queue one
after the other until it cancels the call (`loss_leads_to_cancellation`).
-/
import SignalR.Charges
import SignalR.Readers

namespace SignalR

open Transition

variable {V : Type}

namespace Client

/-! ### The monitor's own steps -/

/-- A step that the monitor takes without a handler. -/
def Internal (_ : Client V) : Label V → Prop
  | .monitor (.handlerAwaits _) => False
  | .monitor .handlerResumes => False
  | .monitor .handlerReturns => False
  | .monitor _ => True
  | _ => False

/-- The monitor's own steps lead to a state where the cell is settled. -/
def LeadsToCancellation (C : Config) (s : Client V) (x : Cell) : Prop :=
  ∃ t, Reaches (step C) Internal s t ∧ t.store.heap.Settled x

section

variable {C : Config} {s t : Client V} {x : Cell} {g : Nat}

theorem LeadsToCancellation.head (l : MonitorLabel) (hl : Internal s (.monitor l))
    (hst : s.monitorStep C l = some t) (h : LeadsToCancellation C t x) :
    LeadsToCancellation C s x := by
  obtain ⟨u, hrun, hsettled⟩ := h
  exact ⟨u, .head (.monitor l) hl hst hrun, hsettled⟩

/-- The client is connected to `g`, no shutdown is on its way, and everything is
ready to cancel the cell. -/
structure Ready (s : Client V) (g : Nat) (x : Cell) : Prop where
  shutdown : s.shutdown = false
  events : .shutdown ∉ s.events
  state : s.state = .connected g
  poisoned : s.store.poisoned = false
  view : s.store.view.Inv
  allocated : s.store.heap.Allocated x

/-- The monitor is about to cancel. -/
theorem leadsToCancellation_of_cancelling {reason : String} (hview : s.store.view.Inv)
    (hp : s.store.poisoned = false) (hx : s.store.heap.Allocated x)
    (hm : s.monitor = .cancelling g reason) : LeadsToCancellation C s x := by
  refine ⟨s.cancelLost g reason, .head (.monitor .cancel) trivial ?_ (.refl _), ?_⟩
  · simp [step, monitorStep, hm]
  · exact Storage.settled_cancelPending hview hp _ hx

/-- The monitor is about to tear down the connected generation. -/
theorem Ready.of_marking {reason : String} (h : s.Ready g x) (hm : s.monitor = .marking g reason) :
    LeadsToCancellation C s x := by
  refine .head (t := s.markConnectionLost C g reason) .mark trivial ?_ ?_
  · simp [monitorStep, hm]
  · rw [markConnectionLost, if_pos h.state]
    exact leadsToCancellation_of_cancelling h.view h.poisoned h.allocated rfl

/-- The monitor has taken the event of the connected generation. -/
theorem Ready.of_received {reason : String} (h : s.Ready g x)
    (hm : s.monitor = .received g reason) : LeadsToCancellation C s x := by
  refine .head (t := { s with monitor := .marking g reason }) .loadShutdown trivial ?_ ?_
  · simp [monitorStep, hm, h.shutdown]
  · exact Ready.of_marking ⟨h.shutdown, h.events, h.state, h.poisoned, h.view, h.allocated⟩ rfl

/-- **The monitor works off its queue**: the events of other generations are stale
and change nothing, and the event of the connected one cancels. -/
theorem Ready.of_idle (h : s.Ready g x) (hm : s.monitor = .idle) {reason : String}
    (hmem : .connectionLost g reason ∈ s.events) : LeadsToCancellation C s x := by
  generalize he : s.events = events at hmem
  induction events generalizing s with
  | nil => exact absurd hmem List.not_mem_nil
  | cons e rest ih =>
      -- the head of the queue is taken; no shutdown waits behind it
      have hevents : .shutdown ∉ rest := by
        intro hshutdown
        refine h.events ?_
        rw [he]
        exact List.mem_cons_of_mem _ hshutdown
      cases e with
      | shutdown =>
          refine absurd ?_ h.events
          rw [he]
          exact List.mem_cons_self
      | connectionLost g' reason' =>
          refine .head (t := { s with events := rest, monitor := .received g' reason' })
            .recv trivial ?_ ?_
          · simp [monitorStep, hm, he]
          by_cases hg : g' = g
          · subst hg
            exact Ready.of_received
              ⟨h.shutdown, hevents, h.state, h.poisoned, h.view, h.allocated⟩ rfl
          -- a stale event: three steps take the monitor back to the rest of the queue
          refine .head (t := { s with events := rest, monitor := .marking g' reason' })
            .loadShutdown trivial ?_ ?_
          · simp [monitorStep, h.shutdown]
          refine .head (t := { s with events := rest, monitor := .idle }) .mark trivial ?_ ?_
          · have hstale : s.state ≠ .connected g' := by
              rw [h.state]
              exact fun heq => hg (ConnectionState.connected.inj heq).symm
            simp [monitorStep, markConnectionLost, hstale]
          refine ih ⟨h.shutdown, hevents, h.state, h.poisoned, h.view, h.allocated⟩ rfl rfl ?_
          rcases List.mem_cons.mp hmem with heq | hmem
          · exact absurd (ConnectionEvent.connectionLost.inj heq).1.symm hg
          · exact hmem

/-- The monitor has an event in hand, perhaps a stale one. -/
theorem Ready.of_marking_any {g' : Nat} {reason reason' : String} (h : s.Ready g x)
    (hm : s.monitor = .marking g' reason') (hmem : .connectionLost g reason ∈ s.events) :
    LeadsToCancellation C s x := by
  by_cases hg : g' = g
  · subst hg
    exact h.of_marking hm
  · refine .head (t := { s with monitor := .idle }) .mark trivial ?_ ?_
    · have hstale : s.state ≠ .connected g' := by
        rw [h.state]
        exact fun heq => hg (ConnectionState.connected.inj heq).symm
      simp [monitorStep, hm, markConnectionLost, hstale]
    · exact Ready.of_idle ⟨h.shutdown, h.events, h.state, h.poisoned, h.view, h.allocated⟩ rfl hmem

theorem Ready.of_received_any {g' : Nat} {reason reason' : String} (h : s.Ready g x)
    (hm : s.monitor = .received g' reason') (hmem : .connectionLost g reason ∈ s.events) :
    LeadsToCancellation C s x := by
  refine .head (t := { s with monitor := .marking g' reason' }) .loadShutdown trivial ?_ ?_
  · simp [monitorStep, hm, h.shutdown]
  · exact Ready.of_marking_any
      ⟨h.shutdown, h.events, h.state, h.poisoned, h.view, h.allocated⟩ rfl hmem

end

/-! ### The handler's window -/

/-- The monitor awaits the `on_reconnected` handler for `g`, or will as its next
step. -/
def HandlerWindow (s : Client V) (g : Nat) : Prop :=
  (∃ on, s.monitor = .reconnected g on) ∨ s.monitor = .installed g ∧ s.reconnectedHandler = true

/-- Every call that `g` accepted is settled. -/
def AcceptedSettled (s : Client V) (g : Nat) : Prop :=
  ∀ c x, (s.calls c).accepted = some g → (s.calls c).cell = some x → s.store.heap.Settled x

/-- No disconnect takes a step and no callback panics.  A connection is lost under
its handler only while no call waits for it, and accepts none there afterwards. -/
def LossesSpareHandlers (C : Config) (s : Client V) : Label V → Prop
  | .disconnect _ _ => False
  | .user (.register target callback) =>
      (s.store.addCallback C.serde target callback).2 ≠ .panic
  | .user .onReconnected =>
      ∀ g, s.monitor = .installed g → s.ReaderRuns g ∨ s.AcceptedSettled g
  | .connection g .dispatch =>
      ∀ m rest, (s.connections g).reader = .running (m :: rest) →
        (s.store.processMessage C.serde m).2 ≠ .panic
  | .connection g l =>
      l.LeavesLoop ∨ l = .abortReader → s.HandlerWindow g → s.AcceptedSettled g
  | .call c .offer =>
      ∀ g, (s.calls c).pc = .holding g → (s.connections g).writer = .running →
        s.HandlerWindow g →
        s.ReaderRuns g ∨ ∀ x, (s.calls c).cell = some x → s.store.heap.Settled x
  | _ => True

/-- In the window the reader runs, or no call waits. -/
def WindowInv (s : Client V) : Prop :=
  ∀ g, s.HandlerWindow g → s.ReaderRuns g ∨ s.AcceptedSettled g

section

variable {C : Config} {s t : Client V}

theorem HandlerWindow.of_control {g : Nat} (h : t.HandlerWindow g)
    (hcontrol : t.control = s.control)
    (hhandler : t.reconnectedHandler = s.reconnectedHandler) : s.HandlerWindow g := by
  rw [HandlerWindow] at h
  rwa [monitor_of_control hcontrol, hhandler] at h

/-- A step that leaves the calls alone leaves them settled. -/
theorem AcceptedSettled.mono {g : Nat} (h : s.AcceptedSettled g) (hs : s.StoreInv)
    (hadv : View.Advances s.store.view t.store.view) (hcalls : t.calls = s.calls) :
    t.AcceptedSettled g := by
  intro c x haccepted hx
  rw [hcalls] at haccepted hx
  exact hadv.settled x (hs.owns c x hx) (h c x haccepted hx)

theorem WindowInv.call {c : Nat} {l : CallLabel V} (hi : s.WindowInv) (hs : s.StoreInv)
    (hordered : ∀ c, (s.calls c).Ordered) (hallowed : LossesSpareHandlers C s (.call c l))
    (h : s.callStep c l = some t) : t.WindowInv := by
  have hf := (callStep_frame h).1
  have hstep : step C s (.call c l) = some t := h
  have hadv := View.Touches.advances (step_touches hs hstep)
  intro g hg
  have hwindow := hg.of_control hf.control hf.handlers.2
  by_cases hruns : s.ReaderRuns g
  · obtain ⟨todo, htodo⟩ := hruns
    exact .inl ⟨todo, (hf.tasks g).1.trans htodo⟩
  · have hsettled := (hi g hwindow).resolve_left hruns
    refine .inr fun c' x haccepted hx => ?_
    -- only an accepted request adds a call to wait for, and the condition is about it
    rcases step_call hstep c' with hc | ⟨⟨l', heq⟩, -, hmove⟩
    · rw [hc] at haccepted hx
      exact hadv.settled x (hs.owns c' x hx) (hsettled c' x haccepted hx)
    · obtain ⟨rfl, rfl⟩ := Label.call.inj heq
      rw [hmove.cell (hordered c) (.inr haccepted)] at hx
      refine hadv.settled x (hs.owns c x hx) ?_
      rcases accepted_of_callStep h haccepted with haccepted | ⟨rfl, hpc, hwriter⟩
      · exact hsettled c x haccepted hx
      · exact (hallowed g hpc hwriter hwindow).resolve_left hruns x hx

theorem WindowInv.connection {g : Nat} {l : ConnectionLabel} (hi : s.WindowInv)
    (hs : s.StoreInv) (hserving : s.Serving)
    (hallowed : LossesSpareHandlers C s (.connection g l))
    (h : s.connectionStep C g l = some t) : t.WindowInv := by
  have hf := connectionStep_frame h
  have hadv := View.Touches.advances hf.store
  have settled : ∀ g', s.AcceptedSettled g' → t.ReaderRuns g' ∨ t.AcceptedSettled g' :=
    fun g' hsettled => .inr (hsettled.mono hs hadv hf.calls)
  intro g' hg
  have hwindow := hg.of_control hf.control hf.handlers.2
  rcases hi g' hwindow with hruns | hsettled
  · by_cases hg' : g' = g
    · subst hg'
      rcases connectionStep_reader hserving.monitor hruns h with
        ht | ⟨hleaves, -⟩ | ⟨rfl, m, rest, hreader, hpanic⟩ | ⟨rfl, -⟩
      · exact .inl ht
      · refine settled g' ?_
        cases l with
        | readFrame frame => exact hallowed (.inl hleaves) hwindow
        | readError error => exact hallowed (.inl hleaves) hwindow
        | _ => exact hleaves.elim
      · exact absurd hpanic (hallowed m rest hreader)
      · exact settled g' (hallowed (.inr rfl) hwindow)
    · obtain ⟨todo, htodo⟩ := hruns
      exact .inl ⟨todo, by rw [hf.connections g' hg', htodo]⟩
  · exact settled g' hsettled

theorem WindowInv.monitor {l : MonitorLabel} (hi : s.WindowInv) (hs : s.StoreInv)
    (huses : s.UsesInstalled) (hk : s.control.Inv) (h : s.monitorStep C l = some t) :
    t.WindowInv := by
  -- the window was open before, and nothing else changed
  have stay : ∀ {u : Client V}, (∀ g, u.HandlerWindow g → s.HandlerWindow g) →
      u.connections = s.connections → u.calls = s.calls → u.store = s.store → u.WindowInv := by
    intro u hwindow hconnections hcalls hstore g hg
    refine (hi g (hwindow g hg)).imp ?_ fun hsettled => hsettled.mono hs ?_ hcalls
    · rintro ⟨todo, htodo⟩
      exact ⟨todo, by rw [hconnections, htodo]⟩
    · rw [hstore]
      exact .refl _
  have shut : ∀ {u : Client V}, (∀ g on, u.monitor ≠ .reconnected g on) →
      (∀ g, u.monitor ≠ .installed g) → u.WindowInv := by
    rintro u hreconnected hinstalled g (⟨on, hm⟩ | ⟨hm, -⟩)
    · exact absurd hm (hreconnected g on)
    · exact absurd hm (hinstalled g)
  cases monitorStep_move h with
  | @install new hm =>
      -- no call has found the new connection yet
      rintro g (⟨on, hm'⟩ | ⟨hm', -⟩)
      · exact MonitorPc.noConfusion hm'
      · obtain rfl := MonitorPc.installed.inj hm'
        refine .inr fun c x haccepted _ => ?_
        have hle := hk.installs_le new (huses c new (.inr haccepted))
        have hlt : latest s.trace < new := (hk.upcoming new (by
          show s.monitor.Upcoming new
          rw [hm]
          rfl)).1
        exact absurd hlt (Nat.not_lt_of_le hle)
  | notifyReconnected hm hhandler =>
      refine stay (fun g hg => ?_) rfl rfl rfl
      rcases hg with ⟨on, hm'⟩ | ⟨hm', -⟩
      · obtain ⟨rfl, -⟩ := MonitorPc.reconnected.inj hm'
        exact .inr ⟨hm, hhandler⟩
      · exact MonitorPc.noConfusion hm'
  | @handlerReconnected _ on _ hm =>
      refine stay (fun g hg => ?_) rfl rfl rfl
      rcases hg with ⟨_, hm'⟩ | ⟨hm', -⟩
      · obtain ⟨rfl, -⟩ := MonitorPc.reconnected.inj hm'
        exact .inl ⟨on, hm⟩
      · exact MonitorPc.noConfusion hm'
  | _ => exact shut (fun _ _ hm => MonitorPc.noConfusion hm) fun _ hm => MonitorPc.noConfusion hm

theorem WindowInv.user {l : UserLabel} (hi : s.WindowInv) (hs : s.StoreInv)
    (hallowed : LossesSpareHandlers C s (.user l)) : (s.userStep C l).WindowInv := by
  have hadv := View.Touches.advances (userStep_touches C s l)
  have keep : ∀ g, s.ReaderRuns g ∨ s.AcceptedSettled g →
      (s.userStep C l).ReaderRuns g ∨ (s.userStep C l).AcceptedSettled g := by
    intro g hg
    refine hg.imp ?_ fun hsettled => hsettled.mono hs hadv (userStep_frame C s l).2.1
    rintro ⟨todo, htodo⟩
    exact ⟨todo, by rw [(userStep_frame C s l).2.2.1, htodo]⟩
  intro g hg
  refine keep g ?_
  cases l with
  | onReconnected =>
      rcases hg with hm | ⟨hm, -⟩
      · exact hi g (.inl hm)
      · exact hallowed g hm
  | _ => exact hi g hg

/-- Without panics and disconnects the mutex is not poisoned and the flag stays
down. -/
theorem calm_step {l : Label V} (hallowed : LossesSpareHandlers C s l)
    (h : Client.step C s l = some t) :
    t.store.poisoned = s.store.poisoned ∧ t.shutdown = s.shutdown := by
  cases l with
  | call c l =>
      have hf := (callStep_frame h).1
      exact ⟨hf.poisoned, shutdown_of_control hf.control⟩
  | connection g l =>
      refine ⟨?_, shutdown_of_control (connectionStep_frame h).control⟩
      rcases connectionStep_store h with hstore | ⟨rfl, m, rest, hreader, hstore⟩
      · rw [hstore]
      · rw [hstore]
        exact Storage.processMessage_calm (hallowed m rest hreader)
  | monitor l =>
      have hf := (monitorStep_move h).frame
      refine ⟨?_, hf.shutdown⟩
      rcases hf.store with hstore | ⟨g, reason, -, hstore⟩
      · rw [hstore]
      · rw [hstore]
        exact s.store.poisoned_cancelPending _
  | disconnect d l => exact hallowed.elim
  | user l =>
      obtain rfl := Option.some.inj h
      cases l with
      | register target callback => exact ⟨Storage.addCallback_calm hallowed, rfl⟩
      | unregister target => exact ⟨s.store.poisoned_remove target, rfl⟩
      | onReconnecting => exact ⟨rfl, rfl⟩
      | onReconnected => exact ⟨rfl, rfl⟩

/-- **Without panics and disconnects the client stays calm**, in every run. -/
theorem Reachable.calm (h : Reachable C (LossesSpareHandlers C) s) :
    s.store.poisoned = false ∧ s.shutdown = false := by
  refine Reaches.invariant (I := fun s => s.store.poisoned = false ∧ s.shutdown = false) h
    ⟨rfl, rfl⟩ ?_
  rintro s l t ⟨hp, hflag⟩ hallowed hst
  obtain ⟨hp', hflag'⟩ := calm_step hallowed hst
  exact ⟨hp'.trans hp, hflag'.trans hflag⟩

/-- The monitor cancels in earnest in these runs. -/
theorem LossesSpareHandlers.undisturbed {l : Label V} (h : LossesSpareHandlers C s l)
    (hp : s.store.poisoned = false) : Undisturbed s l := by
  cases l with
  | disconnect d l => exact h.elim
  | monitor l =>
      cases l with
      | cancel => exact hp
      | _ => trivial
  | _ => trivial

theorem Reachable.lossInv_of_spared (h : Reachable C (LossesSpareHandlers C) s) : s.LossInv := by
  refine Reaches.induction (I := LossInv) h (fun c g huse => absurd huse (not_uses_init C c g))
    fun s _ _ (hs : Reachable C (LossesSpareHandlers C) s) hi hallowed hst => ?_
  exact hi.step hs.control_inv hs.storeInv hs.ordered (hallowed.undisturbed hs.calm.1) hst

/-- **In the handler's window the reader runs, or no call waits**, in every run. -/
theorem Reachable.windowInv (h : Reachable C (LossesSpareHandlers C) s) : s.WindowInv := by
  refine Reaches.induction (I := WindowInv) h ?_
    fun s l t (hs : Reachable C (LossesSpareHandlers C) s) hi hallowed hst => ?_
  · rintro g (⟨on, hm⟩ | ⟨hm, -⟩)
    · exact MonitorPc.noConfusion hm
    · exact MonitorPc.noConfusion hm
  · cases l with
    | call c l => exact hi.call hs.storeInv hs.ordered hallowed hst
    | connection g l =>
        exact hi.connection hs.storeInv (hs.serving hs.calm.2) hallowed hst
    | monitor l => exact hi.monitor hs.storeInv hs.usesInstalled hs.control_inv hst
    | disconnect d l => exact hallowed.elim
    | user l =>
        obtain rfl := Option.some.inj hst
        exact hi.user hs.storeInv hallowed

end

/-! ### No deadlock -/

/-- A call that waits for a connection whose reader has ended and whose loss is in
the queue can be cancelled by the monitor's own steps. -/
def NoDeadlock (C : Config) (s : Client V) : Prop :=
  ∀ c g x reason, (s.calls c).accepted = some g → (s.calls c).cell = some x →
    ¬ s.store.heap.Settled x → ¬ s.ReaderRuns g → .connectionLost g reason ∈ s.events →
    LeadsToCancellation C s x

/-- **A loss leads to the cancellation of the calls that wait for it**, if no
connection is lost under its handler with a call pending. -/
theorem loss_leads_to_cancellation {C : Config} {s : Client V}
    (h : Reachable C (LossesSpareHandlers C) s) : NoDeadlock C s := by
  intro c g x reason haccepted hx hpending hended hmem
  obtain ⟨hp, hflag⟩ := h.calm
  have hserving := h.serving hflag
  have hview := h.storeInv.view
  have hallocated := h.storeInv.owns c x hx
  rcases h.lossInv_of_spared c g (.inr haccepted) with hstate | ⟨reason', hm⟩ | hgone
  · have hready : s.Ready g x := ⟨hflag, hserving.events, hstate, hp, hview, hallocated⟩
    have hcycle : s.monitor.inCycle = true → False := fun hin => h.control_inv.cycle hin g hstate
    have hlatest : ∀ g', s.monitor.Current g' → g' = g := fun g' hg' =>
      (h.control_inv.current g' hg').trans (h.control_inv.state_latest g hstate).symm
    -- the handler's window is closed, since the reader has ended and the call waits
    have hshut : ¬ s.HandlerWindow g := fun hwindow =>
      (h.windowInv g hwindow).elim hended fun hsettled => hpending (hsettled c x haccepted hx)
    cases hm : s.monitor with
    | idle => exact hready.of_idle hm hmem
    | received g' reason' => exact hready.of_received_any hm hmem
    | marking g' reason' => exact hready.of_marking_any hm hmem
    | installed g' =>
        obtain rfl := hlatest g' (by rw [hm]; rfl)
        have hhandler : s.reconnectedHandler = false := by
          by_contra hset
          exact hshut (.inr ⟨hm, by simpa using hset⟩)
        refine .head (t := { s with monitor := .idle }) .startReconnected trivial ?_ ?_
        · simp [monitorStep, hm, hhandler]
        · exact Ready.of_idle ⟨hflag, hserving.events, hstate, hp, hview, hallocated⟩ rfl hmem
    | reconnected g' on =>
        obtain rfl := hlatest g' (by rw [hm]; rfl)
        exact absurd (.inl ⟨on, hm⟩) hshut
    | stopped => exact absurd hm hserving.monitor
    | _ => exact (hcycle (by rw [hm]; rfl)).elim
  · exact leadsToCancellation_of_cancelling hview hp hallocated hm
  · exact absurd (hgone x hx).1 hpending

theorem loss_leads_to_cancellation_reset :
    ∃ s : Client Int, (s.calls 0).accepted = some 1 ∧ ¬ s.ReaderRuns 1 ∧
      .connectionLost 1 "Error reading frame: reset" ∈ s.events ∧ NoDeadlock sample s := by
  have hshut : ∀ {s : Client Int} {g : Nat}, s.monitor = .idle → ¬ s.HandlerWindow g := by
    rintro s g hm (⟨on, hm'⟩ | ⟨hm', -⟩)
    · exact MonitorPc.noConfusion (hm.symm.trans hm')
    · exact MonitorPc.noConfusion (hm.symm.trans hm')
  have hrun : Reachable sample (LossesSpareHandlers sample) (V := Int) _ :=
    .head (.call 0 (.invoke "add")) trivial rfl <|
    .head (.call 0 (.insert .i64)) trivial rfl <|
    .head (.call 0 .lookup) trivial rfl <|
    .head (.call 0 .offer) (fun _ _ _ hg => absurd hg (hshut rfl)) rfl <|
    .head (.connection 1 (.readError "reset")) (fun _ hg => absurd hg (hshut rfl)) rfl <|
    .refl _
  exact ⟨_, rfl, fun ⟨_, h⟩ => ReaderState.noConfusion h, by decide,
    loss_leads_to_cancellation hrun⟩

/-- While the handler runs, the monitor takes no step of its own. -/
theorem not_leadsToCancellation {C : Config} {s : Client V} {h : Nat} {on : Option Nat} {x : Cell}
    (hm : s.monitor = .reconnected h on) (hpending : ¬ s.store.heap.Settled x) :
    ¬ LeadsToCancellation C s x := by
  rintro ⟨t, ⟨ls, hrun⟩, hsettled⟩
  cases hrun with
  | nil => exact hpending hsettled
  | @cons _ _ _ l _ hl hst =>
      cases l with
      | monitor l => cases l <;> simp_all [step, monitorStep, Internal]
      | _ => exact hl.elim

/-- The handler for connection 2 awaits a call; connection 2 is lost; the event waits
for the monitor, the monitor for the handler, and the handler for the call. -/
theorem handler_deadlock :
    ∃ s : Client Int, Reachable sample NoDisconnect s ∧
      s.monitor = .reconnected 2 (some 0) ∧ (s.calls 0).pc = .waiting ∧ ¬ NoDeadlock sample s := by
  have hrun : Reachable sample NoDisconnect (V := Int) _ :=
    .head (.user .onReconnected) trivial rfl <|
    .head (.connection 1 (.readError "reset")) trivial rfl <|
    .head (.monitor .recv) trivial rfl <|
    .head (.monitor .loadShutdown) trivial rfl <|
    .head (.monitor .mark) trivial rfl <|
    .head (.monitor .cancel) trivial rfl <|
    .head (.monitor .startReconnecting) trivial rfl <|
    .head (.monitor .checkTop) trivial rfl <|
    .head (.monitor .wake) trivial rfl <|
    .head (.monitor (.negotiated true)) trivial rfl <|
    .head (.monitor (.socket true)) trivial rfl <|
    .head (.monitor .install) trivial rfl <|
    .head (.monitor .startReconnected) trivial rfl <|
    .head (.call 0 (.invoke "subscribe")) trivial rfl <|
    .head (.call 0 (.insert .i64)) trivial rfl <|
    .head (.call 0 .lookup) trivial rfl <|
    .head (.call 0 .offer) trivial rfl <|
    .head (.monitor (.handlerAwaits 0)) trivial rfl <|
    .head (.connection 2 (.readError "reset")) trivial rfl <|
    .refl _
  obtain ⟨s, hs, hm, hpc, haccepted, hcell, hended, hmem, hpending⟩ :
      ∃ s : Client Int, Reachable sample NoDisconnect s ∧ s.monitor = .reconnected 2 (some 0) ∧
        (s.calls 0).pc = .waiting ∧ (s.calls 0).accepted = some 2 ∧
        (s.calls 0).cell = some (.future 0) ∧ (s.connections 2).reader = .ended ∧
        .connectionLost 2 "Error reading frame: reset" ∈ s.events ∧ ¬ s.store.heap.Resolved 0 :=
    ⟨_, hrun, rfl, rfl, rfl, rfl, rfl, by decide, by decide⟩
  have hunsettled : ¬ s.store.heap.Settled (.future 0) := hpending
  refine ⟨s, hs, hm, hpc, fun hfree => not_leadsToCancellation hm hunsettled
    (hfree 0 2 (.future 0) _ haccepted hcell hunsettled ?_ hmem)⟩
  rintro ⟨todo, htodo⟩
  exact ReaderState.noConfusion (hended.symm.trans htodo)

end Client

end SignalR
