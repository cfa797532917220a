/-
SignalR/Losses.lean

What the loss of a connection does to the calls that used it.

A call inserts its action before it looks up the connection, and the monitor
marks the connection lost before it cancels.  So a call that found generation `g`
had its action in the map when the calls of `g` were cancelled, and is settled
from then on (`LossInv`, `loss_fails_its_calls`).

This needs the action-map mutex: once a callback has panicked under it,
`cancel_pending` does nothing (`poisoned_loss_leaves_call_waiting`).
-/
import SignalR.Cancellation
import SignalR.Generations

namespace SignalR

open Transition

variable {V : Type}

/-! ### Calls -/

namespace Call

/-- The call found generation `g`, and perhaps its request was accepted there. -/
def Uses (x : Call) (g : Nat) : Prop :=
  x.pc = .holding g ∨ x.accepted = some g

/-- A call has its cell once its action was inserted, and is accepted only after
that. -/
structure Ordered (x : Call) : Prop where
  cell : x.pc ≠ .idle → x.pc ≠ .created → x.kind ≠ .send → ∃ c, x.cell = some c
  fresh : x.pc = .idle ∨ x.pc = .created → x.accepted = none

/-- An accepted call has its cell. -/
theorem Ordered.cell_of_accepted {x : Call} {g : Nat} (h : x.Ordered)
    (haccepted : x.accepted = some g) (hkind : x.kind ≠ .send) : ∃ c, x.cell = some c := by
  have hlate : ∀ pc, pc = .idle ∨ pc = .created → x.pc ≠ pc := by
    rintro pc hpc rfl
    rw [h.fresh hpc] at haccepted
    simp at haccepted
  exact h.cell (hlate _ (.inl rfl)) (hlate _ (.inr rfl)) hkind

end Call

namespace Client

section

variable {s t : Client V} {x y : Call}

theorem CallMove.ordered (h : CallMove s t x y) (hx : x.Ordered) : y.Ordered := by
  have hcell : ∀ {pc : CallPc}, x.pc = pc → pc ≠ .idle → pc ≠ .created → x.kind ≠ .send →
      ∃ c, x.cell = some c := by
    rintro _ rfl
    exact hx.cell
  cases h with
  | same => exact hx
  | start key hpc => exact ⟨fun _ hne => absurd rfl hne, fun _ => hx.fresh (.inl hpc)⟩
  | startSend hpc => exact ⟨fun _ _ hne => absurd rfl hne, fun h => by simp at h⟩
  | insert => exact ⟨fun _ _ _ => ⟨_, rfl⟩, fun h => by simp at h⟩
  | lookup hpc => exact ⟨fun _ _ => hcell hpc (by simp) (by simp), fun h => by simp at h⟩
  | lookupFails e hpc => exact ⟨fun _ _ => hcell hpc (by simp) (by simp), fun h => by simp at h⟩
  | accept hpc _ hpc' =>
      refine ⟨fun _ _ => hcell hpc (by simp) (by simp), fun h => ?_⟩
      rcases hpc' with rfl | rfl <;> simp at h
  | reject e hpc => exact ⟨fun _ _ => hcell hpc (by simp) (by simp), fun h => by simp at h⟩
  | fail e hpc =>
      refine ⟨fun _ _ => ?_, fun h => by simp at h⟩
      rcases hpc with hpc | ⟨e', hpc⟩
      · exact hcell hpc (by simp) (by simp)
      · exact hcell hpc (by simp) (by simp)
  | finish hpc hpc' =>
      refine ⟨fun _ _ => ?_, fun h => ?_⟩
      · rcases hpc with ⟨e, hpc⟩ | hpc | hpc
        · exact hcell hpc (by simp) (by simp)
        · exact hcell hpc (by simp) (by simp)
        · exact hcell hpc (by simp) (by simp)
      · rcases hpc' with rfl | rfl <;> simp at h

/-- A call comes to use a generation only by looking it up while it is connected. -/
theorem CallMove.uses (h : CallMove s t x y) {g : Nat} (hy : y.Uses g) :
    x.Uses g ∨ x.pc = .inserted ∧ s.state = .connected g := by
  cases h with
  | same => exact .inl hy
  | start => exact .inl (hy.elim (fun h => by simp at h) .inr)
  | startSend => exact .inl (hy.elim (fun h => by simp at h) .inr)
  | insert => exact .inl (hy.elim (fun h => by simp at h) .inr)
  | lookup hpc hstate =>
      rcases hy with h | h
      · obtain rfl := CallPc.holding.inj h
        exact .inr ⟨hpc, hstate⟩
      · exact .inl (.inr h)
  | lookupFails => exact .inl (hy.elim (fun h => by simp at h) .inr)
  | accept hpc _ hpc' =>
      rcases hy with h | h
      · rcases hpc' with rfl | rfl <;> simp at h
      · obtain rfl := Option.some.inj h
        exact .inl (.inl hpc)
  | reject => exact .inl (hy.elim (fun h => by simp at h) .inr)
  | fail => exact .inl (hy.elim (fun h => by simp at h) .inr)
  | finish _ hpc' =>
      refine .inl (hy.elim (fun h => ?_) .inr)
      rcases hpc' with rfl | rfl <;> simp at h

/-- A call that uses a generation keeps its cell. -/
theorem CallMove.cell (h : CallMove s t x y) (hx : x.Ordered) {g : Nat} (hy : y.Uses g) :
    y.cell = x.cell := by
  cases h with
  | insert hpc =>
      -- a call that has just inserted its action uses no connection yet
      rcases hy with h | h
      · simp at h
      · have hnone := hx.fresh (.inr hpc)
        rw [show x.accepted = some g from h] at hnone
        simp at hnone
  | _ => rfl

end

/-- A call is accepted only by the connection it holds, when it offers its request. -/
theorem accepted_of_callStep {s t : Client V} {c g : Nat} {l : CallLabel V}
    (h : s.callStep c l = some t) (hnew : (t.calls c).accepted = some g) :
    (s.calls c).accepted = some g ∨
      l = .offer ∧ (s.calls c).pc = .holding g ∧ (s.connections g).writer = .running := by
  cases callStep_transition h with
  | accept hpc hwriter =>
      rw [setCall_self] at hnew
      obtain rfl := Option.some.inj hnew
      exact .inr ⟨rfl, hpc, hwriter⟩
  | pollPending | pollStream => exact .inl hnew
  -- only an accepted offer writes the field
  | _ =>
      first
      | rw [setCall_self] at hnew
      | rw [createKey, setCall_self] at hnew
      | rw [failCall, setCall_self] at hnew
      exact .inl hnew

theorem ordered_step {C : Config} {s t : Client V} {l : Label V}
    (hi : ∀ c, (s.calls c).Ordered) (h : step C s l = some t) (c : Nat) :
    (t.calls c).Ordered := by
  rcases step_call h c with hc | ⟨-, -, hmove⟩
  · rw [hc]
    exact hi c
  · exact hmove.ordered (hi c)

/-- Every call is ordered, in every run. -/
theorem Reachable.ordered {C : Config} {allowed : Client V → Label V → Prop} {s : Client V}
    (h : Reachable C allowed s) (c : Nat) : (s.calls c).Ordered := by
  refine Reaches.invariant (I := fun s => ∀ c, (s.calls c).Ordered) h ?_ ?_ c
  · intro c
    exact ⟨fun h => absurd rfl h, fun _ => rfl⟩
  · intro s l t hi _ hst
    exact ordered_step hi hst

end Client

/-! ### Cancellations in a trace -/

/-- A generation is cancelled after it was torn down, and not before. -/
structure Control.CancelInv (k : Control) : Prop where
  torn : ∀ g fs, .cancelled g fs ∈ k.trace → g ∈ tearDowns k.trace
  pending : ∀ g reason, k.monitor = .cancelling g reason →
    g ∈ tearDowns k.trace ∧ ∀ fs, .cancelled g fs ∉ k.trace

theorem mem_tearDowns_append {trace l : List Observation} {g : Nat} (h : g ∈ tearDowns trace) :
    g ∈ tearDowns (trace ++ l) := by
  rw [tearDowns] at h ⊢
  rw [List.filterMap_append]
  exact List.mem_append_left _ h

namespace Client

theorem MonitorMove.cancelInv {C : Config} {s t : Client V} (h : MonitorMove C s t)
    (hk : s.control.Inv) (hi : s.control.CancelInv) : t.control.CancelInv := by
  rcases h.kinds with ⟨g, reason, hstate, -, hm, htrace, -⟩ | ⟨g, reason, hm, rfl⟩ | hq
  · -- a fresh generation is torn down
    have hnew : g ∉ tearDowns s.trace := fun hmem =>
      Nat.lt_irrefl g (hk.state_fresh g hstate g hmem)
    have hold : ∀ g' fs, .cancelled g' fs ∈ t.trace → .cancelled g' fs ∈ s.trace := by
      intro g' fs hmem
      rw [htrace] at hmem
      simpa using hmem
    refine ⟨fun g' fs hmem => ?_, fun g' reason' hm' => ?_⟩
    · show g' ∈ tearDowns t.trace
      rw [htrace]
      exact mem_tearDowns_append (hi.torn g' fs (hold g' fs hmem))
    · obtain ⟨rfl, -⟩ := MonitorPc.cancelling.inj (hm.symm.trans hm')
      refine ⟨?_, fun fs hmem => hnew (hi.torn g fs (hold g fs hmem))⟩
      show g ∈ tearDowns t.trace
      rw [htrace, tearDowns_append_tornDown]
      exact List.mem_append_right _ (List.mem_singleton_self g)
  · refine ⟨fun g' fs hmem => ?_, fun g' reason' hm' => MonitorPc.noConfusion hm'⟩
    show g' ∈ tearDowns (s.trace ++ _)
    refine mem_tearDowns_append ?_
    rcases List.mem_append.mp hmem with hmem | hmem
    · exact hi.torn g' fs hmem
    · obtain ⟨rfl, -⟩ := Observation.cancelled.inj (List.mem_singleton.mp hmem)
      exact (hi.pending g' reason hm).1
  · refine ⟨fun g fs hmem => ?_, fun g reason hm => absurd hm (hq.after g reason)⟩
    show g ∈ tearDowns t.trace
    have hmem' : .cancelled g fs ∈ t.trace := hmem
    rcases hq.trace with htrace | ⟨o, htrace, -, ho⟩
    · rw [htrace] at hmem' ⊢
      exact hi.torn g fs hmem'
    · rw [htrace] at hmem' ⊢
      refine mem_tearDowns_append (hi.torn g fs ?_)
      exact (List.mem_append.mp hmem').resolve_right
        fun h => ho g fs (List.mem_singleton.mp h).symm

theorem cancelInv_step {C : Config} {s t : Client V} {l : Label V} (hk : s.control.Inv)
    (hi : s.control.CancelInv) (h : step C s l = some t) : t.control.CancelInv := by
  rcases step_control h with hcontrol | hm | ⟨d, hd⟩
  · rw [hcontrol]
    exact hi
  · exact hm.cancelInv hk hi
  · have htrace : t.control.trace = s.control.trace := hd.frame.trace
    have hmonitor : t.control.monitor = s.control.monitor := hd.frame.monitor
    refine ⟨?_, ?_⟩
    · rw [htrace]
      exact hi.torn
    · rw [htrace, hmonitor]
      exact hi.pending

theorem Reachable.cancelInv {C : Config} {allowed : Client V → Label V → Prop} {s : Client V}
    (h : Reachable C allowed s) : s.control.CancelInv := by
  have hinit : (init C : Client V).control.CancelInv :=
    ⟨fun _ _ hmem => absurd hmem List.not_mem_nil, fun _ _ hm => MonitorPc.noConfusion hm⟩
  exact Reaches.induction (I := fun s => s.control.CancelInv) h hinit
    fun s _ _ (hs : Reachable C allowed s) hi _ hst => cancelInv_step hs.control_inv hi hst

/-! ### A loss fails the calls of its generation -/

/-- No disconnect takes a step. -/
def NoDisconnect (_ : Client V) : Label V → Prop
  | .disconnect _ _ => False
  | _ => True

/-- No disconnect takes a step, and the monitor cancels only while the action-map
mutex is not poisoned. -/
def Undisturbed (s : Client V) : Label V → Prop
  | .disconnect _ _ => False
  | .monitor .cancel => s.store.poisoned = false
  | _ => True

/-- The cell of the call is settled, and no action for it is in the map. -/
def Gone (s : Client V) (c : Nat) : Prop :=
  ∀ x, (s.calls c).cell = some x →
    s.store.heap.Settled x ∧ ∀ key, s.store.view.cellAt key ≠ some x

/-- A call that found a generation is over once the calls of that generation were
cancelled. -/
def LossInv (s : Client V) : Prop :=
  ∀ c g, (s.calls c).Uses g →
    s.state = .connected g ∨ (∃ reason, s.monitor = .cancelling g reason) ∨ s.Gone c

section

variable {C : Config} {s t : Client V} {c : Nat}

/-- What is gone stays gone. -/
theorem Gone.mono (h : s.Gone c) (hown : s.Owns c) (hadv : View.Advances s.store.view t.store.view)
    (hcell : (t.calls c).cell = (s.calls c).cell) : t.Gone c := by
  intro x hx
  rw [hcell] at hx
  obtain ⟨hsettled, hout⟩ := h x hx
  refine ⟨hadv.settled x (hown x hx) hsettled, fun key hkey => ?_⟩
  rcases hadv.held key x hkey with hkey | hkey
  · exact hout key hkey
  · exact hkey (hown x hx)

/-- A cancellation leaves nothing pending. -/
theorem gone_cancelPending (hi : s.StoreInv) (hp : s.store.poisoned = false) {reason : String}
    (hstore : t.store = s.store.cancelPending reason) (hcalls : t.calls = s.calls) : t.Gone c := by
  intro x hx
  rw [hcalls] at hx
  rw [hstore]
  refine ⟨Storage.settled_cancelPending hi.view hp reason (hi.owns c x hx), fun key hkey => ?_⟩
  rw [Storage.cellAt_cancelPending hp] at hkey
  simp at hkey

/-- While the monitor is to cancel, it does nothing else. -/
theorem eq_cancel_of_cancelling {l : MonitorLabel} {g : Nat} {reason : String}
    (hm : s.monitor = .cancelling g reason) (h : s.monitorStep C l = some t) : l = .cancel := by
  cases l <;> simp_all [monitorStep]

theorem LossInv.monitor {l : MonitorLabel} (hi : s.LossInv) (hk : s.control.Inv) (hs : s.StoreInv)
    (hallowed : Undisturbed s (.monitor l)) (h : s.monitorStep C l = some t) : t.LossInv := by
  have hcalls : t.calls = s.calls := (monitorStep_move h).frame.calls
  have keep : ∀ c, t.store = s.store → s.Gone c → t.Gone c := by
    intro c hstore hgone
    refine hgone.mono (hs.owns c) ?_ (by rw [hcalls])
    rw [hstore]
    exact .refl _
  have hconnected : ∀ g, s.state = .connected g → s.monitor.inCycle = true → False :=
    fun g hstate hm => hk.cycle hm g hstate
  intro c g huse
  rw [hcalls] at huse
  rcases (monitorStep_move h).kinds with
    ⟨g', reason, hstate, -, hm, -, hstore⟩ | ⟨g', reason, hm, rfl⟩ | hq
  · -- the connected generation is torn down
    rcases hi c g huse with hg | ⟨reason', hm'⟩ | hgone
    · obtain rfl := ConnectionState.connected.inj (hstate.symm.trans hg)
      exact .inr (.inl ⟨reason, hm⟩)
    · exact (hconnected g' hstate (by rw [hm']; rfl)).elim
    · exact .inr (.inr (keep c hstore hgone))
  · -- everything in the map is cancelled
    obtain rfl := eq_cancel_of_cancelling hm h
    exact .inr (.inr (gone_cancelPending hs hallowed rfl rfl))
  · -- a store ends a reconnect cycle, in which nothing is connected
    rcases hi c g huse with hg | ⟨reason', hm'⟩ | hgone
    · rcases hq.state with hstate | hm' | ⟨h', hm'⟩
      · exact .inl (hstate.trans hg)
      · exact (hconnected g hg (by rw [hm']; rfl)).elim
      · exact (hconnected g hg (by rw [hm']; rfl)).elim
    · exact absurd hm' (hq.before g reason')
    · exact .inr (.inr (keep c hq.store hgone))

theorem LossInv.call {l : Label V} (hi : s.LossInv) (hs : s.StoreInv)
    (hordered : ∀ c, (s.calls c).Ordered) (hcontrol : t.control = s.control)
    (h : step C s l = some t) : t.LossInv := by
  have hadv := View.Touches.advances (step_touches hs h)
  have hstate : t.state = s.state := state_of_control hcontrol
  have hmonitor : t.monitor = s.monitor := monitor_of_control hcontrol
  intro c g huse
  rw [hstate, hmonitor]
  rcases step_call h c with hc | ⟨-, -, hmove⟩
  · rw [hc] at huse
    exact (hi c g huse).imp id (Or.imp id fun hgone => hgone.mono (hs.owns c) hadv (by rw [hc]))
  · rcases hmove.uses huse with huse' | ⟨-, hg⟩
    · have hcell := hmove.cell (hordered c) huse
      exact (hi c g huse').imp id (Or.imp id fun hgone => hgone.mono (hs.owns c) hadv hcell)
    · exact .inl hg

theorem LossInv.step {l : Label V} (hi : s.LossInv) (hk : s.control.Inv) (hs : s.StoreInv)
    (hordered : ∀ c, (s.calls c).Ordered) (hallowed : Undisturbed s l)
    (h : Client.step C s l = some t) : t.LossInv := by
  cases l with
  | call c l => exact hi.call hs hordered (callStep_frame h).1.control h
  | connection g l => exact hi.call hs hordered (connectionStep_frame h).control h
  | monitor l => exact hi.monitor hk hs hallowed h
  | disconnect d l => exact hallowed.elim
  | user l =>
      refine hi.call hs hordered ?_ h
      obtain rfl := Option.some.inj h
      exact (userStep_frame C s l).1

end

/-- **The run lemma of losses.** -/
theorem Reachable.lossInv {C : Config} {s : Client V} (h : Reachable C Undisturbed s) :
    s.LossInv := by
  refine Reaches.induction (I := LossInv) h (fun c g huse => ?_)
    fun s _ _ (hs : Reachable C Undisturbed s) hi hallowed hst =>
      hi.step hs.control_inv hs.storeInv hs.ordered hallowed hst
  rcases huse with huse | huse <;> simp [init, Call.new] at huse

/-- Once the monitor has cancelled for generation `g`, the cell of every call that
`g` accepted is settled and not in the map. -/
def CallsFailed (s : Client V) : Prop :=
  ∀ g futures c, .cancelled g futures ∈ s.trace → (s.calls c).accepted = some g →
    (s.calls c).kind ≠ .send →
    ∃ x, (s.calls c).cell = some x ∧ s.store.heap.Settled x ∧
      ∀ key a, s.store.get key = some a → a.cell ≠ some x

/-- The tear-down keeps the callbacks and the deferred messages. -/
def TearDownSpares (C : Config) (s : Client V) : Prop :=
  ∀ l t, l = .mark ∨ l = .cancel → step C s (.monitor l) = some t →
    (∀ key a, t.store.get key = some (.callback a) ↔ s.store.get key = some (.callback a)) ∧
      t.store.deferredMessages = s.store.deferredMessages

/-- **A loss fails the calls of its generation, and only calls.** -/
theorem loss_fails_its_calls {C : Config} {s : Client V} (h : Reachable C Undisturbed s) :
    s.CallsFailed ∧ s.TearDownSpares C := by
  constructor
  · intro g futures c hmem haccepted hkind
    have htorn := h.cancelInv.torn g futures hmem
    obtain ⟨x, hx⟩ := (h.ordered c).cell_of_accepted haccepted hkind
    rcases h.lossInv c g (.inr haccepted) with hstate | ⟨reason, hm⟩ | hgone
    · exact absurd (h.control_inv.state_fresh g hstate g htorn) (Nat.lt_irrefl g)
    · exact absurd hmem ((h.cancelInv.pending g reason hm).2 futures)
    · obtain ⟨hsettled, hout⟩ := hgone x hx
      refine ⟨x, hx, hsettled, fun key a hget hcell => hout key ?_⟩
      rw [View.cellAt, show s.store.view.get key = some a from hget]
      exact hcell
  · rintro l t hl hst
    rcases (monitorStep_move hst).frame.store with hstore | ⟨g, reason, -, hstore⟩
    · rw [hstore]
      exact ⟨fun _ _ => Iff.rfl, rfl⟩
    · rw [hstore]
      exact ⟨fun key a => s.store.get_cancelPending_callback_iff _ key a,
        s.store.deferredMessages_cancelPending _⟩

theorem loss_fails_its_calls_invoke :
    ∃ s : Client Int, .cancelled 1 [0] ∈ s.trace ∧ (s.calls 0).accepted = some 1 ∧
      s.CallsFailed ∧ s.TearDownSpares sample := by
  have hrun : Reachable sample Undisturbed (V := Int) _ :=
    .head (.call 0 (.invoke "add")) trivial rfl <|
    .head (.call 0 (.insert .i64)) trivial rfl <|
    .head (.call 0 .lookup) trivial rfl <|
    .head (.call 0 .offer) trivial rfl <|
    .head (.connection 1 (.readError "reset")) trivial rfl <|
    .head (.monitor .recv) trivial rfl <|
    .head (.monitor .loadShutdown) trivial rfl <|
    .head (.monitor .mark) trivial rfl <|
    .head (.monitor .cancel) (Eq.refl false) rfl <|
    .refl _
  exact ⟨_, by decide, rfl, loss_fails_its_calls hrun⟩

/-- A callback has panicked under the action-map mutex, so the cancellation after
the loss does nothing and the call is left waiting. -/
theorem poisoned_loss_leaves_call_waiting :
    ∃ s : Client Int, Reachable sample NoDisconnect s ∧ ¬ s.CallsFailed := by
  have hrun : Reachable sample NoDisconnect (V := Int) _ :=
    .head (.call 0 (.invoke "add")) trivial rfl <|
    .head (.call 0 (.insert .i64)) trivial rfl <|
    .head (.call 0 .lookup) trivial rfl <|
    .head (.call 0 .offer) trivial rfl <|
    .head (.user (.register "boom" boomCallback)) trivial rfl <|
    .head (.connection 1 (.readFrame boomFrame)) trivial (step_boomFrame rfl) <|
    .head (.connection 1 .dispatch) trivial rfl <|
    .head (.connection 1 (.writeFails "broken pipe")) trivial rfl <|
    .head (.monitor .recv) trivial rfl <|
    .head (.monitor .loadShutdown) trivial rfl <|
    .head (.monitor .mark) trivial rfl <|
    .head (.monitor .cancel) trivial rfl <|
    .refl _
  refine ⟨_, hrun, fun hfailed => ?_⟩
  obtain ⟨x, hx, hsettled, -⟩ := hfailed 1 [] 0 (by decide) rfl (by decide)
  obtain rfl : Cell.future 0 = x := Option.some.inj hx
  refine absurd hsettled ?_
  show ¬ Heap.Resolved _ 0
  decide

end Client

end SignalR
