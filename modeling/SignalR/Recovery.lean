/-
SignalR/Recovery.lean

A client that reconnects without limit is never cut off for good.  Before a shutdown it
is connected, or its monitor is in a reconnect cycle (`Online`), and of the connection in
use both tasks run or its loss is on its way to the monitor (`Tended`).

So wherever the client stands, the monitor's own steps lead, if its attempts succeed, to a
state in which all losses are dealt with and the client is connected to a generation
whose reader and writer both run (`recovers`).  What bounds the way there is the number of
reports in the queue, and within the handling of one report the monitor's place in the
cycle (`workload`).  The one thing that can stand in the way is a handler that awaits a
call.
-/
import SignalR.Readers

namespace SignalR

open Transition

variable {V : Type}

/-! ### Places of the monitor -/

namespace MonitorPc

/-- No handler awaits a call. -/
def Free : MonitorPc → Prop
  | .reconnecting (some _) | .reconnected _ (some _) => False
  | _ => True

/-- The steps to the end of a reconnect cycle without failures, roughly. -/
def distance : MonitorPc → Nat
  | .received _ _ => 13
  | .marking _ _ => 12
  | .cancelling _ _ => 11
  | .cancelled => 10
  | .reconnecting _ => 9
  | .loopTop _ => 8
  | .sleeping _ => 7
  | .negotiating _ => 6
  | .connecting _ _ => 5
  | .installing _ => 4
  | .installed _ => 3
  | .reconnected _ _ => 2
  | .exhausted => 1
  | .idle | .stopped => 0

end MonitorPc

namespace Client

variable {C : Config} {s t : Client V} {g : Nat}

/-! ### What the monitor keeps -/

/-- The writer task of connection `g` runs. -/
def WriterRuns (s : Client V) (g : Nat) : Prop :=
  (s.connections g).writer = .running

/-- The writer and the commands of a connection, unless the connection is new. -/
theorem MonitorMove.writer (h : MonitorMove C s t) (g : Nat) :
    (t.monitor = .installing g ∧ t.connections g = .start .monitor) ∨
      ((t.connections g).writer = (s.connections g).writer ∧
        (t.connections g).commands = (s.connections g).commands) := by
  have hdrop : ∀ g', (dropState s.connections s.state g').writer = (s.connections g').writer ∧
      (dropState s.connections s.state g').commands = (s.connections g').commands := by
    intro g'
    cases hstate : s.state with
    | connected g'' =>
        by_cases hg : g' = g''
        · simp [dropState, hg]
        · simp [dropState, hg]
    | _ => exact ⟨rfl, rfl⟩
  cases h with
  | markCurrent | storeExhausted => exact .inr (hdrop g)
  | @connect attempt h hm =>
      by_cases hg : g = h
      · subst hg
        exact .inl ⟨rfl, setConnection_self s g _⟩
      · refine .inr ?_
        simp [setConnection, hg]
  | @install h hm =>
      refine .inr ?_
      by_cases hg : g = h
      · subst hg
        simp [Client.install, observe, acquire, release, setConnection, setState, hdrop]
      · simp [Client.install, observe, acquire, release, setConnection, setState, hg, hdrop]
  | _ => exact .inr ⟨rfl, rfl⟩

/-- Before a shutdown, a loss that was reported stays reported until nothing serves its
connection. -/
theorem MonitorMove.reported (h : MonitorMove C s t) (hs : s.Serving) (hflag : s.shutdown = false)
    (hr : s.LossReported g) : t.LossReported g ∨ ¬ t.Serves g := by
  -- the queue is as it was, and the monitor had no report in hand
  have queue : ∀ {u : Client V} {pc : MonitorPc}, s.monitor = pc →
      (∀ g reason, pc ≠ .received g reason ∧ pc ≠ .marking g reason) → u.events = s.events →
      u.LossReported g := by
    rintro u _ rfl hpc hevents
    refine .inl ?_
    rw [hevents]
    exact hr.mem (fun reason => (hpc g reason).1) fun reason => (hpc g reason).2
  cases h with
  | @recv g' reason events hm he =>
      obtain ⟨reason', hmem⟩ := hr.mem (by simp [hm]) (by simp [hm])
      rw [he] at hmem
      rcases List.mem_cons.mp hmem with heq | hmem
      · obtain ⟨rfl, rfl⟩ := ConnectionEvent.connectionLost.inj heq
        exact .inl (.inr ⟨reason', .inl rfl⟩)
      · exact .inl (.inl ⟨reason', hmem⟩)
  | recvShutdown hm he =>
      refine absurd ?_ hs.events
      rw [he]
      exact List.mem_cons_self
  | leave hm hup => simp [hflag] at hup
  | @load g' reason hm =>
      rcases hr with hmem | ⟨reason', hm' | hm'⟩
      · exact .inl (.inl hmem)
      · obtain ⟨rfl, rfl⟩ := MonitorPc.received.inj (hm.symm.trans hm')
        exact .inl (.inr ⟨reason, .inr rfl⟩)
      · simp [hm] at hm'
  | markCurrent =>
      refine .inr ?_
      rintro (hstate | hm)
      · have hne : (if C.policy.enabled then ConnectionState.reconnecting else .notConnected)
            = .connected g := hstate
        split at hne <;> simp at hne
      · exact MonitorPc.noConfusion hm
  | @markStale g' reason hm hstale =>
      rcases hr with hmem | ⟨reason', hm' | hm'⟩
      · exact .inl (.inl hmem)
      · simp [hm] at hm'
      · -- the event in hand is for a connection that is not in use
        obtain ⟨rfl, rfl⟩ := MonitorPc.marking.inj (hm.symm.trans hm')
        exact .inr fun hg => hg.elim hstale MonitorPc.noConfusion
  | startCycle hm => rcases hm with ⟨hm, -⟩ | hm <;> exact .inl (queue hm (by simp) rfl)
  | interrupt hm | finish hm => rcases hm with hm | hm <;> exact .inl (queue hm (by simp) rfl)
  | retry hm => rcases hm with hm | ⟨h, hm⟩ <;> exact .inl (queue hm (by simp) rfl)
  | cancel hm | disabled hm | notify hm | handler hm | exhaust hm | sleep hm | storeExhausted hm
  | wake hm | negotiated hm | connect hm | install hm | notifyReconnected hm
  | handlerReconnected hm => exact .inl (queue hm (by simp) rfl)

/-- What is served was served before, or is new. -/
theorem MonitorMove.serves (h : MonitorMove C s t) (hg : t.Serves g) :
    s.Serves g ∨ t.connections g = .start .monitor := by
  cases h with
  | markCurrent =>
      rcases hg with hstate | hm
      · have hne : (if C.policy.enabled then ConnectionState.reconnecting else .notConnected)
            = .connected g := hstate
        split at hne <;> simp at hne
      · exact MonitorPc.noConfusion hm
  | storeExhausted => exact hg.elim ConnectionState.noConfusion MonitorPc.noConfusion
  | @connect attempt h hm =>
      rcases hg with hstate | hm'
      · exact .inl (.inl hstate)
      · obtain rfl := MonitorPc.installing.inj hm'
        exact .inr (setConnection_self s h _)
  | @install h hm =>
      rcases hg with hstate | hm'
      · obtain rfl := ConnectionState.connected.inj hstate
        exact .inl (.inr hm)
      · exact MonitorPc.noConfusion hm'
  | _ => exact .inl (.inl (hg.resolve_right MonitorPc.noConfusion))

/-! ### Commands and writers -/

/-- No close command is in a queue. -/
def Unclosed (s : Client V) : Prop :=
  ∀ g d, .close d ∉ (s.connections g).commands

/-- A call puts nothing but requests into a queue. -/
theorem Unclosed.call {c : Nat} {l : CallLabel V} (hi : s.Unclosed)
    (h : s.callStep c l = some t) : t.Unclosed := by
  -- only one connection changes, if any
  have update : ∀ {k : Connection} {g : Nat}, (∀ d, .close d ∉ k.commands) →
      ∀ g' d, .close d ∉ (Function.update s.connections g k g').commands := by
    intro k g hk g' d
    by_cases hg : g' = g
    · rw [hg, Function.update_self]
      exact hk d
    · rw [Function.update_of_ne hg]
      exact hi g' d
  cases callStep_transition h with
  | lookup | serializeFails | report => exact update (hi _)
  | accept =>
      refine update fun d hd => ?_
      rcases List.mem_append.mp hd with hd | hd
      · exact hi _ d hd
      · simp at hd
  | _ => exact hi

/-- **How a writer ends** without a close command: it reports the loss, or it is aborted
when nobody owns its connection. -/
theorem connectionStep_writer {l : ConnectionLabel} (hm : s.monitor ≠ .stopped)
    (hi : s.Unclosed) (h : s.connectionStep C g l = some t) :
    t.Unclosed ∧ (s.WriterRuns g → t.WriterRuns g ∨
      (∃ reason, .connectionLost g reason ∈ t.events) ∨ (s.connections g).holders = []) := by
  have update : ∀ {k : Connection}, (∀ d, .close d ∉ k.commands) →
      ∀ g' d, .close d ∉ (Function.update s.connections g k g').commands := by
    intro k hk g' d
    by_cases hg : g' = g
    · rw [hg, Function.update_self]
      exact hk d
    · rw [Function.update_of_ne hg]
      exact hi g' d
  -- the writer goes on
  have goes : ∀ {u : Client V} {k : Connection}, u.connections = Function.update s.connections g k →
      (∀ d, .close d ∉ k.commands) → k.writer = (s.connections g).writer →
      u.Unclosed ∧ (s.WriterRuns g → u.WriterRuns g ∨
        (∃ reason, .connectionLost g reason ∈ u.events) ∨ (s.connections g).holders = []) := by
    intro u k hu hk hwriter
    refine ⟨fun g' d => ?_, fun hruns => .inl ?_⟩
    · rw [hu]
      exact update hk g' d
    · rw [WriterRuns, hu, Function.update_self, hwriter]
      exact hruns
  -- the writer ends with a report
  have ends : ∀ reason, (s.endWriter g reason).Unclosed ∧ (s.WriterRuns g →
      (s.endWriter g reason).WriterRuns g ∨
        (∃ reason', .connectionLost g reason' ∈ (s.endWriter g reason).events) ∨
          (s.connections g).holders = []) := by
    intro reason
    refine ⟨update fun d => List.not_mem_nil, fun _ => .inr (.inl ⟨reason, ?_⟩)⟩
    simp [endWriter, emit, setConnection, hm]
  cases connectionStep_transition h with
  | readClose | readFrame | readError | dispatch | dispatchPanics | abortReader =>
      exact goes rfl (hi g) rfl
  | write _ hcommands =>
      refine goes rfl (fun d hd => hi g d ?_) rfl
      rw [hcommands]
      exact List.mem_cons_of_mem _ hd
  | writeError | writeFails => exact ends _
  | @close d _ _ _ hcommands | @closeError d _ _ _ hcommands =>
      refine absurd ?_ (hi g d)
      rw [hcommands]
      exact List.mem_cons_self
  | abortWriter _ hnobody =>
      exact ⟨update fun d => List.not_mem_nil, fun _ => .inr (.inr hnobody)⟩

/-! ### The connection in use -/

/-- Both tasks of the connection in use run, or its loss was reported. -/
structure Tended (s : Client V) : Prop where
  watched : s.Watched
  unclosed : s.Unclosed
  writes : ∀ g, s.Serves g → s.WriterRuns g ∨ s.LossReported g

theorem Tended.init (C : Config) : (init C : Client V).Tended := by
  have hfirst : (Client.init C : Client V).connections 1 = .start .state := by simp [Client.init]
  have hserves : ∀ g, (Client.init C : Client V).Serves g → g = 1 := fun g hg =>
    hg.elim (fun h => (ConnectionState.connected.inj h).symm) fun h => MonitorPc.noConfusion h
  refine ⟨⟨fun g hg => ?_, fun g hg => MonitorPc.noConfusion hg, fun g hg => .inl ⟨[], ?_⟩⟩,
    fun g d => ?_, fun g hg => .inl ?_⟩
  · obtain rfl := hserves g (.inl hg)
    rw [hfirst]
    exact List.mem_singleton_self _
  · rw [hserves g hg, hfirst]
    rfl
  · by_cases hg : g = 1
    · rw [hg, hfirst]
      exact List.not_mem_nil
    · simp [Client.init, Function.update_of_ne hg, Connection.absent]
  · rw [hserves g hg, WriterRuns, hfirst]
    rfl

/-- **The step lemma of the connection in use.** -/
theorem Tended.step {l : Label V} (hi : s.Tended) (hk : s.control.Inv) (hs : s.Serving)
    (hallowed : CallbacksReturn C s l) (h : Client.step C s l = some t)
    (ht : t.shutdown = false) : t.Tended := by
  have hwatched := hi.watched.step hk hs hallowed h ht
  have hflag := shutdown_of_step h ht
  cases l with
  | call c l =>
      have hf := (callStep_frame h).1
      refine ⟨hwatched, hi.unclosed.call h, fun g hg => ?_⟩
      rw [Serves, state_of_control hf.control, monitor_of_control hf.control] at hg
      refine (hi.writes g hg).imp (fun hw => (hf.tasks g).2.trans hw) fun hr => ?_
      exact hr.mono hf.events (monitor_of_control hf.control)
  | connection g l =>
      have hf := connectionStep_frame h
      obtain ⟨hunclosed, hends⟩ := connectionStep_writer hs.monitor hi.unclosed h
      refine ⟨hwatched, hunclosed, fun g' hg' => ?_⟩
      rw [Serves, state_of_control hf.control, monitor_of_control hf.control] at hg'
      rcases hi.writes g' hg' with hw | hr
      · by_cases hg : g' = g
        · subst hg
          rcases hends hw with hw | hlost | hnobody
          · exact .inl hw
          · exact .inr (.inl hlost)
          · -- a connection in use is owned
            rcases hg' with hg' | hg'
            · exact absurd (hi.watched.state g' hg') (by simp [hnobody])
            · exact absurd (hi.watched.monitor g' hg') (by simp [hnobody])
        · refine .inl ?_
          rw [WriterRuns, hf.connections g' hg]
          exact hw
      · exact .inr (hr.mono hf.events (monitor_of_control hf.control))
  | monitor l =>
      have hmove := monitorStep_move h
      refine ⟨hwatched, fun g d => ?_, fun g hg => ?_⟩
      · rcases hmove.writer g with ⟨-, hnew⟩ | ⟨-, hcommands⟩
        · rw [hnew]
          exact List.not_mem_nil
        · rw [hcommands]
          exact hi.unclosed g d
      · have hnew : t.connections g = .start .monitor → t.WriterRuns g := by
          intro hnew
          rw [WriterRuns, hnew]
          rfl
        rcases hmove.serves hg with hg' | hfresh
        · rcases hi.writes g hg' with hw | hr
          · refine .inl ?_
            rcases hmove.writer g with ⟨-, hfresh⟩ | ⟨hwriter, -⟩
            · exact hnew hfresh
            · exact hwriter.trans hw
          · exact .inr ((hmove.reported hs hflag hr).resolve_right fun hn => hn hg)
        · exact .inl (hnew hfresh)
  | disconnect d l =>
      rcases hs.disconnect_cases (disconnectStep_move h) with rfl | hup
      · exact ⟨hwatched, hi.unclosed, hi.writes⟩
      · simp [hup] at ht
  | user l =>
      obtain rfl := Option.some.inj h
      cases l <;> exact ⟨hwatched, hi.unclosed, hi.writes⟩

/-- The policy asks for reconnects, and as many as it takes. -/
structure Persistent (C : Config) : Prop where
  enabled : C.policy.enabled = true
  unlimited : C.policy.maxAttempts = none

/-- The client is connected, or its monitor is at work on that. -/
structure Online (s : Client V) : Prop where
  cycle : (∃ g, s.state = .connected g) ∨ s.monitor.inCycle = true
  attempts : s.monitor ≠ .exhausted

/-- Only the check at the top of the loop gives up. -/
theorem monitorStep_exhausted {l : MonitorLabel} (hC : Persistent C)
    (h : s.monitorStep C l = some t) : t.monitor ≠ .exhausted := by
  cases monitorStep_move h with
  | exhaust _ hmax => simp [hC.unlimited] at hmax
  | _ => exact MonitorPc.noConfusion

theorem Online.monitor {l : MonitorLabel} (hi : s.Online) (hC : Persistent C)
    (hflag : s.shutdown = false) (h : s.monitorStep C l = some t) : t.Online := by
  refine ⟨?_, monitorStep_exhausted hC h⟩
  -- the state stays, and the monitor does not leave the cycle
  have stay : t.state = s.state → (s.monitor.inCycle = true → t.monitor.inCycle = true) →
      (∃ g, t.state = .connected g) ∨ t.monitor.inCycle = true := by
    intro hstate hcycle
    rw [hstate]
    exact hi.cycle.imp id hcycle
  cases monitorStep_move h with
  | disabled hm hdisabled => simp [hC.enabled] at hdisabled
  | interrupt hm hup => simp [hflag] at hup
  | storeExhausted hm => exact absurd hm hi.attempts
  | @install g hm => exact .inl ⟨g, rfl⟩
  | recv hm | recvShutdown hm | leave hm | load hm | markStale hm | notifyReconnected hm
  | handlerReconnected hm => exact stay rfl fun hc => by simp [hm, MonitorPc.inCycle] at hc
  | finish hm =>
      refine stay rfl fun hc => ?_
      rcases hm with hm | hm <;> simp [hm, MonitorPc.inCycle] at hc
  | _ => exact .inr rfl

theorem Online.step {l : Label V} (hi : s.Online) (hC : Persistent C) (hs : s.Serving)
    (h : Client.step C s l = some t) (ht : t.shutdown = false) : t.Online := by
  have same : t.control = s.control → t.Online := by
    intro hcontrol
    refine ⟨?_, ?_⟩
    · rw [state_of_control hcontrol, monitor_of_control hcontrol]
      exact hi.cycle
    · rw [monitor_of_control hcontrol]
      exact hi.attempts
  cases l with
  | call c l => exact same (callStep_frame h).1.control
  | connection g l => exact same (connectionStep_frame h).control
  | monitor l => exact hi.monitor hC (shutdown_of_step h ht) h
  | disconnect d l =>
      rcases hs.disconnect_cases (disconnectStep_move h) with rfl | hup
      · exact ⟨hi.cycle, hi.attempts⟩
      · simp [hup] at ht
  | user l =>
      obtain rfl := Option.some.inj h
      exact same (userStep_frame C s l).1

/-- A step of the monitor; its handlers await no call. -/
def Unaided (_ : Client V) : Label V → Prop
  | .monitor (.handlerAwaits _) => False
  | .monitor _ => True
  | _ => False

/-- The variant: the reports in the queue, and the one in hand. -/
def workload (s : Client V) : Nat :=
  14 * s.events.length + s.monitor.distance

/-- **The monitor is never stuck** in the middle of its work: where no handler awaits a
call, it has a step that takes it closer to its queue. -/
theorem monitor_progress (C : Config) (hfree : s.monitor.Free) (hidle : s.monitor ≠ .idle)
    (hstopped : s.monitor ≠ .stopped) :
    ∃ l t, Unaided s (.monitor l) ∧ s.monitorStep C l = some t ∧ t.monitor.Free ∧
      t.workload < s.workload := by
  cases hm : s.monitor with
  | idle => exact absurd hm hidle
  | received g reason =>
      refine ⟨.loadShutdown, { s with
        monitor := if s.shutdown then .stopped else .marking g reason }, trivial, ?_, ?_, ?_⟩
      · simp [monitorStep, hm]
      · cases s.shutdown <;> trivial
      · cases hflag : s.shutdown <;> simp [workload, hm, MonitorPc.distance]
  | marking g reason =>
      refine ⟨.mark, s.markConnectionLost C g reason, trivial, ?_, ?_, ?_⟩
      · simp [monitorStep, hm]
      · rw [markConnectionLost]
        split <;> trivial
      · rw [markConnectionLost]
        split <;> simp [workload, hm, MonitorPc.distance, observe, setState]
  | cancelling g reason =>
      refine ⟨.cancel, s.cancelLost g reason, trivial, ?_, trivial, ?_⟩
      · simp [monitorStep, hm]
      · simp [workload, hm, MonitorPc.distance, cancelLost, observe]
  | cancelled =>
      refine ⟨.startReconnecting, s.startReconnecting C, trivial, ?_, ?_, ?_⟩
      · simp [monitorStep, hm]
      · rw [startReconnecting]
        split
        · split <;> trivial
        · trivial
      · rw [startReconnecting]
        split
        · split <;> simp [workload, hm, MonitorPc.distance, startCycle, observe]
        · simp [workload, hm, MonitorPc.distance]
  | reconnecting on =>
      cases on with
      | some c => simp [hm, MonitorPc.Free] at hfree
      | none =>
          refine ⟨.handlerReturns, s.startCycle, trivial, ?_, trivial, ?_⟩
          · simp [monitorStep, hm]
          · simp [workload, hm, MonitorPc.distance, startCycle, observe]
  | loopTop attempt =>
      refine ⟨.checkTop, s.checkTop C attempt, trivial, ?_, ?_, ?_⟩
      · simp [monitorStep, hm]
      · rw [checkTop]
        split
        · trivial
        · split
          · split <;> trivial
          · trivial
      · rw [checkTop]
        split
        · simp [workload, hm, MonitorPc.distance]
        · split
          · split <;> simp [workload, hm, MonitorPc.distance]
          · simp [workload, hm, MonitorPc.distance]
  | exhausted =>
      refine ⟨.storeExhausted, { s.setState .notConnected with monitor := .idle }, trivial, ?_,
        trivial, ?_⟩
      · simp [monitorStep, hm]
      · simp [workload, hm, MonitorPc.distance, setState]
  | sleeping attempt =>
      refine ⟨.wake, { s with
        monitor := if s.shutdown then .idle else .negotiating attempt }, trivial, ?_, ?_, ?_⟩
      · simp [monitorStep, hm]
      · cases s.shutdown <;> trivial
      · cases hflag : s.shutdown <;> simp [workload, hm, MonitorPc.distance]
  | negotiating attempt =>
      refine ⟨.negotiated true, { s with
        monitor := .connecting attempt s.nextGeneration
        nextGeneration := s.nextGeneration + 1 }, trivial, ?_, trivial, ?_⟩
      · simp [monitorStep, hm]
      · simp [workload, hm, MonitorPc.distance]
  | connecting attempt h =>
      refine ⟨.socket true, { s.setConnection h (.start .monitor) with monitor := .installing h },
        trivial, ?_, trivial, ?_⟩
      · simp [monitorStep, hm]
      · simp [workload, hm, MonitorPc.distance, setConnection]
  | installing h =>
      refine ⟨.install, s.install h, trivial, ?_, trivial, ?_⟩
      · simp [monitorStep, hm]
      · simp [workload, hm, MonitorPc.distance, Client.install, observe, acquire, release,
          setConnection, setState]
  | installed h =>
      refine ⟨.startReconnected, if s.reconnectedHandler then
          { s with monitor := .reconnected h none }.observe (.reconnected h)
        else { s with monitor := .idle }, trivial, ?_, ?_, ?_⟩
      · simp [monitorStep, hm]
      · split <;> trivial
      · split <;> simp [workload, hm, MonitorPc.distance, observe]
  | reconnected h on =>
      cases on with
      | some c => simp [hm, MonitorPc.Free] at hfree
      | none =>
          refine ⟨.handlerReturns, { s with monitor := .idle }, trivial, ?_, trivial, ?_⟩
          · simp [monitorStep, hm]
          · simp [workload, hm, MonitorPc.distance]
  | stopped => exact absurd hm hstopped

/-- An idle monitor takes what is in its queue. -/
theorem queue_progress (C : Config) (hm : s.monitor = .idle) (he : s.events ≠ []) :
    ∃ t, s.monitorStep C .recv = some t ∧ t.monitor.Free ∧ t.workload < s.workload := by
  cases hevents : s.events with
  | nil => exact absurd hevents he
  | cons e events =>
      cases e with
      | connectionLost g reason =>
          refine ⟨{ s with events, monitor := .received g reason }, ?_, trivial, ?_⟩
          · simp [monitorStep, hm, hevents]
          · simp [workload, hm, hevents, MonitorPc.distance]
            omega
      | shutdown =>
          refine ⟨{ s with events, monitor := .stopped }, ?_, trivial, ?_⟩
          · simp [monitorStep, hm, hevents]
          · simp [workload, hm, hevents, MonitorPc.distance]

/-- **The monitor works off its queue**, whatever is in it, unless it is told to stop. -/
theorem monitor_rests {I : Client V → Prop} (hI : ∀ {u v l}, I u → Unaided u (.monitor l) →
      u.monitorStep C l = some v → I v) (hs : I s) (hfree : s.monitor.Free) :
    ∃ t, Reaches (step C) Unaided s t ∧ I t ∧
      (t.monitor = .idle ∧ t.events = [] ∨ t.monitor = .stopped) := by
  have hwork : ∀ u, I u ∧ u.monitor.Free →
      ¬ (u.monitor = .idle ∧ u.events = [] ∨ u.monitor = .stopped) →
      ∃ v, Reaches (step C) Unaided u v ∧ (I v ∧ v.monitor.Free) ∧ v.workload < u.workload := by
    rintro u ⟨hu, hfree⟩ hwork
    by_cases hm : u.monitor = .idle
    · obtain ⟨v, hstep, hfree', hlt⟩ := queue_progress C hm fun he => hwork (.inl ⟨hm, he⟩)
      have hu' := hI (l := .recv) hu trivial hstep
      exact ⟨v, .head (.monitor .recv) trivial hstep (.refl v), ⟨hu', hfree'⟩, hlt⟩
    · obtain ⟨l, v, hl, hstep, hfree', hlt⟩ :=
        monitor_progress C hfree hm fun hstop => hwork (.inr hstop)
      exact ⟨v, .head (.monitor l) hl hstep (.refl v), ⟨hI hu hl hstep, hfree'⟩, hlt⟩
  obtain ⟨t, hst, ⟨ht, -⟩, hdone⟩ := Reaches.variant workload hwork ⟨hs, hfree⟩
  exact ⟨t, hst, ht, hdone⟩

end Client

end SignalR
