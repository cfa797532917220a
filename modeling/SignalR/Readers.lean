/-
SignalR/Readers.lean

How the reader task of a connection ends.

The loop of the reader is left by a close frame or a read error, and both report
the loss.  Besides, the task is aborted once nobody owns the connection, which does
not happen to a connected one; and it ends on the spot, without a report, when a
callback panics.  So the connected generation has a live reader, or its loss was
reported (`reader_death_reported`), as long as no callback panics in it
(`panicking_callback_kills_reader`).
-/
import SignalR.Losses

namespace SignalR

open Transition

variable {V : Type}

/-! ### Panics -/

namespace Storage

variable {S : Serde} {s : Storage V} {m : RawMessage}

/-- Only a callback panics, on the invocation it is called with. -/
theorem updateWith_panic {a : Action V} {h : Heap V} (hp : (a.updateWith S m h).2.2 = .panic) :
    ∃ b invocation, a = .callback b ∧ m.messageType = .invocation ∧
      deserialize S Invocation.decode m.bytes m.protocol = .ok invocation ∧
      b.callback.panics invocation = true := by
  cases a with
  | invocation a =>
      simp only [Action.updateWith, InvocationAction.updateWith] at hp
      split at hp
      · split at hp <;> simp at hp
      · simp at hp
  | enumerable a =>
      simp only [Action.updateWith, EnumerableAction.updateWith] at hp
      split at hp
      · split at hp <;> simp at hp
      · split at hp <;> simp at hp
      · simp at hp
  | callback b =>
      simp only [Action.updateWith, CallbackAction.updateWith] at hp
      split at hp
      · rename_i htype
        split at hp
        · rename_i invocation hdecode
          refine ⟨b, invocation, rfl, htype, hdecode, ?_⟩
          by_contra hcalm
          simp [hcalm] at hp
        · simp at hp
      · simp at hp

theorem update_panic {key : String} (hp : (s.update key (Action.updateWith S m)).2 = .panic) :
    s.poisoned = false ∧ ∃ b invocation, s.get key = some (.callback b) ∧
      m.messageType = .invocation ∧
      deserialize S Invocation.decode m.bytes m.protocol = .ok invocation ∧
      b.callback.panics invocation = true := by
  obtain ⟨a, hpoisoned, hget, hu⟩ | ⟨-, e, hu⟩ := s.update_cases key (Action.updateWith S m)
  · rw [hu] at hp
    obtain ⟨b, invocation, rfl, htype, hdecode, hpanics⟩ := updateWith_panic hp
    exact ⟨hpoisoned, b, invocation, hget, htype, hdecode, hpanics⟩
  · simp [hu] at hp

/-- **A message makes its callback panic, or nothing.** -/
theorem processMessage_panic (hp : (s.processMessage S m).2 = .panic) :
    s.poisoned = false ∧ ∃ b invocation, m.messageType = .invocation ∧
      deserialize S Invocation.decode m.bytes m.protocol = .ok invocation ∧
      s.get invocation.target = some (.callback b) ∧
      b.callback.panics invocation = true := by
  obtain ⟨o, ho, h⟩ | ⟨key, hkey, h⟩ | ⟨invocation, h, htype, hdecode⟩ | ⟨key, -, -, h⟩ :=
    s.processMessage_cases S m
  · rw [h] at hp
    exact absurd hp ho
  · rw [h] at hp
    obtain ⟨hpoisoned, b, invocation, hget, htype, hdecode, hpanics⟩ := update_panic hp
    obtain rfl := hkey invocation htype hdecode
    exact ⟨hpoisoned, b, invocation, htype, hdecode, hget, hpanics⟩
  · rw [h] at hp
    obtain ⟨-, -, hd⟩ | ⟨-, -, hd⟩ | ⟨-, hd⟩ := s.deferMessage_cases S invocation.target m
    · obtain ⟨hpoisoned, b, invocation', hget, -, hdecode', hpanics⟩ := update_panic (hd.mp hp)
      obtain rfl : invocation = invocation' := Except.ok.inj (hdecode.symm.trans hdecode')
      exact ⟨hpoisoned, b, invocation, htype, hdecode, hget, hpanics⟩
    · simp [hd] at hp
    · simp [hd] at hp
  · simp [h] at hp

/-! ### Poisoning -/

/-- Without a panic the mutex stays as it was. -/
theorem update_calm (key : String) (f : Action V → Heap V → Action V × Heap V × Outcome)
    (hp : (s.update key f).2 ≠ .panic) : (s.update key f).1.poisoned = s.poisoned := by
  obtain ⟨a, hpoisoned, -, hu⟩ | ⟨-, e, hu⟩ := s.update_cases key f
  · rw [hu] at hp ⊢
    simpa [hpoisoned] using hp
  · rw [hu]

theorem deferMessage_calm {key : String} (hp : (s.deferMessage S key m).2 ≠ .panic) :
    (s.deferMessage S key m).1.poisoned = s.poisoned := by
  obtain ⟨-, hd, hpanic⟩ | ⟨-, -, hd⟩ | ⟨-, hd⟩ := s.deferMessage_cases S key m
  · rw [hd]
    exact update_calm key (Action.updateWith S m) (mt hpanic.mpr hp)
  · rw [hd]
  · rw [hd]

theorem processMessage_calm (hp : (s.processMessage S m).2 ≠ .panic) :
    (s.processMessage S m).1.poisoned = s.poisoned := by
  obtain ⟨o, -, h⟩ | ⟨key, -, h⟩ | ⟨invocation, h, -⟩ | ⟨key, -, hok, h⟩ :=
    s.processMessage_cases S m
  · rw [h]
  · rw [h] at hp ⊢
    exact update_calm key _ hp
  · rw [h] at hp ⊢
    exact deferMessage_calm hp
  · rw [h]
    exact (poisoned_remove _ key).trans (update_calm key _ (by simp [hok]))

theorem replay_calm {key : String} (l : List RawMessage) (s : Storage V)
    (hp : (replay S key l s).2 ≠ .panic) : (replay S key l s).1.poisoned = s.poisoned := by
  induction l generalizing s with
  | nil => rfl
  | cons m l ih =>
      have hcalm := update_calm (s := s) key (Action.updateWith S m)
      rw [replay] at hp ⊢
      rcases hu : s.update key (Action.updateWith S m) with ⟨t, - | e | -⟩
      · rw [hu] at hp hcalm
        exact (ih t hp).trans (hcalm (by simp))
      · rw [hu] at hp hcalm
        exact (ih t hp).trans (hcalm (by simp))
      · simp [hu] at hp

theorem addCallback_calm {target : String} {callback : Callback}
    (hp : (s.addCallback S target callback).2 ≠ .panic) :
    (s.addCallback S target callback).1.poisoned = s.poisoned := by
  refine Eq.trans ?_ (s.poisoned_insert target (.callback { target, callback }))
  unfold addCallback replayDeferred at hp ⊢
  split
  · rename_i messages hmessages
    simp only [hmessages] at hp
    exact replay_calm messages _ hp
  · rfl

end Storage

namespace Client

/-! ### Before a shutdown -/

/-- No disconnect has raised the flag yet, so the monitor goes on. -/
structure Serving (s : Client V) : Prop where
  monitor : s.monitor ≠ .stopped
  events : .shutdown ∉ s.events
  disconnects : ∀ d, s.disconnects d = .idle ∨ s.disconnects d = .cancelled

section

variable {C : Config} {s t : Client V}

/-- The flag is never lowered. -/
theorem shutdown_of_step {l : Label V} (h : step C s l = some t) (ht : t.shutdown = false) :
    s.shutdown = false := by
  cases l with
  | call c l => rwa [shutdown_of_control (callStep_frame h).1.control] at ht
  | connection g l => rwa [shutdown_of_control (connectionStep_frame h).control] at ht
  | monitor l => rwa [(monitorStep_move h).frame.shutdown] at ht
  | disconnect d l =>
      cases disconnectStep_move h with
      | raiseFlag => exact absurd ht (by simp [setDisconnect])
      | _ => exact ht
  | user l =>
      obtain rfl := Option.some.inj h
      cases l <;> exact ht

/-- A step of another party that reports a loss at most. -/
theorem Serving.of_emits (hi : s.Serving) (hmonitor : t.monitor = s.monitor)
    (hevents : Emits s t)
    (hdisconnects : ∀ d, t.disconnects d = s.disconnects d ∨
      ∃ g r, s.disconnects d = .awaiting g ∧ t.disconnects d = .answered g r) : t.Serving := by
  refine ⟨hmonitor ▸ hi.monitor, ?_, fun d => ?_⟩
  · rcases hevents with he | ⟨g, reason, he⟩
    · rw [he]
      exact hi.events
    · rw [he]
      simpa using hi.events
  · rcases hdisconnects d with hd | ⟨g, r, hd, -⟩
    · rw [hd]
      exact hi.disconnects d
    · rcases hi.disconnects d with hd' | hd'
      · simp [hd] at hd'
      · simp [hd] at hd'

theorem Serving.monitor_move (hi : s.Serving) (hs : s.shutdown = false) (h : MonitorMove C s t) :
    t.Serving := by
  have goto : t.monitor ≠ .stopped → (∀ e ∈ t.events, e ∈ s.events) → t.Serving := by
    intro hmonitor hevents
    refine ⟨hmonitor, fun hmem => hi.events (hevents _ hmem), ?_⟩
    rw [h.frame.disconnects]
    exact hi.disconnects
  cases h with
  | recv hm he =>
      refine goto (by simp) fun e hmem => ?_
      rw [he]
      exact List.mem_cons_of_mem _ hmem
  | recvShutdown hm he =>
      refine absurd ?_ hi.events
      rw [he]
      exact List.mem_cons_self
  | leave hm hflag => simp [hs] at hflag
  | _ => exact goto (fun hm => MonitorPc.noConfusion hm) fun _ hmem => hmem

/-- A disconnect has only two steps to take before its flag is up. -/
theorem Serving.disconnect_cases {d : Nat} (hi : s.Serving) (h : DisconnectMove s d t) :
    t = { s with store := s.store.cancelPending "Client disconnected" }.setDisconnect d .cancelled ∨
      t.shutdown = true := by
  have hnot : ∀ {pc : DisconnectPc}, s.disconnects d = pc → pc ≠ .idle → pc ≠ .cancelled →
      False := by
    rintro _ rfl hidle hcancelled
    exact (hi.disconnects d).elim hidle hcancelled
  cases h with
  | cancel => exact .inl rfl
  | raiseFlag => exact .inr rfl
  | lookup h | lookupNone h | requestClose h | store h | sendShutdown h =>
      exact (hnot h (by simp) (by simp)).elim
  | finishClose result h =>
      rcases h with h | h | h <;> exact (hnot h (by simp) (by simp)).elim

theorem Serving.disconnect_move {d : Nat} (hi : s.Serving) (ht : t.shutdown = false)
    (h : DisconnectMove s d t) : t.Serving := by
  have hf := h.frame
  rcases hi.disconnect_cases h with rfl | hup
  · refine ⟨hi.monitor, hi.events, fun d' => ?_⟩
    by_cases hd : d' = d
    · subst hd
      exact .inr (Function.update_self ..)
    · rw [hf.disconnects d' hd]
      exact hi.disconnects d'
  · simp [hup] at ht

theorem Serving.step {l : Label V} (hi : s.shutdown = false → s.Serving)
    (h : Client.step C s l = some t) (ht : t.shutdown = false) : t.Serving := by
  have hs := shutdown_of_step h ht
  cases l with
  | call c l =>
      have hf := (callStep_frame h).1
      exact (hi hs).of_emits (monitor_of_control hf.control) hf.events
        fun d => .inl (by rw [hf.disconnects])
  | connection g l =>
      have hf := connectionStep_frame h
      exact (hi hs).of_emits (monitor_of_control hf.control) hf.events hf.disconnects
  | monitor l => exact (hi hs).monitor_move hs (monitorStep_move h)
  | disconnect d l => exact (hi hs).disconnect_move ht (disconnectStep_move h)
  | user l =>
      obtain rfl := Option.some.inj h
      obtain ⟨hcontrol, -, -, hevents, hdisconnects⟩ := userStep_frame C s l
      exact (hi hs).of_emits (monitor_of_control hcontrol) (.inl hevents)
        fun d => .inl (by rw [hdisconnects])

/-- **Before a shutdown the monitor goes on**, in every run. -/
theorem Reachable.serving {allowed : Client V → Label V → Prop} (h : Reachable C allowed s)
    (hs : s.shutdown = false) : s.Serving :=
  Reaches.invariant (I := fun s => s.shutdown = false → s.Serving) h
    (fun _ => ⟨by simp [init], by simp [init], fun _ => .inl rfl⟩)
    (fun _ _ _ hi _ hst ht => Serving.step hi hst ht) hs

end

/-! ### Readers -/

/-- The reader task of connection `g` runs. -/
def ReaderRuns (s : Client V) (g : Nat) : Prop :=
  ∃ todo, (s.connections g).reader = .running todo

/-- The loss of `g` is in the queue, or the monitor has it in hand. -/
def LossReported (s : Client V) (g : Nat) : Prop :=
  (∃ reason, .connectionLost g reason ∈ s.events) ∨
    ∃ reason, s.monitor = .received g reason ∨ s.monitor = .marking g reason

/-- The client is connected to `g`, or will be as the monitor's next step. -/
def Serves (s : Client V) (g : Nat) : Prop :=
  s.state = .connected g ∨ s.monitor = .installing g

/-- The connection in use is owned, and its reader runs or its loss was reported. -/
structure Watched (s : Client V) : Prop where
  state : ∀ g, s.state = .connected g → .state ∈ (s.connections g).holders
  monitor : ∀ g, s.monitor = .installing g → .monitor ∈ (s.connections g).holders
  reported : ∀ g, s.Serves g → s.ReaderRuns g ∨ s.LossReported g

/-- The reader leaves its loop. -/
def ConnectionLabel.LeavesLoop : ConnectionLabel → Prop
  | .readFrame frame => frame.opcode = .close
  | .readError _ => True
  | _ => False

/-- The callback of a message dispatched by the connection in use does not panic. -/
def CallbacksReturn (C : Config) (s : Client V) : Label V → Prop
  | .connection g .dispatch =>
      s.Serves g → s.store.poisoned = false → ∀ m rest b invocation,
        (s.connections g).reader = .running (m :: rest) → m.messageType = .invocation →
        deserialize C.serde Invocation.decode m.bytes m.protocol = .ok invocation →
        s.store.get invocation.target = some (.callback b) →
        b.callback.panics invocation = false
  | _ => True

section

variable {C : Config} {s t : Client V}

/-- **How a reader ends**: it leaves its loop and reports the loss, or a message makes
it panic, or it is aborted when nobody owns its connection. -/
theorem connectionStep_reader {g : Nat} {l : ConnectionLabel} (hm : s.monitor ≠ .stopped)
    (hruns : s.ReaderRuns g) (h : s.connectionStep C g l = some t) :
    t.ReaderRuns g ∨ (l.LeavesLoop ∧ ∃ reason, .connectionLost g reason ∈ t.events) ∨
      (l = .dispatch ∧ ∃ m rest, (s.connections g).reader = .running (m :: rest) ∧
        (s.store.processMessage C.serde m).2 = .panic) ∨
      (l = .abortReader ∧ (s.connections g).holders = []) := by
  have same : (t.connections g).reader = (s.connections g).reader → t.ReaderRuns g := by
    intro hreader
    obtain ⟨todo, htodo⟩ := hruns
    exact ⟨todo, hreader.trans htodo⟩
  cases connectionStep_transition h with
  | readClose _ hclose =>
      refine .inr (.inl ⟨hclose, "Received close frame", ?_⟩)
      simp [endReader, emit, setConnection, hm]
  | @readError error =>
      refine .inr (.inl ⟨trivial, "Error reading frame: " ++ error, ?_⟩)
      simp [endReader, emit, setConnection, hm]
  | readFrame | dispatch => exact .inl ⟨_, congrArg Connection.reader (setConnection_self _ g _)⟩
  | dispatchPanics hreader hpanic => exact .inr (.inr (.inl ⟨rfl, _, _, hreader, hpanic⟩))
  | abortReader _ hnobody => exact .inr (.inr (.inr ⟨rfl, hnobody⟩))
  | _ =>
      refine .inl (same ?_)
      simp [endWriter, answerClose, emit, setConnection]

theorem mem_events_of_emits {e : ConnectionEvent} (h : Emits s t) (he : e ∈ s.events) :
    e ∈ t.events := by
  rcases h with h | ⟨g, reason, h⟩
  · rw [h]
    exact he
  · rw [h]
    exact List.mem_append_left _ he

/-- A report stays while the monitor does nothing. -/
theorem LossReported.mono {g : Nat} (h : s.LossReported g) (hevents : Emits s t)
    (hmonitor : t.monitor = s.monitor) : t.LossReported g := by
  rcases h with ⟨reason, hmem⟩ | ⟨reason, hm⟩
  · exact .inl ⟨reason, mem_events_of_emits hevents hmem⟩
  · rw [← hmonitor] at hm
    exact .inr ⟨reason, hm⟩

theorem Watched.call {c : Nat} (hi : s.Watched) (hf : CallFrame s c t) : t.Watched := by
  have hstate := state_of_control hf.control
  have hmonitor := monitor_of_control hf.control
  refine ⟨fun g hg => ?_, fun g hg => ?_, fun g hg => ?_⟩
  · rw [hf.holders g .state (by simp)]
    exact hi.state g (hstate ▸ hg)
  · rw [hf.holders g .monitor (by simp)]
    exact hi.monitor g (hmonitor ▸ hg)
  · rw [Serves] at hg
    rw [hstate, hmonitor] at hg
    refine (hi.reported g hg).imp ?_ fun hr => hr.mono hf.events hmonitor
    rintro ⟨todo, htodo⟩
    exact ⟨todo, (hf.tasks g).1.trans htodo⟩

theorem Watched.connection {g : Nat} {l : ConnectionLabel} (hi : s.Watched) (hs : s.Serving)
    (hallowed : CallbacksReturn C s (.connection g l)) (h : s.connectionStep C g l = some t) :
    t.Watched := by
  have hf := connectionStep_frame h
  have hstate := state_of_control hf.control
  have hmonitor := monitor_of_control hf.control
  have hholders : ∀ g', (t.connections g').holders = (s.connections g').holders := by
    intro g'
    by_cases hg : g' = g
    · rw [hg, hf.holders]
    · rw [hf.connections g' hg]
  refine ⟨fun g' hg => ?_, fun g' hg => ?_, fun g' hg => ?_⟩
  · rw [hholders]
    exact hi.state g' (hstate ▸ hg)
  · rw [hholders]
    exact hi.monitor g' (hmonitor ▸ hg)
  · rw [Serves] at hg
    rw [hstate, hmonitor] at hg
    rcases hi.reported g' hg with hruns | hreported
    · by_cases hg' : g' = g
      · subst hg'
        rcases connectionStep_reader hs.monitor hruns h with
          ht | ⟨-, hlost⟩ | ⟨rfl, m, rest, hreader, hpanic⟩ | ⟨-, hnobody⟩
        · exact .inl ht
        · exact .inr (.inl hlost)
        · -- a panic is what the condition excludes
          obtain ⟨hpoisoned, b, invocation, htype, hdecode, hget, hpanics⟩ :=
            Storage.processMessage_panic hpanic
          have hcalm := hallowed hg hpoisoned m rest b invocation hreader htype hdecode hget
          simp [hcalm] at hpanics
        · -- a connection in use is owned
          rcases hg with hg | hg
          · exact absurd (hi.state g' hg) (by simp [hnobody])
          · exact absurd (hi.monitor g' hg) (by simp [hnobody])
      · refine .inl ?_
        obtain ⟨todo, htodo⟩ := hruns
        exact ⟨todo, by rw [hf.connections g' hg', htodo]⟩
    · exact .inr (hreported.mono hf.events hmonitor)

/-- Nothing to watch while nothing is connected. -/
theorem Watched.of_unconnected (hstate : ∀ g, s.state ≠ .connected g)
    (hmonitor : ∀ g, s.monitor ≠ .installing g) : s.Watched where
  state := fun g hg => absurd hg (hstate g)
  monitor := fun g hg => absurd hg (hmonitor g)
  reported := fun g hg => hg.elim (fun h => absurd h (hstate g)) fun h => absurd h (hmonitor g)

/-- The monitor moves on and keeps what was reported for the connected generation. -/
theorem Watched.goto (hi : s.Watched) (hstate : t.state = s.state)
    (hconnections : t.connections = s.connections) (hmonitor : ∀ g, t.monitor ≠ .installing g)
    (hreported : ∀ g, s.state = .connected g → s.LossReported g → t.LossReported g) :
    t.Watched := by
  refine ⟨fun g hg => ?_, fun g hg => absurd hg (hmonitor g), fun g hg => ?_⟩
  · rw [hconnections]
    exact hi.state g (hstate ▸ hg)
  · have hg' : s.state = .connected g :=
      hg.elim (fun h => hstate ▸ h) fun h => absurd h (hmonitor g)
    refine (hi.reported g (.inl hg')).imp ?_ (hreported g hg')
    rintro ⟨todo, htodo⟩
    exact ⟨todo, by rw [hconnections, htodo]⟩

/-- A report that the monitor has not in hand is in the queue. -/
theorem LossReported.mem {g : Nat} (h : s.LossReported g)
    (hreceived : ∀ reason, s.monitor ≠ .received g reason)
    (hmarking : ∀ reason, s.monitor ≠ .marking g reason) :
    ∃ reason, .connectionLost g reason ∈ s.events := by
  rcases h with h | ⟨reason, hm | hm⟩
  · exact h
  · exact absurd hm (hreceived reason)
  · exact absurd hm (hmarking reason)

theorem Watched.monitor_move (hi : s.Watched) (hk : s.control.Inv) (hs : s.Serving)
    (hflag : s.shutdown = false) (h : MonitorMove C s t) : t.Watched := by
  -- inside a reconnect cycle nothing is connected
  have cycle : ∀ {u : Client V} {pc : MonitorPc}, s.monitor = pc → pc.inCycle = true →
      u.state = s.state → (∀ g, u.monitor ≠ .installing g) → u.Watched := by
    rintro u _ rfl hcycle hstate hmonitor
    exact .of_unconnected (fun g hg => hk.cycle hcycle g (hstate.symm.trans hg)) hmonitor
  -- outside, the queue is as it was
  have stay : ∀ {u : Client V} {pc : MonitorPc}, s.monitor = pc →
      (∀ g reason, pc ≠ .received g reason ∧ pc ≠ .marking g reason) → u.state = s.state →
      u.connections = s.connections → u.events = s.events →
      (∀ g, u.monitor ≠ .installing g) → u.Watched := by
    rintro u _ rfl hpc hstate hconnections hevents hmonitor
    refine hi.goto hstate hconnections hmonitor fun g _ hr => .inl ?_
    rw [hevents]
    exact hr.mem (fun reason => (hpc g reason).1) fun reason => (hpc g reason).2
  cases h with
  | @recv g reason events hm he =>
      refine hi.goto rfl rfl (by simp) fun g' _ hr => ?_
      obtain ⟨reason', hmem⟩ := hr.mem (by simp [hm]) (by simp [hm])
      rw [he] at hmem
      -- the report that was taken is in hand, any other is still in the queue
      rcases List.mem_cons.mp hmem with heq | hmem
      · obtain ⟨rfl, rfl⟩ := ConnectionEvent.connectionLost.inj heq
        exact .inr ⟨reason', .inl rfl⟩
      · exact .inl ⟨reason', hmem⟩
  | recvShutdown hm he =>
      refine absurd ?_ hs.events
      rw [he]
      exact List.mem_cons_self
  | leave hm hup => simp [hflag] at hup
  | @load g reason hm =>
      refine hi.goto rfl rfl (by simp) fun g' _ hr => ?_
      rcases hr with hmem | ⟨reason', hm' | hm'⟩
      · exact .inl hmem
      · obtain ⟨rfl, rfl⟩ := MonitorPc.received.inj (hm.symm.trans hm')
        exact .inr ⟨reason, .inr rfl⟩
      · simp [hm] at hm'
  | markCurrent =>
      refine .of_unconnected (fun g => ?_) fun g h => MonitorPc.noConfusion h
      show (if C.policy.enabled then ConnectionState.reconnecting else .notConnected) ≠ _
      split <;> simp
  | @markStale g reason hm hstale =>
      refine hi.goto rfl rfl (by simp) fun g' hg' hr => .inl ?_
      -- the event in hand is for another generation
      refine hr.mem (by simp [hm]) fun reason' hm' => ?_
      obtain ⟨rfl, rfl⟩ := MonitorPc.marking.inj (hm.symm.trans hm')
      exact hstale hg'
  | cancel hm | notify hm => exact cycle hm rfl rfl fun _ h => MonitorPc.noConfusion h
  | disabled hm | handler hm | exhaust hm | sleep hm | wake hm | negotiated hm =>
      exact cycle hm rfl rfl (by simp)
  | startCycle hm =>
      rcases hm with ⟨hm, -⟩ | hm <;>
        exact cycle hm rfl rfl fun _ h => MonitorPc.noConfusion h
  | interrupt hm => rcases hm with hm | hm <;> exact cycle hm rfl rfl (by simp)
  | retry hm => rcases hm with hm | ⟨h, hm⟩ <;> exact cycle hm rfl rfl (by simp)
  | storeExhausted =>
      exact .of_unconnected (fun g h => ConnectionState.noConfusion h) (by simp)
  | @connect attempt h hm =>
      -- the new connection starts with a running reader
      have hcycle : s.control.monitor.inCycle = true := by
        rw [show s.control.monitor = _ from hm]
        rfl
      have hno : ∀ g, s.state ≠ .connected g := hk.cycle hcycle
      have hnew : (Function.update s.connections h (.start .monitor)) h = .start .monitor :=
        Function.update_self ..
      refine ⟨fun g hg => absurd hg (hno g), fun g hg => ?_, fun g hg => .inl ⟨[], ?_⟩⟩
      · obtain rfl := MonitorPc.installing.inj hg
        show .monitor ∈ (Function.update s.connections h (.start .monitor) h).holders
        rw [hnew]
        exact List.mem_singleton_self _
      · rcases hg with hg | hg
        · exact absurd hg (hno g)
        obtain rfl := MonitorPc.installing.inj hg
        show (Function.update s.connections h (.start .monitor) h).reader = _
        rw [hnew]
        rfl
  | @install h hm =>
      -- the state takes over the monitor's clone, and the tasks go on
      have hreader : ((s.install h).connections h).reader = (s.connections h).reader := by
        simp [Client.install, observe, acquire, release, setConnection, setState,
          (dropState_tasks s.connections s.state h).1]
      refine ⟨fun g hg => ?_, fun g hg => MonitorPc.noConfusion hg, fun g hg => ?_⟩
      · obtain rfl := ConnectionState.connected.inj hg
        simp [Client.install, observe, acquire, release, setConnection]
      · obtain rfl : h = g := hg.elim ConnectionState.connected.inj fun h => MonitorPc.noConfusion h
        refine (hi.reported h (.inr hm)).imp ?_ fun hr => ?_
        · rintro ⟨todo, htodo⟩
          exact ⟨todo, hreader.trans htodo⟩
        · exact .inl (hr.mem (by simp [hm]) (by simp [hm]))
  | notifyReconnected hm =>
      exact stay hm (by simp) rfl rfl rfl fun _ h => MonitorPc.noConfusion h
  | handlerReconnected hm => exact stay hm (by simp) rfl rfl rfl (by simp)
  | finish hm =>
      rcases hm with hm | hm <;> exact stay hm (by simp) rfl rfl rfl (by simp)

theorem Watched.step {l : Label V} (hi : s.Watched) (hk : s.control.Inv) (hs : s.Serving)
    (hallowed : CallbacksReturn C s l) (h : Client.step C s l = some t)
    (ht : t.shutdown = false) : t.Watched := by
  cases l with
  | call c l => exact hi.call (callStep_frame h).1
  | connection g l => exact hi.connection hs hallowed h
  | monitor l => exact hi.monitor_move hk hs (shutdown_of_step h ht) (monitorStep_move h)
  | disconnect d l =>
      rcases hs.disconnect_cases (disconnectStep_move h) with rfl | hup
      · exact ⟨hi.state, hi.monitor, hi.reported⟩
      · simp [hup] at ht
  | user l =>
      obtain rfl := Option.some.inj h
      cases l <;> exact ⟨hi.state, hi.monitor, hi.reported⟩

end

/-! ### A reader does not die silently -/

end Client

end SignalR
