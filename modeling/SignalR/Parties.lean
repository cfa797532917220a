/-
SignalR/Parties.lean

What a step of each party can change, said once for each party.  The part of the
client that only the monitor and the disconnects write is its `Control`; a step of
a call, of a connection's tasks or of the user leaves it alone, up to the handler
flags.  The storage changes by primitive changes only (`step_touches`), so the
storage invariant holds in every state of every run (`Reachable.store`).
-/
import SignalR.Client
import SignalR.Settlement

namespace SignalR

open Transition

variable {V : Type}

/-! ### The control part of a client -/

/-- What the monitor and the disconnects write. -/
structure Control where
  state : ConnectionState
  shutdown : Bool
  nextGeneration : Nat
  monitor : MonitorPc
  trace : List Observation

namespace Client

/-- The control part. -/
def control (s : Client V) : Control where
  state := s.state
  shutdown := s.shutdown
  nextGeneration := s.nextGeneration
  monitor := s.monitor
  trace := s.trace

section

variable {s t : Client V}

theorem state_of_control (h : t.control = s.control) : t.state = s.state :=
  congrArg Control.state h

theorem shutdown_of_control (h : t.control = s.control) : t.shutdown = s.shutdown :=
  congrArg Control.shutdown h

theorem monitor_of_control (h : t.control = s.control) : t.monitor = s.monitor :=
  congrArg Control.monitor h

theorem trace_of_control (h : t.control = s.control) : t.trace = s.trace :=
  congrArg Control.trace h

end

/-- A step that reports a loss at most. -/
def Emits (s t : Client V) : Prop :=
  t.events = s.events ∨ ∃ g reason, t.events = s.events ++ [.connectionLost g reason]

theorem Emits.of_emit (s : Client V) (g : Nat) (reason : String) :
    Emits s (s.emit (.connectionLost g reason)) := by
  unfold Emits emit
  split
  · exact .inl rfl
  · exact .inr ⟨g, reason, rfl⟩

end Client

/-! ### The storage under the steps of a call -/

namespace Storage

section

variable (s : Storage V)

theorem poisoned_insert (key : String) (a : Action V) :
    (s.insert key a).poisoned = s.poisoned :=
  ignoresEntries_poisoned.insert s key a

theorem poisoned_addInvocation (id : String) (decode : DeserializeOwned V) :
    (s.addInvocation id decode).poisoned = s.poisoned :=
  poisoned_insert _ id _

theorem poisoned_addStream (id : String) (decode : DeserializeOwned V) :
    (s.addStream id decode).poisoned = s.poisoned :=
  poisoned_insert _ id _

theorem poisoned_remove (key : String) : (s.remove key).poisoned = s.poisoned :=
  ignoresEntries_poisoned.remove s key

end

/-- The future that `add_invocation` returns is created by it. -/
theorem allocated_addInvocation (s : Storage V) (id : String) (decode : DeserializeOwned V) :
    (s.addInvocation id decode).heap.Allocated (.future s.heap.futureCount) := by
  have hcount : (s.addInvocation id decode).heap.futureCount = s.heap.futureCount + 1 := by
    rw [addInvocation]
    obtain ⟨-, -, hi⟩ | ⟨-, hi⟩ := insert_cases
      { s with heap := (InvocationAction.new id decode s.heap).2 } id
      (.invocation (InvocationAction.new id decode s.heap).1)
    · rw [hi]
      rfl
    · rw [hi]
      rfl
  rw [Heap.Allocated, hcount]
  exact Nat.lt_succ_self _

/-- The stream that `add_stream` returns is created by it. -/
theorem allocated_addStream (s : Storage V) (id : String) (decode : DeserializeOwned V) :
    (s.addStream id decode).heap.Allocated (.stream s.heap.streamCount) := by
  have hcount : (s.addStream id decode).heap.streamCount = s.heap.streamCount + 1 := by
    rw [addStream]
    obtain ⟨-, -, hi⟩ | ⟨-, hi⟩ := insert_cases
      { s with heap := (EnumerableAction.new id decode s.heap).2 } id
      (.enumerable (EnumerableAction.new id decode s.heap).1)
    · rw [hi]
      rfl
    · rw [hi]
      rfl
  rw [Heap.Allocated, hcount]
  exact Nat.lt_succ_self _

end Storage

namespace Client

/-! ### Calls -/

/-- The cell of call `c`, if it has one, has been created. -/
def Owns (s : Client V) (c : Nat) : Prop :=
  ∀ x, (s.calls c).cell = some x → s.store.heap.Allocated x

/-- The transitions of call `c`: label, guard, successor. -/
inductive CallTransition (s : Client V) (c : Nat) : CallLabel V → Client V → Prop
  | invoke {target : String} :
      (s.calls c).pc = .idle →
      CallTransition s c (.invoke target) (s.createKey c .invoke target)
  | enumerate {target : String} :
      (s.calls c).pc = .idle →
      CallTransition s c (.enumerate target) (s.createKey c .enumerate target)
  | send :
      (s.calls c).pc = .idle →
      CallTransition s c .send (s.setCall c { s.calls c with kind := .send, pc := .inserted })
  | insertStream {decode : DeserializeOwned V} :
      (s.calls c).pc = .created → (s.calls c).kind = .enumerate →
      CallTransition s c (.insert decode)
        ({ s with store := s.store.addStream (s.calls c).key decode }.setCall c
          { s.calls c with cell := some (.stream s.store.heap.streamCount), pc := .inserted })
  | insertFuture {decode : DeserializeOwned V} :
      (s.calls c).pc = .created → (s.calls c).kind ≠ .enumerate →
      CallTransition s c (.insert decode)
        ({ s with store := s.store.addInvocation (s.calls c).key decode }.setCall c
          { s.calls c with cell := some (.future s.store.heap.futureCount), pc := .inserted })
  | lookup {g : Nat} :
      (s.calls c).pc = .inserted → s.state = .connected g →
      CallTransition s c .lookup
        ((s.acquire g (.call c)).setCall c { s.calls c with pc := .holding g })
  | lookupNotConnected :
      (s.calls c).pc = .inserted → s.state = .notConnected →
      CallTransition s c .lookup (s.failCall c "Client is not connected, cannot send")
  | lookupReconnecting :
      (s.calls c).pc = .inserted → s.state = .reconnecting →
      CallTransition s c .lookup (s.failCall c "Client is reconnecting, cannot send")
  | serializeFails {g : Nat} {error : String} :
      (s.calls c).pc = .holding g →
      CallTransition s c (.serializeFails error)
        ((s.release g (.call c)).failCall c ("Serialization failed: " ++ error))
  | accept {g : Nat} :
      (s.calls c).pc = .holding g → (s.connections g).writer = .running →
      CallTransition s c .offer
        ((s.setConnection g
          { s.connections g with
            commands := (s.connections g).commands ++ [.send c]
            holders := (s.connections g).holders.erase (.call c) }).setCall c
          { s.calls c with
            pc := if (s.calls c).kind = .invoke then .waiting else .returned
            sent := some (.ok ())
            accepted := some g })
  | reject {g : Nat} :
      (s.calls c).pc = .holding g → (s.connections g).writer ≠ .running →
      CallTransition s c .offer
        (s.setCall c { s.calls c with pc := .rejected g ("Failed to send: " ++ channelClosed) })
  | report {g : Nat} {error : String} :
      (s.calls c).pc = .rejected g error →
      CallTransition s c .report
        (((s.emit (.connectionLost g error)).release g (.call c)).failCall c error)
  | removeInvoke {error : String} :
      (s.calls c).pc = .failed error → (s.calls c).kind = .invoke →
      CallTransition s c .remove
        ({ s with store := s.store.remove (s.calls c).key }.setCall c
          { s.calls c with pc := .cleaning })
  | removeEnumerate {error : String} :
      (s.calls c).pc = .failed error → (s.calls c).kind = .enumerate →
      CallTransition s c .remove
        ({ s with store := s.store.remove (s.calls c).key }.setCall c
          { s.calls c with pc := .returned })
  | removeSend {error : String} :
      (s.calls c).pc = .failed error → (s.calls c).kind = .send →
      CallTransition s c .remove (s.setCall c { s.calls c with pc := .returned })
  | pollPending {f : Nat} {w : Waker} :
      (s.calls c).pc = .waiting → (s.calls c).cell = some (.future f) →
      (s.store.pollFuture f w).2 = .pending →
      CallTransition s c (.poll w) { s with store := (s.store.pollFuture f w).1 }
  | pollReady {f : Nat} {w : Waker} {result : Except String V} :
      (s.calls c).pc = .waiting → (s.calls c).cell = some (.future f) →
      (s.store.pollFuture f w).2 = .ready result →
      CallTransition s c (.poll w)
        ({ s with store := (s.store.pollFuture f w).1 }.setCall c
          { s.calls c with pc := .cleaning })
  | abandon :
      (s.calls c).pc = .waiting →
      CallTransition s c .abandon (s.setCall c { s.calls c with pc := .cleaning })
  | cleanup :
      (s.calls c).pc = .cleaning →
      CallTransition s c .cleanup
        ({ s with store := s.store.remove (s.calls c).key }.setCall c
          { s.calls c with pc := .returned })
  | pollStream {st : Nat} {w : Waker} :
      (s.calls c).pc = .returned → (s.calls c).cell = some (.stream st) →
      CallTransition s c (.pollStream w) { s with store := (s.store.pollStream st w).1 }

theorem setConnection_release (s : Client V) (g : Nat) (k : Connection) (holder : Holder) :
    (s.setConnection g k).release g holder
      = s.setConnection g { k with holders := k.holders.erase holder } := by
  simp [release, setConnection]

/-- **The step lemma of a call.** -/
theorem callStep_transition {s t : Client V} {c : Nat} {l : CallLabel V}
    (h : s.callStep c l = some t) : CallTransition s c l t := by
  cases l with
  | invoke target =>
      obtain ⟨hpc, rfl⟩ := guard_of_eq_some h
      exact .invoke hpc
  | enumerate target =>
      obtain ⟨hpc, rfl⟩ := guard_of_eq_some h
      exact .enumerate hpc
  | send =>
      obtain ⟨hpc, rfl⟩ := guard_of_eq_some h
      exact .send hpc
  | insert decode =>
      obtain ⟨hpc, rfl⟩ := guard_of_eq_some h
      rw [insertAction]
      split
      · rename_i hkind
        exact .insertStream hpc hkind
      · rename_i hkind
        exact .insertFuture hpc hkind
  | lookup =>
      obtain ⟨hpc, rfl⟩ := guard_of_eq_some h
      rw [lookup]
      split
      · rename_i hstate
        exact .lookupNotConnected hpc hstate
      · rename_i hstate
        exact .lookupReconnecting hpc hstate
      · rename_i hstate
        exact .lookup hpc hstate
  | serializeFails error =>
      simp only [callStep] at h
      split at h
      · rename_i hpc
        obtain rfl := Option.some.inj h
        exact .serializeFails hpc
      · simp at h
  | offer =>
      simp only [callStep] at h
      split at h
      · rename_i hpc
        obtain rfl := Option.some.inj h
        rw [offer]
        split
        · rename_i hwriter
          rw [setConnection_release]
          exact .accept hpc hwriter
        · rename_i hwriter
          exact .reject hpc hwriter
      · simp at h
  | report =>
      simp only [callStep] at h
      split at h
      · rename_i hpc
        obtain rfl := Option.some.inj h
        exact .report hpc
      · simp at h
  | remove =>
      simp only [callStep] at h
      split at h
      · rename_i hpc
        obtain rfl := Option.some.inj h
        rw [removeFailed]
        split
        · rename_i hkind
          exact .removeInvoke hpc hkind
        · rename_i hkind
          exact .removeEnumerate hpc hkind
        · rename_i hkind
          exact .removeSend hpc hkind
      · simp at h
  | poll w =>
      simp only [callStep] at h
      split at h
      · rename_i f hpc hcell
        obtain rfl := Option.some.inj h
        rw [pollCall]
        split
        · rename_i store hpoll
          obtain rfl : (s.store.pollFuture f w).1 = store := congrArg Prod.fst hpoll
          exact .pollPending hpc hcell (congrArg Prod.snd hpoll)
        · rename_i store result hpoll
          obtain rfl : (s.store.pollFuture f w).1 = store := congrArg Prod.fst hpoll
          exact .pollReady hpc hcell (congrArg Prod.snd hpoll)
      · simp at h
  | abandon =>
      obtain ⟨hpc, rfl⟩ := guard_of_eq_some h
      exact .abandon hpc
  | cleanup =>
      obtain ⟨hpc, rfl⟩ := guard_of_eq_some h
      exact .cleanup hpc
  | pollStream w =>
      simp only [callStep] at h
      split at h
      · rename_i hpc hcell
        obtain rfl := Option.some.inj h
        exact .pollStream hpc hcell
      · simp at h

/-- What a step of call `c` leaves alone, and how it changes the storage. -/
structure CallFrame (s : Client V) (c : Nat) (t : Client V) : Prop where
  control : t.control = s.control
  handlers : t.reconnectingHandler = s.reconnectingHandler ∧
    t.reconnectedHandler = s.reconnectedHandler
  disconnects : t.disconnects = s.disconnects
  calls : ∀ c', c' ≠ c → t.calls c' = s.calls c'
  events : Emits s t
  tasks : ∀ g, (t.connections g).reader = (s.connections g).reader ∧
    (t.connections g).writer = (s.connections g).writer
  holders : ∀ g h, h ≠ .call c →
    (h ∈ (t.connections g).holders ↔ h ∈ (s.connections g).holders)
  -- a poll touches the call's own cell, which has to exist
  store : s.Owns c → Touches s.store.view t.store.view
  poisoned : t.store.poisoned = s.store.poisoned

/-- How a step from `s` to `t` changes the record of the call that takes it. -/
inductive CallMove (s t : Client V) : Call → Call → Prop
  | same (x : Call) : CallMove s t x x
  | start {x : Call} {kind : CallKind} (key : String) :
      x.pc = .idle → kind ≠ .send → CallMove s t x { x with kind, key, pc := .created }
  | startSend {x : Call} :
      x.pc = .idle → CallMove s t x { x with kind := .send, pc := .inserted }
  | insert {x : Call} {cell : Cell} :
      x.pc = .created → ¬ s.store.heap.Allocated cell → t.store.heap.Allocated cell →
      CallMove s t x { x with cell := some cell, pc := .inserted }
  | lookup {x : Call} {g : Nat} :
      x.pc = .inserted → s.state = .connected g → CallMove s t x { x with pc := .holding g }
  | lookupFails {x : Call} (e : String) :
      x.pc = .inserted → (∀ g, s.state ≠ .connected g) →
      CallMove s t x { x with pc := .failed e, sent := some (.error e) }
  -- the one move that hands a request to a connection
  | accept {x : Call} {g : Nat} {pc : CallPc} :
      x.pc = .holding g → (s.connections g).writer = .running → pc = .waiting ∨ pc = .returned →
      CallMove s t x { x with pc, sent := some (.ok ()), accepted := some g }
  | reject {x : Call} {g : Nat} (e : String) :
      x.pc = .holding g → CallMove s t x { x with pc := .rejected g e }
  | fail {x : Call} {g : Nat} (e : String) :
      (x.pc = .holding g ∨ ∃ e', x.pc = .rejected g e') →
      CallMove s t x { x with pc := .failed e, sent := some (.error e) }
  | finish {x : Call} {pc : CallPc} :
      ((∃ e, x.pc = .failed e) ∨ x.pc = .waiting ∨ x.pc = .cleaning) →
      pc = .cleaning ∨ pc = .returned → CallMove s t x { x with pc }

section

variable {s t : Client V} {c : Nat}

/-- A step that changes the storage and the call's record only. -/
theorem CallFrame.of_setCall (s : Client V) (c : Nat) (call : Call) {store : Storage V}
    (ht : s.Owns c → Touches s.store.view store.view)
    (hp : store.poisoned = s.store.poisoned) : CallFrame s c ({ s with store }.setCall c call) where
  control := rfl
  handlers := ⟨rfl, rfl⟩
  disconnects := rfl
  calls := fun _ h => Function.update_of_ne h ..
  events := .inl rfl
  tasks := fun _ => ⟨rfl, rfl⟩
  holders := fun _ _ _ => Iff.rfl
  store := ht
  poisoned := hp

/-- A step that changes the storage only. -/
theorem CallFrame.of_store (s : Client V) (c : Nat) {store : Storage V}
    (ht : s.Owns c → Touches s.store.view store.view)
    (hp : store.poisoned = s.store.poisoned) : CallFrame s c { s with store } where
  control := rfl
  handlers := ⟨rfl, rfl⟩
  disconnects := rfl
  calls := fun _ _ => rfl
  events := .inl rfl
  tasks := fun _ => ⟨rfl, rfl⟩
  holders := fun _ _ _ => Iff.rfl
  store := ht
  poisoned := hp

/-- A connection with other commands or owners has the same tasks. -/
theorem tasks_update {connections : Nat → Connection} {g : Nat} {k : Connection}
    (hreader : k.reader = (connections g).reader) (hwriter : k.writer = (connections g).writer)
    (g' : Nat) :
    (Function.update connections g k g').reader = (connections g').reader ∧
      (Function.update connections g k g').writer = (connections g').writer := by
  by_cases hg : g' = g
  · subst hg
    rw [Function.update_self]
    exact ⟨hreader, hwriter⟩
  · rw [Function.update_of_ne hg]
    exact ⟨rfl, rfl⟩

/-- A step that changes the commands and owners of a connection, and the call's
record. -/
theorem CallFrame.of_connection {s : Client V} {g c : Nat} {k : Connection} (call : Call)
    (hreader : k.reader = (s.connections g).reader)
    (hwriter : k.writer = (s.connections g).writer)
    (hholders : ∀ h, h ≠ .call c → (h ∈ k.holders ↔ h ∈ (s.connections g).holders)) :
    CallFrame s c ((s.setConnection g k).setCall c call) where
  control := rfl
  handlers := ⟨rfl, rfl⟩
  disconnects := rfl
  calls := fun _ h => Function.update_of_ne h ..
  events := .inl rfl
  tasks := tasks_update hreader hwriter
  holders := by
    intro g' h hne
    by_cases hg : g' = g
    · subst hg
      simpa [setConnection, setCall] using hholders h hne
    · simp [setConnection, setCall, hg]
  store := fun _ => .refl
  poisoned := rfl

end

/-- What a transition of a call leaves alone, and how it changes the call's record. -/
theorem callStep_frame {s t : Client V} {c : Nat} {l : CallLabel V}
    (h : s.callStep c l = some t) :
    CallFrame s c t ∧ CallMove s t (s.calls c) (t.calls c) := by
  cases callStep_transition h with
  | invoke hpc | enumerate hpc =>
      refine ⟨.of_setCall s c _ (fun _ => .refl) rfl, ?_⟩
      rw [createKey, setCall_self]
      exact .start _ hpc (by decide)
  | send hpc =>
      refine ⟨.of_setCall s c _ (fun _ => .refl) rfl, ?_⟩
      rw [setCall_self]
      exact .startSend hpc
  | insertStream hpc =>
      refine ⟨.of_setCall s c _ (fun _ => s.store.addStream_touches _ _)
        (s.store.poisoned_addStream _ _), ?_⟩
      rw [setCall_self]
      exact .insert hpc s.store.heap.not_allocated_stream (s.store.allocated_addStream _ _)
  | insertFuture hpc =>
      refine ⟨.of_setCall s c _ (fun _ => s.store.addInvocation_touches _ _)
        (s.store.poisoned_addInvocation _ _), ?_⟩
      rw [setCall_self]
      exact .insert hpc s.store.heap.not_allocated_future (s.store.allocated_addInvocation _ _)
  | lookup hpc hstate =>
      refine ⟨.of_connection _ rfl rfl fun h hne => by simp [hne], ?_⟩
      rw [setCall_self]
      exact .lookup hpc hstate
  | lookupNotConnected hpc hstate | lookupReconnecting hpc hstate =>
      refine ⟨.of_setCall s c _ (fun _ => .refl) rfl, ?_⟩
      rw [failCall, setCall_self]
      exact .lookupFails _ hpc (by simp [hstate])
  | serializeFails hpc =>
      refine ⟨.of_connection _ rfl rfl fun h hne => List.mem_erase_of_ne hne, ?_⟩
      rw [failCall, setCall_self]
      exact .fail _ (.inl hpc)
  | accept hpc hwriter =>
      refine ⟨.of_connection _ rfl rfl fun h hne => List.mem_erase_of_ne hne, ?_⟩
      rw [setCall_self]
      refine .accept hpc hwriter ?_
      split
      · exact .inl rfl
      · exact .inr rfl
  | reject hpc =>
      refine ⟨.of_setCall s c _ (fun _ => .refl) rfl, ?_⟩
      rw [setCall_self]
      exact .reject _ hpc
  | @report g error hpc =>
      -- the frame of the move after the event, from the state with the event
      have hf : CallFrame (s.emit (.connectionLost g error)) c
          (((s.emit (.connectionLost g error)).release g (.call c)).failCall c error) :=
        .of_connection _ rfl rfl fun h hne => List.mem_erase_of_ne hne
      refine ⟨⟨hf.control, hf.handlers, hf.disconnects, hf.calls, Emits.of_emit s _ _, hf.tasks,
        hf.holders, fun _ => .refl, rfl⟩, ?_⟩
      rw [failCall, setCall_self]
      exact .fail _ (.inr ⟨error, hpc⟩)
  | removeInvoke hpc =>
      refine ⟨.of_setCall s c _ (fun _ => s.store.remove_touches _)
        (s.store.poisoned_remove _), ?_⟩
      rw [setCall_self]
      exact .finish (.inl ⟨_, hpc⟩) (.inl rfl)
  | removeEnumerate hpc =>
      refine ⟨.of_setCall s c _ (fun _ => s.store.remove_touches _)
        (s.store.poisoned_remove _), ?_⟩
      rw [setCall_self]
      exact .finish (.inl ⟨_, hpc⟩) (.inr rfl)
  | removeSend hpc =>
      refine ⟨.of_setCall s c _ (fun _ => .refl) rfl, ?_⟩
      rw [setCall_self]
      exact .finish (.inl ⟨_, hpc⟩) (.inr rfl)
  | @pollPending f w hpc hcell =>
      exact ⟨.of_store s c (fun hown => s.store.pollFuture_touches w (hown _ hcell)) rfl, .same _⟩
  | @pollReady f w result hpc hcell =>
      refine ⟨.of_setCall s c _ (fun hown => s.store.pollFuture_touches w (hown _ hcell)) rfl, ?_⟩
      rw [setCall_self]
      exact .finish (.inr (.inl hpc)) (.inl rfl)
  | abandon hpc =>
      refine ⟨.of_setCall s c _ (fun _ => .refl) rfl, ?_⟩
      rw [setCall_self]
      exact .finish (.inr (.inl hpc)) (.inl rfl)
  | cleanup hpc =>
      refine ⟨.of_setCall s c _ (fun _ => s.store.remove_touches _)
        (s.store.poisoned_remove _), ?_⟩
      rw [setCall_self]
      exact .finish (.inr (.inr hpc)) (.inr rfl)
  | @pollStream st w _ hcell =>
      exact ⟨.of_store s c (fun hown => s.store.pollStream_touches w (hown _ hcell)) rfl, .same _⟩

/-! ### Connections -/

/-- The transitions of the tasks of connection `g`: label, guard, successor. -/
inductive ConnectionTransition (C : Config) (s : Client V) (g : Nat) :
    ConnectionLabel → Client V → Prop
  | readClose {frame : Frame} :
      (s.connections g).reader = .running [] → frame.opcode = .close →
      ConnectionTransition C s g (.readFrame frame) (s.endReader g "Received close frame")
  | readFrame {frame : Frame} :
      (s.connections g).reader = .running [] → frame.opcode ≠ .close →
      ConnectionTransition C s g (.readFrame frame)
        (s.setConnection g
          { s.connections g with reader := .running (frameCalls C.serde C.protocol frame) })
  | readError {error : String} :
      (s.connections g).reader = .running [] →
      ConnectionTransition C s g (.readError error)
        (s.endReader g ("Error reading frame: " ++ error))
  | dispatch {m : RawMessage} {rest : List RawMessage} :
      (s.connections g).reader = .running (m :: rest) →
      (s.store.processMessage C.serde m).2 ≠ .panic →
      ConnectionTransition C s g .dispatch
        ({ s with store := (s.store.processMessage C.serde m).1 }.setConnection g
          { s.connections g with reader := .running rest })
  | dispatchPanics {m : RawMessage} {rest : List RawMessage} :
      (s.connections g).reader = .running (m :: rest) →
      (s.store.processMessage C.serde m).2 = .panic →
      ConnectionTransition C s g .dispatch
        ({ s with store := (s.store.processMessage C.serde m).1 }.setConnection g
          { s.connections g with reader := .panicked })
  | write {c : Nat} {rest : List WriterCommand} {u : Unit} :
      (s.connections g).writer = .running → (s.connections g).commands = .send c :: rest →
      ConnectionTransition C s g (.write (.ok u))
        (s.setConnection g { s.connections g with commands := rest })
  | writeError {c : Nat} {rest : List WriterCommand} {e : String} :
      (s.connections g).writer = .running → (s.connections g).commands = .send c :: rest →
      ConnectionTransition C s g (.write (.error e))
        (s.endWriter g ("Error writing frame: " ++ e))
  | close {d : Nat} {rest : List WriterCommand} {u : Unit} :
      (s.connections g).writer = .running → (s.connections g).commands = .close d :: rest →
      ConnectionTransition C s g (.write (.ok u)) (s.answerClose g d (.ok ()))
  | closeError {d : Nat} {rest : List WriterCommand} {e : String} :
      (s.connections g).writer = .running → (s.connections g).commands = .close d :: rest →
      ConnectionTransition C s g (.write (.error e))
        (s.answerClose g d (.error ("Error writing close frame: " ++ e)))
  | writeFails {reason : String} :
      (s.connections g).writer = .running →
      ConnectionTransition C s g (.writeFails reason) (s.endWriter g reason)
  | abortReader :
      (s.connections g).reader = .running [] → (s.connections g).holders = [] →
      ConnectionTransition C s g .abortReader
        (s.setConnection g { s.connections g with reader := .aborted })
  | abortWriter :
      (s.connections g).writer = .running → (s.connections g).holders = [] →
      ConnectionTransition C s g .abortWriter
        (s.setConnection g { s.connections g with writer := .aborted, commands := [] })

/-- **The step lemma of a connection.** -/
theorem connectionStep_transition {C : Config} {s t : Client V} {g : Nat} {l : ConnectionLabel}
    (h : s.connectionStep C g l = some t) : ConnectionTransition C s g l t := by
  cases l with
  | readFrame frame =>
      simp only [connectionStep] at h
      split at h
      · rename_i hreader
        split at h
        · rename_i hclose
          obtain rfl := Option.some.inj h
          exact .readClose hreader hclose
        · rename_i hother
          obtain rfl := Option.some.inj h
          exact .readFrame hreader hother
      · simp at h
  | readError error =>
      obtain ⟨hreader, rfl⟩ := guard_of_eq_some h
      exact .readError hreader
  | dispatch =>
      simp only [connectionStep] at h
      split at h
      · rename_i m rest hreader
        obtain rfl := Option.some.inj h
        rw [Client.dispatch]
        split
        · rename_i store hprocess
          obtain rfl : (s.store.processMessage C.serde m).1 = store := congrArg Prod.fst hprocess
          exact .dispatchPanics hreader (congrArg Prod.snd hprocess)
        · rename_i store outcome hpanic hprocess
          obtain rfl : (s.store.processMessage C.serde m).1 = store := congrArg Prod.fst hprocess
          exact .dispatch hreader fun hp => hpanic ((congrArg Prod.snd hprocess).symm.trans hp)
      · simp at h
  | write result =>
      simp only [connectionStep] at h
      split at h
      · rename_i hwriter
        split at h
        · rename_i hcommands
          obtain rfl := Option.some.inj h
          exact .write hwriter hcommands
        · rename_i hcommands
          obtain rfl := Option.some.inj h
          exact .writeError hwriter hcommands
        · rename_i hcommands
          obtain rfl := Option.some.inj h
          exact .close hwriter hcommands
        · rename_i hcommands
          obtain rfl := Option.some.inj h
          exact .closeError hwriter hcommands
        · simp at h
      · simp at h
  | writeFails reason =>
      obtain ⟨hwriter, rfl⟩ := guard_of_eq_some h
      exact .writeFails hwriter
  | abortReader =>
      obtain ⟨⟨hruns, hnobody⟩, rfl⟩ := guard_of_eq_some h
      exact .abortReader hruns hnobody
  | abortWriter =>
      obtain ⟨⟨hruns, hnobody⟩, rfl⟩ := guard_of_eq_some h
      exact .abortWriter hruns hnobody

/-- What a step of the tasks of connection `g` leaves alone. -/
structure ConnectionFrame (s : Client V) (g : Nat) (t : Client V) : Prop where
  control : t.control = s.control
  handlers : t.reconnectingHandler = s.reconnectingHandler ∧
    t.reconnectedHandler = s.reconnectedHandler
  calls : t.calls = s.calls
  connections : ∀ g', g' ≠ g → t.connections g' = s.connections g'
  holders : (t.connections g).holders = (s.connections g).holders
  events : Emits s t
  disconnects : ∀ d, t.disconnects d = s.disconnects d ∨
    ∃ g' r, s.disconnects d = .awaiting g' ∧ t.disconnects d = .answered g' r
  store : Touches s.store.view t.store.view

theorem ConnectionFrame.of_setConnection (s : Client V) (g : Nat) {k : Connection}
    {store : Storage V} (ht : Touches s.store.view store.view)
    (h : k.holders = (s.connections g).holders) :
    ConnectionFrame s g ({ s with store }.setConnection g k) where
  control := rfl
  handlers := ⟨rfl, rfl⟩
  calls := rfl
  connections := fun _ hg => Function.update_of_ne hg ..
  holders := by simp [setConnection, h]
  events := .inl rfl
  disconnects := fun _ => .inl rfl
  store := ht

theorem ConnectionFrame.of_emit (s : Client V) (g : Nat) {k : Connection} (reason : String)
    (h : k.holders = (s.connections g).holders) :
    ConnectionFrame s g ((s.setConnection g k).emit (.connectionLost g reason)) where
  control := rfl
  handlers := ⟨rfl, rfl⟩
  calls := rfl
  connections := fun _ hg => Function.update_of_ne hg ..
  holders := by simp [setConnection, emit, h]
  events := Emits.of_emit (s.setConnection g k) g reason
  disconnects := fun _ => .inl rfl
  store := .refl

theorem ConnectionFrame.of_answerClose (s : Client V) (g d : Nat) (result : Except String Unit) :
    ConnectionFrame s g (s.answerClose g d result) where
  control := rfl
  handlers := ⟨rfl, rfl⟩
  calls := rfl
  connections := fun _ hg => Function.update_of_ne hg ..
  holders := by simp [setConnection, answerClose]
  events := .inl rfl
  disconnects := by
    intro d'
    rw [answerClose]
    split
    · rename_i g' hd
      by_cases h : d' = d
      · subst h
        exact .inr ⟨g', result, hd, by simp⟩
      · exact .inl (Function.update_of_ne h ..)
    · exact .inl rfl
  store := .refl

/-- What a transition of a connection leaves alone. -/
theorem connectionStep_frame {C : Config} {s t : Client V} {g : Nat} {l : ConnectionLabel}
    (h : s.connectionStep C g l = some t) : ConnectionFrame s g t := by
  cases connectionStep_transition h with
  | readClose | readError | writeError | writeFails => exact .of_emit s g _ rfl
  | readFrame | write | abortReader | abortWriter => exact .of_setConnection s g .refl rfl
  | close | closeError => exact .of_answerClose ..
  -- the storage changes the same way whether the callback panics or not
  | dispatch | dispatchPanics =>
      exact .of_setConnection s g (s.store.processMessage_touches C.serde _) rfl

/-- Only a dispatch changes the storage. -/
theorem connectionStep_store {C : Config} {s t : Client V} {g : Nat} {l : ConnectionLabel}
    (h : s.connectionStep C g l = some t) :
    t.store = s.store ∨ l = .dispatch ∧ ∃ m rest,
      (s.connections g).reader = .running (m :: rest) ∧
        t.store = (s.store.processMessage C.serde m).1 := by
  cases connectionStep_transition h with
  | dispatch hreader | dispatchPanics hreader => exact .inr ⟨rfl, _, _, hreader, rfl⟩
  | _ => exact .inl rfl

/-! ### The monitor -/

/-- The transitions of the monitor. -/
inductive MonitorMove (C : Config) (s : Client V) : Client V → Prop
  | recv {g : Nat} {reason : String} {events : List ConnectionEvent} :
      s.monitor = .idle → s.events = .connectionLost g reason :: events →
      MonitorMove C s { s with events, monitor := .received g reason }
  | recvShutdown {events : List ConnectionEvent} :
      s.monitor = .idle → s.events = .shutdown :: events →
      MonitorMove C s { s with events, monitor := .stopped }
  | leave {g : Nat} {reason : String} :
      s.monitor = .received g reason → s.shutdown = true →
      MonitorMove C s { s with monitor := .stopped }
  | load {g : Nat} {reason : String} :
      s.monitor = .received g reason → s.shutdown = false →
      MonitorMove C s { s with monitor := .marking g reason }
  | markCurrent {g : Nat} {reason : String} :
      s.monitor = .marking g reason → s.state = .connected g →
      MonitorMove C s ({ s.setState (if C.policy.enabled then .reconnecting else .notConnected) with
        monitor := .cancelling g reason }.observe (.tornDown g))
  | markStale {g : Nat} {reason : String} :
      s.monitor = .marking g reason → s.state ≠ .connected g →
      MonitorMove C s { s with monitor := .idle }
  | cancel {g : Nat} {reason : String} :
      s.monitor = .cancelling g reason → MonitorMove C s (s.cancelLost g reason)
  | disabled :
      s.monitor = .cancelled → C.policy.enabled = false →
      MonitorMove C s { s with monitor := .idle }
  | notify :
      s.monitor = .cancelled → C.policy.enabled = true →
      MonitorMove C s ({ s with monitor := .reconnecting none }.observe .reconnecting)
  | startCycle :
      s.monitor = .cancelled ∧ C.policy.enabled = true ∨ s.monitor = .reconnecting none →
      MonitorMove C s s.startCycle
  | handler {on on' : Option Nat} :
      s.monitor = .reconnecting on → MonitorMove C s { s with monitor := .reconnecting on' }
  | interrupt {attempt : Nat} :
      s.monitor = .loopTop attempt ∨ s.monitor = .sleeping attempt → s.shutdown = true →
      MonitorMove C s { s with monitor := .idle }
  | exhaust {attempt maxAttempts : Nat} :
      s.monitor = .loopTop attempt → C.policy.maxAttempts = some maxAttempts →
      attempt > maxAttempts → MonitorMove C s { s with monitor := .exhausted }
  | sleep {attempt : Nat} :
      s.monitor = .loopTop attempt → s.shutdown = false →
      (∀ maxAttempts, C.policy.maxAttempts = some maxAttempts → attempt ≤ maxAttempts) →
      MonitorMove C s { s with monitor := .sleeping attempt }
  | storeExhausted :
      s.monitor = .exhausted →
      MonitorMove C s { s.setState .notConnected with monitor := .idle }
  | wake {attempt : Nat} :
      s.monitor = .sleeping attempt → s.shutdown = false →
      MonitorMove C s { s with monitor := .negotiating attempt }
  | negotiated {attempt : Nat} :
      s.monitor = .negotiating attempt →
      MonitorMove C s
        { s with
          monitor := .connecting attempt s.nextGeneration
          nextGeneration := s.nextGeneration + 1 }
  | retry {attempt : Nat} :
      (s.monitor = .negotiating attempt ∨ ∃ h, s.monitor = .connecting attempt h) →
      MonitorMove C s { s with monitor := .loopTop (attempt + 1) }
  | connect {attempt h : Nat} :
      s.monitor = .connecting attempt h →
      MonitorMove C s { s.setConnection h (.start .monitor) with monitor := .installing h }
  | install {h : Nat} : s.monitor = .installing h → MonitorMove C s (s.install h)
  | notifyReconnected {h : Nat} :
      s.monitor = .installed h → s.reconnectedHandler = true →
      MonitorMove C s ({ s with monitor := .reconnected h none }.observe (.reconnected h))
  | handlerReconnected {h : Nat} {on on' : Option Nat} :
      s.monitor = .reconnected h on → MonitorMove C s { s with monitor := .reconnected h on' }
  | finish {h : Nat} :
      s.monitor = .installed h ∨ s.monitor = .reconnected h none →
      MonitorMove C s { s with monitor := .idle }

/-- **The step lemma of the monitor.** -/
theorem monitorStep_move {C : Config} {s t : Client V} {l : MonitorLabel}
    (h : s.monitorStep C l = some t) : MonitorMove C s t := by
  cases l with
  | recv =>
      simp only [monitorStep] at h
      split at h
      · rename_i hm he
        obtain rfl := Option.some.inj h
        exact .recv hm he
      · rename_i hm he
        obtain rfl := Option.some.inj h
        exact .recvShutdown hm he
      · simp at h
  | loadShutdown =>
      simp only [monitorStep] at h
      split at h
      · rename_i hm
        obtain rfl := Option.some.inj h
        by_cases hs : s.shutdown = true
        · rw [if_pos hs]
          exact .leave hm hs
        · rw [if_neg hs]
          exact .load hm (by simpa using hs)
      · simp at h
  | mark =>
      simp only [monitorStep] at h
      split at h
      · rename_i hm
        obtain rfl := Option.some.inj h
        rw [markConnectionLost]
        split
        · rename_i hstate
          exact .markCurrent hm hstate
        · rename_i hstate
          exact .markStale hm hstate
      · simp at h
  | cancel =>
      simp only [monitorStep] at h
      split at h
      · rename_i hm
        obtain rfl := Option.some.inj h
        exact .cancel hm
      · simp at h
  | startReconnecting =>
      simp only [monitorStep] at h
      split at h
      · rename_i hm
        obtain rfl := Option.some.inj h
        rw [startReconnecting]
        split
        · rename_i henabled
          split
          · exact .notify hm henabled
          · exact .startCycle (.inl ⟨hm, henabled⟩)
        · rename_i henabled
          exact .disabled hm (by simpa using henabled)
      · simp at h
  | handlerAwaits c =>
      simp only [monitorStep] at h
      split at h
      · rename_i hm
        obtain rfl := Option.some.inj h
        exact .handler hm
      · rename_i hm
        obtain rfl := Option.some.inj h
        exact .handlerReconnected hm
      · simp at h
  | handlerResumes =>
      simp only [monitorStep] at h
      split at h
      · rename_i hm
        split at h
        · obtain rfl := Option.some.inj h
          exact .handler hm
        · simp at h
      · rename_i hm
        split at h
        · obtain rfl := Option.some.inj h
          exact .handlerReconnected hm
        · simp at h
      · simp at h
  | handlerReturns =>
      simp only [monitorStep] at h
      split at h
      · rename_i hm
        obtain rfl := Option.some.inj h
        exact .startCycle (.inr hm)
      · rename_i hm
        obtain rfl := Option.some.inj h
        exact .finish (.inr hm)
      · simp at h
  | checkTop =>
      simp only [monitorStep] at h
      split at h
      · rename_i hm
        obtain rfl := Option.some.inj h
        rw [checkTop]
        split
        · rename_i hs
          exact .interrupt (.inl hm) hs
        · rename_i hs
          have hs : s.shutdown = false := by simpa using hs
          split
          · rename_i hmax
            split
            · rename_i hover
              exact .exhaust hm hmax hover
            · rename_i hover
              refine .sleep hm hs fun n hn => ?_
              obtain rfl := Option.some.inj (hmax.symm.trans hn)
              exact Nat.not_lt.mp hover
          · rename_i hmax
            exact .sleep hm hs fun n hn => by simp [hmax] at hn
      · simp at h
  | storeExhausted =>
      simp only [monitorStep] at h
      split at h
      · rename_i hm
        obtain rfl := Option.some.inj h
        exact .storeExhausted hm
      · simp at h
  | wake =>
      simp only [monitorStep] at h
      split at h
      · rename_i hm
        obtain rfl := Option.some.inj h
        by_cases hs : s.shutdown = true
        · rw [if_pos hs]
          exact .interrupt (.inr hm) hs
        · rw [if_neg hs]
          exact .wake hm (by simpa using hs)
      · simp at h
  | negotiated ok =>
      simp only [monitorStep] at h
      split at h
      · rename_i hm
        obtain rfl := Option.some.inj h
        rcases ok with - | -
        · exact .retry (.inl hm)
        · exact .negotiated hm
      · simp at h
  | socket ok =>
      simp only [monitorStep] at h
      split at h
      · rename_i hm
        obtain rfl := Option.some.inj h
        rcases ok with - | -
        · exact .retry (.inr ⟨_, hm⟩)
        · exact .connect hm
      · simp at h
  | install =>
      simp only [monitorStep] at h
      split at h
      · rename_i hm
        obtain rfl := Option.some.inj h
        exact .install hm
      · simp at h
  | startReconnected =>
      simp only [monitorStep] at h
      split at h
      · rename_i hm
        obtain rfl := Option.some.inj h
        split
        · rename_i hh
          exact .notifyReconnected hm hh
        · exact .finish (.inl hm)
      · simp at h

/-- What a step of the monitor leaves alone. -/
structure MonitorFrame (s t : Client V) : Prop where
  shutdown : t.shutdown = s.shutdown
  handlers : t.reconnectingHandler = s.reconnectingHandler ∧
    t.reconnectedHandler = s.reconnectedHandler
  calls : t.calls = s.calls
  disconnects : t.disconnects = s.disconnects
  store : t.store = s.store ∨ ∃ g reason, s.monitor = .cancelling g reason ∧
    t.store = s.store.cancelPending (lossText reason)

/-- A step of the monitor other than a tear-down and the cancellation after it.  It
changes the connection state only at the end of a reconnect cycle. -/
structure MonitorQuiet (s t : Client V) : Prop where
  state : t.state = s.state ∨ s.monitor = .exhausted ∨ ∃ h, s.monitor = .installing h
  before : ∀ g reason, s.monitor ≠ .cancelling g reason
  after : ∀ g reason, t.monitor ≠ .cancelling g reason
  trace : t.trace = s.trace ∨
    ∃ o, t.trace = s.trace ++ [o] ∧ (∀ g, o ≠ .tornDown g) ∧ ∀ g fs, o ≠ .cancelled g fs
  store : t.store = s.store

/-- The monitor tears down, cancels or does neither. -/
theorem MonitorMove.kinds {C : Config} {s t : Client V} (h : MonitorMove C s t) :
    (∃ g reason, s.state = .connected g ∧ t.state ≠ .connected g ∧
        t.monitor = .cancelling g reason ∧ t.trace = s.trace ++ [.tornDown g] ∧
        t.store = s.store) ∨
      (∃ g reason, s.monitor = .cancelling g reason ∧ t = s.cancelLost g reason) ∨
      MonitorQuiet s t := by
  have ne : ∀ {pc : MonitorPc} (pc' : MonitorPc), pc = pc' →
      (∀ g reason, pc' ≠ .cancelling g reason) → ∀ g reason, pc ≠ .cancelling g reason := by
    rintro pc _ rfl h
    exact h
  -- most moves only send the monitor elsewhere
  have goto : ∀ {u : Client V} {pc pc' : MonitorPc}, s.monitor = pc → u.monitor = pc' →
      (∀ g reason, pc ≠ .cancelling g reason) → (∀ g reason, pc' ≠ .cancelling g reason) →
      u.state = s.state → u.trace = s.trace → u.store = s.store → MonitorQuiet s u := by
    intro u pc pc' hm hm' hpc hpc' hstate htrace hstore
    exact ⟨.inl hstate, ne _ hm hpc, ne _ hm' hpc', .inl htrace, hstore⟩
  cases h with
  | markCurrent hm hstate =>
      refine .inl ⟨_, _, hstate, ?_, rfl, rfl, rfl⟩
      show (if C.policy.enabled then ConnectionState.reconnecting else .notConnected) ≠ _
      split <;> simp
  | cancel hm => exact .inr (.inl ⟨_, _, hm, rfl⟩)
  | recv hm | recvShutdown hm | leave hm | load hm | markStale hm | disabled hm | handler hm
  | exhaust hm | sleep hm | wake hm | negotiated hm | connect hm | handlerReconnected hm =>
      exact .inr (.inr (goto hm rfl (by simp) (by simp) rfl rfl rfl))
  | interrupt hm | finish hm =>
      rcases hm with hm | hm <;>
        exact .inr (.inr (goto hm rfl (by simp) (by simp) rfl rfl rfl))
  | retry hm =>
      rcases hm with hm | ⟨h, hm⟩ <;>
        exact .inr (.inr (goto hm rfl (by simp) (by simp) rfl rfl rfl))
  | notify hm =>
      exact .inr (.inr ⟨.inl rfl, ne _ hm (by simp), ne (.reconnecting none) rfl (by simp),
        .inr ⟨.reconnecting, rfl, by simp, by simp⟩, rfl⟩)
  | startCycle hm =>
      have hbefore : ∀ g reason, s.monitor ≠ .cancelling g reason := by
        rcases hm with ⟨hm, -⟩ | hm <;> exact ne _ hm (by simp)
      exact .inr (.inr ⟨.inl rfl, hbefore, ne (.loopTop 1) rfl (by simp),
        .inr ⟨.cycle, rfl, by simp, by simp⟩, rfl⟩)
  | @notifyReconnected h hm =>
      exact .inr (.inr ⟨.inl rfl, ne _ hm (by simp), ne (.reconnected h none) rfl (by simp),
        .inr ⟨.reconnected h, rfl, by simp, by simp⟩, rfl⟩)
  -- the two moves that end a cycle by a store
  | storeExhausted hm =>
      exact .inr (.inr ⟨.inr (.inl hm), ne _ hm (by simp), ne .idle rfl (by simp), .inl rfl, rfl⟩)
  | @install h hm =>
      exact .inr (.inr ⟨.inr (.inr ⟨h, hm⟩), ne _ hm (by simp), ne (.installed h) rfl (by simp),
        .inr ⟨.installed h, rfl, by simp, by simp⟩, rfl⟩)

theorem MonitorMove.frame {C : Config} {s t : Client V} (h : MonitorMove C s t) :
    MonitorFrame s t := by
  cases h with
  | cancel hm => exact ⟨rfl, ⟨rfl, rfl⟩, rfl, rfl, .inr ⟨_, _, hm, rfl⟩⟩
  | _ => exact ⟨rfl, ⟨rfl, rfl⟩, rfl, rfl, .inl rfl⟩

/-! ### Graceful disconnects -/

/-- Dropping the connection that the state holds leaves its tasks running. -/
theorem dropState_tasks (connections : Nat → Connection) (state : ConnectionState) (g : Nat) :
    (dropState connections state g).reader = (connections g).reader ∧
      (dropState connections state g).writer = (connections g).writer := by
  cases state with
  | connected g' => refine @tasks_update connections g' _ ?_ ?_ g <;> rfl
  | _ => exact ⟨rfl, rfl⟩

/-- The transitions of disconnect `d`. -/
inductive DisconnectMove (s : Client V) (d : Nat) : Client V → Prop
  | cancel :
      s.disconnects d = .idle →
      DisconnectMove s d
        ({ s with store := s.store.cancelPending "Client disconnected" }.setDisconnect d .cancelled)
  | raiseFlag :
      s.disconnects d = .cancelled →
      DisconnectMove s d ({ s with shutdown := true }.setDisconnect d .flagged)
  | lookup {g : Nat} :
      s.disconnects d = .flagged → s.state = .connected g →
      DisconnectMove s d ((s.acquire g (.disconnect d)).setDisconnect d (.closing g))
  | lookupNone :
      s.disconnects d = .flagged → (∀ g, s.state ≠ .connected g) →
      DisconnectMove s d (s.setDisconnect d (.closed none (.ok ())))
  | requestClose {g : Nat} :
      s.disconnects d = .closing g →
      DisconnectMove s d
        ((s.setConnection g
          { s.connections g with
            commands := (s.connections g).commands ++ [.close d] }).setDisconnect d (.awaiting g))
  | finishClose {g : Nat} (result : Except String Unit) :
      (s.disconnects d = .closing g ∨ s.disconnects d = .awaiting g ∨
        s.disconnects d = .answered g result) →
      -- without the writer's answer the result is an error
      (∃ e, result = .error e) ∨ s.disconnects d = .answered g result →
      DisconnectMove s d (s.finishClose d g result)
  | store {g : Option Nat} {result : Except String Unit} :
      s.disconnects d = .closed g result →
      DisconnectMove s d ((s.setState .notConnected).setDisconnect d (.stored g result))
  | sendShutdown {g : Option Nat} {result : Except String Unit} :
      s.disconnects d = .stored g result →
      DisconnectMove s d ((s.emit .shutdown).setDisconnect d (.returned g result))

/-- **The step lemma of a disconnect.** -/
theorem disconnectStep_move {s t : Client V} {d : Nat} {l : DisconnectLabel}
    (h : s.disconnectStep d l = some t) : DisconnectMove s d t := by
  cases l with
  | cancel =>
      simp only [disconnectStep] at h
      split at h
      · rename_i hd
        obtain rfl := Option.some.inj h
        exact .cancel hd
      · simp at h
  | raiseFlag =>
      simp only [disconnectStep] at h
      split at h
      · rename_i hd
        obtain rfl := Option.some.inj h
        exact .raiseFlag hd
      · simp at h
  | lookup =>
      simp only [disconnectStep] at h
      split at h
      · rename_i hd hstate
        obtain rfl := Option.some.inj h
        exact .lookup hd hstate
      · rename_i hd hstate
        obtain rfl := Option.some.inj h
        exact .lookupNone hd fun g hg => hstate g hg
      · simp at h
  | requestClose =>
      simp only [disconnectStep] at h
      split at h
      · rename_i hd
        obtain rfl := Option.some.inj h
        split
        · exact .requestClose hd
        · exact .finishClose _ (.inl hd) (.inl ⟨_, rfl⟩)
      · simp at h
  | finishClose =>
      simp only [disconnectStep] at h
      split at h
      · rename_i hd
        obtain rfl := Option.some.inj h
        exact .finishClose _ (.inr (.inr hd)) (.inr hd)
      · simp at h
  | timeout =>
      simp only [disconnectStep] at h
      split at h
      · rename_i hd
        obtain rfl := Option.some.inj h
        exact .finishClose _ (.inr (.inl hd)) (.inl ⟨_, rfl⟩)
      · simp at h
  | writerGone =>
      simp only [disconnectStep] at h
      split at h
      · rename_i hd
        split at h
        · simp at h
        · obtain rfl := Option.some.inj h
          exact .finishClose _ (.inr (.inl hd)) (.inl ⟨_, rfl⟩)
      · simp at h
  | store =>
      simp only [disconnectStep] at h
      split at h
      · rename_i hd
        obtain rfl := Option.some.inj h
        exact .store hd
      · simp at h
  | sendShutdown =>
      simp only [disconnectStep] at h
      split at h
      · rename_i hd
        obtain rfl := Option.some.inj h
        exact .sendShutdown hd
      · simp at h

/-- What a step of disconnect `d` leaves alone. -/
structure DisconnectFrame (s : Client V) (d : Nat) (t : Client V) : Prop where
  monitor : t.monitor = s.monitor
  nextGeneration : t.nextGeneration = s.nextGeneration
  trace : t.trace = s.trace
  handlers : t.reconnectingHandler = s.reconnectingHandler ∧
    t.reconnectedHandler = s.reconnectedHandler
  calls : t.calls = s.calls
  disconnects : ∀ d', d' ≠ d → t.disconnects d' = s.disconnects d'
  tasks : ∀ g, (t.connections g).reader = (s.connections g).reader ∧
    (t.connections g).writer = (s.connections g).writer

theorem DisconnectMove.frame {s t : Client V} {d : Nat} (h : DisconnectMove s d t) :
    DisconnectFrame s d t := by
  have hother : ∀ (u : Client V) (pc : DisconnectPc), u.disconnects = s.disconnects →
      ∀ d', d' ≠ d → (u.setDisconnect d pc).disconnects d' = s.disconnects d' := by
    intro u pc hu d' hd
    rw [← hu]
    exact Function.update_of_ne hd ..
  cases h with
  | cancel =>
      exact ⟨rfl, rfl, rfl, ⟨rfl, rfl⟩, rfl, hother _ _ rfl, fun _ => ⟨rfl, rfl⟩⟩
  | raiseFlag =>
      exact ⟨rfl, rfl, rfl, ⟨rfl, rfl⟩, rfl, hother _ _ rfl, fun _ => ⟨rfl, rfl⟩⟩
  | lookup =>
      exact ⟨rfl, rfl, rfl, ⟨rfl, rfl⟩, rfl, hother _ _ rfl, tasks_update rfl rfl⟩
  | lookupNone =>
      exact ⟨rfl, rfl, rfl, ⟨rfl, rfl⟩, rfl, hother _ _ rfl, fun _ => ⟨rfl, rfl⟩⟩
  | requestClose =>
      exact ⟨rfl, rfl, rfl, ⟨rfl, rfl⟩, rfl, hother _ _ rfl, tasks_update rfl rfl⟩
  | finishClose result =>
      exact ⟨rfl, rfl, rfl, ⟨rfl, rfl⟩, rfl, hother _ _ rfl, tasks_update rfl rfl⟩
  | store =>
      refine ⟨rfl, rfl, rfl, ⟨rfl, rfl⟩, rfl, hother _ _ rfl, fun g => ?_⟩
      exact dropState_tasks s.connections s.state g
  | sendShutdown =>
      exact ⟨rfl, rfl, rfl, ⟨rfl, rfl⟩, rfl, hother _ _ rfl, fun _ => ⟨rfl, rfl⟩⟩

/-! ### The storage of a client -/

theorem DisconnectMove.touches {s t : Client V} {d : Nat} (h : DisconnectMove s d t) :
    Touches s.store.view t.store.view := by
  cases h with
  | cancel => exact s.store.cancelPending_touches _
  | _ => exact .refl

theorem MonitorMove.touches {C : Config} {s t : Client V} (h : MonitorMove C s t) :
    Touches s.store.view t.store.view := by
  rcases h.frame.store with hstore | ⟨g, reason, -, hstore⟩
  · rw [hstore]
  · rw [hstore]
    exact s.store.cancelPending_touches _

theorem userStep_touches (C : Config) (s : Client V) (l : UserLabel) :
    Touches s.store.view (s.userStep C l).store.view := by
  cases l with
  | register target callback => exact s.store.addCallback_touches _ _ _
  | unregister target => exact s.store.remove_touches _
  | onReconnecting => exact .refl
  | onReconnected => exact .refl

/-- What a user step leaves alone. -/
theorem userStep_frame (C : Config) (s : Client V) (l : UserLabel) :
    (s.userStep C l).control = s.control ∧ (s.userStep C l).calls = s.calls ∧
      (s.userStep C l).connections = s.connections ∧ (s.userStep C l).events = s.events ∧
      (s.userStep C l).disconnects = s.disconnects := by
  cases l <;> exact ⟨rfl, rfl, rfl, rfl, rfl⟩

/-- Only the monitor and the disconnects write the control part. -/
theorem step_control {C : Config} {s t : Client V} {l : Label V} (h : step C s l = some t) :
    t.control = s.control ∨ MonitorMove C s t ∨ ∃ d, DisconnectMove s d t := by
  cases l with
  | call c l => exact .inl (callStep_frame h).1.control
  | connection g l => exact .inl (connectionStep_frame h).control
  | monitor l => exact .inr (.inl (monitorStep_move h))
  | disconnect d l => exact .inr (.inr ⟨d, disconnectStep_move h⟩)
  | user l =>
      obtain rfl := Option.some.inj h
      exact .inl (userStep_frame C s l).1

/-- The storage is sound, and every call's cell has been created. -/
structure StoreInv (s : Client V) : Prop where
  view : s.store.view.Inv
  owns : ∀ c, s.Owns c

/-- A step changes the storage by primitive changes. -/
theorem step_touches {C : Config} {s t : Client V} {l : Label V} (hi : s.StoreInv)
    (h : step C s l = some t) : Touches s.store.view t.store.view := by
  cases l with
  | call c l => exact (callStep_frame h).1.store (hi.owns c)
  | connection g l => exact (connectionStep_frame h).store
  | monitor l => exact (monitorStep_move h).touches
  | disconnect d l => exact (disconnectStep_move h).touches
  | user l =>
      obtain rfl := Option.some.inj h
      exact userStep_touches C s l

/-- How the record of call `c` changes in a step. -/
theorem step_call {C : Config} {s t : Client V} {l : Label V} (h : step C s l = some t)
    (c : Nat) : t.calls c = s.calls c ∨
      (∃ l', l = .call c l') ∧ t.control = s.control ∧ CallMove s t (s.calls c) (t.calls c) := by
  cases l with
  | call c' l =>
      obtain ⟨hf, hmove⟩ := callStep_frame h
      by_cases hc : c = c'
      · subst hc
        exact .inr ⟨⟨l, rfl⟩, hf.control, hmove⟩
      · exact .inl (hf.calls c hc)
  | connection g l => exact .inl (by rw [(connectionStep_frame h).calls])
  | monitor l => exact .inl (by rw [(monitorStep_move h).frame.calls])
  | disconnect d l => exact .inl (by rw [(disconnectStep_move h).frame.calls])
  | user l =>
      obtain rfl := Option.some.inj h
      exact .inl (by rw [(userStep_frame C s l).2.1])

theorem StoreInv.step {C : Config} {s t : Client V} {l : Label V} (hi : s.StoreInv)
    (h : Client.step C s l = some t) : t.StoreInv := by
  have htouch := step_touches hi h
  have hadv := View.Touches.advances htouch
  refine ⟨View.Touches.inv hi.view htouch, fun c x hx => ?_⟩
  rcases step_call h c with hc | ⟨-, -, hmove⟩
  · rw [hc] at hx
    exact hadv.allocated x (hi.owns c x hx)
  -- only the insertion gives the call a cell, and it creates that cell
  · generalize t.calls c = y at hmove hx
    cases hmove with
    | insert _ _ hnew =>
        obtain rfl := Option.some.inj hx
        exact hnew
    | _ => exact hadv.allocated x (hi.owns c x hx)

/-- **The storage invariant holds in every run.** -/
theorem Reachable.storeInv {C : Config} {allowed : Client V → Label V → Prop} {s : Client V}
    (h : Reachable C allowed s) : s.StoreInv := by
  refine Reaches.invariant h ⟨.empty, ?_⟩ fun s l t hi _ hst => hi.step hst
  intro c x hx
  simp [init, Call.new] at hx

end Client

end SignalR
