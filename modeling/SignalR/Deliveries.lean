/-
SignalR/Deliveries.lean

Server invocations of one target around the registrations of its callback.  The
reader takes a record through `process_message` in two sections (`contains`, then
`update` or `defer_message`).  A register call inserts its callback, takes the
deferred queue out and replays it record by record, and its handle may remove the
callback later on.  Each section is one step, so a run is any interleaving of them.

* The callback sees the records in the order of their arrival as long as the reader
  dispatches none while an older one is still to be replayed (`dispatched_in_order`).
* Every record is dispatched once, queued or evicted as long as no section of
  `update` misses its callback (`received_accounted`).

The reader looks again inside `defer_message`, so no record is queued behind a
registered callback.  Nothing looks again inside `update`.
-/
import SignalR.Callbacks
import SignalR.Completions

namespace SignalR

open Transition

variable {V : Type}

/-! ### Records and the sections that take them -/

/-- The invocation that a record holds. -/
def RawMessage.invocation (S : Serde) (m : RawMessage) : Option Invocation :=
  match m.messageType with
  | .invocation => (deserialize S Invocation.decode m.bytes m.protocol).toOption
  | _ => none

theorem RawMessage.invocation_eq_some {S : Serde} {m : RawMessage} {invocation : Invocation}
    (h : m.invocation S = some invocation) :
    m.messageType = .invocation ∧
      deserialize S Invocation.decode m.bytes m.protocol = .ok invocation := by
  rw [RawMessage.invocation] at h
  split at h
  · rename_i hm
    rcases hd : deserialize S Invocation.decode m.bytes m.protocol with e | x
    · simp [hd, Except.toOption] at h
    · obtain rfl : x = invocation := by simpa [hd, Except.toOption] using h
      exact ⟨hm, rfl⟩
  · simp at h

/-- The call of a callback that an effect is. -/
def Effect.callbackCall : Effect V → Option (Nat × Invocation)
  | .called callback invocation => some (callback, invocation)
  | _ => none

namespace Storage

variable {S : Serde} {s : Storage V} {key k : String} {m : RawMessage}

/-- The callback that a section of `update` calls. -/
def callbackAt (s : Storage V) (key : String) : Option CallbackAction :=
  if s.poisoned then none
  else
    match s.get key with
    | some (.callback a) => some a
    | _ => none

/-- The messages deferred for a target. -/
def queue (s : Storage V) (key : String) : List RawMessage :=
  (s.deferredMessages.lookup key).getD []

/-- The first section of `replay_deferred`, which takes the queue out. -/
def takeDeferred (s : Storage V) (key : String) : Storage V :=
  { s with deferredMessages := s.deferredMessages.erase key }

/-- `replay_deferred` is its first section and the loop over the queue taken out. -/
theorem replayDeferred_eq_replay (S : Serde) (s : Storage V) (key : String) :
    s.replayDeferred S key = replay S key (s.queue key) (s.takeDeferred key) := by
  rw [replayDeferred, queue, takeDeferred]
  rcases h : s.deferredMessages.lookup key with - | messages
  · have hmem : key ∉ s.deferredMessages := AList.lookup_eq_none.mp h
    have herase : s.deferredMessages.erase key = s.deferredMessages := by
      apply AList.ext
      exact List.kerase_of_notMem_keys hmem
    rw [herase]
    rfl
  · rfl

/-- The oldest message, if it has to make room (`pushBounded`). -/
def evictedBy (capacity : Nat) (queue : List RawMessage) (m : RawMessage) : List RawMessage :=
  if (queue ++ [m]).length > capacity then (queue ++ [m]).take 1 else []

theorem evictedBy_append_pushBounded (capacity : Nat) (queue : List RawMessage)
    (m : RawMessage) :
    evictedBy capacity queue m ++ pushBounded capacity queue m = queue ++ [m] := by
  rw [evictedBy, pushBounded]
  split
  · rw [← List.drop_one]
    exact List.take_append_drop 1 _
  · rfl

/-- What the section of `defer_message` evicts. -/
def evicts (s : Storage V) (key : String) (m : RawMessage) : List RawMessage :=
  if s.poisoned = false ∧ s.get key = none then
    evictedBy s.deferredMessageCapacity (s.queue key) m
  else []

/-- The record that a section of `update` or `defer_message` dispatches, with the
callback registered at that time. -/
def dispatches (s : Storage V) (key : String) (m : RawMessage) :
    List (RawMessage × CallbackAction) :=
  (s.callbackAt key).toList.map fun a => (m, a)

/-! ### What a section does -/

theorem callbackAt_eq_some {a : CallbackAction} (h : s.callbackAt key = some a) :
    s.poisoned = false ∧ s.get key = some (.callback a) := by
  rw [callbackAt] at h
  split at h
  · simp at h
  · rename_i hp
    split at h
    · rename_i hget
      obtain rfl := Option.some.inj h
      exact ⟨by simpa using hp, hget⟩
    · simp at h

theorem queue_update (f : Action V → Heap V → Action V × Heap V × Outcome) :
    (s.update key f).1.queue k = s.queue k := by
  obtain ⟨action, -, -, hu⟩ | ⟨-, e, hu⟩ := s.update_cases key f
  · rw [hu]
    rfl
  · rw [hu]

theorem queue_insert (a : Action V) : (s.insert key a).queue k = s.queue k := by
  obtain ⟨-, -, hi⟩ | ⟨-, hi⟩ := s.insert_cases key a
  · rw [hi]
    rfl
  · rw [hi]
    rfl

theorem queue_remove : (s.remove key).queue k = s.queue k := by
  obtain ⟨action, -, -, hr⟩ | ⟨-, hr⟩ := s.remove_cases key
  · rw [hr]
    rfl
  · rw [hr]

theorem queue_takeDeferred : (s.takeDeferred key).queue key = [] := by
  show ((s.deferredMessages.erase key).lookup key).getD [] = []
  rw [AList.lookup_erase]
  rfl

/-- The calls of callbacks in the log. -/
def calls (s : Storage V) : List (Nat × Invocation) :=
  s.heap.log.filterMap Effect.callbackCall

/-- The calls that the dispatch of records stands for. -/
def callsOf (S : Serde) (dispatched : List (RawMessage × CallbackAction)) :
    List (Nat × Invocation) :=
  dispatched.filterMap fun d => (d.1.invocation S).map fun i => (d.2.callback.id, i)

theorem callsOf_append (d d' : List (RawMessage × CallbackAction)) :
    callsOf S (d ++ d') = callsOf S d ++ callsOf S d' :=
  List.filterMap_append

/-- A section of `update` calls exactly the callback it finds. -/
theorem calls_update {invocation : Invocation} (hm : m.invocation S = some invocation) :
    (s.update key (Action.updateWith S m)).1.calls
      = s.calls ++ callsOf S (s.dispatches key m) := by
  obtain ⟨htype, hdec⟩ := RawMessage.invocation_eq_some hm
  rw [update, dispatches, callbackAt]
  split
  · simp [callsOf]
  · rcases hget : s.get key with - | action
    · simp [callsOf]
    cases action with
    | invocation a =>
        simp [callsOf, calls, Action.updateWith, InvocationAction.updateWith, htype]
    | enumerable a =>
        simp [callsOf, calls, Action.updateWith, EnumerableAction.updateWith, htype]
    | callback a =>
        simp [callsOf, calls, Action.updateWith, CallbackAction.updateWith, htype, hdec, hm,
          Heap.call, Effect.callbackCall]

/-- The callback that a section of `update` finds decides whether it panics. -/
theorem update_outcome {a : CallbackAction} {invocation : Invocation}
    (h : s.callbackAt key = some a) (hm : m.invocation S = some invocation) :
    (s.update key (Action.updateWith S m)).2
      = if a.callback.panics invocation then .panic else .ok := by
  obtain ⟨hp, hget⟩ := callbackAt_eq_some h
  obtain ⟨htype, hdec⟩ := RawMessage.invocation_eq_some hm
  simp [update, hp, hget, Action.updateWith, CallbackAction.updateWith, htype, hdec]

/-- `defer_message` under a key with an action is a section of `update`. -/
theorem deferMessage_of_isSome (h : (s.get key).isSome) :
    (s.deferMessage S key m).1 = (s.update key (Action.updateWith S m)).1 := by
  obtain ⟨-, hd, -⟩ | ⟨-, hnone, -⟩ | ⟨hp, hd⟩ := s.deferMessage_cases S key m
  · exact hd
  · simp [hnone] at h
  · rw [hd, update, if_pos hp]

theorem calls_deferMessage {invocation : Invocation} (hm : m.invocation S = some invocation) :
    (s.deferMessage S key m).1.calls = s.calls ++ callsOf S (s.dispatches key m) := by
  rcases hget : s.get key with - | action
  · have hnone : s.dispatches key m = [] := by simp [dispatches, callbackAt, hget]
    rw [hnone, deferMessage]
    split
    · simp [callsOf]
    · simp [hget, callsOf, calls]
  · rw [deferMessage_of_isSome (by simp [hget]), calls_update hm]

/-- `defer_message` queues a record unless it finds an action or a poisoned mutex. -/
theorem queue_deferMessage : (s.deferMessage S key m).1.queue key
    = if s.poisoned = false ∧ s.get key = none then
        pushBounded s.deferredMessageCapacity (s.queue key) m
      else s.queue key := by
  by_cases hp : s.poisoned
  · simp [deferMessage, hp]
  rcases hget : s.get key with - | action
  · simp [deferMessage, hp, hget, queue]
  · rw [deferMessage_of_isSome (by simp [hget]), queue_update, if_neg]
    simp

theorem pushBounded_sublist (capacity : Nat) (queue : List RawMessage) (m : RawMessage) :
    (pushBounded capacity queue m).Sublist (queue ++ [m]) := by
  rw [← evictedBy_append_pushBounded capacity queue m]
  exact List.sublist_append_right _ _

theorem mem_pushBounded {capacity : Nat} {queue : List RawMessage} {x : RawMessage}
    (h : x ∈ pushBounded capacity queue m) : x ∈ queue ∨ x = m := by
  have hmem : x ∈ queue ++ [m] := (pushBounded_sublist capacity queue m).subset h
  simpa using hmem

/-! ### A key under which only callbacks stand -/

/-- No pending call stands under the key. -/
def OnlyCallbacks (s : Storage V) (key : String) : Prop :=
  ∀ a, s.get key = some a → ∃ c, a = .callback c

theorem OnlyCallbacks.update (h : s.OnlyCallbacks key) (m : RawMessage) :
    (s.update key (Action.updateWith S m)).1.OnlyCallbacks key := by
  obtain ⟨action, -, hget, -⟩ | ⟨-, e, hu⟩ := s.update_cases key (Action.updateWith S m)
  · obtain ⟨c, rfl⟩ := h action hget
    intro a ha
    rw [get_update_callback key m hget] at ha
    exact ⟨c, (Option.some.inj ha).symm⟩
  · rw [hu]
    exact h

theorem OnlyCallbacks.deferMessage (h : s.OnlyCallbacks key) (m : RawMessage) :
    (s.deferMessage S key m).1.OnlyCallbacks key := by
  obtain ⟨-, hd, -⟩ | ⟨-, -, hd⟩ | ⟨-, hd⟩ := s.deferMessage_cases S key m
  · rw [hd]
    exact h.update m
  · rw [hd]
    exact h
  · rw [hd]
    exact h

theorem OnlyCallbacks.insert (h : s.OnlyCallbacks key) (c : CallbackAction) :
    (s.insert key (.callback c)).OnlyCallbacks key := by
  intro a ha
  obtain ⟨-, -, hi⟩ | ⟨-, hi⟩ := s.insert_cases key (.callback c)
  · rw [hi] at ha
    have hself : (s.data.insert key (.callback c)).lookup key = some a := ha
    rw [AList.lookup_insert] at hself
    exact ⟨c, (Option.some.inj hself).symm⟩
  · rw [hi] at ha
    exact h a ha

theorem OnlyCallbacks.remove (h : s.OnlyCallbacks key) : (s.remove key).OnlyCallbacks key := by
  obtain ⟨action, hp, -, -⟩ | ⟨-, hr⟩ := s.remove_cases key
  · intro a ha
    rw [get_remove_self s key hp] at ha
    simp at ha
  · rw [hr]
    exact h

/-- Callbacks come and go without a call. -/
theorem calls_insert_callback (c : CallbackAction) :
    (s.insert key (.callback c)).calls = s.calls := by
  obtain ⟨-, -, hi⟩ | ⟨-, hi⟩ := s.insert_cases key (.callback c)
  · rw [hi]
    rfl
  · rw [hi]
    rfl

theorem OnlyCallbacks.calls_remove (h : s.OnlyCallbacks key) :
    (s.remove key).calls = s.calls := by
  obtain ⟨action, -, hget, hr⟩ | ⟨-, hr⟩ := s.remove_cases key
  · obtain ⟨c, rfl⟩ := h action hget
    rw [hr]
    rfl
  · rw [hr]

end Storage

/-! ### The reader and the register calls -/

/-- Where the reader stands in `process_message`. -/
inductive Deliveries.ReaderPc
  | idle
  /-- Before `contains`. -/
  | looking (m : RawMessage)
  /-- Before `update`. -/
  | updating (m : RawMessage)
  /-- Before `defer_message`. -/
  | deferring (m : RawMessage)
  /-- A callback has panicked, and the task with it. -/
  | panicked
  deriving DecidableEq

/-- Where a register call stands in `add_callback`. -/
inductive Deliveries.RegisterPc
  /-- Before `replay_deferred`. -/
  | inserted
  /-- In the loop of `replay_deferred`; with nothing left the call has returned. -/
  | replaying (rest : List RawMessage)
  /-- The handle has been used, or the call has panicked. -/
  | over

/-- A storage, the reader that passes it the records of one target, and the register
calls for that target, by number.  `received`, `dispatched` and `evicted` are ghost
fields: what the reader has received, what has been dispatched to which callback, and
what has been evicted from the queue. -/
structure Deliveries (V : Type) where
  store : Storage V
  reader : Deliveries.ReaderPc
  registers : List Deliveries.RegisterPc
  received : List RawMessage
  dispatched : List (RawMessage × CallbackAction)
  evicted : List RawMessage

/-- The sections of the reader (with the record, or on the one in its hands) and of the
register call or handle with a given number. -/
inductive DeliveryLabel
  | receive (m : RawMessage)
  | contains
  | update
  | deferMessage
  | insert (callback : Callback)
  | takeDeferred (call : Nat)
  | replay (call : Nat)
  | unregister (call : Nat)

namespace Deliveries

/-- A new storage, and a reader that waits for a record. -/
def init (capacity : Nat) : Deliveries V where
  store := .newWithDeferredMessageCapacity capacity
  reader := .idle
  registers := []
  received := []
  dispatched := []
  evicted := []

section Sections

variable (S : Serde) (target : String) (s : Deliveries V)

/-- A record arrives. -/
def receive (m : RawMessage) : Deliveries V :=
  { s with reader := .looking m, received := s.received ++ [m] }

/-- `process_message` looks for a callback. -/
def contains (m : RawMessage) : Deliveries V :=
  { s with reader := if s.store.contains target then .updating m else .deferring m }

/-- Where the reader goes on after a section that ends with an outcome. -/
def readerAfter : Outcome → ReaderPc
  | .panic => .panicked
  | _ => .idle

/-- `process_message` dispatches the record it has found a callback for. -/
def update (m : RawMessage) : Deliveries V :=
  { s with
    store := (s.store.update target (Action.updateWith S m)).1
    reader := readerAfter (s.store.update target (Action.updateWith S m)).2
    dispatched := s.dispatched ++ s.store.dispatches target m }

/-- `process_message` defers the record it has found no callback for. -/
def deferMessage (m : RawMessage) : Deliveries V :=
  { s with
    store := (s.store.deferMessage S target m).1
    reader := readerAfter (s.store.deferMessage S target m).2
    dispatched := s.dispatched ++ s.store.dispatches target m
    evicted := s.evicted ++ s.store.evicts target m }

/-- `add_callback` inserts its callback. -/
def insert (callback : Callback) : Deliveries V :=
  { s with
    store := s.store.insert target (.callback { target, callback })
    registers := s.registers ++ [.inserted] }

/-- `replay_deferred` takes the queue out. -/
def takeDeferred (call : Nat) : Deliveries V :=
  { s with
    store := s.store.takeDeferred target
    registers := s.registers.set call (.replaying (s.store.queue target)) }

/-- Where a register call goes on after a section that ends with an outcome. -/
def registerAfter (rest : List RawMessage) : Outcome → RegisterPc
  -- unwinding drops what is still to replay
  | .panic => .over
  | _ => .replaying rest

/-- `replay_deferred` replays a record. -/
def replay (call : Nat) (m : RawMessage) (rest : List RawMessage) : Deliveries V :=
  { s with
    store := (s.store.update target (Action.updateWith S m)).1
    registers := s.registers.set call
      (registerAfter rest (s.store.update target (Action.updateWith S m)).2)
    dispatched := s.dispatched ++ s.store.dispatches target m }

/-- `StorageUnregistrationHandler::unregister`. -/
def unregister (call : Nat) : Deliveries V :=
  { s with
    store := s.store.remove target
    registers := s.registers.set call .over }

/-- One section.  Only records of the target arrive, and a register call returns its
handle when it has replayed everything. -/
def step : DeliveryLabel → Option (Deliveries V)
  | .receive m =>
      if s.reader = .idle ∧ (m.invocation S).map Invocation.target = some target then
        some (s.receive m)
      else none
  | .contains =>
      match s.reader with
      | .looking m => some (s.contains target m)
      | _ => none
  | .update =>
      match s.reader with
      | .updating m => some (s.update S target m)
      | _ => none
  | .deferMessage =>
      match s.reader with
      | .deferring m => some (s.deferMessage S target m)
      | _ => none
  | .insert callback => some (s.insert target callback)
  | .takeDeferred call =>
      match s.registers[call]? with
      | some .inserted => some (s.takeDeferred target call)
      | _ => none
  | .replay call =>
      match s.registers[call]? with
      | some (.replaying (m :: rest)) => some (s.replay S target call m rest)
      | _ => none
  | .unregister call =>
      match s.registers[call]? with
      | some (.replaying []) => some (s.unregister target call)
      | _ => none

end Sections

variable {S : Serde} {target : String} {s t : Deliveries V} {l : DeliveryLabel}

/-- A step is one of the sections, taken by a party that stands before it. -/
theorem step_cases {motive : DeliveryLabel → Deliveries V → Prop}
    (h : s.step S target l = some t)
    (receive : ∀ m invocation, s.reader = .idle → m.invocation S = some invocation →
      motive (.receive m) (s.receive m))
    (contains : ∀ m, s.reader = .looking m → motive .contains (s.contains target m))
    (update : ∀ m, s.reader = .updating m → motive .update (s.update S target m))
    (deferMessage : ∀ m, s.reader = .deferring m →
      motive .deferMessage (s.deferMessage S target m))
    (insert : ∀ callback, motive (.insert callback) (s.insert target callback))
    (takeDeferred : ∀ k, s.registers[k]? = some .inserted →
      motive (.takeDeferred k) (s.takeDeferred target k))
    (replay : ∀ k m rest, s.registers[k]? = some (.replaying (m :: rest)) →
      motive (.replay k) (s.replay S target k m rest))
    (unregister : ∀ k, s.registers[k]? = some (.replaying []) →
      motive (.unregister k) (s.unregister target k)) : motive l t := by
  cases l with
  | receive m =>
      simp only [step] at h
      split at h
      · rename_i hidle
        obtain rfl := Option.some.inj h
        obtain ⟨invocation, hm, -⟩ := Option.map_eq_some_iff.mp hidle.2
        exact receive m invocation hidle.1 hm
      · simp at h
  | insert callback =>
      obtain rfl := Option.some.inj h
      exact insert callback
  | contains | update | deferMessage | takeDeferred | replay | unregister =>
      simp only [step] at h
      split at h
      · rename_i hpc
        obtain rfl := Option.some.inj h
        first
          | exact contains _ hpc
          | exact update _ hpc
          | exact deferMessage _ hpc
          | exact takeDeferred _ hpc
          | exact replay _ _ _ hpc
          | exact unregister _ hpc
      · simp at h

/-! ### The operations, section by section -/

/-- The sections of the reader, one after the other, are `process_message`. -/
theorem reaches_processMessage {m : RawMessage} {invocation : Invocation}
    (hidle : s.reader = .idle) (hm : m.invocation S = some invocation)
    (htarget : invocation.target = target) :
    ∃ t, Reaches (step S target) free s t ∧ t.store = (s.store.processMessage S m).1 := by
  have hreceive : s.step S target (.receive m) = some (s.receive m) :=
    if_pos ⟨hidle, by rw [hm, ← htarget]; rfl⟩
  obtain ⟨htype, hdec⟩ := RawMessage.invocation_eq_some hm
  subst htarget
  rw [Storage.processMessage]
  simp only [htype, hdec]
  by_cases hcontains : s.store.contains invocation.target
  · have hlook : (s.receive m).step S invocation.target .contains
        = some { s.receive m with reader := .updating m } := by
      simp [step, receive, contains, hcontains]
    rw [if_pos hcontains]
    exact ⟨_, .head _ trivial hreceive
      (.head _ trivial hlook (.head .update trivial rfl (.refl _))), rfl⟩
  · have hlook : (s.receive m).step S invocation.target .contains
        = some { s.receive m with reader := .deferring m } := by
      simp [step, receive, contains, hcontains]
    rw [if_neg hcontains]
    exact ⟨_, .head _ trivial hreceive
      (.head _ trivial hlook (.head .deferMessage trivial rfl (.refl _))), rfl⟩

/-- The steps of a replay, one after the other, are the loop of `replay_deferred`. -/
theorem reaches_replay (S : Serde) (target : String) {k : Nat} (rest : List RawMessage)
    (h : s.registers[k]? = some (.replaying rest)) :
    ∃ t, Reaches (step S target) free s t ∧ t.store = (Storage.replay S target rest s.store).1 := by
  induction rest generalizing s with
  | nil => exact ⟨s, .refl s, rfl⟩
  | cons m rest ih =>
      obtain ⟨hk, -⟩ := List.getElem?_eq_some_iff.mp h
      have hstep : s.step S target (.replay k) = some (s.replay S target k m rest) := by
        simp [step, h]
      have hstore : (s.replay S target k m rest).store
          = (s.store.update target (Action.updateWith S m)).1 := rfl
      have hpc : (s.replay S target k m rest).registers[k]?
          = some (registerAfter rest (s.store.update target (Action.updateWith S m)).2) := by
        simp [replay, hk]
      rw [Storage.replay]
      rcases hu : s.store.update target (Action.updateWith S m) with ⟨u, o⟩
      rw [hu] at hstore hpc
      by_cases ho : o = .panic
      · subst ho
        exact ⟨_, .head _ trivial hstep (.refl _), hstore⟩
      · have hafter : registerAfter rest o = .replaying rest := by
          cases o <;> simp_all [registerAfter]
        rw [hafter] at hpc
        obtain ⟨t, hrun, ht⟩ := ih hpc
        refine ⟨t, .head _ trivial hstep hrun, ?_⟩
        rw [ht, hstore]
        cases o <;> simp_all

/-- The sections of a register call, one after the other, are `add_callback`. -/
theorem reaches_addCallback (callback : Callback) :
    ∃ t, Reaches (step S target) free s t ∧
      t.store = (s.store.addCallback S target callback).1 := by
  have hpc : (s.insert target callback).registers[s.registers.length]? = some .inserted := by
    simp [insert]
  have htake : (s.insert target callback).step S target (.takeDeferred s.registers.length)
      = some ((s.insert target callback).takeDeferred target s.registers.length) := by
    simp [step, hpc]
  have hreplaying : ((s.insert target callback).takeDeferred target
      s.registers.length).registers[s.registers.length]?
      = some (.replaying ((s.insert target callback).store.queue target)) := by
    simp [takeDeferred, insert]
  obtain ⟨t, hrun, ht⟩ := reaches_replay S target _ hreplaying
  refine ⟨t, .head (.insert callback) trivial rfl (.head _ trivial htake hrun), ?_⟩
  rw [ht, Storage.addCallback, Storage.replayDeferred_eq_replay]
  rfl

/-! ### What every run keeps -/

/-- The record in the hands of the reader. -/
def ReaderPc.held : ReaderPc → List RawMessage
  | .looking m | .updating m | .deferring m => [m]
  | .idle | .panicked => []

/-- The records that a register call has still to replay. -/
def RegisterPc.held : RegisterPc → List RawMessage
  | .replaying rest => rest
  | .inserted | .over => []

/-- The records that are still to replay. -/
def inReplay (s : Deliveries V) : List RawMessage :=
  s.registers.flatMap RegisterPc.held

@[simp] theorem held_readerAfter (o : Outcome) : (readerAfter o).held = [] := by
  cases o <;> rfl

theorem held_contains {m : RawMessage} (h : s.reader = .looking m) :
    (s.contains target m).reader.held = s.reader.held := by
  rw [h, contains]
  split <;> rfl

theorem held_registerAfter (rest : List RawMessage) (o : Outcome) :
    (registerAfter rest o).held = if o = .panic then [] else rest := by
  cases o <;> rfl

/-- The records on their way hold invocations, only callbacks stand under the target,
and the callbacks called are those that records were dispatched to. -/
structure Inv (S : Serde) (target : String) (s : Deliveries V) : Prop where
  reader : ∀ m ∈ s.reader.held, ∃ invocation, m.invocation S = some invocation
  registers : ∀ pc ∈ s.registers, ∀ m ∈ pc.held, ∃ invocation, m.invocation S = some invocation
  queue : ∀ m ∈ s.store.queue target, ∃ invocation, m.invocation S = some invocation
  callbacks : s.store.OnlyCallbacks target
  calls : s.store.calls = Storage.callsOf S s.dispatched

theorem Inv.registers_set (hi : Inv S target s) {pc : RegisterPc} (k : Nat)
    (hpc : ∀ m ∈ pc.held, ∃ invocation, m.invocation S = some invocation) :
    ∀ pc' ∈ s.registers.set k pc, ∀ m ∈ pc'.held,
      ∃ invocation, m.invocation S = some invocation := by
  intro pc' hmem
  rcases List.mem_or_eq_of_mem_set hmem with hold | rfl
  · exact hi.registers pc' hold
  · exact hpc

theorem Inv.step (hi : Inv S target s) (hst : s.step S target l = some t) : Inv S target t := by
  refine step_cases (motive := fun _ t => Inv S target t) hst
    ?receive ?contains ?update ?deferMessage ?insert ?takeDeferred ?replay ?unregister
  case receive =>
    intro m invocation _ hm
    refine ⟨?_, hi.registers, hi.queue, hi.callbacks, hi.calls⟩
    intro m' hm'
    obtain rfl := List.mem_singleton.mp hm'
    exact ⟨invocation, hm⟩
  case contains =>
    intro m hpc
    refine ⟨?_, hi.registers, hi.queue, hi.callbacks, hi.calls⟩
    rw [held_contains hpc]
    exact hi.reader
  case update =>
    intro m hpc
    obtain ⟨invocation, hm⟩ := hi.reader m (by simp [hpc, ReaderPc.held])
    refine ⟨by simp [update], hi.registers, ?_, hi.callbacks.update m, ?_⟩
    · show ∀ m' ∈ (s.store.update target _).1.queue target, _
      rw [Storage.queue_update]
      exact hi.queue
    · show (s.store.update target _).1.calls = Storage.callsOf S (s.dispatched ++ _)
      rw [Storage.calls_update hm, hi.calls, Storage.callsOf_append]
  case deferMessage =>
    intro m hpc
    obtain ⟨invocation, hm⟩ := hi.reader m (by simp [hpc, ReaderPc.held])
    refine ⟨by simp [deferMessage], hi.registers, ?_, hi.callbacks.deferMessage m, ?_⟩
    · show ∀ m' ∈ (s.store.deferMessage S target m).1.queue target, _
      rw [Storage.queue_deferMessage]
      intro m' hm'
      split at hm'
      · rcases Storage.mem_pushBounded hm' with hold | rfl
        · exact hi.queue m' hold
        · exact ⟨invocation, hm⟩
      · exact hi.queue m' hm'
    · show (s.store.deferMessage S target m).1.calls = Storage.callsOf S (s.dispatched ++ _)
      rw [Storage.calls_deferMessage hm, hi.calls, Storage.callsOf_append]
  case insert =>
    intro callback
    refine ⟨hi.reader, ?_, ?_, hi.callbacks.insert _, ?_⟩
    · intro pc hpc
      rcases List.mem_append.mp hpc with hold | hnew
      · exact hi.registers pc hold
      · obtain rfl := List.mem_singleton.mp hnew
        simp [RegisterPc.held]
    · show ∀ m' ∈ (s.store.insert target _).queue target, _
      rw [Storage.queue_insert]
      exact hi.queue
    · show (s.store.insert target _).calls = _
      rw [Storage.calls_insert_callback, hi.calls]
      rfl
  case takeDeferred =>
    intro k _
    refine ⟨hi.reader, hi.registers_set k hi.queue, ?_, hi.callbacks, hi.calls⟩
    show ∀ m' ∈ (s.store.takeDeferred target).queue target, _
    simp [Storage.queue_takeDeferred]
  case replay =>
    intro k m rest hpc
    have hheld := hi.registers _ (List.mem_of_getElem? hpc)
    obtain ⟨invocation, hm⟩ := hheld m (by simp [RegisterPc.held])
    refine ⟨hi.reader, hi.registers_set k ?_, ?_, hi.callbacks.update m, ?_⟩
    · intro m' hm'
      rw [held_registerAfter] at hm'
      split at hm'
      · simp at hm'
      · exact hheld m' (List.mem_cons_of_mem _ hm')
    · show ∀ m' ∈ (s.store.update target _).1.queue target, _
      rw [Storage.queue_update]
      exact hi.queue
    · show (s.store.update target _).1.calls = Storage.callsOf S (s.dispatched ++ _)
      rw [Storage.calls_update hm, hi.calls, Storage.callsOf_append]
  case unregister =>
    intro k _
    refine ⟨hi.reader, hi.registers_set k (by simp [RegisterPc.held]), ?_,
      hi.callbacks.remove, ?_⟩
    · show ∀ m' ∈ (s.store.remove target).queue target, _
      rw [Storage.queue_remove]
      exact hi.queue
    · show (s.store.remove target).calls = _
      rw [hi.callbacks.calls_remove, hi.calls]
      rfl

/-- **The run lemma.** -/
theorem inv_of_reaches {C : Deliveries V → DeliveryLabel → Prop} {capacity : Nat}
    (h : Reaches (step S target) C (init capacity) s) : Inv S target s := by
  refine Reaches.invariant h ?_ fun s l t hi _ hst => hi.step hst
  refine ⟨by simp [init, ReaderPc.held], by simp [init], ?_, ?_, rfl⟩
  · intro m hm
    simp [init, Storage.queue, Storage.newWithDeferredMessageCapacity] at hm
  · intro a ha
    simp [init, Storage.get, Storage.newWithDeferredMessageCapacity] at ha

/-! ### The order of delivery -/

/-- The records dispatched. -/
def delivered (s : Deliveries V) : List RawMessage :=
  s.dispatched.map Prod.fst

/-- One register call is made, and its handle is kept. -/
def OneCall (s : Deliveries V) : DeliveryLabel → Prop
  | .insert _ => s.registers = []
  | .unregister _ => False
  | _ => True

/-- Besides, the reader dispatches a record only when no older one is still to be
replayed. -/
def OldestFirst (target : String) (s : Deliveries V) (l : DeliveryLabel) : Prop :=
  s.OneCall l ∧
    match l with
    | .update | .deferMessage =>
        s.store.callbackAt target ≠ none → s.inReplay = [] ∧ s.store.queue target = []
    | _ => True

/-- The records on their way are younger than those dispatched, and follow each other in
the order of their arrival. -/
structure InOrder (target : String) (s : Deliveries V) : Prop where
  single : s.registers.length ≤ 1
  records : (s.delivered ++ s.inReplay ++ s.store.queue target ++ s.reader.held).Sublist
    s.received

theorem delivered_append_of_none {m : RawMessage} (h : s.store.callbackAt target = none) :
    (s.dispatched ++ s.store.dispatches target m).map Prod.fst = s.delivered := by
  simp [delivered, Storage.dispatches, h]

theorem delivered_append_of_some {m : RawMessage} {a : CallbackAction}
    (h : s.store.callbackAt target = some a) :
    (s.dispatched ++ s.store.dispatches target m).map Prod.fst = s.delivered ++ [m] := by
  simp [delivered, Storage.dispatches, h]

/-- The only register call. -/
theorem registers_eq_singleton (h : s.registers.length ≤ 1) {k : Nat} {pc : RegisterPc}
    (hpc : s.registers[k]? = some pc) : s.registers = [pc] ∧ k = 0 := by
  obtain ⟨hk, hget⟩ := List.getElem?_eq_some_iff.mp hpc
  obtain rfl : k = 0 := by omega
  obtain ⟨x, hx⟩ := List.length_eq_one_iff.mp (Nat.le_antisymm h hk)
  simp only [hx, List.getElem_cons_zero] at hget
  exact ⟨by rw [hx, hget], rfl⟩

theorem InOrder.step (hi : InOrder target s) (hallowed : OldestFirst target s l)
    (hst : s.step S target l = some t) : InOrder target t := by
  obtain ⟨hone, hrec⟩ := hi
  revert hallowed
  refine step_cases (motive := fun l t => OldestFirst target s l → InOrder target t) hst
    ?receive ?contains ?update ?deferMessage ?insert ?takeDeferred ?replay ?unregister
  case receive =>
    intro m invocation hpc _ _
    refine ⟨hone, ?_⟩
    show (s.delivered ++ s.inReplay ++ s.store.queue target ++ [m]).Sublist (s.received ++ [m])
    apply List.Sublist.append_right
    simpa [hpc, ReaderPc.held] using hrec
  case contains =>
    intro m hpc _
    refine ⟨hone, ?_⟩
    show (s.delivered ++ s.inReplay ++ s.store.queue target
      ++ (s.contains target m).reader.held).Sublist s.received
    rw [held_contains hpc]
    exact hrec
  case update =>
    intro m hpc hallowed
    refine ⟨hone, ?_⟩
    rw [hpc] at hrec
    show ((s.dispatched ++ s.store.dispatches target m).map Prod.fst ++ s.inReplay
      ++ (s.store.update target _).1.queue target ++ (readerAfter _).held).Sublist s.received
    rw [Storage.queue_update, held_readerAfter, List.append_nil]
    rcases hcb : s.store.callbackAt target with - | a
    · rw [delivered_append_of_none hcb]
      exact (List.sublist_append_left _ _).trans hrec
    · obtain ⟨hreplay, hqueue⟩ := hallowed.2 (by simp [hcb])
      rw [delivered_append_of_some hcb, hreplay, hqueue]
      simpa [hreplay, hqueue, ReaderPc.held] using hrec
  case deferMessage =>
    intro m hpc hallowed
    refine ⟨hone, ?_⟩
    rw [hpc] at hrec
    show ((s.dispatched ++ s.store.dispatches target m).map Prod.fst ++ s.inReplay
      ++ (s.store.deferMessage S target m).1.queue target ++ (readerAfter _).held).Sublist
      s.received
    rw [Storage.queue_deferMessage, held_readerAfter, List.append_nil]
    rcases hcb : s.store.callbackAt target with - | a
    · rw [delivered_append_of_none hcb]
      refine List.Sublist.trans ?_ hrec
      rw [List.append_assoc _ (s.store.queue target)]
      apply List.Sublist.append_left
      split
      · exact Storage.pushBounded_sublist ..
      · exact List.sublist_append_left _ _
    · obtain ⟨hreplay, hqueue⟩ := hallowed.2 (by simp [hcb])
      rw [delivered_append_of_some hcb, hreplay, hqueue]
      simpa [hreplay, hqueue, ReaderPc.held, (Storage.callbackAt_eq_some hcb).2] using hrec
  case insert =>
    intro callback hallowed
    have hnone : s.registers = [] := hallowed.1
    refine ⟨by simp [insert, hnone], ?_⟩
    show (s.delivered ++ (s.registers ++ [RegisterPc.inserted]).flatMap RegisterPc.held
      ++ (s.store.insert target _).queue target ++ s.reader.held).Sublist s.received
    rw [Storage.queue_insert, List.flatMap_append]
    simpa [inReplay, RegisterPc.held] using hrec
  case takeDeferred =>
    intro k hpc _
    obtain ⟨hreg, rfl⟩ := registers_eq_singleton hone hpc
    refine ⟨by simp [takeDeferred, hreg], ?_⟩
    -- the queue moves from the storage into the hands of the call
    show (s.delivered ++ (s.registers.set 0 _).flatMap RegisterPc.held
      ++ (s.store.takeDeferred target).queue target ++ s.reader.held).Sublist s.received
    rw [Storage.queue_takeDeferred]
    simpa [inReplay, hreg, RegisterPc.held] using hrec
  case replay =>
    intro k m rest hpc _
    obtain ⟨hreg, rfl⟩ := registers_eq_singleton hone hpc
    refine ⟨by simp [replay, hreg], ?_⟩
    have hreplay : s.inReplay = m :: rest := by simp [inReplay, hreg, RegisterPc.held]
    rw [hreplay] at hrec
    show ((s.dispatched ++ s.store.dispatches target m).map Prod.fst
      ++ (s.registers.set 0 _).flatMap RegisterPc.held
      ++ (s.store.update target _).1.queue target ++ s.reader.held).Sublist s.received
    rw [Storage.queue_update]
    refine List.Sublist.trans ?_ hrec
    apply List.Sublist.append_right
    apply List.Sublist.append_right
    rw [hreg, List.set_cons_zero, List.flatMap_singleton]
    have hrest : (registerAfter rest (s.store.update target (Action.updateWith S m)).2).held.Sublist
        rest := by
      rw [held_registerAfter]
      split
      · exact List.nil_sublist _
      · exact .refl _
    rcases hcb : s.store.callbackAt target with - | a
    · rw [delivered_append_of_none hcb]
      apply List.Sublist.append_left
      exact hrest.cons m
    · rw [delivered_append_of_some hcb, List.append_assoc]
      apply List.Sublist.append_left
      exact hrest.cons_cons m
  case unregister =>
    intro k _ hallowed
    exact hallowed.1.elim

/-- **Delivery in the order of arrival.**  In every run with one register call, if the
reader dispatches a record only when no older one is still to be replayed, the callback
is called for records in the order in which they were received. -/
theorem dispatched_in_order {capacity : Nat}
    (h : Reaches (step S target) (OldestFirst target) (init capacity) s) :
    s.store.calls = Storage.callsOf S s.dispatched ∧ s.delivered.Sublist s.received := by
  refine ⟨(inv_of_reaches h).calls, ?_⟩
  have hi : InOrder target s := by
    refine Reaches.invariant h ⟨Nat.zero_le 1, ?_⟩ fun s l t hi hallowed hst => hi.step hallowed hst
    exact List.Sublist.refl []
  have hrec := hi.records
  rw [List.append_assoc, List.append_assoc] at hrec
  exact (List.sublist_append_left _ _).trans hrec

/-- Two records for `tick`. -/
def tickSerde : Serde :=
  .ofTable []
    [([1], .obj [("type", .int 1), ("target", .str "tick"), ("arguments", .arr [.int 1])]),
      ([2], .obj [("type", .int 1), ("target", .str "tick"), ("arguments", .arr [.int 2])])]

/-- The record with a given body. -/
def tick (body : UInt8) : RawMessage :=
  { bytes := [body], messageType := .invocation, protocol := .messagePack }

theorem dispatched_in_order_tick :
    ∃ s : Deliveries Int, s.delivered = [tick 1, tick 2] ∧
      s.store.calls = Storage.callsOf tickSerde s.dispatched ∧
      s.delivered.Sublist s.received := by
  have hrun : Reaches (step tickSerde "tick") (OldestFirst "tick") (init (V := Int) 8) _ :=
    .head (.receive (tick 1)) ⟨trivial, trivial⟩ rfl <|
    .head .contains ⟨trivial, trivial⟩ rfl <|
    .head (.insert idleCallback) ⟨rfl, trivial⟩ rfl <|
    -- the callback has been inserted since `contains`
    .head .deferMessage ⟨trivial, fun _ => ⟨rfl, rfl⟩⟩ rfl <|
    .head (.takeDeferred 0) ⟨trivial, trivial⟩ rfl <|
    .head (.receive (tick 2)) ⟨trivial, trivial⟩ rfl <|
    .head .contains ⟨trivial, trivial⟩ rfl <|
    .head .update ⟨trivial, fun _ => ⟨rfl, rfl⟩⟩ rfl <|
    .refl _
  exact ⟨_, rfl, dispatched_in_order hrun⟩

/-- A record dispatched between the insertion of the callback and the replay overtakes
the one that waits in the queue. -/
theorem younger_record_overtakes :
    ∃ s : Deliveries Int, Reaches (step tickSerde "tick") OneCall (init 8) s ∧
      s.received = [tick 1, tick 2] ∧ s.delivered = [tick 2, tick 1] ∧
      s.store.calls = Storage.callsOf tickSerde s.dispatched ∧
      ¬ s.delivered.Sublist s.received := by
  have hrun : Reaches (step tickSerde "tick") OneCall (init (V := Int) 8) _ :=
    .head (.receive (tick 1)) trivial rfl <|
    .head .contains trivial rfl <|
    .head .deferMessage trivial rfl <|
    .head (.insert idleCallback) rfl rfl <|
    .head (.receive (tick 2)) trivial rfl <|
    .head .contains trivial rfl <|
    .head .update trivial rfl <|
    .head (.takeDeferred 0) trivial rfl <|
    .head (.replay 0) trivial rfl <|
    .refl _
  refine ⟨_, hrun, rfl, rfl, rfl, ?_⟩
  show ¬ [tick 2, tick 1].Sublist [tick 1, tick 2]
  decide

/-! ### The account of the records -/

/-- No section of `update` misses its callback, `defer_message` can lock the map, and a
callback that panics in a replay panics on the last record of it. -/
def NoneMissed (S : Serde) (target : String) (s : Deliveries V) : DeliveryLabel → Prop
  | .update => s.store.callbackAt target ≠ none
  | .deferMessage => s.store.poisoned = false
  | .replay k =>
      ∃ a, s.store.callbackAt target = some a ∧
        ∀ m rest invocation, s.registers[k]? = some (.replaying (m :: rest)) →
          m.invocation S = some invocation → a.callback.panics invocation = true → rest = []
  | _ => True

/-- Every record received has been dispatched or evicted, or is in the queue, or on its
way in the hands of a register call or of the reader. -/
def Accounted (target : String) (s : Deliveries V) : Prop :=
  ∀ m, s.received.count m = s.delivered.count m + (s.store.queue target).count m
    + s.evicted.count m + s.inReplay.count m + s.reader.held.count m

/-- The records in the hands of the other calls stay there. -/
theorem count_flatMap_set {registers : List RegisterPc} {k : Nat} {pc : RegisterPc}
    (h : registers[k]? = some pc) (pc' : RegisterPc) (m : RawMessage) :
    ((registers.set k pc').flatMap RegisterPc.held).count m + pc.held.count m
      = (registers.flatMap RegisterPc.held).count m + pc'.held.count m := by
  obtain ⟨hk, hget⟩ := List.getElem?_eq_some_iff.mp h
  obtain ⟨before, after, hl, -, hset⟩ : ∃ before after,
      registers = before ++ registers[k] :: after ∧ before.length = k ∧
        registers.set k pc' = before ++ pc' :: after := List.exists_of_set hk
  rw [hget] at hl
  rw [hset, hl]
  simp only [List.flatMap_append, List.flatMap_cons, List.count_append]
  omega

theorem Accounted.step (hinv : Inv S target s) (hi : Accounted target s)
    (hallowed : NoneMissed S target s l) (hst : s.step S target l = some t) :
    Accounted target t := by
  revert hallowed
  refine step_cases (motive := fun l t => NoneMissed S target s l → Accounted target t) hst
    ?receive ?contains ?update ?deferMessage ?insert ?takeDeferred ?replay ?unregister
  case receive =>
    intro m invocation hpc _ _ x
    have hx := hi x
    rw [hpc] at hx
    show (s.received ++ [m]).count x = s.delivered.count x + (s.store.queue target).count x
      + s.evicted.count x + s.inReplay.count x + [m].count x
    rw [List.count_append, hx]
    rfl
  case contains =>
    intro m hpc _ x
    show s.received.count x = s.delivered.count x + (s.store.queue target).count x
      + s.evicted.count x + s.inReplay.count x + (s.contains target m).reader.held.count x
    rw [held_contains hpc]
    exact hi x
  case update =>
    intro m hpc hallowed x
    have hx := hi x
    rw [hpc] at hx
    obtain ⟨a, hcb⟩ := Option.ne_none_iff_exists'.mp hallowed
    show s.received.count x
      = ((s.dispatched ++ s.store.dispatches target m).map Prod.fst).count x
        + ((s.store.update target _).1.queue target).count x + s.evicted.count x
        + s.inReplay.count x + (readerAfter _).held.count x
    rw [delivered_append_of_some hcb, Storage.queue_update, held_readerAfter, hx]
    simp only [List.count_append, ReaderPc.held, List.count_nil]
    omega
  case deferMessage =>
    intro m hpc hallowed x
    have hx := hi x
    rw [hpc] at hx
    show s.received.count x
      = ((s.dispatched ++ s.store.dispatches target m).map Prod.fst).count x
        + ((s.store.deferMessage S target m).1.queue target).count x
        + (s.evicted ++ s.store.evicts target m).count x
        + s.inReplay.count x + (readerAfter _).held.count x
    rw [Storage.queue_deferMessage, held_readerAfter, List.count_append, Storage.evicts]
    have hp : s.store.poisoned = false := hallowed
    rcases hget : s.store.get target with - | action
    · have hcb : s.store.callbackAt target = none := by simp [Storage.callbackAt, hget]
      have hqueue := congrArg (List.count x) (Storage.evictedBy_append_pushBounded
        s.store.deferredMessageCapacity (s.store.queue target) m)
      rw [delivered_append_of_none hcb, if_pos ⟨hp, rfl⟩, if_pos ⟨hp, rfl⟩]
      simp only [List.count_append, ReaderPc.held, List.count_nil] at hqueue hx ⊢
      omega
    · -- the callback has been inserted since `contains`
      obtain ⟨a, rfl⟩ := hinv.callbacks action hget
      have hcb : s.store.callbackAt target = some a := by simp [Storage.callbackAt, hget, hp]
      rw [delivered_append_of_some hcb, if_neg (by simp), if_neg (by simp)]
      simp only [List.count_append, ReaderPc.held, List.count_nil] at hx ⊢
      omega
  case insert =>
    intro callback _ x
    show s.received.count x = s.delivered.count x
      + ((s.store.insert target _).queue target).count x + s.evicted.count x
      + ((s.registers ++ [RegisterPc.inserted]).flatMap RegisterPc.held).count x
      + s.reader.held.count x
    rw [Storage.queue_insert, hi x, List.flatMap_append]
    simp [inReplay, RegisterPc.held]
  case takeDeferred =>
    intro k hpc _ x
    have hx := hi x
    have hset := count_flatMap_set hpc (.replaying (s.store.queue target)) x
    show s.received.count x = s.delivered.count x
      + ((s.store.takeDeferred target).queue target).count x + s.evicted.count x
      + ((s.registers.set k _).flatMap RegisterPc.held).count x + s.reader.held.count x
    rw [Storage.queue_takeDeferred]
    simp only [inReplay, RegisterPc.held, List.count_nil] at hset hx ⊢
    omega
  case replay =>
    intro k m rest hpc hallowed x
    obtain ⟨a, hcb, hpanic⟩ := hallowed
    obtain ⟨invocation, hm⟩ :=
      hinv.registers _ (List.mem_of_getElem? hpc) m List.mem_cons_self
    have hx := hi x
    have hset := count_flatMap_set hpc
      (registerAfter rest (s.store.update target (Action.updateWith S m)).2) x
    -- a panic loses what is still to replay, which is nothing
    have hrest : (registerAfter rest (s.store.update target (Action.updateWith S m)).2).held
        = rest := by
      rw [held_registerAfter, Storage.update_outcome hcb hm]
      split
      · rename_i hpanics
        exact (hpanic m rest invocation hpc hm (by simpa using hpanics)).symm
      · rfl
    show s.received.count x
      = ((s.dispatched ++ s.store.dispatches target m).map Prod.fst).count x
        + ((s.store.update target _).1.queue target).count x + s.evicted.count x
        + ((s.registers.set k _).flatMap RegisterPc.held).count x + s.reader.held.count x
    rw [delivered_append_of_some hcb, Storage.queue_update, List.count_append]
    rw [hrest] at hset
    simp only [inReplay, RegisterPc.held, List.count_cons, List.count_nil] at hset hx ⊢
    omega
  case unregister =>
    intro k hpc _ x
    have hx := hi x
    have hset := count_flatMap_set hpc .over x
    show s.received.count x = s.delivered.count x
      + ((s.store.remove target).queue target).count x + s.evicted.count x
      + ((s.registers.set k .over).flatMap RegisterPc.held).count x + s.reader.held.count x
    rw [Storage.queue_remove]
    simp only [inReplay, RegisterPc.held, List.count_nil] at hset hx ⊢
    omega

/-- No record is on its way: the reader waits for the next one or is gone, and every
register call has returned. -/
def Quiescent (s : Deliveries V) : Prop :=
  s.reader.held = [] ∧ s.inReplay = [] ∧ .inserted ∉ s.registers

/-- **Every record is accounted for exactly once.**  In every run, with any number of
register calls and uses of their handles, in which no section of `update` misses its
callback: at a quiescent point each record received has been dispatched once to the
callback registered at that time, or is in the queue, or has been evicted from it. -/
theorem received_accounted {capacity : Nat}
    (h : Reaches (step S target) (NoneMissed S target) (init capacity) s) (hq : s.Quiescent) :
    s.store.calls = Storage.callsOf S s.dispatched ∧
      s.received.Perm (s.delivered ++ s.store.queue target ++ s.evicted) := by
  refine ⟨(inv_of_reaches h).calls, ?_⟩
  have hi : Accounted target s := by
    refine Reaches.induction h ?_ ?_
    · intro m
      rfl
    · intro u l v hu hi hallowed hst
      exact hi.step (inv_of_reaches hu) hallowed hst
  obtain ⟨hreader, hreplay, -⟩ := hq
  apply List.perm_iff_count.mpr
  intro m
  have hm := hi m
  rw [hreader, hreplay] at hm
  simpa [List.count_append, Nat.add_assoc] using hm

theorem received_accounted_tick :
    ∃ s : Deliveries Int, s.received = [tick 1, tick 2] ∧
      s.store.calls = Storage.callsOf tickSerde s.dispatched ∧
      s.received.Perm (s.delivered ++ s.store.queue "tick" ++ s.evicted) := by
  have hrun : Reaches (step tickSerde "tick") (NoneMissed tickSerde "tick")
      (init (V := Int) 8) _ :=
    .head (.receive (tick 1)) trivial rfl <|
    .head .contains trivial rfl <|
    .head .deferMessage rfl rfl <|
    .head (.insert idleCallback) trivial rfl <|
    .head (.takeDeferred 0) trivial rfl <|
    .head (.replay 0) ⟨_, rfl, fun _ _ _ _ _ h => nomatch h⟩ rfl <|
    .head (.unregister 0) trivial rfl <|
    .head (.receive (tick 2)) trivial rfl <|
    .head .contains trivial rfl <|
    .head .deferMessage rfl rfl <|
    .refl _
  refine ⟨_, rfl, received_accounted hrun ⟨rfl, rfl, ?_⟩⟩
  show RegisterPc.inserted ∉ [.over]
  simp

/-- A record is lost if its callback is removed between `contains` and `update`. -/
theorem record_lost :
    ∃ s : Deliveries Int, Reaches (step tickSerde "tick") free (init 8) s ∧ s.Quiescent ∧
      s.received = [tick 1] ∧
      ¬ s.received.Perm (s.delivered ++ s.store.queue "tick" ++ s.evicted) := by
  have hrun : Reaches (step tickSerde "tick") free (init (V := Int) 8) _ :=
    .head (.insert idleCallback) trivial rfl <|
    .head (.takeDeferred 0) trivial rfl <|
    .head (.receive (tick 1)) trivial rfl <|
    .head .contains trivial rfl <|
    .head (.unregister 0) trivial rfl <|
    .head .update trivial rfl <|
    .refl _
  refine ⟨_, hrun, ⟨rfl, rfl, ?_⟩, rfl, fun hperm => ?_⟩
  · show RegisterPc.inserted ∉ [.over]
    simp
  · exact absurd hperm.length_eq (by decide)

end Deliveries

end SignalR
