/-
SignalR/Storage.lean

`UpdatableActionStorage`: the map from keys to actions, the messages deferred
for targets without a callback, the key counter, and `process_message`.

Every clone of a storage shares the same maps, so one value models all clones;
`handles` counts them.  Each operation below is what the source does under the
action-map mutex (`process_message` and `add_callback` take it several times).
A panic of a callback unwinds out of `update` with the mutex held and poisons
it; from then on every operation takes its `Cannot lock storage` branch.  The
mutex of the deferred messages is never held while user code runs, and the one
of the counter recovers, so neither has a failing branch here.
-/
import SignalR.Actions
import Mathlib.Data.List.AList

namespace SignalR

variable {V : Type}

/-- `HashMap<String, Mutex<Box<dyn UpdatableAction>>>`. -/
abbrev ActionMap (V : Type) := AList fun _ : String => Action V

/-- `HashMap<String, VecDeque<(Vec<u8>, MessageType, Protocol)>>`. -/
abbrev DeferredMessages := AList fun _ : String => List RawMessage

/-- The number of values of `usize`. -/
def usizeSize : Nat := 0x10000000000000000

/-- `UpdatableActionStorage`, with the heap of the cells its actions complete. -/
structure Storage (V : Type) where
  data : ActionMap V
  poisoned : Bool
  deferredMessages : DeferredMessages
  deferredMessageCapacity : Nat
  index : Nat
  handles : Nat
  heap : Heap V

namespace Storage

/-- `new_with_deferred_message_capacity`. -/
def newWithDeferredMessageCapacity (capacity : Nat) : Storage V where
  data := ∅
  poisoned := false
  deferredMessages := ∅
  deferredMessageCapacity := capacity
  index := 0
  handles := 1
  heap := .empty

/-- The action under a key. -/
def get (s : Storage V) (key : String) : Option (Action V) :=
  s.data.lookup key

/-! ### Operations on the action map -/

/-- `insert`: an occupied key is refused, and a refused action is dropped. -/
def insert (s : Storage V) (key : String) (action : Action V) : Storage V :=
  if s.poisoned then
    { s with heap := action.drop s.heap }
  else
    match s.get key with
    | none => { s with data := s.data.insert key action }
    | some _ => { s with heap := action.drop s.heap }

/-- `contains`. -/
def contains (s : Storage V) (key : String) : Bool :=
  !s.poisoned && (s.get key).isSome

/-- `update`. -/
def update (s : Storage V) (key : String)
    (f : Action V → Heap V → Action V × Heap V × Outcome) : Storage V × Outcome :=
  if s.poisoned then
    (s, .err "Cannot lock storage")
  else
    match s.get key with
    | some action =>
        ({ s with
            data := s.data.insert key (f action s.heap).1
            heap := (f action s.heap).2.1
            -- unwinding drops the guard, which poisons the mutex
            poisoned := decide ((f action s.heap).2.2 = .panic) },
          (f action s.heap).2.2)
    | none => (s, .err ("Key " ++ key ++ " is not found in registered actions"))

/-- `HashMap::remove` on the locked map; the removed action is dropped. -/
def dropKey (s : Storage V) (key : String) : Storage V :=
  match s.get key with
  | some action => { s with data := s.data.erase key, heap := action.drop s.heap }
  | none => s

/-- `remove`. -/
def remove (s : Storage V) (key : String) : Storage V :=
  if s.poisoned then s else s.dropKey key

/-- The first loop of `cancel_pending`, on one key. -/
def cancelKey (reason : String) (s : Storage V) (key : String) : Storage V :=
  match s.get key with
  | some action =>
      { s with
        data := s.data.insert key (action.cancel reason s.heap).1
        heap := (action.cancel reason s.heap).2 }
  | none => s

/-- The action under a key reports `is_completed`. -/
def completedAt (s : Storage V) (key : String) : Bool :=
  match s.get key with
  | some action => action.isCompleted
  | none => false

/-- `cancel_pending`: cancel every action, then remove those that report
themselves completed. -/
def cancelPending (s : Storage V) (reason : String) : Storage V :=
  if s.poisoned then
    s
  else
    -- all are cancelled before the first of them is removed, under one lock
    let cancelled := s.data.keys.foldl (cancelKey reason) s
    (s.data.keys.filter cancelled.completedAt).foldl dropKey cancelled

/-! ### What the operations do -/

section

variable (s : Storage V) (key : String)

/-- An insertion takes a free key, or the action is dropped. -/
theorem insert_cases (action : Action V) :
    (s.poisoned = false ∧ s.get key = none ∧
        s.insert key action = { s with data := s.data.insert key action }) ∨
      (s.poisoned = true ∨ (s.get key).isSome) ∧
        s.insert key action = { s with heap := action.drop s.heap } := by
  rw [insert]
  by_cases hp : s.poisoned
  · exact .inr ⟨.inl hp, if_pos hp⟩
  · rw [if_neg hp]
    rcases s.get key with - | occupant
    · exact .inl ⟨by simpa using hp, rfl, rfl⟩
    · exact .inr ⟨.inr rfl, rfl⟩

/-- An update works on the action under the key, or changes nothing. -/
theorem update_cases (f : Action V → Heap V → Action V × Heap V × Outcome) :
    (∃ action, s.poisoned = false ∧ s.get key = some action ∧
        s.update key f =
          ({ s with
              data := s.data.insert key (f action s.heap).1
              heap := (f action s.heap).2.1
              poisoned := decide ((f action s.heap).2.2 = .panic) },
            (f action s.heap).2.2)) ∨
      (s.poisoned = true ∨ s.get key = none) ∧ ∃ e, s.update key f = (s, .err e) := by
  rw [update]
  by_cases hp : s.poisoned
  · exact .inr ⟨.inl hp, _, if_pos hp⟩
  · rw [if_neg hp]
    rcases s.get key with - | action
    · exact .inr ⟨.inr rfl, _, rfl⟩
    · exact .inl ⟨action, by simpa using hp, rfl, rfl⟩

/-- A removal takes the action out and drops it, or there is none that it could take. -/
theorem remove_cases :
    (∃ action, s.poisoned = false ∧ s.get key = some action ∧
        s.remove key = { s with data := s.data.erase key, heap := action.drop s.heap }) ∨
      (s.poisoned = true ∨ s.get key = none) ∧ s.remove key = s := by
  rw [remove]
  by_cases hp : s.poisoned
  · exact .inr ⟨.inl hp, if_pos hp⟩
  · rw [if_neg hp, dropKey]
    rcases s.get key with - | action
    · exact .inr ⟨.inr rfl, rfl⟩
    · exact .inl ⟨action, by simpa using hp, rfl, rfl⟩

end

/-! ### Deferred messages -/

/-- Append a message to a queue that keeps at most `capacity` messages. -/
def pushBounded (capacity : Nat) (queue : List RawMessage) (m : RawMessage) : List RawMessage :=
  -- the oldest message makes room
  if (queue ++ [m]).length > capacity then (queue ++ [m]).tail else queue ++ [m]

/-- `defer_message`: dispatch after all if an action has appeared under the key,
else queue the message.  Errors of the dispatch are logged only. -/
def deferMessage (S : Serde) (s : Storage V) (key : String) (m : RawMessage) :
    Storage V × Outcome :=
  if s.poisoned then
    (s, .ok)
  else
    match s.get key with
    | some _ =>
        -- the callback was registered after `contains` had looked
        match s.update key (Action.updateWith S m) with
        | (t, .panic) => (t, .panic)
        | (t, _) => (t, .ok)
    | none =>
        ({ s with
            deferredMessages := s.deferredMessages.insert key
              (pushBounded s.deferredMessageCapacity
                ((s.deferredMessages.lookup key).getD []) m) },
          .ok)

/-- `defer_message` updates the action under the key, or queues the message, or finds
the mutex poisoned. -/
theorem deferMessage_cases (S : Serde) (s : Storage V) (key : String) (m : RawMessage) :
    ((s.get key).isSome ∧
        (s.deferMessage S key m).1 = (s.update key (Action.updateWith S m)).1 ∧
        ((s.deferMessage S key m).2 = .panic ↔
          (s.update key (Action.updateWith S m)).2 = .panic)) ∨
      (s.poisoned = false ∧ s.get key = none ∧
        s.deferMessage S key m =
          ({ s with
              deferredMessages := s.deferredMessages.insert key
                (pushBounded s.deferredMessageCapacity
                  ((s.deferredMessages.lookup key).getD []) m) },
            .ok)) ∨
      s.poisoned = true ∧ s.deferMessage S key m = (s, .ok) := by
  rw [deferMessage]
  by_cases hp : s.poisoned
  · exact .inr (.inr ⟨hp, if_pos hp⟩)
  · rw [if_neg hp]
    rcases s.get key with - | action
    · exact .inr (.inl ⟨by simpa using hp, rfl, rfl⟩)
    · refine .inl ⟨rfl, ?_⟩
      rcases s.update key (Action.updateWith S m) with ⟨t, - | e | -⟩ <;> simp

/-- The loop of `replay_deferred`: errors are logged only, a panic leaves it. -/
def replay (S : Serde) (key : String) : List RawMessage → Storage V → Storage V × Outcome
  | [], s => (s, .ok)
  | m :: rest, s =>
      match s.update key (Action.updateWith S m) with
      | (t, .panic) => (t, .panic)
      | (t, _) => replay S key rest t

/-- `replay_deferred`. -/
def replayDeferred (S : Serde) (s : Storage V) (key : String) : Storage V × Outcome :=
  match s.deferredMessages.lookup key with
  | some messages =>
      -- the queue is taken out first, so a panic loses what it has not replayed
      replay S key messages { s with deferredMessages := s.deferredMessages.erase key }
  | none => (s, .ok)

/-! ### Keys and new actions -/

/-- `increment`. -/
def increment (s : Storage V) : Storage V × Nat :=
  ({ s with index := (s.index + 1) % usizeSize }, (s.index + 1) % usizeSize)

/-- `create_key`. -/
def createKey (s : Storage V) (target : String) : Storage V × String :=
  (s.increment.1, target ++ "_" ++ toString s.increment.2)

/-- `add_callback`. -/
def addCallback (S : Serde) (s : Storage V) (target : String) (callback : Callback) :
    Storage V × Outcome :=
  (s.insert target (.callback { target, callback })).replayDeferred S target

/-- `add_invocation`; the returned future is number `s.heap.futureCount`. -/
def addInvocation (s : Storage V) (invocationId : String) (decode : DeserializeOwned V) :
    Storage V :=
  { s with heap := (InvocationAction.new invocationId decode s.heap).2 }.insert invocationId
    (.invocation (InvocationAction.new invocationId decode s.heap).1)

/-- `add_stream`; the returned stream is number `s.heap.streamCount`. -/
def addStream (s : Storage V) (invocationId : String) (decode : DeserializeOwned V) : Storage V :=
  { s with heap := (EnumerableAction.new invocationId decode s.heap).2 }.insert invocationId
    (.enumerable (EnumerableAction.new invocationId decode s.heap).1)

/-! ### process_message -/

/-- `process_message`. -/
def processMessage (S : Serde) (s : Storage V) (m : RawMessage) : Storage V × Outcome :=
  match m.messageType with
  | .invocation =>
      match deserialize S Invocation.decode m.bytes m.protocol with
      | .error e => (s, .err e)
      | .ok invocation =>
          if s.contains invocation.target then
            s.update invocation.target (Action.updateWith S m)
          else
            s.deferMessage S invocation.target m
  | .streamItem =>
      match deserialize S PossibleInvocation.decode m.bytes m.protocol with
      | .error e => (s, .err e)
      | .ok invocation =>
          match invocation.invocationId with
          | some key => s.update key (Action.updateWith S m)
          | none => (s, .ok)
  | .completion =>
      match deserialize S PossibleInvocation.decode m.bytes m.protocol with
      | .error e => (s, .err e)
      | .ok invocation =>
          match invocation.invocationId with
          | some key =>
              match s.update key (Action.updateWith S m) with
              -- a completion that the action refuses leaves the action in place
              | (t, .ok) => (t.remove key, .ok)
              | (t, o) => (t, o)
          | none => (s, .ok)
  -- the remaining types are logged only
  | .streamInvocation => (s, .ok)
  | .cancelInvocation => (s, .ok)
  | .ping => (s, .ok)
  | .close => (s, .ok)
  | .other => (s, .ok)

/-- `process_message` does nothing, or updates an action, or defers an invocation, or
removes the action that a completion has updated. -/
theorem processMessage_cases (S : Serde) (s : Storage V) (m : RawMessage) :
    (∃ o, o ≠ .panic ∧ s.processMessage S m = (s, o)) ∨
      (∃ key,
        (∀ invocation, m.messageType = .invocation →
          deserialize S Invocation.decode m.bytes m.protocol = .ok invocation →
          key = invocation.target) ∧
        s.processMessage S m = s.update key (Action.updateWith S m)) ∨
      (∃ invocation, s.processMessage S m = s.deferMessage S invocation.target m ∧
        m.messageType = .invocation ∧
        deserialize S Invocation.decode m.bytes m.protocol = .ok invocation) ∨
      ∃ key, m.messageType = .completion ∧ (s.update key (Action.updateWith S m)).2 = .ok ∧
        s.processMessage S m = ((s.update key (Action.updateWith S m)).1.remove key, .ok) := by
  generalize hr : s.processMessage S m = r
  rw [processMessage] at hr
  split at hr
  · rename_i htype
    split at hr
    · exact .inl ⟨_, by simp, hr.symm⟩
    · rename_i invocation hdecode
      split at hr
      · refine .inr (.inl ⟨invocation.target, fun invocation' _ h => ?_, hr.symm⟩)
        rw [Except.ok.inj (hdecode.symm.trans h)]
      · exact .inr (.inr (.inl ⟨invocation, hr.symm, htype, hdecode⟩))
  · rename_i htype
    split at hr
    · exact .inl ⟨_, by simp, hr.symm⟩
    · split at hr
      · rename_i key _
        exact .inr (.inl ⟨key, fun _ h => absurd (htype.symm.trans h) nofun, hr.symm⟩)
      · exact .inl ⟨_, by simp, hr.symm⟩
  · rename_i htype
    split at hr
    · exact .inl ⟨_, by simp, hr.symm⟩
    · split at hr
      · rename_i key _
        split at hr
        · rename_i hu
          exact .inr (.inr (.inr ⟨key, htype, by rw [hu], by rw [hu, hr]⟩))
        · rename_i hu
          exact .inr (.inl
            ⟨key, fun _ h => absurd (htype.symm.trans h) nofun, hr.symm.trans hu.symm⟩)
      · exact .inl ⟨_, by simp, hr.symm⟩
  all_goals exact .inl ⟨_, by simp, hr.symm⟩

/-! ### Clones -/

/-- `Arc::strong_count(&self.data)`: the clones in use, and the two in the client
handle that each callback action keeps. -/
def strongCount (s : Storage V) : Nat :=
  s.handles + 2 * (s.data.entries.filter fun e => e.2.isCallback).length

/-- `clear`: every action is dropped. -/
def clear (s : Storage V) : Storage V :=
  s.data.keys.foldl dropKey s

/-- `Clone`. -/
def clone (s : Storage V) : Storage V :=
  { s with handles := s.handles + 1 }

/-- `Drop` of one clone.  The last one clears the map (`dispose`), or leaves that
to the map's own drop if the mutex is poisoned. -/
def dropHandle (s : Storage V) : Storage V :=
  { (if s.strongCount = 1 then s.clear else s) with handles := s.handles - 1 }

/-! ### Polls -/

/-- A caller polls its future. -/
def pollFuture (s : Storage V) (f : Nat) (w : Waker) : Storage V × Poll (Except String V) :=
  ({ s with heap := (s.heap.pollFuture f w).1 }, (s.heap.pollFuture f w).2)

/-- A caller polls its stream. -/
def pollStream (s : Storage V) (st : Nat) (w : Waker) : Storage V × Poll (Option V) :=
  ({ s with heap := (s.heap.pollStream st w).1 }, (s.heap.pollStream st w).2)

/-! ### What the operations keep -/

/-- What every turn of a loop keeps, the loop keeps. -/
theorem foldl_keeps {β : Type} (p : Storage V → β) {f : Storage V → String → Storage V}
    (hf : ∀ s k, p (f s k) = p s) (l : List String) (s : Storage V) : p (l.foldl f s) = p s := by
  induction l generalizing s with
  | nil => rfl
  | cons k l ih => rw [List.foldl_cons, ih, hf]

/-- The part of a storage looks neither at the entries nor at the cells. -/
def IgnoresEntries {β : Type} (p : Storage V → β) : Prop :=
  ∀ (s : Storage V) (data : ActionMap V) (heap : Heap V), p { s with data, heap } = p s

namespace IgnoresEntries

variable {β : Type} {p : Storage V → β}

theorem insert (hp : IgnoresEntries p) (s : Storage V) (key : String) (a : Action V) :
    p (s.insert key a) = p s := by
  obtain ⟨-, -, hi⟩ | ⟨-, hi⟩ := s.insert_cases key a
  · rw [hi]
    exact hp s _ s.heap
  · rw [hi]
    exact hp s s.data _

theorem update (hp : IgnoresEntries p) (hpoisoned : ∀ s b, p { s with poisoned := b } = p s)
    (s : Storage V) (key : String) (f : Action V → Heap V → Action V × Heap V × Outcome) :
    p (s.update key f).1 = p s := by
  obtain ⟨a, -, -, hu⟩ | ⟨-, e, hu⟩ := s.update_cases key f
  · rw [hu]
    exact (hpoisoned { s with data := _, heap := _ } _).trans (hp s _ _)
  · rw [hu]

theorem dropKey (hp : IgnoresEntries p) (s : Storage V) (key : String) :
    p (s.dropKey key) = p s := by
  rw [Storage.dropKey]
  split
  · exact hp s _ _
  · rfl

theorem remove (hp : IgnoresEntries p) (s : Storage V) (key : String) :
    p (s.remove key) = p s := by
  rw [Storage.remove]
  split
  · rfl
  · exact hp.dropKey s key

theorem cancelPending (hp : IgnoresEntries p) (s : Storage V) (reason : String) :
    p (s.cancelPending reason) = p s := by
  have hcancel : ∀ s k, p (cancelKey reason s k) = p s := by
    intro s k
    rw [cancelKey]
    split
    · exact hp s _ _
    · rfl
  rw [Storage.cancelPending]
  split
  · rfl
  · rw [foldl_keeps p hp.dropKey, foldl_keeps p hcancel]

theorem dropHandle (hp : IgnoresEntries p) (hhandles : ∀ s n, p { s with handles := n } = p s)
    (s : Storage V) : p s.dropHandle = p s := by
  refine (hhandles (if s.strongCount = 1 then s.clear else s) _).trans ?_
  split
  · exact foldl_keeps p hp.dropKey _ s
  · rfl

end IgnoresEntries

theorem ignoresEntries_poisoned : IgnoresEntries (poisoned (V := V)) :=
  fun _ _ _ => rfl

end Storage

end SignalR
