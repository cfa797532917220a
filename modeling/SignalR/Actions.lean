/-
SignalR/Actions.lean

The three kinds of action a storage holds, each with its `UpdatableAction`
methods.  A method takes the action and the heap of cells and returns both.

`update_with` may leave in three ways: `Ok`, `Err`, or by unwinding out of a
callback that panics (`Outcome`).  The action-level mutex of the source is only
ever entered by `get_mut`, never locked, so it cannot be poisoned and is left
out.
-/
import SignalR.Cells

namespace SignalR

/-- How a call ends: `Ok(())`, `Err(e)`, or a panic. -/
inductive Outcome
  | ok
  | err (e : String)
  | panic
  deriving DecidableEq, Repr

variable {V : Type}

/-! ### InvocationAction -/

/-- `InvocationAction<R>`.  `decode` is how an `R` is read; `completer` is the number
of the future it completes, taken out when used; `future` is a ghost field that
keeps that number. -/
structure InvocationAction (V : Type) where
  invocationId : String
  decode : DeserializeOwned V
  completer : Option Nat
  future : Nat

namespace InvocationAction

/-- `InvocationAction::new`. -/
def new (invocationId : String) (decode : DeserializeOwned V) (h : Heap V) :
    InvocationAction V × Heap V :=
  ({ invocationId, decode, completer := some h.futureCount, future := h.futureCount },
    h.newFuture)

/-- `InvocationAction::complete`. -/
def complete (a : InvocationAction V) (result : Except String V) (h : Heap V) :
    InvocationAction V × Heap V :=
  match a.completer with
  | some f => ({ a with completer := none }, h.complete f result)
  -- the completer was taken before: the result is dropped
  | none => (a, h)

/-- `InvocationAction::dispose_internal`, which is also its `Drop`. -/
def disposeInternal (a : InvocationAction V) (h : Heap V) : InvocationAction V × Heap V :=
  a.complete (.error "Invocation was cancelled") h

def updateWith (S : Serde) (m : RawMessage) (a : InvocationAction V) (h : Heap V) :
    InvocationAction V × Heap V × Outcome :=
  match m.messageType with
  | .completion =>
      match deserialize S (Completion.decode a.decode) m.bytes m.protocol with
      | .ok completion =>
          ((a.complete completion.intoResult h).1, (a.complete completion.intoResult h).2, .ok)
      | .error e => (a, h, .err e)
  | _ =>
      (a, h, .err ("Cannot complete invocation " ++ a.invocationId ++ ", with message "
        ++ S.lossy m.bytes))

def cancel (reason : String) (a : InvocationAction V) (h : Heap V) :
    InvocationAction V × Heap V :=
  a.complete (.error reason) h

def isCompleted (a : InvocationAction V) : Bool :=
  a.completer.isNone

end InvocationAction

/-! ### EnumerableAction -/

/-- `EnumerableAction<R>`; `completer` is the number of the stream it feeds. -/
structure EnumerableAction (V : Type) where
  invocationId : String
  decode : DeserializeOwned V
  completer : Nat
  completed : Bool

namespace EnumerableAction

/-- `EnumerableAction::new`. -/
def new (invocationId : String) (decode : DeserializeOwned V) (h : Heap V) :
    EnumerableAction V × Heap V :=
  ({ invocationId, decode, completer := h.streamCount, completed := false }, h.newStream)

/-- `EnumerableAction::dispose_internal`, which is also its `Drop`. -/
def disposeInternal (a : EnumerableAction V) (h : Heap V) : EnumerableAction V × Heap V :=
  -- no check of `completed`: a disposal may queue a second end marker
  ({ a with completed := true }, h.close a.completer)

def updateWith (S : Serde) (m : RawMessage) (a : EnumerableAction V) (h : Heap V) :
    EnumerableAction V × Heap V × Outcome :=
  match m.messageType with
  | .streamItem =>
      match deserialize S (StreamItem.decode a.decode) m.bytes m.protocol with
      | .ok item => (a, h.push a.completer item.item, .ok)
      | .error e => (a, h, .err e)
  | .completion =>
      -- an error in the completion is only logged: the stream ends either way
      match deserialize S (Completion.decode a.decode) m.bytes m.protocol with
      -- `completed` stays unset: `process_message` removes the action by its key
      | .ok _ => (a, h.close a.completer, .ok)
      | .error e => (a, h, .err e)
  | _ =>
      (a, h, .err ("Cannot update stream " ++ a.invocationId ++ " with message "
        ++ S.lossy m.bytes))

def cancel (_reason : String) (a : EnumerableAction V) (h : Heap V) :
    EnumerableAction V × Heap V :=
  a.disposeInternal h

def isCompleted (a : EnumerableAction V) : Bool :=
  a.completed

end EnumerableAction

/-! ### CallbackAction -/

/-- A user callback: its identity, and whether it panics on a given invocation.
What it does apart from the client is not observed. -/
structure Callback where
  id : Nat
  panics : Invocation → Bool

/-- `CallbackAction`.  The client handle it keeps is counted by the storage
(`Storage.strongCount`). -/
structure CallbackAction where
  target : String
  callback : Callback

namespace CallbackAction

def updateWith (S : Serde) (m : RawMessage) (a : CallbackAction) (h : Heap V) :
    CallbackAction × Heap V × Outcome :=
  match m.messageType with
  | .invocation =>
      match deserialize S Invocation.decode m.bytes m.protocol with
      | .ok invocation =>
          -- the callback is called before it may panic
          (a, h.call a.callback.id invocation,
            if a.callback.panics invocation then .panic else .ok)
      | .error e => (a, h, .err e)
  | _ => (a, h, .err "Callbacks accept only invocation data")

end CallbackAction

/-! ### Boxed actions -/

/-- `Box<dyn UpdatableAction>`. -/
inductive Action (V : Type)
  | invocation (a : InvocationAction V)
  | enumerable (a : EnumerableAction V)
  | callback (a : CallbackAction)

namespace Action

def updateWith (S : Serde) (m : RawMessage) : Action V → Heap V → Action V × Heap V × Outcome
  | .invocation a, h => ((a.updateWith S m h).map .invocation id)
  | .enumerable a, h => ((a.updateWith S m h).map .enumerable id)
  | .callback a, h => ((a.updateWith S m h).map .callback id)

def cancel (reason : String) : Action V → Heap V → Action V × Heap V
  | .invocation a, h => (a.cancel reason h).map .invocation id
  | .enumerable a, h => (a.cancel reason h).map .enumerable id
  | .callback a, h => (.callback a, h)

def isCompleted : Action V → Bool
  | .invocation a => a.isCompleted
  | .enumerable a => a.isCompleted
  | .callback _ => false

/-- `Drop`. -/
def drop : Action V → Heap V → Heap V
  | .invocation a, h => (a.disposeInternal h).2
  | .enumerable a, h => (a.disposeInternal h).2
  | .callback _, h => h

/-- The cell whose other end a caller holds. -/
def cell : Action V → Option Cell
  | .invocation a => some (.future a.future)
  | .enumerable a => some (.stream a.completer)
  | .callback _ => none

/-- The action is a registered callback. -/
def isCallback : Action V → Bool
  | .callback _ => true
  | _ => false

end Action

end SignalR
