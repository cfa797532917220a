/-
SignalR/Cells.lean

The heap of cells: every future and every stream the client ever created, by
number.  An action holds the number of its cell (in the code a pointer shared by
the two ends), and a caller polls the cell through the same number.

`log` is a ghost field that records what an observer of the cells sees: the
polls of futures and streams and their results, the resolutions, the wake-ups,
the panic of a second completion, and the calls of callbacks.
-/
import SignalR.Completer
import SignalR.Messages
import Mathlib.Logic.Function.Basic

namespace SignalR

/-- What happens to cells and callbacks. -/
inductive Effect (V : Type)
  /-- A poll of the future returned `Pending`. -/
  | pending (future : Nat) (w : Waker)
  /-- A poll of the future returned `Ready`. -/
  | ready (future : Nat) (r : Except String V)
  /-- The future was completed with a result. -/
  | resolved (future : Nat) (r : Except String V)
  /-- The completion woke the task waiting for the future. -/
  | woken (future : Nat) (w : Waker)
  /-- `panic!("Future is completed or cancelled already")`. -/
  | panicked (future : Nat)
  /-- A poll of the stream returned `Pending`. -/
  | streamPending (stream : Nat) (w : Waker)
  /-- A poll of the stream returned an item or its end. -/
  | received (stream : Nat) (x : Option V)
  /-- An item or an end marker woke the task waiting for the stream. -/
  | streamWoken (stream : Nat) (w : Waker)
  /-- A callback was called with the context of an invocation. -/
  | called (callback : Nat) (invocation : Invocation)

/-- The cells. -/
structure Heap (V : Type) where
  futures : Nat → FutureState (Except String V)
  futureCount : Nat
  streams : Nat → ManualStreamState V
  streamCount : Nat
  log : List (Effect V)

/-- A future or a stream. -/
inductive Cell
  | future (f : Nat)
  | stream (st : Nat)
  deriving DecidableEq, Repr

namespace Heap

variable {V : Type}

/-- No cell yet. -/
def empty : Heap V where
  futures := fun _ => .new none
  futureCount := 0
  streams := fun _ => .new
  streamCount := 0
  log := []

/-- `ManualFuture::new`; the new future is number `h.futureCount`. -/
def newFuture (h : Heap V) : Heap V :=
  { h with
    futures := Function.update h.futures h.futureCount (.new none)
    futureCount := h.futureCount + 1 }

/-- `ManualStream::create`; the new stream is number `h.streamCount`. -/
def newStream (h : Heap V) : Heap V :=
  { h with
    streams := Function.update h.streams h.streamCount .new
    streamCount := h.streamCount + 1 }

/-- The log entries of a completion. -/
def completionLog (f : Nat) (r : Except String V) : Completed → List (Effect V)
  | .silent => [.resolved f r]
  | .woke w => [.resolved f r, .woken f w]
  | .panicked => [.panicked f]

/-- `ManualFutureCompleter::complete` on future `f`. -/
def complete (h : Heap V) (f : Nat) (r : Except String V) : Heap V :=
  { h with
    -- a second completion stores its value as well, and panics after that
    futures := Function.update h.futures f ((h.futures f).completeWith r).1
    log := h.log ++ completionLog f r ((h.futures f).completeWith r).2 }

/-- The log entry of a poll. -/
def pollLog (f : Nat) (w : Waker) : Poll (Except String V) → List (Effect V)
  | .pending => [.pending f w]
  | .ready r => [.ready f r]

/-- `ManualFuture::poll` on future `f`. -/
def pollFuture (h : Heap V) (f : Nat) (w : Waker) : Heap V × Poll (Except String V) :=
  ({ h with
      futures := Function.update h.futures f ((h.futures f).poll w).1
      log := h.log ++ pollLog f w ((h.futures f).poll w).2 },
    ((h.futures f).poll w).2)

/-- The log entry of a wake-up. -/
def wakeLog (st : Nat) : Option Waker → List (Effect V)
  | some w => [.streamWoken st w]
  | none => []

/-- Queue an item (`some`) or an end marker (`none`) on stream `st`. -/
def enqueue (h : Heap V) (st : Nat) (x : Option V) : Heap V :=
  { h with
    streams := Function.update h.streams st ((h.streams st).enqueue x).1
    log := h.log ++ wakeLog st ((h.streams st).enqueue x).2 }

/-- `ManualStreamCompleter::push`. -/
def push (h : Heap V) (st : Nat) (item : V) : Heap V :=
  h.enqueue st (some item)

/-- `ManualStreamCompleter::close`. -/
def close (h : Heap V) (st : Nat) : Heap V :=
  h.enqueue st none

/-- The log entry of a poll of a stream. -/
def streamPollLog (st : Nat) (w : Waker) : Poll (Option V) → List (Effect V)
  | .pending => [.streamPending st w]
  | .ready x => [.received st x]

/-- `ManualStream::poll_next` on stream `st`. -/
def pollStream (h : Heap V) (st : Nat) (w : Waker) : Heap V × Poll (Option V) :=
  ({ h with
      streams := Function.update h.streams st ((h.streams st).pollNext w).1
      log := h.log ++ streamPollLog st w ((h.streams st).pollNext w).2 },
    ((h.streams st).pollNext w).2)

/-- A callback runs. -/
def call (h : Heap V) (callback : Nat) (invocation : Invocation) : Heap V :=
  { h with log := h.log ++ [.called callback invocation] }

/-- The future `f` is resolved. -/
def Resolved (h : Heap V) (f : Nat) : Prop :=
  (h.futures f).isCompleted = true

instance (h : Heap V) (f : Nat) : Decidable (h.Resolved f) :=
  inferInstanceAs (Decidable (_ = true))

/-- Nobody waits on the cell any more: the future is resolved, the stream has
been ended. -/
def Settled (h : Heap V) : Cell → Prop
  | .future f => h.Resolved f
  | .stream st => (h.streams st).Ended

/-- The cell has been created. -/
def Allocated (h : Heap V) : Cell → Prop
  | .future f => f < h.futureCount
  | .stream st => st < h.streamCount

/-! ### Small lemmas -/

section

variable (h : Heap V) (f : Nat) (r : Except String V) (w : Waker)

@[simp] theorem newFuture_streamCount : h.newFuture.streamCount = h.streamCount := rfl
@[simp] theorem newFuture_log : h.newFuture.log = h.log := rfl

@[simp] theorem newStream_futureCount : h.newStream.futureCount = h.futureCount := rfl
@[simp] theorem newStream_log : h.newStream.log = h.log := rfl

theorem resolved_newFuture_iff {g : Nat} (hg : g ≠ h.futureCount) :
    h.newFuture.Resolved g ↔ h.Resolved g := by
  simp [Resolved, newFuture, hg]

theorem not_resolved_newFuture : ¬ h.newFuture.Resolved h.futureCount := by
  simp [Resolved, newFuture, FutureState.new]

theorem resolved_complete_self : (h.complete f r).Resolved f := by
  simp [Resolved, complete, FutureState.completeWith]

theorem resolved_complete_iff {g : Nat} (hg : g ≠ f) :
    (h.complete f r).Resolved g ↔ h.Resolved g := by
  simp [Resolved, complete, hg]

@[simp] theorem resolved_pollFuture_iff (g : Nat) :
    (h.pollFuture f w).1.Resolved g ↔ h.Resolved g := by
  by_cases hg : g = f
  · subst hg
    simp [Resolved, pollFuture]
  · simp [Resolved, pollFuture, hg]

end

end Heap

end SignalR
