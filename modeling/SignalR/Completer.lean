/-
SignalR/Completer.lean

The two manually driven cells: `ManualFuture`, resolved once through its
completer, and `ManualStream`, a queue of items and end markers.  Both ends of a
cell share one state behind a mutex, so each operation below is one atomic step.

A waker stands for the task it wakes: `Waker::will_wake` compares identities.
The mutexes recover from poisoning (`lock_state`, `queue_guard`), so there is no
failing path.
-/
import Mathlib.Logic.Basic

namespace SignalR

/-- A task's waker. -/
abbrev Waker := Nat

/-- The result of a poll. -/
inductive Poll (α : Type)
  | pending
  | ready (a : α)
  deriving DecidableEq, Repr

variable {α : Type}

/-! ### ManualFuture -/

/-- The `State<T>` that a `ManualFuture` and its completer share. -/
inductive FutureState (α : Type)
  | incomplete
  | waiting (w : Waker)
  | complete (v : Option α)
  deriving DecidableEq, Repr

/-- What `complete` does beyond storing the value: nothing, wake the waiting
task, or panic because the future was completed or cancelled already. -/
inductive Completed
  | silent
  | woke (w : Waker)
  | panicked
  deriving DecidableEq, Repr

namespace FutureState

/-- `State::new`. -/
def new : Option α → FutureState α
  | none => .incomplete
  | some v => .complete (some v)

/-- `ManualFuture::is_completed`. -/
def isCompleted : FutureState α → Bool
  | .incomplete => false
  | .waiting _ => false
  | .complete _ => true

/-- What `ManualFutureCompleter::complete` finds in the state it replaces. -/
def completed : FutureState α → Completed
  | .incomplete => .silent
  | .waiting w => .woke w
  | .complete _ => .panicked

/-- `ManualFutureCompleter::complete`: the state is swapped before the old one
is looked at. -/
def completeWith (s : FutureState α) (v : α) : FutureState α × Completed :=
  (.complete (some v), s.completed)

/-- `ManualFutureCompleter::cancel`: whatever the state is, a waiting task's waker or
a value nobody has polled, it is overwritten, and nobody is woken. -/
def cancel (_ : FutureState α) : FutureState α :=
  .complete none

/-- `ManualFuture::poll`, with the waker of the polling task.  A waiting state
keeps its waker when that one wakes the same task. -/
def poll (s : FutureState α) (w : Waker) : FutureState α × Poll α :=
  match s with
  | .waiting w' => if w' = w then (.waiting w', .pending) else (.waiting w, .pending)
  | .incomplete => (.waiting w, .pending)
  -- the value is moved out, and a later poll waits for good
  | .complete (some v) => (.complete none, .ready v)
  | .complete none => (.complete none, .pending)

@[simp] theorem isCompleted_incomplete : (incomplete : FutureState α).isCompleted = false := rfl

@[simp] theorem isCompleted_complete (v : Option α) : (complete v).isCompleted = true := rfl

/-- Polling neither completes a future nor undoes its completion. -/
@[simp] theorem isCompleted_poll (s : FutureState α) (w : Waker) :
    (s.poll w).1.isCompleted = s.isCompleted := by
  rcases s with - | w' | (- | v)
  · rfl
  · show (if w' = w then _ else _ : FutureState α × Poll α).1.isCompleted = false
    split <;> rfl
  · rfl
  · rfl

/-- A poll of an unresolved future leaves the given waker behind. -/
theorem poll_of_not_isCompleted {s : FutureState α} (h : s.isCompleted = false) (w : Waker) :
    s.poll w = (.waiting w, .pending) := by
  rcases s with - | w' | v
  · rfl
  · show (if w' = w then _ else _) = _
    split
    · rename_i hw
      rw [hw]
    · rfl
  · simp at h

end FutureState

/-! ### ManualStream -/

/-- The state a `ManualStream` and its completer share.  `pushed` is a ghost
field: everything ever queued, while `queue` is what is still to be polled.  An
end marker is `none`. -/
structure ManualStreamState (α : Type) where
  queue : List (Option α)
  waker : Option Waker
  pushed : List (Option α)
  deriving DecidableEq, Repr

namespace ManualStreamState

/-- `ManualStreamState::new`. -/
def new : ManualStreamState α where
  queue := []
  waker := none
  pushed := []

/-- The common body of `push` and `close`: queue a message and wake the task whose
waker is registered, taking the waker out. -/
def enqueue (s : ManualStreamState α) (x : Option α) : ManualStreamState α × Option Waker :=
  ({ queue := s.queue ++ [x], waker := none, pushed := s.pushed ++ [x] }, s.waker)

/-- `ManualStreamState::push`. -/
def push (s : ManualStreamState α) (item : α) : ManualStreamState α × Option Waker :=
  s.enqueue (some item)

/-- `ManualStreamState::close`. -/
def close (s : ManualStreamState α) : ManualStreamState α × Option Waker :=
  s.enqueue none

/-- `ManualStream::poll_next`. -/
def pollNext (s : ManualStreamState α) (w : Waker) :
    ManualStreamState α × Poll (Option α) :=
  match s.queue with
  -- the registered waker stays: only `push` and `close` take it
  | x :: rest => ({ s with queue := rest }, .ready x)
  | [] => ({ s with waker := some w }, .pending)

/-- The stream has been ended: an end marker was queued at some time. -/
def Ended (s : ManualStreamState α) : Prop :=
  none ∈ s.pushed

instance [DecidableEq α] (s : ManualStreamState α) : Decidable s.Ended :=
  inferInstanceAs (Decidable (none ∈ s.pushed))

@[simp] theorem pushed_pollNext (s : ManualStreamState α) (w : Waker) :
    (s.pollNext w).1.pushed = s.pushed := by
  rw [pollNext]
  split <;> rfl

theorem Ended.enqueue {s : ManualStreamState α} (h : s.Ended) (x : Option α) :
    (s.enqueue x).1.Ended :=
  List.mem_append_left _ h

theorem ended_close (s : ManualStreamState α) : s.close.1.Ended :=
  List.mem_append_right _ (List.mem_singleton_self none)

end ManualStreamState

end SignalR
