/-
SignalR/StorageRuns.lean

The storage as a system: clones run its operations in any order, callers poll
their futures and streams.  An operation that locks the action map several times
is present both as a whole and in its single locked sections, so a run may put
the sections of several operations in any order.

Every state a run reaches satisfies `View.Inv`, and from it follows the contract
of an invocation (`invocation_resolved_once`): unresolved exactly while its
action is armed in the map, resolved at most once, its waiting task woken.
-/
import SignalR.Settlement
import SignalR.Transition

namespace SignalR

open Transition

variable {V : Type}

/-! ### The system -/

/-- What a clone of the storage, or the owner of a future or stream, can do. -/
inductive StorageOp (V : Type)
  | createKey (target : String)
  | addInvocation (invocationId : String) (decode : DeserializeOwned V)
  | addStream (invocationId : String) (decode : DeserializeOwned V)
  | addCallback (target : String) (callback : Callback)
  | processMessage (m : RawMessage)
  /-- The section of `update` on its own. -/
  | dispatch (key : String) (m : RawMessage)
  /-- The section of `defer_message` on its own. -/
  | deferMessage (key : String) (m : RawMessage)
  /-- The loop of `replay_deferred` on its own. -/
  | replayDeferred (key : String)
  /-- The section of `insert` in `add_callback` on its own. -/
  | insertCallback (target : String) (callback : Callback)
  | cancelPending (reason : String)
  | remove (key : String)
  /-- `Drop` of a `PendingInvocationCleanup`, which owns a clone. -/
  | cleanup (key : String)
  | clone
  | dropHandle
  | pollFuture (f : Nat) (w : Waker)
  | pollStream (st : Nat) (w : Waker)

namespace Storage

/-- Storage operations need a live clone, and a caller polls only a cell it was
handed. -/
def enabled (s : Storage V) : StorageOp V → Prop
  | .pollFuture f _ => f < s.heap.futureCount
  | .pollStream st _ => st < s.heap.streamCount
  | _ => 0 < s.handles

instance (s : Storage V) : (op : StorageOp V) → Decidable (s.enabled op)
  | .pollFuture _ _ | .pollStream _ _ | .createKey _ | .addInvocation _ _ | .addStream _ _
  | .addCallback _ _ | .processMessage _ | .dispatch _ _ | .deferMessage _ _
  | .replayDeferred _ | .insertCallback _ _ | .cancelPending _ | .remove _ | .cleanup _
  | .clone | .dropHandle => Nat.decLt _ _

/-- The effect of one operation. -/
def run (S : Serde) (s : Storage V) : StorageOp V → Storage V
  | .createKey target => (s.createKey target).1
  | .addInvocation id decode => s.addInvocation id decode
  | .addStream id decode => s.addStream id decode
  | .addCallback target callback => (s.addCallback S target callback).1
  | .processMessage m => (s.processMessage S m).1
  | .dispatch key m => (s.update key (Action.updateWith S m)).1
  | .deferMessage key m => (s.deferMessage S key m).1
  | .replayDeferred key => (s.replayDeferred S key).1
  | .insertCallback target callback => s.insert target (.callback { target, callback })
  | .cancelPending reason => s.cancelPending reason
  | .remove key => s.remove key
  | .cleanup key => (s.remove key).dropHandle
  | .clone => s.clone
  | .dropHandle => s.dropHandle
  | .pollFuture f w => (s.pollFuture f w).1
  | .pollStream st w => (s.pollStream st w).1

/-- One step of the system. -/
def step (S : Serde) (s : Storage V) (op : StorageOp V) : Option (Storage V) :=
  if s.enabled op then some (s.run S op) else none

/-- The states a run of the system reaches from a new storage. -/
def Reachable (S : Serde) (capacity : Nat) (s : Storage V) : Prop :=
  Reaches (step S) free (newWithDeferredMessageCapacity capacity) s

/-! ### The invariant of every run -/

/-- An operation is a sequence of primitive changes. -/
theorem run_touches (S : Serde) {s : Storage V} {op : StorageOp V} (h : s.enabled op) :
    Touches s.view (s.run S op).view := by
  cases op with
  | createKey target => exact .refl
  | addInvocation id decode => exact addInvocation_touches s id decode
  | addStream id decode => exact addStream_touches s id decode
  | addCallback target callback => exact addCallback_touches S s target callback
  | processMessage m => exact processMessage_touches S s m
  | dispatch key m => exact update_touches S s key m
  | deferMessage key m => exact deferMessage_touches S s key m
  | replayDeferred key => exact replayDeferred_touches S s key
  | insertCallback target callback => exact insert_callback_touches s target _
  | cancelPending reason => exact cancelPending_touches s reason
  | remove key => exact remove_touches s key
  | cleanup key => exact (remove_touches s key).trans (dropHandle_touches _)
  | clone => exact .refl
  | dropHandle => exact dropHandle_touches s
  | pollFuture f w => exact pollFuture_touches s w h
  | pollStream st w => exact pollStream_touches s w h

/-- **The run lemma.**  Every reachable storage satisfies the invariant. -/
theorem Reachable.inv {S : Serde} {capacity : Nat} {s : Storage V}
    (h : Reachable S capacity s) : s.view.Inv := by
  -- a new storage has neither cells nor actions
  refine Reaches.invariant (I := fun s => s.view.Inv) h .empty ?_
  intro s op t hi _ hst
  obtain ⟨hen, rfl⟩ := guard_of_eq_some hst
  exact View.Touches.inv hi (run_touches S hen)

/-- **An invocation is resolved exactly once.**  In every reachable state a
future is unresolved iff its own action is in the map and holds its completer;
it has been resolved at most once and no completion of it has panicked; and every
resolution has woken the task of the latest poll before it. -/
theorem invocation_resolved_once {S : Serde} {capacity : Nat} {s : Storage V}
    (h : Reachable S capacity s) {f : Nat} (hf : f < s.heap.futureCount) :
    (¬ s.heap.Resolved f ↔
        ∃ key a, s.get key = some (.invocation a) ∧ a.future = f ∧ a.completer = some f) ∧
      resolutions f s.heap.log ≤ 1 ∧
      .panicked f ∉ s.heap.log ∧
      ∀ l₁ l₂ r w, s.heap.log = l₁ ++ .resolved f r :: l₂ → lastPending f l₁ = some w →
        .woken f w ∈ l₂ := by
  have hi := h.inv
  have hlog : s.heap.Logged f := hi.heap.logged f
  refine ⟨hi.not_resolved_iff hf, ?_, hlog.calm, hlog.woken⟩
  rw [hlog.count]
  split
  · exact Nat.le_refl 1
  · exact Nat.zero_le 1

/-- An invocation that is inserted, polled and cancelled. -/
def cancelledOps : List (StorageOp Int) :=
  [.createKey "add", .addInvocation "add_1" .i64, .pollFuture 0 7,
    .cancelPending "Client disconnected"]

/-- The storage after `cancelledOps`. -/
def cancelledStorage : Storage Int :=
  cancelledOps.foldl (run (.ofTable [] [])) (newWithDeferredMessageCapacity 8)

theorem invocation_resolved_once_cancelled :
    (¬ cancelledStorage.heap.Resolved 0 ↔
        ∃ key a, cancelledStorage.get key = some (.invocation a) ∧ a.future = 0 ∧
          a.completer = some 0) ∧
      resolutions 0 cancelledStorage.heap.log ≤ 1 ∧
      .panicked 0 ∉ cancelledStorage.heap.log ∧
      ∀ l₁ l₂ r w, cancelledStorage.heap.log = l₁ ++ .resolved 0 r :: l₂ →
        lastPending 0 l₁ = some w → .woken 0 w ∈ l₂ :=
  have hrun : Reachable (.ofTable [] []) 8 cancelledStorage := Reaches.of_exec cancelledOps rfl
  invocation_resolved_once hrun (by decide)

end Storage

end SignalR
