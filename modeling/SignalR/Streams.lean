/-
SignalR/Streams.lean

What the operations of a storage do to the streams, apart from the records that feed
them.  Such an operation only ever queues end markers, and only on streams whose action
is no longer in the map when it is done (`Closes`, `run_closes`): a cancellation, a
removal, the drop of the last clone, a refused insertion.

`Heap.Drained` is the account of one stream: what its consumer has received, and then
what is still queued, is what was pushed.
-/
import SignalR.Deferrals

namespace SignalR

variable {V : Type}

/-! ### Received and queued -/

/-- What a poll has received from a stream. -/
def Effect.receivedFrom (st : Nat) : Effect V → Option (Option V)
  | .received st' x => if st' = st then some x else none
  | _ => none

namespace Heap

/-- What the polls have received from a stream, items and ends. -/
def received (h : Heap V) (st : Nat) : List (Option V) :=
  h.log.filterMap (Effect.receivedFrom st)

/-- What has been received and what is queued is what was pushed, and a stream to come is
as new. -/
structure Drained (h : Heap V) : Prop where
  fresh : ∀ st, h.streamCount ≤ st → h.streams st = .new ∧ h.received st = []
  drained : ∀ st, h.received st ++ (h.streams st).queue = (h.streams st).pushed

theorem drained_empty : (empty : Heap V).Drained where
  fresh := fun _ _ => ⟨rfl, rfl⟩
  drained := fun _ => rfl

variable {h h' : Heap V} {l : List (Effect V)}

/-- Effects without a reception add none. -/
theorem received_append (hlog : h'.log = h.log ++ l)
    (hl : ∀ e ∈ l, ∀ st, e.receivedFrom st = none) (st : Nat) :
    h'.received st = h.received st := by
  have hnone : l.filterMap (Effect.receivedFrom st) = [] :=
    List.filterMap_eq_nil_iff.mpr fun e he => hl e he st
  rw [received, hlog, List.filterMap_append, hnone, List.append_nil, received]

/-- A change that leaves the streams alone and logs no reception. -/
theorem Drained.append (hd : h.Drained) (hstreams : h'.streams = h.streams)
    (hcount : h'.streamCount = h.streamCount) (hlog : h'.log = h.log ++ l)
    (hl : ∀ e ∈ l, ∀ st, e.receivedFrom st = none) : h'.Drained where
  fresh := fun st hst => by
    rw [hstreams, received_append hlog hl]
    exact hd.fresh st (hcount ▸ hst)
  drained := fun st => by
    rw [hstreams, received_append hlog hl]
    exact hd.drained st

theorem Drained.newFuture (hd : h.Drained) : h.newFuture.Drained :=
  hd.append (l := []) rfl rfl (List.append_nil _).symm (by simp)

theorem Drained.complete (hd : h.Drained) (f : Nat) (r : Except String V) :
    (h.complete f r).Drained := by
  refine hd.append rfl rfl rfl fun e he st => ?_
  rcases hc : ((h.futures f).completeWith r).2 with - | w | -
  all_goals
    rw [hc] at he
    simp only [completionLog, List.mem_cons, List.not_mem_nil, or_false] at he
  · rw [he]
    rfl
  · rcases he with rfl | rfl
    · rfl
    · rfl
  · rw [he]
    rfl

theorem Drained.pollFuture (hd : h.Drained) (f : Nat) (w : Waker) :
    (h.pollFuture f w).1.Drained := by
  refine hd.append rfl rfl rfl fun e he st => ?_
  unfold pollLog at he
  split at he <;>
    · rw [List.mem_singleton.mp he]
      rfl

theorem Drained.call (hd : h.Drained) (callback : Nat) (invocation : Invocation) :
    (h.call callback invocation).Drained := by
  refine hd.append rfl rfl rfl fun e he st => ?_
  rw [List.mem_singleton.mp he]
  rfl

/-- A stream that is created is as new already. -/
theorem Drained.streams_newStream (hd : h.Drained) : h.newStream.streams = h.streams := by
  show Function.update h.streams h.streamCount .new = h.streams
  rw [← (hd.fresh h.streamCount (Nat.le_refl _)).1, Function.update_eq_self]

theorem Drained.newStream (hd : h.Drained) : h.newStream.Drained where
  fresh := fun st hst => by
    rw [hd.streams_newStream]
    exact hd.fresh st (Nat.le_of_succ_le hst)
  drained := fun st => by
    rw [hd.streams_newStream]
    exact hd.drained st

theorem pushed_enqueue (h : Heap V) (st st' : Nat) (x : Option V) :
    ((h.enqueue st x).streams st').pushed
      = if st' = st then (h.streams st).pushed ++ [x] else (h.streams st').pushed := by
  show (Function.update h.streams st _ st').pushed = _
  split
  · rename_i hst
    rw [hst, Function.update_self]
    rfl
  · rename_i hst
    rw [Function.update_of_ne hst]

theorem received_enqueue (h : Heap V) (st st' : Nat) (x : Option V) :
    (h.enqueue st x).received st' = h.received st' := by
  refine received_append rfl (fun e he st' => ?_) st'
  unfold wakeLog at he
  split at he
  · rw [List.mem_singleton.mp he]
    rfl
  · simp at he

theorem Drained.enqueue (hd : h.Drained) {st : Nat} (hst : st < h.streamCount) (x : Option V) :
    (h.enqueue st x).Drained where
  fresh := fun st' hst' => by
    have hne : st' ≠ st := Nat.ne_of_gt (Nat.lt_of_lt_of_le hst hst')
    rw [received_enqueue]
    show Function.update h.streams st _ st' = _ ∧ _
    rw [Function.update_of_ne hne]
    exact hd.fresh st' hst'
  drained := fun st' => by
    rw [received_enqueue, pushed_enqueue, ← hd.drained]
    show _ ++ (Function.update h.streams st _ st').queue = _
    split
    · rename_i heq
      rw [heq, Function.update_self]
      show _ ++ ((h.streams st).queue ++ [x]) = _
      rw [← List.append_assoc]
    · rename_i hne
      rw [Function.update_of_ne hne, hd.drained]

theorem pushed_pollStream (h : Heap V) (st st' : Nat) (w : Waker) :
    ((h.pollStream st w).1.streams st').pushed = (h.streams st').pushed := by
  show (Function.update h.streams st _ st').pushed = _
  by_cases hst : st' = st
  · rw [hst, Function.update_self, ManualStreamState.pushed_pollNext]
  · rw [Function.update_of_ne hst]

/-- A poll moves an item from the queue to its consumer. -/
theorem Drained.pollStream (hd : h.Drained) {st : Nat} (hst : st < h.streamCount) (w : Waker) :
    (h.pollStream st w).1.Drained := by
  have hreceived : ∀ st', (h.pollStream st w).1.received st' = h.received st' ++
      (streamPollLog st w ((h.streams st).pollNext w).2).filterMap (Effect.receivedFrom st') :=
    fun st' => List.filterMap_append
  have hother : ∀ st', st' ≠ st → (h.pollStream st w).1.received st' = h.received st' := by
    intro st' hne
    rw [hreceived]
    rcases ((h.streams st).pollNext w).2 with - | x
    · exact List.append_nil _
    · simp [streamPollLog, Effect.receivedFrom, hne.symm]
  refine ⟨fun st' hst' => ?_, fun st' => ?_⟩
  · have hne : st' ≠ st := Nat.ne_of_gt (Nat.lt_of_lt_of_le hst hst')
    rw [hother st' hne]
    show Function.update h.streams st _ st' = _ ∧ _
    rw [Function.update_of_ne hne]
    exact hd.fresh st' hst'
  · rw [pushed_pollStream, ← hd.drained]
    show _ ++ (Function.update h.streams st _ st').queue = _
    by_cases hne : st' = st
    · subst hne
      rw [hreceived, Function.update_self, ManualStreamState.pollNext]
      rcases (h.streams st').queue with - | ⟨x, rest⟩
      · simp [streamPollLog, Effect.receivedFrom]
      · simp [streamPollLog, Effect.receivedFrom]
    · rw [hother st' hne, Function.update_of_ne hne]

end Heap

namespace View

variable {u v v' w : View V} {key : String}

/-- Every primitive change keeps the account. -/
theorem Touch.drained (ht : Touch v v') (hi : v.Inv) (hd : v.heap.Drained) : v'.heap.Drained := by
  cases ht with
  | insertInvocation id decode hfree => exact hd.newFuture
  | refuseInvocation r => exact hd.newFuture.complete _ r
  | insertStream id decode hfree => exact hd.newStream
  | refuseStream => exact hd.newStream.enqueue (Nat.lt_succ_self _) none
  | insertCallback a hfree => exact hd
  | call callback invocation => exact hd.call callback invocation
  | complete r hget hf => exact hd.complete _ r
  | @enqueue key a x completed hget =>
      refine hd.enqueue ?_ x
      exact hi.allocated key (.stream a.completer) (by rw [cellAt, hget]; rfl)
  | discard hget hspent => exact hd
  | pollFuture w hf => exact hd.pollFuture _ w
  | pollStream w hst => exact hd.pollStream hst w

theorem Touches.drained (ht : Touches v v') (hi : v.Inv) (hd : v.heap.Drained) :
    v'.heap.Drained := by
  induction ht with
  | refl => exact hd
  | tail hfirst hlast ih => exact Touch.drained hlast (Touches.inv hi hfirst) ih

end View

/-! ### End markers -/

/-- Nothing but end markers has been queued. -/
def Heap.Ends (h h' : Heap V) : Prop :=
  ∀ st, ∃ n, (h'.streams st).pushed = (h.streams st).pushed ++ List.replicate n none

namespace Heap.Ends

variable {h h' h'' : Heap V}

theorem of_streams (hstreams : h'.streams = h.streams) : Ends h h' := fun st =>
  ⟨0, by rw [hstreams, List.replicate_zero, List.append_nil]⟩

theorem refl (h : Heap V) : Ends h h :=
  of_streams rfl

theorem trans (he : Ends h h') (he' : Ends h' h'') : Ends h h'' := by
  intro st
  obtain ⟨n, hn⟩ := he st
  obtain ⟨n', hn'⟩ := he' st
  exact ⟨n + n', by rw [hn', hn, List.append_assoc, ← List.replicate_add]⟩

theorem close (h : Heap V) (st : Nat) : Ends h (h.enqueue st none) := by
  intro st'
  rw [pushed_enqueue]
  split
  · rename_i hst
    exact ⟨1, by rw [hst]; rfl⟩
  · exact ⟨0, (List.append_nil _).symm⟩

theorem streams_complete (a : InvocationAction V) (r : Except String V) (h : Heap V) :
    (a.complete r h).2.streams = h.streams := by
  rw [InvocationAction.complete]
  split <;> rfl

theorem drop (a : Action V) (h : Heap V) : Ends h (a.drop h) := by
  cases a with
  | invocation a => exact of_streams (streams_complete a _ h)
  | enumerable a => exact close h a.completer
  | callback a => exact .refl h

theorem cancel (reason : String) (a : Action V) (h : Heap V) : Ends h (a.cancel reason h).2 := by
  cases a with
  | invocation a => exact of_streams (streams_complete a _ h)
  | enumerable a => exact close h a.completer
  | callback a => exact .refl h

end Heap.Ends

open Heap

/-- Nothing but end markers has been queued, and nothing on a stream whose action is
still in the map. -/
structure View.Closes (v v' : View V) : Prop where
  ends : v.heap.Ends v'.heap
  held : ∀ key st, v'.cellAt key = some (.stream st) →
    (v'.heap.streams st).pushed = (v.heap.streams st).pushed

theorem View.Closes.of_streams {v v' : View V} (h : v'.heap.streams = v.heap.streams) :
    v.Closes v' :=
  ⟨.of_streams h, fun _ st _ => by rw [h]⟩

namespace Storage

variable {S : Serde} {capacity : Nat} {s t : Storage V} {key : String} {m : RawMessage}

theorem ends_dropKey (s : Storage V) (key : String) : s.heap.Ends (s.dropKey key).heap := by
  rw [dropKey]
  split
  · exact .drop _ _
  · exact .refl _

theorem ends_cancelKey (reason : String) (s : Storage V) (key : String) :
    s.heap.Ends (cancelKey reason s key).heap := by
  rw [cancelKey]
  split
  · exact .cancel _ _ _
  · exact .refl _

theorem ends_foldl {α : Type} {f : Storage V → α → Storage V}
    (hf : ∀ (s : Storage V) x, s.heap.Ends (f s x).heap) (l : List α) (s : Storage V) :
    s.heap.Ends (l.foldl f s).heap := by
  induction l generalizing s with
  | nil => exact .refl _
  | cons x l ih => exact (hf s x).trans (ih (f s x))

/-- An action that leaves the map ends its own stream at most. -/
theorem closes_remove (hi : s.view.Inv) (key : String) : s.view.Closes (s.remove key).view := by
  obtain ⟨action, hp, hget, hr⟩ | ⟨-, hr⟩ := s.remove_cases key
  · refine ⟨?_, fun k st hk => ?_⟩
    · rw [hr]
      exact Ends.drop action s.heap
    · have hne : k ≠ key := by
        rintro rfl
        rw [View.cellAt, view_get, get_remove_self s k hp] at hk
        simp at hk
      rw [View.cellAt, view_get, get_remove_of_ne hne] at hk
      show ((s.remove key).heap.streams st).pushed = (s.heap.streams st).pushed
      rw [hr]
      cases action with
      | invocation a => exact congrArg (fun f => (f st).pushed) (Ends.streams_complete a _ _)
      | enumerable a =>
          show ((s.heap.enqueue a.completer none).streams st).pushed = _
          rw [pushed_enqueue, if_neg]
          rintro rfl
          have hcell : s.view.cellAt key = some (.stream a.completer) := by
            rw [View.cellAt, view_get, hget]
            rfl
          exact hne (hi.unique k key _ hk hcell)
      | callback a => rfl
  · rw [hr]
    exact .of_streams rfl

theorem closes_cancelPending (s : Storage V) (reason : String) :
    s.view.Closes (s.cancelPending reason).view := by
  by_cases hp : s.poisoned
  · rw [cancelPending, if_pos hp]
    exact .of_streams rfl
  · refine ⟨?_, fun key st hk => ?_⟩
    · rw [cancelPending, if_neg hp]
      exact (ends_foldl (ends_cancelKey reason) _ s).trans (ends_foldl ends_dropKey _ _)
    · rw [cellAt_cancelPending (by simpa using hp) reason key] at hk
      simp at hk

theorem get_clear (s : Storage V) (key : String) : s.clear.get key = none := by
  rw [clear, get_foldl_dropKey]
  split
  · rfl
  · rename_i hkey
    exact AList.lookup_eq_none.mpr hkey

/-- The last clone takes every action with it. -/
theorem closes_dropHandle (s : Storage V) : s.view.Closes s.dropHandle.view := by
  show s.view.Closes (if s.strongCount = 1 then s.clear else s).view
  split
  · refine ⟨ends_foldl ends_dropKey _ s, fun key st hk => ?_⟩
    rw [View.cellAt, view_get, get_clear] at hk
    simp at hk
  · exact .of_streams rfl

theorem get_dropHandle {a : Action V} (h : s.dropHandle.get key = some a) :
    s.get key = some a := by
  have hget : (if s.strongCount = 1 then s.clear else s).get key = some a := h
  split at hget
  · rw [get_clear] at hget
    simp at hget
  · exact hget

/-- A removal, and then perhaps the drop of the last clone. -/
theorem closes_cleanup (hi : s.view.Inv) (key : String) :
    s.view.Closes (s.remove key).dropHandle.view := by
  have hremove := closes_remove hi key
  have hdrop := closes_dropHandle (s.remove key)
  refine ⟨hremove.ends.trans hdrop.ends, fun k st hk => ?_⟩
  rw [hdrop.held k st hk]
  refine hremove.held k st ?_
  obtain ⟨a, ha, hcell⟩ := Option.bind_eq_some_iff.mp hk
  exact Option.bind_eq_some_iff.mpr ⟨a, get_dropHandle ha, hcell⟩

/-- A refused stream is ended at once, and never was in the map. -/
theorem closes_addStream (hi : s.view.Inv) (hd : s.heap.Drained) (id : String)
    (decode : DeserializeOwned V) : s.view.Closes (s.addStream id decode).view := by
  rw [addStream]
  obtain ⟨-, -, hins⟩ | ⟨-, hins⟩ := insert_cases
    { s with heap := (EnumerableAction.new id decode s.heap).2 } id
    (.enumerable (EnumerableAction.new id decode s.heap).1)
  · rw [hins]
    exact .of_streams hd.streams_newStream
  · rw [hins]
    refine ⟨?_, fun key st hk => ?_⟩
    · exact (Ends.of_streams hd.streams_newStream).trans (.close _ _)
    · have hne : st ≠ s.heap.streamCount := by
        rintro rfl
        exact s.heap.not_allocated_stream (hi.allocated key _ hk)
      show ((s.heap.newStream.enqueue s.heap.streamCount none).streams st).pushed = _
      rw [pushed_enqueue, if_neg hne, hd.streams_newStream]
      rfl

/-! ### Invocations of the server -/

/-- The streams stay as they are when an action is updated with an invocation. -/
theorem streams_updateWith (hm : m.messageType = .invocation) (a : Action V) (h : Heap V) :
    (a.updateWith S m h).2.1.streams = h.streams := by
  cases a with
  | invocation a => simp [Action.updateWith, InvocationAction.updateWith, hm]
  | enumerable a => simp [Action.updateWith, EnumerableAction.updateWith, hm]
  | callback a =>
      simp only [Action.updateWith, CallbackAction.updateWith, hm]
      split <;> rfl

theorem streams_update (hm : m.messageType = .invocation) :
    (s.update key (Action.updateWith S m)).1.heap.streams = s.heap.streams := by
  obtain ⟨action, -, -, hu⟩ | ⟨-, e, hu⟩ := s.update_cases key (Action.updateWith S m)
  · rw [hu]
    exact streams_updateWith hm action s.heap
  · rw [hu]

theorem streams_deferMessage (hm : m.messageType = .invocation) :
    (s.deferMessage S key m).1.heap.streams = s.heap.streams := by
  obtain ⟨-, hd, -⟩ | ⟨-, -, hd⟩ | ⟨-, hd⟩ := s.deferMessage_cases S key m
  · rw [hd]
    exact streams_update hm
  · rw [hd]
  · rw [hd]

theorem streams_replay {l : List RawMessage} (hl : ∀ m ∈ l, m.messageType = .invocation) :
    (replay S key l s).1.heap.streams = s.heap.streams := by
  apply replay_invariant (I := fun t => t.heap.streams = s.heap.streams)
  · exact fun m hm t ht => (streams_update (hl m hm)).trans ht
  · rfl

theorem streams_replayDeferred (hq : s.Queued S capacity) (key : String) :
    (s.replayDeferred S key).1.heap.streams = s.heap.streams := by
  rw [replayDeferred_eq_replay]
  exact streams_replay fun m hm => (RawMessage.invokes_iff.mp (hq.invokes key m hm)).2

theorem streams_insert_callback (c : CallbackAction) :
    (s.insert key (.callback c)).heap.streams = s.heap.streams := by
  obtain ⟨-, -, hi⟩ | ⟨-, hi⟩ := s.insert_cases key (.callback c)
  · rw [hi]
  · rw [hi]
    rfl

/-! ### Every operation but the records of streams and completions -/

/-- The operations apart from the reader's records: the sections of an invocation are
among them, and everything that others do. -/
def Side (S : Serde) : StorageOp V → Prop
  | .processMessage _ => False
  | .dispatch key m => m.Invokes S key
  | .deferMessage key m => m.Invokes S key
  | _ => True

instance (S : Serde) : (op : StorageOp V) → Decidable (Side S op)
  | .processMessage _ => .isFalse id
  | .dispatch key m | .deferMessage key m => inferInstanceAs (Decidable (m.Invokes S key))
  | .createKey _ | .addInvocation _ _ | .addStream _ _ | .addCallback _ _ | .replayDeferred _
  | .insertCallback _ _ | .cancelPending _ | .remove _ | .cleanup _ | .clone | .dropHandle
  | .pollFuture _ _ | .pollStream _ _ => .isTrue trivial

/-- **Such an operation queues end markers only**, on streams whose action is gone. -/
theorem run_closes {op : StorageOp V} (hi : s.view.Inv) (hd : s.heap.Drained)
    (hq : s.Queued S capacity) (hside : Side S op) : s.view.Closes (s.run S op).view := by
  cases op with
  | createKey target => exact .of_streams rfl
  | addInvocation id decode =>
      refine .of_streams ?_
      show (insert { s with heap := _ } id _).heap.streams = s.heap.streams
      obtain ⟨-, -, hins⟩ | ⟨-, hins⟩ := insert_cases
        { s with heap := (InvocationAction.new id decode s.heap).2 } id
        (.invocation (InvocationAction.new id decode s.heap).1)
      · rw [hins]
        rfl
      · rw [hins]
        exact Ends.streams_complete _ _ _
  | addStream id decode => exact closes_addStream hi hd id decode
  | addCallback target callback =>
      refine .of_streams ?_
      exact (streams_replayDeferred (hq.of_deferral (deferral_insert _)) target).trans
        (streams_insert_callback _)
  | processMessage m => exact hside.elim
  | dispatch key m => exact .of_streams (streams_update (RawMessage.invokes_iff.mp hside).2)
  | deferMessage key m =>
      exact .of_streams (streams_deferMessage (RawMessage.invokes_iff.mp hside).2)
  | replayDeferred key => exact .of_streams (streams_replayDeferred hq key)
  | insertCallback target callback => exact .of_streams (streams_insert_callback _)
  | cancelPending reason => exact closes_cancelPending s reason
  | remove key => exact closes_remove hi key
  | cleanup key => exact closes_cleanup hi key
  | clone => exact .of_streams rfl
  | dropHandle => exact closes_dropHandle s
  | pollFuture f w => exact .of_streams rfl
  | pollStream st w =>
      exact ⟨fun st' => ⟨0, by
        rw [List.replicate_zero, List.append_nil]
        exact pushed_pollStream s.heap st st' w⟩, fun _ st' _ => pushed_pollStream s.heap st st' w⟩

end Storage

end SignalR
