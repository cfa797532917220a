/-
SignalR/Verdicts.lean

What a caller gets, read off the run.  Each operation of the storage has a verdict on a
pending invocation, or none: a completion for its key says what the record says, a
cancellation gives its reason, and whatever drops the action says that the invocation was
cancelled.  The first verdict of a run is the result of the call, and without a verdict
the call is pending (`first_verdict_decides`).

The verdicts do not look at the cells or at the action: they are the specification of a
call as a one-shot variable that many parties write to.  Nothing else in a run matters to
the call, neither records for other keys nor how the operations are interleaved, so
replies may come in any order (`replies_in_any_order`).
-/
import SignalR.Cancellation
import SignalR.Items
import SignalR.Outcomes

namespace SignalR

open Transition

variable {V : Type}

/-! ### The log of a future -/

/-- A poll returns the value that was stored. -/
theorem FutureState.poll_ready {α : Type} {s : FutureState α} {w : Waker} {v : α}
    (h : (s.poll w).2 = .ready v) : s = .complete (some v) := by
  by_cases hs : s.isCompleted = true
  · rcases s with - | w' | - | v'
    · simp at hs
    · simp [FutureState.isCompleted] at hs
    · simp [FutureState.poll] at h
    · obtain rfl : v' = v := by simpa [FutureState.poll] using h
      rfl
  · rw [FutureState.poll_of_not_isCompleted (by simpa using hs)] at h
    simp at h

/-- A poll leaves no value behind. -/
theorem FutureState.poll_state_ne {α : Type} (s : FutureState α) (w : Waker) (v : α) :
    (s.poll w).1 ≠ .complete (some v) := by
  by_cases hs : s.isCompleted = true
  · rcases s with - | w' | - | v' <;> simp_all [FutureState.poll, FutureState.isCompleted]
  · rw [FutureState.poll_of_not_isCompleted (by simpa using hs)]
    simp

namespace Heap

variable {h : Heap V} {f : Nat} {r r' : Except String V}

/-- The values in the cells and the results of the polls are those of resolutions. -/
structure Answered (h : Heap V) : Prop where
  stored : ∀ f r, h.ResolvedWith f r → .resolved f r ∈ h.log
  ready : ∀ f r, .ready f r ∈ h.log → .resolved f r ∈ h.log

theorem answered_empty : (empty : Heap V).Answered where
  stored := fun f r h => by simp [ResolvedWith, Heap.empty, FutureState.new] at h
  ready := fun f r h => absurd h List.not_mem_nil

/-- The completion of an unresolved future is a resolution. -/
theorem resolved_mem_complete (hu : ¬ h.Resolved f) : .resolved f r ∈ (h.complete f r).log := by
  rw [complete, FutureState.completeWith]
  rw [Resolved] at hu
  rcases hs : h.futures f with - | w | v
  · simp [FutureState.completed, completionLog]
  · simp [FutureState.completed, completionLog]
  · simp [hs, FutureState.isCompleted] at hu

/-- A future is resolved only once, so with one result. -/
theorem Logged.result_unique (hf : h.Logged f) (hr : .resolved f r ∈ h.log)
    (hr' : .resolved f r' ∈ h.log) : r = r' := by
  have hcount : (h.log.filter (Effect.resolves f)).length ≤ 1 := by
    rw [← List.countP_eq_length_filter]
    have hcount := hf.count
    rw [resolutions] at hcount
    rw [hcount]
    split
    · exact Nat.le_refl 1
    · exact Nat.zero_le 1
  have hmem : ∀ {r}, .resolved f r ∈ h.log →
      Effect.resolved f r ∈ h.log.filter (Effect.resolves f) := fun hr =>
    List.mem_filter.mpr ⟨hr, by simp [Effect.resolves]⟩
  rcases hl : h.log.filter (Effect.resolves f) with - | ⟨e, - | ⟨e', l⟩⟩
  · exact absurd (hmem hr) (by simp [hl])
  · have he := hmem hr
    have he' := hmem hr'
    rw [hl, List.mem_singleton] at he he'
    exact (Effect.resolved.inj (he.trans he'.symm)).2
  · rw [hl] at hcount
    simp at hcount

/-- A resolution in the log and a resolved future are the same. -/
theorem Logged.resolved_iff (hf : h.Logged f) : h.Resolved f ↔ ∃ r, .resolved f r ∈ h.log := by
  have hcount := hf.count
  rw [resolutions] at hcount
  constructor
  · intro hres
    rw [if_pos hres] at hcount
    obtain ⟨e, he, hresolves⟩ := List.countP_pos_iff.mp (hcount ▸ Nat.one_pos)
    cases e with
    | resolved g r =>
        obtain rfl : g = f := by simpa [Effect.resolves] using hresolves
        exact ⟨r, he⟩
    | _ => simp [Effect.resolves] at hresolves
  · rintro ⟨r, hr⟩
    by_contra hnot
    rw [if_neg hnot, List.countP_eq_zero] at hcount
    exact hcount _ hr (by simp [Effect.resolves])

/-- A change that logs no answer and leaves the futures alone. -/
theorem Answered.append {h' : Heap V} {l : List (Effect V)} (ha : h.Answered)
    (hfutures : h'.futures = h.futures) (hlog : h'.log = h.log ++ l)
    (hl : ∀ f r, .ready f r ∉ l) : h'.Answered where
  stored := fun f r hr => by
    rw [ResolvedWith, hfutures] at hr
    rw [hlog]
    exact List.mem_append_left _ (ha.stored f r hr)
  ready := fun f r hr => by
    rw [hlog] at hr ⊢
    rcases List.mem_append.mp hr with hr | hr
    · exact List.mem_append_left _ (ha.ready f r hr)
    · exact absurd hr (hl f r)

theorem Answered.newFuture (ha : h.Answered) : h.newFuture.Answered where
  stored := fun f r hr => by
    refine ha.stored f r ?_
    by_cases hf : f = h.futureCount
    · subst hf
      simp [ResolvedWith, Heap.newFuture, FutureState.new] at hr
    · simpa [ResolvedWith, Heap.newFuture, hf] using hr
  ready := ha.ready

/-- The log entries of a completion are no polls. -/
theorem ready_not_mem_completionLog {g : Nat} {v : Except String V} (c : Completed) :
    .ready f r ∉ completionLog g v c := by
  cases c <;> simp [completionLog]

theorem Answered.complete (ha : h.Answered) (hu : ¬ h.Resolved f) (r : Except String V) :
    (h.complete f r).Answered where
  stored := fun g v hv => by
    by_cases hg : g = f
    · subst hg
      rw [resolvedWith_complete_iff] at hv
      rw [hv]
      exact resolved_mem_complete hu
    · refine List.mem_append_left _ (ha.stored g v ?_)
      simpa [ResolvedWith, Heap.complete, hg] using hv
  ready := fun g v hv => by
    rcases List.mem_append.mp hv with hv | hv
    · exact List.mem_append_left _ (ha.ready g v hv)
    · exact absurd hv (ready_not_mem_completionLog _)

theorem Answered.enqueue (ha : h.Answered) (st : Nat) (x : Option V) :
    (h.enqueue st x).Answered := by
  refine ha.append rfl rfl fun f r hr => ?_
  unfold wakeLog at hr
  split at hr <;> simp at hr

theorem Answered.pollFuture (ha : h.Answered) (f : Nat) (w : Waker) :
    (h.pollFuture f w).1.Answered where
  stored := fun g v hv => by
    refine List.mem_append_left _ (ha.stored g v ?_)
    by_cases hg : g = f
    · subst hg
      have hpoll : ((h.futures g).poll w).1 = .complete (some v) := by
        simpa [ResolvedWith, Heap.pollFuture] using hv
      exact absurd hpoll (FutureState.poll_state_ne _ w v)
    · simpa [ResolvedWith, Heap.pollFuture, hg] using hv
  ready := fun g v hv => by
    rcases List.mem_append.mp hv with hv | hv
    · exact List.mem_append_left _ (ha.ready g v hv)
    · rcases hp : ((h.futures f).poll w).2 with - | v'
      · simp [hp, pollLog] at hv
      · rw [hp, pollLog, List.mem_singleton] at hv
        obtain ⟨rfl, rfl⟩ := Effect.ready.inj hv
        exact List.mem_append_left _ (ha.stored g v (FutureState.poll_ready hp))

end Heap

namespace View

variable {v v' : View V}

theorem Touch.answered (ht : Touch v v') (hi : v.Inv) (ha : v.heap.Answered) :
    v'.heap.Answered := by
  cases ht with
  | insertInvocation id decode hfree => exact ha.newFuture
  | refuseInvocation r =>
      exact ha.newFuture.complete (Heap.not_resolved_newFuture v.heap) r
  | insertStream id decode hfree =>
      exact ha.append (l := []) rfl (List.append_nil _).symm fun _ _ => List.not_mem_nil
  | refuseStream =>
      have hnew : v.heap.newStream.Answered :=
        ha.append (l := []) rfl (List.append_nil _).symm fun _ _ => List.not_mem_nil
      exact hnew.enqueue _ none
  | insertCallback a hfree => exact ha
  | call callback invocation => exact ha.append rfl rfl fun f r => by simp
  | @complete key a f r hget hf =>
      refine ha.complete (hi.unresolved key f ?_) r
      simp [armedAt, hget, Action.armed, hf]
  | enqueue x completed hget => exact ha.enqueue _ x
  | discard hget hspent => exact ha
  | pollFuture w hf => exact ha.pollFuture _ w
  | @pollStream st w hst =>
      refine ha.append rfl rfl fun f r hr => ?_
      unfold Heap.streamPollLog at hr
      split at hr <;> simp at hr

theorem Touches.answered (ht : Touches v v') (hi : v.Inv) (ha : v.heap.Answered) :
    v'.heap.Answered := by
  induction ht with
  | refl => exact ha
  | tail hfirst hlast ih => exact Touch.answered hlast (Touches.inv hi hfirst) ih

/-- The log only grows. -/
theorem Touches.log_prefix (ht : Touches v v') : v.heap.log <+: v'.heap.log := by
  induction ht with
  | refl => exact List.prefix_rfl
  | tail _ hlast ih =>
      refine ih.trans ?_
      cases hlast with
      | refuseInvocation r => exact List.prefix_append _ _
      | refuseStream => exact List.prefix_append _ _
      | call callback invocation => exact List.prefix_append _ _
      | complete r hget hf => exact List.prefix_append _ _
      | enqueue x completed hget => exact List.prefix_append _ _
      | pollFuture w hf => exact List.prefix_append _ _
      | pollStream w hst => exact List.prefix_append _ _
      | _ => exact List.prefix_rfl

end View

/-! ### Verdicts -/

/-- What a record says of the call that waits under a key, if it is a completion for the
key that the caller's type can read. -/
def RawMessage.answer (S : Serde) (m : RawMessage) (key : String) (decode : DeserializeOwned V) :
    Option (Except String V) :=
  if m.messageType = .completion ∧ m.routingKey S = some key then
    (deserialize S (Completion.decode decode) m.bytes m.protocol).toOption.map
      Completion.intoResult
  else none

theorem RawMessage.answer_eq_some {S : Serde} {m : RawMessage} {key : String}
    {decode : DeserializeOwned V} {r : Except String V} (h : m.answer S key decode = some r) :
    m.messageType = .completion ∧ m.routingKey S = some key ∧
      ∃ x, deserialize S (Completion.decode decode) m.bytes m.protocol = .ok x ∧
        x.intoResult = r := by
  rw [answer] at h
  obtain ⟨⟨hm, hkey⟩, h⟩ := Option.ite_none_right_eq_some.mp h
  rcases hx : deserialize S (Completion.decode decode) m.bytes m.protocol with e | x
  · simp [hx, Except.toOption] at h
  · exact ⟨hm, hkey, x, rfl, by simpa [hx, Except.toOption] using h⟩

namespace Storage

/-- What a call is told when its action is dropped. -/
def cancelled : Except String V :=
  .error "Invocation was cancelled"

/-- What an operation decides about the call that waits under `key`. -/
def verdict (S : Serde) (s : Storage V) (key : String) (decode : DeserializeOwned V) :
    StorageOp V → Option (Except String V)
  | .processMessage m | .dispatch _ m => if s.poisoned then none else m.answer S key decode
  | .cancelPending reason => if s.poisoned then none else some (.error reason)
  | .remove k => if s.poisoned = false ∧ k = key then some cancelled else none
  | .cleanup k =>
      -- the clone of the cleanup may be the last one
      if s.poisoned = false ∧ k = key ∨ (s.remove k).strongCount = 1 then some cancelled else none
  | .dropHandle => if s.strongCount = 1 then some cancelled else none
  | _ => none

/-- The first verdict of a run. -/
def firstVerdict (S : Serde) (key : String) (decode : DeserializeOwned V) :
    Storage V → List (StorageOp V) → Option (Except String V)
  | _, [] => none
  | s, op :: ops => (s.verdict S key decode op).or (firstVerdict S key decode (s.run S op) ops)

/-- An invocation waits under a key for its future to be resolved. -/
structure Waits (s : Storage V) (key : String) (a : InvocationAction V) (f : Nat) : Prop where
  get : s.get key = some (.invocation a)
  completer : a.completer = some f

variable {S : Serde} {capacity : Nat} {s t : Storage V} {key k : String} {f : Nat}
  {a : InvocationAction V} {m : RawMessage} {r : Except String V} {op : StorageOp V}

theorem Waits.not_resolved (hw : s.Waits key a f) (hi : s.view.Inv) : ¬ s.heap.Resolved f :=
  hi.unresolved key f (by simp [View.armedAt, hw.get, Action.armed, hw.completer])

/-- The result of a waiting call, with its action still in the map or not. -/
theorem Waits.resolved_mem (hw : s.Waits key a f) (hi : s.view.Inv)
    (ht : t.heap = (a.complete r s.heap).2) : .resolved f r ∈ t.heap.log := by
  rw [ht, InvocationAction.complete, hw.completer]
  exact Heap.resolved_mem_complete (hw.not_resolved hi)

/-! ### One key at a time -/

theorem Waits.cancelKey (hw : s.Waits key a f) (hi : s.view.Inv) (reason : String) :
    .resolved f (.error reason) ∈ (cancelKey reason s key).heap.log := by
  refine hw.resolved_mem hi ?_
  rw [Storage.cancelKey, hw.get]
  rfl

theorem Waits.dropKey (hw : s.Waits key a f) (hi : s.view.Inv) :
    .resolved f cancelled ∈ (s.dropKey key).heap.log := by
  refine hw.resolved_mem hi ?_
  rw [Storage.dropKey, hw.get]
  rfl

/-- A loop over the keys that resolves the call at its own key, and spares it before. -/
theorem Waits.foldl {g : Storage V → String → Storage V}
    (htouches : ∀ s k, Touches s.view (g s k).view)
    (hother : ∀ s k, key ≠ k → (g s k).get key = s.get key)
    (hself : ∀ s : Storage V, s.Waits key a f → s.view.Inv → .resolved f r ∈ (g s key).heap.log)
    {l : List String} (hl : key ∈ l) (hw : s.Waits key a f) (hi : s.view.Inv) :
    .resolved f r ∈ (l.foldl g s).heap.log := by
  induction l generalizing s with
  | nil => exact absurd hl List.not_mem_nil
  | cons k l ih =>
      by_cases hk : key = k
      · subst hk
        exact (View.Touches.log_prefix (foldl_touches htouches l _)).subset (hself s hw hi)
      · refine ih ((List.mem_cons.mp hl).resolve_left hk) ⟨?_, hw.completer⟩
          (View.Touches.inv hi (htouches s k))
        rw [hother s k hk, hw.get]

theorem Waits.mem_keys (hw : s.Waits key a f) : key ∈ s.data.keys :=
  AList.mem_keys.mp (AList.lookup_isSome.mp (by
    rw [show s.data.lookup key = _ from hw.get]
    rfl))

/-! ### The operations -/

theorem Waits.cancelPending (hw : s.Waits key a f) (hi : s.view.Inv) (hp : s.poisoned = false)
    (reason : String) : .resolved f (.error reason) ∈ (s.cancelPending reason).heap.log := by
  have hcancel : .resolved f (.error reason)
      ∈ (s.data.keys.foldl (Storage.cancelKey reason) s).heap.log :=
    Waits.foldl (cancelKey_touches reason) (fun s k hk => get_cancelKey_of_ne reason s hk)
      (fun s hw hi => hw.cancelKey hi reason) hw.mem_keys hw hi
  rw [Storage.cancelPending, if_neg (by simp [hp])]
  exact (View.Touches.log_prefix (foldl_touches dropKey_touches _ _)).subset hcancel

theorem Waits.clear (hw : s.Waits key a f) (hi : s.view.Inv) :
    .resolved f cancelled ∈ s.clear.heap.log := by
  refine Waits.foldl dropKey_touches (fun s k hk => ?_) (fun s hw hi => hw.dropKey hi)
    hw.mem_keys hw hi
  rw [get_dropKey, if_neg hk]

theorem Waits.dropHandle (hw : s.Waits key a f) (hi : s.view.Inv) :
    if s.strongCount = 1 then .resolved f cancelled ∈ s.dropHandle.heap.log
    else s.dropHandle.get key = some (.invocation a) := by
  rw [Storage.dropHandle]
  split
  · exact hw.clear hi
  · exact hw.get

theorem Waits.remove (hw : s.Waits key a f) (hi : s.view.Inv) (hp : s.poisoned = false) :
    .resolved f cancelled ∈ (s.remove key).heap.log := by
  rw [Storage.remove, if_neg (by simp [hp])]
  exact hw.dropKey hi

/-- A removal under another key, or with a poisoned mutex, spares the entry. -/
theorem get_remove_of_not (hk : ¬ (s.poisoned = false ∧ k = key)) :
    (s.remove k).get key = s.get key := by
  by_cases hp : s.poisoned
  · rw [Storage.remove, if_pos hp]
  · exact get_remove_of_ne fun h => hk ⟨by simpa using hp, h.symm⟩

/-- Such a removal spares the call. -/
theorem Waits.get_remove (hw : s.Waits key a f) (hk : ¬ (s.poisoned = false ∧ k = key)) :
    (s.remove k).get key = some (.invocation a) :=
  (get_remove_of_not hk).trans hw.get

/-- An invocation record says nothing to a call. -/
theorem Waits.get_update (hw : s.Waits key a f) (hm : m.messageType ≠ .completion) (k : String) :
    (s.update k (Action.updateWith S m)).1.get key = some (.invocation a) := by
  obtain ⟨action, -, hget, hu⟩ | ⟨-, e, hu⟩ := s.update_cases k (Action.updateWith S m)
  · rw [hu]
    show (s.data.insert k _).lookup key = _
    by_cases hk : key = k
    · subst hk
      obtain rfl : action = .invocation a := Option.some.inj (hget.symm.trans hw.get)
      rw [AList.lookup_insert]
      rcases htype : m.messageType <;>
        simp_all [Action.updateWith, InvocationAction.updateWith]
    · rw [AList.lookup_insert_ne hk]
      exact hw.get
  · rw [hu]
    exact hw.get

theorem Waits.get_deferMessage (hw : s.Waits key a f) (hm : m.Invokes S k) :
    (s.deferMessage S k m).1.get key = some (.invocation a) := by
  obtain ⟨-, htype⟩ := RawMessage.invokes_iff.mp hm
  obtain ⟨-, hd, -⟩ | ⟨-, -, hd⟩ | ⟨-, hd⟩ := s.deferMessage_cases S k m
  · rw [hd]
    exact hw.get_update (by simp [htype]) k
  · rw [hd]
    exact hw.get
  · rw [hd]
    exact hw.get

theorem Waits.get_replayDeferred (hw : s.Waits key a f) (hq : s.Queued S capacity) (k : String) :
    (s.replayDeferred S k).1.get key = some (.invocation a) := by
  rw [replayDeferred_eq_replay]
  apply replay_invariant (I := fun t => t.get key = some (.invocation a))
  · intro m hm t ht
    obtain ⟨-, htype⟩ := RawMessage.invokes_iff.mp (hq.invokes k m hm)
    exact Waits.get_update ⟨ht, hw.completer⟩ (by simp [htype]) k
  · exact hw.get

/-- A record in one section. -/
theorem Waits.dispatch (hw : s.Waits key a f) (hi : s.view.Inv) (hp : s.poisoned = false)
    (hkey : m.routingKey S = some k) :
    match m.answer S key a.decode with
    | some r => .resolved f r ∈ (s.update k (Action.updateWith S m)).1.heap.log
    | none => (s.update k (Action.updateWith S m)).1.get key = some (.invocation a) := by
  by_cases hm : m.messageType = .completion
  swap
  · rw [RawMessage.answer, if_neg fun h => hm h.1]
    exact hw.get_update hm k
  by_cases hk : k = key
  swap
  · rw [RawMessage.answer, if_neg fun h => hk (Option.some.inj (hkey.symm.trans h.2))]
    obtain ⟨action, -, -, hu⟩ | ⟨-, e, hu⟩ := s.update_cases k (Action.updateWith S m)
    · rw [hu]
      show (s.data.insert k _).lookup key = _
      rw [AList.lookup_insert_ne (Ne.symm hk)]
      exact hw.get
    · rw [hu]
      exact hw.get
  subst hk
  rw [RawMessage.answer, if_pos ⟨hm, hkey⟩]
  have hu : s.update k (Action.updateWith S m) = ({ s with
      data := s.data.insert k ((Action.invocation a).updateWith S m s.heap).1
      heap := ((Action.invocation a).updateWith S m s.heap).2.1
      poisoned := decide (((Action.invocation a).updateWith S m s.heap).2.2 = .panic) },
      ((Action.invocation a).updateWith S m s.heap).2.2) := by
    rw [update, if_neg (by simp [hp]), hw.get]
  rw [hu]
  rcases hx : deserialize S (Completion.decode a.decode) m.bytes m.protocol with e | x
  · show (s.data.insert k _).lookup k = _
    rw [AList.lookup_insert]
    simp [Action.updateWith, InvocationAction.updateWith, hm, hx]
  · refine hw.resolved_mem hi ?_
    simp [Action.updateWith, InvocationAction.updateWith, hm, hx]

/-- An invocation that a record has no answer for refuses the record. -/
theorem updateWith_of_answer (hkey : m.routingKey S = some key)
    (hanswer : m.answer S key a.decode = none) (h : Heap V) :
    ∃ e, (Action.invocation a).updateWith S m h = (.invocation a, h, .err e) := by
  rw [RawMessage.answer] at hanswer
  simp only [Action.updateWith, InvocationAction.updateWith]
  split
  · rename_i hm
    rw [if_pos ⟨hm, hkey⟩] at hanswer
    rcases hx : deserialize S (Completion.decode a.decode) m.bytes m.protocol with e | x
    · exact ⟨e, rfl⟩
    · simp [hx, Except.toOption] at hanswer
  · exact ⟨_, rfl⟩

/-- A whole record. -/
theorem Waits.processMessage (hw : s.Waits key a f) (hi : s.view.Inv) (hp : s.poisoned = false)
    (m : RawMessage) :
    match m.answer S key a.decode with
    | some r => .resolved f r ∈ (s.processMessage S m).1.heap.log
    | none => (s.processMessage S m).1.get key = some (.invocation a) := by
  rcases hkey : m.routingKey S with - | k
  · obtain ⟨o, -, h⟩ := processMessage_unrouted (V := V) hkey
    rw [RawMessage.answer, if_neg (by simp [hkey]), h s]
    exact hw.get
  obtain ⟨hreacts, -⟩ := processMessage_reacts (S := S) hp hkey
  by_cases hk : k = key
  swap
  · rw [RawMessage.answer, if_neg fun h => hk (Option.some.inj (hkey.symm.trans h.2))]
    exact (hreacts.get_of_ne (Ne.symm hk)).trans hw.get
  subst hk
  rcases hanswer : m.answer S k a.decode with - | r
  · obtain ⟨e, he⟩ := updateWith_of_answer hkey hanswer .empty
    rw [hw.get, reaction, if_neg (by simp [he])] at hreacts
    show (s.processMessage S m).1.get k = _
    rw [hreacts.get, Function.update_self, he]
  · obtain ⟨hm, -, x, hx, rfl⟩ := RawMessage.answer_eq_some hanswer
    rw [RawMessage.routingKey, hm] at hkey
    obtain ⟨possible, hroute, hid⟩ := possibleInvocation_of_bind hkey
    show .resolved f x.intoResult ∈ (s.processMessage S m).1.heap.log
    rw [processMessage_completion_complete hp hw.get hw.completer hm hid hroute hx]
    exact Heap.resolved_mem_complete (hw.not_resolved hi)

/-- **The step lemma.**  An operation with a verdict resolves the call with it, and one
without leaves the call waiting. -/
theorem Waits.run (hw : s.Waits key a f) (hi : s.view.Inv) (hq : s.Queued S capacity)
    (hrouted : Routed S s op) :
    match s.verdict S key a.decode op with
    | some r => .resolved f r ∈ (s.run S op).heap.log
    | none => (s.run S op).get key = some (.invocation a) := by
  cases op with
  | createKey target => exact hw.get
  | addInvocation id decode =>
      have hget : ({ s with heap := (InvocationAction.new id decode s.heap).2 } : Storage V).get key
        = some (.invocation a) := hw.get
      exact get_insert_of_some hget _
  | addStream id decode =>
      have hget : ({ s with heap := (EnumerableAction.new id decode s.heap).2 } : Storage V).get key
        = some (.invocation a) := hw.get
      exact get_insert_of_some hget _
  | addCallback target callback =>
      have hinsert : (s.insert target (.callback { target, callback })).get key
        = some (.invocation a) := get_insert_of_some hw.get _
      exact Waits.get_replayDeferred (s := s.insert target _) ⟨hinsert, hw.completer⟩
        (hq.of_deferral (deferral_insert _)) target
  | processMessage m =>
      simp only [verdict, Storage.run]
      by_cases hp : s.poisoned
      · obtain ⟨o, -, h⟩ := processMessage_poisoned (V := V) S m
        rw [if_pos hp, h s hp]
        exact hw.get
      · rw [if_neg hp]
        exact hw.processMessage hi (by simpa using hp) m
  | dispatch k m =>
      simp only [verdict, Storage.run]
      by_cases hp : s.poisoned
      · rw [if_pos hp, update_of_poisoned hp]
        exact hw.get
      · rw [if_neg hp]
        exact hw.dispatch hi (by simpa using hp) hrouted
  | deferMessage k m => exact hw.get_deferMessage hrouted
  | replayDeferred k => exact hw.get_replayDeferred hq k
  | insertCallback target callback => exact get_insert_of_some hw.get _
  | cancelPending reason =>
      simp only [verdict, Storage.run]
      by_cases hp : s.poisoned
      · rw [if_pos hp, Storage.cancelPending, if_pos hp]
        exact hw.get
      · rw [if_neg hp]
        exact hw.cancelPending hi (by simpa using hp) reason
  | remove k =>
      simp only [verdict, Storage.run]
      by_cases hk : s.poisoned = false ∧ k = key
      · rw [if_pos hk, hk.2]
        exact hw.remove hi hk.1
      · rw [if_neg hk]
        exact hw.get_remove hk
  | cleanup k =>
      simp only [verdict, Storage.run]
      by_cases hk : s.poisoned = false ∧ k = key
      · rw [if_pos (.inl hk), hk.2]
        exact (View.Touches.log_prefix (dropHandle_touches _)).subset (hw.remove hi hk.1)
      · have hremoved : (s.remove k).Waits key a f := ⟨hw.get_remove hk, hw.completer⟩
        have hdrop := hremoved.dropHandle (View.Touches.inv hi (remove_touches s k))
        by_cases hlast : (s.remove k).strongCount = 1
        · rw [if_pos (.inr hlast)]
          rwa [if_pos hlast] at hdrop
        · rw [if_neg fun h => h.elim hk hlast]
          rwa [if_neg hlast] at hdrop
  | clone => exact hw.get
  | dropHandle =>
      simp only [verdict, Storage.run]
      have hdrop := hw.dropHandle hi
      by_cases hlast : s.strongCount = 1
      · rw [if_pos hlast] at hdrop ⊢
        exact hdrop
      · rw [if_neg hlast] at hdrop ⊢
        exact hdrop
  | pollFuture g w => exact hw.get
  | pollStream st w => exact hw.get

/-! ### Runs -/

/-- What every reachable storage has. -/
structure Sound (S : Serde) (capacity : Nat) (s : Storage V) : Prop where
  view : s.view.Inv
  queued : s.Queued S capacity
  answered : s.heap.Answered

theorem Sound.run (hs : s.Sound S capacity) (hrouted : Routed S s op) (hen : s.enabled op) :
    (s.run S op).Sound S capacity where
  view := View.Touches.inv hs.view (run_touches S hen)
  queued := hs.queued.run hrouted
  answered := View.Touches.answered (run_touches S hen) hs.view hs.answered

theorem sound_of_reaches
    (h : Reaches (step S) (Routed S) (newWithDeferredMessageCapacity capacity) s) :
    s.Sound S capacity := by
  refine Reaches.invariant (I := Sound S capacity) h ?_ fun s op t hs hrouted hst => ?_
  · exact ⟨.empty, queued_of_reaches (.refl _), Heap.answered_empty⟩
  · obtain ⟨hen, rfl⟩ := guard_of_eq_some hst
    exact hs.run hrouted hen

theorem Sound.run_keeps {ops : List (StorageOp V)} (hs : s.Sound S capacity)
    (hrun : Run (step S) (Routed S) s ops t) :
    t.Sound S capacity ∧ s.heap.log <+: t.heap.log := by
  refine hrun.invariant (I := fun u => u.Sound S capacity ∧ s.heap.log <+: u.heap.log)
    ⟨hs, List.prefix_rfl⟩ fun u op v hu hrouted hst => ?_
  obtain ⟨hen, rfl⟩ := guard_of_eq_some hst
  exact ⟨hu.1.run hrouted hen, hu.2.trans (View.Touches.log_prefix (run_touches S hen))⟩

/-- **The run lemma.**  The first verdict is in the log, and without one the action is
still in the map. -/
theorem Waits.run_verdict {ops : List (StorageOp V)} (hw : s.Waits key a f)
    (hs : s.Sound S capacity) (hrun : Run (step S) (Routed S) s ops t) :
    t.Sound S capacity ∧
      match firstVerdict S key a.decode s ops with
      | some r => .resolved f r ∈ t.heap.log
      | none => t.get key = some (.invocation a) := by
  refine ⟨(hs.run_keeps hrun).1, ?_⟩
  induction hrun with
  | nil s => exact hw.get
  | @cons s u t op ops hrouted hst hrest ih =>
      obtain ⟨hen, rfl⟩ := guard_of_eq_some hst
      have hstep := hw.run hs.view hs.queued hrouted
      have hs' := hs.run hrouted hen
      rw [firstVerdict]
      rcases hv : s.verdict S key a.decode op with - | r
      · rw [hv] at hstep
        rw [Option.none_or]
        exact ih ⟨hstep, hw.completer⟩ hs'
      · rw [hv] at hstep
        -- once it is in the log, a resolution stays there
        exact (hs'.run_keeps hrest).2.subset hstep

/-- The verdicts of a run, the resolutions in the log and the answers to polls agree. -/
theorem Waits.decided {ops : List (StorageOp V)} (hw : s.Waits key a f) (hs : s.Sound S capacity)
    (hrun : Run (step S) (Routed S) s ops t) :
    (t.heap.Resolved f ↔ (firstVerdict S key a.decode s ops).isSome) ∧
      (∀ r, .resolved f r ∈ t.heap.log ↔ firstVerdict S key a.decode s ops = some r) ∧
      ∀ r, .ready f r ∈ t.heap.log → firstVerdict S key a.decode s ops = some r := by
  obtain ⟨ht, hverdict⟩ := hw.run_verdict hs hrun
  have hlog : t.heap.Logged f := ht.view.heap.logged f
  have hiff : ∀ r, .resolved f r ∈ t.heap.log ↔ firstVerdict S key a.decode s ops = some r := by
    intro r
    rcases hv : firstVerdict S key a.decode s ops with - | r'
    · rw [hv] at hverdict
      have hwaits : t.Waits key a f := ⟨hverdict, hw.completer⟩
      refine iff_of_false (fun hr => hwaits.not_resolved ht.view ?_) (by simp)
      exact hlog.resolved_iff.mpr ⟨r, hr⟩
    · rw [hv] at hverdict
      constructor
      · intro hr
        rw [hlog.result_unique hverdict hr]
      · intro hr
        rwa [← Option.some.inj hr]
  refine ⟨?_, hiff, fun r hr => (hiff r).mp (ht.answered.ready f r hr)⟩
  rw [hlog.resolved_iff, Option.isSome_iff_exists]
  exact exists_congr hiff

/-- **The first verdict decides.**  In every run from a reachable storage in which an
invocation is pending: its future is resolved exactly if some operation had a verdict, the
only result it is resolved with is the first verdict, and whatever a poll of it returns is
that verdict. -/
theorem first_verdict_decides {ops : List (StorageOp V)}
    (h : Reaches (step S) (Routed S) (newWithDeferredMessageCapacity capacity) s)
    (hw : s.Waits key a f) (hrun : Run (step S) (Routed S) s ops t) :
    (t.heap.Resolved f ↔ (firstVerdict S key a.decode s ops).isSome) ∧
      (∀ r, .resolved f r ∈ t.heap.log ↔ firstVerdict S key a.decode s ops = some r) ∧
      ∀ r, .ready f r ∈ t.heap.log → firstVerdict S key a.decode s ops = some r :=
  hw.decided (sound_of_reaches h) hrun

/-- One invocation of `add` that gets a reply of the wrong type, and is then cancelled
before the right one arrives. -/
def latePendingOps : List (StorageOp Int) :=
  [.processMessage ⟨asBytes (completionText "\"oops\""), .completion, .json⟩, .pollFuture 0 7,
    .cancelPending "Client disconnected",
    .processMessage ⟨asBytes (completionText "3"), .completion, .json⟩]

/-- The storage after `latePendingOps`. -/
def lateStorage : Storage Int :=
  latePendingOps.foldl (run completionSerde) pendingAdd

theorem first_verdict_decides_late :
    (lateStorage.heap.Resolved 0 ↔
        (firstVerdict completionSerde "add_1" .i64 pendingAdd latePendingOps).isSome) ∧
      (∀ r, .resolved 0 r ∈ lateStorage.heap.log ↔
        firstVerdict completionSerde "add_1" .i64 pendingAdd latePendingOps = some r) ∧
      ∀ r, .ready 0 r ∈ lateStorage.heap.log →
        firstVerdict completionSerde "add_1" .i64 pendingAdd latePendingOps = some r := by
  have hreach : Reaches (step completionSerde) (Routed completionSerde)
      (newWithDeferredMessageCapacity 8) pendingAdd :=
    .head (.createKey "add") trivial rfl
      (.head (.addInvocation "add_1" .i64) trivial rfl (.refl _))
  have hrun : Run (step completionSerde) (Routed completionSerde) pendingAdd latePendingOps
      lateStorage :=
    .cons trivial rfl (.cons trivial rfl (.cons trivial rfl (.cons trivial rfl (.nil _))))
  exact first_verdict_decides (a := (InvocationAction.new "add_1" .i64 .empty).1) hreach
    ⟨rfl, rfl⟩ hrun

/-! ### Replies -/

/-- A completion calls no callback. -/
theorem poisoned_processMessage_completion (hp : s.poisoned = false)
    (hm : m.messageType = .completion) : (s.processMessage S m).1.poisoned = false := by
  rcases hkey : m.routingKey S with - | k
  · obtain ⟨o, -, h⟩ := processMessage_unrouted (V := V) hkey
    rw [h s]
    exact hp
  obtain ⟨hr, -⟩ := processMessage_reacts (S := S) hp hkey
  rw [hr.poisoned, decide_eq_false_iff_not]
  rcases s.get k with - | b
  · simp [reaction, hm]
  rw [reaction]
  split
  · simp
  · intro hpanic
    obtain ⟨c, rfl⟩ := callback_of_panic hpanic
    simp [Action.updateWith, CallbackAction.updateWith, hm] at hpanic

/-- The action of a call leaves the map with the answer. -/
theorem Waits.get_processMessage (hw : s.Waits key a f) (hi : s.view.Inv)
    (hp : s.poisoned = false) (hanswer : m.answer S key a.decode = some r) :
    (s.processMessage S m).1.get key = none := by
  obtain ⟨hm, hkey, x, hx, -⟩ := RawMessage.answer_eq_some hanswer
  rw [RawMessage.routingKey, hm] at hkey
  obtain ⟨possible, hroute, hid⟩ := possibleInvocation_of_bind hkey
  have harmed : (Action.invocation a).armed = some (.future f) := by
    rw [Action.armed, hw.completer]
    rfl
  exact (processMessage_completion_ok hi hp hw.get harmed rfl hm hid hroute hx).2

theorem get_processAll_none (h : s.get key = none) (ms : List RawMessage) :
    (s.processAll S ms).get key = none := by
  induction ms generalizing s with
  | nil => exact h
  | cons m ms ih => exact ih (get_processMessage_none h m)

/-- **The run lemma of replies.**  A call is settled by its own reply, wherever it comes. -/
theorem Waits.processAll {replies : List RawMessage} (hw : s.Waits key a f) (hi : s.view.Inv)
    (hp : s.poisoned = false) (hreplies : ∀ m ∈ replies, m.messageType = .completion)
    (hkeys : (replies.map (RawMessage.routingKey S)).Nodup) :
    (∀ m ∈ replies, ∀ r, m.answer S key a.decode = some r →
        .resolved f r ∈ (s.processAll S replies).heap.log ∧
          (s.processAll S replies).get key = none) ∧
      ((∀ m ∈ replies, m.answer S key a.decode = none) →
        (s.processAll S replies).Waits key a f) := by
  induction replies generalizing s with
  | nil => exact ⟨fun m hm => absurd hm List.not_mem_nil, fun _ => hw⟩
  | cons m replies ih =>
      rw [List.map_cons, List.nodup_cons] at hkeys
      have hi' := View.Touches.inv hi (processMessage_touches S s m)
      have hp' := poisoned_processMessage_completion (S := S) hp (hreplies m List.mem_cons_self)
      have ih := fun hw' => ih (s := (s.processMessage S m).1) hw' hi' hp'
        (fun m' hm' => hreplies m' (List.mem_cons_of_mem _ hm')) hkeys.2
      rw [processAll_cons]
      rcases hanswer : m.answer S key a.decode with - | r
      · -- another call's reply, or one that the caller's type cannot read
        have hget := hw.processMessage (S := S) hi hp m
        rw [hanswer] at hget
        obtain ⟨hsome, hnone⟩ := ih ⟨hget, hw.completer⟩
        refine ⟨fun m' hm' r hr => ?_, fun hall => hnone fun m' hm' =>
          hall m' (List.mem_cons_of_mem _ hm')⟩
        rcases List.mem_cons.mp hm' with rfl | hm'
        · simp [hanswer] at hr
        · exact hsome m' hm' r hr
      · have hresolved := hw.processMessage (S := S) hi hp m
        rw [hanswer] at hresolved
        obtain ⟨-, hkey, -⟩ := RawMessage.answer_eq_some hanswer
        have hgone :=
          get_processAll_none (S := S) (hw.get_processMessage hi hp hanswer) replies
        refine ⟨fun m' hm' r' hr' => ?_, fun hall => ?_⟩
        · rcases List.mem_cons.mp hm' with rfl | hm'
          · obtain rfl := Option.some.inj (hanswer.symm.trans hr')
            have hlog := View.Touches.log_prefix
              (foldl_touches (fun s m => processMessage_touches S s m) replies
                (s.processMessage S m').1)
            exact ⟨hlog.subset hresolved, hgone⟩
          · -- a second reply for the same call is not among them
            obtain ⟨-, hkey', -⟩ := RawMessage.answer_eq_some hr'
            refine absurd ?_ hkeys.1
            rw [hkey, ← hkey']
            exact List.mem_map_of_mem hm'
        · simp [hall m List.mem_cons_self] at hanswer

/-- **Replies in any order.**  Completions for different calls may arrive in any order:
afterwards every pending call that has a reply among them which its type can read is
resolved with that reply alone and out of the map, and every other is still pending. -/
theorem replies_in_any_order {replies order : List RawMessage}
    (h : Reaches (step S) (Routed S) (newWithDeferredMessageCapacity capacity) s)
    (hp : s.poisoned = false) (hreplies : ∀ m ∈ replies, m.messageType = .completion)
    (hkeys : (replies.map (RawMessage.routingKey S)).Nodup) (horder : order.Perm replies)
    (hw : s.Waits key a f) :
    (∀ m ∈ replies, ∀ r, m.answer S key a.decode = some r →
        (∀ r', .resolved f r' ∈ (s.processAll S order).heap.log ↔ r' = r) ∧
          (s.processAll S order).get key = none) ∧
      ((∀ m ∈ replies, m.answer S key a.decode = none) →
        (s.processAll S order).Waits key a f) := by
  have hi := (sound_of_reaches h).view
  have hkeys' : (order.map (RawMessage.routingKey S)).Nodup :=
    (horder.map _).nodup_iff.mpr hkeys
  obtain ⟨hsome, hnone⟩ := hw.processAll hi hp (fun m hm => hreplies m (horder.subset hm)) hkeys'
  refine ⟨fun m hm r hr => ?_, fun hall => hnone fun m hm => hall m (horder.subset hm)⟩
  obtain ⟨hresolved, hgone⟩ := hsome m (horder.symm.subset hm) r hr
  have hlog : (s.processAll S order).heap.Logged f :=
    (View.Touches.inv hi (foldl_touches (fun s m => processMessage_touches S s m) order s)
      ).heap.logged f
  refine ⟨fun r' => ⟨fun hr' => hlog.result_unique hr' hresolved, ?_⟩, hgone⟩
  rintro rfl
  exact hresolved

/-- Replies to two calls of `add`. -/
def replySerde : Serde :=
  .ofTable []
    [([3], .obj [("type", .int 3), ("invocationId", .str "add_1"), ("result", .int 3)]),
      ([4], .obj [("type", .int 3), ("invocationId", .str "add_2"), ("result", .int 4)])]

def reply (byte : UInt8) : RawMessage :=
  ⟨[byte], .completion, .messagePack⟩

/-- Two calls of `add` are pending. -/
def twoPending : Storage Int :=
  [StorageOp.addInvocation "add_1" .i64, .addInvocation "add_2" .i64].foldl
    (run replySerde) (newWithDeferredMessageCapacity 8)

theorem replies_in_any_order_two :
    (∀ m ∈ [reply 3, reply 4], ∀ r, m.answer replySerde "add_1" .i64 = some r →
        (∀ r', .resolved 0 r'
            ∈ (twoPending.processAll replySerde [reply 4, reply 3]).heap.log ↔ r' = r) ∧
          (twoPending.processAll replySerde [reply 4, reply 3]).get "add_1" = none) ∧
      ((∀ m ∈ [reply 3, reply 4], m.answer replySerde "add_1" .i64 = none) →
        (twoPending.processAll replySerde [reply 4, reply 3]).Waits "add_1"
          (InvocationAction.new "add_1" .i64 .empty).1 0) := by
  have hreach : Reaches (step replySerde) (Routed replySerde) (newWithDeferredMessageCapacity 8)
      twoPending :=
    .head (.addInvocation "add_1" .i64) trivial rfl
      (.head (.addInvocation "add_2" .i64) trivial rfl (.refl _))
  refine replies_in_any_order (a := (InvocationAction.new "add_1" .i64 .empty).1) hreach
    rfl ?_ ?_ (.swap _ _ _) ⟨rfl, rfl⟩
  · intro m hm
    rcases List.mem_pair.mp hm with rfl | rfl <;> rfl
  · show [some "add_1", some "add_2"].Nodup
    decide

end Storage

end SignalR
