/-
SignalR/View.lean

What a storage operation can do, said once.  The `View` of a storage is the
function from keys to actions together with the heap of cells; counters, handles
and deferred messages are left out of it.  `Touch` lists the primitive changes of
a view, and every operation of `SignalR/Storage.lean` is a sequence of them
(`Touches`):

    insert a new action | refuse one | run a callback
    complete a future | feed or end a stream | discard a spent action | poll

An invariant of the storage is therefore proved once for each primitive change,
and holds after every operation, in every interleaving.
-/
import SignalR.Storage

namespace SignalR

variable {V : Type}

/-- A storage as seen through its keys and its cells. -/
structure View (V : Type) where
  get : String → Option (Action V)
  heap : Heap V

/-- The view of a storage. -/
def Storage.view (s : Storage V) : View V where
  get := s.get
  heap := s.heap

@[simp] theorem Storage.view_get (s : Storage V) : s.view.get = s.get := rfl

/-- The action has nothing left to settle: its completer is used up, its stream
has been ended, or it is a callback. -/
def Action.Spent (h : Heap V) : Action V → Prop
  | .invocation a => a.completer = none
  | .enumerable a => (h.streams a.completer).Ended
  | .callback _ => True

/-- The primitive changes. -/
inductive Touch : View V → View V → Prop
  | insertInvocation {v : View V} {key : String} (id : String) (decode : DeserializeOwned V) :
      v.get key = none →
      Touch v ⟨Function.update v.get key
        (some (.invocation (InvocationAction.new id decode v.heap).1)), v.heap.newFuture⟩
  | refuseInvocation (v : View V) (r : Except String V) :
      Touch v ⟨v.get, v.heap.newFuture.complete v.heap.futureCount r⟩
  | insertStream {v : View V} {key : String} (id : String) (decode : DeserializeOwned V) :
      v.get key = none →
      Touch v ⟨Function.update v.get key
        (some (.enumerable (EnumerableAction.new id decode v.heap).1)), v.heap.newStream⟩
  | refuseStream (v : View V) : Touch v ⟨v.get, v.heap.newStream.close v.heap.streamCount⟩
  | insertCallback {v : View V} {key : String} (a : CallbackAction) :
      v.get key = none → Touch v ⟨Function.update v.get key (some (.callback a)), v.heap⟩
  | call (v : View V) (callback : Nat) (invocation : Invocation) :
      Touch v ⟨v.get, v.heap.call callback invocation⟩
  | complete {v : View V} {key : String} {a : InvocationAction V} {f : Nat}
      (r : Except String V) :
      v.get key = some (.invocation a) → a.completer = some f →
      Touch v ⟨Function.update v.get key (some (.invocation { a with completer := none })),
        v.heap.complete f r⟩
  | enqueue {v : View V} {key : String} {a : EnumerableAction V} (x : Option V)
      (completed : Bool) :
      v.get key = some (.enumerable a) →
      Touch v ⟨Function.update v.get key (some (.enumerable { a with completed })),
        v.heap.enqueue a.completer x⟩
  | discard {v : View V} {key : String} {a : Action V} :
      v.get key = some a → a.Spent v.heap →
      Touch v ⟨Function.update v.get key none, v.heap⟩
  | pollFuture {v : View V} {f : Nat} (w : Waker) :
      f < v.heap.futureCount → Touch v ⟨v.get, (v.heap.pollFuture f w).1⟩
  | pollStream {v : View V} {st : Nat} (w : Waker) :
      st < v.heap.streamCount → Touch v ⟨v.get, (v.heap.pollStream st w).1⟩

/-- A sequence of primitive changes. -/
abbrev Touches : View V → View V → Prop := Relation.ReflTransGen Touch

/-! ### The map under insertion and removal -/

theorem lookup_insert_eq_update (d : ActionMap V) (key : String) (a : Action V) :
    (fun k => (d.insert key a).lookup k) = Function.update (fun k => d.lookup k) key (some a) := by
  funext k
  by_cases hk : k = key
  · subst hk
    simp
  · simp [hk]

theorem lookup_erase_eq_update (d : ActionMap V) (key : String) :
    (fun k => (d.erase key).lookup k) = Function.update (fun k => d.lookup k) key none := by
  funext k
  by_cases hk : k = key
  · subst hk
    simp
  · simp [hk]

/-- Writing back what a key holds changes nothing. -/
theorem update_get_self {g : String → Option (Action V)} {key : String} {a : Action V}
    (h : g key = some a) : Function.update g key (some a) = g := by
  rw [← h, Function.update_eq_self]

/-! ### Actions -/

section

variable {v : View V} {key : String}

theorem Action.updateWith_touches (S : Serde) (m : RawMessage) {a : Action V}
    (h : v.get key = some a) :
    Touches v ⟨Function.update v.get key (some (a.updateWith S m v.heap).1),
      (a.updateWith S m v.heap).2.1⟩ := by
  -- an `Err` leaves the action and the cells as they are
  have unchanged : Touches v ⟨Function.update v.get key (some a), v.heap⟩ := by
    rw [update_get_self h]
  cases a with
  | invocation a =>
      simp only [Action.updateWith, InvocationAction.updateWith]
      split
      · split
        · rename_i completion _
          rcases hc : a.completer with - | f
          · simpa [InvocationAction.complete, hc] using unchanged
          · simpa [InvocationAction.complete, hc] using
              Relation.ReflTransGen.single (Touch.complete completion.intoResult h hc)
        · exact unchanged
      · exact unchanged
  | enumerable a =>
      simp only [Action.updateWith, EnumerableAction.updateWith]
      split
      · split
        · exact .single (Touch.enqueue _ a.completed h)
        · exact unchanged
      · split
        · exact .single (Touch.enqueue none a.completed h)
        · exact unchanged
      · exact unchanged
  | callback a =>
      simp only [Action.updateWith, CallbackAction.updateWith]
      split
      · split
        · rename_i invocation _
          simpa [update_get_self h] using
            Relation.ReflTransGen.single (Touch.call v a.callback.id invocation)
        · exact unchanged
      · exact unchanged

theorem Action.cancel_touches (reason : String) {a : Action V} (h : v.get key = some a) :
    Touches v ⟨Function.update v.get key (some (a.cancel reason v.heap).1),
      (a.cancel reason v.heap).2⟩ := by
  cases a with
  | invocation a =>
      rcases hc : a.completer with - | f
      · simpa [Action.cancel, InvocationAction.cancel, InvocationAction.complete, hc,
          update_get_self h] using Relation.ReflTransGen.refl
      · simpa [Action.cancel, InvocationAction.cancel, InvocationAction.complete, hc] using
          Relation.ReflTransGen.single (Touch.complete (.error reason) h hc)
  | enumerable a => exact .single (Touch.enqueue none true h)
  | callback a =>
      show Touches v ⟨Function.update v.get key (some (.callback a)), v.heap⟩
      rw [update_get_self h]

theorem Action.drop_touches {a : Action V} (h : v.get key = some a) :
    Touches v ⟨Function.update v.get key none, a.drop v.heap⟩ := by
  cases a with
  | invocation a =>
      rcases hc : a.completer with - | f
      · have hdrop : (Action.invocation a).drop v.heap = v.heap := by
          simp [Action.drop, InvocationAction.disposeInternal, InvocationAction.complete, hc]
        rw [hdrop]
        exact .single (Touch.discard h hc)
      · have hdrop : (Action.invocation a).drop v.heap
            = v.heap.complete f (.error "Invocation was cancelled") := by
          simp [Action.drop, InvocationAction.disposeInternal, InvocationAction.complete, hc]
        have hget : (⟨Function.update v.get key (some (.invocation { a with completer := none })),
            v.heap.complete f (.error "Invocation was cancelled")⟩ : View V).get key
              = some (.invocation { a with completer := none }) := Function.update_self ..
        -- the drop completes the future first, and only then the action is spent
        have hspent := Touch.discard hget rfl
        rw [hdrop]
        simpa using (Relation.ReflTransGen.single (Touch.complete _ h hc)).tail hspent
  | enumerable a =>
      have hdrop : (Action.enumerable a).drop v.heap = v.heap.enqueue a.completer none := rfl
      -- the drop ends the stream first, and only then the action is spent
      have hended : ((v.heap.enqueue a.completer none).streams a.completer).Ended := by
        show (Function.update v.heap.streams a.completer _ a.completer).Ended
        rw [Function.update_self]
        exact ManualStreamState.ended_close _
      have hget : (⟨Function.update v.get key (some (.enumerable { a with completed := true })),
          v.heap.enqueue a.completer none⟩ : View V).get key
            = some (.enumerable { a with completed := true }) := Function.update_self ..
      have hspent := Touch.discard hget hended
      rw [hdrop]
      simpa using (Relation.ReflTransGen.single (Touch.enqueue none true h)).tail hspent
  | callback a => exact .single (Touch.discard h trivial)

end

/-! ### Operations of the storage -/

namespace Storage

variable {s : Storage V} {key : String}

theorem get_insert_data (s : Storage V) (key : String) (a : Action V) (h : Heap V) (p : Bool) :
    ({ s with data := s.data.insert key a, heap := h, poisoned := p } : Storage V).view
      = ⟨Function.update s.get key (some a), h⟩ :=
  congrArg (View.mk · h) (lookup_insert_eq_update s.data key a)

theorem update_touches (S : Serde) (s : Storage V) (key : String) (m : RawMessage) :
    Touches s.view (s.update key (Action.updateWith S m)).1.view := by
  obtain ⟨a, -, ha, hu⟩ | ⟨-, e, hu⟩ := s.update_cases key (Action.updateWith S m)
  · rw [hu, get_insert_data]
    exact Action.updateWith_touches S m ha
  · rw [hu]

theorem dropKey_touches (s : Storage V) (key : String) :
    Touches s.view (s.dropKey key).view := by
  rw [dropKey]
  split
  · rename_i a ha
    have hview : ({ s with data := s.data.erase key, heap := a.drop s.heap } : Storage V).view
        = ⟨Function.update s.get key none, a.drop s.heap⟩ :=
      congrArg (View.mk · _) (lookup_erase_eq_update s.data key)
    rw [hview]
    exact Action.drop_touches (v := s.view) ha
  · exact .refl

theorem remove_touches (s : Storage V) (key : String) :
    Touches s.view (s.remove key).view := by
  rw [remove]
  split
  · exact .refl
  · exact dropKey_touches s key

theorem cancelKey_touches (reason : String) (s : Storage V) (key : String) :
    Touches s.view (cancelKey reason s key).view := by
  rw [cancelKey]
  split
  · rename_i a ha
    rw [get_insert_data s key _ _ s.poisoned]
    exact Action.cancel_touches reason (v := s.view) ha
  · exact .refl

/-- A loop of operations touches what its turns touch. -/
theorem foldl_touches {α : Type} {f : Storage V → α → Storage V}
    (hf : ∀ s x, Touches s.view (f s x).view) (l : List α) (s : Storage V) :
    Touches s.view (l.foldl f s).view := by
  induction l generalizing s with
  | nil => exact .refl
  | cons x l ih => exact (hf s x).trans (ih (f s x))

theorem cancelPending_touches (s : Storage V) (reason : String) :
    Touches s.view (s.cancelPending reason).view := by
  rw [cancelPending]
  split
  · exact .refl
  · exact (foldl_touches (cancelKey_touches reason) _ _).trans (foldl_touches dropKey_touches _ _)

theorem deferMessage_touches (S : Serde) (s : Storage V) (key : String) (m : RawMessage) :
    Touches s.view (s.deferMessage S key m).1.view := by
  obtain ⟨-, hd, -⟩ | ⟨-, -, hd⟩ | ⟨-, hd⟩ := s.deferMessage_cases S key m
  · rw [hd]
    exact update_touches S s key m
  · rw [hd]
    exact .refl
  · rw [hd]

/-- **The rule of a replay.**  What every update of the key keeps, the replay keeps,
whether or not a callback panics on the way. -/
theorem replay_invariant {S : Serde} {key : String} {I : Storage V → Prop}
    {l : List RawMessage} {s : Storage V}
    (hI : ∀ m ∈ l, ∀ t, I t → I (t.update key (Action.updateWith S m)).1) (hs : I s) :
    I (replay S key l s).1 := by
  induction l generalizing s with
  | nil => exact hs
  | cons m l ih =>
      have hupdate := hI m List.mem_cons_self s hs
      rw [replay]
      split
      · rename_i h
        rwa [h] at hupdate
      · rename_i h
        rw [h] at hupdate
        exact ih (fun x hx => hI x (List.mem_cons_of_mem _ hx)) hupdate

theorem replay_touches (S : Serde) (key : String) (l : List RawMessage) (s : Storage V) :
    Touches s.view (replay S key l s).1.view := by
  apply replay_invariant (I := fun t => Touches s.view t.view)
  · exact fun m _ t ht => ht.trans (update_touches S t key m)
  · exact .refl

theorem replayDeferred_touches (S : Serde) (s : Storage V) (key : String) :
    Touches s.view (s.replayDeferred S key).1.view := by
  rw [replayDeferred]
  split
  · exact replay_touches S key _ { s with deferredMessages := s.deferredMessages.erase key }
  · exact .refl

theorem insert_callback_touches (s : Storage V) (key : String) (a : CallbackAction) :
    Touches s.view (s.insert key (.callback a)).view := by
  obtain ⟨-, hfree, hi⟩ | ⟨-, hi⟩ := s.insert_cases key (.callback a)
  · rw [hi, get_insert_data s key _ s.heap s.poisoned]
    exact .single (Touch.insertCallback (v := s.view) a hfree)
  · rw [hi]
    exact .refl

theorem addCallback_touches (S : Serde) (s : Storage V) (target : String) (cb : Callback) :
    Touches s.view (s.addCallback S target cb).1.view :=
  (insert_callback_touches s target _).trans (replayDeferred_touches S _ target)

theorem addInvocation_touches (s : Storage V) (id : String) (decode : DeserializeOwned V) :
    Touches s.view (s.addInvocation id decode).view := by
  have refused : Touches s.view
      ⟨s.get, (Action.invocation (InvocationAction.new id decode s.heap).1).drop
        s.heap.newFuture⟩ :=
    .single (Touch.refuseInvocation s.view (.error "Invocation was cancelled"))
  rw [addInvocation]
  obtain ⟨-, hfree, hi⟩ | ⟨-, hi⟩ := insert_cases
    { s with heap := (InvocationAction.new id decode s.heap).2 } id
    (.invocation (InvocationAction.new id decode s.heap).1)
  · rw [hi, get_insert_data { s with heap := _ } id _ _ s.poisoned]
    exact .single (Touch.insertInvocation (v := s.view) id decode hfree)
  · rw [hi]
    exact refused

theorem addStream_touches (s : Storage V) (id : String) (decode : DeserializeOwned V) :
    Touches s.view (s.addStream id decode).view := by
  have refused : Touches s.view
      ⟨s.get, (Action.enumerable (EnumerableAction.new id decode s.heap).1).drop
        s.heap.newStream⟩ :=
    .single (Touch.refuseStream s.view)
  rw [addStream]
  obtain ⟨-, hfree, hi⟩ | ⟨-, hi⟩ := insert_cases
    { s with heap := (EnumerableAction.new id decode s.heap).2 } id
    (.enumerable (EnumerableAction.new id decode s.heap).1)
  · rw [hi, get_insert_data { s with heap := _ } id _ _ s.poisoned]
    exact .single (Touch.insertStream (v := s.view) id decode hfree)
  · rw [hi]
    exact refused

theorem processMessage_touches (S : Serde) (s : Storage V) (m : RawMessage) :
    Touches s.view (s.processMessage S m).1.view := by
  obtain ⟨o, -, h⟩ | ⟨key, -, h⟩ | ⟨invocation, h, -⟩ | ⟨key, -, -, h⟩ :=
    s.processMessage_cases S m
  · rw [h]
  · rw [h]
    exact update_touches S s key m
  · rw [h]
    exact deferMessage_touches S s _ m
  · -- a completion updates its action and then removes it
    rw [h]
    exact (update_touches S s key m).trans (remove_touches _ key)

theorem dropHandle_touches (s : Storage V) : Touches s.view s.dropHandle.view := by
  show Touches s.view (if s.strongCount = 1 then s.clear else s).view
  split
  · exact foldl_touches dropKey_touches _ s
  · exact .refl

theorem pollFuture_touches (s : Storage V) {f : Nat} (w : Waker) (hf : f < s.heap.futureCount) :
    Touches s.view (s.pollFuture f w).1.view :=
  .single (Touch.pollFuture (v := s.view) w hf)

theorem pollStream_touches (s : Storage V) {st : Nat} (w : Waker)
    (hst : st < s.heap.streamCount) : Touches s.view (s.pollStream st w).1.view :=
  .single (Touch.pollStream (v := s.view) w hst)

end Storage

end SignalR
