/-
SignalR/Independence.lean

Records for different keys are independent.  What a record does outside its own entry
and queue is a list of effects on the cell of that entry's action, or a call with the
key as its target (`reaction_within`).  Under different keys stand different cells
(`View.Inv`), so the effects of two such records commute, up to the order in which
different callbacks are called (`Heap.Same`), and the records themselves do
(`processMessage_commutes`).

A callback that panics is the exception: it poisons the mutex of the action map, and
every record after it is refused, whatever its key.
-/
import SignalR.Commutation
import SignalR.Reactions

namespace SignalR

open Commutation Transition

variable {V : Type}

/-! ### What an observer of a heap sees -/

/-- The context that an effect passes to a registered callback. -/
def Effect.contextFor (a : CallbackAction) : Effect V → Option Invocation
  | .called id invocation =>
      if id = a.callback.id ∧ invocation.target = a.target then some invocation else none
  | _ => none

namespace Heap

/-- The contexts that a registered callback has been called with. -/
def contexts (a : CallbackAction) (h : Heap V) : List Invocation :=
  h.log.filterMap (Effect.contextFor a)

/-- Two heaps with the same futures, the same streams and, for every registered callback,
the same contexts. -/
structure Same (h h' : Heap V) : Prop where
  futures : h.futures = h'.futures
  futureCount : h.futureCount = h'.futureCount
  streams : h.streams = h'.streams
  streamCount : h.streamCount = h'.streamCount
  contexts : ∀ a, h.contexts a = h'.contexts a

theorem same_equivalence : Equivalence (Same (V := V)) where
  refl := fun _ => ⟨rfl, rfl, rfl, rfl, fun _ => rfl⟩
  symm := fun h => ⟨h.futures.symm, h.futureCount.symm, h.streams.symm, h.streamCount.symm,
    fun a => (h.contexts a).symm⟩
  trans := fun h h' => ⟨h.futures.trans h'.futures, h.futureCount.trans h'.futureCount,
    h.streams.trans h'.streams, h.streamCount.trans h'.streamCount,
    fun a => (h.contexts a).trans (h'.contexts a)⟩

end Heap

open Heap

/-! ### Independent effects -/

namespace CellEffect

/-- The contexts that an effect passes to a registered callback. -/
def contexts (a : CallbackAction) : CellEffect V → List Invocation
  | .call id invocation =>
      if id = a.callback.id ∧ invocation.target = a.target then [invocation] else []
  | _ => []

/-- The effects reach different cells, or callbacks of different targets. -/
def Apart : CellEffect V → CellEffect V → Prop
  | .complete f _, .complete g _ => f ≠ g
  | .enqueue st _, .enqueue st' _ => st ≠ st'
  | .call _ invocation, .call _ invocation' => invocation.target ≠ invocation'.target
  | _, _ => True

@[simp] theorem contexts_apply (a : CallbackAction) (e : CellEffect V) (h : Heap V) :
    (apply h e).contexts a = h.contexts a ++ e.contexts a := by
  cases e with
  | complete f r =>
      have hnone : (completionLog f r ((h.futures f).completeWith r).2).filterMap
          (Effect.contextFor a) = [] := by
        rcases ((h.futures f).completeWith r).2 <;> rfl
      show (h.log ++ _).filterMap _ = h.log.filterMap _ ++ []
      rw [List.filterMap_append, hnone]
  | enqueue st x =>
      have hnone : (wakeLog (V := V) st ((h.streams st).enqueue x).2).filterMap
          (Effect.contextFor a) = [] := by
        rcases ((h.streams st).enqueue x).2 <;> rfl
      show (h.log ++ _).filterMap _ = h.log.filterMap _ ++ []
      rw [List.filterMap_append, hnone]
  | call id invocation =>
      show (h.log ++ [_]).filterMap _ = _
      rw [List.filterMap_append, Heap.contexts, contexts]
      congr 1
      by_cases hc : id = a.callback.id ∧ invocation.target = a.target
      · rw [if_pos hc]
        exact List.filterMap_cons_some (if_pos hc)
      · rw [if_neg hc]
        exact List.filterMap_cons_none (if_neg hc)

/-- A registered callback is reached by one of two calls with different targets at most. -/
theorem contexts_comm {d e : CellEffect V} (h : Apart d e) (a : CallbackAction) :
    d.contexts a ++ e.contexts a = e.contexts a ++ d.contexts a := by
  cases d with
  | complete f r => simp [contexts]
  | enqueue st x => simp [contexts]
  | call id i =>
      cases e with
      | complete f r => simp [contexts]
      | enqueue st x => simp [contexts]
      | call id' i' =>
          have hne : i.target ≠ i'.target := h
          simp only [contexts]
          by_cases hi : i.target = a.target
          · rw [if_neg fun hc : id' = a.callback.id ∧ i'.target = a.target =>
              hne (hi.trans hc.2.symm)]
            simp
          · rw [if_neg fun hc : id = a.callback.id ∧ i.target = a.target => hi hc.2]
            simp

/-- **Effects on different cells commute**, as far as an observer can tell. -/
theorem commutes : Commutes Heap.Same (apply (V := V)) Apart where
  equiv := same_equivalence
  congr := by
    intro h h' e hs
    refine ⟨?_, ?_, ?_, ?_, fun a => ?_⟩
    · cases e with
      | complete f r =>
          show Function.update h.futures f _ = Function.update h'.futures f _
          rw [hs.futures]
      | enqueue st x => exact hs.futures
      | call id i => exact hs.futures
    · cases e <;> exact hs.futureCount
    · cases e with
      | complete f r => exact hs.streams
      | enqueue st x =>
          show Function.update h.streams st _ = Function.update h'.streams st _
          rw [hs.streams]
      | call id i => exact hs.streams
    · cases e <;> exact hs.streamCount
    · rw [contexts_apply, contexts_apply, hs.contexts a]
  swap := by
    intro h d e hde
    refine ⟨?_, ?_, ?_, ?_, fun a => ?_⟩
    · cases d with
      | complete f r =>
          cases e with
          | complete g r' =>
              have hne : f ≠ g := hde
              exact update_swap hne h.futures (fun s => (s.completeWith r).1)
                fun s => (s.completeWith r').1
          | enqueue st x => rfl
          | call id i => rfl
      | enqueue st x => cases e <;> rfl
      | call id i => cases e <;> rfl
    · cases d <;> cases e <;> rfl
    · cases d with
      | complete f r => cases e <;> rfl
      | enqueue st x =>
          cases e with
          | complete f r => rfl
          | enqueue st' x' =>
              have hne : st ≠ st' := hde
              exact update_swap hne h.streams (fun s => (s.enqueue x).1) fun s => (s.enqueue x').1
          | call id i => rfl
      | call id i => cases e <;> rfl
    · cases d <;> cases e <;> rfl
    · simp only [contexts_apply, List.append_assoc]
      rw [contexts_comm hde]

end CellEffect

open CellEffect

/-! ### The effects of a record stay under its key -/

/-- What an action may reach, an action that is armed for more may reach. -/
theorem CellEffect.Within.mono {key : String} {a b : Action V} {e : CellEffect V}
    (h : e.Within key b) (harmed : ∀ c, b.armed = some c → a.armed = some c) :
    e.Within key a := by
  cases e with
  | complete f r => exact harmed _ h
  | enqueue st x => exact harmed _ h
  | call id invocation => exact h

namespace Action

variable {S : Serde} {m : RawMessage} {key : String}

theorem effects_within (hkey : m.routingKey S = some key) (a : Action V) :
    ∀ e ∈ a.effects S m, e.Within key a := by
  intro e he
  cases a with
  | invocation a =>
      simp only [effects] at he
      split at he
      · obtain ⟨f, hf, rfl⟩ := List.mem_map.mp he
        show a.completer.map Cell.future = _
        rw [Option.mem_toList.mp hf]
        rfl
      · simp at he
  | enumerable a =>
      have hcell : ∀ x, e = .enqueue a.completer x → e.Within key (.enumerable a) := by
        rintro x rfl
        rfl
      simp only [effects] at he
      split at he
      · split at he
        · exact hcell _ (List.mem_singleton.mp he)
        · simp at he
      · split at he
        · exact hcell _ (List.mem_singleton.mp he)
        · simp at he
      · simp at he
  | callback a =>
      obtain ⟨invocation, hi, rfl⟩ := List.mem_map.mp he
      have hinv := Option.mem_toList.mp hi
      have hm := (RawMessage.invocation_eq_some hinv).1
      simp only [RawMessage.routingKey, hm, hinv, Option.map_some] at hkey
      exact Option.some.inj hkey

theorem dropEffects_within (a : Action V) : ∀ e ∈ a.dropEffects, e.Within key a := by
  intro e he
  cases a with
  | invocation a =>
      obtain ⟨f, hf, rfl⟩ := List.mem_map.mp he
      show a.completer.map Cell.future = _
      rw [Option.mem_toList.mp hf]
      rfl
  | enumerable a =>
      obtain rfl := List.mem_singleton.mp he
      rfl
  | callback a => simp [dropEffects] at he

/-- A record arms no action anew. -/
theorem armed_updateWith {a : Action V} {h : Heap V} {c : Cell}
    (hc : (a.updateWith S m h).1.armed = some c) : a.armed = some c := by
  cases a with
  | invocation a =>
      simp only [updateWith, InvocationAction.updateWith] at hc
      split at hc
      · split at hc
        · rcases ha : a.completer with - | f
          · simp [InvocationAction.complete, ha, armed] at hc
          · simp [InvocationAction.complete, ha, armed] at hc
        · exact hc
      · exact hc
  | enumerable a =>
      simp only [updateWith, EnumerableAction.updateWith] at hc
      split at hc
      · split at hc <;> exact hc
      · split at hc <;> exact hc
      · exact hc
  | callback a => simp [updateWith, armed] at hc

end Action

/-- **A record reaches the cell of its own entry only**, or calls that entry's callback. -/
theorem reaction_within {S : Serde} {m : RawMessage} {key : String}
    (hkey : m.routingKey S = some key) {entry : Option (Action V)} {e : CellEffect V}
    (he : e ∈ (reaction S key m entry).effects) : ∃ a, entry = some a ∧ e.Within key a := by
  rcases entry with - | a
  · simp [reaction] at he
  · refine ⟨a, rfl, ?_⟩
    rw [reaction] at he
    split at he
    · rcases List.mem_append.mp he with he | he
      · exact Action.effects_within hkey a e he
      · exact (Action.dropEffects_within _ e he).mono fun _ => Action.armed_updateWith
    · exact Action.effects_within hkey a e he

/-- Under different keys stand different cells. -/
theorem View.Inv.apart {v : View V} (hi : v.Inv) {key key' : String} (hne : key ≠ key')
    {a b : Action V} (ha : v.get key = some a) (hb : v.get key' = some b) {d e : CellEffect V}
    (hd : d.Within key a) (he : e.Within key' b) : CellEffect.Apart d e := by
  have hcells : ∀ c, a.armed = some c → b.armed = some c → False := by
    intro c hac hbc
    have hac' : v.armedAt key = some c := by rw [View.armedAt, ha]; exact hac
    have hbc' : v.armedAt key' = some c := by rw [View.armedAt, hb]; exact hbc
    exact hne (hi.unique key key' c (hi.armed_cell key c hac') (hi.armed_cell key' c hbc'))
  cases d with
  | complete f r =>
      cases e with
      | complete g r' =>
          rintro rfl
          exact hcells _ hd he
      | enqueue st x => trivial
      | call id i => trivial
  | enqueue st x =>
      cases e with
      | complete f r => trivial
      | enqueue st' x' =>
          rintro rfl
          exact hcells _ hd he
      | call id i => trivial
  | call id i =>
      cases e with
      | complete f r => trivial
      | enqueue st x => trivial
      | call id' i' =>
          have hi : i.target = key := hd
          have hi' : i'.target = key' := he
          show i.target ≠ i'.target
          rw [hi, hi']
          exact hne

/-! ### Records -/

namespace Storage

variable {S : Serde} {capacity : Nat} {s t u : Storage V} {key k : String} {m m₁ m₂ : RawMessage}

/-- Two storages with the same entries, the same deferred queues and the same cells. -/
structure Agrees (s t : Storage V) : Prop where
  get : s.get = t.get
  deferred : ∀ k, s.deferredMessages.lookup k = t.deferredMessages.lookup k
  poisoned : s.poisoned = t.poisoned
  heap : s.heap.Same t.heap

theorem Agrees.refl (s : Storage V) : s.Agrees s :=
  ⟨rfl, fun _ => rfl, rfl, same_equivalence.refl _⟩

/-- A record has left the other keys alone, and every callback in its place. -/
structure Confined (S : Serde) (m : RawMessage) (s t : Storage V) : Prop where
  get : ∀ k, m.routingKey S ≠ some k → t.get k = s.get k
  deferred : ∀ k, m.routingKey S ≠ some k →
    t.deferredMessages.lookup k = s.deferredMessages.lookup k
  callback : ∀ k a, s.get k = some (.callback a) → t.get k = some (.callback a)

theorem Reacts.get_of_ne {r : Reaction V} (h : Reacts key m r s t) (hk : k ≠ key) :
    t.get k = s.get k := by
  rw [h.get, Function.update_of_ne hk]

theorem Reacts.deferred_of_ne {r : Reaction V} (h : Reacts key m r s t) (hk : k ≠ key) :
    t.deferredMessages.lookup k = s.deferredMessages.lookup k := by
  rw [h.deferred, if_neg fun hc => hk hc.1]

theorem Reacts.queue_of_ne {r : Reaction V} (h : Reacts key m r s t) (hk : k ≠ key) :
    t.queue k = s.queue k := by
  rw [queue, queue, h.deferred_of_ne hk]

/-- **A record touches its own key only**, in every state. -/
theorem processMessage_confined (S : Serde) (s : Storage V) (m : RawMessage) :
    Confined S m s (s.processMessage S m).1 := by
  have hcallback : ∀ k a, s.get k = some (.callback a) →
      (s.processMessage S m).1.get k = some (.callback a) :=
    fun k a h => get_processMessage_callback m h
  have hsame : ∀ o, s.processMessage S m = (s, o) → Confined S m s (s.processMessage S m).1 := by
    intro o ho
    refine ⟨?_, ?_, hcallback⟩ <;> simp [ho]
  by_cases hp : s.poisoned
  · obtain ⟨o, -, ho⟩ := processMessage_poisoned (V := V) S m
    exact hsame o (ho s hp)
  rcases hkey : m.routingKey S with - | key
  · obtain ⟨o, -, ho⟩ := processMessage_unrouted (V := V) hkey
    exact hsame o (ho s)
  · obtain ⟨hr, -⟩ := processMessage_reacts (s := s) (by simpa using hp) hkey
    have hne : ∀ k, m.routingKey S ≠ some k → k ≠ key := by
      rintro k hk rfl
      exact hk hkey
    exact ⟨fun k hk => hr.get_of_ne (hne k hk), fun k hk => hr.deferred_of_ne (hne k hk), hcallback⟩

/-- Two reactions under different keys, in either order. -/
theorem Reacts.agrees {key₁ key₂ : String} {r₁ r₂ : Reaction V} {s₁ s₂ s₁₂ s₂₁ : Storage V}
    (hne : key₁ ≠ key₂) (hapart : ∀ d ∈ r₁.effects, ∀ e ∈ r₂.effects, CellEffect.Apart d e)
    (hcalm : r₁.outcome ≠ .panic ∧ r₂.outcome ≠ .panic)
    (h₁ : Reacts key₁ m₁ r₁ s s₁) (h₁₂ : Reacts key₂ m₂ r₂ s₁ s₁₂)
    (h₂ : Reacts key₂ m₂ r₂ s s₂) (h₂₁ : Reacts key₁ m₁ r₁ s₂ s₂₁) : s₁₂.Agrees s₂₁ where
  get := by
    rw [h₁₂.get, h₁.get, h₂₁.get, h₂.get]
    exact Function.update_comm hne _ _ _
  deferred := by
    intro k
    rw [h₁₂.deferred, h₂₁.deferred, h₁.deferred, h₂.deferred, h₁.capacity, h₂.capacity,
      h₁.queue_of_ne hne.symm, h₂.queue_of_ne hne]
    by_cases hk : k = key₁
    · subst hk
      simp [hne]
    · simp [hk]
  poisoned := by
    rw [h₁₂.poisoned, h₂₁.poisoned, decide_eq_false hcalm.1, decide_eq_false hcalm.2]
  heap := by
    rw [h₁₂.heap, h₂₁.heap, h₁.heap, h₂.heap]
    exact CellEffect.commutes.foldl_foldl hapart

/-- **Records for different keys are independent.**  If neither makes a callback panic,
they have the same effect and the same outcomes in either order.  And in every state,
whether a callback panics or not, a record touches its own key only. -/
theorem processMessage_commutes (hs : Reachable S capacity s) :
    ((∀ k, m₁.routingKey S = some k → m₂.routingKey S ≠ some k) →
      (s.processMessage S m₁).2 ≠ .panic → (s.processMessage S m₂).2 ≠ .panic →
      Agrees ((s.processMessage S m₁).1.processMessage S m₂).1
          ((s.processMessage S m₂).1.processMessage S m₁).1 ∧
        ((s.processMessage S m₁).1.processMessage S m₂).2 = (s.processMessage S m₂).2 ∧
        ((s.processMessage S m₂).1.processMessage S m₁).2 = (s.processMessage S m₁).2) ∧
    ∀ (u : Storage V) m, Confined S m u (u.processMessage S m).1 := by
  refine ⟨fun hkeys h₁ h₂ => ?_, processMessage_confined S⟩
  by_cases hp : s.poisoned
  · -- both are refused
    obtain ⟨o₁, -, ho₁⟩ := processMessage_poisoned (V := V) S m₁
    obtain ⟨o₂, -, ho₂⟩ := processMessage_poisoned (V := V) S m₂
    simp only [ho₁ s hp, ho₂ s hp]
    exact ⟨.refl s, trivial, trivial⟩
  have hp : s.poisoned = false := by simpa using hp
  rcases hkey₁ : m₁.routingKey S with - | key₁
  · obtain ⟨o₁, -, ho₁⟩ := processMessage_unrouted (V := V) hkey₁
    simp only [ho₁]
    exact ⟨.refl _, trivial, trivial⟩
  rcases hkey₂ : m₂.routingKey S with - | key₂
  · obtain ⟨o₂, -, ho₂⟩ := processMessage_unrouted (V := V) hkey₂
    simp only [ho₂]
    exact ⟨.refl _, trivial, trivial⟩
  have hne : key₁ ≠ key₂ := by
    rintro rfl
    exact hkeys key₁ hkey₁ hkey₂
  obtain ⟨hr₁, ho₁⟩ := processMessage_reacts hp hkey₁
  obtain ⟨hr₂, ho₂⟩ := processMessage_reacts hp hkey₂
  have hcalm₁ : (reaction S key₁ m₁ (s.get key₁)).outcome ≠ .panic := ho₁ ▸ h₁
  have hcalm₂ : (reaction S key₂ m₂ (s.get key₂)).outcome ≠ .panic := ho₂ ▸ h₂
  have hp₁ := hr₁.poisoned.trans (decide_eq_false hcalm₁)
  have hp₂ := hr₂.poisoned.trans (decide_eq_false hcalm₂)
  -- the second record finds its entry as it was
  obtain ⟨hr₁₂, ho₁₂⟩ := processMessage_reacts hp₁ hkey₂
  obtain ⟨hr₂₁, ho₂₁⟩ := processMessage_reacts hp₂ hkey₁
  rw [hr₁.get_of_ne hne.symm] at hr₁₂ ho₁₂
  rw [hr₂.get_of_ne hne] at hr₂₁ ho₂₁
  refine ⟨hr₁.agrees hne ?_ ⟨hcalm₁, hcalm₂⟩ hr₁₂ hr₂ hr₂₁, ho₁₂.trans ho₂.symm,
    ho₂₁.trans ho₁.symm⟩
  intro d hd e he
  obtain ⟨a, ha, hd⟩ := reaction_within hkey₁ hd
  obtain ⟨b, hb, he⟩ := reaction_within hkey₂ he
  exact hs.inv.apart hne ha hb hd he

/-- The serializer on an invocation of `tick` and a completion of `add_1`. -/
def mixedSerde : Serde :=
  .ofTable []
    [([1], .obj [("type", .int 1), ("target", .str "tick"), ("arguments", .arr [.int 1])]),
      ([2], .obj [("type", .int 3), ("invocationId", .str "add_1"), ("result", .int 3)])]

/-- The invocation of `tick`. -/
def ticked : RawMessage :=
  { bytes := [1], messageType := .invocation, protocol := .messagePack }

/-- The completion of `add_1`. -/
def added : RawMessage :=
  { bytes := [2], messageType := .completion, protocol := .messagePack }

/-- A call of `add` is pending, and a callback is registered for `tick`. -/
def addAndTick (callback : Callback) : Storage Int :=
  ((newWithDeferredMessageCapacity 8).addInvocation "add_1" .i64).addCallback mixedSerde
    "tick" callback |>.1

theorem reachable_addAndTick (callback : Callback) :
    Reachable mixedSerde 8 (addAndTick callback) :=
  Reaches.of_exec [.addInvocation "add_1" .i64, .addCallback "tick" callback] rfl

theorem processMessage_commutes_ticked_added :
    let s := addAndTick idleCallback
    Agrees ((s.processMessage mixedSerde ticked).1.processMessage mixedSerde added).1
        ((s.processMessage mixedSerde added).1.processMessage mixedSerde ticked).1 ∧
      ((s.processMessage mixedSerde ticked).1.processMessage mixedSerde added).2 = .ok ∧
      ((s.processMessage mixedSerde added).1.processMessage mixedSerde ticked).2 = .ok := by
  have hkeys : ∀ k, ticked.routingKey mixedSerde = some k →
      added.routingKey mixedSerde ≠ some k := by
    rintro k hk hk'
    obtain rfl : "tick" = k := Option.some.inj hk
    exact absurd (Option.some.inj hk' : "add_1" = "tick") (by decide)
  obtain ⟨hagrees, hadded, hticked⟩ :=
    (processMessage_commutes (reachable_addAndTick idleCallback)).1 hkeys (by decide) (by decide)
  exact ⟨hagrees, hadded.trans (by decide), hticked.trans (by decide)⟩

/-- A callback that panics poisons the mutex, and the completion that comes after it is
refused: the call stays pending. -/
theorem panic_refuses_other_key :
    ∃ s : Storage Int, Reachable mixedSerde 8 s ∧
      ticked.routingKey mixedSerde = some "tick" ∧
      added.routingKey mixedSerde = some "add_1" ∧
      ((s.processMessage mixedSerde added).1.processMessage mixedSerde ticked).1.heap.Resolved 0 ∧
      ¬ ((s.processMessage mixedSerde ticked).1.processMessage mixedSerde added).1.heap.Resolved 0 ∧
      (s.processMessage mixedSerde added).2 = .ok ∧
      ((s.processMessage mixedSerde ticked).1.processMessage mixedSerde added).2
        = .err "Cannot lock storage" ∧
      ¬ Agrees ((s.processMessage mixedSerde ticked).1.processMessage mixedSerde added).1
          ((s.processMessage mixedSerde added).1.processMessage mixedSerde ticked).1 := by
  have hresolved : ((addAndTick Client.boomCallback).processMessage mixedSerde added
      |>.1.processMessage mixedSerde ticked).1.heap.Resolved 0 := by decide
  have hpending : ¬ ((addAndTick Client.boomCallback).processMessage mixedSerde ticked
      |>.1.processMessage mixedSerde added).1.heap.Resolved 0 := by decide
  refine ⟨addAndTick Client.boomCallback, reachable_addAndTick _, by decide, by decide, hresolved,
    hpending, by decide, by decide, fun hagrees => ?_⟩
  apply hpending
  rw [Heap.Resolved, hagrees.heap.futures]
  exact hresolved

end Storage

end SignalR
