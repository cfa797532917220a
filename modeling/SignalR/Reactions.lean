/-
SignalR/Reactions.lean

What `process_message` does with one record, read off the one entry that the record
is routed to.  A record has a `routingKey`, the target of an invocation or the id of
a stream item or completion; what it does depends on the action under that key alone
(`reaction`), and touches that key's entry and queue and that action's cell alone
(`Reacts`, `processMessage_reacts`).

A `CellEffect` is what reaches past the action map: a completion, an item or end
marker, a call of a callback.
-/
import SignalR.Deliveries

namespace SignalR

variable {V : Type}

/-! ### Effects -/

/-- What an action does outside the action map. -/
inductive CellEffect (V : Type)
  | complete (f : Nat) (r : Except String V)
  | enqueue (st : Nat) (x : Option V)
  | call (callback : Nat) (invocation : Invocation)

namespace CellEffect

def apply (h : Heap V) : CellEffect V → Heap V
  | complete f r => h.complete f r
  | enqueue st x => h.enqueue st x
  | call callback invocation => h.call callback invocation

/-- The effects of a list, one after the other. -/
def applyAll (es : List (CellEffect V)) (h : Heap V) : Heap V :=
  es.foldl apply h

/-- The effect reaches what the action under a key may reach: the cell it is armed for,
or, for a callback, a call with the key as its target. -/
def Within (key : String) (a : Action V) : CellEffect V → Prop
  | complete f _ => a.armed = some (.future f)
  | enqueue st _ => a.armed = some (.stream st)
  | call _ invocation => invocation.target = key

end CellEffect

open CellEffect

namespace Action

/-- The effects of `update_with`. -/
def effects (S : Serde) (m : RawMessage) : Action V → List (CellEffect V)
  | .invocation a =>
      match m.messageType, deserialize S (Completion.decode a.decode) m.bytes m.protocol with
      | .completion, .ok completion =>
          a.completer.toList.map fun f => .complete f completion.intoResult
      | _, _ => []
  | .enumerable a =>
      match m.messageType with
      | .streamItem =>
          match deserialize S (StreamItem.decode a.decode) m.bytes m.protocol with
          | .ok item => [.enqueue a.completer (some item.item)]
          | .error _ => []
      | .completion =>
          match deserialize S (Completion.decode a.decode) m.bytes m.protocol with
          | .ok _ => [.enqueue a.completer none]
          | .error _ => []
      | _ => []
  | .callback a => (m.invocation S).toList.map (.call a.callback.id)

/-- The effects of `Drop`. -/
def dropEffects : Action V → List (CellEffect V)
  | .invocation a =>
      a.completer.toList.map fun f => .complete f (.error "Invocation was cancelled")
  | .enumerable a => [.enqueue a.completer none]
  | .callback _ => []

/-- `update_with` changes the heap by its effects, and leaves an action and an outcome
that do not depend on the heap. -/
theorem updateWith_eq (S : Serde) (m : RawMessage) (a : Action V) (h : Heap V) :
    a.updateWith S m h = ((a.updateWith S m .empty).1, applyAll (a.effects S m) h,
      (a.updateWith S m .empty).2.2) := by
  cases a with
  | invocation a =>
      simp only [updateWith, InvocationAction.updateWith, effects]
      rcases m.messageType
      all_goals
        rcases deserialize S (Completion.decode a.decode) m.bytes m.protocol with e | completion
      all_goals try rfl
      rcases hc : a.completer with - | f
      · simp [InvocationAction.complete, hc, applyAll]
      · simp [InvocationAction.complete, hc, applyAll, CellEffect.apply]
  | enumerable a =>
      simp only [updateWith, EnumerableAction.updateWith, effects]
      rcases m.messageType
      all_goals try rfl
      · rcases deserialize S (StreamItem.decode a.decode) m.bytes m.protocol <;> rfl
      · rcases deserialize S (Completion.decode a.decode) m.bytes m.protocol <;> rfl
  | callback a =>
      simp only [updateWith, CallbackAction.updateWith, effects, RawMessage.invocation]
      rcases m.messageType
      all_goals try rfl
      rcases deserialize S Invocation.decode m.bytes m.protocol <;> rfl

theorem drop_eq (a : Action V) (h : Heap V) : a.drop h = applyAll a.dropEffects h := by
  cases a with
  | invocation a =>
      rcases hc : a.completer with - | f
      · simp [drop, InvocationAction.disposeInternal, InvocationAction.complete, hc, dropEffects,
          applyAll]
      · simp [drop, InvocationAction.disposeInternal, InvocationAction.complete, hc, dropEffects,
          applyAll, CellEffect.apply]
  | enumerable a => rfl
  | callback a => rfl

end Action

/-! ### Routing -/

/-- The key that a record is routed to, if it is routed at all. -/
def RawMessage.routingKey (S : Serde) (m : RawMessage) : Option String :=
  match m.messageType with
  | .invocation => (m.invocation S).map Invocation.target
  | .streamItem | .completion =>
      (deserialize S PossibleInvocation.decode m.bytes m.protocol).toOption.bind
        PossibleInvocation.invocationId
  | _ => none

/-- What a record does to the entry it is routed to. -/
structure Reaction (V : Type) where
  entry : Option (Action V)
  effects : List (CellEffect V)
  /-- The record is queued. -/
  defers : Bool
  outcome : Outcome

/-- The reaction of the entry under a key to a record. -/
def reaction (S : Serde) (key : String) (m : RawMessage) : Option (Action V) → Reaction V
  | none =>
      { entry := none
        effects := []
        defers := m.messageType = .invocation
        outcome :=
          if m.messageType = .invocation then .ok
          else .err ("Key " ++ key ++ " is not found in registered actions") }
  | some a =>
      -- a completion that the action takes removes the action
      if m.messageType = .completion ∧ (a.updateWith S m .empty).2.2 = .ok then
        { entry := none
          effects := a.effects S m ++ (a.updateWith S m .empty).1.dropEffects
          defers := false
          outcome := .ok }
      else
        { entry := some (a.updateWith S m .empty).1
          effects := a.effects S m
          defers := false
          outcome := (a.updateWith S m .empty).2.2 }

namespace Storage

/-- The storage has changed by a reaction under a key, and by nothing else. -/
structure Reacts (key : String) (m : RawMessage) (r : Reaction V) (s t : Storage V) : Prop where
  get : t.get = Function.update s.get key r.entry
  deferred : ∀ k, t.deferredMessages.lookup k =
    if k = key ∧ r.defers = true then
      some (pushBounded s.deferredMessageCapacity (s.queue key) m)
    else s.deferredMessages.lookup k
  heap : t.heap = applyAll r.effects s.heap
  poisoned : t.poisoned = decide (r.outcome = .panic)
  capacity : t.deferredMessageCapacity = s.deferredMessageCapacity
  index : t.index = s.index
  handles : t.handles = s.handles

variable {S : Serde} {s t : Storage V} {key k : String} {m : RawMessage}

/-- An update of an entry is one of its reactions, when it removes nothing. -/
theorem update_reacts {a : Action V} (hp : s.poisoned = false) (hget : s.get key = some a) :
    Reacts key m
        { entry := some (a.updateWith S m .empty).1, effects := a.effects S m, defers := false,
          outcome := (a.updateWith S m .empty).2.2 } s
        (s.update key (Action.updateWith S m)).1 ∧
      (s.update key (Action.updateWith S m)).2 = (a.updateWith S m .empty).2.2 := by
  have hu : s.update key (Action.updateWith S m) = ({ s with
      data := s.data.insert key (a.updateWith S m .empty).1
      heap := applyAll (a.effects S m) s.heap
      poisoned := decide ((a.updateWith S m .empty).2.2 = .panic) },
      (a.updateWith S m .empty).2.2) := by
    rw [update, if_neg (by simp [hp]), hget]
    show ({ s with data := _, heap := _, poisoned := _ }, (a.updateWith S m s.heap).2.2) = _
    rw [a.updateWith_eq S m s.heap]
  rw [hu]
  refine ⟨?_, rfl⟩
  exact
    { get := lookup_insert_eq_update s.data key _
      deferred := fun k => (if_neg (by simp)).symm
      heap := rfl
      poisoned := rfl
      capacity := rfl
      index := rfl
      handles := rfl }

/-- The same update followed by the removal of the entry. -/
theorem update_remove_reacts {a : Action V} (hp : s.poisoned = false)
    (hget : s.get key = some a) (hok : (a.updateWith S m .empty).2.2 = .ok) :
    Reacts key m
      { entry := none, effects := a.effects S m ++ (a.updateWith S m .empty).1.dropEffects,
        defers := false, outcome := .ok } s
      ((s.update key (Action.updateWith S m)).1.remove key) := by
  obtain ⟨hu, -⟩ := update_reacts (S := S) (m := m) hp hget
  generalize (s.update key (Action.updateWith S m)).1 = t at hu ⊢
  have htp : t.poisoned = false := by
    rw [hu.poisoned]
    exact decide_eq_false (by simp [hok])
  have htget : t.get key = some (a.updateWith S m .empty).1 := by
    rw [hu.get, Function.update_self]
  have hr : t.remove key = { t with
      data := t.data.erase key
      heap := (a.updateWith S m .empty).1.drop t.heap } := by
    rw [remove, if_neg (by simp [htp]), dropKey, htget]
  rw [hr]
  exact
    { get := by
        show (fun k => (t.data.erase key).lookup k) = _
        rw [lookup_erase_eq_update]
        show Function.update t.get key none = _
        rw [hu.get, Function.update_idem]
      deferred := hu.deferred
      heap := by
        show (a.updateWith S m .empty).1.drop t.heap = _
        rw [Action.drop_eq, hu.heap, applyAll, applyAll, applyAll, List.foldl_append]
      poisoned := htp
      capacity := hu.capacity
      index := hu.index
      handles := hu.handles }

/-- A record that finds no entry is queued, or refused. -/
theorem deferMessage_reacts (hp : s.poisoned = false) (hget : s.get key = none)
    (hm : m.messageType = .invocation) :
    Reacts key m (reaction S key m none) s (s.deferMessage S key m).1 ∧
      (s.deferMessage S key m).2 = .ok := by
  have hd : s.deferMessage S key m = ({ s with
      deferredMessages := s.deferredMessages.insert key
        (pushBounded s.deferredMessageCapacity (s.queue key) m) }, .ok) := by
    rw [deferMessage, if_neg (by simp [hp]), hget]
    rfl
  rw [hd]
  refine ⟨?_, rfl⟩
  exact
    { get := by
        show s.get = Function.update s.get key none
        rw [← hget, Function.update_eq_self]
      deferred := fun k => by
        show (s.deferredMessages.insert key _).lookup k = _
        by_cases hk : k = key
        · subst hk
          simp [reaction, hm]
        · rw [AList.lookup_insert_ne hk, if_neg (fun h => hk h.1)]
      heap := rfl
      poisoned := by simp [reaction, hm, hp]
      capacity := rfl
      index := rfl
      handles := rfl }

/-- A record that is no invocation finds no entry and changes nothing. -/
theorem update_none_reacts (hp : s.poisoned = false) (hget : s.get key = none)
    (hm : m.messageType ≠ .invocation) :
    Reacts key m (reaction S key m none) s s ∧
      s.update key (Action.updateWith S m)
        = (s, (reaction S key m (none : Option (Action V))).outcome) := by
  constructor
  · exact
      { get := by
          show s.get = Function.update s.get key none
          rw [← hget, Function.update_eq_self]
        deferred := fun k => by simp [reaction, hm]
        heap := rfl
        poisoned := by simp [reaction, hm, hp]
        capacity := rfl
        index := rfl
        handles := rfl }
  · rw [update, if_neg (by simp [hp]), hget]
    simp [reaction, hm]

/-- The id that routes a stream item or a completion. -/
theorem possibleInvocation_of_bind
    (h : (deserialize S PossibleInvocation.decode m.bytes m.protocol).toOption.bind
      PossibleInvocation.invocationId = some key) :
    ∃ possible, deserialize S PossibleInvocation.decode m.bytes m.protocol = .ok possible ∧
      possible.invocationId = some key := by
  rcases hdec : deserialize S PossibleInvocation.decode m.bytes m.protocol with e | possible
  · simp [hdec, Except.toOption] at h
  · exact ⟨possible, rfl, by simpa [hdec, Except.toOption] using h⟩

/-- **What a record does.**  It changes the storage by the reaction of the entry under
its routing key. -/
theorem processMessage_reacts (hp : s.poisoned = false) (hkey : m.routingKey S = some key) :
    Reacts key m (reaction S key m (s.get key)) s (s.processMessage S m).1 ∧
      (s.processMessage S m).2 = (reaction S key m (s.get key)).outcome := by
  rw [RawMessage.routingKey] at hkey
  rw [processMessage]
  split at hkey
  · -- an invocation is dispatched or deferred
    rename_i hm
    obtain ⟨invocation, hinv, rfl⟩ := Option.map_eq_some_iff.mp hkey
    obtain ⟨-, hdec⟩ := RawMessage.invocation_eq_some hinv
    simp only [hm, hdec]
    rcases hget : s.get invocation.target with - | a
    · have hc : s.contains invocation.target = false := by simp [contains, hget]
      rw [hc]
      obtain ⟨hr, ho⟩ := deferMessage_reacts (S := S) hp hget hm
      refine ⟨hr, ho.trans ?_⟩
      simp [reaction, hm]
    · have hc : s.contains invocation.target = true := by simp [contains, hget, hp]
      rw [hc, if_pos rfl, reaction, if_neg (by simp [hm])]
      exact update_reacts hp hget
  · -- a stream item updates its stream
    rename_i hm
    obtain ⟨possible, hdec, hid⟩ := possibleInvocation_of_bind hkey
    simp only [hm, hdec, hid]
    rcases hget : s.get key with - | a
    · obtain ⟨hr, hu⟩ := update_none_reacts (S := S) (m := m) hp hget (by simp [hm])
      rw [hu]
      exact ⟨hr, rfl⟩
    · rw [reaction, if_neg (by simp [hm])]
      exact update_reacts hp hget
  · -- a completion that is taken removes its action
    rename_i hm
    obtain ⟨possible, hdec, hid⟩ := possibleInvocation_of_bind hkey
    simp only [hm, hdec, hid]
    rcases hget : s.get key with - | a
    · obtain ⟨hr, hu⟩ := update_none_reacts (S := S) (m := m) hp hget (by simp [hm])
      have ho : (reaction S key m (none : Option (Action V))).outcome
          = .err ("Key " ++ key ++ " is not found in registered actions") := by
        simp [reaction, hm]
      rw [hu, ho]
      exact ⟨hr, rfl⟩
    · obtain ⟨hr, ho⟩ := update_reacts (S := S) (m := m) hp hget
      by_cases hok : (a.updateWith S m .empty).2.2 = .ok
      · rw [reaction, if_pos ⟨hm, hok⟩]
        have hremove := update_remove_reacts (S := S) (m := m) hp hget hok
        rw [hok] at ho
        generalize s.update key (Action.updateWith S m) = u at ho hremove
        obtain ⟨u, o⟩ := u
        obtain rfl : o = .ok := ho
        exact ⟨hremove, rfl⟩
      · rw [reaction, if_neg (fun h => hok h.2)]
        generalize s.update key (Action.updateWith S m) = u at ho hr
        obtain ⟨u, o⟩ := u
        obtain rfl : o = _ := ho
        split
        · rename_i heq
          exact absurd (Prod.mk.inj heq).2 hok
        · rename_i heq
          rw [← heq]
          exact ⟨hr, rfl⟩
  · simp at hkey

/-- A record without a routing key changes nothing, and fares the same in every storage. -/
theorem processMessage_unrouted (hkey : m.routingKey S = none) :
    ∃ o, o ≠ .panic ∧ ∀ s : Storage V, s.processMessage S m = (s, o) := by
  rw [RawMessage.routingKey] at hkey
  split at hkey
  · rename_i hm
    rcases hdec : deserialize S Invocation.decode m.bytes m.protocol with e | invocation
    · refine ⟨.err e, by simp, fun s => ?_⟩
      simp only [processMessage, hm, hdec]
    · simp [RawMessage.invocation, hm, hdec, Except.toOption] at hkey
  all_goals try
    rename_i hm
    rcases hdec : deserialize S PossibleInvocation.decode m.bytes m.protocol with e | possible
    · refine ⟨.err e, by simp, fun s => ?_⟩
      simp only [processMessage, hm, hdec]
    · refine ⟨.ok, by simp, fun s => ?_⟩
      have hid : possible.invocationId = none := by simpa [hdec, Except.toOption] using hkey
      simp only [processMessage, hm, hdec, hid]
  · refine ⟨.ok, by simp, fun s => ?_⟩
    rw [processMessage]
    split
    all_goals first | rfl | simp_all

/-- A storage whose mutex is poisoned stays as it is, and refuses every record alike. -/
theorem processMessage_poisoned (S : Serde) (m : RawMessage) :
    ∃ o, o ≠ .panic ∧ ∀ s : Storage V, s.poisoned = true → s.processMessage S m = (s, o) := by
  rcases hkey : m.routingKey S with - | key
  · obtain ⟨o, ho, h⟩ := processMessage_unrouted (V := V) hkey
    exact ⟨o, ho, fun s _ => h s⟩
  rw [RawMessage.routingKey] at hkey
  split at hkey
  · rename_i hm
    obtain ⟨invocation, hinv, rfl⟩ := Option.map_eq_some_iff.mp hkey
    obtain ⟨-, hdec⟩ := RawMessage.invocation_eq_some hinv
    refine ⟨.ok, by simp, fun s hp => ?_⟩
    simp [processMessage, hm, hdec, contains, hp, deferMessage]
  · rename_i hm
    obtain ⟨possible, hdec, hid⟩ := possibleInvocation_of_bind hkey
    refine ⟨.err "Cannot lock storage", by simp, fun s hp => ?_⟩
    simp [processMessage, hm, hdec, hid, update, hp]
  · rename_i hm
    obtain ⟨possible, hdec, hid⟩ := possibleInvocation_of_bind hkey
    refine ⟨.err "Cannot lock storage", by simp, fun s hp => ?_⟩
    simp [processMessage, hm, hdec, hid, update, hp]
  · simp at hkey

end Storage

end SignalR
