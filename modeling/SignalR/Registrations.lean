/-
SignalR/Registrations.lean

Handles of registrations.  `register` returns a handle whether its callback was
entered or refused, and the handle knows no more than the target: `unregister`
removes whatever stands under it.

The registry says what handles are for: a register call is in force from the time its
callback is entered until a handle removes it.  The storage holds exactly the
callbacks of the calls in force (`Reachable.refines`), and a handle does right exactly
while no other call is in force for its target (`unregister_own_iff`).
-/
import SignalR.Callbacks
import SignalR.Completions

namespace SignalR

open Transition

variable {V : Type}

/-! ### Register calls and their handles -/

/-- A storage, and the register calls made on its clones so far, by number.  The
handle that call `i` returned is number `i` as well.  `inForce` is a ghost field: the
register call whose callback is registered for a target. -/
structure Registrations (V : Type) where
  store : Storage V
  calls : List (String × Callback)
  spent : List Nat
  inForce : String → Option Nat

/-- A register call, or the use of a handle. -/
inductive RegistrationOp
  | register (target : String) (callback : Callback)
  | unregister (handle : Nat)

namespace Registrations

/-- A new storage. -/
def init (capacity : Nat) : Registrations V where
  store := .newWithDeferredMessageCapacity capacity
  calls := []
  spent := []
  inForce := fun _ => none

/-- `SignalRClient::register`. -/
def register (S : Serde) (s : Registrations V) (target : String) (callback : Callback) :
    Registrations V where
  store := (s.store.addCallback S target callback).1
  calls := s.calls ++ [(target, callback)]
  spent := s.spent
  -- the call is in force unless another one is
  inForce := Function.update s.inForce target (some ((s.inForce target).getD s.calls.length))

/-- `StorageUnregistrationHandler::unregister`, which consumes the handle. -/
def unregister (s : Registrations V) (handle : Nat) (target : String) : Registrations V where
  store := s.store.remove target
  calls := s.calls
  spent := handle :: s.spent
  inForce := Function.update s.inForce target none

theorem inForce_register_of_ne (S : Serde) (s : Registrations V) {k target : String}
    (h : k ≠ target) (callback : Callback) :
    (s.register S target callback).inForce k = s.inForce k :=
  Function.update_of_ne h ..

theorem inForce_unregister_of_ne (s : Registrations V) {k target : String} (h : k ≠ target)
    (handle : Nat) : (s.unregister handle target).inForce k = s.inForce k :=
  Function.update_of_ne h ..

/-- One step: a handle is used once, and only after its call. -/
def step (S : Serde) (s : Registrations V) : RegistrationOp → Option (Registrations V)
  | .register target callback => some (s.register S target callback)
  | .unregister handle =>
      match s.calls[handle]? with
      | some (target, _) =>
          if handle ∈ s.spent then none else some (s.unregister handle target)
      | none => none

/-- The states that a sequence of register calls and uses of handles reaches. -/
def Reachable (S : Serde) (capacity : Nat) (s : Registrations V) : Prop :=
  Reaches (step S) free (init capacity) s

/-! ### The storage holds the callbacks in force -/

/-- The storage refines the registry: under a target stands the callback of the call
that is in force for it, or nothing. -/
structure Refines (s : Registrations V) : Prop where
  unpoisoned : s.store.poisoned = false
  undeferred : s.store.deferredMessages = ∅
  free : ∀ target, s.inForce target = none → s.store.get target = none
  held : ∀ target i, s.inForce target = some i →
    ∃ callback, s.calls[i]? = some (target, callback) ∧
      s.store.get target = some (.callback { target, callback })

variable {S : Serde} {s t : Registrations V} {i : Nat} {target : String} {callback : Callback}

theorem Refines.deferredMessages_insert (h : s.Refines) (key : String) (a : Action V) :
    (s.store.insert key a).deferredMessages = ∅ := by
  obtain ⟨-, -, hi⟩ | ⟨-, hi⟩ := s.store.insert_cases key a
  · rw [hi, h.undeferred]
  · rw [hi, h.undeferred]

/-- Without deferred messages a registration is only an insertion. -/
theorem Refines.addCallback_eq (h : s.Refines) :
    (s.store.addCallback S target callback).1
      = s.store.insert target (.callback { target, callback }) := by
  rw [Storage.addCallback, Storage.replayDeferred, h.deferredMessages_insert]
  rfl

/-- A call in force keeps its place among the calls. -/
theorem Refines.held_append (h : s.Refines) {target' : String}
    (hi : s.inForce target' = some i) (call : String × Callback) :
    ∃ callback, (s.calls ++ [call])[i]? = some (target', callback) ∧
      s.store.get target' = some (.callback { target := target', callback }) := by
  obtain ⟨callback, hcall, hget⟩ := h.held target' i hi
  obtain ⟨hlt, -⟩ := List.getElem?_eq_some_iff.mp hcall
  exact ⟨callback, by rw [List.getElem?_append_left hlt, hcall], hget⟩

theorem Refines.register (h : s.Refines) (target : String) (callback : Callback) :
    (s.register S target callback).Refines := by
  have hstore : (s.register S target callback).store
      = s.store.insert target (.callback { target, callback }) := h.addCallback_eq
  refine ⟨?_, ?_, ?_, ?_⟩
  · rw [hstore, Storage.poisoned_insert, h.unpoisoned]
  · rw [hstore, h.deferredMessages_insert]
  · intro target' hfree
    by_cases ht : target' = target
    · subst ht
      simp [Registrations.register] at hfree
    · rw [hstore, Storage.get_insert_of_ne ht]
      refine h.free target' ?_
      rwa [inForce_register_of_ne S s ht] at hfree
  · intro target' i hi
    rw [hstore]
    by_cases ht : target' = target
    · subst ht
      rcases hold : s.inForce target' with - | j
      · -- the call itself is in force from now on
        obtain rfl : s.calls.length = i := by simpa [Registrations.register, hold] using hi
        refine ⟨callback, by simp [Registrations.register], ?_⟩
        exact Storage.get_insert_self h.unpoisoned (h.free target' hold) _
      · obtain rfl : j = i := by simpa [Registrations.register, hold] using hi
        obtain ⟨callback', hcall, hget⟩ := h.held_append hold (target', callback)
        exact ⟨callback', hcall, Storage.get_insert_of_some hget _⟩
    · have hold : s.inForce target' = some i := by
        rwa [inForce_register_of_ne S s ht] at hi
      obtain ⟨callback', hcall, hget⟩ := h.held_append hold (target, callback)
      exact ⟨callback', hcall, by rw [Storage.get_insert_of_ne ht, hget]⟩

theorem Refines.unregister (h : s.Refines) (handle : Nat) (target : String) :
    (s.unregister handle target).Refines := by
  have hdeferred : (s.store.remove target).deferredMessages = ∅ := by
    obtain ⟨action, -, -, hr⟩ | ⟨-, hr⟩ := s.store.remove_cases target
    · rw [hr, h.undeferred]
    · rw [hr, h.undeferred]
  refine ⟨?_, hdeferred, ?_, ?_⟩
  · exact (Storage.poisoned_remove _ target).trans h.unpoisoned
  · intro target' hfree
    show (s.store.remove target).get target' = none
    by_cases ht : target' = target
    · rw [ht]
      exact Storage.get_remove_self _ target h.unpoisoned
    · rw [Storage.get_remove_of_ne ht]
      refine h.free target' ?_
      rwa [s.inForce_unregister_of_ne ht] at hfree
  · intro target' i hi
    have ht : target' ≠ target := by
      rintro rfl
      simp [Registrations.unregister] at hi
    rw [s.inForce_unregister_of_ne ht] at hi
    obtain ⟨callback, hcall, hget⟩ := h.held target' i hi
    refine ⟨callback, hcall, ?_⟩
    show (s.store.remove target).get target' = _
    rw [Storage.get_remove_of_ne ht, hget]

/-- **The storage refines the registry** after every sequence of operations. -/
theorem Reachable.refines {capacity : Nat} (h : Reachable S capacity s) : s.Refines := by
  refine Reaches.invariant h ⟨rfl, rfl, fun _ _ => rfl, fun _ _ h => by simp [init] at h⟩ ?_
  intro s op t hi _ hst
  cases op with
  | register target callback =>
      obtain rfl := Option.some.inj hst
      exact hi.register target callback
  | unregister handle =>
      simp only [step] at hst
      split at hst
      · split at hst
        · simp at hst
        · obtain rfl := Option.some.inj hst
          exact hi.unregister handle _
      · simp at hst

/-! ### What a handle removes -/

/-- The step removes a callback if and only if it is the one that the register call of
the handle has installed. -/
def RemovesOwn (s t : Registrations V) (handle : Nat) : Prop :=
  ∀ target a, s.store.get target = some (.callback a) →
    (t.store.get target = none ↔ s.inForce target = some handle)

/-- **When a handle removes its own callback and no other.**  After every sequence of
register calls and uses of handles, the next use of a handle removes exactly the
callback of its own register call if and only if no other register call is in force
for the same target. -/
theorem unregister_own_iff {capacity handle : Nat} (h : Reachable S capacity s)
    (hcall : s.calls[handle]? = some (target, callback))
    (hst : step S s (.unregister handle) = some t) :
    RemovesOwn s t handle ↔ ∀ i, s.inForce target = some i → i = handle := by
  have hi := h.refines
  have hstore : t.store = s.store.remove target := by
    simp only [step, hcall] at hst
    split at hst
    · simp at hst
    · obtain rfl := Option.some.inj hst
      rfl
  have hself : (s.store.remove target).get target = none :=
    Storage.get_remove_self _ target hi.unpoisoned
  rw [RemovesOwn, hstore]
  constructor
  · intro hown i hforce
    obtain ⟨callback', -, hget⟩ := hi.held target i hforce
    -- the callback in force goes, so it has to be the handle's own
    have hhandle := (hown target _ hget).mp hself
    exact Option.some.inj (hforce.symm.trans hhandle)
  · intro honly target' a hget
    by_cases ht : target' = target
    · subst ht
      rcases hforce : s.inForce target' with - | i
      · rw [hi.free target' hforce] at hget
        simp at hget
      · simp [hself, honly i hforce]
    · rw [Storage.get_remove_of_ne ht, hget]
      constructor
      · intro hnone
        simp at hnone
      · intro hforce
        obtain ⟨callback', hcall', -⟩ := hi.held target' handle hforce
        rw [hcall] at hcall'
        simp only [Option.some.injEq, Prod.mk.injEq] at hcall'
        exact absurd hcall'.1.symm ht

/-- Two register calls for `tick`; the second is refused. -/
def twoForTick : Registrations Int :=
  ((init 8).register (.ofTable [] []) "tick" idleCallback).register (.ofTable [] []) "tick"
    idleCallback

theorem reachable_twoForTick : Reachable (.ofTable [] []) 8 twoForTick :=
  Reaches.of_exec [.register "tick" idleCallback, .register "tick" idleCallback] rfl

theorem unregister_own_iff_tick :
    RemovesOwn twoForTick (twoForTick.unregister 0 "tick") 0
      ↔ ∀ i, twoForTick.inForce "tick" = some i → i = 0 :=
  unregister_own_iff reachable_twoForTick rfl rfl

/-- The handle of the refused call removes the callback of the other. -/
theorem refused_handle_removes_callback :
    Reachable (.ofTable [] []) 8 twoForTick ∧
      step (.ofTable [] []) twoForTick (.unregister 1)
        = some (twoForTick.unregister 1 "tick") ∧
      ¬ RemovesOwn twoForTick (twoForTick.unregister 1 "tick") 1 := by
  refine ⟨reachable_twoForTick, rfl, fun hown => ?_⟩
  have hgone := hown "tick" { target := "tick", callback := idleCallback } rfl
  exact absurd (hgone.mp rfl) (by decide)

end Registrations

end SignalR
