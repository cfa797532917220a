/-
SignalR/Cancellation.lean

What `cancel_pending` leaves behind.  Its first loop leaves every action either
completed or a callback, its second loop removes the completed ones.  So only
callbacks remain (`isCallback_of_get_cancelPending`), every cell created so far is
settled (`settled_cancelPending`), and the callbacks and the deferred messages are
as they were.
-/
import SignalR.Settlement

namespace SignalR

variable {V : Type}

/-- `cancel` leaves an action that `cancel_pending` removes, or a callback. -/
theorem Action.cancel_completed (reason : String) (a : Action V) (h : Heap V) :
    (a.cancel reason h).1.isCompleted = true ∨ (a.cancel reason h).1.isCallback = true := by
  cases a with
  | invocation a =>
      refine .inl ?_
      rcases hc : a.completer with - | f <;>
        simp [cancel, InvocationAction.cancel, InvocationAction.complete, isCompleted,
          InvocationAction.isCompleted, hc]
  | enumerable a => exact .inl rfl
  | callback a => exact .inr rfl

namespace Storage

variable {s : Storage V} {key : String} {a : Action V}

/-! ### The two loops -/

theorem get_cancelKey_of_ne (reason : String) (s : Storage V) {key k : String} (h : k ≠ key) :
    (cancelKey reason s key).get k = s.get k := by
  rw [cancelKey]
  split
  · simp [get, h]
  · rfl

theorem get_cancelKey_self (reason : String) (s : Storage V) (key : String) :
    (cancelKey reason s key).get key
      = (s.get key).map fun a => (a.cancel reason s.heap).1 := by
  rw [cancelKey]
  rcases h : s.get key with - | a
  · simpa using h
  · simp [get]

theorem get_dropKey (s : Storage V) (key k : String) :
    (s.dropKey key).get k = if k = key then none else s.get k := by
  rw [dropKey]
  by_cases hk : k = key
  · subst hk
    rw [if_pos rfl]
    split
    · simp [get]
    · assumption
  · rw [if_neg hk]
    split
    · simp [get, hk]
    · rfl

/-- The first loop creates no key. -/
theorem exists_get_of_cancelKey {reason k : String} (h : (cancelKey reason s k).get key = some a) :
    ∃ b, s.get key = some b := by
  by_cases hk : key = k
  · subst hk
    rw [get_cancelKey_self] at h
    obtain ⟨b, hb, -⟩ := Option.map_eq_some_iff.mp h
    exact ⟨b, hb⟩
  · rw [get_cancelKey_of_ne reason s hk] at h
    exact ⟨a, h⟩

/-- After the first loop an action is completed or a callback, or its key was not
visited. -/
theorem get_foldl_cancelKey (reason : String) (l : List String) (s : Storage V)
    (h : (l.foldl (cancelKey reason) s).get key = some a) :
    ((a.isCompleted = true ∨ a.isCallback = true) ∧ ∃ b, s.get key = some b) ∨
      key ∉ l ∧ s.get key = some a := by
  induction l generalizing s with
  | nil => exact .inr ⟨List.not_mem_nil, h⟩
  | cons k l ih =>
      rcases ih (cancelKey reason s k) h with ⟨hdone, b, hb⟩ | ⟨hl, hget⟩
      · exact .inl ⟨hdone, exists_get_of_cancelKey hb⟩
      by_cases hk : key = k
      · subst hk
        have hex := exists_get_of_cancelKey hget
        rw [get_cancelKey_self] at hget
        obtain ⟨b, -, rfl⟩ := Option.map_eq_some_iff.mp hget
        exact .inl ⟨b.cancel_completed reason s.heap, hex⟩
      · rw [get_cancelKey_of_ne reason s hk] at hget
        exact .inr ⟨by simp [hk, hl], hget⟩

/-- The first loop leaves the callbacks alone. -/
theorem get_foldl_cancelKey_callback (reason : String) (l : List String) (s : Storage V)
    (key : String) (a : CallbackAction) :
    (l.foldl (cancelKey reason) s).get key = some (.callback a)
      ↔ s.get key = some (.callback a) := by
  induction l generalizing s with
  | nil => exact Iff.rfl
  | cons k l ih =>
      refine (ih (cancelKey reason s k)).trans ?_
      by_cases hk : key = k
      · subst hk
        rw [get_cancelKey_self]
        rcases s.get key with - | (b | b | b) <;> simp [Action.cancel]
      · rw [get_cancelKey_of_ne reason s hk]

theorem get_foldl_dropKey (l : List String) (s : Storage V) (key : String) :
    (l.foldl dropKey s).get key = if key ∈ l then none else s.get key := by
  induction l generalizing s with
  | nil => simp
  | cons k l ih =>
      rw [List.foldl_cons, ih, get_dropKey]
      by_cases hk : key = k
      · simp [hk]
      · simp [hk]

/-! ### What remains -/

/-- `cancel_pending` keeps the deferred messages. -/
theorem deferredMessages_cancelPending (s : Storage V) (reason : String) :
    (s.cancelPending reason).deferredMessages = s.deferredMessages := by
  have hignores : IgnoresEntries (deferredMessages (V := V)) := fun _ _ _ => rfl
  exact hignores.cancelPending s reason

theorem poisoned_cancelPending (s : Storage V) (reason : String) :
    (s.cancelPending reason).poisoned = s.poisoned :=
  ignoresEntries_poisoned.cancelPending s reason

/-- `cancel_pending` keeps the callbacks. -/
theorem get_cancelPending_callback_iff (s : Storage V) (reason key : String)
    (a : CallbackAction) :
    (s.cancelPending reason).get key = some (.callback a) ↔ s.get key = some (.callback a) := by
  rw [cancelPending]
  split
  · exact Iff.rfl
  · rw [get_foldl_dropKey, ← get_foldl_cancelKey_callback reason s.data.keys]
    constructor
    · intro h
      split at h
      · simp at h
      · exact h
    · intro h
      rw [if_neg, h]
      simp [completedAt, h, Action.isCompleted]

/-- Only callbacks remain. -/
theorem isCallback_of_get_cancelPending (hp : s.poisoned = false) {reason : String}
    (h : (s.cancelPending reason).get key = some a) : a.isCallback = true := by
  rw [cancelPending] at h
  rw [hp, if_neg Bool.false_ne_true, get_foldl_dropKey] at h
  split at h
  · simp at h
  rename_i hnot
  -- both loops run over the keys present when the lock was taken
  have hmem : ∀ {b : Action V}, s.get key = some b → key ∈ s.data.keys := by
    intro b hb
    exact AList.lookup_isSome.mp (by rw [show s.data.lookup key = some b from hb]; rfl)
  rcases get_foldl_cancelKey reason s.data.keys s h with ⟨hc | hc, b, hb⟩ | ⟨hout, hget⟩
  · -- a completed action is removed by the second loop
    exact absurd (List.mem_filter.mpr ⟨hmem hb, by simp [completedAt, h, hc]⟩) hnot
  · exact hc
  · exact absurd (hmem hget) hout

/-- No action with a cell remains. -/
theorem cellAt_cancelPending (hp : s.poisoned = false) (reason key : String) :
    (s.cancelPending reason).view.cellAt key = none := by
  rw [View.cellAt]
  rcases h : (s.cancelPending reason).view.get key with - | a
  · rfl
  · have hcallback := isCallback_of_get_cancelPending hp h
    cases a with
    | callback a => rfl
    | invocation a => simp [Action.isCallback] at hcallback
    | enumerable a => simp [Action.isCallback] at hcallback

/-- **Everything pending is settled.** -/
theorem settled_cancelPending (hi : s.view.Inv) (hp : s.poisoned = false) (reason : String)
    {c : Cell} (hc : s.heap.Allocated c) : (s.cancelPending reason).heap.Settled c := by
  have htouch := s.cancelPending_touches reason
  refine (View.Touches.inv hi htouch).settled_of_not_held
    ((View.Touches.advances htouch).allocated c hc) fun key hkey => ?_
  rw [cellAt_cancelPending hp reason key] at hkey
  simp at hkey

end Storage

end SignalR
