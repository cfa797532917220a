/-
SignalR/Deferrals.lean

What is deferred for a target, and what its next callback sees of it.  A record that
finds no action under its target is queued there; the queue keeps the last `capacity`
records (`pushBounded_eq_rtake`).  `add_callback` takes the queue out and passes every
record of it to the new callback, in order and once (`deferred_then_replayed`).

Two panics get in the way.  A callback that panics while the records arrive poisons the
mutex, and no record is queued after that.  And the new callback, when it panics on one
record of the queue, does not see the rest, which is lost.
-/
import SignalR.Reactions
import Mathlib.Data.List.DropRight

namespace SignalR

open Transition

variable {V : Type}

/-! ### The last elements of a list -/

theorem rtake_eq_self {α : Type} {l : List α} {n : Nat} (h : l.length ≤ n) : l.rtake n = l := by
  rw [List.rtake, Nat.sub_eq_zero_of_le h, List.drop_zero]

/-- What has been dropped is not missed later. -/
theorem rtake_rtake_append {α : Type} (l r : List α) (n : Nat) :
    (l.rtake n ++ r).rtake n = (l ++ r).rtake n := by
  rw [List.rtake_eq_reverse_take_reverse, List.rtake_eq_reverse_take_reverse,
    List.rtake_eq_reverse_take_reverse]
  simp only [List.reverse_append, List.reverse_reverse, List.take_append, List.take_take]
  congr 3
  omega

/-- A queue that is within its bound keeps the last messages. -/
theorem Storage.pushBounded_eq_rtake {capacity : Nat} {queue : List RawMessage}
    (h : queue.length ≤ capacity) (m : RawMessage) :
    pushBounded capacity queue m = (queue ++ [m]).rtake capacity := by
  have hlength : (queue ++ [m]).length = queue.length + 1 := by simp
  rw [pushBounded]
  split
  · rename_i hfull
    have hone : (queue ++ [m]).length - capacity = 1 := by omega
    rw [List.rtake, hone, List.drop_one]
  · rename_i hroom
    exact (rtake_eq_self (by omega)).symm

/-! ### Records for a target -/

/-- The record is an invocation of the target. -/
def RawMessage.Invokes (S : Serde) (m : RawMessage) (target : String) : Prop :=
  (m.invocation S).map Invocation.target = some target

instance (S : Serde) (m : RawMessage) (target : String) : Decidable (m.Invokes S target) :=
  inferInstanceAs (Decidable (_ = _))

/-- Invocations of a target are the records that are routed to it and may be queued. -/
theorem RawMessage.invokes_iff {S : Serde} {m : RawMessage} {target : String} :
    m.Invokes S target ↔ m.routingKey S = some target ∧ m.messageType = .invocation := by
  constructor
  · intro h
    obtain ⟨invocation, hinv, -⟩ := Option.map_eq_some_iff.mp h
    obtain ⟨hm, -⟩ := RawMessage.invocation_eq_some hinv
    refine ⟨?_, hm⟩
    rw [routingKey, hm]
    exact h
  · rintro ⟨hkey, hm⟩
    rw [routingKey, hm] at hkey
    exact hkey

namespace Storage

variable {S : Serde} {capacity : Nat} {s s' t : Storage V} {key k target : String}
  {m : RawMessage}

/-! ### The queues of a reached storage -/

/-- The queues are within the bound, and hold invocations of their targets. -/
structure Queued (S : Serde) (capacity : Nat) (s : Storage V) : Prop where
  bound : s.deferredMessageCapacity = capacity
  length : ∀ k, (s.queue k).length ≤ capacity
  invokes : ∀ k, ∀ m ∈ s.queue k, m.Invokes S k

/-- The records go where `process_message` sends them, in whole calls and in single
sections. -/
def Routed (S : Serde) : Storage V → StorageOp V → Prop
  | _, .dispatch key m => m.routingKey S = some key
  | _, .deferMessage key m => m.Invokes S key
  | _, _ => True

/-- What the storage keeps of deferred messages. -/
def deferral (s : Storage V) : DeferredMessages × Nat :=
  (s.deferredMessages, s.deferredMessageCapacity)

theorem deferredMessages_of_deferral (h : t.deferral = s.deferral) :
    t.deferredMessages = s.deferredMessages :=
  congrArg Prod.fst h

theorem queue_eq_of_deferral (h : t.deferral = s.deferral) : t.queue k = s.queue k := by
  rw [queue, queue, deferredMessages_of_deferral h]

theorem Queued.of_deferral (hq : s.Queued S capacity) (h : t.deferral = s.deferral) :
    t.Queued S capacity where
  bound := (congrArg Prod.snd h).trans hq.bound
  length := fun k => by
    rw [queue_eq_of_deferral h]
    exact hq.length k
  invokes := fun k => by
    rw [queue_eq_of_deferral h]
    exact hq.invokes k

theorem ignoresEntries_deferral : IgnoresEntries (deferral (V := V)) :=
  fun _ _ _ => rfl

theorem deferral_insert (a : Action V) : (s.insert key a).deferral = s.deferral :=
  ignoresEntries_deferral.insert s key a

theorem deferral_update (f : Action V → Heap V → Action V × Heap V × Outcome) :
    (s.update key f).1.deferral = s.deferral :=
  ignoresEntries_deferral.update (fun _ _ => rfl) s key f

theorem deferral_remove : (s.remove key).deferral = s.deferral :=
  ignoresEntries_deferral.remove s key

theorem deferral_cancelPending (s : Storage V) (reason : String) :
    (s.cancelPending reason).deferral = s.deferral :=
  ignoresEntries_deferral.cancelPending s reason

theorem deferral_dropHandle (s : Storage V) : s.dropHandle.deferral = s.deferral :=
  ignoresEntries_deferral.dropHandle (fun _ _ => rfl) s

theorem deferral_replay (l : List RawMessage) : (replay S key l s).1.deferral = s.deferral := by
  apply replay_invariant (I := fun t => t.deferral = s.deferral)
  · exact fun m _ t ht => (deferral_update _).trans ht
  · rfl

/-- A queue is taken out. -/
theorem Queued.takeDeferred (hq : s.Queued S capacity) (key : String) :
    (s.takeDeferred key).Queued S capacity := by
  have hqueue : ∀ k, (s.takeDeferred key).queue k = if k = key then [] else s.queue k := by
    intro k
    split
    · rename_i hk
      rw [hk, queue_takeDeferred]
    · rename_i hk
      show ((s.deferredMessages.erase key).lookup k).getD [] = _
      rw [AList.lookup_erase_ne hk, queue]
  refine ⟨hq.bound, fun k => ?_, fun k => ?_⟩
  · rw [hqueue]
    split
    · exact Nat.zero_le _
    · exact hq.length k
  · rw [hqueue]
    split
    · exact fun m hm => absurd hm List.not_mem_nil
    · exact hq.invokes k

/-- A message is queued under its own target. -/
theorem Queued.push {queues : DeferredMessages} (hq : s.Queued S capacity) (hm : m.Invokes S key)
    (hqueues : queues = s.deferredMessages.insert key
      (pushBounded s.deferredMessageCapacity (s.queue key) m)) :
    ({ s with deferredMessages := queues } : Storage V).Queued S capacity := by
  have hqueue : ∀ k, ({ s with deferredMessages := queues } : Storage V).queue k
      = if k = key then pushBounded s.deferredMessageCapacity (s.queue key) m
        else s.queue k := by
    intro k
    show (queues.lookup k).getD [] = _
    rw [hqueues]
    split
    · rename_i hk
      rw [hk, AList.lookup_insert, Option.getD_some]
    · rename_i hk
      rw [AList.lookup_insert_ne hk, queue]
  refine ⟨hq.bound, fun k => ?_, fun k => ?_⟩
  · rw [hqueue]
    split
    · rw [hq.bound, pushBounded_eq_rtake (hq.length key), List.rtake, List.length_drop]
      omega
    · exact hq.length k
  · rw [hqueue]
    split
    · rename_i hk
      intro x hx
      rw [hk]
      rcases mem_pushBounded hx with hx | rfl
      · exact hq.invokes key x hx
      · exact hm
    · exact hq.invokes k

theorem Queued.deferMessage (hq : s.Queued S capacity) (hm : m.Invokes S key) :
    (s.deferMessage S key m).1.Queued S capacity := by
  obtain ⟨-, hd, -⟩ | ⟨-, -, hd⟩ | ⟨-, hd⟩ := s.deferMessage_cases S key m
  · rw [hd]
    exact hq.of_deferral (deferral_update _)
  · rw [hd]
    exact hq.push hm rfl
  · rw [hd]
    exact hq

theorem Queued.replayDeferred (hq : s.Queued S capacity) (key : String) :
    (s.replayDeferred S key).1.Queued S capacity := by
  rw [replayDeferred_eq_replay]
  exact (hq.takeDeferred key).of_deferral (deferral_replay _)

theorem Queued.processMessage (hq : s.Queued S capacity) (m : RawMessage) :
    (s.processMessage S m).1.Queued S capacity := by
  obtain ⟨o, -, h⟩ | ⟨key, -, h⟩ | ⟨invocation, h, hm, hdec⟩ | ⟨key, -, -, h⟩ :=
    s.processMessage_cases S m
  · rw [h]
    exact hq
  · rw [h]
    exact hq.of_deferral (deferral_update _)
  · rw [h]
    refine hq.deferMessage ?_
    simp [RawMessage.Invokes, RawMessage.invocation, hm, hdec, Except.toOption]
  · rw [h]
    exact hq.of_deferral (deferral_remove.trans (deferral_update _))

/-- Every operation keeps the queues in order. -/
theorem Queued.run {op : StorageOp V} (hq : s.Queued S capacity) (hrouted : Routed S s op) :
    (s.run S op).Queued S capacity := by
  cases op with
  | addInvocation id decode =>
      exact hq.of_deferral (deferral_insert (s := { s with heap := _ }) _)
  | addStream id decode => exact hq.of_deferral (deferral_insert (s := { s with heap := _ }) _)
  | addCallback target callback =>
      exact (hq.of_deferral (deferral_insert _)).replayDeferred target
  | processMessage m => exact hq.processMessage m
  | dispatch key m => exact hq.of_deferral (deferral_update _)
  | deferMessage key m => exact hq.deferMessage hrouted
  | replayDeferred key => exact hq.replayDeferred key
  | insertCallback target callback => exact hq.of_deferral (deferral_insert _)
  | cancelPending reason => exact hq.of_deferral (s.deferral_cancelPending reason)
  | remove key => exact hq.of_deferral deferral_remove
  | cleanup key =>
      exact hq.of_deferral ((deferral_dropHandle _).trans deferral_remove)
  | dropHandle => exact hq.of_deferral s.deferral_dropHandle
  | createKey _ | clone | pollFuture _ _ | pollStream _ _ => exact hq.of_deferral rfl

/-- **Every reached storage has its queues in order.** -/
theorem queued_of_reaches
    (h : Reaches (step S) (Routed S) (newWithDeferredMessageCapacity capacity) s) :
    s.Queued S capacity := by
  refine Reaches.invariant (I := Queued S capacity) h ?_ fun s op t hq hrouted hst => ?_
  · exact ⟨rfl, fun _ => Nat.zero_le _, fun _ _ hm => absurd hm List.not_mem_nil⟩
  · obtain ⟨-, rfl⟩ := guard_of_eq_some hst
    exact hq.run hrouted

/-! ### Records that arrive -/

/-- The reader passes records to the storage. -/
def processAll (S : Serde) (s : Storage V) (ms : List RawMessage) : Storage V :=
  ms.foldl (fun s m => (s.processMessage S m).1) s

@[simp] theorem processAll_cons (S : Serde) (s : Storage V) (m : RawMessage)
    (ms : List RawMessage) :
    s.processAll S (m :: ms) = (s.processMessage S m).1.processAll S ms := rfl

theorem Queued.processAll (hq : s.Queued S capacity) (ms : List RawMessage) :
    (s.processAll S ms).Queued S capacity := by
  induction ms generalizing s with
  | nil => exact hq
  | cons m ms ih => exact ih (hq.processMessage m)

/-- A poisoned mutex stays poisoned. -/
theorem poisoned_processAll (hp : s.poisoned = true) (ms : List RawMessage) :
    s.processAll S ms = s := by
  induction ms with
  | nil => rfl
  | cons m ms ih =>
      obtain ⟨o, -, ho⟩ := processMessage_poisoned (V := V) S m
      rw [processAll_cons, ho s hp]
      exact ih

theorem calm_of_processAll {ms : List RawMessage} (h : (s.processAll S ms).poisoned = false) :
    s.poisoned = false := by
  by_contra hp
  have hp : s.poisoned = true := by simpa using hp
  rw [poisoned_processAll hp, hp] at h
  simp at h

/-- A record reacts with the entry under its key, or nothing happens. -/
theorem processMessage_reacts_or_same (S : Serde) (s : Storage V) (m : RawMessage) :
    (∃ key, m.routingKey S = some key ∧ s.poisoned = false ∧
        Reacts key m (reaction S key m (s.get key)) s (s.processMessage S m).1) ∨
      (m.routingKey S = none ∨ s.poisoned = true) ∧ (s.processMessage S m).1 = s := by
  by_cases hp : s.poisoned
  · obtain ⟨o, -, ho⟩ := processMessage_poisoned (V := V) S m
    exact .inr ⟨.inr hp, by rw [ho s hp]⟩
  rcases hkey : m.routingKey S with - | key
  · obtain ⟨o, -, ho⟩ := processMessage_unrouted (V := V) hkey
    exact .inr ⟨.inl rfl, by rw [ho]⟩
  · have hp : s.poisoned = false := by simpa using hp
    exact .inl ⟨key, rfl, hp, (processMessage_reacts hp hkey).1⟩

/-- No record puts an action under a free key. -/
theorem get_processMessage_none (h : s.get target = none) (m : RawMessage) :
    (s.processMessage S m).1.get target = none := by
  rcases processMessage_reacts_or_same S s m with ⟨key, -, -, hr⟩ | ⟨-, hsame⟩
  · rw [hr.get]
    by_cases hk : target = key
    · subst hk
      rw [Function.update_self, h]
      rfl
    · rw [Function.update_of_ne hk, h]
  · rw [hsame, h]

/-- What a record adds to the queue of a target without an action. -/
theorem queue_processMessage (hq : s.Queued S capacity) (hp : s.poisoned = false)
    (hget : s.get target = none) (m : RawMessage) :
    (s.processMessage S m).1.queue target =
      if m.Invokes S target then (s.queue target ++ [m]).rtake capacity
      else s.queue target := by
  rcases processMessage_reacts_or_same S s m with ⟨key, hkey, -, hr⟩ | ⟨hnone | hp', hsame⟩
  · rw [queue, hr.deferred]
    by_cases hm : m.Invokes S target
    · obtain ⟨hkey', htype⟩ := RawMessage.invokes_iff.mp hm
      obtain rfl : key = target := Option.some.inj (hkey.symm.trans hkey')
      have hdefers : (reaction S key m (s.get key)).defers = true := by
        rw [hget]
        exact decide_eq_true htype
      rw [if_pos ⟨rfl, hdefers⟩, if_pos hm, Option.getD_some, hq.bound,
        pushBounded_eq_rtake (hq.length key)]
    · rw [if_neg hm, if_neg ?_, queue]
      rintro ⟨rfl, hdefers⟩
      rw [hget] at hdefers
      exact hm (RawMessage.invokes_iff.mpr ⟨hkey, of_decide_eq_true hdefers⟩)
  · rw [hsame, if_neg]
    intro hm
    rw [(RawMessage.invokes_iff.mp hm).1] at hnone
    simp at hnone
  · rw [hp] at hp'
    simp at hp'

/-- **The queue of a target without an action**, after any records: the last invocations
of it, as many as the bound allows. -/
theorem queue_processAll {ms : List RawMessage} (hq : s.Queued S capacity)
    (hp : (s.processAll S ms).poisoned = false) (hget : s.get target = none) :
    (s.processAll S ms).get target = none ∧
      (s.processAll S ms).queue target =
        (s.queue target ++ ms.filter (·.Invokes S target)).rtake capacity := by
  induction ms generalizing s with
  | nil =>
      refine ⟨hget, ?_⟩
      rw [List.filter_nil, List.append_nil, rtake_eq_self (hq.length target)]
      rfl
  | cons m ms ih =>
      have hcalm : s.poisoned = false := calm_of_processAll hp
      obtain ⟨hnone, hqueue⟩ := ih (hq.processMessage m) hp (get_processMessage_none hget m)
      refine ⟨hnone, ?_⟩
      rw [processAll_cons, hqueue, queue_processMessage hq hcalm hget]
      by_cases hm : m.Invokes S target
      · rw [if_pos hm, rtake_rtake_append, List.filter_cons_of_pos (by simpa using hm),
          List.append_assoc]
        rfl
      · rw [if_neg hm, List.filter_cons_of_neg (by simpa using hm)]

/-! ### The other targets -/

/-- The storages differ at most in the queue of one target. -/
structure SameBut (target : String) (s s' : Storage V) : Prop where
  get : s.get = s'.get
  deferred : ∀ k, k ≠ target → s.deferredMessages.lookup k = s'.deferredMessages.lookup k
  heap : s.heap = s'.heap
  poisoned : s.poisoned = s'.poisoned
  capacity : s.deferredMessageCapacity = s'.deferredMessageCapacity

/-- The storages stay so when both process a record. -/
theorem SameBut.processMessage (h : s.SameBut target s') (m : RawMessage) :
    (s.processMessage S m).1.SameBut target (s'.processMessage S m).1 := by
  rcases processMessage_reacts_or_same S s m with ⟨key, hkey, hp, hr⟩ | ⟨hidle, hsame⟩
  · have hr' := (processMessage_reacts (S := S) (h.poisoned ▸ hp) hkey).1
    rw [← h.get] at hr'
    refine ⟨?_, fun k hk => ?_, ?_, hr.poisoned.trans hr'.poisoned.symm, ?_⟩
    · rw [hr.get, hr'.get, h.get]
    · rw [hr.deferred, hr'.deferred, h.deferred k hk, h.capacity]
      split
      · rename_i hkey
        rw [queue, queue, ← hkey.1, h.deferred k hk]
      · rfl
    · rw [hr.heap, hr'.heap, h.heap]
    · rw [hr.capacity, hr'.capacity, h.capacity]
  · have hsame' : (s'.processMessage S m).1 = s' := by
      rcases processMessage_reacts_or_same S s' m with ⟨key, hkey, hp, -⟩ | ⟨-, hsame'⟩
      · rcases hidle with hnone | hp'
        · rw [hnone] at hkey
          simp at hkey
        · rw [h.poisoned, hp] at hp'
          simp at hp'
      · exact hsame'
    rw [hsame, hsame']
    exact h

/-- A record that is queued changes nothing else. -/
theorem SameBut.defer (h : s.SameBut target s') (hget : s.get target = none)
    (hm : m.Invokes S target) : (s.processMessage S m).1.SameBut target s' := by
  obtain ⟨hkey', -⟩ := RawMessage.invokes_iff.mp hm
  rcases processMessage_reacts_or_same S s m with ⟨key, hkey, hp, hr⟩ | ⟨-, hsame⟩
  · obtain rfl : key = target := Option.some.inj (hkey.symm.trans hkey')
    rw [hget] at hr
    refine ⟨?_, fun k hk => ?_, hr.heap.trans h.heap, ?_, hr.capacity.trans h.capacity⟩
    · rw [hr.get, ← h.get]
      exact Function.update_eq_self_iff.mpr hget.symm
    · rw [hr.deferred, if_neg fun hc => hk hc.1, h.deferred k hk]
    · rw [hr.poisoned, ← h.poisoned, hp]
      exact decide_eq_false (by simp [reaction, (RawMessage.invokes_iff.mp hm).2])
  · rw [hsame]
    exact h

/-- **The other queues are as if the target's records had not arrived.** -/
theorem SameBut.processAll (h : s.SameBut target s') (hget : s.get target = none)
    (ms : List RawMessage) : (s.processAll S ms).SameBut target
      (s'.processAll S (ms.filter (¬ ·.Invokes S target))) := by
  induction ms generalizing s s' with
  | nil => exact h
  | cons m ms ih =>
      have hget' := get_processMessage_none (S := S) hget m
      by_cases hm : m.Invokes S target
      · rw [List.filter_cons_of_neg (by simpa using hm)]
        exact ih (h.defer hget hm) hget'
      · rw [List.filter_cons_of_pos (by simpa using hm)]
        exact ih (h.processMessage m) hget'

theorem SameBut.refl (s : Storage V) (target : String) : s.SameBut target s :=
  ⟨rfl, fun _ _ => rfl, rfl, rfl, rfl⟩

/-! ### The registration -/

/-- A record leaves the queue of a target that has an action. -/
theorem deferred_processMessage {a : Action V} (hget : s.get target = some a) (m : RawMessage) :
    (s.processMessage S m).1.deferredMessages.lookup target
      = s.deferredMessages.lookup target := by
  rcases processMessage_reacts_or_same S s m with ⟨key, -, -, hr⟩ | ⟨-, hsame⟩
  · rw [hr.deferred, if_neg]
    rintro ⟨rfl, hdefers⟩
    rw [hget, reaction] at hdefers
    split at hdefers <;> simp at hdefers
  · rw [hsame]

/-- Records leave a callback in place, and its queue as it is. -/
theorem processAll_callback {a : CallbackAction} (hget : s.get target = some (.callback a))
    (ms : List RawMessage) :
    (s.processAll S ms).get target = some (.callback a) ∧
      (s.processAll S ms).deferredMessages.lookup target
        = s.deferredMessages.lookup target := by
  induction ms generalizing s with
  | nil => exact ⟨hget, rfl⟩
  | cons m ms ih =>
      obtain ⟨hkept, hqueue⟩ := ih (get_processMessage_callback (S := S) m hget)
      exact ⟨hkept, hqueue.trans (deferred_processMessage hget m)⟩

/-- The callback panics on none of the records, except perhaps the last. -/
def Spares (S : Serde) (callback : Callback) (queue : List RawMessage) : Prop :=
  ∀ m ∈ queue.dropLast, ∀ invocation, m.invocation S = some invocation →
    callback.panics invocation = false

/-- A replay passes every record to the callback, in order and once. -/
theorem calls_replay {a : CallbackAction} {l : List RawMessage} (hp : s.poisoned = false)
    (hget : s.get target = some (.callback a)) (hl : ∀ m ∈ l, m.Invokes S target)
    (hspares : Spares S a.callback l) :
    ∃ invocations : List Invocation, l.map (·.invocation S) = invocations.map some ∧
      (replay S target l s).1.calls = s.calls ++ invocations.map (a.callback.id, ·) := by
  induction l generalizing s with
  | nil => exact ⟨[], rfl, (List.append_nil _).symm⟩
  | cons m l ih =>
      obtain ⟨invocation, hm, -⟩ := Option.map_eq_some_iff.mp (hl m List.mem_cons_self)
      have hcb : s.callbackAt target = some a := by simp [callbackAt, hp, hget]
      have hcalls : (s.update target (Action.updateWith S m)).1.calls
          = s.calls ++ [(a.callback.id, invocation)] := by
        rw [calls_update hm, dispatches, hcb]
        simp [callsOf, hm]
      have hkept := get_update_callback (S := S) target m hget
      obtain ⟨hr, ho⟩ := update_reacts (S := S) (m := m) hp hget
      have houtcome := update_outcome hcb hm
      rw [replay]
      split
      · -- the callback panics, on the last record
        rename_i t heq
        rw [heq] at houtcome hcalls
        have hpanics : a.callback.panics invocation = true := by
          by_contra hno
          rw [if_neg hno] at houtcome
          simp at houtcome
        cases l with
        | nil => exact ⟨[invocation], by simp [hm], by simpa using hcalls⟩
        | cons x l =>
            rw [hspares m (by simp) invocation hm] at hpanics
            simp at hpanics
      · rename_i t o hne heq
        rw [heq] at hcalls hkept hr ho
        have hcalm : t.poisoned = false := by
          rw [hr.poisoned]
          exact decide_eq_false fun hpanic => hne (ho.trans hpanic)
        obtain ⟨invocations, hmap, hrest⟩ := ih hcalm hkept
          (fun x hx => hl x (List.mem_cons_of_mem _ hx)) (fun x hx => hspares x (by
            cases l with
            | nil => simp at hx
            | cons y l => exact List.mem_cons_of_mem _ hx))
        refine ⟨invocation :: invocations, by simp [hm, hmap], ?_⟩
        rw [hrest, hcalls, List.append_assoc]
        rfl

/-- A registration without a queue calls nothing. -/
theorem calls_addCallback_of_none (h : s.deferredMessages.lookup target = none)
    (callback : Callback) : (s.addCallback S target callback).1.calls = s.calls := by
  have hlookup : (s.insert target (.callback { target, callback })).deferredMessages.lookup target
      = none := by
    rw [deferredMessages_of_deferral (deferral_insert _), h]
  rw [addCallback, replayDeferred, hlookup]
  exact calls_insert_callback _

/-- The registration of a callback passes it the queue of its target, once and for all. -/
structure Replayed (S : Serde) (target : String) (callback : Callback) (s : Storage V) : Prop where
  /-- One call for each record, in the order of the queue. -/
  calls : ∃ invocations : List Invocation,
    (s.queue target).map (·.invocation S) = invocations.map some ∧
      (s.addCallback S target callback).1.calls = s.calls ++ invocations.map (callback.id, ·)
  taken : (s.addCallback S target callback).1.deferredMessages.lookup target = none
  others : ∀ k, k ≠ target → (s.addCallback S target callback).1.deferredMessages.lookup k
    = s.deferredMessages.lookup k
  /-- Whatever arrives for the callback, the next registration replays nothing. -/
  later : ∀ ms callback',
    let t := ((s.addCallback S target callback).1.processAll S ms).remove target
    (t.addCallback S target callback').1.calls = t.calls

theorem addCallback_replayed {callback : Callback} (hq : s.Queued S capacity)
    (hp : s.poisoned = false) (hget : s.get target = none)
    (hspares : Spares S callback (s.queue target)) :
    s.Replayed S target callback := by
  have hget' : (s.insert target (.callback { target, callback })).get target
      = some (.callback { target, callback }) := get_insert_self hp hget _
  have hadd : (s.addCallback S target callback).1 = (replay S target (s.queue target)
      ((s.insert target (.callback { target, callback })).takeDeferred target)).1 := by
    rw [addCallback, replayDeferred_eq_replay, queue_insert]
  have hdeferred : (s.addCallback S target callback).1.deferredMessages
      = s.deferredMessages.erase target := by
    rw [hadd, deferredMessages_of_deferral (deferral_replay _)]
    show (s.insert target _).deferredMessages.erase target = _
    rw [deferredMessages_of_deferral (deferral_insert _)]
  have hp' : (s.insert target (.callback { target, callback })).poisoned = false :=
    (s.poisoned_insert target _).trans hp
  have htaken : (s.addCallback S target callback).1.deferredMessages.lookup target = none := by
    rw [hdeferred]
    exact AList.lookup_erase _ _
  refine ⟨?_, htaken, fun k hk => ?_, fun ms callback' => ?_⟩
  · obtain ⟨invocations, hmap, hcalls⟩ := calls_replay
      (s := (s.insert target (.callback { target, callback })).takeDeferred target) hp' hget'
      (hq.invokes target) hspares
    refine ⟨invocations, hmap, ?_⟩
    rw [hadd, hcalls]
    exact congrArg (· ++ _) (calls_insert_callback _)
  · rw [hdeferred, AList.lookup_erase_ne hk]
  · intro t
    apply calls_addCallback_of_none
    have hkept : (s.addCallback S target callback).1.get target
        = some (.callback { target, callback }) := by
      rw [hadd]
      exact get_replay_callback _ hget'
    have hlookup := (processAll_callback (S := S) hkept ms).2.trans htaken
    rw [deferredMessages_of_deferral deferral_remove]
    exact hlookup

/-- **Deferred messages are the most recent ones, in order, once.**  While a target has no
action, its queue keeps the last invocations of it, and the other queues are as if these
had not arrived; its next callback gets each record of the queue once, in that order. -/
theorem deferred_then_replayed
    (hs : Reaches (step S) (Routed S) (newWithDeferredMessageCapacity capacity) s)
    (hget : s.get target = none) {ms : List RawMessage}
    (hcalm : (s.processAll S ms).poisoned = false) :
    (s.processAll S ms).queue target =
        (s.queue target ++ ms.filter (·.Invokes S target)).rtake capacity ∧
      (∀ k, k ≠ target → (s.processAll S ms).deferredMessages.lookup k =
        (s.processAll S (ms.filter (¬ ·.Invokes S target))).deferredMessages.lookup k) ∧
      ∀ callback, Spares S callback ((s.processAll S ms).queue target) →
        (s.processAll S ms).Replayed S target callback := by
  have hq := queued_of_reaches hs
  obtain ⟨hnone, hqueue⟩ := queue_processAll hq hcalm hget
  have hothers := (SameBut.refl s target).processAll (S := S) hget ms
  exact ⟨hqueue, hothers.deferred,
    fun callback hspares => addCallback_replayed (hq.processAll ms) hcalm hnone hspares⟩

/-- Two records for `tick` and one for `tock`. -/
def tickTockSerde : Serde :=
  .ofTable []
    [([1], .obj [("type", .int 1), ("target", .str "tick"), ("arguments", .arr [.int 1])]),
      ([2], .obj [("type", .int 1), ("target", .str "tick"), ("arguments", .arr [.int 2])]),
      ([3], .obj [("type", .int 1), ("target", .str "tock")])]

/-- The record with a given body. -/
def tickTock (body : UInt8) : RawMessage :=
  { bytes := [body], messageType := .invocation, protocol := .messagePack }

/-- A storage that keeps one message for each target, and three records: the first for
`tick` makes room for the second. -/
theorem deferred_then_replayed_tick :
    let s := (newWithDeferredMessageCapacity 1 : Storage Int).processAll tickTockSerde
      [tickTock 1, tickTock 3, tickTock 2]
    s.queue "tick" = [tickTock 2] ∧ s.queue "tock" = [tickTock 3] ∧
      s.Replayed tickTockSerde "tick" idleCallback := by
  have hcalm : ((newWithDeferredMessageCapacity 1 : Storage Int).processAll tickTockSerde
      [tickTock 1, tickTock 3, tickTock 2]).poisoned = false := by decide
  have hget : (newWithDeferredMessageCapacity 1 : Storage Int).get "tick" = none := rfl
  obtain ⟨hqueue, hothers, hreplayed⟩ := deferred_then_replayed (.refl _) hget hcalm
  refine ⟨hqueue.trans (by decide), ?_, hreplayed idleCallback fun _ _ _ _ => rfl⟩
  rw [queue, hothers "tock" (by decide)]
  decide

/-- The two panics that lose records: one of another target's callback, before the record
arrives, and one of the new callback, on the first of two records. -/
theorem panics_lose_deferred :
    (∃ s : Storage Int,
      Reaches (step tickTockSerde) (Routed tickTockSerde) (newWithDeferredMessageCapacity 8) s ∧
        s.get "tick" = none ∧
        (s.processAll tickTockSerde [tickTock 3, tickTock 1]).queue "tick" ≠
          (s.queue "tick" ++ [tickTock 3, tickTock 1].filter
            (·.Invokes tickTockSerde "tick")).rtake 8) ∧
      ∃ s : Storage Int,
        Reaches (step tickTockSerde) (Routed tickTockSerde)
            (newWithDeferredMessageCapacity 8) s ∧
          s.get "tick" = none ∧ s.queue "tick" = [tickTock 1, tickTock 2] ∧
          ¬ s.Replayed tickTockSerde "tick" Client.boomCallback := by
  constructor
  · exact ⟨_, .head (.addCallback "tock" Client.boomCallback) trivial rfl (.refl _), rfl, by decide⟩
  · refine ⟨_, .head (.processMessage (tickTock 1)) trivial rfl <|
      .head (.processMessage (tickTock 2)) trivial rfl (.refl _), rfl, by decide, fun h => ?_⟩
    obtain ⟨invocations, hmap, hcalls⟩ := h.calls
    have htwo : invocations.length = 2 := by
      rw [← List.length_map (f := some), ← hmap]
      decide
    have hone := congrArg List.length hcalls
    rw [List.length_append, List.length_map, htwo] at hone
    exact absurd hone (by decide)

end Storage

end SignalR
