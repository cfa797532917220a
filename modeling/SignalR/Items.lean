/-
SignalR/Items.lean

Streams deliver exactly their items.  The reader feeds the streams with its records; a
completion takes two locked sections, the end marker and the removal of the action, and
anything may happen between them except another record.  Other parties run the
remaining operations, and the consumers poll.

* Before the first end of a stream its consumer receives a prefix of the items that were
  processed for it, and all of them once it has received the end (`stream_delivers`).
* After the first end marker only end markers are pushed.

`processed` counts an item when its stream's action takes it.  A record that comes while
the mutex is poisoned is refused, and its item is counted apart (`refused`); a stream
that has refused one is not ended, unless a callback panicked between the two sections of
a completion (`interrupted`).
-/
import SignalR.Independence
import SignalR.Streams

namespace SignalR

open Transition

variable {V : Type}

/-! ### A poisoned storage -/

namespace Storage

variable {S : Serde} {capacity : Nat} {s t : Storage V} {key : String} {m : RawMessage}

/-- The callback that has poisoned the mutex is still in the map. -/
def Guarded (s : Storage V) : Prop :=
  s.poisoned = true → ∃ key a, s.get key = some (.callback a)

/-- Only a callback panics. -/
theorem callback_of_panic {a : Action V} {h : Heap V}
    (hpanic : (a.updateWith S m h).2.2 = .panic) : ∃ c, a = .callback c := by
  cases a with
  | invocation a =>
      simp only [Action.updateWith, InvocationAction.updateWith] at hpanic
      split at hpanic
      · split at hpanic <;> simp at hpanic
      · simp at hpanic
  | enumerable a =>
      simp only [Action.updateWith, EnumerableAction.updateWith] at hpanic
      split at hpanic
      · split at hpanic <;> simp at hpanic
      · split at hpanic <;> simp at hpanic
      · simp at hpanic
  | callback a => exact ⟨a, rfl⟩

theorem Guarded.update (hg : s.Guarded) :
    (s.update key (Action.updateWith S m)).1.Guarded := by
  obtain ⟨action, -, hget, hu⟩ | ⟨-, e, hu⟩ := s.update_cases key (Action.updateWith S m)
  · intro hp
    rw [hu] at hp
    obtain ⟨c, rfl⟩ := callback_of_panic (of_decide_eq_true hp)
    exact ⟨key, c, get_update_callback key m hget⟩
  · rw [hu]
    exact hg

theorem Guarded.deferMessage (hg : s.Guarded) : (s.deferMessage S key m).1.Guarded := by
  obtain ⟨-, hd, -⟩ | ⟨-, -, hd⟩ | ⟨-, hd⟩ := s.deferMessage_cases S key m
  · rw [hd]
    exact hg.update
  · rw [hd]
    exact hg
  · rw [hd]
    exact hg

theorem Guarded.replay {l : List RawMessage} (hg : s.Guarded) :
    (replay S key l s).1.Guarded := by
  apply replay_invariant (I := Guarded)
  · exact fun m _ t ht => ht.update
  · exact hg

/-- A poisoned storage keeps its entries and stays poisoned. -/
def Frozen (s t : Storage V) : Prop :=
  s.poisoned = true → t.get = s.get ∧ t.poisoned = true

theorem Guarded.of_frozen (hg : s.Guarded) (hf : s.Frozen t)
    (hcalm : s.poisoned = false → t.poisoned = false) : t.Guarded := by
  intro hp
  by_cases hs : s.poisoned
  · rw [(hf hs).1]
    exact hg hs
  · rw [hcalm (by simpa using hs)] at hp
    simp at hp

theorem frozen_insert (a : Action V) : s.Frozen (s.insert key a) := by
  intro hp
  rw [insert, if_pos hp]
  exact ⟨rfl, hp⟩

theorem update_of_poisoned (hp : s.poisoned = true)
    (f : Action V → Heap V → Action V × Heap V × Outcome) :
    s.update key f = (s, .err "Cannot lock storage") := by
  rw [Storage.update, if_pos hp]

theorem replay_of_poisoned (hp : s.poisoned = true) (l : List RawMessage) :
    (Storage.replay S key l s).1 = s := by
  induction l with
  | nil => rfl
  | cons m l ih =>
      rw [Storage.replay, update_of_poisoned hp]
      exact ih

/-- The callback that has poisoned the mutex keeps clones of the storage alive. -/
theorem Guarded.frozen_dropHandle (hg : s.Guarded) (hlive : 0 < s.handles) :
    s.Frozen s.dropHandle := by
  intro hp
  obtain ⟨key, a, hget⟩ := hg hp
  have hmem : (⟨key, .callback a⟩ : Sigma fun _ : String => Action V) ∈ s.data.entries :=
    AList.mem_lookup_iff.mp hget
  have hfilter : 0 < (s.data.entries.filter fun e => e.2.isCallback).length :=
    List.length_pos_of_mem (List.mem_filter.mpr ⟨hmem, rfl⟩)
  have hcount : s.strongCount ≠ 1 := by
    rw [strongCount]
    omega
  show (if s.strongCount = 1 then s.clear else s).get = s.get ∧
    (if s.strongCount = 1 then s.clear else s).poisoned = true
  rw [if_neg hcount]
  exact ⟨rfl, hp⟩

theorem frozen_replayDeferred : s.Frozen (s.replayDeferred S key).1 := by
  intro hp
  rw [replayDeferred_eq_replay, replay_of_poisoned (s := s.takeDeferred key) hp]
  exact ⟨rfl, hp⟩

theorem frozen_remove : s.Frozen (s.remove key) := by
  intro hp
  rw [remove, if_pos hp]
  exact ⟨rfl, hp⟩

/-- A poisoned storage is frozen by every operation. -/
theorem Guarded.run_frozen {op : StorageOp V} (hg : s.Guarded) (hen : s.enabled op)
    (hside : Side S op) : s.Frozen (s.run S op) := by
  intro hp
  cases op with
  | addInvocation id decode => exact frozen_insert (s := { s with heap := _ }) _ hp
  | addStream id decode => exact frozen_insert (s := { s with heap := _ }) _ hp
  | addCallback target callback =>
      have hinsert : s.Frozen (s.insert target (.callback { target, callback })) :=
        frozen_insert _
      obtain ⟨hget, hp'⟩ := hinsert hp
      obtain ⟨hget', hp''⟩ := frozen_replayDeferred (S := S) hp'
      exact ⟨hget'.trans hget, hp''⟩
  | processMessage m => exact hside.elim
  | dispatch key m =>
      show (s.update key _).1.get = s.get ∧ (s.update key _).1.poisoned = true
      rw [update_of_poisoned hp]
      exact ⟨rfl, hp⟩
  | deferMessage key m =>
      show (s.deferMessage S key m).1.get = s.get ∧ (s.deferMessage S key m).1.poisoned = true
      rw [Storage.deferMessage, if_pos hp]
      exact ⟨rfl, hp⟩
  | replayDeferred key => exact frozen_replayDeferred hp
  | insertCallback target callback => exact frozen_insert _ hp
  | cancelPending reason =>
      show (s.cancelPending reason).get = s.get ∧ (s.cancelPending reason).poisoned = true
      rw [cancelPending, if_pos hp]
      exact ⟨rfl, hp⟩
  | remove key => exact frozen_remove hp
  | cleanup key =>
      have hsame : s.remove key = s := by rw [remove, if_pos hp]
      show (s.remove key).dropHandle.get = s.get ∧ (s.remove key).dropHandle.poisoned = true
      rw [hsame]
      exact hg.frozen_dropHandle hen hp
  | dropHandle => exact hg.frozen_dropHandle hen hp
  | createKey _ | clone | pollFuture _ _ | pollStream _ _ => exact ⟨rfl, hp⟩

theorem poisoned_dropHandle (s : Storage V) : s.dropHandle.poisoned = s.poisoned :=
  ignoresEntries_poisoned.dropHandle (fun _ _ => rfl) s

theorem Guarded.run {op : StorageOp V} (hg : s.Guarded) (hen : s.enabled op)
    (hside : Side S op) : (s.run S op).Guarded := by
  -- whatever calls no callback poisons nothing
  have calm : (s.run S op).poisoned = s.poisoned → (s.run S op).Guarded := fun hsame =>
    hg.of_frozen (hg.run_frozen hen hside) hsame.trans
  cases op with
  | addInvocation id decode => exact calm (s.poisoned_addInvocation id decode)
  | addStream id decode => exact calm (s.poisoned_addStream id decode)
  | addCallback target callback =>
      have hinsert : (s.insert target (.callback { target, callback })).Guarded :=
        hg.of_frozen (frozen_insert _) (s.poisoned_insert target _).trans
      show ((s.insert target _).replayDeferred S target).1.Guarded
      rw [replayDeferred_eq_replay]
      exact Guarded.replay hinsert
  | processMessage m => exact hside.elim
  | dispatch key m => exact hg.update
  | deferMessage key m => exact hg.deferMessage
  | replayDeferred key =>
      show (s.replayDeferred S key).1.Guarded
      rw [replayDeferred_eq_replay]
      exact Guarded.replay hg
  | insertCallback target callback => exact calm (s.poisoned_insert target _)
  | cancelPending reason => exact calm (s.poisoned_cancelPending reason)
  | remove key => exact calm (s.poisoned_remove key)
  | cleanup key => exact calm ((poisoned_dropHandle _).trans (s.poisoned_remove key))
  | dropHandle => exact calm s.poisoned_dropHandle
  | createKey _ | clone | pollFuture _ _ | pollStream _ _ => exact calm rfl

end Storage

/-! ### The reader's records -/

/-- The stream that an action feeds with a record, and the item. -/
def Action.feed (S : Serde) (m : RawMessage) : Action V → Option (Nat × V)
  | .enumerable a =>
      match m.messageType with
      | .streamItem =>
          (deserialize S (StreamItem.decode a.decode) m.bytes m.protocol).toOption.map
            fun item => (a.completer, item.item)
      | _ => none
  | _ => none

/-- The effects of a record on the streams: an item, an end marker with a completion that
is taken, or nothing. -/
theorem Action.effects_cases (S : Serde) (m : RawMessage) (a : Action V) :
    (∃ st x, a.armed = some (.stream st) ∧ a.feed S m = some (st, x) ∧
        a.effects S m = [.enqueue st (some x)]) ∨
      (∃ st, a.armed = some (.stream st) ∧ a.feed S m = none ∧
        m.messageType = .completion ∧ (a.updateWith S m .empty).2.2 = .ok ∧
        a.effects S m = [.enqueue st none]) ∨
      a.feed S m = none ∧ ∀ h, (CellEffect.applyAll (a.effects S m) h).streams = h.streams := by
  cases a with
  | invocation a =>
      refine .inr (.inr ⟨rfl, fun h => ?_⟩)
      simp only [effects]
      split
      · rcases a.completer with - | f <;> rfl
      · rfl
  | callback a =>
      refine .inr (.inr ⟨rfl, fun h => ?_⟩)
      simp only [effects]
      rcases m.invocation S with - | i <;> rfl
  | enumerable a =>
      rcases hm : m.messageType
      case streamItem =>
        rcases hdec : deserialize S (StreamItem.decode a.decode) m.bytes m.protocol with e | item
        · refine .inr (.inr ⟨?_, fun h => ?_⟩)
          · simp [feed, hm, hdec, Except.toOption]
          · simp [effects, hm, hdec, CellEffect.applyAll]
        · refine .inl ⟨a.completer, item.item, rfl, ?_, ?_⟩
          · simp [feed, hm, hdec, Except.toOption]
          · simp [effects, hm, hdec]
      case completion =>
        rcases hdec : deserialize S (Completion.decode a.decode) m.bytes m.protocol with e | c
        · refine .inr (.inr ⟨?_, fun h => ?_⟩)
          · simp [feed, hm]
          · simp [effects, hm, hdec, CellEffect.applyAll]
        · refine .inr (.inl ⟨a.completer, rfl, ?_, rfl, ?_, ?_⟩)
          · simp [feed, hm]
          · simp [updateWith, EnumerableAction.updateWith, hm, hdec]
          · simp [effects, hm, hdec]
      all_goals
        refine .inr (.inr ⟨?_, fun h => ?_⟩)
        · simp [feed, hm]
        · simp [effects, hm, CellEffect.applyAll]

namespace Storage

variable {S : Serde} {capacity : Nat} {s t : Storage V} {key : String} {m : RawMessage}

/-- The stream that a record feeds, and the item: those of the action under its key. -/
def feeds (S : Serde) (s : Storage V) (m : RawMessage) : Option (Nat × V) :=
  ((m.routingKey S).bind s.get).bind (Action.feed S m)

/-- The first section of `process_message` on a completion, with the key that the second
one removes.  Any other record is taken whole. -/
def firstSection (S : Serde) (s : Storage V) (m : RawMessage) : Storage V × Option String :=
  match m.messageType, m.routingKey S with
  | .completion, some key =>
      match s.update key (Action.updateWith S m) with
      | (t, .ok) => (t, some key)
      | (t, _) => (t, none)
  | _, _ => ((s.processMessage S m).1, none)

/-- The first section of a record is an update or the whole record. -/
theorem firstSection_eq (S : Serde) (s : Storage V) (m : RawMessage) :
    (∃ key, m.messageType = .completion ∧ m.routingKey S = some key ∧
        (s.firstSection S m).1 = (s.update key (Action.updateWith S m)).1 ∧
        (s.firstSection S m).2 =
          if (s.update key (Action.updateWith S m)).2 = .ok then some key else none) ∨
      (m.messageType = .completion → m.routingKey S = none) ∧
        (s.firstSection S m).1 = (s.processMessage S m).1 ∧ (s.firstSection S m).2 = none := by
  rw [firstSection]
  split
  · rename_i key hm hkey
    refine .inl ⟨key, hm, hkey, ?_⟩
    rcases s.update key (Action.updateWith S m) with ⟨t, - | e | -⟩
    · exact ⟨rfl, rfl⟩
    · exact ⟨rfl, (if_neg (by simp)).symm⟩
    · exact ⟨rfl, (if_neg (by simp)).symm⟩
  · rename_i hother
    refine .inr ⟨fun hm => ?_, rfl, rfl⟩
    rcases hkey : m.routingKey S with - | key
    · rfl
    · exact (hother key hm hkey).elim

/-- Both sections are `process_message`. -/
theorem processMessage_eq_sections (S : Serde) (s : Storage V) (m : RawMessage) :
    (s.processMessage S m).1 =
      match (s.firstSection S m).2 with
      | some key => (s.firstSection S m).1.remove key
      | none => (s.firstSection S m).1 := by
  obtain ⟨key, hm, hkey, hfirst, hclosing⟩ | ⟨-, hfirst, hclosing⟩ := s.firstSection_eq S m
  · rw [RawMessage.routingKey, hm] at hkey
    obtain ⟨possible, hdec, hid⟩ := possibleInvocation_of_bind hkey
    rw [hfirst, hclosing]
    simp only [processMessage, hm, hdec, hid]
    rcases s.update key (Action.updateWith S m) with ⟨t, - | e | -⟩ <;> rfl
  · rw [hfirst, hclosing]

theorem firstSection_touches (S : Serde) (s : Storage V) (m : RawMessage) :
    Touches s.view (s.firstSection S m).1.view := by
  obtain ⟨key, -, -, h, -⟩ | ⟨-, h, -⟩ := s.firstSection_eq S m
  · rw [h]
    exact update_touches S s key m
  · rw [h]
    exact processMessage_touches S s m

theorem Queued.firstSection (hq : s.Queued S capacity) (m : RawMessage) :
    (s.firstSection S m).1.Queued S capacity := by
  obtain ⟨key, -, -, h, -⟩ | ⟨-, h, -⟩ := s.firstSection_eq S m
  · rw [h]
    exact hq.of_deferral (deferral_update _)
  · rw [h]
    exact hq.processMessage m

theorem Guarded.firstSection (hg : s.Guarded) (m : RawMessage) :
    (s.firstSection S m).1.Guarded := by
  obtain ⟨key, -, -, h, -⟩ | ⟨-, h, -⟩ := s.firstSection_eq S m
  · rw [h]
    exact hg.update
  · rw [h]
    obtain ⟨o, -, hr⟩ | ⟨key, -, hr⟩ | ⟨invocation, hr, -⟩ | ⟨key, -, hok, hr⟩ :=
      s.processMessage_cases S m
    · rw [hr]
      exact hg
    · rw [hr]
      exact hg.update
    · rw [hr]
      exact hg.deferMessage
    · have hu : (s.update key (Action.updateWith S m)).1.Guarded := hg.update
      rw [hr]
      exact hu.of_frozen frozen_remove (poisoned_remove _ key).trans

/-- A poisoned storage refuses the record. -/
theorem firstSection_of_poisoned (hp : s.poisoned = true) (m : RawMessage) :
    s.firstSection S m = (s, none) := by
  obtain ⟨o, -, ho⟩ := processMessage_poisoned (V := V) S m
  rw [firstSection, ho s hp]
  split
  · rw [update_of_poisoned hp]
  · rfl

/-- A completion that its action takes panics in no callback. -/
theorem calm_of_closing (hp : s.poisoned = false) (hclosing : (s.firstSection S m).2 = some key) :
    (s.firstSection S m).1.poisoned = false := by
  obtain ⟨key', -, -, hfirst, hsnd⟩ | ⟨-, -, hsnd⟩ := s.firstSection_eq S m
  · rw [hsnd] at hclosing
    split at hclosing
    · rename_i hok
      rw [hfirst]
      obtain ⟨a, -, -, hu⟩ | ⟨-, e, hu⟩ := s.update_cases key' (Action.updateWith S m)
      · rw [hu] at hok ⊢
        exact decide_eq_false (by simp [show (a.updateWith S m s.heap).2.2 = .ok from hok])
      · rw [hu]
        exact hp
    · simp at hclosing
  · rw [hsnd] at hclosing
    simp at hclosing

/-- A stream that is fed has its action in the map. -/
theorem cellAt_of_feeds {st : Nat} {x : V} (h : s.feeds S m = some (st, x)) :
    ∃ key, s.view.cellAt key = some (.stream st) := by
  obtain ⟨a, ha, hfeed⟩ := Option.bind_eq_some_iff.mp h
  obtain ⟨key, -, hget⟩ := Option.bind_eq_some_iff.mp ha
  refine ⟨key, ?_⟩
  rw [View.cellAt, view_get, hget]
  cases a with
  | invocation a => simp [Action.feed] at hfeed
  | callback a => simp [Action.feed] at hfeed
  | enumerable a =>
      simp only [Action.feed] at hfeed
      split at hfeed
      · obtain ⟨item, -, heq⟩ := Option.map_eq_some_iff.mp hfeed
        rw [← (Prod.mk.inj heq).1]
        rfl
      · simp at hfeed

/-- **What a record does to the streams.**  It feeds one an item, or begins to close one,
or leaves them alone. -/
theorem firstSection_cases (hp : s.poisoned = false) (m : RawMessage) :
    (∃ key st x, s.view.armedAt key = some (.stream st) ∧ s.feeds S m = some (st, x) ∧
        (s.firstSection S m).1.heap.streams = (s.heap.enqueue st (some x)).streams ∧
        (s.firstSection S m).2 = none) ∨
      (∃ key st, s.view.armedAt key = some (.stream st) ∧ s.feeds S m = none ∧
        (s.firstSection S m).1.heap.streams = (s.heap.enqueue st none).streams ∧
        (s.firstSection S m).2 = some key) ∨
      s.feeds S m = none ∧ (s.firstSection S m).1.heap.streams = s.heap.streams := by
  rcases hkey : m.routingKey S with - | key
  · -- a record without a key does nothing
    obtain ⟨o, -, ho⟩ := processMessage_unrouted (V := V) hkey
    obtain ⟨key', -, hkey', -⟩ | ⟨-, hfirst, -⟩ := s.firstSection_eq S m
    · rw [hkey] at hkey'
      simp at hkey'
    · refine .inr (.inr ⟨?_, ?_⟩)
      · rw [feeds, hkey]
        rfl
      · rw [hfirst, ho]
  obtain ⟨hr, -⟩ := processMessage_reacts (s := s) hp hkey
  rcases hget : s.get key with - | a
  · refine .inr (.inr ⟨by simp [feeds, hkey, hget], ?_⟩)
    obtain ⟨key', -, hkey', hfirst, -⟩ | ⟨-, hfirst, -⟩ := s.firstSection_eq S m
    · obtain rfl : key = key' := Option.some.inj (hkey.symm.trans hkey')
      obtain ⟨action, -, haction, -⟩ | ⟨-, e, hu⟩ := s.update_cases key (Action.updateWith S m)
      · rw [hget] at haction
        simp at haction
      · rw [hfirst, hu]
    · rw [hfirst, hr.heap, hget]
      rfl
  -- otherwise the section has the effects of the action under the key
  have hheap : (s.firstSection S m).1.heap = CellEffect.applyAll (a.effects S m) s.heap ∧
      (m.messageType = .completion → (a.updateWith S m .empty).2.2 = .ok →
        (s.firstSection S m).2 = some key) ∧
      (m.messageType ≠ .completion → (s.firstSection S m).2 = none) := by
    obtain ⟨hu, ho⟩ := update_reacts (S := S) (m := m) hp hget
    obtain ⟨key', hm, hkey', hfirst, hclosing⟩ | ⟨hm, hfirst, hclosing⟩ := s.firstSection_eq S m
    · obtain rfl : key = key' := Option.some.inj (hkey.symm.trans hkey')
      refine ⟨by rw [hfirst, hu.heap], fun _ hok => ?_, fun hne => absurd hm hne⟩
      rw [hclosing, ho, if_pos hok]
    · have hm' : m.messageType ≠ .completion := by
        intro hc
        rw [hm hc] at hkey
        simp at hkey
      refine ⟨?_, fun hc => absurd hc hm', fun _ => hclosing⟩
      rw [hfirst, hr.heap, hget, reaction, if_neg fun hc => hm' hc.1]
  have hfeeds : s.feeds S m = a.feed S m := by simp [feeds, hkey, hget]
  have harmed : s.view.armedAt key = a.armed := by
    rw [View.armedAt, view_get, hget]
    rfl
  rw [hheap.1, hfeeds]
  obtain ⟨st, x, hst, hfeed, heff⟩ | ⟨st, hst, hfeed, hm, hok, heff⟩ | ⟨hfeed, hstreams⟩ :=
    Action.effects_cases S m a
  · refine .inl ⟨key, st, x, harmed.trans hst, hfeed, by rw [heff]; rfl, ?_⟩
    refine hheap.2.2 fun hc => ?_
    cases a with
    | enumerable a => simp [Action.feed, hc] at hfeed
    | invocation a => simp [Action.feed] at hfeed
    | callback a => simp [Action.feed] at hfeed
  · exact .inr (.inl ⟨key, st, harmed.trans hst, hfeed, by rw [heff]; rfl, hheap.2.1 hm hok⟩)
  · exact .inr (.inr ⟨hfeed, hstreams s.heap⟩)

end Storage

/-! ### The system -/

/-- The items before the first end. -/
def beforeEnd : List (Option V) → List V
  | some x :: l => x :: beforeEnd l
  | _ => []

/-- A storage and its reader.  `closing` is the key of a completion between its two
sections.  `processed`, `refused` and `interrupted` are ghost fields: the items that each
stream's action has taken, those that came for it while the mutex was poisoned, and
whether the mutex has been poisoned between the two sections of a completion. -/
structure Items (V : Type) where
  store : Storage V
  closing : Option String
  processed : Nat → List V
  refused : Nat → List V
  interrupted : Bool

/-- What the reader and the other parties do. -/
inductive ItemLabel (V : Type)
  /-- A record arrives; of a completion only the first section. -/
  | record (m : RawMessage)
  /-- The second section of a completion. -/
  | finish
  | side (op : StorageOp V)

namespace Items

/-- Take down an item. -/
def note : Option (Nat × V) → (Nat → List V) → Nat → List V
  | some (st, x), f => Function.update f st (f st ++ [x])
  | none, f => f

section Sections

variable (S : Serde) (s : Items V)

def init (capacity : Nat) : Items V where
  store := .newWithDeferredMessageCapacity capacity
  closing := none
  processed := fun _ => []
  refused := fun _ => []
  interrupted := false

def record (m : RawMessage) : Items V :=
  { s with
    store := (s.store.firstSection S m).1
    closing := (s.store.firstSection S m).2
    processed := if s.store.poisoned then s.processed else note (s.store.feeds S m) s.processed
    refused := if s.store.poisoned then note (s.store.feeds S m) s.refused else s.refused }

def finish (key : String) : Items V :=
  { s with store := s.store.remove key, closing := none }

def side (op : StorageOp V) : Items V :=
  { s with
    store := s.store.run S op
    interrupted := s.interrupted || s.closing.isSome && (s.store.run S op).poisoned }

/-- One section.  The reader takes no record between the sections of another. -/
def step : ItemLabel V → Option (Items V)
  | .record m =>
      if s.closing = none ∧ s.store.enabled (.processMessage m) then some (s.record S m) else none
  | .finish => s.closing.map s.finish
  | .side op => if Storage.Side S op ∧ s.store.enabled op then some (s.side S op) else none

end Sections

variable {S : Serde} {capacity : Nat} {s t : Items V} {l : ItemLabel V} {m : RawMessage}
  {key : String} {op : StorageOp V} {st : Nat}

/-- Everything pushed to a stream. -/
def pushed (s : Items V) (st : Nat) : List (Option V) :=
  (s.store.heap.streams st).pushed

/-- What the consumer of a stream has received. -/
def received (s : Items V) (st : Nat) : List (Option V) :=
  s.store.heap.received st

/-- The sections of a record, one after the other, are `process_message`. -/
theorem reaches_record (hclosing : s.closing = none) (hlive : 0 < s.store.handles) :
    ∃ t, Reaches (step S) free s t ∧ t.store = (s.store.processMessage S m).1 ∧
      t.closing = none := by
  have hrecord : step S s (.record m) = some (s.record S m) := if_pos ⟨hclosing, hlive⟩
  have hsections := s.store.processMessage_eq_sections S m
  rcases hfirst : (s.store.firstSection S m).2 with - | key
  · rw [hfirst] at hsections
    exact ⟨s.record S m, .head _ trivial hrecord (.refl _), hsections.symm, hfirst⟩
  · rw [hfirst] at hsections
    refine ⟨(s.record S m).finish key, ?_, hsections.symm, rfl⟩
    refine .head _ trivial hrecord (.head .finish trivial ?_ (.refl _))
    show (s.store.firstSection S m).2.map _ = _
    rw [hfirst]
    rfl

/-! ### The invariant -/

/-- The streams have what was processed for them, and then end markers; a stream whose
action is in the map has none yet. -/
structure Inv (S : Serde) (capacity : Nat) (s : Items V) : Prop where
  view : s.store.view.Inv
  queued : s.store.Queued S capacity
  drained : s.store.heap.Drained
  guarded : s.store.Guarded
  shape : ∀ st, ∃ n, s.pushed st = (s.processed st).map some ++ List.replicate n none
  live : s.interrupted = false → ∀ key st, s.store.view.cellAt key = some (.stream st) →
    s.closing ≠ some key → none ∉ s.pushed st
  interrupted : s.interrupted = true → s.store.poisoned = true
  calm : s.store.poisoned = true → s.interrupted = false → s.closing = none
  refused : ∀ st, s.refused st ≠ [] →
    s.store.poisoned = true ∧ ∃ key, s.store.view.cellAt key = some (.stream st)

theorem inv_init (capacity : Nat) : (init capacity : Items V).Inv S capacity where
  view := .empty
  queued := ⟨rfl, fun _ => Nat.zero_le _, fun _ _ hm => absurd hm List.not_mem_nil⟩
  drained := Heap.drained_empty
  guarded := fun hp => absurd hp (by simp [init, Storage.newWithDeferredMessageCapacity])
  shape := fun _ => ⟨0, rfl⟩
  live := fun _ _ _ hcell => absurd hcell (by
    simp [init, View.cellAt, Storage.get, Storage.newWithDeferredMessageCapacity])
  interrupted := fun h => absurd h (by simp [init])
  calm := fun _ _ => rfl
  refused := fun _ h => absurd rfl h

/-- End markers keep the shape. -/
theorem shape_of_ends {h : Heap V} {f : Nat → List V}
    (hshape : ∃ n, s.pushed st = (f st).map some ++ List.replicate n none)
    (hends : s.store.heap.Ends h) :
    ∃ n, (h.streams st).pushed = (f st).map some ++ List.replicate n none := by
  obtain ⟨n, hn⟩ := hshape
  obtain ⟨n', hn'⟩ := hends st
  refine ⟨n + n', ?_⟩
  rw [hn', show (s.store.heap.streams st).pushed = _ from hn, List.append_assoc,
    ← List.replicate_add]

/-- A stream is open when its action has just come into the map, or was there before. -/
theorem Inv.open_of_held (hi : s.Inv S capacity) {v : View V}
    (hadv : s.store.view.Advances v) (hopen : s.interrupted = false)
    (hclosing : s.closing ≠ some key) (hheld : v.cellAt key = some (.stream st)) :
    none ∉ s.pushed st := by
  rcases hadv.held key _ hheld with hcell | hnew
  · exact hi.live hopen key st hcell hclosing
  · have hfresh := (hi.drained.fresh st (Nat.le_of_not_lt hnew)).1
    rw [pushed, hfresh]
    exact List.not_mem_nil

/-- While the mutex is poisoned, a stream that has refused an item keeps its action. -/
theorem Inv.refused_of_frozen (hi : s.Inv S capacity) {t : Storage V} (hf : s.store.Frozen t)
    (hst : s.refused st ≠ []) :
    t.poisoned = true ∧ ∃ key, t.view.cellAt key = some (.stream st) := by
  obtain ⟨hp, key, hcell⟩ := hi.refused st hst
  obtain ⟨hget, hp'⟩ := hf hp
  refine ⟨hp', key, ?_⟩
  rw [View.cellAt, Storage.view_get] at hcell ⊢
  rwa [hget]

/-- **Others keep the invariant**, also between the two sections of a completion. -/
theorem Inv.side (hi : s.Inv S capacity) (hside : Storage.Side S op)
    (hen : s.store.enabled op) : (s.side S op).Inv S capacity := by
  have htouch := Storage.run_touches S hen
  have hadv := View.Touches.advances htouch
  have hcloses := Storage.run_closes hi.view hi.drained hi.queued hside
  have hfrozen := hi.guarded.run_frozen hen hside
  refine ⟨View.Touches.inv hi.view htouch, ?_, View.Touches.drained htouch hi.view hi.drained,
    hi.guarded.run hen hside, fun st => shape_of_ends (hi.shape st) hcloses.ends, ?_, ?_, ?_,
    fun _ => hi.refused_of_frozen hfrozen⟩
  · refine hi.queued.run ?_
    cases op with
    | processMessage m => exact hside.elim
    | dispatch key m => exact (RawMessage.invokes_iff.mp hside).1
    | deferMessage key m => exact hside
    | _ => trivial
  · intro hnot key st hcell hclosing
    have hopen : s.interrupted = false := by
      by_contra hne
      have htrue : s.interrupted = true := by simpa using hne
      simp [Items.side, htrue] at hnot
    have hsame : (s.side S op).pushed st = s.pushed st := hcloses.held key st hcell
    rw [hsame]
    exact hi.open_of_held hadv hopen hclosing hcell
  · intro hint
    rcases Bool.or_eq_true_iff.mp hint with h | h
    · exact (hfrozen (hi.interrupted h)).2
    · exact (Bool.and_eq_true_iff.mp h).2
  · intro hp hnot
    rcases Bool.or_eq_false_iff.mp hnot with ⟨-, h⟩
    rcases hc : s.closing with - | key
    · exact hc
    · rw [hc, show (s.store.run S op).poisoned = true from hp] at h
      simp at h

/-- The second section of a completion keeps the invariant. -/
theorem Inv.finish (hi : s.Inv S capacity) (hclosing : s.closing = some key) :
    (s.finish key).Inv S capacity := by
  have htouch := Storage.remove_touches s.store key
  have hadv := View.Touches.advances htouch
  have hcloses := Storage.closes_remove hi.view key
  have hpoisoned := s.store.poisoned_remove key
  refine ⟨View.Touches.inv hi.view htouch, hi.queued.of_deferral Storage.deferral_remove,
    View.Touches.drained htouch hi.view hi.drained,
    hi.guarded.of_frozen Storage.frozen_remove hpoisoned.trans,
    fun st => shape_of_ends (hi.shape st) hcloses.ends, ?_, ?_, fun _ _ => rfl,
    fun _ => hi.refused_of_frozen Storage.frozen_remove⟩
  · intro hopen k st hcell _
    have hp : s.store.poisoned = false := by
      by_contra hp
      rw [hi.calm (by simpa using hp) hopen] at hclosing
      simp at hclosing
    have hne : s.closing ≠ some k := by
      intro hk
      obtain rfl := Option.some.inj (hclosing.symm.trans hk)
      have hgone : (s.store.remove key).get key = none := Storage.get_remove_self s.store key hp
      have hheld : ((s.store.remove key).get key).bind Action.cell = some (.stream st) := hcell
      rw [hgone] at hheld
      simp at hheld
    have hsame : (s.finish key).pushed st = s.pushed st := hcloses.held k st hcell
    rw [hsame]
    exact hi.open_of_held hadv hopen hne hcell
  · intro hint
    exact hpoisoned.trans (hi.interrupted hint)

/-- A record that a poisoned storage refuses keeps the invariant. -/
theorem Inv.record_of_poisoned (hi : s.Inv S capacity) (hclosing : s.closing = none)
    (hp : s.store.poisoned = true) (m : RawMessage) : (s.record S m).Inv S capacity := by
  have hrecord : s.record S m
      = { s with closing := none, refused := note (s.store.feeds S m) s.refused } := by
    rw [Items.record, Storage.firstSection_of_poisoned hp, if_pos hp, if_pos hp]
  rw [hrecord]
  refine ⟨hi.view, hi.queued, hi.drained, hi.guarded, hi.shape, ?_, hi.interrupted,
    fun _ _ => rfl, ?_⟩
  · intro hopen key st hcell _
    exact hi.live hopen key st hcell (by simp [hclosing])
  · intro st hst
    refine ⟨hp, ?_⟩
    rcases hfeeds : s.store.feeds S m with - | ⟨st', x⟩
    · rw [hfeeds] at hst
      exact (hi.refused st hst).2
    · by_cases heq : st = st'
      · subst heq
        exact Storage.cellAt_of_feeds hfeeds
      · refine (hi.refused st fun hnil => hst ?_).2
        show note (s.store.feeds S m) s.refused st = []
        rw [hfeeds, note, Function.update_of_ne heq, hnil]

/-- **Every record keeps the invariant.** -/
theorem Inv.record (hi : s.Inv S capacity) (hclosing : s.closing = none) (m : RawMessage) :
    (s.record S m).Inv S capacity := by
  by_cases hp : s.store.poisoned
  · exact hi.record_of_poisoned hclosing hp m
  have hp : s.store.poisoned = false := by simpa using hp
  have hopen : s.interrupted = false := by
    by_contra hint
    rw [hi.interrupted (by simpa using hint)] at hp
    simp at hp
  have htouch := s.store.firstSection_touches S m
  have hadv := View.Touches.advances htouch
  have hprocessed : (s.record S m).processed = note (s.store.feeds S m) s.processed :=
    if_neg (by simp [hp])
  have hnone : ∀ k, s.closing ≠ some k := by simp [hclosing]
  suffices hstreams :
      (∀ st, ∃ n, (s.record S m).pushed st
        = ((s.record S m).processed st).map some ++ List.replicate n none) ∧
      ∀ key st, (s.record S m).store.view.cellAt key = some (.stream st) →
        (s.record S m).closing ≠ some key → none ∉ (s.record S m).pushed st by
    refine ⟨View.Touches.inv hi.view htouch, hi.queued.firstSection m,
      View.Touches.drained htouch hi.view hi.drained, hi.guarded.firstSection m, hstreams.1,
      fun _ => hstreams.2, ?_, ?_, ?_⟩
    · intro hint
      rw [show s.interrupted = true from hint] at hopen
      simp at hopen
    · intro hp' _
      rcases hc : (s.store.firstSection S m).2 with - | key
      · exact hc
      · have hcalm : (s.record S m).store.poisoned = false := Storage.calm_of_closing hp hc
        rw [hcalm] at hp'
        simp at hp'
    · intro st hst
      have hold : (s.record S m).refused = s.refused := if_neg (by simp [hp])
      rw [hold] at hst
      rw [(hi.refused st hst).1] at hp
      simp at hp
  rw [hprocessed]
  obtain ⟨key, st, x, harmed, hfeeds, hstreams, hc⟩ | ⟨key, st, harmed, hfeeds, hstreams, hc⟩ |
      ⟨hfeeds, hstreams⟩ := Storage.firstSection_cases (S := S) hp m
  · -- an item is pushed to a stream that is open
    have hcell := hi.view.armed_cell key _ harmed
    have hlive := hi.live hopen key st hcell (hnone key)
    have hpushed : ∀ st', (s.record S m).pushed st'
        = if st' = st then s.pushed st ++ [some x] else s.pushed st' := by
      intro st'
      show ((s.store.firstSection S m).1.heap.streams st').pushed = _
      rw [hstreams]
      exact Heap.pushed_enqueue s.store.heap st st' (some x)
    refine ⟨fun st' => ?_, fun k st' hheld _ => ?_⟩
    · rw [hpushed, hfeeds, note]
      obtain ⟨n, hn⟩ := hi.shape st'
      by_cases heq : st' = st
      · subst heq
        have hzero : n = 0 := by
          by_contra hne
          refine hlive ?_
          rw [hn]
          exact List.mem_append_right _ (List.mem_replicate.mpr ⟨hne, rfl⟩)
        rw [hzero] at hn
        refine ⟨0, ?_⟩
        rw [if_pos rfl, Function.update_self, hn]
        simp
      · exact ⟨n, by rw [if_neg heq, Function.update_of_ne heq, hn]⟩
    · rw [hpushed]
      split
      · simp [hlive]
      · exact hi.open_of_held hadv hopen (hnone k) hheld
  · -- the end marker of a completion, whose stream is not open any more
    have hcell := hi.view.armed_cell key _ harmed
    have hends : s.store.heap.Ends (s.store.firstSection S m).1.heap :=
      (Heap.Ends.close _ st).trans (.of_streams hstreams)
    refine ⟨fun st' => ?_, fun k st' hheld hk => ?_⟩
    · rw [hfeeds]
      exact shape_of_ends (hi.shape st') hends
    · have hne : st' ≠ st := by
        rintro rfl
        rcases hadv.held k _ hheld with hold | hnew
        · obtain rfl := hi.view.unique k key _ hold hcell
          exact hk hc
        · exact hnew (hi.view.allocated key _ hcell)
      have hsame : (s.record S m).pushed st' = s.pushed st' := by
        show ((s.store.firstSection S m).1.heap.streams st').pushed = _
        rw [hstreams, Heap.pushed_enqueue, if_neg hne]
        rfl
      rw [hsame]
      exact hi.open_of_held hadv hopen (hnone k) hheld
  · have hsame : ∀ st, (s.record S m).pushed st = s.pushed st := fun st =>
      congrArg (fun f => (f st).pushed) hstreams
    refine ⟨fun st => ?_, fun k st hheld _ => ?_⟩
    · rw [hsame, hfeeds]
      exact hi.shape st
    · rw [hsame]
      exact hi.open_of_held hadv hopen (hnone k) hheld

/-- **The run lemma.** -/
theorem inv_of_reaches (h : Reaches (step S) free (init capacity) s) : s.Inv S capacity := by
  refine Reaches.invariant (I := Inv S capacity) h (inv_init capacity) fun s l t hi _ hst => ?_
  cases l with
  | record m =>
      obtain ⟨hen, rfl⟩ := guard_of_eq_some hst
      exact hi.record hen.1 m
  | finish =>
      obtain ⟨key, hclosing, rfl⟩ := Option.map_eq_some_iff.mp hst
      exact hi.finish hclosing
  | side op =>
      obtain ⟨hen, rfl⟩ := guard_of_eq_some hst
      exact hi.side hen.1 hen.2

/-! ### What the consumer receives -/

/-- A consumer that has received a part of the items and ends of a stream. -/
theorem beforeEnd_of_prefix {l : List (Option V)} {items : List V} {n : Nat}
    (h : l <+: items.map some ++ List.replicate n none) :
    beforeEnd l <+: items ∧ (none ∈ l → beforeEnd l = items) := by
  induction items generalizing l with
  | nil =>
      cases l with
      | nil => exact ⟨List.nil_prefix, fun _ => rfl⟩
      | cons x l =>
          obtain rfl : x = none := List.eq_of_mem_replicate (h.subset List.mem_cons_self)
          exact ⟨List.nil_prefix, fun _ => rfl⟩
  | cons item items ih =>
      cases l with
      | nil => exact ⟨List.nil_prefix, fun hnone => absurd hnone List.not_mem_nil⟩
      | cons x l =>
          obtain ⟨rfl, hrest⟩ := List.cons_prefix_cons.mp h
          obtain ⟨hpre, hall⟩ := ih hrest
          refine ⟨List.cons_prefix_cons.mpr ⟨rfl, hpre⟩, fun hnone => ?_⟩
          rw [beforeEnd, hall (by simpa using hnone)]

/-- After the first end there are ends only. -/
theorem ends_after_end {items : List V} {n : Nat} {l₁ l₂ : List (Option V)}
    (h : items.map some ++ List.replicate n none = l₁ ++ none :: l₂) : ∀ x ∈ l₂, x = none := by
  rcases append_eq_append_cons h with ⟨d, hd, -⟩ | ⟨d, -, hd⟩
  · have hmem : none ∈ items.map some := by
      rw [hd]
      exact List.mem_append_right _ List.mem_cons_self
    simp at hmem
  · intro x hx
    refine List.eq_of_mem_replicate (n := n) ?_
    rw [hd]
    exact List.mem_append_right _ (List.mem_cons_of_mem _ hx)

/-- **Streams deliver exactly their items**, in every run.  The items received before the
first end are a prefix of those processed, and all of them once the end has been received;
and no item is pushed after an end. -/
theorem stream_delivers (h : Reaches (step S) free (init capacity) s) (st : Nat) :
    beforeEnd (s.received st) <+: s.processed st ∧
      (none ∈ s.received st →
        beforeEnd (s.received st) = s.processed st ∧
          (s.interrupted = false → s.refused st = [])) ∧
      ∀ l₁ l₂, s.pushed st = l₁ ++ none :: l₂ → ∀ x ∈ l₂, x = none := by
  have hi := inv_of_reaches h
  obtain ⟨n, hn⟩ := hi.shape st
  have hreceived : s.received st <+: s.pushed st := ⟨_, hi.drained.drained st⟩
  rw [hn] at hreceived
  obtain ⟨hpre, hall⟩ := beforeEnd_of_prefix hreceived
  refine ⟨hpre, fun hend => ⟨hall hend, fun hopen => ?_⟩, fun l₁ l₂ hl => ?_⟩
  · -- a stream that has refused an item has its action in the map, and is open
    by_contra hne
    obtain ⟨hp, key, hcell⟩ := hi.refused st hne
    refine hi.live hopen key st hcell ?_ ?_
    · rw [hi.calm hp hopen]
      simp
    · rw [hn]
      exact hreceived.subset hend
  · exact ends_after_end (hn.symm.trans hl)

/-- The serializer on an item and a completion of `feed_1`. -/
def feedSerde : Serde :=
  .ofTable []
    [([1], .obj [("type", .int 2), ("invocationId", .str "feed_1"), ("item", .int 7)]),
      ([2], .obj [("type", .int 3), ("invocationId", .str "feed_1")])]

/-- An item is received, then the stream is completed and polled between the sections. -/
theorem stream_delivers_feed :
    ∃ s : Items Int, s.received 0 = [some 7, none] ∧
      (beforeEnd (s.received 0) <+: s.processed 0 ∧
        (none ∈ s.received 0 →
          beforeEnd (s.received 0) = s.processed 0 ∧
            (s.interrupted = false → s.refused 0 = [])) ∧
        ∀ l₁ l₂, s.pushed 0 = l₁ ++ none :: l₂ → ∀ x ∈ l₂, x = none) := by
  have hrun : Reaches (step feedSerde) free (init (V := Int) 8) _ :=
    .head (.side (.addStream "feed_1" .i64)) trivial rfl <|
    .head (.record ⟨[1], .streamItem, .messagePack⟩) trivial rfl <|
    .head (.side (.pollStream 0 5)) trivial rfl <|
    .head (.record ⟨[2], .completion, .messagePack⟩) trivial rfl <|
    .head (.side (.pollStream 0 5)) trivial rfl <|
    .head .finish trivial rfl <|
    .refl _
  exact ⟨_, by decide, stream_delivers hrun 0⟩

end Items

end SignalR
