/-
SignalR/Poisoning.lean

What a panic leaves behind.  A callback that panics while the action map is locked poisons
the mutex, and a callback keeps clones of the storage alive, its own among them.  So the
map is never dropped, and nothing reaches it any more.

Whatever is done from then on, by whom and in whatever order: the entries stay as they
are, no callback is called again, and the calls that were pending wait for ever, a
cancellation included; a new call gets its cancellation at once, and a new stream its end
(`panic_freezes`).
-/
import SignalR.Deliveries
import SignalR.Items
import SignalR.Verdicts

namespace SignalR

open Transition

variable {V : Type}

/-- What an operation does to the cells when nothing reaches the map. -/
def StorageOp.unmapped (h : Heap V) : StorageOp V → Heap V
  | .addInvocation _ _ => h.newFuture.complete h.futureCount Storage.cancelled
  | .addStream _ _ => h.newStream.close h.streamCount
  | .pollFuture f w => (h.pollFuture f w).1
  | .pollStream st w => (h.pollStream st w).1
  | _ => h

namespace StorageOp

theorem futureCount_unmapped (op : StorageOp V) (h : Heap V) :
    h.futureCount ≤ (op.unmapped h).futureCount ∧
      ∀ f, h.futureCount ≤ f → f < (op.unmapped h).futureCount →
        .resolved f Storage.cancelled ∈ (op.unmapped h).log := by
  cases op with
  | addInvocation id decode =>
      refine ⟨Nat.le_succ _, fun f hle hlt => ?_⟩
      obtain rfl : f = h.futureCount := Nat.le_antisymm (Nat.le_of_lt_succ hlt) hle
      apply Heap.resolved_mem_complete
      exact h.not_resolved_newFuture
  | _ => exact ⟨Nat.le_refl _, fun f hle hlt => absurd hlt (Nat.not_lt.mpr hle)⟩

/-- Only calls of callbacks are calls of callbacks. -/
theorem calls_unmapped (op : StorageOp V) (h : Heap V) :
    (op.unmapped h).log.filterMap Effect.callbackCall = h.log.filterMap Effect.callbackCall := by
  have quiet : ∀ {l : List (Effect V)}, l.filterMap Effect.callbackCall = [] →
      (h.log ++ l).filterMap Effect.callbackCall = h.log.filterMap Effect.callbackCall := by
    intro l hl
    rw [List.filterMap_append, hl, List.append_nil]
  cases op with
  | addInvocation id decode =>
      apply quiet
      cases ((h.newFuture.futures h.futureCount).completeWith Storage.cancelled).2 <;> rfl
  | addStream id decode =>
      apply quiet
      cases ((h.newStream.streams h.streamCount).enqueue none).2 <;> rfl
  | pollFuture f w =>
      apply quiet
      cases ((h.futures f).poll w).2 <;> rfl
  | pollStream st w =>
      apply quiet
      cases ((h.streams st).pollNext w).2 <;> rfl
  | _ => rfl

end StorageOp

namespace Storage

variable {S : Serde} {capacity : Nat} {s t : Storage V} {op : StorageOp V}

/-! ### The callback that panicked -/

theorem Guarded.processMessage (hg : s.Guarded) (m : RawMessage) :
    (s.processMessage S m).1.Guarded := by
  obtain ⟨o, -, h⟩ | ⟨key, -, h⟩ | ⟨invocation, h, -⟩ | ⟨key, -, -, h⟩ :=
    s.processMessage_cases S m
  · rw [h]
    exact hg
  · rw [h]
    exact hg.update
  · rw [h]
    exact hg.deferMessage
  · rw [h]
    have hupdate : (s.update key (Action.updateWith S m)).1.Guarded := hg.update
    exact hupdate.of_frozen frozen_remove (poisoned_remove _ key).trans

/-- **Only a callback poisons the mutex, and it stays in the map.** -/
theorem guarded_of_reaches
    (h : Reaches (step S) (Routed S) (newWithDeferredMessageCapacity capacity) s) : s.Guarded := by
  refine Reaches.invariant (I := Guarded) h (fun hp => Bool.noConfusion hp)
    fun s op t hg hrouted hst => ?_
  obtain ⟨hen, rfl⟩ := guard_of_eq_some hst
  cases op with
  | processMessage m => exact hg.processMessage m
  | dispatch key m => exact hg.update
  | deferMessage key m => exact hg.deferMessage
  | _ => exact hg.run hen trivial

/-! ### Behind a poisoned mutex -/

theorem heap_insert_of_poisoned (hp : s.poisoned = true) (key : String) (a : Action V) :
    (s.insert key a).heap = a.drop s.heap := by
  rw [insert, if_pos hp]

theorem heap_replayDeferred_of_poisoned (hp : s.poisoned = true) (key : String) :
    (s.replayDeferred S key).1.heap = s.heap := by
  rw [replayDeferred_eq_replay, replay_of_poisoned (s := s.takeDeferred key) hp]
  rfl

/-- No clone that is dropped is the last one. -/
theorem Guarded.strongCount_ne_one (hg : s.Guarded) (hp : s.poisoned = true) :
    s.strongCount ≠ 1 := by
  obtain ⟨key, a, hget⟩ := hg hp
  have hmem : (⟨key, .callback a⟩ : Sigma fun _ : String => Action V) ∈ s.data.entries :=
    AList.mem_lookup_iff.mp hget
  have hcallbacks : 0 < (s.data.entries.filter fun e => e.2.isCallback).length :=
    List.length_pos_of_mem (List.mem_filter.mpr ⟨hmem, rfl⟩)
  rw [strongCount]
  omega

/-- **The step lemma of a poisoned storage**: the entries stay, and only what needs no
entry happens. -/
theorem Guarded.run_of_poisoned (hg : s.Guarded) (hp : s.poisoned = true) (hen : s.enabled op) :
    (s.run S op).get = s.get ∧ (s.run S op).poisoned = true ∧
      (s.run S op).heap = op.unmapped s.heap := by
  have same : s.run S op = s → op.unmapped s.heap = s.heap →
      (s.run S op).get = s.get ∧ (s.run S op).poisoned = true ∧
        (s.run S op).heap = op.unmapped s.heap := by
    intro hrun hheap
    rw [hrun, hheap]
    exact ⟨rfl, hp, rfl⟩
  have hremove : ∀ key, s.remove key = s := fun key => if_pos hp
  have hdrop : s.dropHandle.heap = s.heap := by
    show (if s.strongCount = 1 then s.clear else s).heap = s.heap
    rw [if_neg (hg.strongCount_ne_one hp)]
  cases op with
  | addInvocation id decode =>
      have hrun : s.run S (.addInvocation id decode)
          = { s with heap := (StorageOp.addInvocation id decode).unmapped s.heap } := if_pos hp
      rw [hrun]
      exact ⟨rfl, hp, rfl⟩
  | addStream id decode =>
      have hrun : s.run S (.addStream id decode)
          = { s with heap := (StorageOp.addStream id decode).unmapped s.heap } := if_pos hp
      rw [hrun]
      exact ⟨rfl, hp, rfl⟩
  | addCallback target callback =>
      have hinsert : s.Frozen (s.insert target (.callback { target, callback })) := frozen_insert _
      obtain ⟨hget, hp'⟩ := hinsert hp
      have hreplay : (s.insert target (.callback { target, callback })).Frozen
          (s.addCallback S target callback).1 := frozen_replayDeferred
      obtain ⟨hget', hp''⟩ := hreplay hp'
      exact ⟨hget'.trans hget, hp'', (heap_replayDeferred_of_poisoned hp' target).trans
        (heap_insert_of_poisoned hp target _)⟩
  | processMessage m =>
      obtain ⟨o, -, ho⟩ := processMessage_poisoned (V := V) S m
      refine same ?_ rfl
      show (s.processMessage S m).1 = s
      rw [ho s hp]
  | dispatch key m =>
      refine same ?_ rfl
      show (s.update key _).1 = s
      rw [update_of_poisoned hp]
  | deferMessage key m =>
      refine same ?_ rfl
      show (s.deferMessage S key m).1 = s
      rw [Storage.deferMessage, if_pos hp]
  | replayDeferred key =>
      have hreplay : s.Frozen (s.replayDeferred S key).1 := frozen_replayDeferred
      obtain ⟨hget, hp'⟩ := hreplay hp
      exact ⟨hget, hp', heap_replayDeferred_of_poisoned hp key⟩
  | insertCallback target callback =>
      have hinsert : s.Frozen (s.insert target (.callback { target, callback })) := frozen_insert _
      obtain ⟨hget, hp'⟩ := hinsert hp
      exact ⟨hget, hp', heap_insert_of_poisoned hp target _⟩
  | cancelPending reason => exact same (if_pos hp) rfl
  | remove key => exact same (hremove key) rfl
  | cleanup key =>
      obtain ⟨hget, hp'⟩ := hg.frozen_dropHandle hen hp
      have hrun : s.run S (.cleanup key) = s.dropHandle := congrArg dropHandle (hremove key)
      rw [hrun]
      exact ⟨hget, hp', hdrop⟩
  | dropHandle =>
      obtain ⟨hget, hp'⟩ := hg.frozen_dropHandle hen hp
      exact ⟨hget, hp', hdrop⟩
  | createKey _ | clone | pollFuture _ _ | pollStream _ _ => exact ⟨rfl, hp, rfl⟩

/-! ### Runs -/

/-- What has become of a poisoned storage `s`. -/
structure Stuck (s t : Storage V) : Prop where
  poisoned : t.poisoned = true
  entries : t.get = s.get
  calls : t.calls = s.calls
  futures : s.heap.futureCount ≤ t.heap.futureCount
  cancelled : ∀ f, s.heap.futureCount ≤ f → f < t.heap.futureCount →
    .resolved f Storage.cancelled ∈ t.heap.log

/-- **The run lemma of a poisoned storage.** -/
theorem stuck_of_run {ops : List (StorageOp V)} (hs : s.Sound S capacity) (hg : s.Guarded)
    (hp : s.poisoned = true) (hrun : Run (step S) (Routed S) s ops t) :
    t.Sound S capacity ∧ s.Stuck t := by
  have hstuck : s.Stuck s :=
    ⟨hp, rfl, rfl, Nat.le_refl _, fun f hle hlt => absurd hlt (Nat.not_lt.mpr hle)⟩
  refine hrun.invariant (I := fun u => u.Sound S capacity ∧ s.Stuck u) ⟨hs, hstuck⟩ ?_
  rintro u op v ⟨hu, hi⟩ hrouted hst
  obtain ⟨hen, rfl⟩ := guard_of_eq_some hst
  have hgu : u.Guarded := fun _ => by
    rw [hi.entries]
    exact hg hp
  obtain ⟨hget, hp', hheap⟩ := hgu.run_of_poisoned (S := S) hi.poisoned hen
  obtain ⟨hcount, hnew⟩ := op.futureCount_unmapped u.heap
  have hgrows := View.Touches.log_prefix (run_touches S hen)
  refine ⟨hu.run hrouted hen, hp', hget.trans hi.entries, ?_, ?_, fun f hle hlt => ?_⟩
  · rw [← hi.calls, Storage.calls, hheap, op.calls_unmapped]
    rfl
  · rw [hheap]
    exact hi.futures.trans hcount
  · by_cases hold : f < u.heap.futureCount
    · exact hgrows.subset (hi.cancelled f hle hold)
    · rw [hheap] at hlt ⊢
      exact hnew f (Nat.not_lt.mp hold) hlt

/-- **A panic freezes the client for good.**  In every run from a reachable storage whose
mutex is poisoned: the entries stay as they are, and no callback is called again; an
invocation that was pending is never resolved, whatever arrives or is cancelled and
however many clones are dropped; the future of every invocation that is added is resolved
with its cancellation and nothing else; and every stream that is added is ended. -/
theorem panic_freezes {ops : List (StorageOp V)}
    (h : Reaches (step S) (Routed S) (newWithDeferredMessageCapacity capacity) s)
    (hp : s.poisoned = true) (hrun : Run (step S) (Routed S) s ops t) :
    (t.poisoned = true ∧ t.get = s.get ∧ t.calls = s.calls) ∧
      (∀ key a f, s.Waits key a f → ¬ t.heap.Resolved f ∧ ∀ r, .ready f r ∉ t.heap.log) ∧
      (∀ f, s.heap.futureCount ≤ f → f < t.heap.futureCount →
        ∀ r, .resolved f r ∈ t.heap.log ↔ r = cancelled) ∧
      ∀ st, s.heap.streamCount ≤ st → st < t.heap.streamCount → (t.heap.streams st).Ended := by
  have hs : s.Sound S capacity := sound_of_reaches h
  obtain ⟨ht, hstuck⟩ := stuck_of_run hs (guarded_of_reaches h) hp hrun
  refine ⟨⟨hstuck.poisoned, hstuck.entries, hstuck.calls⟩, ?_, ?_, ?_⟩
  · intro key a f hw
    have hwaits : t.Waits key a f := by
      refine ⟨?_, hw.completer⟩
      rw [hstuck.entries]
      exact hw.get
    have hpending := hwaits.not_resolved ht.view
    refine ⟨hpending, fun r hr => hpending ?_⟩
    exact (ht.view.heap.logged f).resolved_iff.mpr ⟨r, ht.answered.ready f r hr⟩
  · intro f hle hlt r
    constructor
    · intro hr
      exact (ht.view.heap.logged f).result_unique hr (hstuck.cancelled f hle hlt)
    · rintro rfl
      exact hstuck.cancelled f hle hlt
  · intro st hle hlt
    by_contra hopen
    -- an open stream has an entry, and the entries are older
    obtain ⟨key, hkey⟩ := ht.view.awaited (.stream st) hlt hopen
    have hold : s.view.armedAt key = some (.stream st) := by
      rw [← hkey]
      show (s.get key).bind Action.armed = (t.get key).bind Action.armed
      rw [hstuck.entries]
    exact absurd (hs.view.allocated key _ (hs.view.armed_cell key _ hold)) (Nat.not_lt.mpr hle)

/-- A call of `add` is pending when the callback for `boom` panics. -/
def boomOps : List (StorageOp Int) :=
  [.addInvocation "add_1" .i64, .addCallback "boom" Client.boomCallback,
    .processMessage Client.boomMessage]

def boomStorage : Storage Int :=
  boomOps.foldl (run Client.sample.serde) (newWithDeferredMessageCapacity 8)

/-- A cancellation, another call, and the drop of the last clone in use. -/
def boomLater : List (StorageOp Int) :=
  [.cancelPending "Client disconnected", .addInvocation "add_2" .i64, .dropHandle]

def boomLeft : Storage Int :=
  boomLater.foldl (run Client.sample.serde) boomStorage

theorem panic_freezes_boom :
    (boomLeft.poisoned = true ∧ boomLeft.get = boomStorage.get ∧
        boomLeft.calls = boomStorage.calls) ∧
      (∀ key a f, boomStorage.Waits key a f →
        ¬ boomLeft.heap.Resolved f ∧ ∀ r, .ready f r ∉ boomLeft.heap.log) ∧
      (∀ f, boomStorage.heap.futureCount ≤ f → f < boomLeft.heap.futureCount →
        ∀ r, .resolved f r ∈ boomLeft.heap.log ↔ r = cancelled) ∧
      ∀ st, boomStorage.heap.streamCount ≤ st → st < boomLeft.heap.streamCount →
        (boomLeft.heap.streams st).Ended := by
  have hreach : Reaches (step Client.sample.serde) (Routed Client.sample.serde)
      (newWithDeferredMessageCapacity 8) boomStorage :=
    .head (.addInvocation "add_1" .i64) trivial rfl <|
    .head (.addCallback "boom" Client.boomCallback) trivial rfl <|
    .head (.processMessage Client.boomMessage) trivial rfl <|
    .refl _
  have hrun : Run (step Client.sample.serde) (Routed Client.sample.serde) boomStorage boomLater
      boomLeft :=
    .cons trivial rfl <|
    .cons trivial rfl <|
    .cons trivial rfl <|
    .nil _
  exact panic_freezes hreach rfl hrun

end Storage

end SignalR
