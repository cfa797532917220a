/-
SignalR/Refinement.lean

The client runs the storage.  A step of any party of the client system is at most one
operation on the storage that the parties share (`operation`), so every run of the client is
a run of the storage system, in the order in which the parties take their steps
(`run_refines`).

What holds of the runs of the storage is thereby known of the client.  A call is decided by
the first verdict on it, and the parties that can have one are few: the reader that comes to
a completion for its key, the monitor after a loss, a graceful disconnect, and whoever takes
the call's entry out of the map.  What the caller gets from its future is that verdict,
however the steps are interleaved (`call_decided`).
-/
import SignalR.Entries
import SignalR.Verdicts

namespace SignalR

open Transition

variable {V : Type}

/-! ### Clones of the storage -/

namespace Storage

variable {S : Serde}

theorem ignoresEntries_handles : IgnoresEntries (handles (V := V)) :=
  fun _ _ _ => rfl

theorem handles_update (s : Storage V) (key : String)
    (f : Action V → Heap V → Action V × Heap V × Outcome) :
    (s.update key f).1.handles = s.handles :=
  ignoresEntries_handles.update (fun _ _ => rfl) s key f

theorem handles_deferMessage (s : Storage V) (key : String) (m : RawMessage) :
    (s.deferMessage S key m).1.handles = s.handles := by
  obtain ⟨-, hd, -⟩ | ⟨-, -, hd⟩ | ⟨-, hd⟩ := deferMessage_cases S s key m
  · rw [hd, handles_update]
  · rw [hd]
  · rw [hd]

theorem handles_processMessage (s : Storage V) (m : RawMessage) :
    (s.processMessage S m).1.handles = s.handles := by
  obtain ⟨o, -, hm⟩ | ⟨key, -, hm⟩ | ⟨i, hm, -⟩ | ⟨key, -, -, hm⟩ := processMessage_cases S s m
  · rw [hm]
  · rw [hm, handles_update]
  · rw [hm, handles_deferMessage]
  · rw [hm, ignoresEntries_handles.remove, handles_update]

theorem handles_replayDeferred (s : Storage V) (key : String) :
    (s.replayDeferred S key).1.handles = s.handles := by
  rw [replayDeferred]
  split
  · apply replay_invariant (I := fun t => t.handles = s.handles)
    · intro m _ t ht
      rw [handles_update, ht]
    · rfl
  · rfl

end Storage

namespace Client

variable {C : Config} {allowed : Client V → Label V → Prop} {s t : Client V} {l : Label V}

/-! ### One step -/

/-- What a step does to the storage. -/
def operation (s : Client V) : Label V → Option (StorageOp V)
  | .call _ (.invoke target) | .call _ (.enumerate target) => some (.createKey target)
  | .call c (.insert decode) =>
      match (s.calls c).kind with
      | .enumerate => some (.addStream (s.calls c).key decode)
      | _ => some (.addInvocation (s.calls c).key decode)
  | .call c .remove =>
      if (s.calls c).kind = .send then none else some (.remove (s.calls c).key)
  | .call c .cleanup => some (.remove (s.calls c).key)
  | .call c (.poll w) =>
      match (s.calls c).cell with
      | some (.future f) => some (.pollFuture f w)
      | _ => none
  | .call c (.pollStream w) =>
      match (s.calls c).cell with
      | some (.stream st) => some (.pollStream st w)
      | _ => none
  | .connection g .dispatch =>
      match (s.connections g).reader with
      | .running (m :: _) => some (.processMessage m)
      | _ => none
  | .monitor .cancel =>
      match s.monitor with
      | .cancelling _ reason => some (.cancelPending (lossText reason))
      | _ => none
  | .disconnect _ .cancel => some (.cancelPending "Client disconnected")
  | .user (.register target callback) => some (.addCallback target callback)
  | .user (.unregister target) => some (.remove target)
  | _ => none

/-- The storage after an operation, or none. -/
def after (S : Serde) (store : Storage V) : Option (StorageOp V) → Storage V
  | some op => store.run S op
  | none => store

/-- A step of a call is its operation. -/
theorem callStep_after (S : Serde) {c : Nat} {l : CallLabel V} (h : s.callStep c l = some t) :
    t.store = after S s.store (s.operation (.call c l)) := by
  cases callStep_transition h with
  | insertStream _ hkind =>
      rw [operation, hkind]
      rfl
  | insertFuture _ hkind =>
      rw [operation]
      cases hk : (s.calls c).kind with
      | enumerate => exact absurd hk hkind
      | _ => rfl
  | removeInvoke _ hkind | removeEnumerate _ hkind =>
      rw [operation, if_neg (by simp [hkind])]
      rfl
  | removeSend _ hkind =>
      rw [operation, if_pos hkind]
      rfl
  | pollPending _ hcell | pollReady _ hcell | pollStream _ hcell =>
      rw [operation, hcell]
      rfl
  | _ => rfl

/-- A step of the monitor is its operation. -/
theorem monitorStep_after (S : Serde) {l : MonitorLabel} (h : s.monitorStep C l = some t) :
    t.store = after S s.store (s.operation (.monitor l)) := by
  cases l with
  | cancel =>
      simp only [monitorStep] at h
      split at h
      · rename_i hmonitor
        obtain rfl := Option.some.inj h
        rw [operation, hmonitor]
        rfl
      · simp at h
  | _ =>
      rcases (monitorStep_move h).frame.store with hstore | ⟨g, reason, hmonitor, -⟩
      · exact hstore
      · simp [monitorStep, hmonitor] at h

/-- A step of a disconnect is its operation. -/
theorem disconnectStep_after (S : Serde) {d : Nat} {l : DisconnectLabel}
    (h : s.disconnectStep d l = some t) :
    t.store = after S s.store (s.operation (.disconnect d l)) := by
  have hmove := disconnectStep_move h
  cases l with
  | cancel =>
      simp only [disconnectStep] at h
      split at h
      · obtain rfl := Option.some.inj h
        rfl
      · simp at h
  | _ =>
      cases hmove with
      | cancel hidle => simp [disconnectStep, hidle] at h
      | _ => rfl

/-- A step of the tasks of a connection is its operation. -/
theorem connectionStep_after {g : Nat} {l : ConnectionLabel} (h : s.connectionStep C g l = some t) :
    t.store = after C.serde s.store (s.operation (.connection g l)) := by
  cases connectionStep_transition h with
  | dispatch hreader | dispatchPanics hreader =>
      rw [operation, hreader]
      rfl
  | _ => rfl

/-- No step does more to the storage than its operation. -/
theorem step_after (h : step C s l = some t) : t.store = after C.serde s.store (s.operation l) := by
  cases l with
  | call c l => exact callStep_after C.serde h
  | connection g l => exact connectionStep_after h
  | monitor l => exact monitorStep_after C.serde h
  | disconnect d l => exact disconnectStep_after C.serde h
  | user l =>
      obtain rfl := Option.some.inj h
      cases l with
      | _ => rfl

/-- The operations of a client: it makes and drops no clones, works in whole calls, and a
call polls what it was handed. -/
inductive Performs (s : Client V) : StorageOp V → Prop
  | createKey (target : String) : Performs s (.createKey target)
  | addInvocation (key : String) (decode : DeserializeOwned V) :
      Performs s (.addInvocation key decode)
  | addStream (key : String) (decode : DeserializeOwned V) : Performs s (.addStream key decode)
  | addCallback (target : String) (callback : Callback) :
      Performs s (.addCallback target callback)
  | processMessage (m : RawMessage) : Performs s (.processMessage m)
  | cancelPending (reason : String) : Performs s (.cancelPending reason)
  | remove (key : String) : Performs s (.remove key)
  | pollFuture {c f : Nat} (w : Waker) :
      (s.calls c).cell = some (.future f) → Performs s (.pollFuture f w)
  | pollStream {c st : Nat} (w : Waker) :
      (s.calls c).cell = some (.stream st) → Performs s (.pollStream st w)

theorem performs_of_operation {op : StorageOp V} (h : s.operation l = some op) :
    s.Performs op := by
  cases l with
  | call c l =>
      cases l with
      | invoke target | enumerate target =>
          obtain rfl := Option.some.inj h
          exact .createKey target
      | insert decode =>
          rw [operation] at h
          split at h
          · obtain rfl := Option.some.inj h
            exact .addStream _ decode
          · obtain rfl := Option.some.inj h
            exact .addInvocation _ decode
      | remove =>
          rw [operation] at h
          split at h
          · simp at h
          · obtain rfl := Option.some.inj h
            exact .remove _
      | cleanup =>
          obtain rfl := Option.some.inj h
          exact .remove _
      | poll w =>
          rw [operation] at h
          split at h
          · rename_i hcell
            obtain rfl := Option.some.inj h
            exact .pollFuture w hcell
          · simp at h
      | pollStream w =>
          rw [operation] at h
          split at h
          · rename_i hcell
            obtain rfl := Option.some.inj h
            exact .pollStream w hcell
          · simp at h
      | _ => simp [operation] at h
  | connection g l =>
      cases l with
      | dispatch =>
          rw [operation] at h
          split at h
          · obtain rfl := Option.some.inj h
            exact .processMessage _
          · simp at h
      | _ => simp [operation] at h
  | monitor l =>
      cases l with
      | cancel =>
          rw [operation] at h
          split at h
          · obtain rfl := Option.some.inj h
            exact .cancelPending _
          · simp at h
      | _ => simp [operation] at h
  | disconnect d l =>
      cases l with
      | cancel =>
          obtain rfl := Option.some.inj h
          exact .cancelPending _
      | _ => simp [operation] at h
  | user l =>
      cases l with
      | register target callback =>
          obtain rfl := Option.some.inj h
          exact .addCallback target callback
      | unregister target =>
          obtain rfl := Option.some.inj h
          exact .remove target
      | _ => simp [operation] at h

section

variable {op : StorageOp V} {S : Serde}

theorem Performs.enabled (h : s.Performs op) (hi : s.StoreInv) (hhandles : 0 < s.store.handles) :
    s.store.enabled op := by
  cases h with
  | pollFuture w hcell => exact hi.owns _ _ hcell
  | pollStream w hcell => exact hi.owns _ _ hcell
  | _ => exact hhandles

theorem Performs.routed (h : s.Performs op) : Storage.Routed S s.store op := by
  cases h with
  | _ => trivial

theorem Performs.handles (h : s.Performs op) : (s.store.run S op).handles = s.store.handles := by
  have hinsert := Storage.ignoresEntries_handles.insert (V := V)
  cases h with
  | createKey target => rfl
  | addInvocation key decode => exact hinsert { s.store with heap := _ } key _
  | addStream key decode => exact hinsert { s.store with heap := _ } key _
  | addCallback target callback =>
      exact (Storage.handles_replayDeferred _ _).trans (hinsert s.store target _)
  | processMessage m => exact s.store.handles_processMessage m
  | cancelPending reason => exact Storage.ignoresEntries_handles.cancelPending s.store reason
  | remove key => exact Storage.ignoresEntries_handles.remove s.store key
  | pollFuture w hcell => rfl
  | pollStream w hcell => rfl

end

/-! ### Runs -/

/-- What the storage needs of the client for its operations. -/
structure Runs (s : Client V) : Prop where
  store : s.StoreInv
  handles : 0 < s.store.handles

theorem Runs.init (C : Config) : (init C : Client V).Runs := by
  have hreachable : Reachable C free (Client.init C : Client V) := .refl _
  exact ⟨hreachable.storeInv, Nat.one_pos⟩

theorem Runs.step (hi : s.Runs) (h : Client.step C s l = some t) : t.Runs where
  store := hi.store.step h
  handles := by
    rw [step_after h]
    rcases hop : s.operation l with - | op
    · exact hi.handles
    · show 0 < (s.store.run C.serde op).handles
      rw [(performs_of_operation hop).handles]
      exact hi.handles

/-- **One step of the client is at most one of the storage.** -/
theorem step_refines (hi : s.Runs) (h : step C s l = some t) :
    Run (Storage.step C.serde) (Storage.Routed C.serde) s.store (s.operation l).toList t.store := by
  rw [step_after h]
  rcases hop : s.operation l with - | op
  · exact .nil _
  · have hperforms := performs_of_operation hop
    apply Run.single hperforms.routed
    rw [Storage.step, if_pos (hperforms.enabled hi.store hi.handles)]
    rfl

/-! ### Verdicts -/

/-- What a step of the client decides about the call that waits under `key`, as long as the
mutex of the map is not poisoned. -/
def ruling (C : Config) (s : Client V) (key : String) (decode : DeserializeOwned V) :
    Label V → Option (Except String V)
  | .connection g .dispatch =>
      match (s.connections g).reader with
      | .running (m :: _) => m.answer C.serde key decode
      | _ => none
  | .monitor .cancel =>
      match s.monitor with
      | .cancelling _ reason => some (.error (lossText reason))
      | _ => none
  | .disconnect _ .cancel => some (.error "Client disconnected")
  | .call c .remove =>
      if (s.calls c).kind ≠ .send ∧ (s.calls c).key = key then some Storage.cancelled else none
  | .call c .cleanup => if (s.calls c).key = key then some Storage.cancelled else none
  -- a target may be named like a key
  | .user (.unregister target) => if target = key then some Storage.cancelled else none
  | _ => none

/-- What a step of the client decides; a poisoned mutex is locked by nobody. -/
def verdict (C : Config) (s : Client V) (key : String) (decode : DeserializeOwned V) (l : Label V) :
    Option (Except String V) :=
  if s.store.poisoned then none else s.ruling C key decode l

/-- The first verdict of a run. -/
def firstVerdict (C : Config) (key : String) (decode : DeserializeOwned V) :
    Client V → List (Label V) → Option (Except String V)
  | _, [] => none
  | s, l :: ls =>
      (s.verdict C key decode l).or ((step C s l).bind fun t => firstVerdict C key decode t ls)

section

variable {key : String} {decode : DeserializeOwned V} {ls : List (Label V)}

/-- A step has the verdict of its operation. -/
theorem verdict_eq (C : Config) (s : Client V) (key : String) (decode : DeserializeOwned V)
    (l : Label V) :
    s.verdict C key decode l = (s.operation l).bind (s.store.verdict C.serde key decode) := by
  by_cases hp : s.store.poisoned = true
  · rw [verdict, if_pos hp]
    symm
    rw [Option.bind_eq_none_iff]
    intro op hop
    cases performs_of_operation hop with
    | _ => simp [Storage.verdict, hp]
  have hclean : s.store.poisoned = false := by simpa using hp
  rw [verdict, if_neg hp]
  cases l with
  | call c l =>
      cases l with
      | insert decode =>
          rw [operation]
          cases (s.calls c).kind with
          | _ => rfl
      | remove =>
          rw [operation, ruling]
          by_cases hkind : (s.calls c).kind = .send
          · rw [if_pos hkind, if_neg (by simp [hkind])]
            rfl
          · rw [if_neg hkind, Option.bind_some, Storage.verdict]
            simp [hkind, hclean]
      | cleanup => simp [operation, ruling, Storage.verdict, hclean]
      | poll w | pollStream w =>
          rw [operation]
          split
          · rfl
          · rfl
      | _ => rfl
  | connection g l =>
      cases l with
      | dispatch =>
          rw [operation, ruling]
          split
          · simp [Storage.verdict, hclean]
          · rfl
      | _ => rfl
  | monitor l =>
      cases l with
      | cancel =>
          rw [operation, ruling]
          split
          · simp [Storage.verdict, hclean]
          · rfl
      | _ => rfl
  | disconnect d l =>
      cases l with
      | cancel => simp [operation, ruling, Storage.verdict, hclean]
      | _ => rfl
  | user l =>
      cases l with
      | unregister target => simp [operation, ruling, Storage.verdict, hclean]
      | _ => rfl

/-- The operations of a run, in order. -/
def operations (C : Config) : Client V → List (Label V) → List (StorageOp V)
  | _, [] => []
  | s, l :: ls => (s.operation l).toList ++ (step C s l).elim [] fun t => operations C t ls

/-- **A run of the client is a run of its storage.** -/
theorem run_refines (hi : s.Runs) (hrun : Run (step C) allowed s ls t) :
    Run (Storage.step C.serde) (Storage.Routed C.serde) s.store (operations C s ls) t.store := by
  induction hrun with
  | nil s => exact .nil _
  | cons _ hst _ ih =>
      rw [operations, hst]
      exact (step_refines hi hst).append (ih (hi.step hst))

/-- Its verdicts are those of its operations. -/
theorem firstVerdict_operations (key : String) (decode : DeserializeOwned V)
    (hrun : Run (step C) allowed s ls t) :
    Storage.firstVerdict C.serde key decode s.store (operations C s ls)
      = firstVerdict C key decode s ls := by
  induction hrun with
  | nil s => rfl
  | @cons s u t l ls _ hst _ ih =>
      have hafter := step_after hst
      rw [firstVerdict, operations, hst, verdict_eq, Option.bind_some, ← ih]
      rcases hop : s.operation l with - | op
      · rw [hop] at hafter
        rw [show u.store = s.store from hafter]
        rfl
      · rw [hop] at hafter
        rw [show u.store = s.store.run C.serde op from hafter]
        rfl

/-- After an insertion the client can go on, and its storage is a reachable one. -/
theorem inserted_runs {before : List (Label V)} {u : Client V} {c : Nat}
    (hbefore : Run (step C) allowed (init C) before s)
    (hinsert : step C s (.call c (.insert decode)) = some u) :
    u.Runs ∧ Reaches (Storage.step C.serde) (Storage.Routed C.serde)
      (.newWithDeferredMessageCapacity C.deferredMessageCapacity) u.store := by
  have hinserted : Run (step C) free (init C) (before ++ [.call c (.insert decode)]) u :=
    (hbefore.mono fun _ _ _ => trivial).append (.single trivial hinsert)
  refine ⟨Runs.step (Run.invariant hbefore (Runs.init C) ?_) hinsert, ?_⟩
  · exact fun s l t hi _ hst => hi.step hst
  · exact ⟨_, run_refines (Runs.init C) hinserted⟩

/-- The insertion of an invocation. -/
theorem insert_invoke {c : Nat} (hkind : (s.calls c).kind = .invoke)
    (h : step C s (.call c (.insert decode)) = some t) :
    (t.calls c).cell = some (.future s.store.heap.futureCount) ∧
      t.store = s.store.addInvocation (s.calls c).key decode := by
  replace h : s.callStep c (.insert decode) = some t := h
  cases callStep_transition h with
  | insertStream _ hother => simp [hkind] at hother
  | insertFuture => exact ⟨congrArg Call.cell (setCall_self _ c _), rfl⟩

/-- An inserted invocation waits. -/
theorem waits_addInvocation (decode : DeserializeOwned V) {store : Storage V}
    (hp : store.poisoned = false) (hfree : store.get key = none) :
    (store.addInvocation key decode).Waits key
      (InvocationAction.new key decode store.heap).1 store.heap.futureCount where
  get := by
    rw [Storage.addInvocation]
    have hget := Storage.get_insert_self
      (s := { store with heap := (InvocationAction.new key decode store.heap).2 }) hp hfree
    exact hget _
  completer := rfl

/-- A refused invocation is over at once. -/
theorem resolved_addInvocation (decode : DeserializeOwned V) {store : Storage V}
    (hrefused : ¬ (store.poisoned = false ∧ store.get key = none)) :
    .resolved store.heap.futureCount Storage.cancelled
      ∈ (store.addInvocation key decode).heap.log := by
  rw [Storage.addInvocation]
  obtain ⟨hp, hfree, -⟩ | ⟨-, hinsert⟩ :=
    Storage.insert_cases { store with heap := (InvocationAction.new key decode store.heap).2 } key
      (.invocation (InvocationAction.new key decode store.heap).1)
  · exact absurd ⟨hp, hfree⟩ hrefused
  · rw [hinsert]
    -- the action is dropped with its completer in it
    exact Heap.resolved_mem_complete (Heap.not_resolved_newFuture store.heap)

/-- **What a call returns.**  Every run of the client, whatever its parties do and in
whichever order, is a run of its storage.  The future of an `invoke` that entered the map is
resolved exactly if some step after the insertion had a verdict on the call, and the caller
gets the first of these verdicts and nothing else.  A call whose key is taken, or that finds
the mutex poisoned, is cancelled at once. -/
theorem call_decided {before after : List (Label V)} {u : Client V} {c : Nat}
    (hbefore : Run (step C) allowed (init C) before s) (hkind : (s.calls c).kind = .invoke)
    (hinsert : step C s (.call c (.insert decode)) = some u)
    (hafter : Run (step C) allowed u after t) :
    Run (Storage.step C.serde) (Storage.Routed C.serde) (init C).store
        (operations C (init C) (before ++ .call c (.insert decode) :: after)) t.store ∧
    ∃ f, (u.calls c).cell = some (.future f) ∧
      (s.store.poisoned = false ∧ s.store.get (s.calls c).key = none →
        (t.store.heap.Resolved f ↔
            (firstVerdict C (s.calls c).key decode u after).isSome) ∧
          ∀ r, .ready f r ∈ t.store.heap.log →
            firstVerdict C (s.calls c).key decode u after = some r) ∧
      (¬ (s.store.poisoned = false ∧ s.store.get (s.calls c).key = none) →
        t.store.heap.Resolved f ∧
          ∀ r, .ready f r ∈ t.store.heap.log → r = Storage.cancelled) := by
  obtain ⟨hcell, hstore⟩ := insert_invoke hkind hinsert
  obtain ⟨hruns, hreaches⟩ := inserted_runs hbefore hinsert
  have hsound := Storage.sound_of_reaches hreaches
  have hops := run_refines hruns hafter
  have hrun : Run (step C) free (init C) (before ++ .call c (.insert decode) :: after) t :=
    (hbefore.mono fun _ _ _ => trivial).append
      (.cons trivial hinsert (hafter.mono fun _ _ _ => trivial))
  refine ⟨run_refines (Runs.init C) hrun, _, hcell, ?_, ?_⟩
  · rintro ⟨hp, hfree⟩
    have hwaits := waits_addInvocation decode hp hfree
    rw [← hstore] at hwaits
    obtain ⟨hresolved, -, hready⟩ := hwaits.decided hsound hops
    rw [← firstVerdict_operations _ _ hafter]
    exact ⟨hresolved, hready⟩
  · intro hrefused
    obtain ⟨ht, hlog⟩ := hsound.run_keeps hops
    have hin := resolved_addInvocation decode hrefused
    rw [← hstore] at hin
    have hlogged := ht.view.heap.logged s.store.heap.futureCount
    refine ⟨hlogged.resolved_iff.mpr ⟨_, hlog.subset hin⟩, fun r hr => ?_⟩
    exact hlogged.result_unique (ht.answered.ready _ r hr) (hlog.subset hin)

end

/-- A client with a call of `add` that is about to enter the map. -/
def addCreated : Client Int :=
  (init sample).createKey 0 .invoke "add"

/-- Its connection is lost, and then the user disconnects as well. -/
def lostThenDisconnected : List (Label Int) :=
  [.call 0 .lookup, .call 0 .offer, .connection 1 (.readError "reset"), .monitor .recv,
    .monitor .loadShutdown, .monitor .mark, .monitor .cancel, .disconnect 0 .cancel,
    .call 0 (.poll 7)]

theorem call_decided_lost :
    ∃ (t : Client Int) (f : Nat),
      Run (Storage.step sample.serde) (Storage.Routed sample.serde) (init sample).store
        (operations sample (init sample)
          (.call 0 (.invoke "add") :: .call 0 (.insert .i64) :: lostThenDisconnected)) t.store ∧
      .ready f (.error (lossText "Error reading frame: reset")) ∈ t.store.heap.log ∧
      ∀ r, .ready f r ∈ t.store.heap.log →
        firstVerdict sample "add_1" .i64 (addCreated.insertAction 0 .i64)
          lostThenDisconnected = some r := by
  have hbefore : Run (step sample) free (init sample) [.call 0 (.invoke "add")] addCreated :=
    .single trivial rfl
  have hafter : Run (step sample) free (addCreated.insertAction 0 .i64)
      lostThenDisconnected _ :=
    run_free_iff_exec.mpr rfl
  obtain ⟨hstorage, f, hcell, hentered, -⟩ := call_decided (c := 0) hbefore rfl rfl hafter
  obtain rfl : 0 = f := Cell.future.inj (Option.some.inj hcell)
  exact ⟨_, 0, hstorage, List.mem_of_getLast? rfl, (hentered ⟨rfl, rfl⟩).2⟩

end Client

end SignalR
