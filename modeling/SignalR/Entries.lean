/-
SignalR/Entries.lean

Whose actions are in the map.  `invoke` and `enumerate` insert an action before they
send their request, and several parties may take it out again: the reader when the
completion arrives, the monitor and the disconnects when they cancel, and the call
itself.  A call that fails to send removes its action, and a call of `invoke` does so
once more when its `PendingInvocationCleanup` is dropped, however it ends.

So while no callback has panicked, every invocation in the map belongs to a call that
is still in progress, and every stream in the map to a call in progress or to one whose
request was accepted (`entries_accounted_for`); a map does not grow by what its callers
have given up.

The closure that `enumerate_with_args` is given runs between the insertion and the
request.  It is taken to return: a panic there would leave the stream's entry behind.

Only the insertion of a call creates cells: every other operation is `Tame`.
-/
import SignalR.Callbacks
import SignalR.Charges
import SignalR.Completions

namespace SignalR

open Transition

variable {V : Type}

/-! ### Operations that create no cell -/

namespace Heap

/-- The number of futures and of streams created. -/
def counts (h : Heap V) : Nat × Nat :=
  (h.futureCount, h.streamCount)

/-- Whether a cell was created is read off the counts. -/
theorem allocated_iff_of_counts {h h' : Heap V} (hcounts : h'.counts = h.counts) (c : Cell) :
    h'.Allocated c ↔ h.Allocated c := by
  obtain ⟨hfutures, hstreams⟩ := Prod.mk.inj hcounts
  cases c with
  | future f => rw [Allocated, Allocated, hfutures]
  | stream st => rw [Allocated, Allocated, hstreams]

end Heap

namespace InvocationAction

theorem counts_complete (a : InvocationAction V) (r : Except String V) (h : Heap V) :
    (a.complete r h).2.counts = h.counts := by
  rw [complete]
  split <;> rfl

end InvocationAction

namespace Action

variable (a : Action V) (h : Heap V)

theorem counts_updateWith (S : Serde) (m : RawMessage) :
    (a.updateWith S m h).2.1.counts = h.counts := by
  cases a with
  | invocation a =>
      simp only [updateWith, InvocationAction.updateWith]
      split
      · split
        · exact a.counts_complete _ h
        · rfl
      · rfl
  | enumerable a =>
      simp only [updateWith, EnumerableAction.updateWith]
      split
      · split <;> rfl
      · split <;> rfl
      · rfl
  | callback a =>
      simp only [updateWith, CallbackAction.updateWith]
      split
      · split <;> rfl
      · rfl

theorem counts_cancel (reason : String) : (a.cancel reason h).2.counts = h.counts := by
  cases a with
  | invocation a => exact a.counts_complete _ h
  | _ => rfl

theorem counts_drop : (a.drop h).counts = h.counts := by
  cases a with
  | invocation a => exact a.counts_complete _ h
  | _ => rfl

end Action

namespace Storage

/-- An operation that creates no cell, and leaves a poisoned mutex poisoned. -/
structure Tame (s t : Storage V) : Prop where
  counts : t.heap.counts = s.heap.counts
  poisoned : s.poisoned = true → t.poisoned = true

namespace Tame

variable {S : Serde}

theorem refl (s : Storage V) : Tame s s :=
  ⟨rfl, id⟩

theorem trans {s t u : Storage V} (h : Tame s t) (h' : Tame t u) : Tame s u :=
  ⟨h'.counts.trans h.counts, fun hp => h'.poisoned (h.poisoned hp)⟩

theorem insert (s : Storage V) (key : String) (a : Action V) : Tame s (s.insert key a) := by
  refine ⟨?_, fun hp => by rwa [poisoned_insert]⟩
  obtain ⟨-, -, hi⟩ | ⟨-, hi⟩ := s.insert_cases key a
  · rw [hi]
  · rw [hi]
    exact a.counts_drop s.heap

theorem update (S : Serde) (s : Storage V) (key : String) (m : RawMessage) :
    Tame s (s.update key (Action.updateWith S m)).1 := by
  obtain ⟨a, hp, -, hu⟩ | ⟨-, e, hu⟩ := s.update_cases key (Action.updateWith S m)
  · rw [hu]
    exact ⟨a.counts_updateWith s.heap S m, fun hp' => by simp [hp] at hp'⟩
  · rw [hu]
    exact .refl s

theorem dropKey (s : Storage V) (key : String) : Tame s (s.dropKey key) := by
  rw [Storage.dropKey]
  split
  · rename_i a _
    exact ⟨a.counts_drop s.heap, id⟩
  · exact .refl s

theorem remove (s : Storage V) (key : String) : Tame s (s.remove key) := by
  rw [Storage.remove]
  split
  · exact .refl s
  · exact dropKey s key

theorem cancelKey (reason : String) (s : Storage V) (key : String) :
    Tame s (Storage.cancelKey reason s key) := by
  rw [Storage.cancelKey]
  split
  · rename_i a _
    exact ⟨a.counts_cancel s.heap reason, id⟩
  · exact .refl s

theorem foldl {α : Type} {f : Storage V → α → Storage V} (hf : ∀ s x, Tame s (f s x))
    (l : List α) (s : Storage V) : Tame s (l.foldl f s) := by
  induction l generalizing s with
  | nil => exact .refl s
  | cons x l ih => exact (hf s x).trans (ih (f s x))

theorem cancelPending (s : Storage V) (reason : String) : Tame s (s.cancelPending reason) := by
  rw [Storage.cancelPending]
  split
  · exact .refl s
  · exact (foldl (cancelKey reason) _ _).trans (foldl dropKey _ _)

theorem deferMessage (S : Serde) (s : Storage V) (key : String) (m : RawMessage) :
    Tame s (s.deferMessage S key m).1 := by
  obtain ⟨-, hd, -⟩ | ⟨-, -, hd⟩ | ⟨-, hd⟩ := s.deferMessage_cases S key m
  · rw [hd]
    exact update S s key m
  · rw [hd]
    exact ⟨rfl, id⟩
  · rw [hd]
    exact .refl s

theorem addCallback (S : Serde) (s : Storage V) (target : String) (callback : Callback) :
    Tame s (s.addCallback S target callback).1 := by
  refine (insert s target (.callback { target, callback })).trans ?_
  rw [Storage.addCallback, replayDeferred]
  split
  · apply replay_invariant (I := Tame _)
    · exact fun m _ t ht => ht.trans (update S t target m)
    · exact ⟨rfl, id⟩
  · exact .refl _

theorem processMessage (S : Serde) (s : Storage V) (m : RawMessage) :
    Tame s (s.processMessage S m).1 := by
  obtain ⟨o, -, h⟩ | ⟨key, -, h⟩ | ⟨invocation, h, -⟩ | ⟨key, -, -, h⟩ := s.processMessage_cases S m
  · rw [h]
    exact .refl s
  · rw [h]
    exact update S s key m
  · rw [h]
    exact deferMessage S s _ m
  · rw [h]
    exact (update S s key m).trans (remove _ key)

theorem pollFuture (s : Storage V) (f : Nat) (w : Waker) : Tame s (s.pollFuture f w).1 :=
  ⟨rfl, id⟩

theorem pollStream (s : Storage V) (st : Nat) (w : Waker) : Tame s (s.pollStream st w).1 :=
  ⟨rfl, id⟩

end Tame

/-! ### Insertions -/

/-- `add_invocation` creates one future, and no other cell. -/
theorem eq_of_allocated_addInvocation {s : Storage V} {id : String} {decode : DeserializeOwned V}
    {x : Cell} (h : (s.addInvocation id decode).heap.Allocated x) (hnew : ¬ s.heap.Allocated x) :
    x = .future s.heap.futureCount := by
  rw [addInvocation, Heap.allocated_iff_of_counts (Tame.insert _ id _).counts] at h
  exact ((s.heap.allocated_newFuture_iff x).mp h).resolve_left hnew

/-- `add_stream` creates one stream, and no other cell. -/
theorem eq_of_allocated_addStream {s : Storage V} {id : String} {decode : DeserializeOwned V}
    {x : Cell} (h : (s.addStream id decode).heap.Allocated x) (hnew : ¬ s.heap.Allocated x) :
    x = .stream s.heap.streamCount := by
  rw [addStream, Heap.allocated_iff_of_counts (Tame.insert _ id _).counts] at h
  exact ((s.heap.allocated_newStream_iff x).mp h).resolve_left hnew

end Storage

/-! ### Steps that create no cell -/

/-- The call is between its insertion and its return. -/
def Call.InProgress (x : Call) : Prop :=
  x.pc ≠ .idle ∧ x.pc ≠ .created ∧ x.pc ≠ .returned

/-- The cell of a call is of its kind. -/
structure Call.Typed (x : Call) : Prop where
  future : ∀ f, x.cell = some (.future f) → x.kind = .invoke
  stream : ∀ st, x.cell = some (.stream st) → x.kind = .enumerate
  created : x.pc = .created → x.kind ≠ .send
  fresh : x.pc = .idle ∨ x.pc = .created → x.cell = none

/-- The call may have an action in the map: it is in progress, or it has returned the
stream of an accepted request. -/
def Call.Keeps (x : Call) : Prop :=
  x.InProgress ∨ x.kind = .enumerate ∧ x.pc = .returned ∧ x.sent = some (.ok ())

namespace Client

section

variable {C : Config} {s t : Client V}

/-- A step of a call but its insertion creates no cell. -/
theorem callStep_tame {c : Nat} {l : CallLabel V} (h : s.callStep c l = some t)
    (hl : ∀ decode, l ≠ .insert decode) : s.store.Tame t.store := by
  cases callStep_transition h with
  | insertStream | insertFuture => exact absurd rfl (hl _)
  | invoke | enumerate => exact ⟨rfl, id⟩
  | removeInvoke | removeEnumerate | cleanup => exact .remove _ _
  | pollPending | pollReady => exact .pollFuture s.store _ _
  | pollStream => exact .pollStream _ _ _
  | _ => exact .refl _

/-- Only the insertion of a call creates cells. -/
theorem step_tame {l : Label V} (h : step C s l = some t)
    (hl : ∀ c decode, l ≠ .call c (.insert decode)) : s.store.Tame t.store := by
  cases l with
  | call c l => exact callStep_tame h fun decode heq => hl c decode (heq ▸ rfl)
  | connection g l =>
      rcases connectionStep_store h with hstore | ⟨-, m, rest, -, hstore⟩
      · rw [hstore]
        exact .refl _
      · rw [hstore]
        exact .processMessage C.serde _ m
  | monitor l =>
      rcases (monitorStep_move h).frame.store with hstore | ⟨g, reason, -, hstore⟩
      · rw [hstore]
        exact .refl _
      · rw [hstore]
        exact .cancelPending _ _
  | disconnect d l =>
      cases disconnectStep_move h with
      | cancel => exact .cancelPending _ _
      | _ => exact .refl _
  | user l =>
      obtain rfl := Option.some.inj h
      cases l with
      | register target callback => exact .addCallback C.serde _ target callback
      | unregister target => exact .remove _ _
      | _ => exact .refl _

/-- The insertion of a call: the one cell it creates is the call's, and the one entry
it makes is under the call's key. -/
structure Inserted (s : Client V) (c : Nat) (t : Client V) : Prop where
  pc : (s.calls c).pc = .created ∧ (t.calls c).pc = .inserted
  key : (t.calls c).key = (s.calls c).key
  kind : (t.calls c).kind = (s.calls c).kind
  poisoned : t.store.poisoned = s.store.poisoned
  cell : ∀ x, t.store.heap.Allocated x → ¬ s.store.heap.Allocated x → (t.calls c).cell = some x
  get : ∀ k, k ≠ (s.calls c).key → t.store.get k = s.store.get k
  typed : (s.calls c).kind = .enumerate ∧ (∃ st, (t.calls c).cell = some (.stream st)) ∨
    (s.calls c).kind ≠ .enumerate ∧ ∃ f, (t.calls c).cell = some (.future f)

theorem inserted {c : Nat} {decode : DeserializeOwned V}
    (h : s.callStep c (.insert decode) = some t) : s.Inserted c t := by
  have hself : ∀ (u : Client V) (x : Call), (u.setCall c x).calls c = x :=
    fun u x => setCall_self u c x
  cases callStep_transition h with
  | insertStream hpc hkind =>
      refine ⟨⟨hpc, by rw [hself]⟩, by rw [hself], by rw [hself],
        s.store.poisoned_addStream _ _, fun x hx hnew => ?_,
        fun k hk => Storage.get_insert_of_ne hk _, .inl ⟨hkind, _, by rw [hself]⟩⟩
      rw [hself, Storage.eq_of_allocated_addStream hx hnew]
  | insertFuture hpc hkind =>
      refine ⟨⟨hpc, by rw [hself]⟩, by rw [hself], by rw [hself],
        s.store.poisoned_addInvocation _ _, fun x hx hnew => ?_,
        fun k hk => Storage.get_insert_of_ne hk _, .inr ⟨hkind, _, by rw [hself]⟩⟩
      rw [hself, Storage.eq_of_allocated_addInvocation hx hnew]

/-! ### Calls in progress -/

/-- A move of a call that may have an action in the map. -/
theorem CallMove.keeps {x y : Call} (h : CallMove s t x y) (hx : x.Keeps) :
    y.key = x.key ∧ y.cell = x.cell ∧ y.kind = x.kind ∧ (y.Keeps ∨ y.pc = .returned) := by
  have hpc : ∀ {pc : CallPc}, x.pc = pc → pc ≠ .idle ∧ pc ≠ .created := by
    rintro _ rfl
    rcases hx with hx | ⟨-, hx, -⟩
    · exact ⟨hx.1, hx.2.1⟩
    · simp [hx]
  cases h with
  | same => exact ⟨rfl, rfl, rfl, .inl hx⟩
  | start key hidle => exact absurd rfl (hpc hidle).1
  | startSend hidle => exact absurd rfl (hpc hidle).1
  | insert hcreated => exact absurd rfl (hpc hcreated).2
  | lookup => exact ⟨rfl, rfl, rfl, .inl (.inl (by simp [Call.InProgress]))⟩
  | lookupFails => exact ⟨rfl, rfl, rfl, .inl (.inl (by simp [Call.InProgress]))⟩
  | reject => exact ⟨rfl, rfl, rfl, .inl (.inl (by simp [Call.InProgress]))⟩
  | fail => exact ⟨rfl, rfl, rfl, .inl (.inl (by simp [Call.InProgress]))⟩
  | accept _ _ hpc' =>
      rcases hpc' with rfl | rfl
      · exact ⟨rfl, rfl, rfl, .inl (.inl (by simp [Call.InProgress]))⟩
      · exact ⟨rfl, rfl, rfl, .inr rfl⟩
  | finish _ hpc' =>
      rcases hpc' with rfl | rfl
      · exact ⟨rfl, rfl, rfl, .inl (.inl (by simp [Call.InProgress]))⟩
      · exact ⟨rfl, rfl, rfl, .inr rfl⟩

/-- How a call returns: `enumerate` and `send` with an accepted request, and any call
by removing its action. -/
theorem callStep_returns {c : Nat} {l : CallLabel V} (h : s.callStep c l = some t)
    (hx : (s.calls c).InProgress) (hy : (t.calls c).pc = .returned) :
    (s.calls c).kind = .send ∨ t.store = s.store.remove (s.calls c).key ∨
      (s.calls c).kind = .enumerate ∧ (t.calls c).sent = some (.ok ()) := by
  have hself : ∀ (u : Client V) (x : Call), (u.setCall c x).calls c = x :=
    fun u x => setCall_self u c x
  obtain ⟨-, -, hreturned⟩ := hx
  cases callStep_transition h with
  | accept =>
      rw [hself] at hy ⊢
      cases hkind : (s.calls c).kind with
      | invoke => simp [hkind] at hy
      | enumerate => exact .inr (.inr ⟨rfl, rfl⟩)
      | send => exact .inl rfl
  | removeInvoke | removeEnumerate | cleanup => exact .inr (.inl rfl)
  | removeSend _ hkind => exact .inl hkind
  | pollPending | pollStream => exact absurd hy hreturned
  -- the other transitions end before the return
  | _ => simp [createKey, failCall, hself] at hy

/-! ### Typed calls -/

/-- A step of call `c` is its insertion, or no move creates a cell. -/
theorem step_call_cases {l : Label V} (h : step C s l = some t) (c : Nat) :
    t.calls c = s.calls c ∨ s.Inserted c t ∨
      CallMove s t (s.calls c) (t.calls c) ∧ s.store.Tame t.store ∧
        ∃ l', s.callStep c l' = some t := by
  rcases step_call h c with hsame | ⟨⟨l', rfl⟩, -, hmove⟩
  · exact .inl hsame
  · by_cases hl : ∃ decode, l' = .insert decode
    · obtain ⟨decode, rfl⟩ := hl
      exact .inr (.inl (inserted h))
    · exact .inr (.inr ⟨hmove, callStep_tame h fun decode heq => hl ⟨decode, heq⟩, l', h⟩)

theorem CallMove.typed {x y : Call} (h : CallMove s t x y) (htame : s.store.Tame t.store)
    (hx : x.Typed) : y.Typed := by
  -- without an insertion the cell stays, and a fresh call has none
  have late : ∀ {pc : CallPc}, y.cell = x.cell → y.kind = x.kind → y.pc = pc →
      pc ≠ .idle → pc ≠ .created → y.Typed := by
    intro pc hcell hkind hpc hidle hcreated
    refine ⟨fun f hf => ?_, fun st hst => ?_, fun hp => ?_, fun hp => ?_⟩
    · rw [hkind]
      exact hx.future f (hcell ▸ hf)
    · rw [hkind]
      exact hx.stream st (hcell ▸ hst)
    · exact absurd (hpc.symm.trans hp) hcreated
    · rcases hp with hp | hp
      · exact absurd (hpc.symm.trans hp) hidle
      · exact absurd (hpc.symm.trans hp) hcreated
  cases h with
  | same => exact hx
  | start key hidle hkind =>
      have hnone := hx.fresh (.inl hidle)
      exact ⟨fun f hf => by simp [hnone] at hf, fun st hst => by simp [hnone] at hst,
        fun _ => hkind, fun _ => hnone⟩
  | startSend hidle =>
      have hnone := hx.fresh (.inl hidle)
      exact ⟨fun f hf => by simp [hnone] at hf, fun st hst => by simp [hnone] at hst, nofun, nofun⟩
  | insert _ hnew hcell =>
      exact absurd ((Heap.allocated_iff_of_counts htame.counts _).mp hcell) hnew
  | lookup => exact late rfl rfl rfl (by simp) (by simp)
  | lookupFails => exact late rfl rfl rfl (by simp) (by simp)
  | reject => exact late rfl rfl rfl (by simp) (by simp)
  | fail => exact late rfl rfl rfl (by simp) (by simp)
  | accept _ _ hpc =>
      rcases hpc with rfl | rfl <;> exact late rfl rfl rfl (by simp) (by simp)
  | finish _ hpc =>
      rcases hpc with rfl | rfl <;> exact late rfl rfl rfl (by simp) (by simp)

theorem Inserted.typed_after {c : Nat} (h : s.Inserted c t) (hx : (s.calls c).Typed) :
    (t.calls c).Typed := by
  have hpc := h.pc.2
  refine ⟨fun f hf => ?_, fun st hst => ?_, fun hp => by simp [hpc] at hp,
    fun hp => by simp [hpc] at hp⟩
  · rw [h.kind]
    rcases h.typed with ⟨-, st, hst⟩ | ⟨hkind, -⟩
    · simp [hst] at hf
    · have hsend := hx.created h.pc.1
      cases hk : (s.calls c).kind <;> simp_all
  · rw [h.kind]
    rcases h.typed with ⟨hkind, -⟩ | ⟨-, f, hf⟩
    · exact hkind
    · simp [hf] at hst

theorem typed_step {l : Label V} (hi : ∀ c, (s.calls c).Typed) (h : step C s l = some t)
    (c : Nat) : (t.calls c).Typed := by
  rcases step_call_cases h c with hsame | hins | ⟨hmove, htame, -⟩
  · rw [hsame]
    exact hi c
  · exact hins.typed_after (hi c)
  · exact hmove.typed htame (hi c)

theorem Reachable.typed {allowed : Client V → Label V → Prop} (h : Reachable C allowed s)
    (c : Nat) : (s.calls c).Typed := by
  refine Reaches.invariant (I := fun s => ∀ c, (s.calls c).Typed) h ?_ ?_ c
  · exact fun _ => ⟨nofun, nofun, nofun, fun _ => rfl⟩
  · exact fun _ _ _ hi _ hst => typed_step hi hst

/-! ### The account -/

/-- Every action with a cell is under the key of the call that has the cell, and that
call may still have an action in the map. -/
def Accounted (s : Client V) : Prop :=
  ∀ key x, s.store.view.cellAt key = some x →
    ∃ c, (s.calls c).key = key ∧ (s.calls c).cell = some x ∧ (s.calls c).Keeps

/-- A step of the call itself: its action stays accounted for, or has been removed. -/
theorem Accounted.own {c : Nat} {key : String} {x : Cell} {l : CallLabel V}
    (htyped : (s.calls c).Typed) (h : s.callStep c l = some t)
    (hmove : CallMove s t (s.calls c) (t.calls c)) (hp : s.store.poisoned = false)
    (hkey : (s.calls c).key = key) (hcell : (s.calls c).cell = some x) (hkeeps : (s.calls c).Keeps)
    (hstill : t.store.view.cellAt key = some x) :
    (t.calls c).key = key ∧ (t.calls c).cell = some x ∧ (t.calls c).Keeps := by
  obtain ⟨hkey', hcell', hkind, hpc⟩ := hmove.keeps hkeeps
  refine ⟨hkey'.trans hkey, hcell'.trans hcell, hpc.elim id fun hreturned => ?_⟩
  have hkeeps' : (t.calls c).kind = .enumerate → (t.calls c).sent = some (.ok ()) →
      (t.calls c).Keeps := fun hk hsent => .inr ⟨hk, hreturned, hsent⟩
  rcases hkeeps with hprogress | ⟨hk, hpc', hsent⟩
  · rcases callStep_returns h hprogress hreturned with hsend | hremove | ⟨hk, hsent⟩
    · -- a call of `send` has no cell
      rcases x with f | st
      · simp [htyped.future f hcell] at hsend
      · simp [htyped.stream st hcell] at hsend
    · have hnone : t.store.get key = none := by
        rw [hremove, hkey]
        exact Storage.get_remove_self _ _ hp
      simp [View.cellAt, hnone] at hstill
    · exact hkeeps' (hkind.trans hk) hsent
  · refine hkeeps' (hkind.trans hk) ?_
    generalize t.calls c = y at hmove hreturned ⊢
    cases hmove with
    | same => exact hsent
    | accept => rfl
    | finish => exact hsent
    | _ => simp_all

theorem Accounted.step {l : Label V} (hi : s.Accounted) (hs : s.StoreInv)
    (htyped : ∀ c, (s.calls c).Typed) (hp : s.store.poisoned = false)
    (h : Client.step C s l = some t) : t.Accounted := by
  intro key x hx
  have hadv := View.Touches.advances (step_touches hs h)
  rcases hadv.held key x hx with hold | hnew
  · obtain ⟨c, hkey, hcell, hkeeps⟩ := hi key x hold
    refine ⟨c, ?_⟩
    rcases step_call_cases h c with hsame | hins | ⟨hmove, -, l', hst⟩
    · rw [hsame]
      exact ⟨hkey, hcell, hkeeps⟩
    · rw [(htyped c).fresh (.inr hins.pc.1)] at hcell
      simp at hcell
    · exact Accounted.own (htyped c) hst hmove hp hkey hcell hkeeps hx
  · -- a new cell is that of the call which inserts
    have halloc : t.store.heap.Allocated x := (hs.step h).view.allocated key x hx
    by_cases hl : ∃ c decode, l = .call c (.insert decode)
    · obtain ⟨c, decode, rfl⟩ := hl
      have hins : s.Inserted c t := inserted h
      refine ⟨c, ?_, hins.cell x halloc hnew, .inl (by simp [Call.InProgress, hins.pc.2])⟩
      by_contra hne
      have hget : t.store.get key = s.store.get key :=
        hins.get key fun heq => hne (hins.key.trans heq.symm)
      have hold : s.store.view.cellAt key = some x := by
        rw [← hx]
        show (s.store.get key).bind _ = (t.store.get key).bind _
        rw [hget]
      exact hnew (hs.view.allocated key x hold)
    · have htame := step_tame h fun c decode heq => hl ⟨c, decode, heq⟩
      exact absurd ((Heap.allocated_iff_of_counts htame.counts x).mp halloc) hnew

/-- No two calls have the same cell. -/
def CellsApart (s : Client V) : Prop :=
  ∀ c c' x, (s.calls c).cell = some x → (s.calls c').cell = some x → c = c'

theorem CellsApart.step {l : Label V} (hi : s.CellsApart) (hs : s.StoreInv)
    (h : Client.step C s l = some t) : t.CellsApart := by
  -- a call that has its cell from this step shares it with nobody
  have hnew : ∀ c x, (t.calls c).cell = some x →
      (s.calls c).cell = some x ∨ ¬ s.store.heap.Allocated x ∧ ∃ l', l = .call c l' := by
    intro c x hx
    rcases step_call h c with hsame | ⟨hl, -, hmove⟩
    · exact .inl (hsame ▸ hx)
    · generalize t.calls c = y at hmove hx
      cases hmove with
      | insert _ hfresh _ =>
          obtain rfl := Option.some.inj hx
          exact .inr ⟨hfresh, hl⟩
      | _ => exact .inl hx
  intro c c' x hc hc'
  rcases hnew c x hc with hold | ⟨hfresh, l', rfl⟩
  · rcases hnew c' x hc' with hold' | ⟨hfresh, -⟩
    · exact hi c c' x hold hold'
    · exact absurd (hs.owns c x hold) hfresh
  · rcases hnew c' x hc' with hold' | ⟨-, l'', hl⟩
    · exact absurd (hs.owns c' x hold') hfresh
    · exact (Label.call.inj hl).1

end

end Client

end SignalR
