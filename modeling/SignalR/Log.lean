/-
SignalR/Log.lean

What the log of the cells says about a future.  `Heap.Logged h f` ties the
state of future `f` to its history:

* `f` has been resolved once if it is resolved, and not at all otherwise;
* no completion of `f` has panicked;
* while `f` is unresolved its cell holds the waker of its latest poll;
* at every resolution the task of the latest poll before it is woken.

Every change of the heap keeps this of every future, provided a future is only
completed while it is unresolved (`Heap.Inv.complete`); that proviso is what the
storage has to guarantee.
-/
import SignalR.Cells

namespace SignalR

variable {V : Type}

/-! ### Reading the log -/

/-- The waker of a poll of future `f` that returned `Pending`. -/
def Effect.pendingOn (f : Nat) : Effect V → Option Waker
  | .pending g w => if g = f then some w else none
  | _ => none

/-- The effect is a resolution of future `f`. -/
def Effect.resolves (f : Nat) : Effect V → Bool
  | .resolved g _ => g == f
  | _ => false

/-- The waker of the latest poll of future `f` that returned `Pending`. -/
def lastPending (f : Nat) (log : List (Effect V)) : Option Waker :=
  (log.filterMap (Effect.pendingOn f)).getLast?

/-- How often future `f` has been resolved. -/
def resolutions (f : Nat) (log : List (Effect V)) : Nat :=
  log.countP (Effect.resolves f)

/-- The effect says nothing about future `f`, except perhaps that a poll
returned its result or that its task was woken. -/
def Effect.Neutral (f : Nat) (e : Effect V) : Prop :=
  e.pendingOn f = none ∧ e.resolves f = false ∧ e ≠ .panicked f

theorem lastPending_append {f : Nat} {log l : List (Effect V)}
    (h : ∀ e ∈ l, e.pendingOn f = none) : lastPending f (log ++ l) = lastPending f log := by
  have hl : l.filterMap (Effect.pendingOn f) = [] := List.filterMap_eq_nil_iff.mpr h
  unfold lastPending
  rw [List.filterMap_append, hl, List.append_nil]

theorem lastPending_append_pending (f : Nat) (w : Waker) (log : List (Effect V)) :
    lastPending f (log ++ [.pending f w]) = some w := by
  simp [lastPending, Effect.pendingOn]

theorem resolutions_append {f : Nat} {log l : List (Effect V)}
    (h : ∀ e ∈ l, e.resolves f = false) : resolutions f (log ++ l) = resolutions f log := by
  have hl : l.countP (Effect.resolves f) = 0 :=
    List.countP_eq_zero.mpr fun e he => by simp [h e he]
  unfold resolutions
  rw [List.countP_append, hl, Nat.add_zero]

/-- An element of an extended list is an element of the list or of the extension. -/
theorem append_eq_append_cons {α : Type} {a b c d : List α} {x : α}
    (h : a ++ b = c ++ x :: d) :
    (∃ d', a = c ++ x :: d' ∧ d = d' ++ b) ∨ (∃ c', c = a ++ c' ∧ b = c' ++ x :: d) := by
  rcases List.append_eq_append_iff.mp h with ⟨c', hc, hb⟩ | ⟨a', ha, hd⟩
  · exact .inr ⟨c', hc, hb⟩
  -- the cut falls before `x`, or the element after it is `x` itself
  · rcases a' with - | ⟨y, d'⟩
    · refine .inr ⟨[], ?_, ?_⟩
      · rw [ha, List.append_nil, List.append_nil]
      · simpa using hd.symm
    · obtain ⟨rfl, hd'⟩ := List.cons_eq_cons.mp hd
      exact .inl ⟨d', ha, hd'⟩

/-! ### The invariant of the heap -/

namespace Heap

/-- The state of an unresolved future whose latest pending poll was `last`. -/
def unresolvedState (last : Option Waker) : FutureState (Except String V) :=
  match last with
  | some w => .waiting w
  | none => .incomplete

/-- The state of future `f` agrees with its history. -/
structure Logged (h : Heap V) (f : Nat) : Prop where
  count : resolutions f h.log = if h.Resolved f then 1 else 0
  calm : .panicked f ∉ h.log
  waiting : ¬ h.Resolved f → h.futures f = unresolvedState (lastPending f h.log)
  woken : ∀ l₁ l₂ r w, h.log = l₁ ++ .resolved f r :: l₂ → lastPending f l₁ = some w →
    .woken f w ∈ l₂

/-- The invariant of the heap. -/
structure Inv (h : Heap V) : Prop where
  fresh : ∀ f, h.futureCount ≤ f → h.futures f = .incomplete
  logged : ∀ f, h.Logged f

theorem Inv.empty : (empty : Heap V).Inv where
  fresh := fun _ _ => rfl
  logged := fun f =>
    { count := by simp [resolutions, Heap.empty, Resolved, FutureState.new]
      calm := by simp [Heap.empty]
      waiting := fun _ => rfl
      woken := by simp [Heap.empty] }

/-- Every resolution has woken its waiting task, also after effects that resolve
nothing. -/
theorem Logged.woken_append {h : Heap V} {f : Nat} {l l₁ l₂ : List (Effect V)}
    {r : Except String V} {w : Waker} (hf : h.Logged f) (hl : ∀ e ∈ l, e.resolves f = false)
    (heq : h.log ++ l = l₁ ++ .resolved f r :: l₂) (hw : lastPending f l₁ = some w) :
    .woken f w ∈ l₂ := by
  rcases append_eq_append_cons heq with ⟨l₂', h₁, rfl⟩ | ⟨l₁', -, h₂⟩
  · exact List.mem_append_left _ (hf.woken l₁ l₂' r w h₁ hw)
  · -- the resolution would be one of the added effects
    have hmem : Effect.resolved f r ∈ l := by
      rw [h₂]
      exact List.mem_append_right _ List.mem_cons_self
    have hres := hl _ hmem
    simp [Effect.resolves] at hres

/-- Effects that are neutral for `f` leave its history alone, as long as its
state stays as it is. -/
theorem Logged.append {h h' : Heap V} {f : Nat} {l : List (Effect V)} (hf : h.Logged f)
    (hstate : h'.futures f = h.futures f) (hlog : h'.log = h.log ++ l)
    (hl : ∀ e ∈ l, e.Neutral f) : h'.Logged f := by
  have hres : h'.Resolved f ↔ h.Resolved f := by simp only [Resolved, hstate]
  have hlast : lastPending f h'.log = lastPending f h.log := by
    rw [hlog, lastPending_append fun e he => (hl e he).1]
  refine ⟨?_, ?_, ?_, ?_⟩
  · rw [hlog, resolutions_append fun e he => (hl e he).2.1, hf.count]
    simp only [hres]
  · rw [hlog, List.mem_append]
    rintro (hm | hm)
    · exact hf.calm hm
    · exact (hl _ hm).2.2 rfl
  · intro hu
    rw [hstate, hlast]
    exact hf.waiting fun hr => hu (hres.mpr hr)
  · intro l₁ l₂ r w heq hw
    exact hf.woken_append (fun e he => (hl e he).2.1) (hlog.symm.trans heq) hw

/-- A change that leaves the futures alone and logs neutral effects only. -/
theorem Inv.append {h h' : Heap V} {l : List (Effect V)} (hi : h.Inv)
    (hfut : h'.futures = h.futures) (hcount : h'.futureCount = h.futureCount)
    (hlog : h'.log = h.log ++ l) (hl : ∀ f, ∀ e ∈ l, e.Neutral f) : h'.Inv where
  fresh := by
    rw [hfut, hcount]
    exact hi.fresh
  logged := fun f => (hi.logged f).append (by rw [hfut]) hlog (hl f)

theorem Inv.newStream {h : Heap V} (hi : h.Inv) : h.newStream.Inv :=
  hi.append (l := []) rfl rfl (by simp) (by simp)

theorem Inv.enqueue {h : Heap V} (hi : h.Inv) (st : Nat) (x : Option V) :
    (h.enqueue st x).Inv := by
  refine hi.append rfl rfl rfl fun f e he => ?_
  unfold wakeLog at he
  split at he
  · rw [List.mem_singleton.mp he]
    exact ⟨rfl, rfl, by simp⟩
  · simp at he

theorem Inv.pollStream {h : Heap V} (hi : h.Inv) (st : Nat) (w : Waker) :
    (h.pollStream st w).1.Inv := by
  refine hi.append rfl rfl rfl fun f e he => ?_
  unfold streamPollLog at he
  split at he <;>
    · rw [List.mem_singleton.mp he]
      exact ⟨rfl, rfl, by simp⟩

theorem Inv.call {h : Heap V} (hi : h.Inv) (callback : Nat) (invocation : Invocation) :
    (h.call callback invocation).Inv := by
  refine hi.append rfl rfl rfl fun f e he => ?_
  rw [List.mem_singleton.mp he]
  exact ⟨rfl, rfl, by simp⟩

theorem Inv.newFuture {h : Heap V} (hi : h.Inv) : h.newFuture.Inv := by
  -- the cell of a new future is in its initial state already
  have hfut : h.newFuture.futures = h.futures := by
    show Function.update h.futures h.futureCount .incomplete = h.futures
    rw [← hi.fresh h.futureCount (Nat.le_refl _), Function.update_eq_self]
  refine ⟨?_, fun f => (hi.logged f).append (l := []) (by rw [hfut]) (by simp) (by simp)⟩
  intro f hf
  rw [hfut]
  exact hi.fresh f (Nat.le_of_succ_le hf)

/-- A change of one existing cell leaves the cells of later futures alone. -/
theorem Inv.fresh_update {h : Heap V} (hi : h.Inv) {f g : Nat} (hf : f < h.futureCount)
    (x : FutureState (Except String V)) (hg : h.futureCount ≤ g) :
    Function.update h.futures f x g = .incomplete := by
  have hne : g ≠ f := by
    rintro rfl
    exact absurd hf (Nat.not_lt.mpr hg)
  rw [Function.update_of_ne hne]
  exact hi.fresh g hg

/-- A poll of an unresolved future keeps the waker and reports `Pending`. -/
theorem Logged.pollFuture_unresolved {h : Heap V} {f : Nat} (hf : h.Logged f)
    (hu : ¬ h.Resolved f) (w : Waker) : (h.pollFuture f w).1.Logged f := by
  have hp : (h.futures f).poll w = (.waiting w, .pending) :=
    FutureState.poll_of_not_isCompleted (by simpa [Resolved] using hu) w
  have hlog : (h.pollFuture f w).1.log = h.log ++ [.pending f w] := by
    simp [Heap.pollFuture, hp, pollLog]
  have hstate : (h.pollFuture f w).1.futures f = .waiting w := by
    simp [Heap.pollFuture, hp]
  have hl : ∀ e ∈ [Effect.pending (V := V) f w], e.resolves f = false := by
    simp [Effect.resolves]
  refine ⟨?_, ?_, ?_, ?_⟩
  · rw [hlog, resolutions_append hl, hf.count, if_neg hu, if_neg (by simpa using hu)]
  · rw [hlog]
    simpa using hf.calm
  · intro _
    rw [hlog, lastPending_append_pending, hstate]
    rfl
  · intro l₁ l₂ r w' heq hw
    exact hf.woken_append hl (hlog.symm.trans heq) hw

/-- A poll of a resolved future may hand out its result, which resolves nothing. -/
theorem Logged.pollFuture_resolved {h : Heap V} {f : Nat} (hf : h.Logged f)
    (hres : h.Resolved f) (w : Waker) : (h.pollFuture f w).1.Logged f := by
  have hres' : (h.pollFuture f w).1.Resolved f := by simpa using hres
  have hlog : (h.pollFuture f w).1.log = h.log ++ pollLog f w ((h.futures f).poll w).2 := rfl
  have hl : ∀ e ∈ pollLog (V := V) f w ((h.futures f).poll w).2,
      e.resolves f = false ∧ e ≠ .panicked f := by
    intro e he
    unfold pollLog at he
    split at he <;>
      · rw [List.mem_singleton.mp he]
        exact ⟨rfl, by simp⟩
  -- the waker of the latest poll says nothing about a resolved future
  refine ⟨?_, ?_, fun hu => absurd hres' hu, ?_⟩
  · rw [hlog, resolutions_append fun e he => (hl e he).1, hf.count, if_pos hres, if_pos hres']
  · rw [hlog, List.mem_append]
    rintro (hm | hm)
    · exact hf.calm hm
    · exact (hl _ hm).2 rfl
  · intro l₁ l₂ r w' heq hw
    exact hf.woken_append (fun e he => (hl e he).1) (hlog.symm.trans heq) hw

theorem Inv.pollFuture {h : Heap V} (hi : h.Inv) {f : Nat} (hf : f < h.futureCount)
    (w : Waker) : (h.pollFuture f w).1.Inv := by
  refine ⟨fun g hg => hi.fresh_update hf _ hg, fun g => ?_⟩
  by_cases hne : g = f
  · subst hne
    by_cases hres : h.Resolved g
    · exact (hi.logged g).pollFuture_resolved hres w
    · exact (hi.logged g).pollFuture_unresolved hres w
  -- a poll of `f` says nothing about any other future
  · refine (hi.logged g).append (l := pollLog f w ((h.futures f).poll w).2) ?_ rfl ?_
    · show Function.update h.futures f _ g = _
      rw [Function.update_of_ne hne]
    · intro e he
      unfold pollLog at he
      split at he <;> rw [List.mem_singleton.mp he]
      · exact ⟨if_neg fun e => hne e.symm, rfl, by simp⟩
      · exact ⟨rfl, rfl, by simp⟩

/-- Completing an unresolved future resolves it for the first time and wakes the
task of its latest poll. -/
theorem Inv.complete {h : Heap V} (hi : h.Inv) {f : Nat} (hf : f < h.futureCount)
    (hu : ¬ h.Resolved f) (r : Except String V) : (h.complete f r).Inv := by
  refine ⟨fun g hg => hi.fresh_update hf _ hg, ?_⟩
  intro g
  have hf' := hi.logged f
  have hstate := hf'.waiting hu
  -- the log entries are those of a waiting or of an untouched future
  obtain ⟨l, hlog, hl⟩ : ∃ l, (h.complete f r).log = h.log ++ .resolved f r :: l ∧
      l = (lastPending f h.log).toList.map (Effect.woken f) := by
    refine ⟨_, ?_, rfl⟩
    rcases hp : lastPending f h.log with - | w <;>
      simp [Heap.complete, FutureState.completeWith, hstate, hp, unresolvedState,
        FutureState.completed, completionLog]
  have hneutral : ∀ e ∈ l, ∀ g, e.Neutral g := by
    intro e he g
    rw [hl] at he
    obtain ⟨w, -, rfl⟩ := List.mem_map.mp he
    exact ⟨rfl, rfl, by simp⟩
  by_cases hne : g = f
  · subst hne
    have hres : (h.complete g r).Resolved g := resolved_complete_self h g r
    refine ⟨?_, ?_, fun hu' => absurd hres hu', ?_⟩
    · have hcount := hf'.count
      rw [if_neg hu] at hcount
      have htail : l.countP (Effect.resolves g) = 0 :=
        List.countP_eq_zero.mpr fun e he => by simp [(hneutral e he g).2.1]
      rw [if_pos hres, hlog]
      rw [resolutions] at hcount ⊢
      rw [List.countP_append, List.countP_cons, hcount, htail]
      simp [Effect.resolves]
    · rw [hlog, List.mem_append, List.mem_cons]
      rintro (hm | hm | hm)
      · exact hf'.calm hm
      · simp at hm
      · exact (hneutral _ hm g).2.2 rfl
    · intro l₁ l₂ r' w heq hw
      rcases append_eq_append_cons (hlog.symm.trans heq) with ⟨l₂', h₁, rfl⟩ | ⟨l₁', h₁, h₂⟩
      · exact List.mem_append_left _ (hf'.woken l₁ l₂' r' w h₁ hw)
      -- either this is the resolution just made, or an earlier one would follow it
      · rcases l₁' with - | ⟨e, l₁'⟩
        · obtain ⟨-, rfl⟩ := List.cons_eq_cons.mp h₂
          rw [h₁, List.append_nil] at hw
          rw [hl, hw]
          exact List.mem_singleton_self _
        · -- a second resolution would be one of the wake-ups
          have hmem : Effect.resolved g r' ∈ l := by
            rw [(List.cons_eq_cons.mp h₂).2]
            exact List.mem_append_right _ List.mem_cons_self
          simpa [Effect.resolves] using (hneutral _ hmem g).2.1
  -- a resolution of `f` and its wake-up say nothing about any other future
  · refine (hi.logged g).append (l := .resolved f r :: l) ?_ hlog ?_
    · show Function.update h.futures f _ g = _
      rw [Function.update_of_ne hne]
    · intro e he
      rcases List.mem_cons.mp he with rfl | he
      · exact ⟨rfl, by simpa [Effect.resolves] using fun e => hne e.symm, by simp⟩
      · exact hneutral e he g

end Heap

end SignalR
