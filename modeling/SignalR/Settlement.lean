/-
SignalR/Settlement.lean

Who settles a caller's cell.  An action in the map refers to a cell (`cellAt`)
and is armed for it while it can still settle it (`armedAt`): an invocation as
long as it holds its completer, a stream as long as it is in the map.

`View.Inv` says that the armed actions and the unsettled cells are matched:

* a cell has at most one action, and that action's completer is its own;
* an armed invocation has an unresolved future;
* an unsettled cell has an armed action.

Each primitive change of a storage keeps this (`Touch.inv`).  Across a change no
cell is unsettled again and no old cell enters the map again (`Advances`).
-/
import SignalR.View
import SignalR.Log

namespace SignalR

variable {V : Type}

/-! ### Cells under the changes of the heap -/

namespace Heap

variable (h : Heap V)

theorem allocated_newFuture_iff (c : Cell) :
    h.newFuture.Allocated c ↔ h.Allocated c ∨ c = .future h.futureCount := by
  cases c with
  | future f =>
      show f < h.futureCount + 1 ↔ f < h.futureCount ∨ Cell.future f = .future h.futureCount
      rw [Cell.future.injEq]
      omega
  | stream st => simp [Allocated]

theorem allocated_newStream_iff (c : Cell) :
    h.newStream.Allocated c ↔ h.Allocated c ∨ c = .stream h.streamCount := by
  cases c with
  | future f => simp [Allocated]
  | stream st =>
      show st < h.streamCount + 1 ↔ st < h.streamCount ∨ Cell.stream st = .stream h.streamCount
      rw [Cell.stream.injEq]
      omega

theorem not_allocated_future : ¬ h.Allocated (.future h.futureCount) :=
  Nat.lt_irrefl _

theorem not_allocated_stream : ¬ h.Allocated (.stream h.streamCount) :=
  Nat.lt_irrefl _

theorem settled_newFuture_iff {c : Cell} (hc : c ≠ .future h.futureCount) :
    h.newFuture.Settled c ↔ h.Settled c := by
  cases c with
  | future f => exact h.resolved_newFuture_iff fun e => hc (e ▸ rfl)
  | stream st => exact Iff.rfl

theorem settled_newStream_iff {c : Cell} (hc : c ≠ .stream h.streamCount) :
    h.newStream.Settled c ↔ h.Settled c := by
  cases c with
  | future f => exact Iff.rfl
  | stream st =>
      have hne : st ≠ h.streamCount := fun e => hc (e ▸ rfl)
      show (Function.update h.streams h.streamCount .new st).Ended ↔ _
      rw [Function.update_of_ne hne]
      exact Iff.rfl

/-- A settled cell stays settled when a future is created. -/
theorem settled_newFuture {c : Cell} (hc : h.Allocated c) (hs : h.Settled c) :
    h.newFuture.Settled c := by
  have hne : c ≠ .future h.futureCount := by
    rintro rfl
    exact h.not_allocated_future hc
  exact (h.settled_newFuture_iff hne).mpr hs

/-- A settled cell stays settled when a stream is created. -/
theorem settled_newStream {c : Cell} (hc : h.Allocated c) (hs : h.Settled c) :
    h.newStream.Settled c := by
  have hne : c ≠ .stream h.streamCount := by
    rintro rfl
    exact h.not_allocated_stream hc
  exact (h.settled_newStream_iff hne).mpr hs

theorem not_settled_newStream : ¬ h.newStream.Settled (.stream h.streamCount) := by
  show ¬ (Function.update h.streams h.streamCount .new h.streamCount).Ended
  rw [Function.update_self]
  simp [ManualStreamState.Ended, ManualStreamState.new]

theorem settled_complete {c : Cell} {f : Nat} {r : Except String V} (hc : h.Settled c) :
    (h.complete f r).Settled c := by
  cases c with
  | future g =>
      by_cases hg : g = f
      · rw [hg]
        exact h.resolved_complete_self f r
      · exact (h.resolved_complete_iff f r hg).mpr hc
  | stream st => exact hc

theorem settled_enqueue {c : Cell} {st : Nat} {x : Option V} (hc : h.Settled c) :
    (h.enqueue st x).Settled c := by
  cases c with
  | future f => exact hc
  | stream st' =>
      show (Function.update h.streams st _ st').Ended
      by_cases hst : st' = st
      · rw [hst, Function.update_self]
        exact ManualStreamState.Ended.enqueue (hst ▸ hc) x
      · rw [Function.update_of_ne hst]
        exact hc

theorem settled_close (st : Nat) : (h.enqueue st none).Settled (.stream st) := by
  show (Function.update h.streams st _ st).Ended
  rw [Function.update_self]
  exact ManualStreamState.ended_close _

theorem settled_pollFuture_iff (f : Nat) (w : Waker) (c : Cell) :
    (h.pollFuture f w).1.Settled c ↔ h.Settled c := by
  cases c with
  | future g => exact h.resolved_pollFuture_iff f w g
  | stream st => exact Iff.rfl

theorem settled_pollStream_iff (st : Nat) (w : Waker) (c : Cell) :
    (h.pollStream st w).1.Settled c ↔ h.Settled c := by
  cases c with
  | future f => exact Iff.rfl
  | stream st' =>
      show (Function.update h.streams st _ st').Ended ↔ (h.streams st').Ended
      by_cases hst : st' = st
      · rw [hst, Function.update_self, ManualStreamState.Ended, ManualStreamState.pushed_pollNext]
        exact Iff.rfl
      · rw [Function.update_of_ne hst]

end Heap

/-! ### Cells and armed actions -/

/-- The cell that the action can still settle. -/
def Action.armed : Action V → Option Cell
  | .invocation a => a.completer.map .future
  | .enumerable a => some (.stream a.completer)
  | .callback _ => none

namespace View

/-- The cell of the action under a key. -/
def cellAt (v : View V) (key : String) : Option Cell :=
  (v.get key).bind Action.cell

/-- The cell that the action under a key can still settle. -/
def armedAt (v : View V) (key : String) : Option Cell :=
  (v.get key).bind Action.armed

/-- Armed actions and unsettled cells are matched. -/
structure Inv (v : View V) : Prop where
  heap : v.heap.Inv
  allocated : ∀ key c, v.cellAt key = some c → v.heap.Allocated c
  unique : ∀ key key' c, v.cellAt key = some c → v.cellAt key' = some c → key = key'
  armed_cell : ∀ key c, v.armedAt key = some c → v.cellAt key = some c
  unresolved : ∀ key f, v.armedAt key = some (.future f) → ¬ v.heap.Resolved f
  awaited : ∀ c, v.heap.Allocated c → ¬ v.heap.Settled c → ∃ key, v.armedAt key = some c

/-- What may change between two views: cells are created and settled, and the
actions of existing cells leave the map. -/
structure Advances (v v' : View V) : Prop where
  allocated : ∀ c, v.heap.Allocated c → v'.heap.Allocated c
  settled : ∀ c, v.heap.Allocated c → v.heap.Settled c → v'.heap.Settled c
  held : ∀ key c, v'.cellAt key = some c → v.cellAt key = some c ∨ ¬ v.heap.Allocated c

theorem Advances.refl (v : View V) : Advances v v :=
  ⟨fun _ h => h, fun _ _ h => h, fun _ _ h => .inl h⟩

theorem Advances.trans {u v w : View V} (h : Advances u v) (h' : Advances v w) :
    Advances u w := by
  refine ⟨fun c hc => h'.allocated c (h.allocated c hc),
    fun c hc hs => h'.settled c (h.allocated c hc) (h.settled c hc hs), ?_⟩
  intro key c hc
  rcases h'.held key c hc with hv | hv
  · exact h.held key c hv
  · exact .inr fun hu => hv (h.allocated c hu)

/-! ### Changes of the map -/

section

variable (g : String → Option (Action V)) (h : Heap V) (key : String) (x : Option (Action V))

theorem cellAt_update :
    cellAt ⟨Function.update g key x, h⟩
      = Function.update (cellAt ⟨g, h⟩) key (x.bind Action.cell) := by
  funext k
  by_cases hk : k = key
  · subst hk
    simp [cellAt]
  · simp [cellAt, hk]

theorem armedAt_update :
    armedAt ⟨Function.update g key x, h⟩
      = Function.update (armedAt ⟨g, h⟩) key (x.bind Action.armed) := by
  funext k
  by_cases hk : k = key
  · subst hk
    simp [armedAt]
  · simp [armedAt, hk]

variable {g key x}

/-- A key that keeps its cell: nobody sees that its action changes. -/
theorem cellAt_update_eq_self {h' : Heap V} (hcell : x.bind Action.cell = cellAt ⟨g, h'⟩ key) :
    cellAt ⟨Function.update g key x, h⟩ = cellAt ⟨g, h'⟩ := by
  rw [cellAt_update]
  exact Function.update_eq_self_iff.mpr hcell

theorem armedAt_update_eq_self {h' : Heap V}
    (harmed : x.bind Action.armed = armedAt ⟨g, h'⟩ key) :
    armedAt ⟨Function.update g key x, h⟩ = armedAt ⟨g, h'⟩ := by
  rw [armedAt_update]
  exact Function.update_eq_self_iff.mpr harmed

end

theorem eq_of_update_none {β : Type} {g : String → Option β} {key k : String} {c : β}
    (h : Function.update g key none k = some c) : k ≠ key ∧ g k = some c := by
  by_cases hk : k = key
  · subst hk
    simp at h
  · exact ⟨hk, by simpa [hk] using h⟩

theorem eq_of_update_some {β : Type} {g : String → Option β} {key k : String} {b c : β}
    (h : Function.update g key (some b) k = some c) :
    (k = key ∧ b = c) ∨ (k ≠ key ∧ g k = some c) := by
  by_cases hk : k = key
  · subst hk
    exact .inl ⟨rfl, by simpa using h⟩
  · exact .inr ⟨hk, by simpa [hk] using h⟩

/-! ### The three shapes of a change -/

variable {v v' : View V} {key : String}

/-- A change that leaves every key with its cell. -/
theorem Inv.keep (hi : v.Inv) (hheap : v'.heap.Inv) (hcell : v'.cellAt = v.cellAt)
    (halloc : ∀ c, v.heap.Allocated c → v'.heap.Allocated c)
    (harmed : ∀ k c, v'.armedAt k = some c → v.armedAt k = some c)
    (hun : ∀ k f, v'.armedAt k = some (.future f) → ¬ v'.heap.Resolved f)
    (hawaited : ∀ c, v'.heap.Allocated c → ¬ v'.heap.Settled c → ∃ k, v'.armedAt k = some c) :
    v'.Inv where
  heap := hheap
  allocated := by
    intro k c hc
    rw [hcell] at hc
    exact halloc c (hi.allocated k c hc)
  unique := by
    rw [hcell]
    exact hi.unique
  armed_cell := by
    intro k c hc
    rw [hcell]
    exact hi.armed_cell k c (harmed k c hc)
  unresolved := hun
  awaited := hawaited

/-- A change that only creates a cell, settled at once, or settles an
existing stream, or does neither. -/
theorem Inv.same (hi : v.Inv) (hheap : v'.heap.Inv) (hcell : v'.cellAt = v.cellAt)
    (harmed : v'.armedAt = v.armedAt)
    (halloc : ∀ c, v.heap.Allocated c → v'.heap.Allocated c)
    (hfresh : ∀ c, v'.heap.Allocated c → v.heap.Allocated c ∨ v'.heap.Settled c)
    (hresolved : ∀ f, v.heap.Allocated (.future f) → (v'.heap.Resolved f ↔ v.heap.Resolved f))
    (hsettled : ∀ c, v.heap.Allocated c → v.heap.Settled c → v'.heap.Settled c) : v'.Inv := by
  refine hi.keep hheap hcell halloc (fun k c hc => by rwa [harmed] at hc) ?_ ?_
  · intro k f hf
    rw [harmed] at hf
    rw [hresolved f (hi.allocated k _ (hi.armed_cell k _ hf))]
    exact hi.unresolved k f hf
  · intro c hc hu
    rw [harmed]
    rcases hfresh c hc with hc | hc
    · exact hi.awaited c hc fun hs => hu (hsettled c hc hs)
    · exact absurd hc hu

/-- A new cell enters the map under a free key, with an armed action. -/
theorem Inv.enter (hi : v.Inv) (c₀ : Cell) (hheap : v'.heap.Inv)
    (hcell : v'.cellAt = Function.update v.cellAt key (some c₀))
    (harmed : v'.armedAt = Function.update v.armedAt key (some c₀))
    (hnew : ¬ v.heap.Allocated c₀) (halloc : ∀ c, v'.heap.Allocated c ↔ v.heap.Allocated c ∨ c = c₀)
    (hopen : ¬ v'.heap.Settled c₀)
    (hsettled : ∀ c, c ≠ c₀ → (v'.heap.Settled c ↔ v.heap.Settled c))
    (hfree : v.armedAt key = none) : v'.Inv where
  heap := hheap
  allocated := by
    intro k c hc
    rw [hcell] at hc
    rcases eq_of_update_some hc with ⟨-, rfl⟩ | ⟨-, hc⟩
    · exact (halloc _).mpr (.inr rfl)
    · exact (halloc c).mpr (.inl (hi.allocated k c hc))
  unique := by
    intro k k' c hk hk'
    rw [hcell] at hk hk'
    rcases eq_of_update_some hk with ⟨rfl, h⟩ | ⟨-, hk⟩
    · rcases eq_of_update_some hk' with ⟨rfl, -⟩ | ⟨-, hk'⟩
      · rfl
      -- a cell that is in the map already is not new
      · exact absurd (h ▸ hi.allocated _ _ hk') hnew
    · rcases eq_of_update_some hk' with ⟨-, h⟩ | ⟨-, hk'⟩
      · exact absurd (h ▸ hi.allocated _ _ hk) hnew
      · exact hi.unique k k' c hk hk'
  armed_cell := by
    intro k c hc
    rw [harmed] at hc
    rw [hcell]
    rcases eq_of_update_some hc with ⟨rfl, rfl⟩ | ⟨hk, hc⟩
    · exact Function.update_self ..
    · rw [Function.update_of_ne hk]
      exact hi.armed_cell k c hc
  unresolved := by
    intro k f hf
    rw [harmed] at hf
    rcases eq_of_update_some hf with ⟨-, rfl⟩ | ⟨-, hf⟩
    · exact hopen
    · have hold := hi.allocated k _ (hi.armed_cell k _ hf)
      have hne : Cell.future f ≠ c₀ := by
        rintro rfl
        exact hnew hold
      exact fun hr => hi.unresolved k f hf ((hsettled _ hne).mp hr)
  awaited := by
    intro c hc hu
    rw [harmed]
    rcases (halloc c).mp hc with hc | rfl
    · have hne : c ≠ c₀ := by
        rintro rfl
        exact hnew hc
      obtain ⟨k, hk⟩ := hi.awaited c hc fun hs => hu ((hsettled c hne).mpr hs)
      have hkey : k ≠ key := by
        rintro rfl
        rw [hfree] at hk
        simp at hk
      exact ⟨k, by rwa [Function.update_of_ne hkey]⟩
    · exact ⟨key, Function.update_self ..⟩

/-- An action leaves the map whose cell, if it was armed for one, is settled. -/
theorem Inv.leave {h : Heap V} {g : String → Option (Action V)} (hi : Inv ⟨g, h⟩)
    (hspent : ∀ c, armedAt ⟨g, h⟩ key = some c → h.Settled c) :
    Inv ⟨Function.update g key none, h⟩ where
  heap := hi.heap
  allocated := by
    intro k c hc
    rw [cellAt_update] at hc
    exact hi.allocated k c (eq_of_update_none hc).2
  unique := by
    intro k k' c hk hk'
    rw [cellAt_update] at hk hk'
    exact hi.unique k k' c (eq_of_update_none hk).2 (eq_of_update_none hk').2
  armed_cell := by
    intro k c hc
    rw [armedAt_update] at hc
    obtain ⟨hk, hc⟩ := eq_of_update_none hc
    rw [cellAt_update, Function.update_of_ne hk]
    exact hi.armed_cell k c hc
  unresolved := by
    intro k f hf
    rw [armedAt_update] at hf
    exact hi.unresolved k f (eq_of_update_none hf).2
  awaited := by
    intro c hc hu
    obtain ⟨k, hk⟩ := hi.awaited c hc hu
    have hkey : k ≠ key := by
      rintro rfl
      exact hu (hspent c hk)
    rw [armedAt_update]
    exact ⟨k, by rwa [Function.update_of_ne hkey]⟩

/-! ### Every primitive change -/

theorem Inv.empty : Inv ⟨fun _ => none, (Heap.empty : Heap V)⟩ where
  heap := .empty
  allocated := by simp [cellAt]
  unique := by simp [cellAt]
  armed_cell := by simp [armedAt]
  unresolved := by simp [armedAt]
  awaited := by
    rintro (f | st) hc
    · exact absurd hc (Nat.not_lt_zero f)
    · exact absurd hc (Nat.not_lt_zero st)

/-- **The step lemma.**  Every primitive change keeps the invariant. -/
theorem Touch.inv (hi : v.Inv) (ht : Touch v v') : v'.Inv := by
  cases ht with
  | insertInvocation id decode hfree =>
      refine hi.enter (.future v.heap.futureCount) hi.heap.newFuture
        (cellAt_update _ _ _ _) (armedAt_update _ _ _ _) v.heap.not_allocated_future
        v.heap.allocated_newFuture_iff v.heap.not_resolved_newFuture
        (fun c hc => v.heap.settled_newFuture_iff hc) ?_
      simp [armedAt, hfree]
  | refuseInvocation r =>
      have hnew := v.heap.newFuture.resolved_complete_self v.heap.futureCount r
      have hheap := hi.heap.newFuture.complete (Nat.lt_succ_self _) v.heap.not_resolved_newFuture r
      refine hi.same hheap rfl rfl
        (fun c hc => (v.heap.allocated_newFuture_iff c).mpr (.inl hc)) ?_ ?_ ?_
      · intro c hc
        rcases (v.heap.allocated_newFuture_iff c).mp hc with hc | rfl
        · exact .inl hc
        · exact .inr hnew
      · intro f hf
        have hne : f ≠ v.heap.futureCount := Nat.ne_of_lt hf
        rw [Heap.resolved_complete_iff _ _ _ hne, Heap.resolved_newFuture_iff _ hne]
      · intro c hc hs
        exact Heap.settled_complete _ (v.heap.settled_newFuture hc hs)
  | insertStream id decode hfree =>
      refine hi.enter (.stream v.heap.streamCount) hi.heap.newStream
        (cellAt_update _ _ _ _) (armedAt_update _ _ _ _) v.heap.not_allocated_stream
        v.heap.allocated_newStream_iff v.heap.not_settled_newStream
        (fun c hc => v.heap.settled_newStream_iff hc) ?_
      simp [armedAt, hfree]
  | refuseStream =>
      refine hi.same (hi.heap.newStream.enqueue _ none) rfl rfl
        (fun c hc => (v.heap.allocated_newStream_iff c).mpr (.inl hc)) ?_
        (fun f _ => Iff.rfl) ?_
      · intro c hc
        rcases (v.heap.allocated_newStream_iff c).mp hc with hc | rfl
        · exact .inl hc
        · exact .inr (Heap.settled_close _ _)
      · intro c hc hs
        exact Heap.settled_enqueue _ (v.heap.settled_newStream hc hs)
  | @insertCallback key a hfree =>
      have hcell : v.cellAt key = none := by simp [cellAt, hfree]
      have harmed : v.armedAt key = none := by simp [armedAt, hfree]
      exact hi.same hi.heap (cellAt_update_eq_self _ hcell.symm)
        (armedAt_update_eq_self _ harmed.symm) (fun _ hc => hc) (fun _ hc => .inl hc)
        (fun _ _ => Iff.rfl) (fun _ _ hs => hs)
  | call callback invocation =>
      exact hi.same (hi.heap.call callback invocation) rfl rfl (fun _ hc => hc)
        (fun _ hc => .inl hc) (fun _ _ => Iff.rfl) (fun _ _ hs => hs)
  -- the only change that disarms an action without removing it
  | @complete key a f r hget hf =>
      have harmed : v.armedAt key = some (.future f) := by simp [armedAt, hget, Action.armed, hf]
      have hcell := hi.armed_cell key _ harmed
      have hf' := hi.allocated key _ hcell
      have hown : v.cellAt key = some (.future a.future) := by simp [cellAt, hget, Action.cell]
      refine hi.keep (hi.heap.complete hf' (hi.unresolved key f harmed) r)
        (cellAt_update_eq_self _ hown.symm) (fun _ hc => hc) ?_ ?_ ?_
      · intro k c hc
        rw [armedAt_update] at hc
        exact (eq_of_update_none hc).2
      · intro k g hg
        rw [armedAt_update] at hg
        obtain ⟨hk, hg⟩ := eq_of_update_none hg
        -- another armed action with the same future would share the cell
        have hne : g ≠ f := by
          rintro rfl
          exact hk (hi.unique k key _ (hi.armed_cell k _ hg) hcell)
        rw [Heap.resolved_complete_iff _ _ _ hne]
        exact hi.unresolved k g hg
      · intro c hc hu
        obtain ⟨k, hk⟩ := hi.awaited c hc fun hs => hu (v.heap.settled_complete hs)
        have hkey : k ≠ key := by
          rintro rfl
          rw [harmed] at hk
          obtain rfl := Option.some.inj hk
          exact hu (v.heap.resolved_complete_self f r)
        refine ⟨k, ?_⟩
        rw [armedAt_update, Function.update_of_ne hkey]
        exact hk
  -- a stream's action stays armed: ending a stream twice is harmless
  | @enqueue key a x completed hget =>
      have hcell : v.cellAt key = some (.stream a.completer) := by simp [cellAt, hget, Action.cell]
      have harmed : v.armedAt key = some (.stream a.completer) := by
        simp [armedAt, hget, Action.armed]
      exact hi.same (hi.heap.enqueue _ x) (cellAt_update_eq_self _ hcell.symm)
        (armedAt_update_eq_self _ harmed.symm) (fun _ hc => hc) (fun _ hc => .inl hc)
        (fun _ _ => Iff.rfl) (fun _ _ hs => v.heap.settled_enqueue hs)
  | @discard key a hget hspent =>
      refine hi.leave ?_
      intro c hc
      have harmed : a.armed = some c := by simpa [armedAt, hget] using hc
      cases a with
      | invocation a => simp [Action.armed, show a.completer = none from hspent] at harmed
      | enumerable a =>
          obtain rfl := Option.some.inj harmed
          exact hspent
      | callback a => simp [Action.armed] at harmed
  | pollFuture w hf =>
      exact hi.same (hi.heap.pollFuture hf w) rfl rfl (fun _ hc => hc) (fun _ hc => .inl hc)
        (fun f _ => v.heap.resolved_pollFuture_iff _ w f)
        (fun c _ hs => (v.heap.settled_pollFuture_iff _ w c).mpr hs)
  | pollStream w _ =>
      exact hi.same (hi.heap.pollStream _ w) rfl rfl (fun _ hc => hc) (fun _ hc => .inl hc)
        (fun _ _ => Iff.rfl) (fun c _ hs => (v.heap.settled_pollStream_iff _ w c).mpr hs)

/-- A change of the cells only, which creates and settles some. -/
theorem Advances.of_cellAt (hcell : v'.cellAt = v.cellAt)
    (halloc : ∀ c, v.heap.Allocated c → v'.heap.Allocated c)
    (hsettled : ∀ c, v.heap.Allocated c → v.heap.Settled c → v'.heap.Settled c) :
    Advances v v' :=
  ⟨halloc, hsettled, fun k c hc => .inl (by rwa [hcell] at hc)⟩

/-- A new action enters the map, with a new cell. -/
theorem Advances.of_enter (c₀ : Cell) (hcell : v'.cellAt = Function.update v.cellAt key (some c₀))
    (hnew : ¬ v.heap.Allocated c₀) (halloc : ∀ c, v'.heap.Allocated c ↔ v.heap.Allocated c ∨ c = c₀)
    (hsettled : ∀ c, c ≠ c₀ → (v'.heap.Settled c ↔ v.heap.Settled c)) : Advances v v' := by
  refine ⟨fun c hc => (halloc c).mpr (.inl hc), ?_, ?_⟩
  · intro c hc hs
    have hne : c ≠ c₀ := by
      rintro rfl
      exact hnew hc
    exact (hsettled c hne).mpr hs
  · intro k c hc
    rw [hcell] at hc
    rcases eq_of_update_some hc with ⟨-, rfl⟩ | ⟨-, hc⟩
    · exact .inr hnew
    · exact .inl hc

/-- A primitive change only advances. -/
theorem Touch.advances (ht : Touch v v') : Advances v v' := by
  cases ht with
  | insertInvocation id decode _ =>
      exact .of_enter (.future v.heap.futureCount) (cellAt_update _ _ _ _)
        v.heap.not_allocated_future v.heap.allocated_newFuture_iff
        fun c hc => v.heap.settled_newFuture_iff hc
  | refuseInvocation r =>
      refine .of_cellAt rfl (fun c hc => (v.heap.allocated_newFuture_iff c).mpr (.inl hc)) ?_
      intro c hc hs
      exact Heap.settled_complete _ (v.heap.settled_newFuture hc hs)
  | insertStream id decode _ =>
      exact .of_enter (.stream v.heap.streamCount) (cellAt_update _ _ _ _)
        v.heap.not_allocated_stream v.heap.allocated_newStream_iff
        fun c hc => v.heap.settled_newStream_iff hc
  | refuseStream =>
      refine .of_cellAt rfl (fun c hc => (v.heap.allocated_newStream_iff c).mpr (.inl hc)) ?_
      intro c hc hs
      exact Heap.settled_enqueue _ (v.heap.settled_newStream hc hs)
  | @insertCallback key a hfree =>
      have hcell : v.cellAt key = none := by simp [cellAt, hfree]
      exact .of_cellAt (cellAt_update_eq_self _ hcell.symm) (fun _ hc => hc)
        (fun _ _ hs => hs)
  | call _ _ => exact .of_cellAt rfl (fun _ hc => hc) (fun _ _ hs => hs)
  | @complete key a f r hget _ =>
      have hown : v.cellAt key = some (.future a.future) := by simp [cellAt, hget, Action.cell]
      exact .of_cellAt (cellAt_update_eq_self _ hown.symm) (fun _ hc => hc)
        (fun _ _ hs => v.heap.settled_complete hs)
  | @enqueue key a x completed hget =>
      have hown : v.cellAt key = some (.stream a.completer) := by simp [cellAt, hget, Action.cell]
      exact .of_cellAt (cellAt_update_eq_self _ hown.symm) (fun _ hc => hc)
        (fun _ _ hs => v.heap.settled_enqueue hs)
  | discard _ _ =>
      refine ⟨fun _ hc => hc, fun _ _ hs => hs, fun k c hc => ?_⟩
      rw [cellAt_update] at hc
      exact .inl (eq_of_update_none hc).2
  | pollFuture w _ =>
      exact .of_cellAt rfl (fun _ hc => hc)
        fun c _ hs => (v.heap.settled_pollFuture_iff _ w c).mpr hs
  | pollStream w _ =>
      exact .of_cellAt rfl (fun _ hc => hc)
        fun c _ hs => (v.heap.settled_pollStream_iff _ w c).mpr hs

/-- The invariant holds after any sequence of primitive changes. -/
theorem Touches.inv (hi : v.Inv) (ht : Touches v v') : v'.Inv := by
  induction ht with
  | refl => exact hi
  | tail _ hlast ih => exact Touch.inv ih hlast

theorem Touches.advances (ht : Touches v v') : Advances v v' := by
  induction ht with
  | refl => exact .refl v
  | tail _ hlast ih => exact ih.trans (Touch.advances hlast)

/-! ### What the invariant says about one cell -/

/-- A future is unresolved exactly while its own action is in the map and still
holds its completer. -/
theorem Inv.not_resolved_iff (hi : v.Inv) {f : Nat} (hf : f < v.heap.futureCount) :
    ¬ v.heap.Resolved f ↔
      ∃ key a, v.get key = some (.invocation a) ∧ a.future = f ∧ a.completer = some f := by
  constructor
  · intro hu
    -- the armed action that awaits `f` can only be an invocation
    obtain ⟨key, hkey⟩ := hi.awaited (.future f) hf hu
    have hcell := hi.armed_cell key _ hkey
    rcases hget : v.get key with - | (a | a | a)
    · simp [armedAt, hget] at hkey
    · refine ⟨key, a, hget, ?_, ?_⟩
      · simpa [cellAt, hget, Action.cell] using hcell
      · simpa [armedAt, hget, Action.armed] using hkey
    · simp [armedAt, hget, Action.armed] at hkey
    · simp [armedAt, hget, Action.armed] at hkey
  · rintro ⟨key, a, hget, -, hf⟩
    refine hi.unresolved key f ?_
    simp [armedAt, hget, Action.armed, hf]

/-- A cell without an action in the map is settled. -/
theorem Inv.settled_of_not_held (hi : v.Inv) {c : Cell} (hc : v.heap.Allocated c)
    (hout : ∀ key, v.cellAt key ≠ some c) : v.heap.Settled c := by
  by_contra hu
  obtain ⟨key, hkey⟩ := hi.awaited c hc hu
  exact hout key (hi.armed_cell key c hkey)

end View

end SignalR
