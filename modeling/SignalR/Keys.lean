/-
SignalR/Keys.lean

The keys of `create_key`: the target, an underscore, and the next number of the counter
that all clones share.

A target may contain underscores and digits, so the two parts are told apart by the last
underscore: no decimal number contains one (`index_eq_of_key_eq`).  The counter is moved
by `create_key` alone, so the keys of a run carry the numbers from its first value on
(`returnedKeys_eq`), and until the counter wraps they are all different.

A record reaches the action under its own key only (`processMessage_spares`), so the
record for one caller's key never touches what another caller waits for.
-/
import SignalR.Independence

namespace SignalR

open Transition

variable {V : Type}

/-! ### The two parts of a key -/

/-- What follows the last separator is determined. -/
theorem eq_of_append_cons_eq {α : Type} {a : α} {l l' d d' : List α} (hd : a ∉ d) (hd' : a ∉ d')
    (h : l ++ a :: d = l' ++ a :: d') : d = d' := by
  rcases List.append_eq_append_iff.mp h with ⟨c, -, hc⟩ | ⟨c, -, hc⟩
  · rcases c with - | ⟨x, c⟩
    · exact (List.cons.inj hc).2
    · obtain ⟨rfl, rfl⟩ := List.cons.inj hc
      exact absurd (List.mem_append_right c List.mem_cons_self) hd
  · rcases c with - | ⟨x, c⟩
    · exact (List.cons.inj hc).2.symm
    · obtain ⟨rfl, rfl⟩ := List.cons.inj hc
      exact absurd (List.mem_append_right c List.mem_cons_self) hd'

/-- `format!("{}_{}", target, index)`. -/
def numberedKey (target : String) (index : Nat) : String :=
  target ++ "_" ++ toString index

theorem toList_numberedKey (target : String) (index : Nat) :
    (numberedKey target index).toList = target.toList ++ '_' :: Nat.toDigits 10 index := by
  rw [numberedKey, String.toList_append, String.toList_append, Nat.toString_eq_repr,
    Nat.toList_repr, List.append_assoc]
  rfl

/-- **Equal keys have equal numbers**, whatever their targets are. -/
theorem index_eq_of_key_eq {target target' : String} {n n' : Nat}
    (h : numberedKey target n = numberedKey target' n') : n = n' := by
  have hlist := congrArg String.toList h
  rw [toList_numberedKey, toList_numberedKey] at hlist
  have hdigits := eq_of_append_cons_eq Nat.underscore_not_in_toDigits
    Nat.underscore_not_in_toDigits hlist
  have hread := congrArg (fun digits => Nat.ofDigitChars 10 digits 0) hdigits
  simpa [Nat.ofDigitChars_toDigits] using hread

/-! ### The counter -/

/-- The target of a `create_key` call. -/
def StorageOp.keyTarget : StorageOp V → Option String
  | .createKey target => some target
  | _ => none

namespace Storage

variable {S : Serde} {s t : Storage V} {op : StorageOp V} {key : String} {m : RawMessage}

theorem ignoresEntries_index : IgnoresEntries (index (V := V)) :=
  fun _ _ _ => rfl

theorem index_update (s : Storage V) (key : String)
    (f : Action V → Heap V → Action V × Heap V × Outcome) :
    (s.update key f).1.index = s.index :=
  ignoresEntries_index.update (fun _ _ => rfl) s key f

theorem index_remove (s : Storage V) (key : String) : (s.remove key).index = s.index :=
  ignoresEntries_index.remove s key

theorem index_deferMessage (s : Storage V) (key : String) (m : RawMessage) :
    (s.deferMessage S key m).1.index = s.index := by
  obtain ⟨-, hd, -⟩ | ⟨-, -, hd⟩ | ⟨-, hd⟩ := deferMessage_cases S s key m
  · rw [hd, index_update]
  · rw [hd]
  · rw [hd]

theorem index_replayDeferred (s : Storage V) (key : String) :
    (s.replayDeferred S key).1.index = s.index := by
  rw [replayDeferred]
  split
  · apply replay_invariant (I := fun t => t.index = s.index)
    · intro m _ t ht
      rw [index_update, ht]
    · rfl
  · rfl

theorem index_processMessage (s : Storage V) (m : RawMessage) :
    (s.processMessage S m).1.index = s.index := by
  obtain ⟨o, -, hm⟩ | ⟨key, -, hm⟩ | ⟨i, hm, -⟩ | ⟨key, -, -, hm⟩ := processMessage_cases S s m
  · rw [hm]
  · rw [hm, index_update]
  · rw [hm, index_deferMessage]
  · rw [hm, index_remove, index_update]

/-- **The counter is moved by `create_key` alone.** -/
theorem index_run (h : op.keyTarget = none) : (s.run S op).index = s.index := by
  have hinsert := ignoresEntries_index.insert (V := V)
  have hdropHandle := ignoresEntries_index.dropHandle (V := V) fun _ _ => rfl
  cases op with
  | createKey target => exact absurd h nofun
  | addInvocation id decode => exact hinsert { s with heap := _ } id _
  | addStream id decode => exact hinsert { s with heap := _ } id _
  | addCallback target callback => exact (index_replayDeferred _ _).trans (hinsert s target _)
  | processMessage m => exact s.index_processMessage m
  | dispatch key m => exact s.index_update key _
  | deferMessage key m => exact s.index_deferMessage key m
  | replayDeferred key => exact s.index_replayDeferred key
  | insertCallback target callback => exact hinsert s target _
  | cancelPending reason => exact ignoresEntries_index.cancelPending s reason
  | remove key => exact s.index_remove key
  | cleanup key => exact (hdropHandle _).trans (s.index_remove key)
  | clone => rfl
  | dropHandle => exact hdropHandle s
  | pollFuture f w => rfl
  | pollStream st w => rfl

/-! ### The keys of a run -/

/-- The key that an operation returns. -/
def keyOf (s : Storage V) : StorageOp V → Option String
  | .createKey target => some (s.createKey target).2
  | _ => none

/-- The keys that the `create_key` calls among `ops` return, in their order. -/
def returnedKeys (S : Serde) : Storage V → List (StorageOp V) → List String
  | _, [] => []
  | s, op :: ops => (s.keyOf op).toList ++ returnedKeys S (s.run S op) ops

/-- The targets of the `create_key` calls. -/
def keyTargets (ops : List (StorageOp V)) : List String :=
  ops.filterMap StorageOp.keyTarget

/-- **The keys of a run** are numbered from the counter on, as long as it does not wrap. -/
theorem returnedKeys_eq {ops : List (StorageOp V)}
    (hfew : s.index + (keyTargets ops).length < usizeSize) :
    returnedKeys S s ops =
      ((keyTargets ops).zipIdx (s.index + 1)).map fun x => numberedKey x.1 x.2 := by
  induction ops generalizing s with
  | nil => rfl
  | cons op ops ih =>
      rcases hop : op.keyTarget with - | target
      · have hnone : s.keyOf op = none := by
          cases op with
          | createKey target => exact absurd hop nofun
          | _ => rfl
        have hrest : keyTargets (op :: ops) = keyTargets ops := List.filterMap_cons_none hop
        have hindex := index_run (S := S) (s := s) hop
        rw [hrest] at hfew ⊢
        rw [returnedKeys, hnone, ih (by rwa [hindex]), hindex]
        rfl
      · obtain rfl : op = .createKey target := by
          cases op <;> simp_all [StorageOp.keyTarget]
        have hrest : keyTargets (.createKey target :: ops) = target :: keyTargets ops := rfl
        rw [hrest, List.length_cons] at hfew
        have hnext : (s.index + 1) % usizeSize = s.index + 1 := Nat.mod_eq_of_lt (by omega)
        have hindex : (s.run S (.createKey target)).index = s.index + 1 := hnext
        rw [returnedKeys, ih (by rw [hindex]; omega), hindex, hrest, List.zipIdx_cons,
          List.map_cons]
        show numberedKey target ((s.index + 1) % usizeSize) :: _ = _
        rw [hnext]
        rfl

/-! ### Records for other keys -/

/-- What stands under a key, and the cell its caller waits for, are the same in both. -/
structure SpareAt (key : String) (s t : Storage V) : Prop where
  get : t.get key = s.get key
  future : ∀ f, s.view.cellAt key = some (.future f) → t.heap.futures f = s.heap.futures f
  stream : ∀ st, s.view.cellAt key = some (.stream st) → t.heap.streams st = s.heap.streams st

theorem SpareAt.refl (key : String) (s : Storage V) : SpareAt key s s :=
  ⟨rfl, fun _ _ => rfl, fun _ _ => rfl⟩

/-- What every effect of a list keeps, the list keeps. -/
theorem applyAll_keeps {β : Type} (p : Heap V → β) {es : List (CellEffect V)} {h : Heap V}
    (hes : ∀ e ∈ es, ∀ h, p (CellEffect.apply h e) = p h) : p (CellEffect.applyAll es h) = p h := by
  induction es generalizing h with
  | nil => rfl
  | cons e es ih =>
      show p (CellEffect.applyAll es (CellEffect.apply h e)) = p h
      rw [ih fun e' he' => hes e' (List.mem_cons_of_mem e he'), hes e List.mem_cons_self]

/-- An effect that does not complete a future leaves it alone. -/
theorem futures_apply {f : Nat} {e : CellEffect V} (he : ∀ r, e ≠ .complete f r) (h : Heap V) :
    (CellEffect.apply h e).futures f = h.futures f := by
  cases e with
  | complete g r =>
      apply Function.update_of_ne
      rintro rfl
      exact he r rfl
  | enqueue st x => rfl
  | call id i => rfl

/-- An effect that queues nothing for a stream leaves it alone. -/
theorem streams_apply {st : Nat} {e : CellEffect V} (he : ∀ x, e ≠ .enqueue st x) (h : Heap V) :
    (CellEffect.apply h e).streams st = h.streams st := by
  cases e with
  | complete f r => rfl
  | enqueue st' x =>
      apply Function.update_of_ne
      rintro rfl
      exact he x rfl
  | call id i => rfl

/-- **A record spares the other keys.** -/
theorem processMessage_spares (hi : s.view.Inv) (hkey : m.routingKey S = some key)
    {key' : String} (hne : key ≠ key') : SpareAt key' s (s.processMessage S m).1 := by
  by_cases hp : s.poisoned = true
  · obtain ⟨o, -, hsame⟩ := processMessage_poisoned (V := V) S m
    rw [hsame s hp]
    exact .refl key' s
  obtain ⟨hr, -⟩ := processMessage_reacts (by simpa using hp) hkey
  -- a cell that the record reaches stands under its own key
  have harmed : ∀ {a c}, s.get key = some a → a.armed = some c → s.view.cellAt key' ≠ some c := by
    intro a c hget hac hcell
    have hat : s.view.armedAt key = some c := by
      show (s.get key).bind Action.armed = _
      rw [hget]
      exact hac
    exact hne (hi.unique key key' c (hi.armed_cell key c hat) hcell)
  refine ⟨hr.get_of_ne hne.symm, fun f hf => ?_, fun st hst => ?_⟩
  · rw [hr.heap]
    apply applyAll_keeps (fun h => h.futures f)
    intro e hmem
    apply futures_apply
    rintro r rfl
    obtain ⟨a, hget, hwithin⟩ := reaction_within hkey hmem
    exact harmed hget hwithin hf
  · rw [hr.heap]
    apply applyAll_keeps (fun h => h.streams st)
    intro e hmem
    apply streams_apply
    rintro x rfl
    obtain ⟨a, hget, hwithin⟩ := reaction_within hkey hmem
    exact harmed hget hwithin hst

/-! ### Uniqueness -/

/-- **The keys of a run are pairwise distinct**, when `create_key` is called fewer than
`2^64` times, by whichever clones and among whichever other operations; and a record for
one of them leaves the action under another, and the future or stream of that action's
caller, as they are. -/
theorem createKey_unique {capacity : Nat} {ops : List (StorageOp V)}
    (h : Run (step S) free (newWithDeferredMessageCapacity capacity) ops s)
    (hfew : (keyTargets ops).length < usizeSize) :
    (returnedKeys S (newWithDeferredMessageCapacity (V := V) capacity) ops).Nodup ∧
      ∀ key ∈ returnedKeys S (newWithDeferredMessageCapacity (V := V) capacity) ops,
      ∀ key' ∈ returnedKeys S (newWithDeferredMessageCapacity (V := V) capacity) ops,
        key ≠ key' → ∀ m, m.routingKey S = some key → SpareAt key' s (s.processMessage S m).1 := by
  constructor
  · have hindex : (newWithDeferredMessageCapacity (V := V) capacity).index = 0 := rfl
    rw [returnedKeys_eq (by omega), List.Nodup, List.pairwise_map]
    have hnumbers : (((keyTargets ops).zipIdx 1).map Prod.snd).Pairwise (· ≠ ·) := by
      rw [List.zipIdx_map_snd]
      exact List.nodup_range'
    exact (List.pairwise_map.mp hnumbers).imp fun hne heq => hne (index_eq_of_key_eq heq)
  · intro key _ key' _ hne m hkey
    have hreach : Reachable S capacity s := ⟨ops, h⟩
    exact processMessage_spares hreach.inv hkey hne

/-- Two callers whose targets make their keys look alike. -/
def underscoredOps : List (StorageOp Int) :=
  [.createKey "add_1", .createKey "add", .clone, .createKey "add_1",
    .addInvocation "add_1_1" .i64, .addInvocation "add_2" .i64]

/-- The storage after `underscoredOps`. -/
def underscoredStorage : Storage Int :=
  underscoredOps.foldl (run (.ofTable [] [])) (newWithDeferredMessageCapacity 8)

theorem createKey_unique_underscored :
    ["add_1_1", "add_2", "add_1_3"].Nodup ∧
      ∀ key ∈ ["add_1_1", "add_2", "add_1_3"], ∀ key' ∈ ["add_1_1", "add_2", "add_1_3"],
        key ≠ key' → ∀ m, m.routingKey (.ofTable [] []) = some key →
          SpareAt key' underscoredStorage
            (underscoredStorage.processMessage (.ofTable [] []) m).1 :=
  have hrun : Run (step (.ofTable [] [])) free (newWithDeferredMessageCapacity 8) underscoredOps
      underscoredStorage := run_free_iff_exec.mpr rfl
  createKey_unique hrun (by decide)

end Storage

end SignalR
