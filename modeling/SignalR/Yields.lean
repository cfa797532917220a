/-
SignalR/Yields.lean

What the consumer of a stream gets, read off the run.  A stream is fed by the items that
the records for its key have for it (`item`), and it ends with the first verdict of the
run, that is by what would decide an invocation under the same key: a completion, a
cancellation, a removal.  Before the first end its consumer gets the items of the run up
to there (`itemsBefore`), no more and no fewer, and without a verdict the stream is open
(`Open.run_items`).

So an `enumerate` of the client yields the items that the readers come to before the first
verdict on it, whatever the other parties do (`stream_decided`), and a server's stream
that comes in text frames reaches its consumer item by item (`items_reach_consumer`).
-/
import SignalR.Contexts
import SignalR.Refinement

namespace SignalR

open Transition

variable {V : Type}

/-! ### Ends -/

theorem beforeEnd_append_of_mem {l : List (Option V)} (h : none ∈ l) (l' : List (Option V)) :
    beforeEnd (l ++ l') = beforeEnd l := by
  induction l with
  | nil => exact absurd h List.not_mem_nil
  | cons x l ih =>
      rcases x with - | x
      · rfl
      · rw [List.cons_append, beforeEnd, beforeEnd, ih (by simpa using h)]

theorem beforeEnd_append_of_not_mem {l : List (Option V)} (h : none ∉ l) (l' : List (Option V)) :
    beforeEnd (l ++ l') = beforeEnd l ++ beforeEnd l' := by
  induction l with
  | nil => rfl
  | cons x l ih =>
      rcases x with - | x
      · exact absurd List.mem_cons_self h
      · rw [List.cons_append, beforeEnd, beforeEnd, ih fun hl => h (List.mem_cons_of_mem _ hl),
          List.cons_append]

@[simp] theorem beforeEnd_map_some (xs : List V) : beforeEnd (xs.map some) = xs := by
  induction xs with
  | nil => rfl
  | cons x xs ih => rw [List.map_cons, beforeEnd, ih]

namespace Heap

variable {h : Heap V}

/-- Everything pushed to a stream. -/
def pushed (h : Heap V) (st : Nat) : List (Option V) :=
  (h.streams st).pushed

/-- What the consumer of a stream has received, and what it has still to receive. -/
def yielded (h : Heap V) (st : Nat) : List (Option V) :=
  h.received st ++ (h.streams st).queue

theorem Drained.yielded_eq (hd : h.Drained) (st : Nat) : h.yielded st = h.pushed st :=
  hd.drained st

/-- What a consumer has received before the end is a prefix of all there is, and is all of
it once the end has been received. -/
theorem beforeEnd_received (h : Heap V) (st : Nat) :
    beforeEnd (h.received st) <+: beforeEnd (h.yielded st) ∧
      (none ∈ h.received st → beforeEnd (h.received st) = beforeEnd (h.yielded st)) := by
  rw [yielded]
  by_cases hend : none ∈ h.received st
  · rw [beforeEnd_append_of_mem hend]
    exact ⟨List.prefix_rfl, fun _ => rfl⟩
  · rw [beforeEnd_append_of_not_mem hend]
    exact ⟨List.prefix_append _ _, fun hend' => absurd hend' hend⟩

theorem pushed_prefix_enqueue (h : Heap V) (st st' : Nat) (x : Option V) :
    h.pushed st' <+: (h.enqueue st x).pushed st' := by
  show _ <+: ((h.enqueue st x).streams st').pushed
  rw [pushed_enqueue]
  split
  · rename_i hst
    subst hst
    exact List.prefix_append _ _
  · exact List.prefix_rfl

theorem pushed_newStream {st : Nat} (hst : st < h.streamCount) :
    h.newStream.pushed st = h.pushed st := by
  show (Function.update h.streams h.streamCount .new st).pushed = _
  rw [Function.update_of_ne (Nat.ne_of_lt hst)]
  rfl

end Heap

namespace View

variable {v v' : View V} {st : Nat}

/-- What has been pushed stays. -/
theorem Touch.pushed_prefix (ht : Touch v v') (hst : st < v.heap.streamCount) :
    v.heap.pushed st <+: v'.heap.pushed st := by
  cases ht with
  | insertStream id decode hfree =>
      exact ⟨[], (List.append_nil _).trans (Heap.pushed_newStream hst).symm⟩
  | refuseStream =>
      rw [← Heap.pushed_newStream hst]
      exact v.heap.newStream.pushed_prefix_enqueue _ st none
  | enqueue x completed hget => exact v.heap.pushed_prefix_enqueue _ st x
  | @pollStream st' w hst' =>
      show v.heap.pushed st <+: ((v.heap.pollStream st' w).1.streams st).pushed
      exact ⟨[], (List.append_nil _).trans (Heap.pushed_pollStream _ _ _ _).symm⟩
  | _ => exact List.prefix_rfl

theorem Touches.pushed_prefix (ht : Touches v v') (hst : st < v.heap.streamCount) :
    v.heap.pushed st <+: v'.heap.pushed st := by
  induction ht with
  | refl => exact List.prefix_rfl
  | tail hfirst hlast ih =>
      have hst' := (Touches.advances hfirst).allocated (.stream st) hst
      exact ih.trans (Touch.pushed_prefix hlast hst')

end View

/-! ### Effects on one stream -/

/-- What an effect pushes to a stream. -/
def CellEffect.pushedTo (st : Nat) : CellEffect V → Option (Option V)
  | .enqueue st' x => if st' = st then some x else none
  | _ => none

theorem CellEffect.pushed_applyAll (es : List (CellEffect V)) (h : Heap V) (st : Nat) :
    (applyAll es h).pushed st = h.pushed st ++ es.filterMap (pushedTo st) := by
  induction es generalizing h with
  | nil => exact (List.append_nil _).symm
  | cons e es ih =>
      show (applyAll es (apply h e)).pushed st = _
      rw [ih]
      cases e with
      | complete f r => rfl
      | call callback invocation => rfl
      | enqueue st' x =>
          have hpushed : (apply h (.enqueue st' x)).pushed st
              = if st = st' then h.pushed st' ++ [x] else h.pushed st :=
            h.pushed_enqueue st' st x
          rw [hpushed]
          by_cases hst : st' = st
          · subst hst
            have hto : pushedTo st' (.enqueue st' x) = some x := if_pos rfl
            rw [if_pos rfl, List.filterMap_cons_some hto, List.append_assoc]
            rfl
          · have hto : pushedTo st (.enqueue st' x) = none := if_neg hst
            rw [if_neg (Ne.symm hst), List.filterMap_cons_none hto]

/-- Effects on other cells push nothing. -/
theorem CellEffect.filterMap_pushedTo_eq_nil {key : String} {entry : Option (Action V)} {st : Nat}
    {es : List (CellEffect V)} (hes : ∀ e ∈ es, ∃ b, entry = some b ∧ e.Within key b)
    (hentry : ∀ b, entry = some b → b.armed ≠ some (.stream st)) :
    es.filterMap (pushedTo st) = [] := by
  rw [List.filterMap_eq_nil_iff]
  intro e he
  obtain ⟨b, hb, hwithin⟩ := hes e he
  cases e with
  | complete f r => rfl
  | call callback invocation => rfl
  | enqueue st' x =>
      refine if_neg ?_
      rintro rfl
      exact hentry b hb hwithin

/-! ### Items -/

/-- The item that a record has for the stream under a key, if it is a stream item for the
key that the stream's type can read. -/
def RawMessage.item (S : Serde) (m : RawMessage) (key : String) (decode : DeserializeOwned V) :
    Option V :=
  if m.messageType = .streamItem ∧ m.routingKey S = some key then
    (deserialize S (StreamItem.decode decode) m.bytes m.protocol).toOption.map StreamItem.item
  else none

namespace Storage

/-- The item that an operation has for the stream under a key. -/
def item (S : Serde) (s : Storage V) (key : String) (decode : DeserializeOwned V) :
    StorageOp V → Option V
  | .processMessage m | .dispatch _ m => if s.poisoned then none else m.item S key decode
  | _ => none

/-- The items of a run before its first verdict. -/
def itemsBefore (S : Serde) (key : String) (decode : DeserializeOwned V) :
    Storage V → List (StorageOp V) → List V
  | _, [] => []
  | s, op :: ops =>
      if (s.verdict S key decode op).isSome then []
      else (s.item S key decode op).toList ++ itemsBefore S key decode (s.run S op) ops

/-- A stream that has not been ended has its action under a key. -/
structure Open (s : Storage V) (key : String) (a : EnumerableAction V) : Prop where
  get : s.get key = some (.enumerable a)
  live : none ∉ s.heap.pushed a.completer

/-- What a change brings to the stream under a key: its end, or else items, and then its
action stays in the map. -/
structure Brings (key : String) (a : EnumerableAction V) (ends : Prop) (items : List V)
    (s t : Storage V) : Prop where
  ended : ends → ∃ rest,
    t.heap.pushed a.completer = s.heap.pushed a.completer ++ none :: rest
  get : ¬ ends → t.get key = some (.enumerable a)
  pushed : ¬ ends →
    t.heap.pushed a.completer = s.heap.pushed a.completer ++ items.map some

variable {S : Serde} {capacity : Nat} {s t : Storage V} {key k : String}
  {a : EnumerableAction V} {m : RawMessage} {op : StorageOp V}

/-! ### One record -/

/-- What the action of a stream does with a record for its key. -/
theorem effects_enumerable (hkey : m.routingKey S = some key) :
    ((m.answer S key a.decode).isSome → m.messageType = .completion ∧
        ((Action.enumerable a).updateWith S m .empty).2.2 = .ok ∧
        (Action.enumerable a).effects S m = [.enqueue a.completer none]) ∧
      ((m.answer S key a.decode) = none →
        ¬ (m.messageType = .completion ∧
          ((Action.enumerable a).updateWith S m .empty).2.2 = .ok) ∧
        (Action.enumerable a).effects S m
          = (m.item S key a.decode).toList.map fun x => .enqueue a.completer (some x)) := by
  rw [RawMessage.answer, RawMessage.item]
  simp only [Action.updateWith, EnumerableAction.updateWith, Action.effects, hkey]
  rcases m.messageType
  case streamItem =>
    rcases deserialize S (StreamItem.decode a.decode) m.bytes m.protocol with e | x
    · simp [Except.toOption]
    · simp [Except.toOption]
  case completion =>
    rcases deserialize S (Completion.decode a.decode) m.bytes m.protocol with e | x
    · simp [Except.toOption]
    · simp [Except.toOption]
  all_goals simp

/-- The action of a stream is never changed by a record. -/
theorem updateWith_enumerable (S : Serde) (m : RawMessage) (a : EnumerableAction V) (h : Heap V) :
    ((Action.enumerable a).updateWith S m h).1 = .enumerable a := by
  simp only [Action.updateWith, EnumerableAction.updateWith]
  rcases m.messageType
  case streamItem => rcases deserialize S (StreamItem.decode a.decode) m.bytes m.protocol <;> rfl
  case completion => rcases deserialize S (Completion.decode a.decode) m.bytes m.protocol <;> rfl
  all_goals rfl

/-- The entry under another key has another cell. -/
theorem Open.armed_ne (ho : s.Open key a) (hi : s.view.Inv) (hk : k ≠ key) {b : Action V}
    (hb : s.get k = some b) : b.armed ≠ some (.stream a.completer) := by
  intro harmed
  refine hk (hi.unique k key (.stream a.completer) (hi.armed_cell k _ ?_) ?_)
  · rw [View.armedAt, view_get, hb]
    exact harmed
  · rw [View.cellAt, view_get, ho.get]
    rfl

/-- A change that the stream does not see. -/
theorem Open.spared (ho : s.Open key a) {ends : Prop} (hends : ¬ ends)
    (hget : t.get key = s.get key)
    (hpushed : t.heap.pushed a.completer = s.heap.pushed a.completer) :
    Brings key a ends [] s t where
  ended := fun h => absurd h hends
  get := fun _ => hget.trans ho.get
  pushed := fun _ => hpushed.trans (List.append_nil _).symm

/-- A record that is not routed to the key has no answer and no item for it. -/
theorem answer_of_ne (hkey : m.routingKey S ≠ some key) (decode : DeserializeOwned V) :
    m.answer S key decode = none ∧ m.item S key decode = none :=
  ⟨if_neg fun h => hkey h.2, if_neg fun h => hkey h.2⟩

/-- A record in one section. -/
theorem Open.dispatch (ho : s.Open key a) (hi : s.view.Inv) (hp : s.poisoned = false)
    (hkey : m.routingKey S = some k) :
    Brings key a (m.answer S key a.decode).isSome (m.item S key a.decode).toList s
      (s.update k (Action.updateWith S m)).1 := by
  by_cases hk : k = key
  swap
  · have hne : m.routingKey S ≠ some key := by simpa [hkey] using hk
    obtain ⟨hanswer, hitem⟩ := answer_of_ne hne a.decode
    rw [hanswer, hitem]
    rcases hget : s.get k with - | b
    · obtain ⟨action, -, haction, -⟩ | ⟨-, e, hu⟩ := s.update_cases k (Action.updateWith S m)
      · rw [hget] at haction
        simp at haction
      · rw [hu]
        exact ho.spared (by simp) rfl rfl
    · obtain ⟨hu, -⟩ := update_reacts (S := S) (m := m) hp hget
      refine ho.spared (by simp) (hu.get_of_ne (Ne.symm hk)) ?_
      rw [hu.heap, CellEffect.pushed_applyAll, CellEffect.filterMap_pushedTo_eq_nil
        (fun e he => ⟨b, rfl, Action.effects_within hkey b e he⟩), List.append_nil]
      exact fun b' hb' => ho.armed_ne hi hk (hget.trans hb')
  subst hk
  obtain ⟨hu, -⟩ := update_reacts (S := S) (m := m) hp ho.get
  obtain ⟨hends, hitems⟩ := effects_enumerable (a := a) hkey
  refine ⟨fun h => ⟨[], ?_⟩, fun _ => ?_, fun h => ?_⟩
  · rw [hu.heap, CellEffect.pushed_applyAll, (hends h).2.2]
    simp [CellEffect.pushedTo]
  · rw [hu.get, Function.update_self, updateWith_enumerable]
  · rw [hu.heap, CellEffect.pushed_applyAll, (hitems (by simpa using h)).2]
    rcases m.item S k a.decode with - | x
    · rfl
    · simp [CellEffect.pushedTo]

/-- A whole record. -/
theorem Open.processMessage (ho : s.Open key a) (hi : s.view.Inv) (hp : s.poisoned = false)
    (m : RawMessage) :
    Brings key a (m.answer S key a.decode).isSome (m.item S key a.decode).toList s
      (s.processMessage S m).1 := by
  rcases hkey : m.routingKey S with - | k
  · obtain ⟨o, -, h⟩ := processMessage_unrouted (V := V) hkey
    have hne : m.routingKey S ≠ some key := by simp [hkey]
    obtain ⟨hanswer, hitem⟩ := answer_of_ne hne a.decode
    rw [hanswer, hitem, h s]
    exact ho.spared (by simp) rfl rfl
  obtain ⟨hr, -⟩ := processMessage_reacts (S := S) hp hkey
  by_cases hk : k = key
  swap
  · have hne : m.routingKey S ≠ some key := by simpa [hkey] using hk
    obtain ⟨hanswer, hitem⟩ := answer_of_ne hne a.decode
    rw [hanswer, hitem]
    refine ho.spared (by simp) (hr.get_of_ne (Ne.symm hk)) ?_
    rw [hr.heap, CellEffect.pushed_applyAll, CellEffect.filterMap_pushedTo_eq_nil
      (fun e he => reaction_within hkey he), List.append_nil]
    exact fun b hb => ho.armed_ne hi hk hb
  subst hk
  obtain ⟨hends, hitems⟩ := effects_enumerable (a := a) hkey
  rw [ho.get, reaction] at hr
  refine ⟨fun h => ⟨[none], ?_⟩, fun h => ?_, fun h => ?_⟩
  · -- the completion ends the stream, and so does the drop of its action
    obtain ⟨hm, hok, heffects⟩ := hends h
    rw [if_pos ⟨hm, hok⟩] at hr
    rw [hr.heap, CellEffect.pushed_applyAll, heffects, updateWith_enumerable]
    simp [CellEffect.pushedTo, Action.dropEffects]
  · rw [if_neg (hitems (by simpa using h)).1] at hr
    rw [hr.get, Function.update_self, updateWith_enumerable]
  · obtain ⟨htaken, heffects⟩ := hitems (by simpa using h)
    rw [if_neg htaken] at hr
    rw [hr.heap, CellEffect.pushed_applyAll, heffects]
    rcases m.item S k a.decode with - | x
    · rfl
    · simp [CellEffect.pushedTo]

/-! ### The other operations -/

/-- An operation that is no record of a stream ends the stream if it takes the action out
of the map, and pushes nothing to it otherwise. -/
theorem Open.side (ho : s.Open key a) (hs : s.Sound S capacity) (hd : s.heap.Drained)
    (hen : s.enabled op) (hside : Side S op) {ends : Prop}
    (hgone : ends → (s.run S op).view.cellAt key = none)
    (hkept : ¬ ends → (s.run S op).get key = some (.enumerable a)) :
    Brings key a ends [] s (s.run S op) := by
  have hcloses := run_closes hs.view hd hs.queued hside
  have htouches := run_touches S hen
  have hadvances := View.Touches.advances htouches
  have hcell : s.view.cellAt key = some (.stream a.completer) := by
    rw [View.cellAt, view_get, ho.get]
    rfl
  have halloc := hs.view.allocated key _ hcell
  refine ⟨fun h => ?_, hkept, fun h => ?_⟩
  · have hended : (s.run S op).view.heap.Settled (.stream a.completer) := by
      refine (View.Touches.inv hs.view htouches).settled_of_not_held
        (hadvances.allocated _ halloc) fun k hk => ?_
      rcases hadvances.held k _ hk with hheld | hnew
      · obtain rfl := hs.view.unique k key _ hheld hcell
        rw [hgone h] at hk
        simp at hk
      · exact hnew halloc
    obtain ⟨n, hn⟩ := hcloses.ends a.completer
    -- the end is one of the markers that the operation has queued
    cases n with
    | zero =>
        have hmem : none ∈ (s.run S op).heap.pushed a.completer := hended
        rw [show (s.run S op).heap.pushed a.completer = _ from hn, List.replicate_zero,
          List.append_nil] at hmem
        exact absurd hmem ho.live
    | succ n => exact ⟨List.replicate n none, hn⟩
  · refine (hcloses.held key a.completer ?_).trans (List.append_nil _).symm
    rw [View.cellAt, view_get, hkept h]
    rfl

theorem cellAt_of_get (hget : t.get key = none) : t.view.cellAt key = none := by
  rw [View.cellAt, view_get, hget]
  rfl

theorem get_update_enumerable (hget : s.get key = some (.enumerable a)) (k : String)
    (m : RawMessage) : (s.update k (Action.updateWith S m)).1.get key = some (.enumerable a) := by
  obtain ⟨action, -, haction, hu⟩ | ⟨-, e, hu⟩ := s.update_cases k (Action.updateWith S m)
  · rw [hu]
    show (s.data.insert k _).lookup key = _
    by_cases hk : key = k
    · subst hk
      obtain rfl := Option.some.inj (haction.symm.trans hget)
      rw [AList.lookup_insert, updateWith_enumerable]
    · rw [AList.lookup_insert_ne hk]
      exact hget
  · rw [hu]
    exact hget

theorem get_deferMessage_enumerable (hget : s.get key = some (.enumerable a)) (k : String)
    (m : RawMessage) : (s.deferMessage S k m).1.get key = some (.enumerable a) := by
  obtain ⟨-, hd, -⟩ | ⟨-, -, hd⟩ | ⟨-, hd⟩ := s.deferMessage_cases S k m
  · rw [hd]
    exact get_update_enumerable hget k m
  · rw [hd]
    exact hget
  · rw [hd]
    exact hget

theorem get_replayDeferred_enumerable (hget : s.get key = some (.enumerable a)) (k : String) :
    (s.replayDeferred S k).1.get key = some (.enumerable a) := by
  rw [replayDeferred_eq_replay]
  apply replay_invariant (I := fun t => t.get key = some (.enumerable a))
  · exact fun m _ t ht => get_update_enumerable ht k m
  · exact hget

theorem get_dropHandle_eq (s : Storage V) (key : String) :
    s.dropHandle.get key = if s.strongCount = 1 then none else s.get key := by
  show (if s.strongCount = 1 then s.clear else s).get key = _
  split
  · exact get_clear s key
  · rfl

/-- **The step lemma.**  An operation with a verdict ends the stream; one without brings it
the item that it has for it, if any, and leaves its action in the map. -/
theorem Open.run (ho : s.Open key a) (hs : s.Sound S capacity) (hd : s.heap.Drained)
    (hrouted : Routed S s op) (hen : s.enabled op) :
    Brings key a (s.verdict S key a.decode op).isSome (s.item S key a.decode op).toList s
      (s.run S op) := by
  cases op with
  | processMessage m =>
      simp only [verdict, item, Storage.run]
      by_cases hp : s.poisoned
      · obtain ⟨o, -, h⟩ := processMessage_poisoned (V := V) S m
        rw [if_pos hp, if_pos hp, h s hp]
        exact ho.spared (by simp) rfl rfl
      · rw [if_neg hp, if_neg hp]
        exact ho.processMessage hs.view (by simpa using hp) m
  | dispatch k m =>
      simp only [verdict, item, Storage.run]
      by_cases hp : s.poisoned
      · rw [if_pos hp, if_pos hp, update_of_poisoned hp]
        exact ho.spared (by simp) rfl rfl
      · rw [if_neg hp, if_neg hp]
        exact ho.dispatch hs.view (by simpa using hp) hrouted
  | createKey target => exact ho.side hs hd hen trivial (by simp [verdict]) fun _ => ho.get
  | addInvocation id decode =>
      refine ho.side hs hd hen trivial (by simp [verdict]) fun _ => ?_
      have hget : ({ s with heap := (InvocationAction.new id decode s.heap).2 } : Storage V).get key
        = some (.enumerable a) := ho.get
      exact get_insert_of_some hget _
  | addStream id decode =>
      refine ho.side hs hd hen trivial (by simp [verdict]) fun _ => ?_
      have hget : ({ s with heap := (EnumerableAction.new id decode s.heap).2 } : Storage V).get key
        = some (.enumerable a) := ho.get
      exact get_insert_of_some hget _
  | addCallback target callback =>
      refine ho.side hs hd hen trivial (by simp [verdict]) fun _ => ?_
      exact get_replayDeferred_enumerable (get_insert_of_some ho.get _) target
  | deferMessage k m =>
      exact ho.side hs hd hen hrouted (by simp [verdict]) fun _ =>
        get_deferMessage_enumerable ho.get k m
  | replayDeferred k =>
      exact ho.side hs hd hen trivial (by simp [verdict]) fun _ =>
        get_replayDeferred_enumerable ho.get k
  | insertCallback target callback =>
      exact ho.side hs hd hen trivial (by simp [verdict]) fun _ => get_insert_of_some ho.get _
  | cancelPending reason =>
      refine ho.side hs hd hen trivial (fun h => ?_) fun h => ?_
      · have hp : s.poisoned = false := by simpa [verdict] using h
        exact cellAt_cancelPending hp reason key
      · have hp : s.poisoned = true := by simpa [verdict] using h
        rw [Storage.run, Storage.cancelPending, if_pos hp]
        exact ho.get
  | remove k =>
      refine ho.side hs hd hen trivial (fun h => ?_) fun h => ?_
      · obtain ⟨hp, rfl⟩ : s.poisoned = false ∧ k = key := by simpa [verdict] using h
        exact cellAt_of_get (get_remove_self s k hp)
      · have hk : ¬ (s.poisoned = false ∧ k = key) := by simpa [verdict] using h
        exact (get_remove_of_not hk).trans ho.get
  | cleanup k =>
      refine ho.side hs hd hen trivial (fun h => ?_) fun h => ?_
      · apply cellAt_of_get
        show (s.remove k).dropHandle.get key = none
        rw [get_dropHandle_eq]
        have hcases : s.poisoned = false ∧ k = key ∨ (s.remove k).strongCount = 1 := by
          simpa [verdict] using h
        rcases hcases with ⟨hp, rfl⟩ | hlast
        · rw [get_remove_self s k hp, ite_self]
        · exact if_pos hlast
      · have hneither : ¬ (s.poisoned = false ∧ k = key ∨ (s.remove k).strongCount = 1) := by
          simpa [verdict] using h
        show (s.remove k).dropHandle.get key = _
        rw [get_dropHandle_eq, if_neg fun hlast => hneither (.inr hlast),
          get_remove_of_not fun hk => hneither (.inl hk)]
        exact ho.get
  | clone => exact ho.side hs hd hen trivial (by simp [verdict]) fun _ => ho.get
  | dropHandle =>
      refine ho.side hs hd hen trivial (fun h => ?_) fun h => ?_
      · have hlast : s.strongCount = 1 := by simpa [verdict] using h
        exact cellAt_of_get ((get_dropHandle_eq s key).trans (if_pos hlast))
      · have hmore : s.strongCount ≠ 1 := by simpa [verdict] using h
        exact ((get_dropHandle_eq s key).trans (if_neg hmore)).trans ho.get
  | pollFuture g w => exact ho.side hs hd hen trivial (by simp [verdict]) fun _ => ho.get
  | pollStream st w => exact ho.side hs hd hen trivial (by simp [verdict]) fun _ => ho.get

/-! ### Runs -/

/-- A stream that is fed stays open. -/
theorem Open.kept (ho : s.Open key a) {ends : Prop} {items : List V}
    (hb : Brings key a ends items s t) (hends : ¬ ends) : t.Open key a where
  get := hb.get hends
  live := by
    rw [hb.pushed hends, List.mem_append]
    rintro (h | h)
    · exact ho.live h
    · simp at h

theorem drained_of_run {ops : List (StorageOp V)} (hd : s.heap.Drained)
    (hs : s.Sound S capacity) (hrun : Run (step S) (Routed S) s ops t) : t.heap.Drained := by
  refine (hrun.invariant (I := fun u => u.Sound S capacity ∧ u.heap.Drained) ⟨hs, hd⟩
    fun u op v hu hrouted hst => ?_).2
  obtain ⟨hen, rfl⟩ := guard_of_eq_some hst
  exact ⟨hu.1.run hrouted hen, View.Touches.drained (run_touches S hen) hu.1.view hu.2⟩

theorem drained_of_reaches
    (h : Reaches (step S) (Routed S) (newWithDeferredMessageCapacity capacity) s) :
    s.heap.Drained := by
  obtain ⟨ops, hrun⟩ := h
  exact drained_of_run Heap.drained_empty (sound_of_reaches (.refl _)) hrun

theorem pushed_prefix_of_run {ops : List (StorageOp V)} {st : Nat}
    (hrun : Run (step S) (Routed S) s ops t) (hst : st < s.heap.streamCount) :
    s.heap.pushed st <+: t.heap.pushed st := by
  refine (hrun.invariant (I := fun u =>
    st < u.heap.streamCount ∧ s.heap.pushed st <+: u.heap.pushed st) ⟨hst, List.prefix_rfl⟩
    fun u op v hu hrouted hst => ?_).2
  obtain ⟨hen, rfl⟩ := guard_of_eq_some hst
  have htouches := run_touches S hen
  exact ⟨(View.Touches.advances htouches).allocated (.stream st) hu.1,
    hu.2.trans (View.Touches.pushed_prefix htouches hu.1)⟩

theorem Open.allocated (ho : s.Open key a) (hi : s.view.Inv) :
    a.completer < s.heap.streamCount := by
  refine hi.allocated key (.stream a.completer) ?_
  rw [View.cellAt, view_get, ho.get]
  rfl

/-- **The run lemma.**  What has been pushed before the first end are the items of the run
before its first verdict, and there is an end exactly if there is a verdict. -/
theorem Open.run_items {ops : List (StorageOp V)} (ho : s.Open key a) (hs : s.Sound S capacity)
    (hd : s.heap.Drained) (hrun : Run (step S) (Routed S) s ops t) :
    beforeEnd (t.heap.pushed a.completer)
        = beforeEnd (s.heap.pushed a.completer) ++ itemsBefore S key a.decode s ops ∧
      (none ∈ t.heap.pushed a.completer ↔ (firstVerdict S key a.decode s ops).isSome) := by
  induction hrun with
  | nil s => exact ⟨(List.append_nil _).symm, iff_of_false ho.live (by simp [firstVerdict])⟩
  | @cons s u t op ops hrouted hst hrest ih =>
      obtain ⟨hen, rfl⟩ := guard_of_eq_some hst
      have hstep := ho.run hs hd hrouted hen
      have hs' := hs.run hrouted hen
      rw [itemsBefore, firstVerdict]
      by_cases hends : (s.verdict S key a.decode op).isSome
      · -- whatever comes after the first end, the consumer does not see it
        obtain ⟨rest, hrest'⟩ := hstep.ended hends
        have halloc := (View.Touches.advances (run_touches S hen)).allocated
          (.stream a.completer) (ho.allocated hs.view)
        obtain ⟨later, hlater⟩ := pushed_prefix_of_run hrest halloc
        rw [if_pos hends, List.append_nil, ← hlater, hrest', List.append_assoc,
          beforeEnd_append_of_not_mem ho.live]
        refine ⟨List.append_nil _, iff_of_true ?_ ?_⟩
        · exact List.mem_append_right _ List.mem_cons_self
        · obtain ⟨r, hr⟩ := Option.isSome_iff_exists.mp hends
          rw [hr]
          rfl
      · obtain ⟨hitems, hended⟩ := ih (ho.kept hstep hends) hs'
          (View.Touches.drained (run_touches S hen) hs.view hd)
        have hnone : s.verdict S key a.decode op = none := by simpa using hends
        rw [if_neg hends, hitems, hended, hnone, hstep.pushed hends,
          beforeEnd_append_of_not_mem ho.live, beforeEnd_map_some, List.append_assoc]
        exact ⟨rfl, Iff.rfl⟩

end Storage

/-! ### The client -/

namespace Client

variable {C : Config} {allowed : Client V → Label V → Prop} {s t u : Client V} {l : Label V}
  {ls : List (Label V)} {key : String} {decode : DeserializeOwned V} {c : Nat}

/-- The item that a step has for the stream under a key: that of the record which a reader
passes to the storage. -/
def item (C : Config) (s : Client V) (key : String) (decode : DeserializeOwned V) :
    Label V → Option V
  | .connection g .dispatch =>
      match (s.connections g).reader with
      | .running (m :: _) => if s.store.poisoned then none else m.item C.serde key decode
      | _ => none
  | _ => none

/-- The items of a run before its first verdict. -/
def itemsBefore (C : Config) (key : String) (decode : DeserializeOwned V) :
    Client V → List (Label V) → List V
  | _, [] => []
  | s, l :: ls =>
      if (s.verdict C key decode l).isSome then []
      else (s.item C key decode l).toList ++
        (step C s l).elim [] fun t => itemsBefore C key decode t ls

/-- A step has the item of its operation. -/
theorem item_eq (C : Config) (s : Client V) (key : String) (decode : DeserializeOwned V)
    (l : Label V) :
    s.item C key decode l = (s.operation l).bind (s.store.item C.serde key decode) := by
  cases l with
  | call c l =>
      cases l with
      | insert decode =>
          rw [operation]
          cases (s.calls c).kind with
          | _ => rfl
      | remove =>
          rw [operation]
          split
          · rfl
          · rfl
      | poll w | pollStream w =>
          rw [operation]
          split
          · rfl
          · rfl
      | _ => rfl
  | connection g l =>
      cases l with
      | dispatch =>
          rw [operation, item]
          rcases (s.connections g).reader with - | (- | ⟨m, rest⟩) | - | - | -
          all_goals rfl
      | _ => rfl
  | monitor l =>
      cases l with
      | cancel =>
          rw [operation]
          split
          · rfl
          · rfl
      | _ => rfl
  | disconnect d l =>
      cases l with
      | _ => rfl
  | user l =>
      cases l with
      | _ => rfl

/-- The items of a run are those of its operations. -/
theorem itemsBefore_operations (key : String) (decode : DeserializeOwned V)
    (hrun : Run (step C) allowed s ls t) :
    Storage.itemsBefore C.serde key decode s.store (operations C s ls)
      = itemsBefore C key decode s ls := by
  induction hrun with
  | nil s => rfl
  | @cons s u t l ls _ hst _ ih =>
      have hafter := step_after hst
      rw [itemsBefore, operations, hst, verdict_eq, item_eq, Option.elim_some, Option.elim_some,
        ← ih]
      rcases hop : s.operation l with - | op
      · rw [hop] at hafter
        rw [show u.store = s.store from hafter]
        rfl
      · rw [hop] at hafter
        rw [show u.store = s.store.run C.serde op from hafter]
        rfl

/-- The insertion of a stream. -/
theorem insert_enumerate (hkind : (s.calls c).kind = .enumerate)
    (h : step C s (.call c (.insert decode)) = some t) :
    (t.calls c).cell = some (.stream s.store.heap.streamCount) ∧
      t.store = s.store.addStream (s.calls c).key decode := by
  replace h : s.callStep c (.insert decode) = some t := h
  cases callStep_transition h with
  | insertStream => exact ⟨congrArg Call.cell (setCall_self _ c _), rfl⟩
  | insertFuture _ hother => exact absurd hkind hother

/-- An inserted stream is open, and nothing has been pushed to it. -/
theorem open_addStream (decode : DeserializeOwned V) {store : Storage V}
    (hp : store.poisoned = false) (hfree : store.get key = none) :
    (store.addStream key decode).Open key (EnumerableAction.new key decode store.heap).1 ∧
      (store.addStream key decode).heap.pushed store.heap.streamCount = [] := by
  have hheap : (store.addStream key decode).heap = store.heap.newStream := by
    rw [Storage.addStream]
    obtain ⟨-, -, hinsert⟩ | ⟨hrefused, -⟩ :=
      Storage.insert_cases { store with heap := (EnumerableAction.new key decode store.heap).2 }
        key (.enumerable (EnumerableAction.new key decode store.heap).1)
    · rw [hinsert]
      rfl
    · have hfree' : ({ store with heap := (EnumerableAction.new key decode store.heap).2 } :
          Storage V).get key = none := hfree
      rcases hrefused with h | h
      · exact absurd h (by simp [hp])
      · rw [hfree'] at h
        simp at h
  have hnil : (store.addStream key decode).heap.pushed store.heap.streamCount = [] := by
    rw [hheap]
    show (Function.update store.heap.streams store.heap.streamCount .new _).pushed = []
    rw [Function.update_self]
    rfl
  refine ⟨⟨?_, ?_⟩, hnil⟩
  · have hget := Storage.get_insert_self
      (s := { store with heap := (EnumerableAction.new key decode store.heap).2 }) hp hfree
    exact hget _
  · show none ∉ (store.addStream key decode).heap.pushed store.heap.streamCount
    rw [hnil]
    exact List.not_mem_nil

/-- A refused stream is ended at once. -/
theorem pushed_addStream_refused (decode : DeserializeOwned V) {store : Storage V}
    (hrefused : ¬ (store.poisoned = false ∧ store.get key = none)) :
    store.heap.streamCount < (store.addStream key decode).heap.streamCount ∧
      (store.addStream key decode).heap.pushed store.heap.streamCount = [none] := by
  rw [Storage.addStream]
  obtain ⟨hp, hfree, -⟩ | ⟨-, hinsert⟩ :=
    Storage.insert_cases { store with heap := (EnumerableAction.new key decode store.heap).2 } key
      (.enumerable (EnumerableAction.new key decode store.heap).1)
  · exact absurd ⟨hp, hfree⟩ hrefused
  · rw [hinsert]
    refine ⟨Nat.lt_succ_self _, ?_⟩
    show ((store.heap.newStream.enqueue store.heap.streamCount none).streams
      store.heap.streamCount).pushed = _
    rw [Heap.pushed_enqueue, if_pos rfl]
    show (Function.update store.heap.streams store.heap.streamCount .new _).pushed ++ _ = _
    rw [Function.update_self]
    rfl

/-- **What a stream yields.**  In every run of the client, whatever its parties do and in
whichever order: what the consumer of an `enumerate` that entered the map has received and
has still to receive before the first end are the items for its key that the readers come
to before the first verdict on the call, in order, and an end comes exactly if there is a
verdict.  A stream whose key is taken, or that finds the mutex poisoned, ends at once. -/
theorem stream_decided {before after : List (Label V)}
    (hbefore : Run (step C) allowed (init C) before s) (hkind : (s.calls c).kind = .enumerate)
    (hinsert : step C s (.call c (.insert decode)) = some u)
    (hafter : Run (step C) allowed u after t) :
    ∃ st, (u.calls c).cell = some (.stream st) ∧
      (s.store.poisoned = false ∧ s.store.get (s.calls c).key = none →
        beforeEnd (t.store.heap.yielded st) = itemsBefore C (s.calls c).key decode u after ∧
          (none ∈ t.store.heap.yielded st ↔
            (firstVerdict C (s.calls c).key decode u after).isSome) ∧
          beforeEnd (t.store.heap.received st)
            <+: itemsBefore C (s.calls c).key decode u after ∧
          (none ∈ t.store.heap.received st →
            beforeEnd (t.store.heap.received st)
              = itemsBefore C (s.calls c).key decode u after)) ∧
      (¬ (s.store.poisoned = false ∧ s.store.get (s.calls c).key = none) →
        none ∈ t.store.heap.yielded st ∧ beforeEnd (t.store.heap.yielded st) = []) := by
  obtain ⟨hcell, hstore⟩ := insert_enumerate hkind hinsert
  obtain ⟨hruns, hreaches⟩ := inserted_runs hbefore hinsert
  have hsound := Storage.sound_of_reaches hreaches
  have hdrained := Storage.drained_of_reaches hreaches
  have hops := run_refines hruns hafter
  have haccount := (Storage.drained_of_run hdrained hsound hops).yielded_eq
    s.store.heap.streamCount
  refine ⟨_, hcell, ?_, ?_⟩
  · rintro ⟨hp, hfree⟩
    obtain ⟨hopen, hnil⟩ := open_addStream decode hp hfree
    rw [← hstore] at hopen hnil
    obtain ⟨hitems, hended⟩ := hopen.run_items hsound hdrained hops
    have hall : beforeEnd (t.store.heap.yielded s.store.heap.streamCount)
        = itemsBefore C (s.calls c).key decode u after := by
      rw [haccount, ← itemsBefore_operations _ _ hafter]
      refine hitems.trans ?_
      show beforeEnd (u.store.heap.pushed s.store.heap.streamCount) ++ _ = _
      rw [hnil]
      rfl
    have hreceived := t.store.heap.beforeEnd_received s.store.heap.streamCount
    rw [hall] at hreceived
    refine ⟨hall, ?_, hreceived⟩
    rw [haccount, ← firstVerdict_operations _ _ hafter]
    exact hended
  · intro hrefused
    obtain ⟨hst, hend⟩ := pushed_addStream_refused decode hrefused
    rw [← hstore] at hst hend
    obtain ⟨rest, hrest⟩ := Storage.pushed_prefix_of_run hops hst
    rw [hend] at hrest
    rw [haccount, ← hrest]
    exact ⟨List.mem_cons_self, rfl⟩

/-- A client whose server streams the item 7. -/
def feedConfig : Config :=
  { sample with serde := Items.feedSerde }

/-- It is about to put its stream into the map. -/
def feedCreated : Client Int :=
  (init feedConfig).createKey 0 .enumerate "feed"

/-- One frame: the item, the completion, and the item again. -/
def feedFrame : Frame :=
  { fin := true, opcode := .binary, payload := [1, separatorByte, 2, separatorByte, 1] }

theorem frameCalls_feedFrame :
    frameCalls Items.feedSerde .messagePack feedFrame
      = [⟨[1], .streamItem, .messagePack⟩, ⟨[2], .completion, .messagePack⟩,
        ⟨[1], .streamItem, .messagePack⟩] := by
  have hsplit : getMessagesBinary feedFrame.payload = [[1], [2], [1]] := by
    rw [getMessagesBinary_eq]
    rfl
  show (getMessagesBinary feedFrame.payload).filterMap _ = _
  rw [hsplit]
  rfl

/-- The consumer polls between the records. -/
def feedLabels : List (Label Int) :=
  [.call 0 .lookup, .call 0 .offer, .connection 1 (.readFrame feedFrame)] ++
    [.connection 1 .dispatch, .call 0 (.pollStream 7), .connection 1 .dispatch,
      .connection 1 .dispatch, .call 0 (.pollStream 7)]

theorem stream_decided_feed :
    ∃ (t : Client Int) (st : Nat),
      t.store.heap.received st = [some 7, none] ∧
      (none ∈ t.store.heap.received st →
        beforeEnd (t.store.heap.received st)
          = itemsBefore feedConfig "feed_1" .i64
              (feedCreated.insertAction 0 .i64) feedLabels) := by
  have hbefore : Run (step feedConfig) free (init feedConfig) [.call 0 (.enumerate "feed")]
      feedCreated :=
    .single trivial rfl
  have hread : ∀ s : Client Int, (s.connections 1).reader = .running [] →
      step feedConfig s (.connection 1 (.readFrame feedFrame))
        = some (s.setConnection 1 { s.connections 1 with
            reader := .running [⟨[1], .streamItem, .messagePack⟩,
              ⟨[2], .completion, .messagePack⟩, ⟨[1], .streamItem, .messagePack⟩] }) := by
    intro s hs
    rw [← frameCalls_feedFrame]
    exact if_pos hs
  have hafter : Run (step feedConfig) free (feedCreated.insertAction 0 .i64) feedLabels _ :=
    .cons trivial rfl <| .cons trivial rfl <| .cons trivial (hread _ rfl) <|
      run_free_iff_exec.mpr rfl
  obtain ⟨st, hcell, hentered, -⟩ := stream_decided (c := 0) hbefore rfl rfl hafter
  obtain rfl : 0 = st := Cell.stream.inj (Option.some.inj hcell)
  exact ⟨_, 0, rfl, (hentered ⟨rfl, rfl⟩).2.2.2⟩

end Client

/-! ### From text frames to consumers -/

namespace Storage

variable {S : Serde} {s : Storage V} {key : String} {a : EnumerableAction V} {m : RawMessage}

/-- **The run lemma of a reader.**  Up to the first record that ends it, a stream is fed the
items that the records have for it. -/
theorem Open.processAll {before : List RawMessage} (ho : s.Open key a) (hi : s.view.Inv)
    (hbefore : ∀ x ∈ before, x.answer S key a.decode = none)
    (hcalm : (s.processAll S before).poisoned = false)
    (hend : (m.answer S key a.decode).isSome) (after : List RawMessage) :
    ∃ rest, (s.processAll S (before ++ m :: after)).heap.pushed a.completer
      = s.heap.pushed a.completer
        ++ (before.filterMap fun x => x.item S key a.decode).map some ++ none :: rest := by
  induction before generalizing s with
  | nil =>
      obtain ⟨rest, hrest⟩ := (ho.processMessage (S := S) hi hcalm m).ended hend
      have halloc := (View.Touches.advances (processMessage_touches S s m)).allocated
        (.stream a.completer) (ho.allocated hi)
      obtain ⟨later, hlater⟩ := View.Touches.pushed_prefix
        (foldl_touches (fun s m => processMessage_touches S s m) after (s.processMessage S m).1)
        halloc
      refine ⟨rest ++ later, ?_⟩
      show ((s.processMessage S m).1.processAll S after).heap.pushed a.completer = _
      rw [show ((s.processMessage S m).1.processAll S after).heap.pushed a.completer = _ from
        hlater.symm, show (s.processMessage S m).1.view.heap.pushed a.completer = _ from hrest]
      simp
  | cons x before ih =>
      have hp : s.poisoned = false := calm_of_processAll hcalm
      have hnone := hbefore x List.mem_cons_self
      have hfed := ho.processMessage (S := S) hi hp x
      have hends : ¬ (x.answer S key a.decode).isSome := by simp [hnone]
      obtain ⟨rest, hrest⟩ := ih (ho.kept hfed hends)
        (View.Touches.inv hi (processMessage_touches S s x))
        (fun y hy => hbefore y (List.mem_cons_of_mem x hy)) hcalm
      refine ⟨rest, ?_⟩
      rw [List.cons_append, processAll_cons, hrest, hfed.pushed hends]
      rcases hx : x.item S key a.decode with - | v
      · simp [hx]
      · simp [hx]

end Storage

namespace Piece

variable {S : Serde} {T : Serializer Value} {key : String} {decode : DeserializeOwned V}

/-- The record has an item or an end for the stream under a key. -/
def concerns (S : Serde) (key : String) (decode : DeserializeOwned V) (p : Piece V) : Bool :=
  (p.calls S).any fun m => (m.item S key decode).isSome || (m.answer S key decode).isSome

/-- A stream item for the key is one record, which has its item and no end. -/
theorem calls_streamItem {payload : Payload V} {i : StreamItem V} {text : String}
    (h : Valid S T (.message (.streamItem payload i) text)) (htype : i.type = .streamItem) :
    RawMessage.item S ⟨asBytes text, i.type, .json⟩ i.invocationId payload.decode = some i.item ∧
      RawMessage.answer S ⟨asBytes text, i.type, .json⟩ i.invocationId payload.decode
        = none := by
  obtain ⟨possible, hpossible, hid⟩ := (seen h).routed
  have hread : deserialize S (StreamItem.decode payload.decode) (asBytes text) .json = .ok i :=
    (seen h).readBack
  have hkey : RawMessage.routingKey S ⟨asBytes text, i.type, .json⟩ = some i.invocationId := by
    rw [RawMessage.routingKey, htype]
    show (deserialize S PossibleInvocation.decode (asBytes text) .json).toOption.bind _ = _
    rw [hpossible]
    exact hid
  constructor
  · rw [RawMessage.item, if_pos ⟨htype, hkey⟩, hread]
    rfl
  · refine if_neg fun hanswer => ?_
    have htype' : i.type = .completion := hanswer.1
    rw [htype] at htype'
    exact MessageType.noConfusion htype'

/-- Records that do not concern the stream have nothing for it. -/
theorem filterMap_item_filter (pieces : List (Piece V)) :
    (pieces.flatMap (calls S)).filterMap (fun m => m.item S key decode)
      = ((pieces.filter (concerns S key decode)).flatMap (calls S)).filterMap
          fun m => m.item S key decode := by
  induction pieces with
  | nil => rfl
  | cons p pieces ih =>
      rw [List.flatMap_cons, List.filterMap_append, ih, List.filter_cons]
      split
      · rw [List.flatMap_cons, List.filterMap_append]
      · rename_i hnot
        have hnone : (p.calls S).filterMap (fun m => m.item S key decode) = [] := by
          rw [List.filterMap_eq_nil_iff]
          intro m hm
          by_contra hsome
          refine hnot (List.any_eq_true.mpr ⟨m, hm, ?_⟩)
          rw [Option.isSome_iff_ne_none.mpr hsome, Bool.true_or]
        rw [hnone, List.nil_append]

/-- Stream items for the key have their items for it. -/
theorem filterMap_item_items {payload : Payload V} {items : List (StreamItem V × String)}
    (h : ∀ i ∈ items, Valid S T (.message (.streamItem payload i.1) i.2) ∧
      i.1.type = .streamItem ∧ i.1.invocationId = key) :
    ((items.map fun i => Piece.message (.streamItem payload i.1) i.2).flatMap (calls S)).filterMap
        (fun m => m.item S key payload.decode)
      = items.map fun i => i.1.item := by
  induction items with
  | nil => rfl
  | cons i items ih =>
      obtain ⟨hvalid, htype, rfl⟩ := h i List.mem_cons_self
      rw [List.map_cons, List.flatMap_cons, List.filterMap_append,
        ih fun j hj => h j (List.mem_cons_of_mem i hj)]
      have hcalls : (message (.streamItem payload i.1) i.2).calls S
          = [⟨asBytes i.2, i.1.type, .json⟩] := rfl
      simp [hcalls, (calls_streamItem hvalid htype).1]

/-- Where only stream items concern the stream, no record answers the call. -/
theorem answer_of_filter {payload : Payload V} {items : List (StreamItem V × String)}
    {pieces : List (Piece V)}
    (hfilter : pieces.filter (concerns S key payload.decode)
      = items.map fun i => .message (.streamItem payload i.1) i.2)
    (h : ∀ i ∈ items, Valid S T (.message (.streamItem payload i.1) i.2) ∧
      i.1.type = .streamItem ∧ i.1.invocationId = key) :
    ∀ x ∈ pieces.flatMap (calls S), x.answer S key payload.decode = none := by
  intro x hx
  obtain ⟨p, hp, hx⟩ := List.mem_flatMap.mp hx
  by_contra hne
  have hconcerns : p.concerns S key payload.decode = true := by
    refine List.any_eq_true.mpr ⟨x, hx, ?_⟩
    rw [Option.isSome_iff_ne_none.mpr hne, Bool.or_true]
  -- the record would be one of the items
  have hmem := List.mem_filter.mpr ⟨hp, hconcerns⟩
  rw [hfilter] at hmem
  obtain ⟨i, hi, rfl⟩ := List.mem_map.mp hmem
  obtain rfl := List.mem_singleton.mp hx
  obtain ⟨hvalid, htype, rfl⟩ := h i hi
  exact hne (calls_streamItem hvalid htype).2

end Piece

/-- **A server's stream reaches its consumer.**  An `enumerate` asks for a stream under its
key.  However valid records are grouped into text frames, if the records for the stream
before its completion are stream items, and no callback has panicked by then, its consumer
gets those items in order, and then the end. -/
theorem items_reach_consumer {S : Serde} {T : Serializer Value} (protocol : Protocol)
    (hempty : S.fromStr "" = none) {capacity : Nat} {s : Storage V}
    (h : Reaches (Storage.step S) (Storage.Routed S)
      (Storage.newWithDeferredMessageCapacity capacity) s)
    {key : String} {a : EnumerableAction V} (ho : s.Open key a)
    {target : String} {configuration : Option (List (Except String Value))} {m : Invocation}
    (hm : request .enumerate target key configuration = some m) :
    (m.type = .streamInvocation ∧ m.id = some key) ∧
      ∀ (payload : Payload V) (items : List (StreamItem V × String)) (c : Completion V)
        (text : String) (frames : List (List (Piece V))) (before after : List (Piece V)),
        payload.decode = a.decode → (∀ pieces ∈ frames, ∀ p ∈ pieces, p.Valid S T) →
        (∀ i ∈ items, i.1.type = .streamItem ∧ i.1.invocationId = key) →
        c.type = .completion ∧ c.invocationId = key →
        frames.flatten = before ++ .message (.completion payload c) text :: after →
        before.filter (Piece.concerns S key a.decode)
          = items.map (fun i => .message (.streamItem payload i.1) i.2) →
        (s.processAll S (before.flatMap (Piece.calls S))).poisoned = false →
        ∃ rest,
          (s.processAll S (readerCalls S protocol (frames.map textFrame))).heap.yielded
              a.completer
            = s.heap.yielded a.completer ++ items.map (fun i => some i.1.item)
              ++ none :: rest := by
  rw [request_eq] at hm
  obtain rfl := Option.some.inj hm
  refine ⟨⟨rfl, rfl⟩, ?_⟩
  intro payload items c text frames before after hdecode hvalid hitems hc hflat hfilter hcalm
  have hall : ∀ p ∈ before ++ .message (.completion payload c) text :: after, p.Valid S T := by
    intro p hp
    rw [← hflat] at hp
    obtain ⟨pieces, hpieces, hp⟩ := List.mem_flatten.mp hp
    exact hvalid pieces hpieces p hp
  have hend : (RawMessage.answer S ⟨asBytes text, c.type, .json⟩ key a.decode).isSome := by
    have hanswer := Piece.answer_completion
      (hall _ (List.mem_append_right _ List.mem_cons_self)) hc.1
    rw [← hc.2, ← hdecode, hanswer]
    rfl
  have hmine : ∀ i ∈ items, Piece.Valid S T (.message (.streamItem payload i.1) i.2) ∧
      i.1.type = .streamItem ∧ i.1.invocationId = key := by
    intro i hi
    refine ⟨hall _ (List.mem_append_left _ (List.mem_of_mem_filter
      (p := Piece.concerns S key a.decode) ?_)), hitems i hi⟩
    rw [hfilter]
    exact List.mem_map_of_mem hi
  have hbefore : ∀ x ∈ before.flatMap (Piece.calls S), x.answer S key a.decode = none := by
    rw [← hdecode] at hfilter ⊢
    exact Piece.answer_of_filter hfilter hmine
  have hfed : (before.flatMap (Piece.calls S)).filterMap (fun x => x.item S key a.decode)
      = items.map fun i => i.1.item := by
    rw [Piece.filterMap_item_filter, hfilter, ← hdecode]
    exact Piece.filterMap_item_items hmine
  have hi := (Storage.sound_of_reaches h).view
  have hd := Storage.drained_of_reaches h
  obtain ⟨rest, hrest⟩ := ho.processAll hi hbefore hcalm hend (after.flatMap (Piece.calls S))
  refine ⟨rest, ?_⟩
  have hcalls : readerCalls S protocol (frames.map textFrame)
      = before.flatMap (Piece.calls S)
        ++ ⟨asBytes text, c.type, .json⟩ :: after.flatMap (Piece.calls S) := by
    rw [readerCalls_textFrames protocol hempty hvalid, hflat, List.flatMap_append]
    rfl
  rw [hd.yielded_eq, hcalls, Heap.Drained.yielded_eq, hrest, hfed]
  · simp
  · exact View.Touches.drained
      (Storage.foldl_touches (fun s m => Storage.processMessage_touches S s m) _ s) hi hd

/-- The item 7 of the stream `feed_1`, and the end of the stream, as they are written. -/
def sevenText : String :=
  "\x7b\"type\":2,\"invocationId\":\"feed_1\",\"item\":7\x7d"

def doneText : String :=
  "\x7b\"type\":3,\"invocationId\":\"feed_1\"\x7d"

def sevenSerde : Serde :=
  .ofTable
    [(sevenText, .obj [("type", .int 2), ("invocationId", .str "feed_1"), ("item", .int 7)]),
      (doneText, .obj [("type", .int 3), ("invocationId", .str "feed_1")])] []

def sevenWriter : Serializer Value where
  toStr
    | .obj [("type", .int 2), ("invocationId", .str "feed_1"), ("item", .int 7)] => .ok sevenText
    | .obj [("type", .int 3), ("invocationId", .str "feed_1")] => .ok doneText
    | _ => .error "unsupported"
  toVec _ := .error "unsupported"

def feedItem : StreamItem Int where
  type := .streamItem
  headers := none
  invocationId := "feed_1"
  item := 7

def feedDone : Completion Int where
  type := .completion
  headers := none
  invocationId := "feed_1"
  result := none
  error := none

/-- The storage of a consumer of `feed`. -/
def feedConsumer : Storage Int :=
  (Storage.newWithDeferredMessageCapacity 8).run sevenSerde (.addStream "feed_1" .i64)

/-- Two frames: the item, and then a record that is not JSON, and the end. -/
def sevenFrames : List (List (Piece Int)) :=
  [[.message (.streamItem intPayload feedItem) sevenText],
    [.foreign "oops", .message (.completion intPayload feedDone) doneText]]

theorem sevenFrames_valid :
    ∀ pieces ∈ sevenFrames, ∀ p ∈ pieces, p.Valid sevenSerde sevenWriter := by
  intro pieces hpieces p hp
  rcases List.mem_pair.mp hpieces with rfl | rfl
  · rw [List.mem_singleton.mp hp]
    exact ⟨rfl, rfl, rfl, by decide⟩
  · rcases List.mem_pair.mp hp with rfl | rfl
    · show recordSeparator ∉ "oops".toList
      decide
    · exact ⟨nofun, rfl, rfl, by decide⟩

theorem items_reach_consumer_seven :
    ∃ rest, (feedConsumer.processAll sevenSerde
        (readerCalls sevenSerde .json (sevenFrames.map textFrame))).heap.yielded 0
      = some 7 :: none :: rest := by
  have hreach : Reaches (Storage.step sevenSerde) (Storage.Routed sevenSerde)
      (Storage.newWithDeferredMessageCapacity 8) feedConsumer :=
    .head (.addStream "feed_1" .i64) trivial rfl (.refl _)
  have hopen : feedConsumer.Open "feed_1" (EnumerableAction.new "feed_1" .i64 .empty).1 :=
    ⟨rfl, List.not_mem_nil⟩
  have hrequest : request .enumerate "feed" "feed_1" none
      = some (.start "feed" "feed_1" .enumerate) := rfl
  obtain ⟨-, hfeed⟩ := items_reach_consumer .json rfl hreach hopen hrequest
  have hother : (Piece.foreign "oops" : Piece Int).calls sevenSerde = [] :=
    Piece.calls_malformed rfl
  have hcalls : [Piece.message (.streamItem intPayload feedItem) sevenText,
      .foreign "oops"].flatMap (Piece.calls sevenSerde)
        = [⟨asBytes sevenText, .streamItem, .json⟩] := by
    rw [List.flatMap_cons, List.flatMap_singleton, hother]
    rfl
  have hfilter : [Piece.message (.streamItem intPayload feedItem) sevenText,
      .foreign "oops"].filter (Piece.concerns sevenSerde "feed_1" .i64)
        = [.message (.streamItem intPayload feedItem) sevenText] := by
    have hnot : (Piece.foreign "oops" : Piece Int).concerns sevenSerde "feed_1" .i64
        = false := by
      rw [Piece.concerns, hother]
      rfl
    rw [List.filter_cons_of_pos rfl, List.filter_cons_of_neg (by simp [hnot])]
    rfl
  refine hfeed intPayload [(feedItem, sevenText)] feedDone doneText _ _ [] rfl
    sevenFrames_valid ?_ ⟨rfl, rfl⟩ rfl hfilter ?_
  · intro i hi
    rw [List.mem_singleton.mp hi]
    exact ⟨rfl, rfl⟩
  · rw [hcalls]
    rfl

end SignalR
