/-
SignalR/Ownership.lean

Who keeps the connection open.  Every `SignalRClient` owns a reference of the shared
part, and `disconnect`, which `drop` calls as well, tears the connection down only if it
counts no other reference.  The application owns clients, and so does the action map: a
registered callback is stored with a clone of the client that registered it.

The strong count is the number of the application's clients and registered callbacks
(`Inv.owners`), so when the last client of the application is gone the connection is torn
down exactly if no callback is registered at that time (`torn_down_iff`).

Each operation is taken whole, and no connection is lost, so the monitor holds no
reference; `SignalR/Handles.lean` has the sections of a `disconnect` and the monitor
(`reaches_dropClient`).
-/
import SignalR.Independence
import SignalR.Handles
import Mathlib.Data.Finset.Card

namespace SignalR

open Transition

variable {V : Type}

/-! ### The targets with a callback -/

namespace Storage

variable {S : Serde} {s t : Storage V} {target k : String}

/-- The targets with a registered callback. -/
def callbackTargets (s : Storage V) : Finset String :=
  s.data.keys.toFinset.filter fun k => (s.get k).any Action.isCallback

theorem mem_callbackTargets :
    k ∈ s.callbackTargets ↔ ∃ a, s.get k = some (.callback a) := by
  have hkeys : (s.get k).isSome → k ∈ s.data.keys := fun h => AList.lookup_isSome.mp h
  rw [callbackTargets, Finset.mem_filter, List.mem_toFinset]
  constructor
  · rintro ⟨-, hany⟩
    rcases hget : s.get k with - | (a | a | a)
    · simp [hget] at hany
    · simp [hget, Action.isCallback] at hany
    · simp [hget, Action.isCallback] at hany
    · exact ⟨a, rfl⟩
  · rintro ⟨a, hget⟩
    exact ⟨hkeys (by rw [hget]; rfl), by rw [hget]; rfl⟩

theorem callbackTargets_congr
    (h : ∀ k a, t.get k = some (.callback a) ↔ s.get k = some (.callback a)) :
    t.callbackTargets = s.callbackTargets := by
  ext k
  rw [mem_callbackTargets, mem_callbackTargets]
  simp only [h]

theorem callbackTargets_of_get (h : t.get = s.get) : t.callbackTargets = s.callbackTargets :=
  callbackTargets_congr fun k a => by rw [h]

/-- A message makes a callback of no other action. -/
theorem callback_of_updateWith {m : RawMessage} {b : Action V} {h : Heap V} {a : CallbackAction}
    (heq : (b.updateWith S m h).1 = .callback a) : b = .callback a := by
  cases b with
  | invocation b => simp [Action.updateWith] at heq
  | enumerable b => simp [Action.updateWith] at heq
  | callback b =>
      rw [← heq]
      simp only [Action.updateWith, CallbackAction.updateWith]
      split
      · split <;> rfl
      · rfl

theorem callbackTargets_update (key : String) (m : RawMessage) :
    (s.update key (Action.updateWith S m)).1.callbackTargets = s.callbackTargets := by
  refine callbackTargets_congr fun k a => ⟨fun h => ?_, get_update_callback key m⟩
  obtain ⟨action, -, hget, hu⟩ | ⟨-, e, hu⟩ := s.update_cases key (Action.updateWith S m)
  · rw [hu] at h
    have hlookup : (s.data.insert key (action.updateWith S m s.heap).1).lookup k
        = some (.callback a) := h
    by_cases hk : k = key
    · subst hk
      rw [AList.lookup_insert] at hlookup
      rw [hget, callback_of_updateWith (Option.some.inj hlookup)]
    · rwa [AList.lookup_insert_ne hk] at hlookup
  · rwa [hu] at h

theorem callbackTargets_replay (key : String) (l : List RawMessage) :
    (replay S key l s).1.callbackTargets = s.callbackTargets := by
  apply replay_invariant (I := fun t => t.callbackTargets = s.callbackTargets)
  · exact fun m _ t ht => (callbackTargets_update key m).trans ht
  · rfl

/-- A registration takes a free target, or leaves the callbacks as they are. -/
theorem callbackTargets_addCallback (callback : Callback) :
    (s.addCallback S target callback).1.callbackTargets =
      if s.poisoned = false ∧ s.get target = none then Insert.insert target s.callbackTargets
      else s.callbackTargets := by
  have hreplay : (s.addCallback S target callback).1.callbackTargets
      = (s.insert target (.callback { target, callback })).callbackTargets := by
    rw [addCallback, replayDeferred_eq_replay, callbackTargets_replay]
    exact callbackTargets_of_get rfl
  rw [hreplay]
  obtain ⟨hp, hfree, hi⟩ | ⟨hno, hi⟩ := s.insert_cases target (.callback { target, callback })
  · rw [if_pos ⟨hp, hfree⟩, hi]
    ext k
    rw [Finset.mem_insert, mem_callbackTargets, mem_callbackTargets]
    show (∃ a, (s.data.insert target _).lookup k = _) ↔ _
    by_cases hk : k = target
    · subst hk
      simp
    · rw [AList.lookup_insert_ne hk]
      simp [hk, get]
  · rw [if_neg, hi]
    · exact callbackTargets_of_get rfl
    · rintro ⟨hp, hfree⟩
      rw [hp, hfree] at hno
      simp at hno

/-- A removal takes the callback of its key. -/
theorem callbackTargets_remove :
    (s.remove target).callbackTargets =
      if s.poisoned = false then s.callbackTargets.erase target else s.callbackTargets := by
  split
  · rename_i hp
    ext k
    rw [Finset.mem_erase, mem_callbackTargets, mem_callbackTargets]
    by_cases hk : k = target
    · subst hk
      rw [get_remove_self s k hp]
      simp
    · rw [get_remove_of_ne hk]
      simp [hk]
  · rename_i hp
    rw [remove, if_pos (by simpa using hp)]

/-- Records neither register nor remove a callback. -/
theorem callbackTargets_processMessage (S : Serde) (s : Storage V) (m : RawMessage) :
    (s.processMessage S m).1.callbackTargets = s.callbackTargets := by
  obtain ⟨o, -, hr⟩ | ⟨key, -, hr⟩ | ⟨invocation, hr, -⟩ | ⟨key, hm, hok, hr⟩ :=
    s.processMessage_cases S m
  · rw [hr]
  · rw [hr]
    exact callbackTargets_update key m
  · rw [hr]
    obtain ⟨-, hd, -⟩ | ⟨-, -, hd⟩ | ⟨-, hd⟩ := s.deferMessage_cases S invocation.target m
    · rw [hd]
      exact callbackTargets_update _ m
    · rw [hd]
      exact callbackTargets_of_get rfl
    · rw [hd]
  · -- the action that is removed has taken a completion, which no callback does
    have hno : key ∉ s.callbackTargets := fun hmem => by
      obtain ⟨a, hget⟩ := mem_callbackTargets.mp hmem
      exact update_callback_completion hm hget hok
    rw [hr, callbackTargets_remove, callbackTargets_update, Finset.erase_eq_of_notMem hno]
    split <;> rfl

theorem callbackTargets_cancelPending (s : Storage V) (reason : String) :
    (s.cancelPending reason).callbackTargets = s.callbackTargets :=
  callbackTargets_congr fun k a => s.get_cancelPending_callback_iff reason k a

end Storage

/-! ### Owners of a reference -/

/-- A client with its application.  `strong` is the strong count of the shared part,
`clients` are the `SignalRClient`s in the hands of the application, and `handles` the
targets of its unregistration handles. -/
structure Ownership (V : Type) where
  client : Client V
  strong : Nat
  clients : Nat
  handles : List String

/-- What the application does, and a record that the reader takes. -/
inductive OwnershipLabel
  | clone
  | register (target : String) (callback : Callback)
  | unregister (k : Nat)
  | dropHandle (k : Nat)
  | drop
  | disconnect
  | disconnectGracefully
  | receive (m : RawMessage)

namespace Ownership

section Operations

variable (C : Config) (s : Ownership V)

/-- What `connect` returns. -/
def init : Ownership V where
  client := .init C
  strong := 1
  clients := 1
  handles := []

/-- The connection is torn down. -/
def tearDown : Ownership V :=
  { s with
    client := (({ s.client with shutdown := true } : Client V).setState .notConnected).emit
      .shutdown }

/-- `CommunicationClient::disconnect`, called through one of the clients. -/
def disconnectShared : Ownership V :=
  -- the count includes the client's own reference
  if s.strong - 1 > 0 then s else s.tearDown

/-- `Drop` of a `SignalRClient`: a `disconnect`, and then its reference goes. -/
def dropClient : Ownership V :=
  { s.disconnectShared with strong := s.strong - 1 }

def clone : Ownership V :=
  { s with strong := s.strong + 1, clients := s.clients + 1 }

/-- `SignalRClient::register`: the callback is stored with a clone of the client. -/
def register (target : String) (callback : Callback) : Ownership V :=
  let cloned := { s with strong := s.strong + 1 }
  -- an action that `insert` refuses is dropped with the clone in it
  let stored := if s.client.store.poisoned = false ∧ s.client.store.get target = none then cloned
    else cloned.dropClient
  { stored with
    client := stored.client.userStep C (.register target callback)
    -- a registration that panics returns no handle
    handles := if (s.client.store.addCallback C.serde target callback).2 = .panic then s.handles
      else s.handles ++ [target] }

/-- `StorageUnregistrationHandler::unregister`. -/
def unregister (k : Nat) (target : String) : Ownership V :=
  let removed := { s with
    client := s.client.userStep C (.unregister target)
    handles := s.handles.eraseIdx k }
  -- the callback that leaves the map drops the client in it
  if s.client.store.poisoned = false ∧ target ∈ s.client.store.callbackTargets then
    removed.dropClient
  else removed

/-- A handle without a use of it: only its clone of the storage goes. -/
def dropHandle (k : Nat) : Ownership V :=
  { s with handles := s.handles.eraseIdx k }

def drop : Ownership V :=
  { s with clients := s.clients - 1 }.dropClient

/-- `SignalRClient::disconnect`, which drops the client when it is done. -/
def disconnect : Ownership V :=
  s.disconnectShared.drop

/-- `SignalRClient::disconnect_gracefully`. -/
def disconnectGracefully : Ownership V :=
  { s with client := { s.client with
    store := s.client.store.cancelPending "Client disconnected" } }.tearDown.drop

def receive (m : RawMessage) : Ownership V :=
  { s with client := { s.client with store := (s.client.store.processMessage C.serde m).1 } }

/-- One operation.  The application acts through the clients and handles it has. -/
def step : OwnershipLabel → Option (Ownership V)
  | .clone => if 0 < s.clients then some s.clone else none
  | .register target callback =>
      if 0 < s.clients then some (s.register C target callback) else none
  | .unregister k => s.handles[k]?.map (s.unregister C k)
  | .dropHandle k => if k < s.handles.length then some (s.dropHandle k) else none
  | .drop => if 0 < s.clients then some s.drop else none
  | .disconnect => if 0 < s.clients then some s.disconnect else none
  | .disconnectGracefully => if 0 < s.clients then some s.disconnectGracefully else none
  | .receive m => some (s.receive C m)

end Operations

/-- The connection has been torn down: the state is `NotConnected`, or it has been dropped
with the last reference. -/
def TornDown (s : Ownership V) : Prop :=
  s.client.state = .notConnected ∨ s.strong = 0

/-! ### Small lemmas -/

section

variable (s : Ownership V)

@[simp] theorem tearDown_state : s.tearDown.client.state = .notConnected := rfl
@[simp] theorem tearDown_store : s.tearDown.client.store = s.client.store := rfl

@[simp] theorem disconnectShared_strong : s.disconnectShared.strong = s.strong := by
  rw [disconnectShared]
  split <;> rfl

@[simp] theorem disconnectShared_clients : s.disconnectShared.clients = s.clients := by
  rw [disconnectShared]
  split <;> rfl

@[simp] theorem disconnectShared_store : s.disconnectShared.client.store = s.client.store := by
  rw [disconnectShared]
  split <;> rfl

@[simp] theorem dropClient_strong : s.dropClient.strong = s.strong - 1 := rfl

@[simp] theorem dropClient_clients : s.dropClient.clients = s.clients :=
  s.disconnectShared_clients

@[simp] theorem dropClient_store : s.dropClient.client.store = s.client.store :=
  s.disconnectShared_store

/-- The last reference tears the connection down, any other leaves it. -/
theorem dropClient_state : s.dropClient.client.state =
    if s.strong - 1 > 0 then s.client.state else .notConnected := by
  show s.disconnectShared.client.state = _
  rw [disconnectShared]
  split <;> rfl

end

/-! ### The invariant -/

variable {C : Config} {s t : Ownership V} {l : OwnershipLabel} {ls : List OwnershipLabel}
  {graceful : Prop}

/-- The connection is torn down by a graceful disconnect, or with the last reference. -/
def Sound (graceful : Prop) (s : Ownership V) : Prop :=
  s.client.state = .notConnected ↔ graceful ∨ s.strong = 0

/-- The references are those of the application and of the registered callbacks. -/
structure Inv (graceful : Prop) (s : Ownership V) : Prop where
  owners : s.strong = s.clients + s.client.store.callbackTargets.card
  sound : s.Sound graceful

theorem inv_init (C : Config) : (init C : Ownership V).Inv False where
  owners := rfl
  sound := ⟨fun h => absurd h (by simp [init, Client.init]), by simp [init]⟩

/-- While references remain, one more or less changes nothing else. -/
theorem Sound.of_pos (h : s.Sound graceful) (hs : 0 < s.strong)
    (hstate : t.client.state = s.client.state) (ht : 0 < t.strong) : t.Sound graceful := by
  rw [Sound, hstate]
  exact h.trans (by simp [Nat.ne_of_gt hs, Nat.ne_of_gt ht])

/-- **A reference goes.**  The connection is torn down if it was the last one. -/
theorem Sound.dropClient (h : 1 < s.strong → s.Sound graceful) :
    s.dropClient.Sound graceful := by
  by_cases hlast : s.strong - 1 > 0
  · refine (h (by omega)).of_pos (by omega) ?_ hlast
    rw [dropClient_state, if_pos hlast]
  · rw [Sound, dropClient_state, if_neg hlast, dropClient_strong]
    exact ⟨fun _ => .inr (by omega), fun _ => rfl⟩

theorem Inv.register (hi : s.Inv graceful) (hlive : 0 < s.clients) (target : String)
    (callback : Callback) : (s.register C target callback).Inv graceful := by
  have howners := hi.owners
  have htargets : (s.register C target callback).client.store.callbackTargets
      = (s.client.store.addCallback C.serde target callback).1.callbackTargets := by
    simp only [Ownership.register, Client.userStep]
    split
    · rfl
    · rw [dropClient_store]
  rw [Storage.callbackTargets_addCallback] at htargets
  by_cases hfree : s.client.store.poisoned = false ∧ s.client.store.get target = none
  · rw [if_pos hfree] at htargets
    have hnew : target ∉ s.client.store.callbackTargets := fun hmem => by
      obtain ⟨a, hget⟩ := Storage.mem_callbackTargets.mp hmem
      rw [hfree.2] at hget
      simp at hget
    have hstate : (s.register C target callback).client.state = s.client.state := by
      simp only [Ownership.register, if_pos hfree]
      rfl
    have hstrong : (s.register C target callback).strong = s.strong + 1 := by
      simp only [Ownership.register, if_pos hfree]
    have hclients : (s.register C target callback).clients = s.clients := by
      simp only [Ownership.register, if_pos hfree]
    refine ⟨?_, hi.sound.of_pos (by omega) hstate (by omega)⟩
    rw [hstrong, hclients, htargets, Finset.card_insert_of_notMem hnew]
    omega
  · -- the clone is dropped again, while the application still has its client
    rw [if_neg hfree] at htargets
    have hstate : (s.register C target callback).client.state = s.client.state := by
      simp only [Ownership.register, if_neg hfree]
      show (Ownership.dropClient _).client.state = _
      rw [dropClient_state, if_pos (by simp; omega)]
    have hstrong : (s.register C target callback).strong = s.strong := by
      simp only [Ownership.register, if_neg hfree]
      rfl
    have hclients : (s.register C target callback).clients = s.clients := by
      simp only [Ownership.register, if_neg hfree, dropClient_clients]
    refine ⟨?_, hi.sound.of_pos (by omega) hstate (by omega)⟩
    rw [hstrong, hclients, htargets, howners]

theorem Inv.unregister (hi : s.Inv graceful) (k : Nat) (target : String) :
    (s.unregister C k target).Inv graceful := by
  have howners := hi.owners
  have htargets : (s.unregister C k target).client.store.callbackTargets
      = (s.client.store.remove target).callbackTargets := by
    simp only [Ownership.unregister, Client.userStep]
    split
    · rw [dropClient_store]
    · rfl
  rw [Storage.callbackTargets_remove] at htargets
  by_cases hheld : s.client.store.poisoned = false ∧ target ∈ s.client.store.callbackTargets
  · rw [if_pos hheld.1] at htargets
    have hcard := Finset.card_erase_add_one hheld.2
    refine ⟨?_, ?_⟩
    · rw [htargets]
      simp only [Ownership.unregister, if_pos hheld, dropClient_strong, dropClient_clients]
      omega
    · simp only [Ownership.unregister, if_pos hheld]
      exact Sound.dropClient fun _ => hi.sound
  · have hsame : (s.unregister C k target).client.store.callbackTargets
        = s.client.store.callbackTargets := by
      rw [htargets]
      split
      · rename_i hp
        exact Finset.erase_eq_of_notMem fun hmem => hheld ⟨hp, hmem⟩
      · rfl
    refine ⟨?_, ?_⟩
    · rw [hsame]
      simp only [Ownership.unregister, if_neg hheld]
      exact howners
    · simp only [Ownership.unregister, if_neg hheld]
      exact hi.sound

/-- A client of the application takes its own reference with it. -/
theorem owners_drop (howners : s.strong = s.clients + s.client.store.callbackTargets.card)
    (hlive : 0 < s.clients) :
    s.drop.strong = s.drop.clients + s.drop.client.store.callbackTargets.card := by
  rw [Ownership.drop, dropClient_strong, dropClient_clients, dropClient_store]
  show s.strong - 1 = s.clients - 1 + s.client.store.callbackTargets.card
  omega

theorem Inv.drop (hi : s.Inv graceful) (hlive : 0 < s.clients) : s.drop.Inv graceful where
  owners := owners_drop hi.owners hlive
  sound := Sound.dropClient fun _ => hi.sound

theorem Inv.disconnect (hi : s.Inv graceful) (hlive : 0 < s.clients) :
    s.disconnect.Inv graceful where
  owners := by
    apply owners_drop
    · rw [disconnectShared_strong, disconnectShared_clients, disconnectShared_store]
      exact hi.owners
    · rwa [disconnectShared_clients]
  sound := by
    refine Sound.dropClient fun hmore => ?_
    -- with more than one reference the first `disconnect` does nothing
    have hmore' : 1 < s.strong := s.disconnectShared_strong ▸ hmore
    have hsame : s.disconnectShared = s := if_pos (Nat.sub_pos_of_lt hmore')
    rw [hsame]
    exact hi.sound

theorem Inv.disconnectGracefully (hi : s.Inv graceful) (hlive : 0 < s.clients) :
    s.disconnectGracefully.Inv True where
  owners := by
    apply owners_drop
    · rw [tearDown_store]
      show s.strong = s.clients +
        (s.client.store.cancelPending "Client disconnected").callbackTargets.card
      rw [Storage.callbackTargets_cancelPending]
      exact hi.owners
    · exact hlive
  sound := by
    refine ⟨fun _ => .inl trivial, fun _ => ?_⟩
    show (Ownership.dropClient _).client.state = _
    rw [dropClient_state]
    split <;> rfl

theorem Inv.receive (hi : s.Inv graceful) (m : RawMessage) : (s.receive C m).Inv graceful where
  owners := by
    show s.strong = s.clients + (s.client.store.processMessage C.serde m).1.callbackTargets.card
    rw [Storage.callbackTargets_processMessage]
    exact hi.owners
  sound := hi.sound

/-- **An operation keeps the invariant**, and a graceful disconnect tears down. -/
theorem Inv.step (hi : s.Inv graceful) (hst : s.step C l = some t) :
    t.Inv (graceful ∨ l = .disconnectGracefully) := by
  have other : l ≠ .disconnectGracefully → t.Inv graceful →
      t.Inv (graceful ∨ l = .disconnectGracefully) := by
    intro hne ht
    rwa [propext (or_iff_left hne : graceful ∨ _ ↔ graceful)]
  cases l with
  | clone =>
      obtain ⟨hlive, rfl⟩ := guard_of_eq_some hst
      have howners := hi.owners
      refine other nofun ⟨?_, hi.sound.of_pos (by omega) rfl (Nat.succ_pos _)⟩
      show s.strong + 1 = s.clients + 1 + s.client.store.callbackTargets.card
      omega
  | register target callback =>
      obtain ⟨hlive, rfl⟩ := guard_of_eq_some hst
      exact other nofun (hi.register hlive target callback)
  | unregister k =>
      obtain ⟨target, -, rfl⟩ := Option.map_eq_some_iff.mp hst
      exact other nofun (hi.unregister k target)
  | dropHandle k =>
      obtain ⟨-, rfl⟩ := guard_of_eq_some hst
      exact other nofun ⟨hi.owners, hi.sound⟩
  | drop =>
      obtain ⟨hlive, rfl⟩ := guard_of_eq_some hst
      exact other nofun (hi.drop hlive)
  | disconnect =>
      obtain ⟨hlive, rfl⟩ := guard_of_eq_some hst
      exact other nofun (hi.disconnect hlive)
  | disconnectGracefully =>
      obtain ⟨hlive, rfl⟩ := guard_of_eq_some hst
      have htrue : (graceful ∨ OwnershipLabel.disconnectGracefully
          = .disconnectGracefully) = True := propext ⟨fun _ => trivial, fun _ => .inr rfl⟩
      rw [htrue]
      exact hi.disconnectGracefully hlive
  | receive m =>
      obtain rfl := Option.some.inj hst
      exact other nofun (hi.receive m)

/-- **The run lemma.** -/
theorem Inv.run (h : Run (Ownership.step C) free s ls t) (hi : s.Inv graceful) :
    t.Inv (graceful ∨ .disconnectGracefully ∈ ls) := by
  induction h generalizing graceful with
  | nil s => simpa using hi
  | @cons s t u l ls _ hst _ ih =>
      have ht := ih (hi.step hst)
      have hmem : ((graceful ∨ l = .disconnectGracefully) ∨ .disconnectGracefully ∈ ls)
          = (graceful ∨ .disconnectGracefully ∈ l :: ls) := by
        rw [List.mem_cons, or_assoc]
        simp only [eq_comm]
      rwa [hmem] at ht

/-! ### The last client of the application -/

/-- No callback is registered. -/
def NoCallback (s : Ownership V) : Prop :=
  ∀ target a, s.client.store.get target ≠ some (.callback a)

/-- **When the last client of the application is gone, the connection is torn down
exactly if no callback is registered**, or a client was disconnected gracefully. -/
theorem torn_down_iff (h : Run (Ownership.step C) free (init C) ls s) (hgone : s.clients = 0) :
    s.TornDown ↔ s.NoCallback ∨ .disconnectGracefully ∈ ls := by
  have hi := (inv_init C).run h
  have hcallback : s.strong = 0 ↔ s.NoCallback := by
    rw [hi.owners, hgone, Nat.zero_add, Finset.card_eq_zero, Finset.eq_empty_iff_forall_notMem]
    simp only [Storage.mem_callbackTargets, not_exists]
    exact Iff.rfl
  have hstate : s.client.state = .notConnected ↔
      (False ∨ .disconnectGracefully ∈ ls) ∨ s.strong = 0 := hi.sound
  rw [TornDown, hstate, false_or, hcallback]
  constructor
  · rintro ((hgraceful | hnone) | hnone)
    · exact .inr hgraceful
    · exact .inl hnone
    · exact .inl hnone
  · rintro (hnone | hgraceful)
    · exact .inr hnone
    · exact .inl (.inl hgraceful)

/-- A callback is registered, unregistered through its handle, and the client dropped. -/
theorem torn_down_iff_unregistered :
    ∃ s : Ownership Int, s.clients = 0 ∧
      (s.TornDown ↔ s.NoCallback ∨ OwnershipLabel.disconnectGracefully ∈
        [.register "GetData" idleCallback, .unregister 0, .drop]) := by
  have hrun : Run (Ownership.step Client.sample) free (init (V := Int) Client.sample)
      [.register "GetData" idleCallback, .unregister 0, .drop] _ :=
    .cons trivial rfl <| .cons trivial rfl <| .cons trivial rfl <| .nil _
  exact ⟨_, rfl, torn_down_iff hrun rfl⟩

/-- The client registers a callback and disconnects: the callback's own client keeps the
connection open, and nobody is left to close it. -/
theorem callback_keeps_connection :
    ∃ s : Ownership Int,
      Run (Ownership.step Client.sample) free (init Client.sample)
        [.register "GetData" idleCallback, .disconnect] s ∧
      s.clients = 0 ∧ s.client.state = .connected 1 ∧ s.strong = 1 ∧ ¬ s.TornDown := by
  refine ⟨_, .cons trivial rfl <| .cons trivial rfl <| .nil _, rfl, rfl, rfl, ?_⟩
  rintro (hstate | hstrong)
  · exact ConnectionState.noConfusion hstate
  · exact Nat.noConfusion hstrong

end Ownership

/-! ### The sections of a drop -/

namespace Handles

variable {C : Config} {s : Handles V} {k : Nat} {pc pc' : HandlePc}

theorem getElem?_setHandle (hk : s.handles[k]? = some pc) :
    (s.setHandle k pc').handles[k]? = some pc' := by
  obtain ⟨hlt, -⟩ := List.getElem?_eq_some_iff.mp hk
  exact List.getElem?_set_self hlt

/-- A handle keeps its reference until it is gone. -/
theorem strongCount_setHandle (hk : s.handles[k]? = some pc) (hpc : pc ≠ .gone) :
    (s.setHandle k pc').strongCount = if pc' = .gone then s.strongCount - 1 else s.strongCount := by
  obtain ⟨hlt, hget⟩ := List.getElem?_eq_some_iff.mp hk
  have hpos : 0 < s.handles.countP (· ≠ .gone) :=
    List.countP_pos_iff.mpr ⟨pc, List.mem_of_getElem? hk, by simpa using hpc⟩
  have hset : (s.handles.set k pc').countP (· ≠ .gone)
      = s.handles.countP (· ≠ .gone) - 1 + if pc' = .gone then 0 else 1 := by
    rw [List.countP_set hlt, hget]
    simp [hpc]
  rw [strongCount, strongCount]
  show (s.handles.set k pc').countP _ + (if s.client.monitor.upgraded then 1 else 0) = _
  rw [hset]
  by_cases hgone : pc' = .gone
  · rw [if_pos hgone, if_pos hgone]
    omega
  · rw [if_neg hgone, if_neg hgone]
    omega

end Handles

namespace Ownership

/-- While the monitor is at `recv`, the sections of a drop one after the other are the
whole operation. -/
theorem reaches_dropClient {C : Config} {h : Handles V} {k : Nat} {s : Ownership V}
    (hk : h.handles[k]? = some .live) (hclient : s.client = h.client)
    (hstrong : s.strong = h.strongCount) :
    ∃ h', Reaches (Handles.step C) free h h' ∧ h'.client = s.dropClient.client ∧
      h'.strongCount = s.dropClient.strong := by
  let counting := h.setHandle k (.counting false)
  have hdrop : Handles.step C h (.drop k) = some counting := if_pos hk
  have hcounting : counting.handles[k]? = some (.counting false) :=
    Handles.getElem?_setHandle hk
  have hcount : counting.strongCount = h.strongCount := by
    rw [Handles.strongCount_setHandle hk (by simp), if_neg (by simp)]
  -- the handle leaves, from whatever section it has come to
  have leave : ∀ {u : Handles V}, u.handles[k]? = some .leaving →
      u.strongCount = h.strongCount →
      Handles.step C u (.release k) = some (u.setHandle k .gone).settle ∧
        (u.setHandle k .gone).strongCount = h.strongCount - 1 := by
    intro u hu hsame
    refine ⟨if_pos hu, ?_⟩
    rw [Handles.strongCount_setHandle hu (by simp), if_pos rfl, hsame]
  by_cases hmore : h.strongCount - 1 > 0
  · let leaving := counting.setHandle k .leaving
    have hleave : Handles.step C counting (.count k) = some leaving := by
      simp only [Handles.step, hcounting]
      rw [hcount, if_pos hmore]
      rfl
    obtain ⟨hrelease, hleft⟩ := leave (u := leaving) (Handles.getElem?_setHandle hcounting) (by
      rw [Handles.strongCount_setHandle hcounting (by simp), if_neg (by simp), hcount])
    have hsettle : (leaving.setHandle k .gone).settle = leaving.setHandle k .gone :=
      if_neg (by omega)
    rw [hsettle] at hrelease
    refine ⟨_, .head _ trivial hdrop <| .head _ trivial hleave <|
      .head _ trivial hrelease <| .refl _, ?_, ?_⟩
    · show h.client = s.disconnectShared.client
      rw [disconnectShared, if_pos (hstrong ▸ hmore), hclient]
    · rw [hleft, dropClient_strong, hstrong]
  · let flagging := counting.setHandle k (.flagging false)
    have hflagging : Handles.step C counting (.count k) = some flagging := by
      simp only [Handles.step, hcounting]
      rw [hcount, if_neg hmore]
    have hflag : flagging.handles[k]? = some (.flagging false) :=
      Handles.getElem?_setHandle hcounting
    let storing := { flagging with
      client := { flagging.client with shutdown := true } }.setHandle k (.storing false)
    have hraise : Handles.step C flagging (.raiseFlag k) = some storing := by
      simp only [Handles.step, hflag]
      rfl
    have hstoring : storing.handles[k]? = some (.storing false) :=
      Handles.getElem?_setHandle hflag
    let sending := { storing with
      client := storing.client.setState .notConnected }.setHandle k (.sending false)
    have hstore : Handles.step C storing (.store k) = some sending := by
      simp only [Handles.step, hstoring]
      rfl
    have hsending : sending.handles[k]? = some (.sending false) :=
      Handles.getElem?_setHandle hstoring
    let leaving := { sending with
      client := sending.client.emit .shutdown }.setHandle k .leaving
    have hsend : Handles.step C sending (.sendShutdown k) = some leaving := by
      simp only [Handles.step, hsending]
      rfl
    have hsame : leaving.strongCount = h.strongCount := by
      calc leaving.strongCount
          = sending.strongCount := Handles.strongCount_setHandle hsending (by simp)
        _ = storing.strongCount := Handles.strongCount_setHandle hstoring (by simp)
        _ = flagging.strongCount := Handles.strongCount_setHandle hflag (by simp)
        _ = counting.strongCount := Handles.strongCount_setHandle hcounting (by simp)
        _ = h.strongCount := hcount
    obtain ⟨hrelease, hleft⟩ := leave (u := leaving) (Handles.getElem?_setHandle hsending) hsame
    have hfree : (leaving.setHandle k .gone).settle
        = { leaving.setHandle k .gone with client := leaving.client.freeShared } :=
      if_pos (by omega)
    rw [hfree] at hrelease
    refine ⟨_, .head _ trivial hdrop <| .head _ trivial hflagging <| .head _ trivial hraise <|
      .head _ trivial hstore <| .head _ trivial hsend <| .head _ trivial hrelease <| .refl _,
      ?_, ?_⟩
    · -- the state that is dropped with the shared part is `NotConnected` already
      show leaving.client.freeShared = s.disconnectShared.client
      rw [disconnectShared, if_neg (hstrong ▸ hmore), tearDown, hclient]
      rfl
    · show (leaving.setHandle k .gone).strongCount = _
      rw [hleft, dropClient_strong, hstrong]

end Ownership

end SignalR
