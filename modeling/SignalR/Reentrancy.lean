/-
SignalR/Reentrancy.lean

Callbacks that use the client of their context.  All three ways to a callback (`update`
from the reader, the dispatch inside `defer_message`, and `update` from a replay) call
it while the thread holds the mutex of the action map, which is not re-entrant.

A callback body is a finite sequence of synchronous operations on the client.  Every
thread runs code, a list of instructions, and an operation of a body is put in front of
the code of the thread that called it.  What an operation holds of the storage's
strong count is counted with the thread, since the drop of the last clone locks the
mutex as well.

A body that clones and drops clients never locks the mutex again and lets the dispatch
finish (`no_relock`).  One that registers or unregisters does lock it again
(`relocks_of_body`).
-/
import SignalR.Deliveries
import Mathlib.Algebra.Order.BigOperators.Group.List
import Mathlib.Algebra.Order.Ring.Nat

namespace SignalR

open Transition

variable {V : Type}

/-! ### Operations and instructions -/

/-- A synchronous operation on a client: `register` of the callback with a number, use of
a handle, `clone` and `drop`. -/
inductive ClientOp
  | register (target : String) (callback : Nat)
  | unregister (target : String)
  | clone
  | drop
  deriving DecidableEq

/-- The operation does not lock the action map. -/
def ClientOp.lockFree : ClientOp → Bool
  | .clone | .drop => true
  | .register _ _ | .unregister _ => false

/-- What a thread does in one step. -/
inductive Instr
  | contains (target : String) (m : RawMessage)
  | update (key : String) (m : RawMessage)
  | deferMessage (key : String) (m : RawMessage)
  | insert (target : String) (callback : Nat)
  | takeDeferred (key : String)
  | remove (key : String)
  /-- `clear` of the last clone. -/
  | clear
  /-- The guard of the action map is dropped. -/
  | unlock
  | op (o : ClientOp)
  /-- A clone of the storage is dropped. -/
  | dropStorage
  /-- The clone that has cleared the map is gone. -/
  | forget
  /-- `register` returns a handle, which owns a clone. -/
  | returnHandle
  /-- The client that an operation has borrowed is free again. -/
  | returnClient
  deriving DecidableEq

/-- The instruction locks the action map. -/
def Instr.locks : Instr → Bool
  | .contains _ _ | .update _ _ | .deferMessage _ _ | .insert _ _ | .remove _ | .clear => true
  | _ => false

/-- A thread, with the clones of the storage that its stack frames own. -/
structure Thread where
  code : List Instr
  own : Nat

/-- Threads that share a storage.  `owner` holds the mutex of the action map; `clients`
counts the clients that no running operation has borrowed, `handles` the handles that
have not been used. -/
structure Threads (V : Type) where
  store : Storage V
  owner : Option Nat
  threads : List Thread
  clients : Nat
  handles : Nat

/-- A thread takes its next step, a reader receives a record of a target, or a user's
thread begins an operation. -/
inductive ThreadLabel
  | step (k : Nat)
  | process (k : Nat) (target : String) (m : RawMessage)
  | start (k : Nat) (o : ClientOp)

namespace Threads

/-- A new storage with one client.  A reader owns a clone of the storage, as the monitor
does, and the thread of a user owns none while it is idle. -/
def init (capacity readers users : Nat) : Threads V where
  store := .newWithDeferredMessageCapacity capacity
  owner := none
  threads := .replicate readers { code := [], own := 1 } ++ .replicate users { code := [], own := 0 }
  clients := 1
  handles := 0

/-- `Arc::strong_count` of the action map: the clones of the threads, the two of every
client, the one of every handle and the two of every callback's client. -/
def strongCount (s : Threads V) : Nat :=
  (s.threads.map Thread.own).sum + 2 * s.clients + s.handles
    + 2 * (s.store.data.entries.filter fun e => e.2.isCallback).length

def setThread (s : Threads V) (k : Nat) (code : List Instr) (own : Nat) : Threads V :=
  { s with threads := s.threads.set k { code, own } }

section Steps

variable (S : Serde) (body : Nat → Invocation → List ClientOp) (s : Threads V) (k own : Nat)
  (rest : List Instr)

/-- `update_with` on the action under a key, with the mutex held.  A callback is called
with a clone of its client, which is dropped when it returns. -/
def dispatch (key : String) (m : RawMessage) : Threads V :=
  match s.store.callbackAt key, m.invocation S with
  | some a, some invocation =>
      { s with
        store := (s.store.update key (Action.updateWith S m)).1
        owner := some k }.setThread k
        ((body a.callback.id invocation).map Instr.op
          ++ Instr.dropStorage :: .dropStorage :: .unlock :: rest)
        (own + 2)
  | _, _ => { s with store := (s.store.update key (Action.updateWith S m)).1 }.setThread k rest own

/-- An operation of a client begins. -/
def beginOp : ClientOp → Threads V
  | .register target callback =>
      -- the callback's action gets a clone of the client
      s.setThread k (.insert target callback :: .takeDeferred target :: .returnHandle :: rest)
        (own + 2)
  | .unregister target =>
      match s.handles with
      | 0 => s.setThread k rest own
      | n + 1 =>
          { s with handles := n }.setThread k (.remove target :: .dropStorage :: rest) (own + 1)
  | .clone => { s with clients := s.clients + 1 }.setThread k rest own
  | .drop =>
      match s.clients with
      | 0 => s.setThread k rest own
      | n + 1 =>
          -- `disconnect` does not lock the action map
          { s with clients := n }.setThread k (.dropStorage :: .dropStorage :: rest) (own + 2)

/-- An instruction that is not kept waiting. -/
def perform : Instr → Threads V
  | .contains target m =>
      if s.store.contains target then s.setThread k (.update target m :: rest) own
      else s.setThread k (.deferMessage target m :: rest) own
  | .update key m => s.dispatch S body k own rest key m
  | .deferMessage key m =>
      if (s.store.get key).isSome then s.dispatch S body k own rest key m
      else { s with store := (s.store.deferMessage S key m).1 }.setThread k rest own
  | .insert target callback =>
      if (s.store.get target).isSome then
        -- the refused action is dropped after the guard
        s.setThread k (.dropStorage :: .dropStorage :: rest) own
      else
        { s with
          store := s.store.insert target
            (.callback { target, callback := { id := callback, panics := fun _ => false } })
        }.setThread k rest (own - 2)
  | .takeDeferred key =>
      { s with store := s.store.takeDeferred key }.setThread k
        ((s.store.queue key).map (Instr.update key) ++ rest) own
  | .remove key =>
      match s.store.callbackAt key with
      | some _ =>
          -- the callback's client is dropped before the guard
          { s with store := s.store.remove key, owner := some k }.setThread k
            (.dropStorage :: .dropStorage :: .unlock :: rest) (own + 2)
      | none => { s with store := s.store.remove key }.setThread k rest own
  | .clear => { s with store := s.store.clear }.setThread k rest own
  | .unlock => { s with owner := none }.setThread k rest own
  | .op o => s.beginOp k own rest o
  | .dropStorage =>
      if s.strongCount = 1 then s.setThread k (.clear :: .forget :: rest) own
      else s.setThread k rest (own - 1)
  | .forget => s.setThread k rest (own - 1)
  | .returnHandle => { s with handles := s.handles + 1 }.setThread k rest own
  | .returnClient => { s with clients := s.clients + 1 }.setThread k rest (own - 2)

end Steps

/-- One step.  An instruction that locks the action map waits until nobody holds it. -/
def step (S : Serde) (body : Nat → Invocation → List ClientOp) (s : Threads V) :
    ThreadLabel → Option (Threads V)
  | .step k =>
      match s.threads[k]? with
      | some ⟨i :: rest, own⟩ =>
          if i.locks ∧ s.owner ≠ none then none else some (s.perform S body k own rest i)
      | _ => none
  | .process k target m =>
      match s.threads[k]? with
      | some ⟨[], n + 1⟩ =>
          if (m.invocation S).map Invocation.target = some target then
            some (s.setThread k [.contains target m] (n + 1))
          else none
      | _ => none
  | .start k o =>
      match s.threads[k]? with
      | some ⟨[], 0⟩ =>
          match o, s.clients with
          | .register _ _, n + 1 | .clone, n + 1 =>
              some ({ s with clients := n }.setThread k [.op o, .returnClient] 2)
          | .unregister _, _ | .drop, _ => some (s.setThread k [.op o] 0)
          | _, _ => none
      | _ => none

/-- The thread tries to lock the mutex that it holds. -/
def Relocks (s : Threads V) (k : Nat) : Prop :=
  s.owner = some k ∧ ∃ i rest own, s.threads[k]? = some ⟨i :: rest, own⟩ ∧ i.locks = true

/-- A callback that is dispatched only clones and drops clients. -/
def LockFreeBodies (S : Serde) (body : Nat → Invocation → List ClientOp) (s : Threads V) :
    ThreadLabel → Prop
  | .step k =>
      ∀ key m rest own a invocation,
        s.threads[k]? = some ⟨.update key m :: rest, own⟩ ∨
          s.threads[k]? = some ⟨.deferMessage key m :: rest, own⟩ →
        s.store.callbackAt key = some a → m.invocation S = some invocation →
        ∀ o ∈ body a.callback.id invocation, o.lockFree = true
  | _ => True

variable {S : Serde} {body : Nat → Invocation → List ClientOp} {s t : Threads V} {k n own : Nat}
  {code rest : List Instr}

/-! ### The clones that a thread owns -/

/-- What an instruction gives back of the clones that its thread owns. -/
def weight : Instr → Nat
  | .dropStorage | .forget => 1
  | .returnClient | .insert _ _ => 2
  | _ => 0

/-- The instruction works on a clone that outlives it. -/
def borrows : Instr → Bool
  | .contains _ _ | .update _ _ | .deferMessage _ _ | .takeDeferred _ | .remove _ | .unlock
  | .op (.register _ _) => true
  | _ => false

/-- The clones `n` of a thread are enough for its code. -/
def Funded : Nat → List Instr → Prop
  | _, [] => True
  | n, i :: rest => ∃ m, n = m + weight i ∧ (borrows i = true → 1 ≤ m) ∧ Funded m rest

theorem Funded.map_update {queue : List RawMessage} {key : String} (hn : 1 ≤ n)
    (h : Funded n rest) : Funded n (queue.map (Instr.update key) ++ rest) := by
  induction queue with
  | nil => exact h
  | cons m queue ih => exact ⟨n, rfl, fun _ => hn, ih⟩

theorem Funded.map_op {ops : List ClientOp} (hn : 1 ≤ n) (h : Funded n rest) :
    Funded n (ops.map Instr.op ++ rest) := by
  induction ops with
  | nil => exact h
  | cons o ops ih => exact ⟨n, rfl, fun _ => hn, ih⟩

/-- The guard's own clone is left while the mutex is held. -/
theorem Funded.pos_of_unlock (h : Funded n code) (hunlock : .unlock ∈ code) : 1 ≤ n := by
  induction code generalizing n with
  | nil => simp at hunlock
  | cons i code ih =>
      obtain ⟨m, hm, hpos, hrest⟩ := h
      rcases List.mem_cons.mp hunlock with rfl | hunlock
      · exact hm ▸ Nat.le_add_right_of_le (hpos rfl)
      · exact hm ▸ Nat.le_add_right_of_le (ih hrest hunlock)

theorem own_le_strongCount (h : s.threads[k]? = some ⟨code, own⟩) : own ≤ s.strongCount := by
  have hmem : own ∈ s.threads.map Thread.own :=
    List.mem_map_of_mem (List.mem_of_getElem? h)
  have hsum := List.le_sum_of_mem hmem
  rw [strongCount]
  omega

/-! ### What every run with lock-free bodies keeps -/

/-- The instructions of a dispatch between the call and the end of the guard. -/
def quiet : Instr → Bool
  | .op o => o.lockFree
  | .dropStorage => true
  | _ => false

/-- The code of a thread that holds the mutex. -/
def Holding (code : List Instr) : Prop :=
  ∃ inner rest, code = inner ++ .unlock :: rest ∧ (∀ i ∈ inner, quiet i = true) ∧
    .unlock ∉ rest

/-- The clones and the code of each thread fit what it holds. -/
def Inv (s : Threads V) : Prop :=
  ∀ k th, s.threads[k]? = some th →
    Funded th.own th.code ∧
      (s.owner = some k → Holding th.code) ∧ (s.owner ≠ some k → .unlock ∉ th.code)

/-- A step of thread `k` leaves the others as they are. -/
theorem Inv.set (hi : s.Inv) (hthreads : t.threads = s.threads.set k ⟨code, own⟩)
    (howner : ∀ j, j ≠ k → (t.owner = some j ↔ s.owner = some j))
    (hfunded : Funded own code) (hholds : t.owner = some k → Holding code)
    (hfree : t.owner ≠ some k → .unlock ∉ code) : t.Inv := by
  intro j th hj
  rw [hthreads, List.getElem?_set] at hj
  split at hj
  · rename_i hjk
    subst hjk
    split at hj
    · obtain rfl := Option.some.inj hj
      exact ⟨hfunded, hholds, hfree⟩
    · simp at hj
  · rename_i hjk
    obtain ⟨hf, hh, hr⟩ := hi j th hj
    have ho := howner j (Ne.symm hjk)
    exact ⟨hf, fun h => hh (ho.mp h), fun h => hr (mt ho.mpr h)⟩

/-- A step of a thread that does not hold the mutex and leaves it where it is. -/
theorem Inv.keep (hi : s.Inv) (hown : s.owner ≠ some k) (store : Storage V)
    (clients handles : Nat) (hf : Funded own code) (hunlock : .unlock ∉ code) :
    ({ s with store, clients, handles }.setThread k code own).Inv :=
  hi.set rfl (fun _ _ => Iff.rfl) hf (fun h => absurd h hown) fun _ => hunlock

/-- What a callback is called with fits its clones. -/
theorem funded_dispatch (ops : List ClientOp) (hpos : 1 ≤ own) (h : Funded own rest) :
    Funded (own + 2)
      (ops.map Instr.op ++ Instr.dropStorage :: .dropStorage :: .unlock :: rest) :=
  .map_op (Nat.le_add_left 1 (own + 1))
    ⟨own + 1, rfl, nofun, own, rfl, nofun, own, rfl, fun _ => hpos, h⟩

theorem quiet_dispatch {ops : List ClientOp} (hops : ∀ o ∈ ops, o.lockFree = true)
    (rest : List Instr) :
    ∃ inner, ops.map Instr.op ++ Instr.dropStorage :: .dropStorage :: .unlock :: rest
        = inner ++ .unlock :: rest ∧ ∀ i ∈ inner, quiet i = true := by
  refine ⟨ops.map Instr.op ++ [.dropStorage, .dropStorage], by simp, ?_⟩
  intro i hi
  rcases List.mem_append.mp hi with hop | hdrop
  · obtain ⟨o, ho, rfl⟩ := List.mem_map.mp hop
    exact hops o ho
  · simp only [List.mem_cons, List.not_mem_nil, or_false, or_self] at hdrop
    rw [hdrop]
    rfl

theorem holding_dispatch (ops : List ClientOp) (hops : ∀ o ∈ ops, o.lockFree = true)
    (h : .unlock ∉ rest) :
    Holding (ops.map Instr.op ++ Instr.dropStorage :: .dropStorage :: .unlock :: rest) := by
  obtain ⟨inner, hcode, hquiet⟩ := quiet_dispatch hops rest
  exact ⟨inner, rest, hcode, hquiet, h⟩

theorem not_holding_nil : ¬ Holding [] := by
  rintro ⟨inner, rest, h, -⟩
  simp at h

/-- A thread that holds the mutex stands at the end of the guard or at a quiet
instruction. -/
theorem Holding.cases {i : Instr} (h : Holding (i :: rest)) :
    i = .unlock ∧ .unlock ∉ rest ∨ quiet i = true ∧ Holding rest := by
  obtain ⟨inner, rest', hcode, hquiet, hrest⟩ := h
  cases inner with
  | nil =>
      obtain ⟨rfl, rfl⟩ := List.cons_eq_cons.mp hcode
      exact .inl ⟨rfl, hrest⟩
  | cons j inner =>
      obtain ⟨rfl, rfl⟩ := List.cons_eq_cons.mp hcode
      exact .inr ⟨hquiet i List.mem_cons_self, inner, rest', rfl,
        fun x hx => hquiet x (List.mem_cons_of_mem _ hx), hrest⟩

theorem Holding.cons {i : Instr} (hi : quiet i = true) (h : Holding rest) :
    Holding (i :: rest) := by
  obtain ⟨inner, rest', rfl, hquiet, hrest⟩ := h
  refine ⟨i :: inner, rest', rfl, ?_, hrest⟩
  intro x hx
  rcases List.mem_cons.mp hx with rfl | hx
  · exact hi
  · exact hquiet x hx

theorem Holding.unlock_mem (h : Holding code) : .unlock ∈ code := by
  obtain ⟨inner, rest, rfl, -⟩ := h
  simp

/-- While a thread holds the mutex, no clone that it drops is the last one. -/
theorem strongCount_ne_one (hk : s.threads[k]? = some ⟨.dropStorage :: rest, own⟩)
    (hf : Funded own (.dropStorage :: rest)) (hunlock : .unlock ∈ rest) :
    s.strongCount ≠ 1 := by
  obtain ⟨m, hm, -, hrest⟩ := hf
  have hpos := hrest.pos_of_unlock hunlock
  have hown := own_le_strongCount hk
  have hw : weight .dropStorage = 1 := rfl
  omega

/-- A step of the thread that holds the mutex. -/
theorem Inv.perform_holding (hi : s.Inv) {i : Instr}
    (hk : s.threads[k]? = some ⟨i :: rest, own⟩) (hown : s.owner = some k) :
    (s.perform S body k own rest i).Inv := by
  obtain ⟨hf, hh, -⟩ := hi k _ hk
  rcases (hh hown).cases with ⟨rfl, hrest⟩ | ⟨hquiet, hholding⟩
  · obtain ⟨m, rfl, -, hf⟩ := hf
    have howner : ∀ j, j ≠ k → ((none : Option Nat) = some j ↔ s.owner = some j) := by
      intro j hj
      simp [hown, Ne.symm hj]
    exact hi.set (t := { s with owner := none }.setThread k rest own) rfl howner hf
      (fun h => by simp [setThread] at h) fun _ => hrest
  -- the mutex stays with the thread
  have hset : ∀ (clients : Nat) (code' : List Instr) (own' : Nat),
      Funded own' code' → Holding code' → ({ s with clients }.setThread k code' own').Inv := by
    intro clients code' own' hf' hh'
    exact hi.set rfl (fun _ _ => Iff.rfl) hf' (fun _ => hh') fun h => absurd hown h
  cases i with
  | op o =>
      obtain ⟨m, rfl, -, hf⟩ := hf
      cases o with
      | register | unregister => simp [quiet, ClientOp.lockFree] at hquiet
      | clone => exact hset _ _ _ hf hholding
      | drop =>
          show (s.beginOp k own rest .drop).Inv
          rw [beginOp]
          split
          · exact hset s.clients _ _ hf hholding
          · exact hset _ _ _ ⟨own + 1, rfl, nofun, own, rfl, nofun, hf⟩
              (.cons rfl (.cons rfl hholding))
  | dropStorage =>
      have hcount := strongCount_ne_one hk hf hholding.unlock_mem
      obtain ⟨m, rfl, -, hf⟩ := hf
      rw [perform, if_neg hcount]
      exact hset s.clients _ _ hf hholding
  | contains | update | deferMessage | insert | takeDeferred | remove | clear | unlock
  | forget | returnHandle | returnClient => simp [quiet] at hquiet

/-- Entering a callback, or finding that there is none. -/
theorem Inv.dispatch (hi : s.Inv) {key : String} {m : RawMessage} (hown : s.owner = none)
    (hpos : 1 ≤ own) (hf : Funded own rest) (hrest : .unlock ∉ rest)
    (hops : ∀ a invocation, s.store.callbackAt key = some a → m.invocation S = some invocation →
      ∀ o ∈ body a.callback.id invocation, o.lockFree = true) :
    (s.dispatch S body k own rest key m).Inv := by
  rw [Threads.dispatch]
  split
  · rename_i a invocation ha hm
    have hops := hops a invocation ha hm
    refine hi.set rfl ?_ (funded_dispatch _ hpos hf) (fun _ => holding_dispatch _ hops hrest) ?_
    · intro j hj
      simp [setThread, hown, Ne.symm hj]
    · intro h
      exact absurd rfl h
  · refine hi.set rfl (fun _ _ => Iff.rfl) hf ?_ fun _ => hrest
    intro h
    simp [setThread, hown] at h

/-- A step of a thread that does not hold the mutex. -/
theorem Inv.perform_free (hi : s.Inv) {i : Instr} (hk : s.threads[k]? = some ⟨i :: rest, own⟩)
    (hown : s.owner ≠ some k) (hlocks : i.locks = true → s.owner = none)
    (hallowed : LockFreeBodies S body s (.step k)) : (s.perform S body k own rest i).Inv := by
  obtain ⟨hf, -, hfree⟩ := hi k _ hk
  obtain ⟨hunlock, hrest⟩ := List.ne_and_not_mem_of_not_mem_cons (hfree hown)
  cases i with
  | contains target m =>
      obtain ⟨m', rfl, hpos, hf⟩ := hf
      rw [perform]
      split
      · exact hi.keep hown s.store s.clients s.handles ⟨own, rfl, fun _ => hpos rfl, hf⟩
          (List.not_mem_cons_of_ne_of_not_mem nofun hrest)
      · exact hi.keep hown s.store s.clients s.handles ⟨own, rfl, fun _ => hpos rfl, hf⟩
          (List.not_mem_cons_of_ne_of_not_mem nofun hrest)
  | update key m =>
      obtain ⟨m', rfl, hpos, hf⟩ := hf
      apply hi.dispatch (hlocks rfl) (hpos rfl) hf hrest
      intro a invocation ha hm
      exact hallowed key m rest own a invocation (.inl hk) ha hm
  | deferMessage key m =>
      obtain ⟨m', rfl, hpos, hf⟩ := hf
      rw [perform]
      split
      · apply hi.dispatch (hlocks rfl) (hpos rfl) hf hrest
        intro a invocation ha hm
        exact hallowed key m rest own a invocation (.inr hk) ha hm
      · exact hi.keep hown _ s.clients s.handles hf hrest
  | insert target callback =>
      obtain ⟨m', rfl, -, hf⟩ := hf
      rw [perform]
      split
      · exact hi.keep hown s.store s.clients s.handles
          ⟨m' + 1, rfl, nofun, m', rfl, nofun, hf⟩ (by simp [hrest])
      · exact hi.keep hown _ s.clients s.handles hf hrest
  | takeDeferred key =>
      obtain ⟨m', rfl, hpos, hf⟩ := hf
      exact hi.keep hown _ s.clients s.handles (hf.map_update (hpos rfl)) (by simp [hrest])
  | remove key =>
      obtain ⟨m', rfl, hpos, hf⟩ := hf
      rw [perform]
      split
      · refine hi.set rfl ?_ (funded_dispatch [] (hpos rfl) hf)
          (fun _ => holding_dispatch [] (by simp) hrest) fun h => absurd rfl h
        intro j hj
        simp [setThread, hlocks rfl, Ne.symm hj]
      · exact hi.keep hown _ s.clients s.handles hf hrest
  | clear =>
      obtain ⟨m', rfl, -, hf⟩ := hf
      exact hi.keep hown _ s.clients s.handles hf hrest
  | unlock => exact absurd rfl hunlock
  | op o =>
      obtain ⟨m', rfl, hpos, hf⟩ := hf
      cases o with
      | register target callback =>
          exact hi.keep hown s.store s.clients s.handles
            ⟨own, rfl, nofun, own, rfl, fun _ => hpos rfl, own, rfl, nofun, hf⟩
            (by simp [hrest])
      | unregister target =>
          show (s.beginOp k own rest (.unregister target)).Inv
          rw [beginOp]
          split
          · exact hi.keep hown s.store s.clients s.handles hf hrest
          · exact hi.keep hown s.store s.clients _
              ⟨own + 1, rfl, fun _ => Nat.le_add_left 1 own, own, rfl, nofun, hf⟩
              (by simp [hrest])
      | clone => exact hi.keep hown s.store _ s.handles hf hrest
      | drop =>
          show (s.beginOp k own rest .drop).Inv
          rw [beginOp]
          split
          · exact hi.keep hown s.store s.clients s.handles hf hrest
          · exact hi.keep hown s.store _ s.handles
              ⟨own + 1, rfl, nofun, own, rfl, nofun, hf⟩ (by simp [hrest])
  | dropStorage =>
      obtain ⟨m', rfl, -, hf⟩ := hf
      rw [perform]
      split
      · exact hi.keep hown s.store s.clients s.handles
          ⟨m' + 1, rfl, nofun, m', rfl, nofun, hf⟩ (by simp [hrest])
      · exact hi.keep hown s.store s.clients s.handles hf hrest
  | forget =>
      obtain ⟨m', rfl, -, hf⟩ := hf
      exact hi.keep hown s.store s.clients s.handles hf hrest
  | returnHandle =>
      obtain ⟨m', rfl, -, hf⟩ := hf
      exact hi.keep hown s.store s.clients _ hf hrest
  | returnClient =>
      obtain ⟨m', rfl, -, hf⟩ := hf
      exact hi.keep hown s.store _ s.handles hf hrest

theorem Inv.step {l : ThreadLabel} (hi : s.Inv) (hallowed : LockFreeBodies S body s l)
    (hst : s.step S body l = some t) : t.Inv := by
  cases l with
  | step k =>
      simp only [Threads.step] at hst
      split at hst
      · rename_i i rest own hk
        split at hst
        · simp at hst
        · rename_i hlocks
          obtain rfl := Option.some.inj hst
          by_cases hown : s.owner = some k
          · exact hi.perform_holding hk hown
          · exact hi.perform_free hk hown (fun h => by simpa [h] using hlocks) hallowed
      · simp at hst
  | process k target m =>
      simp only [Threads.step] at hst
      split at hst
      · rename_i n hk
        obtain ⟨-, hh, -⟩ := hi k _ hk
        split at hst
        · obtain rfl := Option.some.inj hst
          have hown : s.owner ≠ some k := fun h => not_holding_nil (hh h)
          exact hi.keep hown s.store s.clients s.handles
            ⟨n + 1, rfl, fun _ => Nat.le_add_left 1 n, trivial⟩ (by simp)
        · simp at hst
      · simp at hst
  | start k o =>
      simp only [Threads.step] at hst
      split at hst
      · rename_i hk
        obtain ⟨-, hh, -⟩ := hi k _ hk
        have hown : s.owner ≠ some k := fun h => not_holding_nil (hh h)
        split at hst
        · obtain rfl := Option.some.inj hst
          exact hi.keep hown s.store _ s.handles
            ⟨2, rfl, fun _ => by decide, 0, rfl, nofun, trivial⟩ (by simp)
        · obtain rfl := Option.some.inj hst
          exact hi.keep hown s.store _ s.handles
            ⟨2, rfl, fun _ => by decide, 0, rfl, nofun, trivial⟩ (by simp)
        · obtain rfl := Option.some.inj hst
          exact hi.keep hown s.store s.clients s.handles ⟨0, rfl, nofun, trivial⟩ (by simp)
        · obtain rfl := Option.some.inj hst
          exact hi.keep hown s.store s.clients s.handles ⟨0, rfl, nofun, trivial⟩ (by simp)
        · simp at hst
      · simp at hst

theorem inv_of_reaches {capacity readers users : Nat}
    (h : Reaches (step S body) (LockFreeBodies S body) (init capacity readers users) s) :
    s.Inv := by
  refine Reaches.invariant h ?_ fun s l t hi hallowed hst => hi.step hallowed hst
  intro k th hk
  have hmem := List.mem_of_getElem? hk
  have hcode : th.code = [] := by
    rcases List.mem_append.mp hmem with h | h
    · rw [List.eq_of_mem_replicate h]
    · rw [List.eq_of_mem_replicate h]
  rw [hcode]
  exact ⟨trivial, nofun, fun _ => nofun⟩

/-! ### Dispatch finishes -/

/-- Only thread `k` takes steps. -/
def Alone (k : Nat) (_ : Threads V) (l : ThreadLabel) : Prop :=
  l = .step k

/-- How many steps a quiet instruction takes at most. -/
def cost : Instr → Nat
  | .op _ => 3
  | _ => 1

theorem getElem?_set_of_getElem? {threads : List Thread} {th : Thread}
    (h : threads[k]? = some th) (th' : Thread) : (threads.set k th')[k]? = some th' := by
  obtain ⟨hk, -⟩ := List.getElem?_eq_some_iff.mp h
  rw [List.getElem?_set_self hk]

variable (S body)

theorem step_of_not_locks {i : Instr} (hk : s.threads[k]? = some ⟨i :: rest, own⟩)
    (hlocks : i.locks = false) :
    s.step S body (.step k) = some (s.perform S body k own rest i) := by
  simp [Threads.step, hk, hlocks]

theorem step_of_unlocked {i : Instr} (hk : s.threads[k]? = some ⟨i :: rest, own⟩)
    (hown : s.owner = none) :
    s.step S body (.step k) = some (s.perform S body k own rest i) := by
  simp [Threads.step, hk, hown]

/-- The quiet instructions of a thread that holds the mutex run to their end, without a
step of any other thread. -/
theorem reaches_quiet {inner : List Instr} (hown : s.owner = some k)
    (hk : s.threads[k]? = some ⟨inner ++ rest, own⟩) (hquiet : ∀ i ∈ inner, quiet i = true)
    (hf : Funded own (inner ++ rest)) (hunlock : .unlock ∈ rest) :
    ∃ t own', Reaches (step S body) (Alone k) s t ∧ t.owner = some k ∧
      t.store = s.store ∧ t.handles = s.handles ∧ t.threads[k]? = some ⟨rest, own'⟩ := by
  -- by the steps that are left: a drop of a client is replaced by those of its clones
  induction hn : (inner.map cost).sum using Nat.strong_induction_on generalizing s own inner with
  | _ n ih =>
    subst hn
    cases inner with
    | nil => exact ⟨s, own, .refl s, hown, rfl, rfl, hk⟩
    | cons i inner =>
        have hquiet' : ∀ j ∈ inner, quiet j = true :=
          fun j hj => hquiet j (List.mem_cons_of_mem _ hj)
        have hrun : ∀ (u : Threads V) (inner' : List Instr) (own' : Nat),
            s.step S body (.step k) = some u → u.owner = some k → u.store = s.store →
            u.handles = s.handles → u.threads[k]? = some ⟨inner' ++ rest, own'⟩ →
            (∀ j ∈ inner', quiet j = true) → Funded own' (inner' ++ rest) →
            (inner'.map cost).sum < ((i :: inner).map cost).sum →
            ∃ t own', Reaches (step S body) (Alone k) s t ∧ t.owner = some k ∧
              t.store = s.store ∧ t.handles = s.handles ∧ t.threads[k]? = some ⟨rest, own'⟩ := by
          intro u inner' own' hst hu hstore hhandles hk' hq hf' hcost
          obtain ⟨t, own'', hreach, ht, hts, hth, hkt⟩ := ih _ hcost hu hk' hq hf' rfl
          exact ⟨t, own'', .head (.step k) rfl hst hreach, ht, hts.trans hstore,
            hth.trans hhandles, hkt⟩
        have hi := hquiet i List.mem_cons_self
        cases i with
        | op o =>
            obtain ⟨m', rfl, -, hf⟩ := hf
            have hst := step_of_not_locks S body hk rfl
            cases o with
            | register | unregister => simp [quiet, ClientOp.lockFree] at hi
            | clone =>
                exact hrun _ inner own hst hown rfl rfl (getElem?_set_of_getElem? hk _) hquiet' hf
                  (by simp [cost])
            | drop =>
                rw [perform, beginOp] at hst
                split at hst
                · exact hrun _ inner own hst hown rfl rfl (getElem?_set_of_getElem? hk _) hquiet' hf
                    (by simp [cost])
                · refine hrun _ (.dropStorage :: .dropStorage :: inner) (own + 2) hst hown rfl
                    rfl (getElem?_set_of_getElem? hk _) ?_ ?_ ?_
                  · simpa [quiet] using hquiet'
                  · exact ⟨own + 1, rfl, nofun, own, rfl, nofun, hf⟩
                  · simp only [List.map_cons, List.sum_cons, cost]
                    omega
        | dropStorage =>
            -- the guard's own clone is left
            have hcount := strongCount_ne_one hk hf (List.mem_append_right inner hunlock)
            obtain ⟨m', rfl, -, hf⟩ := hf
            have hst := step_of_not_locks S body hk rfl
            rw [perform, if_neg hcount] at hst
            exact hrun _ inner m' hst hown rfl rfl (getElem?_set_of_getElem? hk _) hquiet' hf
              (by simp [cost])
        | contains | update | deferMessage | insert | takeDeferred | remove | clear | unlock
        | forget | returnHandle | returnClient => simp [quiet] at hi

/-- A thread that holds the mutex runs to the end of the guard. -/
theorem reaches_unlock {inner : List Instr} (hown : s.owner = some k)
    (hk : s.threads[k]? = some ⟨inner ++ .unlock :: rest, own⟩)
    (hquiet : ∀ i ∈ inner, quiet i = true) (hf : Funded own (inner ++ .unlock :: rest)) :
    ∃ t own', Reaches (step S body) (Alone k) s t ∧ t.store = s.store ∧ t.owner = none ∧
      t.threads[k]? = some ⟨rest, own'⟩ := by
  obtain ⟨t, own', hrun, -, hstore, -, hkt⟩ :=
    reaches_quiet S body hown hk hquiet hf List.mem_cons_self
  have hunlock := step_of_not_locks S body hkt rfl
  exact ⟨_, own', hrun.trans (.head (.step k) rfl hunlock (.refl _)), hstore, rfl,
    getElem?_set_of_getElem? hkt _⟩

variable {S body}

/-- A thread calls the callback under a key and runs to the end of the guard. -/
theorem reaches_dispatch {key : String} {m : RawMessage} {i : Instr} (hown : s.owner = none)
    (hk : s.threads[k]? = some ⟨i :: rest, own⟩) (hpos : 1 ≤ own) (hf : Funded own rest)
    (hperform : s.perform S body k own rest i = s.dispatch S body k own rest key m)
    (hops : ∀ a invocation, s.store.callbackAt key = some a → m.invocation S = some invocation →
      ∀ o ∈ body a.callback.id invocation, o.lockFree = true) :
    ∃ t own', Reaches (step S body) (Alone k) s t ∧
      t.store = (s.store.update key (Action.updateWith S m)).1 ∧ t.owner = none ∧
      t.threads[k]? = some ⟨rest, own'⟩ := by
  have hst : s.step S body (.step k) = some (s.dispatch S body k own rest key m) := by
    rw [← hperform, step_of_unlocked S body hk hown]
  rw [Threads.dispatch] at hst
  split at hst
  · rename_i a invocation ha hm
    have hops := hops a invocation ha hm
    have hfd := funded_dispatch (body a.callback.id invocation) hpos hf
    obtain ⟨u, hu, hownu, hstoreu, hku⟩ : ∃ u, s.step S body (.step k) = some u ∧
        u.owner = some k ∧ u.store = (s.store.update key (Action.updateWith S m)).1 ∧
        u.threads[k]? = some ⟨_, own + 2⟩ :=
      ⟨_, hst, rfl, rfl, getElem?_set_of_getElem? hk _⟩
    obtain ⟨inner, hcode, hquiet⟩ := quiet_dispatch hops rest
    rw [hcode] at hku hfd
    obtain ⟨t, own', hrun, hstore, hownt, hkt⟩ :=
      reaches_unlock S body hownu hku hquiet hfd
    exact ⟨t, own', .head (.step k) rfl hu hrun, hstore.trans hstoreu, hownt, hkt⟩
  · exact ⟨_, own, .head (.step k) rfl hst (.refl _), rfl, hown, getElem?_set_of_getElem? hk _⟩

/-- An idle reader that receives a record does what `process_message` does, and is idle
again when the callback has returned. -/
theorem reaches_processMessage {m : RawMessage} {invocation : Invocation}
    (hk : s.threads[k]? = some ⟨[], n + 1⟩) (hown : s.owner = none)
    (hm : m.invocation S = some invocation)
    (hops : ∀ a, s.store.callbackAt invocation.target = some a →
      ∀ o ∈ body a.callback.id invocation, o.lockFree = true) :
    ∃ t own', Reaches (step S body) free s t ∧ t.store = (s.store.processMessage S m).1 ∧
      t.owner = none ∧ t.threads[k]? = some ⟨[], own'⟩ := by
  have hops : ∀ a i, s.store.callbackAt invocation.target = some a →
      m.invocation S = some i → ∀ o ∈ body a.callback.id i, o.lockFree = true := by
    intro a i ha hi
    obtain rfl : invocation = i := Option.some.inj (hm.symm.trans hi)
    exact hops a ha
  obtain ⟨htype, hdec⟩ := RawMessage.invocation_eq_some hm
  have hreceive : s.step S body (.process k invocation.target m)
      = some (s.setThread k [.contains invocation.target m] (n + 1)) := by
    simp [Threads.step, hk, hm]
  obtain ⟨u, hu, hownu, hstoreu, hku⟩ : ∃ u, s.step S body (.process k invocation.target m)
      = some u ∧ u.owner = none ∧ u.store = s.store ∧
        u.threads[k]? = some ⟨[.contains invocation.target m], n + 1⟩ :=
    ⟨_, hreceive, hown, rfl, getElem?_set_of_getElem? hk _⟩
  have hlook := step_of_unlocked S body hku hownu
  rw [← hstoreu] at hops ⊢
  -- it is enough to go on from the section after `contains`
  suffices h : ∃ t own', Reaches (step S body) (Alone k)
      (u.perform S body k (n + 1) [] (.contains invocation.target m)) t ∧
      t.store = (u.store.processMessage S m).1 ∧ t.owner = none ∧
      t.threads[k]? = some ⟨[], own'⟩ by
    obtain ⟨t, own', hrun, ht⟩ := h
    exact ⟨t, own', .head _ trivial hu (.head _ trivial hlook
      (hrun.mono fun _ _ _ => trivial)), ht⟩
  rw [Storage.processMessage, perform]
  simp only [htype, hdec]
  split
  · exact reaches_dispatch (s := u.setThread k _ _) hownu (getElem?_set_of_getElem? hku _)
      (Nat.le_add_left 1 n) trivial rfl hops
  · have hkt := getElem?_set_of_getElem? hku ⟨[.deferMessage invocation.target m], n + 1⟩
    by_cases hsome : (u.store.get invocation.target).isSome
    · rw [Storage.deferMessage_of_isSome hsome]
      exact reaches_dispatch (s := u.setThread k _ _) hownu hkt (Nat.le_add_left 1 n) trivial
        (if_pos hsome) hops
    · have hst := step_of_unlocked (s := u.setThread k _ _) S body hkt hownu
      have hnone : ¬ ((u.setThread k [.deferMessage invocation.target m] (n + 1)).store.get
          invocation.target).isSome := hsome
      rw [perform, if_neg hnone] at hst
      exact ⟨_, n + 1, .head (.step k) rfl hst (.refl _), rfl, hownu,
        getElem?_set_of_getElem? hkt _⟩

/-- **Lock-free bodies are safe.**  In every run in which the callbacks dispatched only
clone and drop clients, no thread tries to lock the mutex that it holds; and a thread
that holds it can run to the end of the guard and on, whatever the others do. -/
theorem no_relock {capacity readers users : Nat}
    (h : Reaches (step S body) (LockFreeBodies S body) (init capacity readers users) s) :
    (∀ k, ¬ s.Relocks k) ∧
      ∀ k code own, s.owner = some k → s.threads[k]? = some ⟨code, own⟩ →
        ∃ t inner rest own', code = inner ++ .unlock :: rest ∧
          Reaches (step S body) (Alone k) s t ∧ t.owner = none ∧
          t.threads[k]? = some ⟨rest, own'⟩ := by
  have hi := inv_of_reaches h
  constructor
  · rintro k ⟨hown, i, rest, own, hk, hlocks⟩
    obtain ⟨-, hh, -⟩ := hi k _ hk
    rcases (hh hown).cases with ⟨rfl, -⟩ | ⟨hquiet, -⟩
    · simp [Instr.locks] at hlocks
    · cases i <;> simp_all [Instr.locks, quiet]
  · intro k code own hown hk
    obtain ⟨hf, hh, -⟩ := hi k _ hk
    obtain ⟨inner, rest, rfl, hquiet, -⟩ := hh hown
    obtain ⟨t, own', hrun, -, hownt, hkt⟩ :=
      reaches_unlock S body hown hk hquiet hf
    exact ⟨t, inner, rest, own', rfl, hrun, hownt, hkt⟩

/-- Every callback clones a client and drops it. -/
def cloneBody : Nat → Invocation → List ClientOp :=
  fun _ _ => [.clone, .drop]

theorem lockFreeBodies_cloneBody (s : Threads V) (l : ThreadLabel) :
    LockFreeBodies S cloneBody s l := by
  cases l with
  | step k =>
      intro key m rest own a invocation _ _ _ o ho
      simp only [cloneBody, List.mem_cons, List.not_mem_nil, or_false] at ho
      rcases ho with rfl | rfl <;> rfl
  | process | start => trivial

theorem no_relock_clone :
    ∃ s : Threads Int, s.owner = some 0 ∧ (∀ k, ¬ s.Relocks k) ∧
      ∀ k code own, s.owner = some k → s.threads[k]? = some ⟨code, own⟩ →
        ∃ t inner rest own', code = inner ++ .unlock :: rest ∧
          Reaches (step Deliveries.tickSerde cloneBody) (Alone k) s t ∧ t.owner = none ∧
          t.threads[k]? = some ⟨rest, own'⟩ := by
  have hallowed (s : Threads Int) (l : ThreadLabel) :
      LockFreeBodies Deliveries.tickSerde cloneBody s l := lockFreeBodies_cloneBody s l
  have hrun : Reaches (step Deliveries.tickSerde cloneBody)
      (LockFreeBodies Deliveries.tickSerde cloneBody) (init (V := Int) 8 1 1) _ :=
    .head (.start 1 (.register "tick" 0)) (hallowed _ _) rfl <|
    .head (.step 1) (hallowed _ _) rfl <|
    .head (.step 1) (hallowed _ _) rfl <|
    .head (.process 0 "tick" (Deliveries.tick 1)) (hallowed _ _) rfl <|
    .head (.step 0) (hallowed _ _) rfl <|
    .head (.step 0) (hallowed _ _) rfl <|
    .head (.step 0) (hallowed _ _) rfl <|
    .refl _
  exact ⟨_, rfl, no_relock hrun⟩

/-- Every callback registers another one for `tock`. -/
def registerBody : Nat → Invocation → List ClientOp :=
  fun _ _ => [.register "tock" 1]

/-- The reader calls a callback that registers another one: it waits for itself. -/
theorem register_in_callback_relocks :
    ∃ s : Threads Int,
      Reaches (step Deliveries.tickSerde registerBody) free (init 8 1 1) s ∧
      s.Relocks 0 ∧ s.step Deliveries.tickSerde registerBody (.step 0) = none := by
  have hrun : Reaches (step Deliveries.tickSerde registerBody) free (init (V := Int) 8 1 1) _ :=
    .head (.start 1 (.register "tick" 0)) trivial rfl <|
    .head (.step 1) trivial rfl <|
    .head (.step 1) trivial rfl <|
    .head (.process 0 "tick" (Deliveries.tick 1)) trivial rfl <|
    .head (.step 0) trivial rfl <|
    .head (.step 0) trivial rfl <|
    .head (.step 0) trivial rfl <|
    .refl _
  exact ⟨_, hrun, ⟨rfl, _, _, _, rfl, rfl⟩, rfl⟩

/-- A callback that is found is called, by all three ways to it. -/
theorem perform_eq_dispatch {key : String} {m : RawMessage} {i : Instr} {a : CallbackAction}
    (hi : i = .update key m ∨ i = .deferMessage key m) (ha : s.store.callbackAt key = some a) :
    s.perform S body k own rest i = s.dispatch S body k own rest key m := by
  rcases hi with rfl | rfl
  · rfl
  · rw [perform, if_pos]
    simp [(Storage.callbackAt_eq_some ha).2]

/-- **Any other body locks again.**  If the body of the callback that a thread is about to
call, after operations that lock nothing, registers a callback or uses a handle, then
the thread comes to lock the mutex that it holds. -/
theorem relocks_of_body {capacity readers users : Nat} {key : String} {m : RawMessage}
    {i : Instr} {a : CallbackAction} {invocation : Invocation} {o : ClientOp}
    {before after : List ClientOp}
    (h : Reaches (step S body) (LockFreeBodies S body) (init capacity readers users) s)
    (hk : s.threads[k]? = some ⟨i :: rest, own⟩)
    (hi : i = .update key m ∨ i = .deferMessage key m) (hown : s.owner = none)
    (ha : s.store.callbackAt key = some a) (hm : m.invocation S = some invocation)
    (hbody : body a.callback.id invocation = before ++ o :: after)
    (hbefore : ∀ o ∈ before, o.lockFree = true)
    (ho : o.lockFree = false) (hhandle : ∀ target, o = .unregister target → s.handles ≠ 0) :
    ∃ t, Reaches (step S body) (Alone k) s t ∧ t.Relocks k := by
  have hcall : s.step S body (.step k) = some (s.dispatch S body k own rest key m) := by
    rw [← perform_eq_dispatch hi ha, step_of_unlocked S body hk hown]
  obtain ⟨hf, -⟩ := inv_of_reaches h k _ hk
  have hpos : 1 ≤ own ∧ Funded own rest := by
    obtain ⟨m', hm', hpos, hf⟩ := hf
    rcases hi with rfl | rfl
    · obtain rfl : own = m' := hm'
      exact ⟨hpos rfl, hf⟩
    · obtain rfl : own = m' := hm'
      exact ⟨hpos rfl, hf⟩
  have hfd := funded_dispatch (body a.callback.id invocation) hpos.1 hpos.2
  rw [dispatch, ha, hm] at hcall
  simp only [hbody, List.map_append, List.map_cons, List.append_assoc] at hcall hfd
  obtain ⟨u, hu, hownu, hhandlesu, hku⟩ : ∃ u, s.step S body (.step k) = some u ∧
      u.owner = some k ∧ u.handles = s.handles ∧ u.threads[k]? = some ⟨_, own + 2⟩ :=
    ⟨_, hcall, rfl, rfl, getElem?_set_of_getElem? hk _⟩
  have hquiet : ∀ i ∈ before.map Instr.op, quiet i = true := by
    intro i hi
    obtain ⟨o, ho, rfl⟩ := List.mem_map.mp hi
    exact hbefore o ho
  -- the body runs up to the operation that locks
  obtain ⟨t, own', hrun, hownt, -, hhandles, hkt⟩ := reaches_quiet S body hownu hku
    hquiet hfd (by simp)
  have hop := step_of_not_locks S body hkt rfl
  refine ⟨_, .head (.step k) rfl hu (hrun.trans (.head (.step k) rfl hop (.refl _))), ?_⟩
  cases o with
  | register target callback =>
      exact ⟨hownt, _, _, _, getElem?_set_of_getElem? hkt _, rfl⟩
  | unregister target =>
      obtain ⟨n, hn⟩ := Nat.exists_eq_succ_of_ne_zero (hhandle target rfl)
      have hn' : t.handles = n + 1 := hhandles.trans (hhandlesu.trans hn)
      simp only [perform, beginOp, hn']
      exact ⟨hownt, _, _, _, getElem?_set_of_getElem? hkt _, rfl⟩
  | clone | drop => simp [ClientOp.lockFree] at ho

end Threads

end SignalR
