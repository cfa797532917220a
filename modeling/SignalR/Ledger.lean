/-
SignalR/Ledger.lean

Shared ownership, as a library of its own.  A resource is shared by its owners:
whoever owns a clone of the handle may clone it for somebody else, a party drops
its clone when it is done, and the resource is freed with its last clone.

A `Ledger` keeps the account twice: `held` lists the owners of each resource, which
is all that the resource itself knows, and `owned` is the resource that each party
has a clone of, which is what the parties know.  A party owns one resource at most.
The ledger is balanced if the two agree.

The rules:

* `Moves.balanced` — creating, cloning and dropping keep a ledger balanced;
* `Moves.free` — a freed resource is never owned again, because there is nobody left
  to clone it from.
-/
import Mathlib.Data.List.Basic
import Mathlib.Logic.Function.Basic
import Mathlib.Logic.Relation

universe u v

/-- Who owns what. -/
structure Ledger (ι : Type u) (α : Type v) where
  held : ι → List α
  owned : α → Option ι

namespace Ledger

variable {ι : Type u} {α : Type v}

/-- The owners that a resource lists are those who own it, each once. -/
structure Balanced (b : Ledger ι α) : Prop where
  nodup : ∀ i, (b.held i).Nodup
  mem : ∀ i a, a ∈ b.held i ↔ b.owned a = some i

/-- Nobody who owns nothing is listed. -/
theorem Balanced.not_mem {b : Ledger ι α} (h : b.Balanced) {i : ι} {a : α}
    (ha : b.owned a = none) : a ∉ b.held i := by
  rw [h.mem, ha]
  exact nofun

variable [DecidableEq ι] [DecidableEq α]

/-- `a` gets a clone of `i`. -/
def take (b : Ledger ι α) (i : ι) (a : α) : Ledger ι α where
  held := Function.update b.held i (a :: b.held i)
  owned := Function.update b.owned a (some i)

/-- `a` drops its clone of `i`. -/
def drop (b : Ledger ι α) (i : ι) (a : α) : Ledger ι α where
  held := Function.update b.held i ((b.held i).erase a)
  owned := Function.update b.owned a none

section

variable {b : Ledger ι α} {i : ι} {a : α}

@[simp] theorem take_owned_of_ne {c : α} (hc : c ≠ a) : (b.take i a).owned c = b.owned c :=
  Function.update_of_ne hc ..

theorem Balanced.take (h : b.Balanced) (ha : b.owned a = none) : (b.take i a).Balanced where
  nodup := by
    intro j
    show (Function.update b.held i (a :: b.held i) j).Nodup
    by_cases hj : j = i
    · subst hj
      rw [Function.update_self]
      exact List.nodup_cons.mpr ⟨h.not_mem ha, h.nodup j⟩
    · rw [Function.update_of_ne hj]
      exact h.nodup j
  mem := by
    intro j c
    show c ∈ Function.update b.held i (a :: b.held i) j ↔
      Function.update b.owned a (some i) c = some j
    by_cases hc : c = a
    · subst hc
      rw [Function.update_self]
      by_cases hj : j = i
      · subst hj
        simp
      · -- it owned nothing before, so no other resource lists it
        simp [hj, h.not_mem ha, Ne.symm hj]
    · rw [Function.update_of_ne hc, ← h.mem]
      by_cases hj : j = i
      · subst hj
        simp [hc]
      · rw [Function.update_of_ne hj]

theorem Balanced.drop (h : b.Balanced) (ha : b.owned a = some i) : (b.drop i a).Balanced where
  nodup := by
    intro j
    show (Function.update b.held i ((b.held i).erase a) j).Nodup
    by_cases hj : j = i
    · subst hj
      rw [Function.update_self]
      exact (h.nodup j).erase a
    · rw [Function.update_of_ne hj]
      exact h.nodup j
  mem := by
    intro j c
    show c ∈ Function.update b.held i ((b.held i).erase a) j ↔
      Function.update b.owned a none c = some j
    by_cases hc : c = a
    · subst hc
      rw [Function.update_self]
      by_cases hj : j = i
      · subst hj
        simp [(h.nodup j).not_mem_erase]
      · rw [Function.update_of_ne hj, h.mem, ha]
        simp [Ne.symm hj]
    · rw [Function.update_of_ne hc, ← h.mem]
      by_cases hj : j = i
      · subst hj
        simp [hc]
      · rw [Function.update_of_ne hj]

end

/-! ### Moves -/

/-- One move on a ledger.  `fresh` are the resources that may be created. -/
inductive Move (fresh : ι → Prop) (b : Ledger ι α) : Ledger ι α → Prop
  | create {i : ι} {a : α} : fresh i → b.owned a = none → Move fresh b (b.take i a)
  -- only a resource that somebody owns can be cloned
  | clone {i : ι} {a : α} : b.held i ≠ [] → b.owned a = none → Move fresh b (b.take i a)
  | drop {i : ι} {a : α} : b.owned a = some i → Move fresh b (b.drop i a)

/-- Any number of moves. -/
def Moves (fresh : ι → Prop) : Ledger ι α → Ledger ι α → Prop :=
  Relation.ReflTransGen (Move fresh)

variable {fresh : ι → Prop} {b b' : Ledger ι α} {i : ι} {a : α}

theorem Move.balanced (h : Move fresh b b') (hb : b.Balanced) : b'.Balanced := by
  cases h with
  | create _ ha => exact hb.take ha
  | clone _ ha => exact hb.take ha
  | drop ha => exact hb.drop ha

theorem Moves.balanced (h : Moves fresh b b') (hb : b.Balanced) : b'.Balanced := by
  induction h with
  | refl => exact hb
  | tail _ hmove ih => exact hmove.balanced ih

/-- One move on a freed resource. -/
theorem Move.free (h : Move fresh b b') (hfree : b.held i = []) (hi : ¬ fresh i) :
    b'.held i = [] := by
  cases h with
  | @create j a hj _ =>
      have hne : i ≠ j := fun heq => hi (heq ▸ hj)
      exact (Function.update_of_ne hne ..).trans hfree
  | @clone j a hj _ =>
      -- there is nobody to clone it from
      have hne : i ≠ j := fun heq => hj (heq ▸ hfree)
      exact (Function.update_of_ne hne ..).trans hfree
  | @drop j a _ =>
      by_cases hne : i = j
      · subst hne
        show Function.update b.held i ((b.held i).erase a) i = []
        rw [Function.update_self, hfree]
        rfl
      · exact (Function.update_of_ne hne ..).trans hfree

theorem Moves.free (h : Moves fresh b b') (hfree : b.held i = []) (hi : ¬ fresh i) :
    b'.held i = [] := by
  induction h with
  | refl => exact hfree
  | tail _ hmove ih => exact hmove.free ih hi

/-- What is owned after some moves was owned before, or is new. -/
theorem Moves.owned (h : Moves fresh b b') (hb : b.Balanced) (ha : b'.owned a = some i) :
    (∃ c, b.owned c = some i) ∨ fresh i := by
  by_cases hi : fresh i
  · exact .inr hi
  · refine .inl ?_
    rcases hheld : b.held i with - | ⟨c, l⟩
    · have hmem := ((h.balanced hb).mem i a).mpr ha
      rw [h.free hheld hi] at hmem
      simp at hmem
    · exact ⟨c, (hb.mem i c).mp (by simp [hheld])⟩

end Ledger
