/-
SignalR/Commutation.lean

Folds of operations that commute, as a library of its own.  An operation
`f : σ → α → σ` is looked at up to an equivalence `r` of states, because states
often record more than matters (a log, say).  `Commutes r f I` says that `f`
respects `r` and that independent operations can be swapped; then two lists of
pairwise independent operations can be (`Commutes.foldl_foldl`).  Changes of
different places of a function are the basic case (`update_swap`).
-/
import Mathlib.Logic.Function.Basic

namespace Commutation

universe u v

/-- Changes of two different places can be swapped, each made from what stands there. -/
theorem update_swap {ι : Type u} {β : Type v} [DecidableEq ι] {a b : ι} (hne : a ≠ b)
    (x : ι → β) (f g : β → β) :
    Function.update (Function.update x a (f (x a))) b (g (Function.update x a (f (x a)) b))
      = Function.update (Function.update x b (g (x b))) a
          (f (Function.update x b (g (x b)) a)) := by
  rw [Function.update_of_ne hne, Function.update_of_ne hne.symm]
  exact Function.update_comm hne _ _ _

variable {σ : Type u} {α : Type v}

/-- The operations respect the equivalence, and independent ones can be swapped. -/
structure Commutes (r : σ → σ → Prop) (f : σ → α → σ) (I : α → α → Prop) : Prop where
  equiv : Equivalence r
  congr : ∀ {s t} a, r s t → r (f s a) (f t a)
  swap : ∀ s {a b}, I a b → r (f (f s a) b) (f (f s b) a)

variable {r : σ → σ → Prop} {f : σ → α → σ} {I : α → α → Prop} {s t : σ}

theorem Commutes.foldl_congr (h : Commutes r f I) (as : List α) (hst : r s t) :
    r (as.foldl f s) (as.foldl f t) := by
  induction as generalizing s t with
  | nil => exact hst
  | cons a as ih => exact ih (h.congr a hst)

/-- One operation moves past a list of operations independent of it. -/
theorem Commutes.foldl_swap (h : Commutes r f I) {a : α} {bs : List α} (hI : ∀ b ∈ bs, I a b) :
    r (bs.foldl f (f s a)) (f (bs.foldl f s) a) := by
  induction bs generalizing s with
  | nil => exact h.equiv.refl _
  | cons b bs ih =>
      have hswap := h.foldl_congr bs (h.swap s (hI b List.mem_cons_self))
      exact h.equiv.trans hswap (ih fun c hc => hI c (List.mem_cons_of_mem _ hc))

/-- Two lists of operations commute if each operation of the one is independent of each
of the other. -/
theorem Commutes.foldl_foldl (h : Commutes r f I) {as bs : List α}
    (hI : ∀ a ∈ as, ∀ b ∈ bs, I a b) :
    r (bs.foldl f (as.foldl f s)) (as.foldl f (bs.foldl f s)) := by
  induction as generalizing s with
  | nil => exact h.equiv.refl _
  | cons a as ih =>
      have htail := ih (s := f s a) fun c hc => hI c (List.mem_cons_of_mem _ hc)
      have hhead := h.foldl_congr as (h.foldl_swap (s := s) (hI a List.mem_cons_self))
      exact h.equiv.trans htail hhead

end Commutation
