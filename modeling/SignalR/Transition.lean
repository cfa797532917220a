/-
SignalR/Transition.lean

Runs of a labelled transition function, as a library of its own.  A system is
a partial function `step : σ → ℓ → Option σ`: `step s l = none` says that `l`
is not enabled in `s`.  Every concurrent component of the development is such
a system, with one label for each atomic step of each party, so that a list of
labels is an interleaving.

`Run step C s ls t` executes the labels `ls` from `s` to `t`, and takes every
step in a state that allows it by `C`.  The condition `C` is a parameter
because some results hold of every run (`C` is then `free`) and some only of
the runs that stay away from one transition.

The rules:

* `Run.invariant` — an inductive invariant holds at the end of a run;
* `Run.split`, `Run.unique` — a run goes through one state between two of its parts;
* `Reaches.induction` — the same, with what is known of the states reached before;
* `Reaches.variant` — a goal is reachable if a number can be made smaller until it is;
* `run_free_iff_exec` — an executed list of labels is a run, which is how a
  concrete interleaving is exhibited.
-/
import Mathlib.Logic.Relation

namespace Transition

universe u v

variable {σ : Type u} {ℓ : Type v}

/-! ### Execution and runs -/

/-- Execute a list of labels; `none` as soon as one of them is not enabled. -/
def exec (step : σ → ℓ → Option σ) : σ → List ℓ → Option σ
  | s, [] => some s
  | s, l :: ls => (step s l).bind fun t => exec step t ls

/-- The condition that allows every step. -/
def free : σ → ℓ → Prop := fun _ _ => True

/-- `Run step C s ls t`: the labels `ls` lead from `s` to `t`, every step being
taken in a state that allows it by `C`. -/
inductive Run (step : σ → ℓ → Option σ) (C : σ → ℓ → Prop) : σ → List ℓ → σ → Prop
  | nil (s : σ) : Run step C s [] s
  | cons {s t u : σ} {l : ℓ} {ls : List ℓ} :
      C s l → step s l = some t → Run step C t ls u → Run step C s (l :: ls) u

variable {step : σ → ℓ → Option σ} {C : σ → ℓ → Prop} {s t u : σ} {ls ms : List ℓ}

/-- A guarded step is taken where its guard holds. -/
theorem guard_of_eq_some {p : Prop} [Decidable p] (h : (if p then some s else none) = some t) :
    p ∧ s = t :=
  (Option.ite_none_right_eq_some.mp h).imp_right Option.some.inj

/-! ### Composition -/

theorem Run.single {l : ℓ} (hC : C s l) (h : step s l = some t) : Run step C s [l] t :=
  .cons hC h (.nil t)

theorem Run.append (h : Run step C s ls t) (h' : Run step C t ms u) :
    Run step C s (ls ++ ms) u := by
  induction h with
  | nil => exact h'
  | cons hC hst _ ih => exact .cons hC hst (ih h')

/-- The first step of a run, and the rest. -/
theorem Run.head {l : ℓ} (h : Run step C s (l :: ls) u) :
    ∃ t, step s l = some t ∧ Run step C t ls u := by
  cases h with
  | cons _ hst hrest => exact ⟨_, hst, hrest⟩

/-- A run goes through a state between any two of its parts. -/
theorem Run.split (h : Run step C s (ls ++ ms) u) :
    ∃ t, Run step C s ls t ∧ Run step C t ms u := by
  induction ls generalizing s with
  | nil => exact ⟨s, .nil s, h⟩
  | cons l ls ih =>
      rw [List.cons_append] at h
      cases h with
      | cons hC hst hrest =>
          obtain ⟨t, hfirst, hlast⟩ := ih hrest
          exact ⟨t, .cons hC hst hfirst, hlast⟩

/-- The labels of a run determine where it leads. -/
theorem Run.unique (h : Run step C s ls t) (h' : Run step C s ls u) : t = u := by
  induction h with
  | nil =>
      cases h' with
      | nil => rfl
  | cons _ hst _ ih =>
      obtain ⟨r, hst', hrest⟩ := h'.head
      rw [hst] at hst'
      obtain rfl := Option.some.inj hst'
      exact ih hrest

/-! ### Executions are the unconditional runs -/

theorem run_free_iff_exec : Run step free s ls t ↔ exec step s ls = some t := by
  constructor
  · intro h
    induction h with
    | nil => rfl
    | cons _ hst _ ih => simp [exec, hst, ih]
  · intro h
    induction ls generalizing s with
    | nil =>
        obtain rfl : s = t := by simpa [exec] using h
        exact .nil s
    | cons l ls ih =>
        obtain ⟨r, hr, ht⟩ := Option.bind_eq_some_iff.mp h
        exact .cons trivial hr (ih ht)

/-! ### Induction rules -/

/-- **The invariant rule.**  What holds at the start of a run and is kept by
every step the run may take holds at its end. -/
theorem Run.invariant {I : σ → Prop} (h : Run step C s ls t) (hs : I s)
    (hstep : ∀ s l t, I s → C s l → step s l = some t → I t) : I t := by
  induction h with
  | nil => exact hs
  | cons hC hst _ ih => exact ih (hstep _ _ _ hs hC hst)

/-- A run that meets a condition meets a weaker one. -/
theorem Run.mono {C' : σ → ℓ → Prop} (h : Run step C s ls t) (hC : ∀ s l, C s l → C' s l) :
    Run step C' s ls t := by
  induction h with
  | nil s => exact .nil s
  | cons hs hst _ ih => exact .cons (hC _ _ hs) hst ih

/-- A run whose labels all meet a condition, in any state. -/
theorem Run.of_forall {C' : σ → ℓ → Prop} (h : Run step C s ls t) (hC : ∀ l ∈ ls, ∀ s, C' s l) :
    Run step C' s ls t := by
  induction h with
  | nil s => exact .nil s
  | @cons s _ _ l ls _ hst _ ih =>
      exact .cons (hC l List.mem_cons_self s) hst
        (ih fun l' hl' => hC l' (List.mem_cons_of_mem l hl'))

/-! ### Reachability -/

/-- `t` ends some run from `s` that meets `C`. -/
def Reaches (step : σ → ℓ → Option σ) (C : σ → ℓ → Prop) (s t : σ) : Prop :=
  ∃ ls, Run step C s ls t

theorem Reaches.refl (s : σ) : Reaches step C s s :=
  ⟨[], .nil s⟩

theorem Reaches.trans (h : Reaches step C s t) (h' : Reaches step C t u) : Reaches step C s u := by
  obtain ⟨ls, h⟩ := h
  obtain ⟨ms, h'⟩ := h'
  exact ⟨ls ++ ms, h.append h'⟩

theorem Reaches.head (l : ℓ) (hC : C s l) (hst : step s l = some t) (h : Reaches step C t u) :
    Reaches step C s u :=
  Reaches.trans ⟨[l], .single hC hst⟩ h

/-- A run that meets a condition meets a weaker one. -/
theorem Reaches.mono {C' : σ → ℓ → Prop} (hC : ∀ s l, C s l → C' s l)
    (h : Reaches step C s t) : Reaches step C' s t :=
  h.imp fun _ h => h.mono hC

theorem Reaches.invariant {I : σ → Prop} (h : Reaches step C s t) (hs : I s)
    (hstep : ∀ s l t, I s → C s l → step s l = some t → I t) : I t := by
  obtain ⟨ls, h⟩ := h
  exact h.invariant hs hstep

/-- **The induction rule.**  Like the invariant rule, and each step starts in a state
that is reached as well, so what is known of every reached state may be used. -/
theorem Reaches.induction {I : σ → Prop} (h : Reaches step C s t) (hs : I s)
    (hstep : ∀ u l v, Reaches step C s u → I u → C u l → step u l = some v → I v) : I t := by
  -- strengthen the invariant by the reachability of the state itself
  refine (h.invariant (I := fun u => Reaches step C s u ∧ I u) ⟨.refl s, hs⟩ ?_).2
  rintro u l v ⟨hu, hi⟩ hC hst
  exact ⟨hu.trans ⟨[l], .single hC hst⟩, hstep u l v hu hi hC hst⟩

/-- **The variant rule.**  Where every state with `I` short of the goal `G` leads to
one with `I` and a smaller measure, the goal can be reached. -/
theorem Reaches.variant {I G : σ → Prop} (measure : σ → Nat)
    (hstep : ∀ u, I u → ¬ G u → ∃ v, Reaches step C u v ∧ I v ∧ measure v < measure u)
    (hs : I s) : ∃ t, Reaches step C s t ∧ I t ∧ G t := by
  induction hn : measure s using Nat.strongRecOn generalizing s with
  | _ n ih =>
      by_cases hG : G s
      · exact ⟨s, .refl s, hs, hG⟩
      · obtain ⟨u, hu, hi, hlt⟩ := hstep s hs hG
        obtain ⟨t, ht, hit, hGt⟩ := ih _ (hn ▸ hlt) hi rfl
        exact ⟨t, hu.trans ht, hit, hGt⟩

theorem Reaches.of_exec (ls : List ℓ) (h : exec step s ls = some t) : Reaches step free s t :=
  ⟨ls, run_free_iff_exec.mpr h⟩

end Transition
