/-
SignalR/Machine.lean

Machines that answer, as a library of its own.  A machine is a total function
`step : σ → ι → σ × ο`: it takes a call in a state and gives the next state and
an answer.  An object behind a lock is such a machine, and a list of calls is
an order in which its holders take the lock.

`final step s is` is the state after the calls `is`, and `trace step s is` lists
the calls with their answers.  `Meets step C s is` says that every call is made
in a state that allows it by `C`.

The rules:

* `final_invariant` — what the allowed calls keep holds after them;
* `simulation` — a machine whose allowed calls follow an abstract one gives the
  answers of the abstract one.
-/
import Mathlib.Data.Prod.Basic

namespace Machine

universe u v w

variable {σ : Type u} {ι : Type v} {ο : Type w}

/-! ### Runs -/

/-- The state after a list of calls. -/
def final (step : σ → ι → σ × ο) : σ → List ι → σ
  | s, [] => s
  | s, i :: is => final step (step s i).1 is

/-- The calls with their answers. -/
def trace (step : σ → ι → σ × ο) : σ → List ι → List (ι × ο)
  | _, [] => []
  | s, i :: is => (i, (step s i).2) :: trace step (step s i).1 is

/-- Every call is made in a state that allows it by `C`. -/
def Meets (step : σ → ι → σ × ο) (C : σ → ι → Prop) : σ → List ι → Prop
  | _, [] => True
  | s, i :: is => C s i ∧ Meets step C (step s i).1 is

instance decidableMeets (step : σ → ι → σ × ο) (C : σ → ι → Prop) [∀ s i, Decidable (C s i)] (s : σ) :
    (is : List ι) → Decidable (Meets step C s is)
  | [] => .isTrue trivial
  | i :: is =>
      have : Decidable (Meets step C (step s i).1 is) := decidableMeets step C _ is
      inferInstanceAs (Decidable (C s i ∧ Meets step C (step s i).1 is))

variable {step : σ → ι → σ × ο} {C : σ → ι → Prop} {s : σ} {is js : List ι}

@[simp] theorem final_nil : final step s [] = s := rfl

@[simp] theorem final_cons (i : ι) : final step s (i :: is) = final step (step s i).1 is := rfl

@[simp] theorem trace_nil : trace step s [] = [] := rfl

@[simp] theorem trace_cons (i : ι) :
    trace step s (i :: is) = (i, (step s i).2) :: trace step (step s i).1 is := rfl

/-! ### Composition -/

theorem final_append : final step s (is ++ js) = final step (final step s is) js := by
  induction is generalizing s with
  | nil => rfl
  | cons i is ih => exact ih

theorem trace_append :
    trace step s (is ++ js) = trace step s is ++ trace step (final step s is) js := by
  induction is generalizing s with
  | nil => rfl
  | cons i is ih =>
      show _ :: trace step _ (is ++ js) = _ :: (trace step _ is ++ _)
      rw [ih]
      rfl

/-- The trace names the calls that were made. -/
@[simp] theorem map_fst_trace : (trace step s is).map Prod.fst = is := by
  induction is generalizing s with
  | nil => rfl
  | cons i is ih =>
      rw [trace_cons, List.map_cons, ih]

theorem meets_append :
    Meets step C s (is ++ js) ↔ Meets step C s is ∧ Meets step C (final step s is) js := by
  induction is generalizing s with
  | nil => exact ⟨fun h => ⟨trivial, h⟩, And.right⟩
  | cons i is ih =>
      show (_ ∧ Meets step C _ (is ++ js)) ↔ (_ ∧ Meets step C _ is) ∧ _
      rw [ih, and_assoc, final_cons]

/-- The condition, call by call. -/
theorem meets_iff_split :
    Meets step C s is ↔ ∀ pre i post, is = pre ++ i :: post → C (final step s pre) i := by
  constructor
  · rintro h pre i post rfl
    exact (meets_append.mp h).2.1
  · intro h
    induction is generalizing s with
    | nil => trivial
    | cons i is ih =>
        refine ⟨h [] i is rfl, ih fun pre j post hsplit => ?_⟩
        rw [hsplit] at h
        exact h (i :: pre) j post rfl

theorem meets_of_forall (h : ∀ s i, C s i) : Meets step C s is := by
  induction is generalizing s with
  | nil => trivial
  | cons i is ih => exact ⟨h s i, ih⟩

/-- A split of the trace at an answered call is a split of the calls. -/
theorem trace_split {pre post : List (ι × ο)} {i : ι} {o : ο}
    (h : trace step s is = pre ++ (i, o) :: post) :
    ∃ front back, is = front ++ i :: back ∧ trace step s front = pre ∧
      (step (final step s front) i).2 = o ∧
      trace step (step (final step s front) i).1 back = post := by
  induction pre generalizing s is with
  | nil =>
      cases is with
      | nil => exact absurd h (by simp)
      | cons j js =>
          obtain ⟨hji, hrest⟩ := List.cons.inj h
          obtain ⟨rfl, rfl⟩ := Prod.mk.inj hji
          exact ⟨[], js, rfl, rfl, rfl, hrest⟩
  | cons e pre ih =>
      cases is with
      | nil => exact absurd h (by simp)
      | cons j js =>
          obtain ⟨rfl, hrest⟩ := List.cons.inj h
          obtain ⟨front, back, rfl, rfl, ho, hpost⟩ := ih hrest
          exact ⟨j :: front, back, rfl, rfl, ho, hpost⟩

/-! ### Rules -/

/-- **The invariant rule.** -/
theorem final_invariant {I : σ → Prop} (hs : I s) (hC : Meets step C s is)
    (hstep : ∀ s i, I s → C s i → I (step s i).1) : I (final step s is) := by
  induction is generalizing s with
  | nil => exact hs
  | cons i is ih => exact ih (hstep s i hs hC.1) hC.2

/-- **The simulation rule.**  `f` reads the answer of the abstract machine off an
answer of the concrete one.  Where every allowed call keeps the states related
and answers as the abstract machine does, a whole run does. -/
theorem simulation {τ : Type u} {ο' : Type w} (step' : τ → ι → τ × ο') (R : σ → τ → Prop)
    (f : ο → ο') {t : τ} (hR : R s t) (hC : Meets step C s is)
    (hstep : ∀ s t i, R s t → C s i →
      R (step s i).1 (step' t i).1 ∧ f (step s i).2 = (step' t i).2) :
    R (final step s is) (final step' t is) ∧
      (trace step s is).map (Prod.map id f) = trace step' t is := by
  induction is generalizing s t with
  | nil => exact ⟨hR, rfl⟩
  | cons i is ih =>
      obtain ⟨hR', hans⟩ := hstep s t i hR hC.1
      obtain ⟨hend, htr⟩ := ih hR' hC.2
      refine ⟨hend, ?_⟩
      rw [trace_cons, trace_cons, List.map_cons, htr, ← hans]
      rfl

end Machine
