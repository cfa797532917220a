/-
SignalR/Futures.lean

One `ManualFuture` cell under every order of calls.  The clones of a future and
of its completer share the cell, so who makes a call does not matter: a list of
calls is an order in which the clones take the lock.

What the cell is for is said by `OneShot`: the first `complete` or `cancel`
decides, one poll takes the value, and later terminal calls change nothing.
`FutureState.abs` maps the cell to it, and the cell answers as `OneShot` does
exactly as long as every call `Respects` what the cell holds: `complete` swaps
the state before it looks at it, and `cancel` does not look at all.

Main results:

* `firstWins_iff_meets` — the first terminal call decides, at every moment of a
  run, if and only if every call of the run respects the cell;
* `wakesAll_iff` — which waiting tasks the terminal call wakes: the cell keeps
  one waker, and `cancel` wakes nobody.
-/
import Mathlib.Data.List.Induction
import SignalR.Completer
import SignalR.Machine

namespace SignalR

open Machine

variable {α : Type}

/-! ### Calls and answers -/

/-- A call on a future or on its completer.  A poll names the polling task, which
polls its own clone. -/
inductive FutureCall (α : Type)
  | complete (v : α)
  | cancel
  | poll (task : Nat) (w : Waker)
  deriving DecidableEq, Repr

/-- What a call answers. -/
inductive FutureAnswer (α : Type)
  | completed (c : Completed)
  | cancelled
  | polled (r : Poll α)
  deriving DecidableEq, Repr

namespace FutureCall

def isTerminal : FutureCall α → Bool
  | complete _ | cancel => true
  | poll _ _ => false

def isPoll : FutureCall α → Bool
  | poll _ _ => true
  | complete _ | cancel => false

def isComplete : FutureCall α → Bool
  | complete _ => true
  | poll _ _ | cancel => false

end FutureCall

namespace FutureAnswer

/-- The value a successful poll returns. -/
def value : FutureAnswer α → Option α
  | polled (.ready v) => some v
  | _ => none

/-- The waker a call has woken. -/
def woken : FutureAnswer α → Option Waker
  | completed (.woke w) => some w
  | _ => none

end FutureAnswer

/-- One call on the cell. -/
def FutureState.call (s : FutureState α) : FutureCall α → FutureState α × FutureAnswer α
  | .complete v => ((s.completeWith v).1, .completed (s.completeWith v).2)
  | .cancel => (s.cancel, .cancelled)
  | .poll _ w => ((s.poll w).1, .polled (s.poll w).2)

/-! ### The one-shot cell -/

/-- What the cell is for: unset, holding the value of the first completion, or spent
by a cancellation or by the poll that took the value. -/
inductive OneShot (α : Type)
  | unset
  | holds (v : α)
  | spent
  deriving DecidableEq, Repr

/-- A call on the one-shot cell, with the value that it delivers. -/
def OneShot.call : OneShot α → FutureCall α → OneShot α × Option α
  | .unset, .complete v => (.holds v, none)
  | .unset, .cancel => (.spent, none)
  | .holds v, .poll _ _ => (.spent, some v)
  | s, _ => (s, none)

/-- The values delivered along a trace. -/
def delivered (tr : List (FutureCall α × Option α)) : List α :=
  tr.filterMap Prod.snd

namespace OneShot

/-- Before the first terminal call nothing is delivered and the cell stays unset. -/
theorem unset_of_polls {cs : List (FutureCall α)} (h : ∀ c ∈ cs, c.isTerminal = false) :
    final call .unset cs = .unset ∧ delivered (trace call .unset cs) = [] := by
  induction cs with
  | nil => exact ⟨rfl, rfl⟩
  | cons c cs ih =>
      have hc := h c (List.mem_cons_self ..)
      cases c with
      | complete v => exact absurd hc (by simp [FutureCall.isTerminal])
      | cancel => exact absurd hc (by simp [FutureCall.isTerminal])
      | poll task w => exact ih fun d hd => h d (List.mem_cons_of_mem _ hd)

/-- A spent cell delivers nothing any more. -/
theorem delivered_spent (cs : List (FutureCall α)) : delivered (trace call .spent cs) = [] := by
  induction cs with
  | nil => rfl
  | cons c cs ih => cases c <;> exact ih

/-- A held value goes to the first poll, whatever else is called. -/
theorem delivered_holds (v : α) (cs : List (FutureCall α)) :
    delivered (trace call (.holds v) cs) = if cs.any FutureCall.isPoll then [v] else [] := by
  induction cs with
  | nil => rfl
  | cons c cs ih =>
      cases c with
      | complete v' => exact ih
      | cancel => exact ih
      | poll task w =>
          show v :: delivered (trace call .spent cs) = [v]
          rw [delivered_spent]

theorem delivered_append (s : OneShot α) (cs ds : List (FutureCall α)) :
    delivered (trace call s (cs ++ ds))
      = delivered (trace call s cs) ++ delivered (trace call (final call s cs) ds) := by
  rw [trace_append, delivered, List.filterMap_append]
  rfl

end OneShot

/-! ### The cell follows it -/

namespace FutureState

/-- The one-shot cell that a state stands for. -/
def abs : FutureState α → OneShot α
  | incomplete => .unset
  | waiting _ => .unset
  | complete (some v) => .holds v
  | complete none => .spent

/-- The call keeps what the first terminal call decided: `complete` finds the future
undecided, or holding the very value it brings; `cancel` finds no value to discard. -/
def Respects (s : FutureState α) : FutureCall α → Prop
  | .complete v => s.isCompleted = false ∨ s = .complete (some v)
  | .cancel => s.isCompleted = false ∨ s = .complete none
  | .poll _ _ => True

instance [DecidableEq α] (s : FutureState α) : (c : FutureCall α) → Decidable (s.Respects c)
  | .complete v => inferInstanceAs (Decidable (s.isCompleted = false ∨ s = .complete (some v)))
  | .cancel => inferInstanceAs (Decidable (s.isCompleted = false ∨ s = .complete none))
  | .poll _ _ => inferInstanceAs (Decidable True)

/-- A poll is the poll of the one-shot cell, in every state. -/
theorem abs_poll (s : FutureState α) (task : Nat) (w : Waker) :
    (s.call (.poll task w)).1.abs = (s.abs.call (.poll task w)).1 := by
  rcases s with - | w' | (- | v)
  · rfl
  · show (poll (waiting w') w).1.abs = .unset
    rw [poll_of_not_isCompleted rfl]
    rfl
  · rfl
  · rfl

/-- Every call delivers what the one-shot cell would deliver in its place. -/
theorem value_call (s : FutureState α) (c : FutureCall α) :
    (s.call c).2.value = (s.abs.call c).2 := by
  cases c with
  | complete v => rcases s with - | w' | (- | v') <;> rfl
  | cancel => rcases s with - | w' | (- | v') <;> rfl
  | poll task w =>
      rcases s with - | w' | (- | v')
      · rfl
      · show FutureAnswer.value (.polled (poll (waiting w') w).2) = none
        rw [poll_of_not_isCompleted rfl]
        rfl
      · rfl
      · rfl

/-- **The step lemma.**  A call moves the cell as it moves the one-shot cell exactly
when it respects what the cell holds. -/
theorem abs_call_iff (s : FutureState α) (c : FutureCall α) :
    (s.call c).1.abs = (s.abs.call c).1 ↔ s.Respects c := by
  cases c with
  | complete v =>
      rcases s with - | w' | (- | v')
      · exact iff_of_true rfl (.inl rfl)
      · exact iff_of_true rfl (.inl rfl)
      · -- a completion after the value was taken or the future cancelled
        refine iff_of_false ?_ ?_
        · show OneShot.holds v ≠ .spent
          exact nofun
        · rintro (h | h)
          · simp at h
          · simp at h
      · show OneShot.holds v = .holds v' ↔ _ = _ ∨ _ = _
        simp [eq_comm]
  | cancel =>
      rcases s with - | w' | (- | v')
      · exact iff_of_true rfl (.inl rfl)
      · exact iff_of_true rfl (.inl rfl)
      · exact iff_of_true rfl (.inr rfl)
      · -- the value is discarded
        refine iff_of_false ?_ ?_
        · show OneShot.spent ≠ .holds v'
          exact nofun
        · rintro (h | h)
          · simp at h
          · simp at h
  | poll task w => exact iff_of_true (abs_poll s task w) trivial

/-- A call that does not respect the cell is seen by the next poll. -/
theorem value_poll_call_iff (s : FutureState α) (c : FutureCall α) (task : Nat) (w : Waker) :
    ((s.call c).1.call (.poll task w)).2.value = ((s.abs.call c).1.call (.poll task w)).2 ↔
      s.Respects c := by
  rw [value_call, ← abs_call_iff]
  refine ⟨fun h => ?_, fun h => by rw [h]⟩
  cases c with
  | complete v =>
      rcases s with - | w' | (- | v')
      · rfl
      · rfl
      · exact absurd h (by exact nofun)
      · obtain rfl : v = v' := Option.some.inj h
        rfl
  | cancel =>
      rcases s with - | w' | (- | v')
      · rfl
      · rfl
      · rfl
      · exact absurd h (by exact nofun)
  | poll task' w' => exact abs_poll s task' w'

end FutureState

/-! ### Runs -/

/-- The values that the polls of a run return, from a new cell on. -/
def returned (cs : List (FutureCall α)) : List α :=
  (trace FutureState.call (.new none) cs).filterMap fun e => e.2.value

/-- **The first terminal call decides.**  After a completion its value goes to the
first poll and to no other, whatever is called in between and afterwards; after a
cancellation no poll returns a value; in any case at most one poll does. -/
structure FirstWins (cs : List (FutureCall α)) : Prop where
  completed : ∀ pre v post, cs = pre ++ .complete v :: post →
    (∀ c ∈ pre, c.isTerminal = false) →
    returned cs = if post.any FutureCall.isPoll then [v] else []
  cancelled : ∀ pre post, cs = pre ++ .cancel :: post →
    (∀ c ∈ pre, c.isTerminal = false) → returned cs = []
  once : (returned cs).length ≤ 1

/-- What the one-shot cell delivers for the same calls. -/
def expected (cs : List (FutureCall α)) : List α :=
  delivered (trace OneShot.call .unset cs)

/-- A list of calls has a first terminal call, or none at all. -/
theorem exists_first_terminal (cs : List (FutureCall α)) :
    (∀ c ∈ cs, c.isTerminal = false) ∨
      ∃ pre c post, cs = pre ++ c :: post ∧ (∀ d ∈ pre, d.isTerminal = false) ∧
        c.isTerminal = true := by
  induction cs with
  | nil => exact .inl nofun
  | cons c cs ih =>
      rcases hc : c.isTerminal with - | -
      · rcases ih with h | ⟨pre, d, post, rfl, hpre, hd⟩
        · refine .inl fun d hd => ?_
          rcases List.mem_cons.mp hd with rfl | hd
          · exact hc
          · exact h d hd
        · refine .inr ⟨c :: pre, d, post, rfl, ?_, hd⟩
          intro e he
          rcases List.mem_cons.mp he with rfl | he
          · exact hc
          · exact hpre e he
      · exact .inr ⟨[], c, cs, rfl, nofun, hc⟩

theorem expected_complete {pre post : List (FutureCall α)} {v : α}
    (h : ∀ c ∈ pre, c.isTerminal = false) :
    expected (pre ++ .complete v :: post) = if post.any FutureCall.isPoll then [v] else [] := by
  obtain ⟨hfin, hdel⟩ := OneShot.unset_of_polls h
  rw [expected, OneShot.delivered_append, hdel, hfin]
  exact OneShot.delivered_holds v post

theorem expected_cancel {pre post : List (FutureCall α)} (h : ∀ c ∈ pre, c.isTerminal = false) :
    expected (pre ++ .cancel :: post) = [] := by
  obtain ⟨hfin, hdel⟩ := OneShot.unset_of_polls h
  rw [expected, OneShot.delivered_append, hdel, hfin]
  exact OneShot.delivered_spent post

/-- Without a terminal call the polls return nothing. -/
theorem returned_of_polls {cs : List (FutureCall α)} (h : ∀ c ∈ cs, c.isTerminal = false) :
    returned cs = [] := by
  suffices ∀ s : FutureState α, s.isCompleted = false →
      (trace FutureState.call s cs).filterMap (fun e => e.2.value) = [] from this _ rfl
  induction cs with
  | nil => exact fun _ _ => rfl
  | cons c cs ih =>
      intro s hs
      have hc := h c (List.mem_cons_self ..)
      cases c with
      | complete v => exact absurd hc (by simp [FutureCall.isTerminal])
      | cancel => exact absurd hc (by simp [FutureCall.isTerminal])
      | poll task w =>
          have hv : (s.call (.poll task w)).2.value = none := by
            show FutureAnswer.value (.polled (s.poll w).2) = none
            rw [FutureState.poll_of_not_isCompleted hs]
            rfl
          rw [trace_cons, List.filterMap_cons_none (by exact hv)]
          refine ih (fun d hd => h d (List.mem_cons_of_mem _ hd)) _ ?_
          exact (FutureState.isCompleted_poll s w).trans hs

/-- The three parts together say what the polls return. -/
theorem firstWins_iff (cs : List (FutureCall α)) : FirstWins cs ↔ returned cs = expected cs := by
  rcases exists_first_terminal cs with h | ⟨pre, c, post, rfl, hpre, hc⟩
  · -- no terminal call: both sides are empty
    have hr := returned_of_polls h
    have he : expected cs = [] := (OneShot.unset_of_polls h).2
    refine iff_of_true ⟨?_, ?_, ?_⟩ (hr.trans he.symm)
    · rintro pre v post rfl -
      exact absurd (h (.complete v) (by simp)) (by simp [FutureCall.isTerminal])
    · rintro pre post rfl -
      exact hr
    · rw [hr]
      exact Nat.zero_le 1
  · constructor
    · intro h
      cases c with
      | complete v => rw [h.completed pre v post rfl hpre, expected_complete hpre]
      | cancel => rw [h.cancelled pre post rfl hpre, expected_cancel hpre]
      | poll task w => exact absurd hc (by simp [FutureCall.isTerminal])
    · intro h
      refine ⟨?_, ?_, ?_⟩
      · rintro pre' v post' hcs hpre'
        rw [h, hcs, expected_complete hpre']
      · rintro pre' post' hcs hpre'
        rw [h, hcs, expected_cancel hpre']
      · rw [h]
        cases c with
        | complete v =>
            rw [expected_complete hpre]
            split <;> simp
        | cancel => simp [expected_cancel hpre]
        | poll task w => exact absurd hc (by simp [FutureCall.isTerminal])

/-- A run that respects the cell delivers what the one-shot cell delivers. -/
theorem run_of_meets {cs : List (FutureCall α)}
    (h : Meets FutureState.call FutureState.Respects (.new none) cs) :
    (final FutureState.call (.new none) cs).abs = final OneShot.call .unset cs ∧
      returned cs = expected cs := by
  obtain ⟨hfin, htr⟩ := simulation OneShot.call (fun s t => FutureState.abs s = t)
    FutureAnswer.value (t := .unset) rfl h (by
      rintro s t c rfl hC
      exact ⟨(s.abs_call_iff c).mpr hC, s.value_call c⟩)
  refine ⟨hfin, ?_⟩
  rw [expected, ← htr, delivered, List.filterMap_map]
  rfl

theorem returned_append (cs ds : List (FutureCall α)) :
    returned (cs ++ ds) = returned cs ++
      (trace FutureState.call (final FutureState.call (.new none) cs) ds).filterMap
        fun e => e.2.value := by
  rw [returned, trace_append, List.filterMap_append]
  rfl

theorem filterMap_pair {β : Type} (f : β → Option α) (a b : β) :
    [a, b].filterMap f = (f a).toList ++ (f b).toList := by
  rcases ha : f a with - | x <;> rcases hb : f b with - | y <;> simp [ha, hb]

/-- The state a run ends in respects the next call as soon as one more poll after it
returns what the one-shot cell delivers. -/
theorem respects_of_expected {cs : List (FutureCall α)} {c : FutureCall α} {task : Nat}
    {w : Waker} (h : Meets FutureState.call FutureState.Respects (.new none) cs)
    (he : returned (cs ++ [c, .poll task w]) = expected (cs ++ [c, .poll task w])) :
    (final FutureState.call (.new none) cs).Respects c := by
  obtain ⟨hfin, hret⟩ := run_of_meets h
  generalize hs : final FutureState.call (.new none) cs = s at hfin ⊢
  rw [returned_append, expected, OneShot.delivered_append, hs, ← hfin, hret] at he
  have htail := List.append_cancel_left he
  rw [← s.value_poll_call_iff c task w]
  -- the first of the two calls answers alike, so the poll after it does
  simp only [trace_cons, trace_nil, delivered, filterMap_pair, s.value_call c] at htail
  simpa using congrArg List.head? (List.append_cancel_left htail)

/-- **Only the first completion or cancellation takes effect** at every moment of a
run, also as one more poll would see it, if and only if every call of the run
respects what the cell holds. -/
theorem firstWins_iff_meets (cs : List (FutureCall α)) :
    (∀ pre, pre <+: cs → FirstWins pre ∧ ∀ task w, FirstWins (pre ++ [.poll task w])) ↔
      Meets FutureState.call FutureState.Respects (.new none) cs := by
  constructor
  · intro h
    induction cs using List.reverseRecOn with
    | nil => trivial
    | append_singleton cs c ih =>
        have hcs := ih fun pre hpre => h pre (hpre.trans (List.prefix_append cs [c]))
        refine meets_append.mpr ⟨hcs, ?_, trivial⟩
        have hpoll := (h (cs ++ [c]) List.prefix_rfl).2 0 0
        rw [firstWins_iff, List.append_assoc] at hpoll
        exact respects_of_expected hcs hpoll
  · rintro h pre ⟨post, rfl⟩
    have hpre := (meets_append.mp h).1
    refine ⟨(firstWins_iff pre).mpr (run_of_meets hpre).2, fun task w => ?_⟩
    have hpoll : Meets FutureState.call FutureState.Respects (.new none)
        (pre ++ [.poll task w]) :=
      meets_append.mpr ⟨hpre, trivial, trivial⟩
    exact (firstWins_iff _).mpr (run_of_meets hpoll).2

/-- A second completion panics, and its value replaces the first one. -/
theorem not_firstWins_complete_complete :
    ¬ ∀ cs : List (FutureCall Nat), FirstWins cs := by
  intro h
  have hret := (h [.complete 1, .complete 2, .poll 0 0]).completed [] 1
    [.complete 2, .poll 0 0] rfl nofun
  exact absurd hret (by decide)

/-! ### Wake-ups -/

/-- The waker of a task's latest poll. -/
def latestPoll (polls : List (Nat × Waker)) (task : Nat) : Option Waker :=
  polls.foldl (fun before p => if p.1 = task then some p.2 else before) none

/-- The waker with which a task waits after one more call: that of its latest poll, if
this one was answered `Pending`. -/
def waitsAfter (task : Nat) (before : Option Waker) :
    FutureCall α × FutureAnswer α → Option Waker
  | (.poll t w, .polled .pending) => if t = task then some w else before
  | (.poll t _, .polled (.ready _)) => if t = task then none else before
  | _ => before

/-- The waker with which a task waits at the end of a trace. -/
def waits (task : Nat) (tr : List (FutureCall α × FutureAnswer α)) : Option Waker :=
  tr.foldl (waitsAfter task) none

/-- The calls that polls make. -/
def FutureCall.polls (polls : List (Nat × Waker)) : List (FutureCall α) :=
  polls.map fun p => .poll p.1 p.2

/-- Every task that waits when the call is made is woken by it. -/
def WakesAll (polls : List (Nat × Waker)) (op : FutureCall α) : Prop :=
  let start : FutureState α := .new none
  ∀ task w, waits task (trace FutureState.call start (FutureCall.polls polls)) = some w →
    ((final FutureState.call start (FutureCall.polls polls)).call op).2.woken = some w

/-- Polls of an undecided cell leave the waker of the last of them, and every task
waits with the waker of its own latest poll. -/
theorem polls_of_not_isCompleted (polls : List (Nat × Waker)) {s : FutureState α}
    (hs : s.isCompleted = false) :
    final FutureState.call s (FutureCall.polls polls)
        = (polls.getLast?.map fun p => .waiting p.2).getD s ∧
      ∀ task before, (trace FutureState.call s (FutureCall.polls polls)).foldl
          (waitsAfter task) before
        = polls.foldl (fun before p => if p.1 = task then some p.2 else before) before := by
  induction polls generalizing s with
  | nil => exact ⟨rfl, fun _ _ => rfl⟩
  | cons p polls ih =>
      have hp : s.call (.poll p.1 p.2) = (.waiting p.2, .polled .pending) := by
        show (_, _) = _
        rw [FutureState.poll_of_not_isCompleted hs]
      obtain ⟨hfin, hwaits⟩ := ih (s := .waiting p.2) rfl
      constructor
      · show final FutureState.call (s.call (.poll p.1 p.2)).1 (FutureCall.polls polls) = _
        rw [hp, hfin, List.getLast?_cons]
        cases polls.getLast? <;> rfl
      · intro task before
        show (trace FutureState.call (s.call (.poll p.1 p.2)).1 (FutureCall.polls polls)).foldl _
          (waitsAfter task before (.poll p.1 p.2, (s.call (.poll p.1 p.2)).2)) = _
        rw [hp, hwaits]
        rfl

/-- The last poll is the latest of its task. -/
theorem latestPoll_getLast {polls : List (Nat × Waker)} {p : Nat × Waker}
    (h : polls.getLast? = some p) : latestPoll polls p.1 = some p.2 := by
  obtain ⟨front, rfl⟩ := List.getLast?_eq_some_iff.mp h
  simp [latestPoll]

/-- **Which waiting tasks are woken.**  All of them are if and only if none waits, or
the call is a completion and the latest polls of all tasks had one and the same
waker. -/
theorem wakesAll_iff (polls : List (Nat × Waker)) (op : FutureCall α)
    (hop : op.isTerminal = true) :
    WakesAll polls op ↔ polls = [] ∨ (op.isComplete = true ∧
      ∃ w, ∀ task w', latestPoll polls task = some w' → w' = w) := by
  obtain ⟨hfin, hwaits⟩ := polls_of_not_isCompleted (s := (.new none : FutureState α)) polls rfl
  have hlatest : ∀ task, waits task (trace FutureState.call (.new (none : Option α))
      (FutureCall.polls polls)) = latestPoll polls task := fun task => hwaits task none
  simp only [WakesAll, hfin, hlatest]
  rcases hlast : polls.getLast? with - | p
  · obtain rfl := List.getLast?_eq_none_iff.mp hlast
    exact iff_of_true nofun (.inl rfl)
  · have hne : polls ≠ [] := by
      rintro rfl
      simp at hlast
    show (∀ task w, _ → ((FutureState.waiting p.2).call op).2.woken = some w) ↔ _
    cases op with
    | complete v =>
        -- the waker of the last poll is the one that is woken
        constructor
        · intro h
          refine .inr ⟨rfl, p.2, fun task w' hw' => ?_⟩
          exact (Option.some.inj (h task w' hw')).symm
        · rintro (h | ⟨-, w, h⟩)
          · exact absurd h hne
          · intro task w' hw'
            show some p.2 = some w'
            rw [h task w' hw', h p.1 p.2 (latestPoll_getLast hlast)]
    | cancel =>
        refine iff_of_false ?_ ?_
        · intro h
          exact absurd (h p.1 p.2 (latestPoll_getLast hlast)) nofun
        · rintro (h | ⟨h, -⟩)
          · exact hne h
          · exact absurd h nofun
    | poll task w => exact absurd hop nofun

/-- One task polls twice, the second time with another waker, and is woken. -/
theorem wakesAll_iff_single_task :
    FutureCall.isTerminal (.complete 7) = true ∧
      (WakesAll [(0, 1), (0, 2)] (.complete 7) ↔ [(0, 1), (0, 2)] = ([] : List (Nat × Waker)) ∨
        (FutureCall.isComplete (.complete 7) = true ∧
          ∃ w, ∀ task w', latestPoll [(0, 1), (0, 2)] task = some w' → w' = w)) :=
  ⟨rfl, wakesAll_iff [(0, 1), (0, 2)] (.complete 7) rfl⟩

/-- Two tasks poll their clones and the future is completed: the first sleeps on.
One task polls and the future is cancelled: it sleeps on as well. -/
theorem not_wakesAll_two_tasks :
    ¬ ∀ (polls : List (Nat × Waker)) (op : FutureCall Nat), op.isTerminal = true →
      WakesAll polls op := by
  intro h
  have hwoken := h [(1, 1), (2, 2)] (.complete 7) rfl 1 1 (by decide)
  exact absurd hwoken (by decide)

end SignalR
