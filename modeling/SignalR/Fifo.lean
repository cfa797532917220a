/-
SignalR/Fifo.lean

One `ManualStream` under every order of calls.  `push` and `close` come from any
clone of the completer, `poll_next` from the stream's owner, and each of them
holds the queue lock for its whole body, so a list of calls is an interleaving.

The stream is a FIFO: what the polls have taken and what is still queued make
up, in order, everything that was sent (`received_append_queue`).  No wake-up is
lost because a waker is registered over an empty queue only
(`quiet_final`), and the next `push` or `close` takes it.

Main result: `fifo_run`.
-/
import SignalR.Completer
import SignalR.Machine

namespace SignalR

open Machine

variable {α : Type}

/-! ### Calls and answers -/

/-- A call of the completer or of the stream's owner. -/
inductive StreamCall (α : Type)
  | push (item : α)
  | close
  | poll (w : Waker)
  deriving DecidableEq, Repr

/-- What a call answers: the waker it has woken, or the result of the poll. -/
inductive StreamAnswer (α : Type)
  | sent (woken : Option Waker)
  | polled (r : Poll (Option α))
  deriving DecidableEq, Repr

namespace StreamCall

def isPoll : StreamCall α → Bool
  | poll _ => true
  | push _ | close => false

/-- What a call of the completer queues. -/
def message : StreamCall α → Option (Option α)
  | push item => some (some item)
  | close => some none
  | poll _ => none

end StreamCall

/-- What a poll takes off the queue. -/
def StreamAnswer.message : StreamAnswer α → Option (Option α)
  | polled (.ready x) => some x
  | polled .pending => none
  | sent _ => none

/-- The items and end markers that the calls send. -/
def sent (cs : List (StreamCall α)) : List (Option α) :=
  cs.filterMap StreamCall.message

/-- The results of the polls that did not answer `Pending`. -/
def received (tr : List (StreamCall α × StreamAnswer α)) : List (Option α) :=
  tr.filterMap fun e => e.2.message

namespace ManualStreamState

/-- One call on the stream. -/
def call (s : ManualStreamState α) : StreamCall α → ManualStreamState α × StreamAnswer α
  | .push item => ((s.push item).1, .sent (s.push item).2)
  | .close => (s.close.1, .sent s.close.2)
  | .poll w => ((s.pollNext w).1, .polled (s.pollNext w).2)

/-- What a call of the completer does: the message is queued last and the
registered task is woken, once. -/
theorem call_of_message {s : ManualStreamState α} {c : StreamCall α} {x : Option α}
    (h : c.message = some x) : s.call c = ((s.enqueue x).1, .sent s.waker) := by
  cases c with
  | push item =>
      obtain rfl := Option.some.inj h
      rfl
  | close =>
      obtain rfl := Option.some.inj h
      rfl
  | poll w => exact absurd h nofun

theorem call_poll_nil {s : ManualStreamState α} (h : s.queue = []) (w : Waker) :
    s.call (.poll w) = ({ s with waker := some w }, .polled .pending) := by
  show ((s.pollNext w).1, StreamAnswer.polled (s.pollNext w).2) = _
  rw [pollNext, h]

theorem call_poll_cons {s : ManualStreamState α} {x : Option α} {rest : List (Option α)}
    (h : s.queue = x :: rest) (w : Waker) :
    s.call (.poll w) = ({ s with queue := rest }, .polled (.ready x)) := by
  show ((s.pollNext w).1, StreamAnswer.polled (s.pollNext w).2) = _
  rw [pollNext, h]

/-- **What a call can do**: queue a message and take the waker, register a waker over an
empty queue, or take the front of the queue. -/
theorem call_cases (s : ManualStreamState α) (c : StreamCall α) :
    (∃ x, c.message = some x ∧ s.call c = ((s.enqueue x).1, .sent s.waker)) ∨
      (∃ w, c = .poll w ∧ s.queue = [] ∧
        s.call c = ({ s with waker := some w }, .polled .pending)) ∨
      ∃ w x rest, c = .poll w ∧ s.queue = x :: rest ∧
        s.call c = ({ s with queue := rest }, .polled (.ready x)) := by
  cases c with
  | push item => exact .inl ⟨some item, rfl, call_of_message rfl⟩
  | close => exact .inl ⟨none, rfl, call_of_message rfl⟩
  | poll w =>
      right
      by_cases hq : s.queue = []
      · exact .inl ⟨w, rfl, hq, call_poll_nil hq w⟩
      · obtain ⟨x, rest, hcons⟩ := List.exists_cons_of_ne_nil hq
        exact .inr ⟨w, x, rest, rfl, hcons, call_poll_cons hcons w⟩

/-! ### What one call keeps -/

/-- A call moves at most one message: from the completer to the end of the queue, or
from its front to the poll. -/
theorem message_append_queue (s : ManualStreamState α) (c : StreamCall α) :
    (s.call c).2.message.toList ++ (s.call c).1.queue = s.queue ++ c.message.toList := by
  obtain ⟨x, hm, hc⟩ | ⟨w, rfl, hq, hc⟩ | ⟨w, x, rest, rfl, hq, hc⟩ := s.call_cases c
  · rw [hc, hm]
    rfl
  · rw [hc]
    show s.queue = s.queue ++ []
    rw [List.append_nil]
  · rw [hc, hq]
    show x :: rest = (x :: rest) ++ []
    rw [List.append_nil]

/-- A waker is registered over an empty queue only. -/
def Quiet (s : ManualStreamState α) : Prop :=
  s.queue ≠ [] → s.waker = none

theorem Quiet.call {s : ManualStreamState α} (h : s.Quiet) (c : StreamCall α) :
    (s.call c).1.Quiet := by
  obtain ⟨x, -, hc⟩ | ⟨w, rfl, hq, hc⟩ | ⟨w, x, rest, rfl, hq, hc⟩ := s.call_cases c
  · rw [hc]
    exact fun _ => rfl
  · rw [hc]
    exact fun hne => absurd hq hne
  · rw [hc]
    intro _
    apply h
    rw [hq]
    exact List.cons_ne_nil x rest

/-! ### Runs -/

/-- What the polls received and what is queued is, in order, what was queued and
what was sent. -/
theorem received_append_queue (s : ManualStreamState α) (cs : List (StreamCall α)) :
    received (trace call s cs) ++ (final call s cs).queue = s.queue ++ sent cs := by
  induction cs generalizing s with
  | nil =>
      show s.queue = s.queue ++ []
      rw [List.append_nil]
  | cons c cs ih =>
      calc received (trace call s (c :: cs)) ++ (final call s (c :: cs)).queue
          = (s.call c).2.message.toList ++
              (received (trace call (s.call c).1 cs) ++ (final call (s.call c).1 cs).queue) := by
            rw [← List.append_assoc, trace_cons, final_cons]
            rcases h : (s.call c).2.message with - | x <;> simp [received, h]
        _ = (s.call c).2.message.toList ++ ((s.call c).1.queue ++ sent cs) := by
            rw [ih]
        _ = s.queue ++ (c.message.toList ++ sent cs) := by
            rw [← List.append_assoc, message_append_queue, List.append_assoc]
        _ = s.queue ++ sent (c :: cs) := by
            rcases h : c.message with - | x <;> simp [sent, h]

theorem quiet_new : (new : ManualStreamState α).Quiet :=
  fun h => absurd rfl h

theorem quiet_final (cs : List (StreamCall α)) :
    (final call (new : ManualStreamState α) cs).Quiet :=
  final_invariant (C := fun _ _ => True) quiet_new (meets_of_forall fun _ _ => trivial)
    fun _ c h _ => h.call c

/-- After a poll that answered `Pending`, and as long as the owner does not poll
again, its waker is registered until the first call of the completer, which wakes
it. -/
theorem woken_after_pending {s : ManualStreamState α} {cs : List (StreamCall α)}
    {pre post : List (StreamCall α × StreamAnswer α)} {w : Waker}
    (h : trace call s cs = pre ++ (.poll w, .polled .pending) :: post)
    (hpost : ∀ e ∈ post, e.1.isPoll = false) :
    (post = [] ∧ (final call s cs).waker = some w) ∨
      ∃ c rest, post = (c, .sent (some w)) :: rest := by
  obtain ⟨front, back, rfl, -, hpending, rfl⟩ := trace_split h
  rw [final_append, final_cons]
  generalize final call s front = t at hpending hpost ⊢
  have hpoll : t.call (.poll w) = ({ t with waker := some w }, .polled .pending) := by
    obtain ⟨x, hm, -⟩ | ⟨w', hw, -, hc⟩ | ⟨w', x, rest, -, -, hc⟩ := t.call_cases (.poll w)
    · exact absurd hm nofun
    · obtain rfl : w = w' := (StreamCall.poll.inj hw)
      exact hc
    · rw [hc] at hpending
      exact absurd hpending nofun
  rw [hpoll] at hpost ⊢
  cases back with
  | nil => exact .inl ⟨rfl, rfl⟩
  | cons c back =>
      right
      have hc := hpost _ (List.mem_cons_self ..)
      obtain ⟨x, -, hcall⟩ | ⟨w', rfl, -⟩ | ⟨w', x, rest, rfl, -⟩ :=
        call_cases { t with waker := some w } c
      · rw [trace_cons, hcall]
        exact ⟨c, _, rfl⟩
      · exact absurd hc nofun
      · exact absurd hc nofun

end ManualStreamState

/-- **The stream is a FIFO without lost wake-ups.**  For every interleaving of calls
on a new stream: the results of the polls that are not `Pending` are a prefix of what
was sent, the queue being the rest; no waker is registered over a queue that is not
empty; and a poll that answered `Pending`, when it is the owner's last, has its waker
registered still or woken by the first `push` or `close` after it. -/
theorem fifo_run (cs : List (StreamCall α)) :
    let s := final ManualStreamState.call .new cs
    let tr := trace ManualStreamState.call .new cs
    (received tr <+: sent cs ∧ received tr ++ s.queue = sent cs) ∧
      (s.queue ≠ [] → s.waker = none) ∧
      ∀ pre w post, tr = pre ++ (.poll w, .polled .pending) :: post →
        (∀ e ∈ post, e.1.isPoll = false) →
        (post = [] ∧ s.waker = some w) ∨ ∃ c rest, post = (c, .sent (some w)) :: rest := by
  have hall := ManualStreamState.received_append_queue .new cs
  refine ⟨⟨⟨_, hall⟩, hall⟩, ManualStreamState.quiet_final cs, ?_⟩
  intro pre w post htr hpost
  exact ManualStreamState.woken_after_pending htr hpost

end SignalR
