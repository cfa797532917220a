/-
SignalR/Closing.lean

The end of a `ManualStream`.  `close` only queues a marker, and the poll that takes it
leaves nothing behind: the stream does not know that it has ended.  A message that is
sent after the close is delivered like any other, and a consumer that polls an ended
stream with nothing in its queue is parked.

So the end is final as long as nobody pushes after a close, and an ended stream is
polled only while another end marker waits in its queue (`closing_final_iff`).  The
actions of the client keep to the first of these: `Drop` sends a second marker, and no
item.
-/
import Mathlib.Data.List.Basic
import SignalR.Fifo

namespace SignalR

open Machine ManualStreamState

variable {α : Type}

/-! ### Ended streams -/

/-- After the first end marker there are end markers only. -/
def Sealed (l : List (Option α)) : Prop :=
  ∀ l₁ l₂, l = l₁ ++ none :: l₂ → ∀ x ∈ l₂, x = none

theorem Sealed.append {l l' : List (Option α)} (h : Sealed (l ++ l')) (hend : none ∈ l) :
    ∀ x ∈ l', x = none := by
  obtain ⟨l₁, l₂, rfl⟩ := List.append_of_mem hend
  intro x hx
  apply h l₁ (l₂ ++ l')
  · rw [List.append_assoc, List.cons_append]
  · exact List.mem_append_right l₂ hx

theorem Sealed.concat {l : List (Option α)} (h : Sealed l) {x : Option α}
    (hx : none ∈ l → x = none) : Sealed (l ++ [x]) := by
  intro l₁ l₂ hsplit y hy
  rcases List.eq_nil_or_concat' l₂ with rfl | ⟨l₃, z, rfl⟩
  · exact absurd hy List.not_mem_nil
  · rw [← List.cons_append, ← List.append_assoc] at hsplit
    obtain ⟨hl, hz⟩ := List.append_inj' hsplit rfl
    obtain rfl : x = z := List.singleton_inj.mp hz
    rcases List.mem_append.mp hy with hy | hy
    · exact h l₁ l₃ hl y hy
    · rw [List.mem_singleton.mp hy]
      apply hx
      rw [hl]
      exact List.mem_append_right l₁ List.mem_cons_self

namespace ManualStreamState

/-- What the polls have taken. -/
def taken (s : ManualStreamState α) : List (Option α) :=
  s.pushed.take (s.pushed.length - s.queue.length)

/-- The call leaves the end final: nothing is pushed after a close, and a stream whose
end was taken is polled only while its queue is not empty. -/
def Allows (s : ManualStreamState α) : StreamCall α → Prop
  | .push _ => none ∉ s.pushed
  | .close => True
  | .poll _ => none ∈ s.taken → s.queue ≠ []

instance [DecidableEq α] (s : ManualStreamState α) : (c : StreamCall α) → Decidable (s.Allows c)
  | .push _ => inferInstanceAs (Decidable (none ∉ s.pushed))
  | .close => .isTrue trivial
  | .poll _ => inferInstanceAs (Decidable (none ∈ s.taken → s.queue ≠ []))

/-- The polls that take everything that is queued. -/
def drain (s : ManualStreamState α) (w : Waker) : List (StreamCall α) :=
  List.replicate s.queue.length (.poll w)

/-! ### What was sent and what was taken -/

theorem pushed_call (s : ManualStreamState α) (c : StreamCall α) :
    (s.call c).1.pushed = s.pushed ++ c.message.toList := by
  obtain ⟨x, hm, hc⟩ | ⟨w, rfl, -, hc⟩ | ⟨w, x, rest, rfl, -, hc⟩ := s.call_cases c
  · rw [hc, hm]
    rfl
  · rw [hc]
    exact (List.append_nil _).symm
  · rw [hc]
    exact (List.append_nil _).symm

theorem pushed_final (s : ManualStreamState α) (cs : List (StreamCall α)) :
    (final call s cs).pushed = s.pushed ++ sent cs := by
  induction cs generalizing s with
  | nil => exact (List.append_nil _).symm
  | cons c cs ih =>
      rw [final_cons, ih, pushed_call, List.append_assoc]
      rcases hm : c.message with - | x <;> simp [sent, hm]

/-- What was taken and what is queued is what was pushed. -/
theorem taken_final (cs : List (StreamCall α)) :
    (final call new cs).taken = received (trace call new cs) ∧
      (final call new cs).pushed = (final call new cs).taken ++ (final call new cs).queue := by
  have hpushed : (final call new cs).pushed
      = received (trace call new cs) ++ (final call new cs).queue := by
    rw [pushed_final, received_append_queue]
    rfl
  have htaken : (final call new cs).taken = received (trace call new cs) := by
    rw [taken, hpushed]
    simp
  exact ⟨htaken, by rw [htaken, hpushed]⟩

/-- The polls of a drain find something to take, and leave nothing. -/
theorem drain_spec (n : Nat) {s : ManualStreamState α} (h : s.queue.length = n) (w : Waker) :
    Meets call Allows s (List.replicate n (.poll w)) ∧
      (final call s (List.replicate n (.poll w))).queue = [] := by
  induction n generalizing s with
  | zero => exact ⟨trivial, List.eq_nil_of_length_eq_zero h⟩
  | succ n ih =>
      obtain ⟨x, rest, hq⟩ := List.exists_cons_of_length_eq_add_one h
      obtain ⟨hmeets, hempty⟩ := ih (s := { s with queue := rest }) (by simpa [hq] using h)
      rw [List.replicate_succ, final_cons, Meets, call_poll_cons hq]
      exact ⟨⟨fun _ => by simp [hq], hmeets⟩, hempty⟩

end ManualStreamState

/-! ### The end is final -/

/-- Once a poll has received the end, every later poll receives it. -/
def StaysEnded (cs : List (StreamCall α)) : Prop :=
  ∀ pre w post, trace call new cs = pre ++ (.poll w, .polled (.ready none)) :: post →
    ∀ e ∈ post, e.1.isPoll = true → e.2 = .polled (.ready none)

/-- A message is received by a poll that answers it. -/
theorem mem_received {tr : List (StreamCall α × StreamAnswer α)} {x : Option α}
    (h : x ∈ received tr) : ∃ c, (c, .polled (.ready x)) ∈ tr := by
  obtain ⟨⟨c, answer⟩, he, hx⟩ := List.mem_filterMap.mp h
  refine ⟨c, ?_⟩
  rcases answer with woken | (- | y)
  · exact absurd hx nofun
  · exact absurd hx nofun
  · obtain rfl := Option.some.inj hx
    exact he

/-- Only a poll is answered with a message. -/
theorem isPoll_of_trace {s : ManualStreamState α} {cs : List (StreamCall α)}
    {c : StreamCall α} {x : Option α} (h : (c, .polled (.ready x)) ∈ trace call s cs) :
    ∃ w, c = .poll w := by
  obtain ⟨pre, post, hsplit⟩ := List.append_of_mem h
  obtain ⟨front, back, -, -, hanswer, -⟩ := trace_split hsplit
  cases c with
  | push item => exact absurd hanswer nofun
  | close => exact absurd hanswer nofun
  | poll w => exact ⟨w, rfl⟩

/-- While every call is allowed, what was sent is sealed. -/
theorem sealed_pushed {cs : List (StreamCall α)} (h : Meets call Allows new cs) :
    Sealed (final call (new : ManualStreamState α) cs).pushed := by
  refine final_invariant (I := fun s : ManualStreamState α => Sealed s.pushed) ?_ h
    fun s c hs hc => ?_
  · intro l₁ l₂ hnil
    simp [new] at hnil
  · rw [pushed_call]
    cases c with
    | push item => exact hs.concat fun hend => absurd hend hc
    | close => exact hs.concat fun _ => rfl
    | poll w =>
        show Sealed (s.pushed ++ [])
        rwa [List.append_nil]

/-- **The run lemma.**  A run of allowed calls ends once and for all. -/
theorem staysEnded_of_meets {cs : List (StreamCall α)} (h : Meets call Allows new cs) :
    StaysEnded cs := by
  intro pre w post htrace e he hpoll
  obtain ⟨mid, rest, rfl⟩ := List.append_of_mem he
  rw [← List.cons_append, ← List.append_assoc] at htrace
  obtain ⟨front, back, rfl, hfront, hanswer, -⟩ := trace_split (i := e.1) (o := e.2) htrace
  have hallowed := meets_iff_split.mp h front e.1 back rfl
  have hsealed := sealed_pushed (meets_append.mp h).1
  obtain ⟨htaken, hpushed⟩ := taken_final front
  have hend : none ∈ (final call new front).taken := by
    rw [htaken, hfront, received, List.filterMap_append]
    exact List.mem_append_right _ List.mem_cons_self
  -- the poll finds a message, which is an end marker like all after the first
  generalize final call new front = t at hallowed hsealed hpushed hend hanswer
  obtain ⟨x, hm, -⟩ | ⟨w', hc, hq, -⟩ | ⟨w', x, rest', -, hq, hc⟩ := t.call_cases e.1
  · rcases hce : e.1 with item | - | w'
    · simp [hce, StreamCall.isPoll] at hpoll
    · simp [hce, StreamCall.isPoll] at hpoll
    · simp [hce, StreamCall.message] at hm
  · rw [hc] at hallowed
    exact absurd hq (hallowed hend)
  · rw [hpushed, hq] at hsealed
    have hx : x = none := hsealed.append hend x List.mem_cons_self
    rw [← hanswer, hc, hx]

/-- A run that stays ended to the last message is one of sealed messages. -/
theorem sealed_of_staysEnded {cs : List (StreamCall α)} (h : StaysEnded cs) :
    Sealed (received (trace call new cs)) := by
  intro l₁ l₂ hsplit x hx
  obtain ⟨pre, tail, htrace, -, htail⟩ := List.filterMap_eq_append_iff.mp hsplit
  obtain ⟨quiet, e, post, hpost, -, hend, hl₂⟩ := List.filterMap_eq_cons_iff.mp htail
  obtain ⟨c, answer⟩ := e
  obtain rfl : answer = .polled (.ready none) := by
    rcases answer with woken | (- | y)
    · exact absurd hend nofun
    · exact absurd hend nofun
    · obtain rfl := Option.some.inj hend
      rfl
  rw [hpost, ← List.append_assoc] at htrace
  have hmem : (c, .polled (.ready none)) ∈ trace call new cs := by
    rw [htrace]
    exact List.mem_append_right _ List.mem_cons_self
  obtain ⟨w, rfl⟩ := isPoll_of_trace hmem
  have hreceived : x ∈ received post := by
    rw [received, hl₂]
    exact hx
  obtain ⟨c, hc⟩ := mem_received hreceived
  have hlater : (c, .polled (.ready x)) ∈ trace call new cs := by
    rw [htrace]
    exact List.mem_append_right _ (List.mem_cons_of_mem _ hc)
  have hpoll : c.isPoll = true := by
    obtain ⟨w', rfl⟩ := isPoll_of_trace hlater
    rfl
  have hans := h _ w post htrace _ hc hpoll
  exact Poll.ready.inj (StreamAnswer.polled.inj hans)

/-- **Closing is final** in a run whose consumer then reads what is queued, if and only
if nothing is pushed after a close, and once the consumer has received the end it polls
only while a further end marker is queued. -/
theorem closing_final_iff (cs : List (StreamCall α)) (w : Waker) :
    StaysEnded (cs ++ (final call new cs).drain w) ↔ Meets call Allows new cs := by
  obtain ⟨hmeets, hempty⟩ := drain_spec (s := final call new cs) _ rfl w
  constructor
  · intro h
    have hall : received (trace call new (cs ++ (final call new cs).drain w)) = sent cs := by
      have hsent := received_append_queue new (cs ++ (final call new cs).drain w)
      rw [final_append, drain, hempty, List.append_nil] at hsent
      rw [drain, hsent]
      show [] ++ (cs ++ _).filterMap _ = _
      rw [List.filterMap_append, sent, List.nil_append, List.filterMap_replicate]
      simp [StreamCall.message]
    have hsealed := sealed_of_staysEnded h
    rw [hall] at hsealed
    rw [meets_iff_split]
    rintro pre c post rfl
    obtain ⟨htaken, -⟩ := taken_final pre
    cases c with
    | push item =>
        intro hend
        rw [pushed_final] at hend
        rw [sent, List.filterMap_append] at hsealed
        have hitem := hsealed.append hend (some item) (by simp [StreamCall.message])
        simp at hitem
    | close => trivial
    | poll w' =>
        intro hend hq
        rw [htaken] at hend
        obtain ⟨c, hc⟩ := mem_received hend
        obtain ⟨w₀, rfl⟩ := isPoll_of_trace hc
        obtain ⟨before, between, hbefore⟩ := List.append_of_mem hc
        -- a poll of the ended stream that finds nothing is parked
        have hpark : (StreamCall.poll w', StreamAnswer.polled .pending) ∈ between ++
            trace call (final call new pre)
              (.poll w' :: (post ++ (final call new (pre ++ .poll w' :: post)).drain w)) := by
          rw [trace_cons, call_poll_nil hq]
          exact List.mem_append_right _ List.mem_cons_self
        have hparked := h before w₀ _ (by
          rw [List.append_assoc, List.cons_append, trace_append, hbefore, List.append_assoc]
          rfl) _ hpark rfl
        simp at hparked
  · intro h
    exact staysEnded_of_meets (meets_append.mpr ⟨h, hmeets⟩)

/-- An item that is pushed after the close is delivered after the end, and a consumer of
an ended stream is parked. -/
theorem not_staysEnded_push_after_close :
    ¬ StaysEnded [.close, .poll 0, .push 7, .poll 0] ∧
      ¬ StaysEnded ([.close, .poll 0, .poll 0] : List (StreamCall Nat)) := by
  constructor
  · intro h
    have hlater := h [(.close, .sent none)] 0
      [(.push 7, .sent none), (.poll 0, .polled (.ready (some 7)))] rfl
      (.poll 0, .polled (.ready (some 7))) (by simp) rfl
    exact absurd hlater (by decide)
  · intro h
    have hlater := h [(.close, .sent none)] 0 [(.poll 0, .polled .pending)] rfl
      (.poll 0, .polled .pending) (by simp) rfl
    exact absurd hlater (by decide)

end SignalR
