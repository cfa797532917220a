/-
SignalR/Channels.lean

A connection's channel seen from its two ends.  `SignalR/Writer.lean` has the task that
takes the commands out, with the frames it writes for them; in `SignalR/Client.lean` a
command is taken and written in one step, and the parties see of the task that it has
written a command, has returned, or was aborted (`shown`).  The two agree on whether the
channel is open and on what is in it (`Linked`), and the client's connection follows every
step of the task (`Linked.task`).

The other half is what the rest of the client does to channels, which is nothing
(`apart_step`), and what calls and disconnects are told about theirs.
-/
import Mathlib.Data.List.Forall2
import SignalR.Disconnects
import SignalR.Holdings
import SignalR.Recovery
import SignalR.Writer

namespace SignalR

open Transition

variable {V : Type}

/-! ### One writer task and its connection -/

namespace Writer

variable {C : Config} {s t : Writer} {l : Label} {k : Connection}

/-- No task was started yet, so the channel takes nothing. -/
def absent : Writer :=
  { init with pc := .done }

/-- Commands of the two models that stand for each other. -/
def Command.Same : Command → WriterCommand → Prop
  | .send _, .send _ => True
  | .close d, .close d' => d = d'
  | _, _ => False

/-- A connection of the client whose writer is where this one is.  A command leaves the
connection's list when it has been written. -/
def Matches (s : Writer) (k : Connection) : Prop :=
  match s.pc with
  | .selecting => k.writer = .running ∧ List.Forall₂ Command.Same s.queue k.commands
  | .writing source _ =>
      k.writer = .running ∧
        match source with
        | .user => ∃ c rest, k.commands = .send c :: rest ∧ List.Forall₂ Command.Same s.queue rest
        | .closing d => ∃ rest, k.commands = .close d :: rest
        | .automatic | .ping => List.Forall₂ Command.Same s.queue k.commands
  | .left (some _) => k.writer = .running
  | .left none => k.writer = .running ∧ ∃ d rest, k.commands = .close d :: rest
  | .done => k.writer = .ended
  | .aborted => k.writer = .aborted

/-- A new connection starts with a new task. -/
theorem matches_start (holder : Holder) : Matches init (Connection.start holder) :=
  ⟨rfl, .nil⟩

/-- The channel accepts a command exactly while the client's writer runs. -/
theorem Matches.receiving_iff {k : Connection} (hm : Matches s k) :
    s.pc.receiving = true ↔ k.writer = .running := by
  rw [Matches] at hm
  rcases hpc : s.pc with - | ⟨source, frame⟩ | (- | r) | - | -
  · simp only [hpc] at hm
    exact iff_of_true rfl hm.1
  · simp only [hpc] at hm
    exact iff_of_true rfl hm.1
  · simp only [hpc] at hm
    exact iff_of_true rfl hm.1
  · simp only [hpc] at hm
    exact iff_of_true rfl hm
  · simp only [hpc] at hm
    exact iff_of_false nofun (by simp [hm])
  · simp only [hpc] at hm
    exact iff_of_false nofun (by simp [hm])

/-- A command that both channels accept. -/
theorem Matches.enqueue {k : Connection} {c : Command} {c' : WriterCommand} (hm : Matches s k)
    (hc : c.Same c') (hr : k.writer = .running) :
    Matches { s with queue := s.queue ++ [c] } { k with commands := k.commands ++ [c'] } := by
  have happend : ∀ {l l'}, List.Forall₂ Command.Same l l' →
      List.Forall₂ Command.Same (l ++ [c]) (l' ++ [c']) :=
    fun hl => List.rel_append hl (.cons hc .nil)
  rw [Matches] at hm ⊢
  rcases hpc : s.pc with - | ⟨source, frame⟩ | (- | r) | - | -
  · simp only [hpc] at hm
    exact ⟨hr, happend hm.2⟩
  · simp only [hpc] at hm
    obtain ⟨-, hm⟩ := hm
    refine ⟨hr, ?_⟩
    cases source with
    | user =>
        obtain ⟨call, rest, hcommands, hrest⟩ := hm
        exact ⟨call, rest ++ [c'], by rw [hcommands]; rfl, happend hrest⟩
    | closing d =>
        obtain ⟨rest, hcommands⟩ := hm
        exact ⟨rest ++ [c'], by rw [hcommands]; rfl⟩
    | automatic => exact happend hm
    | ping => exact happend hm
  · simp only [hpc] at hm
    obtain ⟨-, d, rest, hcommands⟩ := hm
    exact ⟨hr, d, rest ++ [c'], by rw [hcommands]; rfl⟩
  · exact hr
  · simp only [hpc] at hm
    simp [hm] at hr
  · simp only [hpc] at hm
    simp [hm] at hr

/-- A send is accepted by both channels, or by neither. -/
theorem Matches.send {k : Connection} (hm : Matches s k) (data : List UInt8) (call : Nat) :
    Matches (s.send data).1
      (if k.writer = .running then { k with commands := k.commands ++ [.send call] } else k) := by
  rw [Writer.send]
  by_cases hr : k.writer = .running
  · rw [if_pos hr, if_pos (hm.receiving_iff.mpr hr)]
    exact hm.enqueue trivial hr
  · rw [if_neg hr, if_neg fun h => hr (hm.receiving_iff.mp h)]
    exact hm

/-- So is a close command. -/
theorem Matches.requestClose {k : Connection} (hm : Matches s k) (d : Nat) :
    Matches (s.requestClose d).1
      (if k.writer = .running then { k with commands := k.commands ++ [.close d] } else k) := by
  rw [Writer.requestClose]
  by_cases hr : k.writer = .running
  · rw [if_pos hr, if_pos (hm.receiving_iff.mpr hr)]
    exact hm.enqueue rfl hr
  · rw [if_neg hr, if_neg fun h => hr (hm.receiving_iff.mp h)]
    exact hm

/-- What the parties of the client see of a step of the writer task of `g`. -/
def shown (s : Writer) (u : Client V) (g : Nat) : Label → Client V
  | .written =>
      match s.pc with
      | .writing .user _ =>
          u.setConnection g
            { u.connections g with commands := (u.connections g).commands.tail }
      | _ => u
  | .finish =>
      match s.pc, s.answers with
      | .left (some reason), _ => u.endWriter g reason
      -- the answer and the end of the channel are one step there
      | .left none, (d, result) :: _ => u.answerClose g d result
      | _, _ => u
  | .abort _ =>
      u.setConnection g { u.connections g with writer := .aborted, commands := [] }
  | _ => u

/-- What a close request can be answered with. -/
def CloseAnswer (result : Except String Unit) : Prop :=
  result = .ok () ∨ ∃ e, result = .error ("Error writing close frame: " ++ e)

/-- A task that leaves its loop without a loss has answered the close request that is
first in the connection's list. -/
def Answers (s : Writer) (k : Connection) : Prop :=
  s.pc = .left none → ∃ d result rest, s.answers = [(d, result)] ∧ CloseAnswer result ∧
    k.commands = .close d :: rest ∧ .close d ∈ s.taken

/-- The task of a connection, and the connection as the parties see it. -/
def Linked (s : Writer) (k : Connection) : Prop :=
  k.writer = .absent ∧ s = absent ∨ Matches s k ∧ Answers s k

/-- Only the writer's side of a connection matters. -/
theorem Linked.congr {k' : Connection} (h : Linked s k) (hwriter : k'.writer = k.writer)
    (hcommands : k'.commands = k.commands) : Linked s k' := by
  rcases h with ⟨habsent, hs⟩ | ⟨hm, ha⟩
  · exact .inl ⟨hwriter.trans habsent, hs⟩
  · refine .inr ⟨?_, ?_⟩
    · rw [Matches] at hm ⊢
      rwa [hwriter, hcommands]
    · rw [Answers] at ha ⊢
      rwa [hcommands]

/-- The channel is open exactly while the client's writer runs. -/
theorem Linked.receiving_iff (h : Linked s k) : s.pc.receiving = true ↔ k.writer = .running := by
  rcases h with ⟨habsent, rfl⟩ | ⟨hm, -⟩
  · exact iff_of_false Bool.false_ne_true (by simp [habsent])
  · exact hm.receiving_iff

theorem Matches.ne_absent (hm : Matches s k) : k.writer ≠ .absent := by
  intro habsent
  rw [Matches] at hm
  rcases hpc : s.pc with - | ⟨source, frame⟩ | (- | r) | - | - <;> simp [hpc, habsent] at hm

/-- A command that both channels accept goes behind the one that is answered. -/
theorem Answers.enqueue (ha : Answers s k) (c : Command) (c' : WriterCommand) :
    Answers { s with queue := s.queue ++ [c] } { k with commands := k.commands ++ [c'] } := by
  intro hpc
  obtain ⟨d, result, rest, hanswers, hresult, heq, htaken⟩ := ha hpc
  refine ⟨d, result, rest ++ [c'], hanswers, hresult, ?_, htaken⟩
  show k.commands ++ [c'] = _
  rw [heq, List.cons_append]

theorem Linked.send (h : Linked s k) (data : List UInt8) (call : Nat) :
    Linked (s.send data).1
      (if k.writer = .running then { k with commands := k.commands ++ [.send call] } else k) := by
  rcases h with ⟨habsent, rfl⟩ | ⟨hm, ha⟩
  · rw [if_neg (by simp [habsent])]
    exact .inl ⟨habsent, rfl⟩
  · refine .inr ⟨hm.send data call, ?_⟩
    rw [Writer.send]
    by_cases hr : k.writer = .running
    · rw [if_pos hr, if_pos (hm.receiving_iff.mpr hr)]
      exact ha.enqueue _ _
    · rw [if_neg hr, if_neg fun h => hr (hm.receiving_iff.mp h)]
      exact ha

theorem Linked.requestClose (h : Linked s k) (d : Nat) :
    Linked (s.requestClose d).1
      (if k.writer = .running then { k with commands := k.commands ++ [.close d] } else k) := by
  rcases h with ⟨habsent, rfl⟩ | ⟨hm, ha⟩
  · rw [if_neg (by simp [habsent])]
    exact .inl ⟨habsent, rfl⟩
  · refine .inr ⟨hm.requestClose d, ?_⟩
    rw [Writer.requestClose]
    by_cases hr : k.writer = .running
    · rw [if_pos hr, if_pos (hm.receiving_iff.mpr hr)]
      exact ha.enqueue _ _
    · rw [if_neg hr, if_neg fun h => hr (hm.receiving_iff.mp h)]
      exact ha

/-- The task takes commands and loses none; what it has answered it has answered. -/
theorem step_keeps (h : step C s l = some t) (hsend : ∀ data, l ≠ .send data)
    (hclose : ∀ d, l ≠ .requestClose d) :
    t.accepted = s.accepted ∧ ∃ more, t.answers = s.answers ++ more := by
  have same : ∀ {w : Writer}, w.taken = s.taken → w.queue = s.queue → w.answers = s.answers →
      w.accepted = s.accepted ∧ ∃ more, w.answers = s.answers ++ more := by
    intro w htaken hqueue hanswers
    refine ⟨?_, [], by rw [hanswers, List.append_nil]⟩
    rw [accepted, accepted, htaken, hqueue]
  -- a command moves from the queue to what was taken
  have take : ∀ {w : Writer} {c : Command}, s.queue = c :: w.queue →
      w.taken = s.taken ++ [c] → w.answers = s.answers →
      w.accepted = s.accepted ∧ ∃ more, w.answers = s.answers ++ more := by
    intro w c hqueue htaken hanswers
    refine ⟨?_, [], by rw [hanswers, List.append_nil]⟩
    rw [accepted, accepted, htaken, hqueue, List.append_assoc]
    rfl
  have hput : ∀ out source frame result,
      ((s.put out source frame).afterWrite source result).accepted = s.accepted ∧
        ∃ more, ((s.put out source frame).afterWrite source result).answers
          = s.answers ++ more := by
    intro out source frame result
    cases out with
    | false => cases source <;> cases result <;> simp [put, afterWrite, accepted]
    | true => cases source <;> cases result <;> simp [put, afterWrite, accepted]
  cases l with
  | send data => exact absurd rfl (hsend data)
  | requestClose d => exact absurd rfl (hclose d)
  | automatic frame =>
      obtain rfl := Option.some.inj h
      rw [sendAutomatic]
      split
      · exact same rfl rfl rfl
      · exact same rfl rfl rfl
  | _ =>
      obtain ⟨hother, -⟩ | hmoves := step_cases h
      · exact absurd trivial hother
      cases hmoves with
      | send _ hq => exact take hq rfl rfl
      | close _ hq => exact take hq rfl rfl
      | written => exact hput true _ _ _
      | writeFails out e => exact hput out _ _ _
      | abortWrite out => cases out <;> exact same rfl rfl rfl
      | _ => exact same rfl rfl rfl

/-- The parties see no call and no disconnect change, but the one that is answered. -/
theorem shown_disconnects (s : Writer) (u : Client V) (g d : Nat) (l : Label) :
    (s.shown u g l).disconnects d = u.disconnects d ∨
      s.pc = .left none ∧ ∃ result rest g', s.answers = (d, result) :: rest ∧
        u.disconnects d = .awaiting g' ∧ (s.shown u g l).disconnects d = .answered g' result := by
  cases l with
  | written =>
      rw [shown]
      split
      · exact .inl rfl
      · exact .inl rfl
  | finish =>
      rw [shown]
      split
      · exact .inl rfl
      · rename_i d' result rest hpc hanswers
        rw [Client.answerClose]
        split
        · rename_i g' hawaiting
          by_cases hd : d = d'
          · subst hd
            exact .inr ⟨hpc, result, rest, g', hanswers, hawaiting, Function.update_self ..⟩
          · exact .inl (Function.update_of_ne hd ..)
        · exact .inl rfl
      · exact .inl rfl
  | _ => exact .inl rfl

/-! ### The steps of the task -/

section

variable {D : SignalR.Config} {u : Client V}

/-- The parties see nothing of step `l`, or a step of the connection, and the two are
linked afterwards. -/
def Shows (D : SignalR.Config) (g : Nat) (s t : Writer) (u : Client V) (l : Label) : Prop :=
  (s.shown u g l = u ∨ ∃ l', u.connectionStep D g l' = some (s.shown u g l)) ∧
    Linked t ((s.shown u g l).connections g)

/-- A step in the middle of a turn. -/
theorem Matches.stays {g : Nat} (ht : Matches t (u.connections g)) (hpc : t.pc ≠ .left none)
    (hshown : s.shown u g l = u) : Shows D g s t u l := by
  refine ⟨.inl hshown, .inr ⟨?_, fun hnone => absurd hnone hpc⟩⟩
  rwa [hshown]

theorem Matches.recv (hm : Matches s (u.connections C.generation))
    (h : step C s .recv = some t) : Shows D C.generation s t u .recv := by
  simp only [step] at h
  split at h
  · rename_i data rest hpc hq
    obtain rfl := Option.some.inj h
    simp only [Matches, hpc, hq] at hm
    obtain ⟨hr, hcommands⟩ := hm
    obtain ⟨c, rest', hsame, hrest, heq⟩ := List.forall₂_cons_left_iff.mp hcommands
    cases c with
    | send call => exact Matches.stays ⟨hr, call, rest', heq, hrest⟩ (by simp) rfl
    | close d => exact hsame.elim
  · rename_i d rest hpc hq
    obtain rfl := Option.some.inj h
    simp only [Matches, hpc, hq] at hm
    obtain ⟨hr, hcommands⟩ := hm
    obtain ⟨c, rest', hsame, -, heq⟩ := List.forall₂_cons_left_iff.mp hcommands
    cases c with
    | send call => exact hsame.elim
    | close d' =>
        obtain rfl := hsame
        exact Matches.stays ⟨hr, rest', heq⟩ (by simp) rfl
  · simp at h

theorem Matches.tick (hm : Matches s (u.connections C.generation))
    (h : step C s .tick = some t) : Shows D C.generation s t u .tick := by
  simp only [step] at h
  split at h
  · rename_i hpc
    simp only [Matches, hpc] at hm
    split at h
    · obtain rfl := Option.some.inj h
      exact Matches.stays hm (by simp) rfl
    · obtain rfl := Option.some.inj h
      exact Matches.stays hm.1 (by simp) rfl
  · simp at h

/-- The parties see a written request leave the connection's list; a close frame that
was written is answered, and seen when the task returns. -/
theorem Matches.written (hi : Inv C s) (hm : Matches s (u.connections C.generation))
    (h : step C s .written = some t) : Shows D C.generation s t u .written := by
  simp only [step] at h
  split at h
  · rename_i source frame hpc
    obtain rfl := Option.some.inj h
    simp only [Inv, hpc] at hi
    simp only [Matches, hpc] at hm
    obtain ⟨hanswers, -, before, -, hsource⟩ := hi
    obtain ⟨hr, hm⟩ := hm
    cases source with
    | user =>
        obtain ⟨call, rest, heq, hrest⟩ := hm
        have hshown : s.shown u C.generation .written = u.setConnection C.generation
            { u.connections C.generation with commands := rest } := by
          simp only [shown, hpc, heq, List.tail_cons]
        have hstep : u.connectionStep D C.generation (.write (.ok ())) =
            some (u.setConnection C.generation
              { u.connections C.generation with commands := rest }) := by
          simp only [Client.connectionStep, heq]
          exact if_pos hr
        rw [Shows, hshown]
        refine ⟨.inr ⟨_, hstep⟩, .inr ⟨?_, fun hnone => Pc.noConfusion hnone⟩⟩
        rw [Client.setConnection_self]
        exact ⟨hr, hrest⟩
    | closing d =>
        obtain ⟨rest, heq⟩ := hm
        have hshown : s.shown u C.generation .written = u := by simp only [shown, hpc]
        rw [Shows, hshown]
        refine ⟨.inl rfl, .inr ⟨⟨hr, d, rest, heq⟩, fun _ => ?_⟩⟩
        refine ⟨d, .ok (), rest, ?_, .inl rfl, heq, ?_⟩
        · show s.answers ++ _ = _
          rw [hanswers, List.nil_append]
        · show _ ∈ s.taken
          simp [hsource.1]
    | automatic =>
        exact Matches.stays ⟨hr, hm⟩ (by simp [afterWrite]) (by simp only [shown, hpc])
    | ping => exact Matches.stays ⟨hr, hm⟩ (by simp [afterWrite]) (by simp only [shown, hpc])
  · simp at h

theorem Matches.writeFails {out : Bool} {e : String} (hi : Inv C s)
    (hm : Matches s (u.connections C.generation)) (h : step C s (.writeFails out e) = some t) :
    Shows D C.generation s t u (.writeFails out e) := by
  simp only [step] at h
  split at h
  · rename_i source frame hpc
    obtain rfl := Option.some.inj h
    obtain ⟨htaken, hkept, -⟩ := s.put_keeps out source frame
    simp only [Inv, hpc] at hi
    simp only [Matches, hpc] at hm
    obtain ⟨hanswers, -, before, -, hsource⟩ := hi
    obtain ⟨hr, hm⟩ := hm
    cases source with
    | closing d =>
        obtain ⟨rest, heq⟩ := hm
        refine ⟨.inl rfl, .inr ⟨⟨hr, d, rest, heq⟩, fun _ => ?_⟩⟩
        refine ⟨d, _, rest, ?_, .inr ⟨e, rfl⟩, heq, ?_⟩
        · show (s.put out _ frame).answers ++ _ = _
          rw [hkept, hanswers, List.nil_append]
        · show _ ∈ (s.put out _ frame).taken
          simp [htaken, hsource.1]
    | user => exact Matches.stays hr (by simp [afterWrite, Source.reason]) rfl
    | automatic => exact Matches.stays hr (by simp [afterWrite, Source.reason]) rfl
    | ping => exact Matches.stays hr (by simp [afterWrite, Source.reason]) rfl
  · simp at h

/-- The end of the task: the answer of the close request, or the report of the loss. -/
theorem Matches.finish (hm : Matches s (u.connections C.generation))
    (ha : Answers s (u.connections C.generation)) (h : step C s .finish = some t) :
    Shows D C.generation s t u .finish := by
  have hended : ∀ {v : Client V} {k : Connection} {w : Writer}, w.pc = .done →
      v.connections = Function.update u.connections C.generation k → k.writer = .ended →
      Linked w (v.connections C.generation) := by
    intro v k w hpc hv hk
    refine .inr ⟨?_, fun hnone => by simp [hpc] at hnone⟩
    rw [Matches, hpc, hv, Function.update_self]
    exact hk
  simp only [step] at h
  split at h
  · rename_i reason hpc
    obtain rfl := Option.some.inj h
    simp only [Matches, hpc] at hm
    cases reason with
    | none =>
        obtain ⟨d, result, rest, hanswers, hresult, heq, -⟩ := ha hpc
        have hshown : s.shown u C.generation .finish = u.answerClose C.generation d result := by
          simp only [shown, hpc, hanswers]
        rw [Shows, hshown]
        refine ⟨.inr ?_, hended rfl rfl rfl⟩
        rcases hresult with rfl | ⟨e, rfl⟩
        · refine ⟨.write (.ok ()), ?_⟩
          simp only [Client.connectionStep, heq]
          exact if_pos hm.1
        · refine ⟨.write (.error e), ?_⟩
          simp only [Client.connectionStep, heq]
          exact if_pos hm.1
    | some reason =>
        have hshown : s.shown u C.generation .finish = u.endWriter C.generation reason := by
          simp only [shown, hpc]
        rw [Shows, hshown]
        exact ⟨.inr ⟨.writeFails reason, if_pos hm⟩, hended rfl rfl rfl⟩
  · simp at h

theorem Matches.abort {out : Bool} (hm : Matches s (u.connections C.generation))
    (hfreed : (u.connections C.generation).holders = []) (h : step C s (.abort out) = some t) :
    Shows D C.generation s t u (.abort out) := by
  have haborted : (u.connections C.generation).writer = .running → t.pc = .aborted →
      Shows D C.generation s t u (.abort out) := by
    intro hr hpc
    refine ⟨.inr ⟨.abortWriter, if_pos ⟨hr, hfreed⟩⟩, .inr ⟨?_, ?_⟩⟩
    · rw [Matches, hpc, shown, Client.setConnection_self]
    · intro hnone
      simp [hpc] at hnone
  simp only [step] at h
  split at h
  · rename_i hpc
    obtain rfl := Option.some.inj h
    simp only [Matches, hpc] at hm
    exact haborted hm.1 rfl
  · rename_i source frame hpc
    obtain rfl := Option.some.inj h
    simp only [Matches, hpc] at hm
    exact haborted hm.1 rfl
  · simp at h

/-- **The task lemma.**  The connection of the client follows every step that the task
takes itself. -/
theorem Linked.task (hi : Inv C s) (hlinked : Linked s (u.connections C.generation))
    (h : step C s l = some t) (hsend : ∀ data, l ≠ .send data)
    (hclose : ∀ d, l ≠ .requestClose d)
    (habort : ∀ out, l = .abort out → (u.connections C.generation).holders = []) :
    Shows D C.generation s t u l := by
  rcases hlinked with ⟨habsent, rfl⟩ | ⟨hm, ha⟩
  · -- without a task there is no step but the reader's frame, which is dropped
    cases l with
    | send data => exact absurd rfl (hsend data)
    | requestClose d => exact absurd rfl (hclose d)
    | automatic frame =>
        obtain rfl := Option.some.inj h
        exact ⟨.inl rfl, .inl ⟨habsent, rfl⟩⟩
    | _ => exact absurd h (by simp [step, absent])
  cases l with
  | send data => exact absurd rfl (hsend data)
  | requestClose d => exact absurd rfl (hclose d)
  | automatic frame =>
      obtain rfl := Option.some.inj h
      refine ⟨.inl rfl, .inr ?_⟩
      show Matches (s.sendAutomatic frame) (u.connections C.generation) ∧
        Answers (s.sendAutomatic frame) (u.connections C.generation)
      rw [sendAutomatic]
      split
      · exact ⟨hm, ha⟩
      · exact ⟨hm, ha⟩
  | recv => exact hm.recv h
  | recvAutomatic =>
      simp only [step] at h
      split at h
      · rename_i frame rest hpc hq
        obtain rfl := Option.some.inj h
        simp only [Matches, hpc] at hm
        exact Matches.stays hm (by simp) rfl
      · simp at h
  | tick => exact hm.tick h
  | written => exact hm.written hi h
  | writeFails out e => exact hm.writeFails hi h
  | finish => exact hm.finish ha h
  | abort out => exact hm.abort (habort out rfl) h

end

end Writer

/-! ### The client apart from its channels -/

namespace Client

variable {C : Config} {s t : Client V} {g : Nat}

/-- The steps that touch no channel to a writer task, and are none of the task's. -/
def Label.apart : Label V → Bool
  | .call _ .offer | .disconnect _ .requestClose => false
  | .connection _ (.write _) | .connection _ (.writeFails _) | .connection _ .abortWriter => false
  | _ => true

/-- The writer's side of connection `g` is as it was. -/
def SameWriter (s t : Client V) (g : Nat) : Prop :=
  (t.connections g).writer = (s.connections g).writer ∧
    (t.connections g).commands = (s.connections g).commands

theorem SameWriter.of_connections (h : t.connections = s.connections) : SameWriter s t g := by
  rw [SameWriter, h]
  exact ⟨rfl, rfl⟩

theorem SameWriter.of_setConnection {g' : Nat} {k : Connection}
    (h : t.connections = Function.update s.connections g' k)
    (hwriter : k.writer = (s.connections g').writer)
    (hcommands : k.commands = (s.connections g').commands) : SameWriter s t g := by
  rw [SameWriter, h]
  by_cases hg : g = g'
  · subst hg
    rw [Function.update_self]
    exact ⟨hwriter, hcommands⟩
  · rw [Function.update_of_ne hg]
    exact ⟨rfl, rfl⟩

/-- A call touches a channel by its offer only. -/
theorem callStep_sameWriter {c : Nat} {l : CallLabel V} (hl : l ≠ .offer)
    (h : s.callStep c l = some t) : SameWriter s t g := by
  cases callStep_transition h with
  | accept | reject => exact absurd rfl hl
  | lookup | serializeFails | report => exact .of_setConnection rfl rfl rfl
  | _ => exact .of_connections rfl

/-- The reader's steps. -/
theorem connectionStep_sameWriter {g' : Nat} {l : ConnectionLabel}
    (hl : Label.apart (V := V) (.connection g' l) = true) (h : s.connectionStep C g' l = some t) :
    SameWriter s t g ∧ t.disconnects = s.disconnects := by
  cases connectionStep_transition h with
  | write | writeError | close | closeError | writeFails | abortWriter => simp [Label.apart] at hl
  | _ => exact ⟨.of_setConnection rfl rfl rfl, rfl⟩

/-- A disconnect touches a channel by its request only. -/
theorem disconnectStep_sameWriter {d : Nat} {l : DisconnectLabel} (hl : l ≠ .requestClose)
    (h : s.disconnectStep d l = some t) : SameWriter s t g := by
  have hdrop : SameWriter s (s.setState .notConnected) g := by
    show (dropState s.connections s.state g).writer = _ ∧
      (dropState s.connections s.state g).commands = _
    cases s.state with
    | connected g' =>
        by_cases hg : g = g'
        · simp [dropState, hg]
        · simp [dropState, hg]
    | _ => exact ⟨rfl, rfl⟩
  cases disconnectStep_move h with
  | requestClose hpc => cases l <;> simp_all [disconnectStep]
  | store => exact hdrop
  | lookup | finishClose => exact .of_setConnection rfl rfl rfl
  | _ => exact .of_connections rfl

/-- **The writer's side of every connection** in a step apart from the channels: it is as
it was, or the monitor has just set the connection up. -/
theorem apart_step {l : Label V} (hl : l.apart = true) (h : step C s l = some t) (g : Nat) :
    SameWriter s t g ∨ l = .monitor (.socket true) ∧ t.monitor = .installing g ∧
      t.connections g = .start .monitor := by
  cases l with
  | call c l => exact .inl (callStep_sameWriter (fun hl' => by simp [hl', Label.apart] at hl) h)
  | connection g' l => exact .inl (connectionStep_sameWriter hl h).1
  | monitor l =>
      rcases (monitorStep_move h).writer g with ⟨hm, hnew⟩ | hsame
      · obtain rfl := eq_socket_of_installing h hm
        exact .inr ⟨rfl, hm, hnew⟩
      · exact .inl hsame
  | disconnect d l =>
      exact .inl (disconnectStep_sameWriter (fun hl' => by simp [hl', Label.apart] at hl) h)
  | user l =>
      obtain rfl := Option.some.inj h
      exact .inl (.of_connections (userStep_frame C s l).2.2.1)

/-! ### What a call and a disconnect are told -/

end Client

/-- A call whose request was accepted was told so, and is past its `send`. -/
def Call.Told (x : Call) : Prop :=
  ∀ g, x.accepted = some g → x.sent = some (.ok ()) ∧
    (x.pc = .waiting ∨ x.pc = .cleaning ∨ x.pc = .returned)

/-- The disconnect has requested a close of connection `g`. -/
def DisconnectPc.Asked (g : Nat) : DisconnectPc → Prop
  | .awaiting g' | .answered g' _ => g' = g
  | .closed g' _ | .stored g' _ | .returned g' _ => g' = some g
  | _ => False

/-- The disconnect was told that the close frame of `g` was written. -/
def DisconnectPc.Acknowledged (g : Nat) : DisconnectPc → Prop
  | .answered g' result => g' = g ∧ result = .ok ()
  | .closed g' result | .stored g' result | .returned g' result => g' = some g ∧ result = .ok ()
  | _ => False

namespace Client

variable {C : Config} {s t : Client V} {g : Nat}

theorem CallMove.told {x y : Call} (h : CallMove s t x y) (hx : x.Told) : y.Told := by
  have hnone : ∀ g, x.accepted = some g → x.pc ≠ .waiting → x.pc ≠ .cleaning →
      x.pc ≠ .returned → False := by
    intro g hg h₁ h₂ h₃
    rcases (hx g hg).2 with h | h | h
    · exact h₁ h
    · exact h₂ h
    · exact h₃ h
  intro g hg
  cases h with
  | same => exact hx g hg
  | accept _ _ hpc' =>
      rcases hpc' with rfl | rfl
      · exact ⟨rfl, .inl rfl⟩
      · exact ⟨rfl, .inr (.inr rfl)⟩
  | finish hpc hpc' =>
      refine ⟨(hx g hg).1, ?_⟩
      rcases hpc' with rfl | rfl
      · exact .inr (.inl rfl)
      · exact .inr (.inr rfl)
  | fail e hpc =>
      rcases hpc with hpc | ⟨e', hpc⟩
      · exact (hnone g hg (by simp [hpc]) (by simp [hpc]) (by simp [hpc])).elim
      · exact (hnone g hg (by simp [hpc]) (by simp [hpc]) (by simp [hpc])).elim
  | start _ hpc | startSend hpc | insert hpc | lookup hpc | lookupFails _ hpc | reject _ hpc =>
      exact (hnone g hg (by simp [hpc]) (by simp [hpc]) (by simp [hpc])).elim

theorem Reachable.callTold {allowed : Client V → Label V → Prop} (h : Reachable C allowed s)
    (c : Nat) : (s.calls c).Told := by
  refine Reaches.invariant (I := fun s => ∀ c, (s.calls c).Told) h ?_ ?_ c
  · intro c g hg
    simp [Client.init, Call.new] at hg
  · intro u l v hi _ hst c
    rcases step_call hst c with hc | ⟨-, -, hmove⟩
    · rw [hc]
      exact hi c
    · exact hmove.told (hi c)

/-- An accepted request stays accepted, by the same connection. -/
theorem accepted_step {l : Label V} {c : Nat} (htold : (s.calls c).Told)
    (h : step C s l = some t) (hc : (s.calls c).accepted = some g) :
    (t.calls c).accepted = some g := by
  rcases step_call h c with hsame | ⟨-, -, hmove⟩
  · rw [hsame]
    exact hc
  · generalize t.calls c = y at hmove
    cases hmove with
    | accept hpc =>
        rcases (htold g hc).2 with h' | h' | h' <;> simp [hpc] at h'
    | _ => exact hc

/-- Apart from the channels no request is accepted. -/
theorem accepted_apart {l : Label V} {c : Nat} (hl : l.apart = true) (htold : (s.calls c).Told)
    (h : step C s l = some t) :
    (t.calls c).accepted = some g ↔ (s.calls c).accepted = some g := by
  refine ⟨fun hc => ?_, accepted_step htold h⟩
  rcases step_call h c with hsame | ⟨⟨l', rfl⟩, -, -⟩
  · rwa [hsame] at hc
  · rcases accepted_of_callStep h hc with hold | ⟨rfl, -⟩
    · exact hold
    · simp [Label.apart] at hl

/-- What was asked of a connection stays asked of it. -/
theorem asked_step {l : Label V} {d : Nat} (h : step C s l = some t)
    (hd : (s.disconnects d).Asked g) : (t.disconnects d).Asked g := by
  rcases step_disconnect h d with hsame | ⟨g', r, hs, ht⟩ | ⟨l', rfl⟩
  · rwa [hsame]
  · rw [hs] at hd
    rw [ht]
    exact hd
  · cases disconnectStep_move h with
    | finishClose result hpc =>
        rw [Client.finishClose, setDisconnect_self]
        rcases hpc with hpc | hpc | hpc
        · rw [hpc] at hd
          exact hd.elim
        · rw [hpc] at hd
          exact congrArg some hd
        · rw [hpc] at hd
          exact congrArg some hd
    | store hpc | sendShutdown hpc =>
        rw [hpc] at hd
        rw [setDisconnect_self]
        exact hd
    | cancel hpc | raiseFlag hpc | lookup hpc | lookupNone hpc | requestClose hpc =>
        rw [hpc] at hd
        exact hd.elim

/-- A disconnect learns of its close frame from the writer only. -/
theorem acknowledged_disconnectStep {d : Nat} {l : DisconnectLabel}
    (h : s.disconnectStep d l = some t) (hd : (t.disconnects d).Acknowledged g) :
    (s.disconnects d).Acknowledged g := by
  cases disconnectStep_move h with
  | finishClose result _ hresult =>
      rw [finishClose, setDisconnect_self] at hd
      rcases hresult with ⟨e, rfl⟩ | hanswered
      · exact absurd hd.2 (by simp)
      · rw [hanswered]
        exact ⟨Option.some.inj hd.1, hd.2⟩
  | store hpc | sendShutdown hpc =>
      rw [setDisconnect_self] at hd
      rw [hpc]
      exact hd
  | lookupNone =>
      rw [setDisconnect_self] at hd
      exact absurd hd.1 (by simp)
  | _ =>
      rw [setDisconnect_self] at hd
      exact hd.elim

/-- Apart from the channels no disconnect learns of its close frame. -/
theorem acknowledged_apart {l : Label V} {d : Nat} (hl : l.apart = true)
    (h : step C s l = some t) (hd : (t.disconnects d).Acknowledged g) :
    (s.disconnects d).Acknowledged g := by
  cases l with
  | call c l => rwa [(callStep_frame h).1.disconnects] at hd
  | connection g' l => rwa [(connectionStep_sameWriter (g := g) hl h).2] at hd
  | monitor l => rwa [(monitorStep_move h).frame.disconnects] at hd
  | disconnect d' l =>
      by_cases hdd : d = d'
      · subst hdd
        exact acknowledged_disconnectStep h hd
      · rwa [(disconnectStep_move h).frame.disconnects d hdd] at hd
  | user l =>
      obtain rfl := Option.some.inj h
      rwa [(userStep_frame C s l).2.2.2.2] at hd

end Client

end SignalR
