/-
SignalR/Sockets.lean

The client together with the writer tasks of all its connections and the bytes they
write: `SignalR/Client.lean` says who may hand a request to which connection, and
`SignalR/Writer.lean` what one task does with what it is handed.

What the client's parties see is a run of the client (`simulates`), so its invariants hold
here too, and with the writer's they say what a request's fate is on the wire: it is
written once at most, on the one connection that accepted it, in the order of acceptance,
and before the close frame of a close that was acknowledged (`requests_written_once`).
-/
import SignalR.Channels

namespace SignalR

open Transition

variable {V : Type}

/-! ### The client with its sockets -/

/-- What a connection was asked to write: the request of a call, with its bytes, or the
close frame of a disconnect. -/
inductive Request
  | send (call : Nat) (data : List UInt8)
  | close (disconnect : Nat)

def Request.command : Request → Writer.Command
  | .send _ data => .send data
  | .close d => .close d

def Request.call : Request → Option Nat
  | .send c _ => some c
  | .close _ => none

def Request.data : Request → Option (List UInt8)
  | .send _ data => some data
  | .close _ => none

/-- The client, the writer task of every connection, and, a ghost field, the requests that
every channel has accepted, in order. -/
structure Sockets (V : Type) where
  client : Client V
  writers : Nat → Writer
  requests : Nat → List Request

namespace Sockets

/-- The calls among some requests. -/
def calls (l : List Request) : List Nat :=
  l.filterMap Request.call

/-- The bytes of the calls among some requests. -/
def payloads (l : List Request) : List (List UInt8) :=
  l.filterMap Request.data

/-- What the writer task of generation `g` captures. -/
def writerConfig (C : Config) (pings : Serializer Ping) (g : Nat) : Writer.Config where
  generation := g
  protocol := C.protocol
  pings := pings

/-- The client that `connect` returns. -/
def init (C : Config) : Sockets V where
  client := .init C
  writers := Function.update (fun _ => .absent) 1 .init
  requests := fun _ => []

/-- Channel `g` was given `r`, after which its task is `w`. -/
def push (s : Sockets V) (client : Client V) (g : Nat) (w : Writer) (r : Request) :
    Sockets V where
  client := client
  writers := Function.update s.writers g w
  requests :=
    if (s.writers g).pc.receiving then Function.update s.requests g (s.requests g ++ [r])
    else s.requests

/-- A step that touches a channel, of the writer task of `g`, or of another party. -/
inductive Label (V : Type)
  /-- `connection.send`, with the serialized request. -/
  | offer (c : Nat) (data : List UInt8)
  /-- The request of `close_gracefully`. -/
  | requestClose (d : Nat)
  | writer (g : Nat) (l : Writer.Label)
  | party (l : Client.Label V)

/-- The task and the reader's automatic frames; a task is aborted once nobody owns its
connection. -/
def allows (s : Sockets V) (g : Nat) : Writer.Label → Bool
  | .send _ | .requestClose _ => false
  | .abort _ => (s.client.connections g).holders.isEmpty
  | _ => true

/-- A connection is set up together with its writer task. -/
def started (s : Sockets V) : Client.Label V → Nat → Writer
  | .monitor (.socket true) =>
      match s.client.monitor with
      | .connecting _ h => Function.update s.writers h .init
      | _ => s.writers
  | _ => s.writers

/-- One step. -/
def step (C : Config) (pings : Serializer Ping) (s : Sockets V) :
    Label V → Option (Sockets V)
  | .offer c data =>
      match (s.client.calls c).pc with
      | .holding g =>
          some (s.push (s.client.offer c g) g ((s.writers g).send data).1 (.send c data))
      | _ => none
  | .requestClose d =>
      match s.client.disconnects d with
      | .closing g =>
          (s.client.disconnectStep d .requestClose).map fun client =>
            s.push client g ((s.writers g).requestClose d).1 (.close d)
      | _ => none
  | .writer g l =>
      if s.allows g l then
        ((s.writers g).step (writerConfig C pings g) l).map fun w =>
          { s with
            client := (s.writers g).shown s.client g l
            writers := Function.update s.writers g w }
      else none
  | .party l =>
      if l.apart then
        (Client.step C s.client l).map fun client =>
          { s with client, writers := s.started l }
      else none

/-! ### The invariant -/

/-- What is known of the channels. -/
structure Inv (C : Config) (pings : Serializer Ping) (s : Sockets V) : Prop where
  client : Client.Reachable C free s.client
  writer : ∀ g, Writer.Inv (writerConfig C pings g) (s.writers g)
  linked : ∀ g, (s.writers g).Linked (s.client.connections g)
  logged : ∀ g, (s.writers g).accepted = (s.requests g).map Request.command
  nodup : ∀ g, (calls (s.requests g)).Nodup
  calls : ∀ g c, c ∈ calls (s.requests g) ↔ (s.client.calls c).accepted = some g
  asked : ∀ g d, .close d ∈ s.requests g → (s.client.disconnects d).Asked g
  acknowledged : ∀ g d, (s.client.disconnects d).Acknowledged g →
    (d, .ok ()) ∈ (s.writers g).answers

section

variable {C : Config} {pings : Serializer Ping} {s t : Sockets V}

theorem Inv.init (C : Config) (pings : Serializer Ping) :
    (Sockets.init C : Sockets V).Inv C pings := by
  have hempty : ∀ g, (Sockets.init C : Sockets V).writers g = .init ∧
        (Client.init C : Client V).connections g = .start .state ∨
      (Sockets.init C : Sockets V).writers g = .absent ∧
        (Client.init C : Client V).connections g = .absent := by
    intro g
    by_cases hg : g = 1
    · subst hg
      exact .inl ⟨by simp [Sockets.init], by simp [Client.init]⟩
    · exact .inr ⟨by simp [Sockets.init, hg], by simp [Client.init, hg]⟩
  refine ⟨.refl _, fun g => ?_, fun g => ?_, fun g => ?_, fun g => .nil, fun g c => ?_,
    fun g d hd => absurd hd List.not_mem_nil, fun g d hd => hd.elim⟩
  · rcases hempty g with ⟨hw, -⟩ | ⟨hw, -⟩
    · rw [hw]
      exact ⟨rfl, rfl, rfl⟩
    · rw [hw]
      exact ⟨List.prefix_rfl, Writer.acknowledged_of_nil rfl⟩
  · show ((Sockets.init C : Sockets V).writers g).Linked ((Client.init C : Client V).connections g)
    rcases hempty g with ⟨hw, hk⟩ | ⟨hw, hk⟩
    · rw [hw, hk]
      exact .inr ⟨Writer.matches_start _, fun hnone => Writer.Pc.noConfusion hnone⟩
    · rw [hw, hk]
      exact .inl ⟨rfl, rfl⟩
  · rcases hempty g with ⟨hw, -⟩ | ⟨hw, -⟩
    · rw [hw]
      rfl
    · rw [hw]
      rfl
  · exact iff_of_false List.not_mem_nil (by simp [Sockets.init, Client.init, Call.new])

/-! ### What goes into a channel -/

/-- The task with `c` in its channel, if that is open. -/
theorem push_writer (w : Writer) (c : Writer.Command) :
    (if w.pc.receiving then { w with queue := w.queue ++ [c] } else w).pc = w.pc ∧
      (if w.pc.receiving then { w with queue := w.queue ++ [c] } else w).answers = w.answers ∧
        (if w.pc.receiving then { w with queue := w.queue ++ [c] } else w).accepted =
          if w.pc.receiving then w.accepted ++ [c] else w.accepted := by
  split
  · refine ⟨rfl, rfl, ?_⟩
    show w.taken ++ (w.queue ++ [c]) = w.taken ++ w.queue ++ [c]
    rw [List.append_assoc]
  · exact ⟨rfl, rfl, rfl⟩

/-- **What goes into a channel** is logged there, and the parties that are concerned with
it are told. -/
theorem Inv.push (hi : s.Inv C pings) {l : Client.Label V} {client : Client V} {g : Nat}
    {r : Request} {w : Writer}
    (hw : w = if (s.writers g).pc.receiving then
      { s.writers g with queue := (s.writers g).queue ++ [r.command] } else s.writers g)
    (hst : Client.step C s.client l = some client) (hlinked : w.Linked (client.connections g))
    (hother : ∀ g', g' ≠ g → Client.SameWriter s.client client g')
    (hfresh : (s.writers g).pc.receiving = true → ∀ c, r.call = some c →
      (s.client.calls c).accepted = none)
    (hcalls : ∀ g' c, (client.calls c).accepted = some g' ↔
      (s.client.calls c).accepted = some g' ∨
        (s.writers g).pc.receiving = true ∧ r.call = some c ∧ g' = g)
    (hasked : (s.writers g).pc.receiving = true → ∀ d, r = .close d →
      (client.disconnects d).Asked g)
    (hacknowledged : ∀ g' d, (client.disconnects d).Acknowledged g' →
      (s.client.disconnects d).Acknowledged g') : (s.push client g w r).Inv C pings := by
  obtain ⟨hpc, hanswers, haccepted⟩ := push_writer (s.writers g) r.command
  rw [← hw] at hpc hanswers haccepted
  -- the log of a channel, before and after
  have hlog : ∀ g', (s.push client g w r).requests g' = s.requests g' ∨
      (g' = g ∧ (s.writers g).pc.receiving = true) ∧
        (s.push client g w r).requests g' = s.requests g ++ [r] := by
    intro g'
    by_cases hr : (s.writers g).pc.receiving = true
    · by_cases hg : g' = g
      · subst hg
        refine .inr ⟨⟨rfl, hr⟩, ?_⟩
        simp [Sockets.push, hr]
      · refine .inl ?_
        simp [Sockets.push, hr, hg]
    · refine .inl ?_
      simp [Sockets.push, hr]
  have hwriters : ∀ g', g' ≠ g → (s.push client g w r).writers g' = s.writers g' :=
    fun g' hg => Function.update_of_ne hg ..
  have hself : (s.push client g w r).writers g = w := Function.update_self ..
  refine ⟨hi.client.trans (.head l trivial hst (.refl _)), fun g' => ?_, fun g' => ?_,
    fun g' => ?_, fun g' => ?_, fun g' c => ?_, fun g' d hd => ?_, fun g' d hd => ?_⟩
  · by_cases hg : g' = g
    · subst hg
      rw [hself, hw]
      -- the invariant of the task is not about its queue
      split
      · exact hi.writer g'
      · exact hi.writer g'
    · rw [hwriters g' hg]
      exact hi.writer g'
  · show ((s.push client g w r).writers g').Linked (client.connections g')
    by_cases hg : g' = g
    · subst hg
      rwa [hself]
    · rw [hwriters g' hg]
      exact (hi.linked g').congr (hother g' hg).1 (hother g' hg).2
  · by_cases hg : g' = g
    · subst hg
      rw [hself, haccepted]
      split
      · rename_i hr
        have : (s.push client g' w r).requests g' = s.requests g' ++ [r] := by
          simp [Sockets.push, hr]
        rw [this, List.map_append, ← hi.logged g']
        rfl
      · rename_i hr
        have : (s.push client g' w r).requests g' = s.requests g' := by
          simp [Sockets.push, hr]
        rw [this, hi.logged g']
    · rw [hwriters g' hg, hi.logged g']
      rcases hlog g' with hsame | ⟨⟨hg', -⟩, -⟩
      · rw [hsame]
      · exact absurd hg' hg
  · rcases hlog g' with hsame | ⟨⟨rfl, hr⟩, hnew⟩
    · rw [hsame]
      exact hi.nodup g'
    · rw [hnew, Sockets.calls, List.filterMap_append]
      refine List.nodup_append'.mpr ⟨hi.nodup g', ?_, ?_⟩
      · cases r with
        | send c data => exact List.nodup_singleton c
        | close d => exact .nil
      · intro c hc hc'
        have hcall : r.call = some c := by
          cases r with
          | send c' data => exact congrArg some (List.mem_singleton.mp hc').symm
          | close d => exact absurd hc' List.not_mem_nil
        have hsome := (hi.calls g' c).mp hc
        rw [hfresh hr c hcall] at hsome
        simp at hsome
  · show c ∈ Sockets.calls ((s.push client g w r).requests g') ↔ (client.calls c).accepted = some g'
    rw [hcalls]
    rcases hlog g' with hsame | ⟨⟨rfl, hr⟩, hnew⟩
    · rw [hsame, hi.calls]
      refine ⟨.inl, fun h => h.elim id ?_⟩
      rintro ⟨hr, hcall, rfl⟩
      -- an open channel would have logged the call
      have hmem : c ∈ Sockets.calls ((s.push client g' w r).requests g') := by
        have : (s.push client g' w r).requests g' = s.requests g' ++ [r] := by
          simp [Sockets.push, hr]
        rw [this, Sockets.calls, List.filterMap_append]
        exact List.mem_append_right _ (by simp [hcall])
      rw [hsame] at hmem
      exact (hi.calls g' c).mp hmem
    · rw [hnew, Sockets.calls, List.filterMap_append, List.mem_append]
      refine or_congr (hi.calls g' c) ?_
      simp [hr]
  · rcases hlog g' with hsame | ⟨⟨rfl, hr⟩, hnew⟩
    · rw [hsame] at hd
      exact Client.asked_step hst (hi.asked g' d hd)
    · rw [hnew] at hd
      rcases List.mem_append.mp hd with hd | hd
      · exact Client.asked_step hst (hi.asked g' d hd)
      · exact hasked hr d (List.mem_singleton.mp hd).symm
  · have hmem := hi.acknowledged g' d (hacknowledged g' d hd)
    by_cases hg : g' = g
    · subst hg
      rwa [hself, hanswers]
    · rwa [hwriters g' hg]

/-- A call offers its request. -/
theorem Inv.offer {c g : Nat} (hi : s.Inv C pings) (data : List UInt8)
    (hpc : (s.client.calls c).pc = .holding g) :
    (s.push (s.client.offer c g) g ((s.writers g).send data).1 (.send c data)).Inv C pings := by
  have hst : s.client.callStep c .offer = some (s.client.offer c g) := by
    simp only [Client.callStep, hpc]
  have hf := (Client.callStep_frame hst).1
  have hreceiving := (hi.linked g).receiving_iff
  have hnone : (s.client.calls c).accepted = none := by
    cases haccepted : (s.client.calls c).accepted with
    | none => rfl
    | some g' =>
        rcases (hi.client.callTold c g' haccepted).2 with h | h | h <;> simp [hpc] at h
  refine hi.push (l := .call c .offer) ?_ hst ?_ (fun g' hg => ?_) (fun _ c' hc' => ?_)
    (fun g' c' => ?_) (fun _ d hd => by simp at hd) fun g' d hd => ?_
  · rw [Writer.send]
    split
    · rfl
    · rfl
  · refine ((hi.linked g).send data c).congr ?_ ?_
    · rw [(hf.tasks g).2]
      split
      · rfl
      · rfl
    · rw [Client.offer]
      split
      · simp [Client.setCall, Client.release, Client.setConnection]
      · rfl
  · rw [Client.offer]
    split
    · rw [Client.SameWriter]
      simp [Client.setCall, Client.release, Client.setConnection, hg]
    · exact .of_connections rfl
  · obtain rfl := Option.some.inj hc'
    exact hnone
  · by_cases hc : c' = c
    · subst hc
      rw [hnone, Client.offer]
      by_cases hr : (s.client.connections g).writer = .running
      · rw [if_pos hr, Client.setCall_self]
        simp [hreceiving.mpr hr, Request.call, eq_comm]
      · rw [if_neg hr, Client.setCall_self]
        simp [hnone, mt hreceiving.mp hr]
    · rw [hf.calls c' hc]
      simp [Request.call, Ne.symm hc]
  · rwa [hf.disconnects] at hd

/-- A disconnect asks for a close. -/
theorem Inv.requestClose {d g : Nat} {client : Client V} (hi : s.Inv C pings)
    (hpc : s.client.disconnects d = .closing g)
    (hst : s.client.disconnectStep d .requestClose = some client) :
    (s.push client g ((s.writers g).requestClose d).1 (.close d)).Inv C pings := by
  have hf := (Client.disconnectStep_move hst).frame
  have hreceiving := (hi.linked g).receiving_iff
  have hclient : client = if (s.client.connections g).writer = .running then
      (s.client.setConnection g { s.client.connections g with
        commands := (s.client.connections g).commands ++ [.close d] }).setDisconnect d (.awaiting g)
      else s.client.finishClose d g
        (.error ("Failed to request graceful close: " ++ Client.channelClosed)) := by
    simp only [Client.disconnectStep, hpc] at hst
    exact (Option.some.inj hst).symm
  refine hi.push (l := .disconnect d .requestClose) ?_ hst ?_ (fun g' hg => ?_)
    (fun _ c hc => by simp [Request.call] at hc) (fun g' c => ?_) (fun hr d' hd' => ?_)
    fun g' d' hd' => ?_
  · rw [Writer.requestClose]
    split
    · rfl
    · rfl
  · refine ((hi.linked g).requestClose d).congr ?_ ?_
    · rw [(hf.tasks g).2]
      split
      · rfl
      · rfl
    · rw [hclient]
      split
      · simp [Client.setDisconnect, Client.setConnection]
      · simp [Client.finishClose, Client.setDisconnect, Client.release, Client.setConnection]
  · rw [hclient]
    split
    · rw [Client.SameWriter]
      simp [Client.setDisconnect, Client.setConnection, hg]
    · rw [Client.SameWriter]
      simp [Client.finishClose, Client.setDisconnect, Client.release, Client.setConnection, hg]
  · rw [hf.calls]
    simp [Request.call]
  · obtain rfl := Request.close.inj hd'
    rw [hclient, if_pos (hreceiving.mp hr), Client.setDisconnect_self]
    rfl
  · by_cases hd : d' = d
    · subst hd
      exact Client.acknowledged_disconnectStep hst hd'
    · rwa [hf.disconnects d' hd] at hd'

/-! ### What comes out of a channel -/

/-- The writer task of `g` takes a step. -/
theorem Inv.task {g : Nat} {l : Writer.Label} {w : Writer} (hi : s.Inv C pings)
    (hallows : s.allows g l = true)
    (hst : (s.writers g).step (writerConfig C pings g) l = some w) :
    Inv C pings { s with
      client := (s.writers g).shown s.client g l
      writers := Function.update s.writers g w } := by
  have hsend : ∀ data, l ≠ .send data := fun data hl => by simp [hl, allows] at hallows
  have hclose : ∀ d, l ≠ .requestClose d := fun d hl => by simp [hl, allows] at hallows
  have hshows : Writer.Shows C g (s.writers g) w s.client l := by
    refine Writer.Linked.task (hi.writer g) (hi.linked g) hst hsend hclose fun out hl => ?_
    simpa [hl, allows, writerConfig] using hallows
  obtain ⟨hseen, hlinked⟩ := hshows
  obtain ⟨haccepted, more, hanswers⟩ := Writer.step_keeps hst hsend hclose
  -- the step of the client, if there is one, is one of connection `g`
  have hclient : Client.Reachable C free ((s.writers g).shown s.client g l) ∧
      ((s.writers g).shown s.client g l).calls = s.client.calls ∧
      (∀ g', g' ≠ g →
        ((s.writers g).shown s.client g l).connections g' = s.client.connections g') ∧
      ∀ g' d, (s.client.disconnects d).Asked g' →
        (((s.writers g).shown s.client g l).disconnects d).Asked g' := by
    rcases hseen with hsame | ⟨l', hst'⟩
    · rw [hsame]
      exact ⟨hi.client, rfl, fun _ _ => rfl, fun _ _ h => h⟩
    · have hstep : Client.step C s.client (.connection g l') = some _ := hst'
      have hf := Client.connectionStep_frame hst'
      exact ⟨hi.client.trans (.head _ trivial hstep (.refl _)), hf.calls, hf.connections,
        fun _ _ h => Client.asked_step hstep h⟩
  obtain ⟨hreachable, hcalls, hconnections, hasked⟩ := hclient
  have hwriters : ∀ g', g' ≠ g → Function.update s.writers g w g' = s.writers g' :=
    fun g' hg => Function.update_of_ne hg ..
  have hself : Function.update s.writers g w g = w := Function.update_self ..
  have hkept : ∀ g' a, a ∈ (s.writers g').answers →
      a ∈ (Function.update s.writers g w g').answers := by
    intro g' a ha
    by_cases hg : g' = g
    · subst hg
      rw [hself, hanswers]
      exact List.mem_append_left _ ha
    · rwa [hwriters g' hg]
  refine ⟨hreachable, fun g' => ?_, fun g' => ?_, fun g' => ?_, hi.nodup, fun g' c => ?_,
    fun g' d hd => hasked g' d (hi.asked g' d hd), fun g' d hd => hkept g' _ ?_⟩
  · show Writer.Inv _ (Function.update s.writers g w g')
    by_cases hg : g' = g
    · subst hg
      rw [hself]
      exact Writer.step_inv (hi.writer g') hst
    · rw [hwriters g' hg]
      exact hi.writer g'
  · show (Function.update s.writers g w g').Linked
      (((s.writers g).shown s.client g l).connections g')
    by_cases hg : g' = g
    · subst hg
      rw [hself]
      exact hlinked
    · rw [hwriters g' hg, hconnections g' hg]
      exact hi.linked g'
  · show (Function.update s.writers g w g').accepted = _
    by_cases hg : g' = g
    · subst hg
      rw [hself, haccepted]
      exact hi.logged g'
    · rw [hwriters g' hg]
      exact hi.logged g'
  · rw [hi.calls]
    show _ ↔ (((s.writers g).shown s.client g l).calls c).accepted = some g'
    rw [hcalls]
  · -- an answer is the one that the task has just given, for the connection it was asked of
    rcases (s.writers g).shown_disconnects s.client g d l with
      hsame | ⟨hpc, result, rest, g'', hgiven, hawaiting, hanswered⟩
    · rw [show ((s.writers g).shown s.client g l).disconnects d = _ from hsame] at hd
      exact hi.acknowledged g' d hd
    · rw [show ((s.writers g).shown s.client g l).disconnects d = _ from hanswered] at hd
      obtain ⟨rfl, rfl⟩ := hd
      have hg : g'' = g := by
        rcases hi.linked g with ⟨-, habsent⟩ | ⟨-, hanswering⟩
        · simp [habsent, Writer.absent] at hpc
        · obtain ⟨d', result', rest', hgiven', -, -, htaken⟩ := hanswering hpc
          rw [hgiven] at hgiven'
          obtain ⟨hpair, -⟩ := List.cons.inj hgiven'
          obtain ⟨rfl, -⟩ := Prod.mk.inj hpair
          have hmem : Writer.Command.close d ∈ (s.requests g).map Request.command := by
            rw [← hi.logged g]
            exact List.mem_append_left _ htaken
          obtain ⟨r, hr, hcommand⟩ := List.mem_map.mp hmem
          cases r with
          | send c data => simp [Request.command] at hcommand
          | close d' =>
              obtain rfl := Writer.Command.close.inj hcommand
              have hasked := hi.asked g d' hr
              rw [hawaiting] at hasked
              exact hasked
      subst hg
      rw [hgiven]
      exact List.mem_cons_self

/-! ### The other parties -/

/-- Where a writer task starts, its connection is set up; the others stay as they are. -/
theorem started_cases {l : Client.Label V} {client : Client V} (hl : l.apart = true)
    (hst : Client.step C s.client l = some client) :
    (s.started l = s.writers ∧ ∀ g, Client.SameWriter s.client client g) ∨
      ∃ attempt h, s.client.monitor = .connecting attempt h ∧
        s.started l = Function.update s.writers h .init ∧
        client.connections h = .start .monitor ∧
        ∀ g, g ≠ h → Client.SameWriter s.client client g := by
  by_cases hsocket : l = .monitor (.socket true)
  · subst hsocket
    have hmonitor : s.client.monitorStep C (.socket true) = some client := hst
    simp only [Client.monitorStep] at hmonitor
    split at hmonitor
    · rename_i attempt h hm
      obtain rfl := Option.some.inj hmonitor
      refine .inr ⟨attempt, h, hm, ?_, Client.setConnection_self .., fun g hg => ?_⟩
      · simp only [started, hm]
      · rcases Client.apart_step hl hst g with hsame | ⟨-, hinstalling, -⟩
        · exact hsame
        · exact absurd (MonitorPc.installing.inj hinstalling).symm hg
    · simp at hmonitor
  · refine .inl ⟨?_, fun g => ?_⟩
    · rw [started]
      exact hsocket
    · rcases Client.apart_step hl hst g with hsame | ⟨heq, -⟩
      · exact hsame
      · exact absurd heq hsocket

/-- A connection that is to be set up has no task yet. -/
theorem Inv.fresh {attempt h : Nat} (hi : s.Inv C pings)
    (hm : s.client.monitor = .connecting attempt h) : s.writers h = .absent := by
  have habsent : (s.client.connections h).writer = .absent := by
    by_contra hne
    have hlt := (hi.client.control_inv.upcoming h
      (by rw [show s.client.control.monitor = _ from hm]; rfl)).1
    rcases hi.client.spared.started h (.inr hne) with hle | hm'
    · exact Nat.not_le_of_lt hlt hle
    · simp [hm] at hm'
  rcases hi.linked h with ⟨-, hs⟩ | ⟨hmatches, -⟩
  · exact hs
  · exact absurd habsent hmatches.ne_absent

/-- A step apart from the channels. -/
theorem Inv.party {l : Client.Label V} {client : Client V} (hi : s.Inv C pings)
    (hl : l.apart = true) (hst : Client.step C s.client l = some client) :
    Inv C pings { s with client, writers := s.started l } := by
  have hreachable := hi.client.trans (.head l trivial hst (.refl _))
  have hcalls : ∀ g c, c ∈ Sockets.calls (s.requests g) ↔ (client.calls c).accepted = some g :=
    fun g c => (hi.calls g c).trans (Client.accepted_apart hl (hi.client.callTold c) hst).symm
  have hasked : ∀ g d, .close d ∈ s.requests g → (client.disconnects d).Asked g :=
    fun g d hd => Client.asked_step hst (hi.asked g d hd)
  have hacknowledged : ∀ g d, (client.disconnects d).Acknowledged g →
      (d, .ok ()) ∈ (s.writers g).answers :=
    fun g d hd => hi.acknowledged g d (Client.acknowledged_apart hl hst hd)
  rcases started_cases hl hst with ⟨hstarted, hsame⟩ | ⟨attempt, h, hm, hstarted, hnew, hsame⟩
  · rw [hstarted]
    refine ⟨hreachable, hi.writer, fun g => ?_, hi.logged, hi.nodup, hcalls, hasked, hacknowledged⟩
    exact (hi.linked g).congr (hsame g).1 (hsame g).2
  · have hfresh := hi.fresh hm
    have hwriters : ∀ g, g ≠ h → s.started l g = s.writers g := by
      intro g hg
      rw [hstarted]
      exact Function.update_of_ne hg ..
    have hself : s.started l h = .init := by
      rw [hstarted]
      exact Function.update_self ..
    refine ⟨hreachable, fun g => ?_, fun g => ?_, fun g => ?_, hi.nodup, hcalls, hasked,
      fun g d hd => ?_⟩
    · show Writer.Inv _ (s.started l g)
      by_cases hg : g = h
      · subst hg
        rw [hself]
        exact ⟨rfl, rfl, rfl⟩
      · rw [hwriters g hg]
        exact hi.writer g
    · show (s.started l g).Linked (client.connections g)
      by_cases hg : g = h
      · subst hg
        rw [hself, hnew]
        exact .inr ⟨Writer.matches_start _, fun hnone => Writer.Pc.noConfusion hnone⟩
      · rw [hwriters g hg]
        exact (hi.linked g).congr (hsame g hg).1 (hsame g hg).2
    · show (s.started l g).accepted = _
      by_cases hg : g = h
      · subst hg
        have hlogged := hi.logged g
        rw [hfresh] at hlogged
        rw [hself]
        exact hlogged
      · rw [hwriters g hg]
        exact hi.logged g
    · show _ ∈ (s.started l g).answers
      have hmem := hacknowledged g d hd
      by_cases hg : g = h
      · subst hg
        rw [hfresh] at hmem
        exact absurd hmem List.not_mem_nil
      · rwa [hwriters g hg]

/-- **The step lemma.** -/
theorem Inv.step {l : Label V} (hi : s.Inv C pings) (h : Sockets.step C pings s l = some t) :
    t.Inv C pings := by
  cases l with
  | offer c data =>
      simp only [Sockets.step] at h
      split at h
      · rename_i g hpc
        obtain rfl := Option.some.inj h
        exact hi.offer data hpc
      · simp at h
  | requestClose d =>
      simp only [Sockets.step] at h
      split at h
      · rename_i g hpc
        obtain ⟨client, hst, rfl⟩ := Option.map_eq_some_iff.mp h
        exact hi.requestClose hpc hst
      · simp at h
  | writer g l =>
      simp only [Sockets.step] at h
      split at h
      · rename_i hallows
        obtain ⟨w, hst, rfl⟩ := Option.map_eq_some_iff.mp h
        exact hi.task hallows hst
      · simp at h
  | party l =>
      simp only [Sockets.step] at h
      split at h
      · rename_i hl
        obtain ⟨client, hst, rfl⟩ := Option.map_eq_some_iff.mp h
        exact hi.party hl hst
      · simp at h

/-- **The run lemma.** -/
theorem inv_of_reaches (h : Reaches (step C pings) free (init C) s) : s.Inv C pings :=
  h.invariant (.init C pings) fun _ _ _ hi _ hst => hi.step hst

/-- **The client simulates the whole**: what its parties see is a run of the client. -/
theorem simulates (h : Reaches (step C pings) free (init C) s) :
    Client.Reachable C free s.client :=
  (inv_of_reaches h).client

/-! ### The fate of a request -/

theorem frames_eq (W : Writer.Config) (l : List Request) :
    W.frames (l.map Request.command) = (payloads l).map W.dataFrame := by
  have hdata : ∀ r : Request, r.command.data = r.data := by
    intro r
    cases r <;> rfl
  rw [Writer.Config.frames, Writer.sends, List.filterMap_map, payloads]
  congr 1
  exact List.filterMap_congr fun r _ => hdata r

/-- What is known of the requests that connection `g` accepted: they are written in order,
and all of them where the task has nothing left to do; each is that of one call, which was
told so; and a close that was acknowledged stands behind all of them that it came after. -/
structure WrittenOnce (C : Config) (pings : Serializer Ping) (s : Sockets V) (g : Nat) : Prop where
  order : Writer.userFrames (s.writers g).wire <+:
    (payloads (s.requests g)).map (writerConfig C pings g).dataFrame
  complete : (s.writers g).pc = .selecting → (s.writers g).queue = [] →
    Writer.userFrames (s.writers g).wire =
      (payloads (s.requests g)).map (writerConfig C pings g).dataFrame
  nodup : (Sockets.calls (s.requests g)).Nodup
  accepted : ∀ c, c ∈ Sockets.calls (s.requests g) ↔ (s.client.calls c).accepted = some g
  told : ∀ c, c ∈ Sockets.calls (s.requests g) → (s.client.calls c).sent = some (.ok ())
  flushed : ∀ d, (s.client.disconnects d).Acknowledged g → ∃ before after wire,
    s.requests g = before ++ .close d :: after ∧
      (s.writers g).wire = wire ++ [(.closing d, Writer.closeFrame)] ∧
        Writer.userFrames wire = (payloads before).map (writerConfig C pings g).dataFrame

/-- **A request is written once at most**, by the one connection that accepted it, in the
order of acceptance, in every run of the client with the writer tasks of all its
connections. -/
theorem requests_written_once (h : Reaches (step C pings) free (init C) s) (g : Nat) :
    s.WrittenOnce C pings g := by
  have hi := inv_of_reaches h
  obtain ⟨htaken, hacknowledged⟩ := (hi.writer g).facts
  refine ⟨?_, fun hpc hqueue => ?_, hi.nodup g, hi.calls g, fun c hc => ?_, fun d hd => ?_⟩
  · refine htaken.trans ?_
    rw [← frames_eq, ← hi.logged g, Writer.accepted, Writer.Config.frames_append]
    exact List.prefix_append _ _
  · obtain ⟨-, -, hbalance⟩ := (hi.writer g).balance hpc
    rw [hbalance, ← frames_eq, ← hi.logged g, Writer.accepted, hqueue, List.append_nil]
  · exact (hi.client.callTold c g ((hi.calls g c).mp hc)).1
  · obtain ⟨before, wire, htaken, hwire, hbefore⟩ := hacknowledged d (hi.acknowledged g d hd)
    have hlogged : (s.requests g).map Request.command
        = before ++ .close d :: (s.writers g).queue := by
      rw [← hi.logged g, Writer.accepted, htaken, List.append_assoc]
      rfl
    -- the log before and behind the request for the close
    obtain ⟨rs, rs', hrequests, hrs, hrs'⟩ := List.map_eq_append_iff.mp hlogged
    obtain ⟨r, after, rfl, hr, -⟩ := List.map_eq_cons_iff.mp hrs'
    cases r with
    | send c data => simp [Request.command] at hr
    | close d' =>
        obtain rfl := Writer.Command.close.inj hr
        refine ⟨rs, after, wire, hrequests, hwire, ?_⟩
        rw [hbefore, ← hrs, frames_eq]

/-- A request, and a disconnect that waits for the close frame behind it. -/
def closing : List (Label Int) :=
  [.party (.call 0 .send), .party (.call 0 .lookup), .offer 0 [0x61],
    .party (.disconnect 0 .cancel), .party (.disconnect 0 .raiseFlag),
    .party (.disconnect 0 .lookup), .requestClose 0, .writer 1 .recv, .writer 1 .written,
    .writer 1 .recv, .writer 1 .written, .writer 1 .finish]

theorem requests_written_once_closing :
    ∃ s : Sockets Int, (s.client.disconnects 0).Acknowledged 1 ∧
      s.WrittenOnce Client.sample Writer.textWriter.pings 1 := by
  refine ⟨_, ?_, requests_written_once (Reaches.of_exec closing rfl) 1⟩
  exact ⟨rfl, rfl⟩

end

end Sockets

end SignalR
