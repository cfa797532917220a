/-
SignalR/Writer.lean

The writer task of one connection, with the bytes it writes: the loop over the command
channel, the channel of automatic frames that the reader fills, and the ping timer.
Senders, the reader, the timer and the socket take their steps in any order, and
`select!` takes any branch that is ready.

A branch is left only when its frame is written or its write fails, so between two turns
every send that was taken is on the wire (`Inv.balance`); whatever leaves the loop leaves
it for good (`step_left`).  From these follow the order of the user's frames, that an
acknowledged close frame stands last and behind all sends before it, and that a failed
write is reported once (`writer_order`).

`SignalR/Channels.lean` relates the task to the writer of `SignalR/Client.lean`, where a
command is taken and written in one step and frames have no bytes.
-/
import Mathlib.Data.List.Infix
import SignalR.Client
import SignalR.Serialization

namespace SignalR

open Transition

namespace Writer

/-! ### Commands and frames -/

/-- `WriterCommand`.  A close command has the number of the channel it is answered on. -/
inductive Command
  | send (data : List UInt8)
  | close (completion : Nat)
  deriving DecidableEq

/-- The branch of the loop that writes a frame. -/
inductive Source
  | user
  | closing (completion : Nat)
  | automatic
  | ping
  deriving DecidableEq

/-- What the loop is left with when a frame of this branch cannot be written. -/
def Source.reason (e : String) : Source → Option String
  | .user => some ("Error writing frame: " ++ e)
  | .closing _ => none
  | .automatic => some ("Error writing automatic frame: " ++ e)
  | .ping => some ("Error writing SignalR ping: " ++ e)

/-- `Frame::close(1000, &[])`. -/
def closeFrame : Frame where
  fin := true
  opcode := .close
  payload := [0x03, 0xe8]

/-- Where the task is. -/
inductive Pc
  /-- At `select!`. -/
  | selecting
  /-- At the `await` of `write_frame`. -/
  | writing (source : Source) (frame : Frame)
  /-- Out of the loop, with its value. -/
  | left (reason : Option String)
  | done
  | aborted

/-- The task still owns the receiving ends of its channels. -/
def Pc.receiving : Pc → Bool
  | .done | .aborted => false
  | _ => true

/-- What the task captures. -/
structure Config where
  generation : Nat
  protocol : Protocol
  /-- The crates that serialize a ping. -/
  pings : Serializer Ping

/-- `Frame::text` or `Frame::binary`. -/
def Config.dataFrame (C : Config) (data : List UInt8) : Frame where
  fin := true
  opcode := match C.protocol with
    | .json => .text
    | .messagePack => .binary
  payload := data

/-- `serialize_signalr_ping`. -/
def Config.serializeSignalrPing (C : Config) : Except String (List UInt8) :=
  match C.protocol with
  | .json => serialize C.pings .new .json
  | .messagePack => .ok [0x02, 0x91, 0x06]

end Writer

open Writer

/-- The writer task and what it shares.  `taken`, the commands it has received, and
`wire`, the frames on the socket with the branch that wrote them, are ghost fields; so is
`queue` once the task has ended, with the commands that are lost. -/
structure Writer where
  queue : List Command
  autoQueue : List Frame
  taken : List Command
  pc : Pc
  wire : List (Source × Frame)
  answers : List (Nat × Except String Unit)
  events : List ConnectionEvent

namespace Writer

/-- `start_split_tasks`. -/
def init : Writer where
  queue := []
  autoQueue := []
  taken := []
  pc := .selecting
  wire := []
  answers := []
  events := []

/-- The commands that the channel has accepted, in order. -/
def accepted (s : Writer) : List Command :=
  s.taken ++ s.queue

/-! ### The channels -/

/-- `CommunicationConnection::send`. -/
def send (s : Writer) (data : List UInt8) : Writer × Except String Unit :=
  if s.pc.receiving then ({ s with queue := s.queue ++ [.send data] }, .ok ())
  else (s, .error ("Failed to send: " ++ Client.channelClosed))

/-- The request of `close_gracefully`. -/
def requestClose (s : Writer) (completion : Nat) : Writer × Except String Unit :=
  if s.pc.receiving then ({ s with queue := s.queue ++ [.close completion] }, .ok ())
  else (s, .error ("Failed to request graceful close: " ++ Client.channelClosed))

/-- The reader's `send_fn`; the error of a closed channel is ignored. -/
def sendAutomatic (s : Writer) (frame : Frame) : Writer :=
  if s.pc.receiving then { s with autoQueue := s.autoQueue ++ [frame] } else s

/-! ### The loop -/

/-- The frame has gone out, or it has not. -/
def put (s : Writer) (out : Bool) (source : Source) (frame : Frame) : Writer :=
  if out then { s with wire := s.wire ++ [(source, frame)] } else s

/-- What a branch does with the result of `write_frame`. -/
def afterWrite (s : Writer) (source : Source) : Except String Unit → Writer
  | .ok _ =>
      match source with
      | .closing d => { s with answers := s.answers ++ [(d, .ok ())], pc := .left none }
      | _ => { s with pc := .selecting }
  | .error e =>
      match source with
      | .closing d =>
          { s with
            answers := s.answers ++ [(d, .error ("Error writing close frame: " ++ e))]
            pc := .left none }
      | _ => { s with pc := .left (source.reason e) }

/-- The steps of the task and of those it shares its channels with. -/
inductive Label
  | send (data : List UInt8)
  | requestClose (completion : Nat)
  | automatic (frame : Frame)
  /-- `select!` takes a command. -/
  | recv
  /-- `select!` takes an automatic frame. -/
  | recvAutomatic
  /-- `select!` takes a tick of the ping timer. -/
  | tick
  /-- `write_frame` returns `Ok`. -/
  | written
  /-- `write_frame` returns an error; the frame may have gone out all the same. -/
  | writeFails (out : Bool) (e : String)
  /-- The task sends its event and returns. -/
  | finish
  /-- `abort` takes effect, at an `await`. -/
  | abort (out : Bool)

/-- One step.  The `else` branch of `select!` is for the case that no branch can be
ready, and the timer's always can. -/
def step (C : Config) (s : Writer) : Label → Option Writer
  | .send data => some (s.send data).1
  | .requestClose d =>
      -- every request has a channel of its own for the answer
      if .close d ∈ s.accepted then none else some (s.requestClose d).1
  | .automatic frame => some (s.sendAutomatic frame)
  | .recv =>
      match s.pc, s.queue with
      | .selecting, .send data :: rest =>
          some { s with
            queue := rest
            taken := s.taken ++ [.send data]
            pc := .writing .user (C.dataFrame data) }
      | .selecting, .close d :: rest =>
          some { s with
            queue := rest
            taken := s.taken ++ [.close d]
            pc := .writing (.closing d) closeFrame }
      | _, _ => none
  | .recvAutomatic =>
      match s.pc, s.autoQueue with
      | .selecting, frame :: rest =>
          some { s with autoQueue := rest, pc := .writing .automatic frame }
      | _, _ => none
  | .tick =>
      match s.pc with
      | .selecting =>
          match C.serializeSignalrPing with
          | .ok data => some { s with pc := .writing .ping (C.dataFrame data) }
          | .error e =>
              some { s with pc := .left (some ("SignalR ping serialization failed: " ++ e)) }
      | _ => none
  | .written =>
      match s.pc with
      | .writing source frame => some ((s.put true source frame).afterWrite source (.ok ()))
      | _ => none
  | .writeFails out e =>
      match s.pc with
      | .writing source frame => some ((s.put out source frame).afterWrite source (.error e))
      | _ => none
  | .finish =>
      match s.pc with
      | .left reason =>
          some { s with
            pc := .done
            events := s.events ++ (reason.map (.connectionLost C.generation)).toList }
      | _ => none
  | .abort out =>
      match s.pc with
      | .selecting => some { s with pc := .aborted }
      | .writing source frame => some { s.put out source frame with pc := .aborted }
      | _ => none

/-! ### What is on the wire -/

/-- The frames of the user's sends among those on the wire. -/
def userFrames (wire : List (Source × Frame)) : List Frame :=
  (wire.filter fun w => w.1 = .user).map Prod.snd

def Command.data : Command → Option (List UInt8)
  | .send data => some data
  | .close _ => none

/-- The payloads of the sends among some commands. -/
def sends (commands : List Command) : List (List UInt8) :=
  commands.filterMap Command.data

/-- The frames that some commands are to be written as. -/
def Config.frames (C : Config) (commands : List Command) : List Frame :=
  (sends commands).map C.dataFrame

@[simp] theorem userFrames_append (w w' : List (Source × Frame)) :
    userFrames (w ++ w') = userFrames w ++ userFrames w' := by
  rw [userFrames, List.filter_append, List.map_append]
  rfl

@[simp] theorem userFrames_user (frame : Frame) : userFrames [(.user, frame)] = [frame] :=
  rfl

theorem userFrames_other {source : Source} (h : source ≠ .user) (frame : Frame) :
    userFrames [(source, frame)] = [] := by
  rw [userFrames, List.filter_cons_of_neg (by simpa using h)]
  rfl

@[simp] theorem Config.frames_append (C : Config) (l l' : List Command) :
    C.frames (l ++ l') = C.frames l ++ C.frames l' := by
  rw [frames, sends, List.filterMap_append, List.map_append]
  rfl

@[simp] theorem Config.frames_send (C : Config) (data : List UInt8) :
    C.frames [.send data] = [C.dataFrame data] :=
  rfl

@[simp] theorem Config.frames_close (C : Config) (d : Nat) : C.frames [.close d] = [] :=
  rfl

/-! ### The invariant -/

variable {C : Config} {s t : Writer} {l : Label}

/-- The close command that was answered with `Ok` stands behind sends that are all on the
wire, and its frame stands last. -/
def Acknowledged (C : Config) (s : Writer) : Prop :=
  ∀ d, (d, .ok ()) ∈ s.answers → ∃ before wire, s.taken = before ++ [.close d] ∧
    s.wire = wire ++ [(.closing d, closeFrame)] ∧ userFrames wire = C.frames before

/-- What is known of the task, by where it is. -/
def Inv (C : Config) (s : Writer) : Prop :=
  match s.pc with
  | .selecting =>
      s.answers = [] ∧ s.events = [] ∧ userFrames s.wire = C.frames s.taken
  | .writing source frame =>
      s.answers = [] ∧ s.events = [] ∧ ∃ before,
        userFrames s.wire = C.frames before ∧
        match source with
        | .user => ∃ data, s.taken = before ++ [.send data] ∧ frame = C.dataFrame data
        | .closing d => s.taken = before ++ [.close d] ∧ frame = closeFrame
        | .automatic | .ping => s.taken = before
  | .left _ => s.events = [] ∧ userFrames s.wire <+: C.frames s.taken ∧ Acknowledged C s
  | .done | .aborted => userFrames s.wire <+: C.frames s.taken ∧ Acknowledged C s

/-- Between two turns everything that was taken is on the wire. -/
theorem Inv.balance (hi : Inv C s) (hpc : s.pc = .selecting) :
    s.answers = [] ∧ s.events = [] ∧ userFrames s.wire = C.frames s.taken := by
  rwa [Inv, hpc] at hi

theorem acknowledged_of_nil (h : s.answers = []) : Acknowledged C s := by
  intro d hd
  rw [h] at hd
  exact absurd hd List.not_mem_nil

/-- A frame that is being written is the next one, whether or not it goes out. -/
theorem Inv.prefix_put {source : Source} {frame : Frame} (hi : Inv C s)
    (hpc : s.pc = .writing source frame) (out : Bool) :
    userFrames (s.put out source frame).wire <+: C.frames s.taken := by
  simp only [Inv, hpc] at hi
  obtain ⟨-, -, before, hwire, hsource⟩ := hi
  have hprefix : userFrames s.wire ++ userFrames [(source, frame)] <+: C.frames s.taken := by
    rw [hwire]
    cases source with
    | user =>
        obtain ⟨data, htaken, rfl⟩ := hsource
        rw [htaken, Config.frames_append]
        exact List.prefix_rfl
    | closing d =>
        rw [hsource.1, Config.frames_append, userFrames_other (by simp)]
        exact List.prefix_rfl
    | automatic =>
        rw [hsource, userFrames_other (by simp), List.append_nil]
    | ping =>
        rw [hsource, userFrames_other (by simp), List.append_nil]
  cases out with
  | true =>
      show userFrames (s.wire ++ _) <+: _
      rwa [userFrames_append]
  | false => exact (List.prefix_append _ _).trans hprefix

/-! ### What a step does -/

/-- The steps that the task takes itself. -/
def Label.IsOwn : Label → Prop
  | .send _ | .requestClose _ | .automatic _ => False
  | _ => True

/-- What the task can do itself: a branch starts, a branch ends, the task returns, or it
is aborted. -/
inductive Moves (C : Config) : Writer → Writer → Prop
  | send {s : Writer} {data : List UInt8} {rest : List Command} :
      s.pc = .selecting → s.queue = .send data :: rest →
      Moves C s { s with
        queue := rest
        taken := s.taken ++ [.send data]
        pc := .writing .user (C.dataFrame data) }
  | close {s : Writer} {d : Nat} {rest : List Command} :
      s.pc = .selecting → s.queue = .close d :: rest →
      Moves C s { s with
        queue := rest
        taken := s.taken ++ [.close d]
        pc := .writing (.closing d) closeFrame }
  | automatic {s : Writer} (frame : Frame) (rest : List Frame) :
      s.pc = .selecting → Moves C s { s with autoQueue := rest, pc := .writing .automatic frame }
  | ping {s : Writer} (frame : Frame) :
      s.pc = .selecting → Moves C s { s with pc := .writing .ping frame }
  | pingFails {s : Writer} (reason : String) :
      s.pc = .selecting → Moves C s { s with pc := .left (some reason) }
  | written {s : Writer} {source : Source} {frame : Frame} :
      s.pc = .writing source frame →
      Moves C s ((s.put true source frame).afterWrite source (.ok ()))
  | writeFails {s : Writer} {source : Source} {frame : Frame} (out : Bool) (e : String) :
      s.pc = .writing source frame →
      Moves C s ((s.put out source frame).afterWrite source (.error e))
  | finish {s : Writer} {reason : Option String} :
      s.pc = .left reason →
      Moves C s { s with
        pc := .done
        events := s.events ++ (reason.map (.connectionLost C.generation)).toList }
  | abort {s : Writer} : s.pc = .selecting → Moves C s { s with pc := .aborted }
  | abortWrite {s : Writer} {source : Source} {frame : Frame} (out : Bool) :
      s.pc = .writing source frame → Moves C s { s.put out source frame with pc := .aborted }

/-- A channel takes something, or the task moves. -/
theorem step_cases (h : step C s l = some t) :
    (¬ l.IsOwn ∧ ∃ more autos, t = { s with queue := s.queue ++ more, autoQueue := autos }) ∨
      Moves C s t := by
  cases l with
  | send data =>
      obtain rfl := Option.some.inj h
      refine .inl ⟨id, ?_⟩
      rw [send]
      split
      · exact ⟨_, s.autoQueue, rfl⟩
      · exact ⟨[], s.autoQueue, by rw [List.append_nil]⟩
  | requestClose d =>
      simp only [step] at h
      split at h
      · simp at h
      · obtain rfl := Option.some.inj h
        refine .inl ⟨id, ?_⟩
        rw [requestClose]
        split
        · exact ⟨_, s.autoQueue, rfl⟩
        · exact ⟨[], s.autoQueue, by rw [List.append_nil]⟩
  | automatic frame =>
      obtain rfl := Option.some.inj h
      refine .inl ⟨id, [], ?_⟩
      rw [sendAutomatic, List.append_nil]
      split
      · exact ⟨_, rfl⟩
      · exact ⟨s.autoQueue, rfl⟩
  | recv =>
      simp only [step] at h
      split at h
      · rename_i data rest hpc hq
        obtain rfl := Option.some.inj h
        exact .inr (.send hpc hq)
      · rename_i d rest hpc hq
        obtain rfl := Option.some.inj h
        exact .inr (.close hpc hq)
      · simp at h
  | recvAutomatic =>
      simp only [step] at h
      split at h
      · rename_i frame rest hpc hq
        obtain rfl := Option.some.inj h
        exact .inr (.automatic frame rest hpc)
      · simp at h
  | tick =>
      simp only [step] at h
      split at h
      · rename_i hpc
        split at h
        · obtain rfl := Option.some.inj h
          exact .inr (.ping _ hpc)
        · obtain rfl := Option.some.inj h
          exact .inr (.pingFails _ hpc)
      · simp at h
  | written =>
      simp only [step] at h
      split at h
      · rename_i source frame hpc
        obtain rfl := Option.some.inj h
        exact .inr (.written hpc)
      · simp at h
  | writeFails out e =>
      simp only [step] at h
      split at h
      · rename_i source frame hpc
        obtain rfl := Option.some.inj h
        exact .inr (.writeFails out e hpc)
      · simp at h
  | finish =>
      simp only [step] at h
      split at h
      · rename_i reason hpc
        obtain rfl := Option.some.inj h
        exact .inr (.finish hpc)
      · simp at h
  | abort out =>
      simp only [step] at h
      split at h
      · rename_i hpc
        obtain rfl := Option.some.inj h
        exact .inr (.abort hpc)
      · rename_i source frame hpc
        obtain rfl := Option.some.inj h
        exact .inr (.abortWrite out hpc)
      · simp at h

/-- The branch that is left after a write. -/
theorem Inv.afterWrite_ok {source : Source} {frame : Frame} (hi : Inv C s)
    (hpc : s.pc = .writing source frame) :
    Inv C ((s.put true source frame).afterWrite source (.ok ())) := by
  have hprefix := hi.prefix_put hpc true
  simp only [Inv, hpc] at hi
  obtain ⟨hanswers, hevents, before, hwire, hsource⟩ := hi
  cases source with
  | user =>
      obtain ⟨data, htaken, rfl⟩ := hsource
      refine ⟨hanswers, hevents, ?_⟩
      show userFrames (s.wire ++ _) = C.frames s.taken
      rw [userFrames_append, hwire, htaken, Config.frames_append]
      rfl
  | closing d =>
      obtain ⟨htaken, rfl⟩ := hsource
      refine ⟨hevents, hprefix, fun d' hd' => ?_⟩
      have hd : (d', Except.ok ()) ∈ s.answers ++ [(d, Except.ok ())] := hd'
      rw [hanswers, List.nil_append, List.mem_singleton] at hd
      obtain ⟨rfl, -⟩ := Prod.mk.inj hd
      exact ⟨before, s.wire, htaken, rfl, hwire⟩
  | automatic =>
      refine ⟨hanswers, hevents, ?_⟩
      show userFrames (s.wire ++ _) = C.frames s.taken
      rw [userFrames_append, userFrames_other (by simp), List.append_nil, hwire, hsource]
  | ping =>
      refine ⟨hanswers, hevents, ?_⟩
      show userFrames (s.wire ++ _) = C.frames s.taken
      rw [userFrames_append, userFrames_other (by simp), List.append_nil, hwire, hsource]

theorem put_keeps (s : Writer) (out : Bool) (source : Source) (frame : Frame) :
    (s.put out source frame).taken = s.taken ∧ (s.put out source frame).answers = s.answers ∧
      (s.put out source frame).events = s.events := by
  cases out <;> exact ⟨rfl, rfl, rfl⟩

/-- A failed write leaves the loop; a close request is answered with the error. -/
theorem Inv.afterWrite_error {source : Source} {frame : Frame} (hi : Inv C s)
    (hpc : s.pc = .writing source frame) (out : Bool) (e : String) :
    Inv C ((s.put out source frame).afterWrite source (.error e)) := by
  have hprefix := hi.prefix_put hpc out
  obtain ⟨htaken, hanswers', hevents'⟩ := s.put_keeps out source frame
  simp only [Inv, hpc] at hi
  obtain ⟨hanswers, hevents, -⟩ := hi
  rw [← htaken] at hprefix
  rw [← hanswers'] at hanswers
  rw [← hevents'] at hevents
  generalize s.put out source frame = u at *
  have hleft : ∀ r, Inv C { u with pc := .left r } := fun r =>
    ⟨hevents, hprefix, acknowledged_of_nil hanswers⟩
  cases source with
  | user => exact hleft _
  | closing d =>
      refine ⟨hevents, hprefix, fun d' hd' => ?_⟩
      have hd : (d', Except.ok ()) ∈
          u.answers ++ [(d, Except.error ("Error writing close frame: " ++ e))] := hd'
      rw [hanswers, List.nil_append, List.mem_singleton] at hd
      exact absurd (Prod.mk.inj hd).2 nofun
  | automatic => exact hleft _
  | ping => exact hleft _

/-- **Every step keeps the invariant.** -/
theorem step_inv (hi : Inv C s) (h : step C s l = some t) : Inv C t := by
  obtain ⟨-, more, autos, rfl⟩ | hmoves := step_cases h
  · exact hi
  cases hmoves with
  | send hpc hq =>
      obtain ⟨hnone, hquiet, hbalance⟩ := hi.balance hpc
      exact ⟨hnone, hquiet, s.taken, hbalance, _, rfl, rfl⟩
  | close hpc hq =>
      obtain ⟨hnone, hquiet, hbalance⟩ := hi.balance hpc
      exact ⟨hnone, hquiet, s.taken, hbalance, rfl, rfl⟩
  | automatic frame rest hpc =>
      obtain ⟨hnone, hquiet, hbalance⟩ := hi.balance hpc
      exact ⟨hnone, hquiet, s.taken, hbalance, rfl⟩
  | ping frame hpc =>
      obtain ⟨hnone, hquiet, hbalance⟩ := hi.balance hpc
      exact ⟨hnone, hquiet, s.taken, hbalance, rfl⟩
  | pingFails reason hpc =>
      obtain ⟨hnone, hquiet, hbalance⟩ := hi.balance hpc
      exact ⟨hquiet, hbalance ▸ List.prefix_rfl, acknowledged_of_nil hnone⟩
  | written hpc => exact hi.afterWrite_ok hpc
  | writeFails out e hpc => exact hi.afterWrite_error hpc out e
  | finish hpc =>
      simp only [Inv, hpc] at hi
      exact hi.2
  | abort hpc =>
      obtain ⟨hnone, -, hbalance⟩ := hi.balance hpc
      exact ⟨hbalance ▸ List.prefix_rfl, acknowledged_of_nil hnone⟩
  | abortWrite out hpc =>
      have hprefix := hi.prefix_put hpc out
      obtain ⟨htaken, hanswers, -⟩ := s.put_keeps out _ _
      simp only [Inv, hpc] at hi
      refine ⟨by rwa [← htaken] at hprefix, acknowledged_of_nil ?_⟩
      exact hanswers.trans hi.1

/-- **The run lemma.** -/
theorem inv_of_run {ls : List Label} (h : Run (step C) free init ls s) : Inv C s := by
  refine h.invariant (I := Inv C) ⟨rfl, rfl, rfl⟩ ?_
  intro s l t hi _ hst
  exact step_inv hi hst

/-- What the invariant says in every state. -/
theorem Inv.facts (hi : Inv C s) :
    userFrames s.wire <+: C.frames s.taken ∧ Acknowledged C s := by
  rcases hpc : s.pc with - | ⟨source, frame⟩ | reason | - | -
  · obtain ⟨hnone, -, hbalance⟩ := hi.balance hpc
    rw [hbalance]
    exact ⟨List.prefix_rfl, acknowledged_of_nil hnone⟩
  · refine ⟨hi.prefix_put hpc false, ?_⟩
    simp only [Inv, hpc] at hi
    exact acknowledged_of_nil hi.1
  · simp only [Inv, hpc] at hi
    exact hi.2
  · simp only [Inv, hpc] at hi
    exact hi
  · simp only [Inv, hpc] at hi
    exact hi

/-! ### Out of the loop -/

/-- The task has left its loop with `reason`: it has sent its event, or is about to. -/
def Leaving (C : Config) (reason : Option String) (wire : List (Source × Frame)) (s : Writer) :
    Prop :=
  s.wire = wire ∧
    ((s.pc = .left reason ∧ s.events = []) ∨
      (s.pc = .done ∧ s.events = (reason.map (.connectionLost C.generation)).toList))

/-- A task out of its loop can only return. -/
theorem Moves.eq_finish (h : Moves C s t) (reason : Option String)
    (hpc : s.pc = .left reason ∨ s.pc = .done) :
    s.pc = .left reason ∧ t = { s with
      pc := .done
      events := s.events ++ (reason.map (.connectionLost C.generation)).toList } := by
  cases h with
  | finish hpc' =>
      rcases hpc with hpc | hpc
      · rw [hpc] at hpc'
        obtain rfl := Pc.left.inj hpc'
        exact ⟨hpc, rfl⟩
      · simp [hpc] at hpc'
  | _ => simp_all

/-- **A task out of its loop** writes nothing more, and its one step is to send its event. -/
theorem step_leaving {reason : Option String} {wire : List (Source × Frame)}
    (hs : Leaving C reason wire s) (h : step C s l = some t) : Leaving C reason wire t := by
  obtain ⟨-, more, autos, rfl⟩ | hmoves := step_cases h
  · exact hs
  obtain ⟨hwire, ⟨hpc, hevents⟩ | ⟨hpc, hevents⟩⟩ := hs
  · obtain ⟨-, rfl⟩ := hmoves.eq_finish reason (.inl hpc)
    refine ⟨hwire, .inr ⟨rfl, ?_⟩⟩
    show s.events ++ _ = _
    rw [hevents, List.nil_append]
  · obtain ⟨hpc', -⟩ := hmoves.eq_finish reason (.inr hpc)
    simp [hpc] at hpc'

/-- A failed write of a frame that is no close frame leaves the loop. -/
theorem leaving_of_writeFails {source : Source} {frame : Frame} {out : Bool} {e reason : String}
    (hi : Inv C s) (hpc : s.pc = .writing source frame) (hreason : source.reason e = some reason)
    (h : step C s (.writeFails out e) = some t) :
    Leaving C (some reason) (s.put out source frame).wire t := by
  simp only [step, hpc] at h
  obtain rfl := Option.some.inj h
  obtain ⟨-, -, hevents⟩ := s.put_keeps out source frame
  simp only [Inv, hpc] at hi
  cases source with
  | closing d => simp [Source.reason] at hreason
  | user => exact ⟨rfl, .inl ⟨congrArg Pc.left hreason, hevents.trans hi.2.1⟩⟩
  | automatic => exact ⟨rfl, .inl ⟨congrArg Pc.left hreason, hevents.trans hi.2.1⟩⟩
  | ping => exact ⟨rfl, .inl ⟨congrArg Pc.left hreason, hevents.trans hi.2.1⟩⟩

/-! ### Writer order -/

/-- **Writer order.**  In every run of the writer task: the user's frames on the wire are
a prefix of the accepted sends; if a close request was answered with `Ok`, all sends that
were accepted before it were written before its frame, which is the last one; and after a
failed write of any other frame nothing more is written, and exactly one loss is reported
for the generation, unless it is still to be, which nothing prevents. -/
theorem writer_order {ls : List Label} (h : Run (step C) free init ls s) :
    userFrames s.wire <+: (sends s.accepted).map C.dataFrame ∧
    (∀ d, (d, .ok ()) ∈ s.answers → ∃ before after wire,
      s.accepted = before ++ .close d :: after ∧ s.wire = wire ++ [(.closing d, closeFrame)] ∧
        userFrames wire = (sends before).map C.dataFrame) ∧
    ∀ pre out e post mid source frame reason, ls = pre ++ .writeFails out e :: post →
      Run (step C) free init pre mid → mid.pc = .writing source frame →
      source.reason e = some reason →
        s.wire = (mid.put out source frame).wire ∧
        ((s.pc = .left (some reason) ∧ s.events = [] ∧ ∃ t, step C s .finish = some t ∧
            t.pc = .done ∧ t.events = [.connectionLost C.generation reason]) ∨
          (s.pc = .done ∧ s.events = [.connectionLost C.generation reason])) := by
  obtain ⟨htaken, hacknowledged⟩ := (inv_of_run h).facts
  refine ⟨?_, ?_, ?_⟩
  · refine htaken.trans ?_
    show C.frames s.taken <+: C.frames (s.taken ++ s.queue)
    rw [Config.frames_append]
    exact List.prefix_append _ _
  · intro d hd
    obtain ⟨before, wire, htaken, hwire, hbefore⟩ := hacknowledged d hd
    refine ⟨before, s.queue, wire, ?_, hwire, hbefore⟩
    rw [accepted, htaken, List.append_assoc]
    rfl
  · rintro pre out e post mid source frame reason rfl hpre hpc hreason
    obtain ⟨mid', hmid, hfails⟩ := h.split
    obtain rfl := hmid.unique hpre
    obtain ⟨t, hstep, hpost⟩ := hfails.head
    have hleaving := leaving_of_writeFails (inv_of_run hpre) hpc hreason hstep
    obtain ⟨hwire, hleft⟩ := hpost.invariant hleaving fun s l t hs _ hst => step_leaving hs hst
    refine ⟨hwire, hleft.imp_left ?_⟩
    rintro ⟨hs, hevents⟩
    have hfinish : step C s .finish = some { s with
        pc := .done
        events := s.events ++ [.connectionLost C.generation reason] } := by
      simp only [step, hs]
      rfl
    refine ⟨hs, hevents, _, hfinish, rfl, ?_⟩
    rw [hevents, List.nil_append]

/-- A connection that talks JSON. -/
def textWriter : Config where
  generation := 4
  protocol := .json
  pings := { toStr := fun _ => .ok "\x7b\"type\":6\x7d", toVec := fun _ => .ok [] }

/-- Two sends around a pong; the second cannot be written. -/
def brokenPipe : List Label :=
  [.send [0x61], .automatic ⟨true, .pong, []⟩, .send [0x62], .recv, .written, .recvAutomatic,
    .requestClose 0, .written, .recv, .writeFails false "broken pipe", .finish]

/-- The writer after `brokenPipe`. -/
def brokenWriter : Writer where
  queue := [.close 0]
  autoQueue := []
  taken := [.send [0x61], .send [0x62]]
  pc := .done
  wire := [(.user, ⟨true, .text, [0x61]⟩), (.automatic, ⟨true, .pong, []⟩)]
  answers := []
  events := [.connectionLost 4 "Error writing frame: broken pipe"]

theorem writer_order_brokenPipe :
    userFrames brokenWriter.wire <+: (sends brokenWriter.accepted).map textWriter.dataFrame ∧
    (∀ d, (d, .ok ()) ∈ brokenWriter.answers → ∃ before after wire,
      brokenWriter.accepted = before ++ .close d :: after ∧
        brokenWriter.wire = wire ++ [(.closing d, closeFrame)] ∧
        userFrames wire = (sends before).map textWriter.dataFrame) ∧
    ∀ pre out e post mid source frame reason, brokenPipe = pre ++ .writeFails out e :: post →
      Run (step textWriter) free init pre mid → mid.pc = .writing source frame →
      source.reason e = some reason →
        brokenWriter.wire = (mid.put out source frame).wire ∧
        ((brokenWriter.pc = .left (some reason) ∧ brokenWriter.events = [] ∧
            ∃ t, step textWriter brokenWriter .finish = some t ∧
              t.pc = .done ∧ t.events = [.connectionLost 4 reason]) ∨
          (brokenWriter.pc = .done ∧ brokenWriter.events = [.connectionLost 4 reason])) :=
  have hrun : Run (step textWriter) free init brokenPipe brokenWriter :=
    run_free_iff_exec.mpr rfl
  writer_order hrun

end Writer

end SignalR
