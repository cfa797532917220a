/-
SignalR/Wire.lean

One direction of a JSON connection, from `send` at one end to the callbacks at the
other.  The writer task puts the messages on the wire between its pings and the pongs
and close frames that its reader has it send; a reader at the other end stops at the
first close frame.

Of everything on the wire only the messages cause calls there, pings apart, and they do
so in the order in which `send` accepted them.  So the other end sees the first `n` of
the accepted messages for some `n`, each once, and its callbacks are called accordingly;
and if a close request was answered with `Ok`, and the task had not answered a close
frame of the other end before, these are all messages accepted before the request
(`wire_delivers_in_order`).
-/
import SignalR.Contexts
import SignalR.Writer

namespace SignalR

open Transition

variable {V : Type}

/-! ### Calls other than pings -/

/-- The calls that are not for pings; the storage ignores those. -/
def traffic (calls : List RawMessage) : List RawMessage :=
  calls.filter fun m => m.messageType ≠ .ping

@[simp] theorem traffic_append (l l' : List RawMessage) :
    traffic (l ++ l') = traffic l ++ traffic l' :=
  List.filter_append ..

/-- A ping is no invocation. -/
theorem filterMap_traffic (S : Serde) (target : String) (calls : List RawMessage) :
    (traffic calls).filterMap (Storage.invocationOf S target)
      = calls.filterMap (Storage.invocationOf S target) := by
  induction calls with
  | nil => rfl
  | cons m calls ih =>
      by_cases hm : m.messageType = .ping
      · have hnone : Storage.invocationOf S target m = none := by
          have hi : m.invocation S = none := by simp [RawMessage.invocation, hm]
          rw [Storage.invocationOf, hi]
          rfl
        rw [List.filterMap_cons_none hnone, ← ih, traffic, List.filter_cons_of_neg (by simp [hm])]
        rfl
      · rw [traffic, List.filter_cons_of_pos (by simp [hm])]
        rcases hi : Storage.invocationOf S target m with - | i
        · rw [List.filterMap_cons_none hi, List.filterMap_cons_none hi]
          exact ih
        · rw [List.filterMap_cons_some hi, List.filterMap_cons_some hi]
          exact congrArg _ ih

namespace Writer

/-! ### What a branch writes -/

/-- The frames that each branch writes. -/
def Config.Writes (C : Config) : Source → Frame → Prop
  | .user, frame => ∃ data, frame = C.dataFrame data
  | .closing _, frame => frame = closeFrame
  | .automatic, frame => frame.opcode = .pong ∨ frame.opcode = .close
  | .ping, frame => ∃ data, C.serializeSignalrPing = .ok data ∧ frame = C.dataFrame data

/-- The WebSocket library answers a ping with a pong, and a close frame with a close
frame. -/
def Replies (_ : Writer) (l : Label) : Prop :=
  ∀ frame, l = .automatic frame → frame.opcode = .pong ∨ frame.opcode = .close

/-- The task is still in its loop. -/
def Pc.looping : Pc → Prop
  | .selecting | .writing _ _ => True
  | _ => False

/-- Every frame is one that its branch writes, and a close command ends the wire. -/
structure Tidy (C : Config) (s : Writer) : Prop where
  queued : ∀ frame ∈ s.autoQueue, C.Writes .automatic frame
  written : ∀ x ∈ s.wire, C.Writes x.1 x.2
  writing : ∀ source frame, s.pc = .writing source frame → C.Writes source frame
  looping : s.pc.looping → ∀ x ∈ s.wire, ∀ d, x.1 ≠ .closing d
  closing : ∀ x ∈ s.wire.dropLast, ∀ d, x.1 ≠ .closing d

variable {C : Config} {s t : Writer} {l : Label}

theorem Tidy.init (C : Config) : Tidy C init where
  queued _ h := absurd h List.not_mem_nil
  written _ h := absurd h List.not_mem_nil
  writing _ _ h := Pc.noConfusion h
  looping _ _ h := absurd h List.not_mem_nil
  closing _ h := absurd h List.not_mem_nil

/-- A step that writes nothing, and starts nothing that its branch would not write. -/
theorem Tidy.of_wire (hi : Tidy C s) (hwire : t.wire = s.wire)
    (hqueued : ∀ frame ∈ t.autoQueue, C.Writes .automatic frame)
    (hwriting : ∀ source frame, t.pc = .writing source frame → C.Writes source frame)
    (hlooping : t.pc.looping → s.pc.looping) : Tidy C t where
  queued := hqueued
  written := hwire ▸ hi.written
  writing := hwriting
  looping h := hwire ▸ hi.looping (hlooping h)
  closing := hwire ▸ hi.closing

/-- The frame that is being written goes out, or it does not. -/
theorem Tidy.put {source : Source} {frame : Frame} (hi : Tidy C s)
    (hpc : s.pc = .writing source frame) (out : Bool)
    (hwire : t.wire = (s.put out source frame).wire) (hqueue : t.autoQueue = s.autoQueue)
    (hwriting : ∀ source frame, t.pc ≠ .writing source frame)
    (hlooping : t.pc.looping → ∀ d, source ≠ .closing d) : Tidy C t := by
  have hspc : s.pc.looping := by
    rw [hpc]
    trivial
  cases out with
  | false =>
      exact hi.of_wire hwire (hqueue ▸ hi.queued) (fun _ _ h => absurd h (hwriting _ _))
        fun _ => hspc
  | true =>
      have hwire : t.wire = s.wire ++ [(source, frame)] := hwire
      refine ⟨hqueue ▸ hi.queued, ?_, fun _ _ h => absurd h (hwriting _ _), ?_, ?_⟩
      · rw [hwire]
        intro x hx
        rcases List.mem_append.mp hx with hx | hx
        · exact hi.written x hx
        · rw [List.mem_singleton.mp hx]
          exact hi.writing source frame hpc
      · rw [hwire]
        intro h x hx
        rcases List.mem_append.mp hx with hx | hx
        · exact hi.looping hspc x hx
        · rw [List.mem_singleton.mp hx]
          exact hlooping h
      · rw [hwire, List.dropLast_concat]
        exact hi.looping hspc

/-- The channels take commands and frames, and leave the task alone. -/
theorem Tidy.channel (hi : Tidy C s) (hwire : t.wire = s.wire) (hpc : t.pc = s.pc)
    (hqueued : ∀ frame ∈ t.autoQueue, C.Writes .automatic frame) : Tidy C t :=
  hi.of_wire hwire hqueued (hpc ▸ hi.writing) (hpc ▸ id)

/-- The task leaves a branch with the frame written. -/
theorem Tidy.afterWrite {source : Source} {frame : Frame} (hi : Tidy C s)
    (hpc : s.pc = .writing source frame) (out : Bool) (result : Except String Unit) :
    Tidy C ((s.put out source frame).afterWrite source result) := by
  have hput : (s.put out source frame).autoQueue = s.autoQueue := by cases out <;> rfl
  apply hi.put hpc out
  · cases result <;> cases source <;> rfl
  · cases result <;> cases source <;> exact hput
  · intro source' frame' h
    cases result <;> cases source <;> exact Pc.noConfusion h
  · intro h d
    rintro rfl
    cases result <;> exact h

/-- **The step lemma of the frames.** -/
theorem step_tidy (hi : Tidy C s) (hl : Replies s l) (h : step C s l = some t) : Tidy C t := by
  cases l with
  | send data =>
      obtain rfl := Option.some.inj h
      rw [send]
      split
      · exact hi.channel rfl rfl hi.queued
      · exact hi
  | requestClose d =>
      simp only [step] at h
      split at h
      · simp at h
      · obtain rfl := Option.some.inj h
        rw [requestClose]
        split
        · exact hi.channel rfl rfl hi.queued
        · exact hi
  | automatic frame =>
      obtain rfl := Option.some.inj h
      rw [sendAutomatic]
      split
      · refine hi.channel rfl rfl fun frame' hframe => ?_
        rcases List.mem_append.mp hframe with hframe | hframe
        · exact hi.queued frame' hframe
        · rw [List.mem_singleton.mp hframe]
          exact hl frame rfl
      · exact hi
  | recv =>
      simp only [step] at h
      split at h
      · rename_i data rest hpc hq
        obtain rfl := Option.some.inj h
        refine hi.of_wire rfl hi.queued ?_ fun _ => hpc ▸ trivial
        rintro source frame hw
        obtain ⟨rfl, rfl⟩ := Pc.writing.inj hw
        exact ⟨data, rfl⟩
      · rename_i d rest hpc hq
        obtain rfl := Option.some.inj h
        refine hi.of_wire rfl hi.queued ?_ fun _ => hpc ▸ trivial
        rintro source frame hw
        obtain ⟨rfl, rfl⟩ := Pc.writing.inj hw
        rfl
      · simp at h
  | recvAutomatic =>
      simp only [step] at h
      split at h
      · rename_i frame rest hpc hq
        obtain rfl := Option.some.inj h
        have hqueued : ∀ frame' ∈ frame :: rest, C.Writes .automatic frame' := hq ▸ hi.queued
        refine hi.of_wire rfl (fun f hf => hqueued f (List.mem_cons_of_mem _ hf)) ?_
          fun _ => hpc ▸ trivial
        rintro source frame' hw
        obtain ⟨rfl, rfl⟩ := Pc.writing.inj hw
        exact hqueued frame List.mem_cons_self
      · simp at h
  | tick =>
      simp only [step] at h
      split at h
      · rename_i hpc
        split at h
        · rename_i data hdata
          obtain rfl := Option.some.inj h
          refine hi.of_wire rfl hi.queued ?_ fun _ => hpc ▸ trivial
          rintro source frame hw
          obtain ⟨rfl, rfl⟩ := Pc.writing.inj hw
          exact ⟨data, hdata, rfl⟩
        · obtain rfl := Option.some.inj h
          exact hi.of_wire rfl hi.queued (fun _ _ hw => Pc.noConfusion hw) False.elim
      · simp at h
  | written =>
      simp only [step] at h
      split at h
      · rename_i source frame hpc
        obtain rfl := Option.some.inj h
        exact hi.afterWrite hpc true (.ok ())
      · simp at h
  | writeFails out e =>
      simp only [step] at h
      split at h
      · rename_i source frame hpc
        obtain rfl := Option.some.inj h
        exact hi.afterWrite hpc out (.error e)
      · simp at h
  | finish =>
      simp only [step] at h
      split at h
      · obtain rfl := Option.some.inj h
        exact hi.of_wire rfl hi.queued (fun _ _ hw => Pc.noConfusion hw) False.elim
      · simp at h
  | abort out =>
      simp only [step] at h
      split at h
      · obtain rfl := Option.some.inj h
        exact hi.of_wire rfl hi.queued (fun _ _ hw => Pc.noConfusion hw) False.elim
      · rename_i source frame hpc
        obtain rfl := Option.some.inj h
        have hput : (s.put out source frame).autoQueue = s.autoQueue := by cases out <;> rfl
        exact hi.put hpc out rfl hput (fun _ _ hw => Pc.noConfusion hw) False.elim
      · simp at h

theorem tidy_of_run {ls : List Label} (h : Run (step C) Replies init ls s) : Tidy C s :=
  h.invariant (.init C) fun _ _ _ hi hl hst => step_tidy hi hl hst

/-! ### What a reader makes of the wire -/

/-- The frames that a reader gets before a close frame. -/
def heard (wire : List (Source × Frame)) : List (Source × Frame) :=
  wire.takeWhile fun x => x.2.opcode ≠ .close

theorem readerCalls_heard (S : Serde) (protocol : Protocol) (wire : List (Source × Frame)) :
    readerCalls S protocol (wire.map Prod.snd)
      = (heard wire).flatMap fun x => frameCalls S protocol x.2 := by
  induction wire with
  | nil => rfl
  | cons x wire ih =>
      rw [heard, List.map_cons, readerCalls]
      by_cases hx : x.2.opcode = .close
      · rw [List.takeWhile_cons_of_neg (by simpa using hx), hx]
        rfl
      · rw [List.takeWhile_cons_of_pos (by simpa using hx), List.flatMap_cons, ih]
        rcases hop : x.2.opcode <;> simp_all [heard]

/-- The user's frames among those that are heard come first. -/
theorem userFrames_heard (wire : List (Source × Frame)) :
    userFrames (heard wire) <+: userFrames wire :=
  ((List.takeWhile_prefix _).filter _).map _

/-- The crates write a ping as a text that is read as a ping. -/
def Config.PingsRead (C : Config) (S : Serde) : Prop :=
  ∀ text, C.pings.toStr .new = .ok text →
    recordSeparator ∉ text.toList ∧ S.fromStr text = some ((Message.ping : Message V).value .json)

variable {S : Serde} {T : Serializer Value} {protocol : Protocol}

theorem Config.dataFrame_json (hjson : C.protocol = .json) (p : Piece V) :
    C.dataFrame p.bytes = textFrame [p] := by
  rw [dataFrame, textFrame, hjson, List.flatMap_singleton]

/-- A ping of the task causes the call of a ping, if any. -/
theorem traffic_ping (hjson : C.protocol = .json) (hempty : S.fromStr "" = none)
    (hpings : C.PingsRead (V := V) S) {data : List UInt8}
    (hdata : C.serializeSignalrPing = .ok data) :
    traffic (frameCalls S protocol (C.dataFrame data)) = [] := by
  rw [Config.serializeSignalrPing, hjson] at hdata
  replace hdata : serialize C.pings .new .json = .ok data := hdata
  rcases htext : C.pings.toStr .new with e | text
  · simp [serialize, htext] at hdata
  · obtain ⟨hseparator, hread⟩ := hpings text htext
    have hbytes := serialize_json htext
    rw [hdata] at hbytes
    obtain rfl := Except.ok.inj hbytes
    -- the record is the message `Ping`
    have hmessage : Piece.Valid S ⟨fun _ => .ok text, fun _ => .ok []⟩
        (.message (.ping : Message V) text) :=
      ⟨trivial, rfl, hread, hseparator⟩
    show traffic
      (frameCalls S protocol (C.dataFrame (Piece.message (.ping : Message V) text).bytes)) = []
    rw [Config.dataFrame_json hjson, frameCalls_textFrame protocol hempty
      fun p hp => List.mem_singleton.mp hp ▸ hmessage, List.flatMap_singleton]
    rfl

/-- Only the user's frames make traffic. -/
theorem traffic_userFrames (hjson : C.protocol = .json) (hempty : S.fromStr "" = none)
    (hpings : C.PingsRead (V := V) S) {wire : List (Source × Frame)}
    (hheard : ∀ x ∈ wire, C.Writes x.1 x.2 ∧ x.2.opcode ≠ .close) :
    traffic (wire.flatMap fun x => frameCalls S protocol x.2)
      = traffic ((userFrames wire).flatMap (frameCalls S protocol)) := by
  induction wire with
  | nil => rfl
  | cons x wire ih =>
      have ih := ih fun y hy => hheard y (List.mem_cons_of_mem x hy)
      obtain ⟨hwrites, hopen⟩ := hheard x List.mem_cons_self
      rw [List.flatMap_cons, traffic_append, ih]
      obtain ⟨source, frame⟩ := x
      have hother : source ≠ .user → traffic (frameCalls S protocol frame) = [] →
          traffic (frameCalls S protocol frame)
              ++ traffic ((userFrames wire).flatMap (frameCalls S protocol))
            = traffic ((userFrames ((source, frame) :: wire)).flatMap (frameCalls S protocol)) := by
        intro hsource hnil
        rw [hnil, ← List.singleton_append (l := wire), userFrames_append,
          userFrames_other hsource]
        rfl
      cases source with
      | user =>
          rw [← List.singleton_append (l := wire), userFrames_append, userFrames_user,
            List.singleton_append, List.flatMap_cons, traffic_append]
      | closing d =>
          obtain rfl : frame = closeFrame := hwrites
          exact absurd rfl hopen
      | automatic =>
          refine hother (by simp) ?_
          have hpong : frame.opcode = .pong := hwrites.resolve_right hopen
          rw [frameCalls, hpong]
          rfl
      | ping =>
          obtain ⟨data, hdata, rfl⟩ := hwrites
          exact hother (by simp) (traffic_ping hjson hempty hpings hdata)

/-- A prefix of the frames of some messages has those of the first `n`. -/
theorem frames_take (hjson : C.protocol = .json) {frames : List Frame} {commands : List Command}
    {pieces : List (Piece V)} (hsent : sends commands = pieces.map Piece.bytes)
    (hfirst' : frames <+: C.frames commands) :
    ∃ n, frames = (pieces.take n).map fun p => textFrame [p] := by
  have hframes : C.frames commands = pieces.map fun p => textFrame [p] := by
    rw [Config.frames, hsent, List.map_map]
    exact List.map_congr_left fun p _ => Config.dataFrame_json hjson p
  refine ⟨frames.length, ?_⟩
  rw [List.map_take, ← hframes]
  exact List.prefix_iff_eq_take.mp hfirst'

theorem Config.dataFrame_injective (C : Config) : Function.Injective C.dataFrame := by
  intro data data' h
  exact congrArg Frame.payload h

/-- The calls for messages that are sent one by one. -/
theorem flatMap_frameCalls (protocol : Protocol) (hempty : S.fromStr "" = none)
    {pieces : List (Piece V)} (hvalid : ∀ p ∈ pieces, p.Valid S T) :
    (pieces.map fun p => textFrame [p]).flatMap (frameCalls S protocol)
      = pieces.flatMap (Piece.calls S) := by
  rw [List.flatMap_map]
  refine List.flatMap_congr fun p hp => ?_
  rw [frameCalls_textFrame protocol hempty fun q hq => List.mem_singleton.mp hq ▸ hvalid p hp,
    List.flatMap_singleton]

/-- If the close command was answered with `Ok` and nothing closed the wire before, all
that stands before its frame is heard. -/
theorem heard_of_acknowledged (hi : Tidy C s) (hopen : ∀ x ∈ s.wire, x.1 = .automatic →
      x.2.opcode ≠ .close) (hjson : C.protocol = .json)
    {wire : List (Source × Frame)} {d : Nat} (hwire : s.wire = wire ++ [(.closing d, closeFrame)]) :
    heard s.wire = wire := by
  have hdrop : s.wire.dropLast = wire := by rw [hwire, List.dropLast_concat]
  have hall : ∀ x ∈ wire, decide (x.2.opcode ≠ .close) = true := by
    intro x hx
    have hmem : x ∈ s.wire := hwire ▸ List.mem_append_left _ hx
    have hwrites := hi.written x hmem
    have hclosing := hi.closing x (hdrop ▸ hx)
    have hdata : ∀ data, (C.dataFrame data).opcode ≠ .close := by
      intro data
      rw [Config.dataFrame, hjson]
      exact nofun
    refine decide_eq_true ?_
    obtain ⟨source, frame⟩ := x
    cases source with
    | user =>
        obtain ⟨data, rfl⟩ := hwrites
        exact hdata data
    | closing d => exact absurd rfl (hclosing d)
    | automatic => exact hopen _ hmem rfl
    | ping =>
        obtain ⟨data, -, rfl⟩ := hwrites
        exact hdata data
  rw [heard, hwire, List.takeWhile_append_of_pos hall,
    List.takeWhile_cons_of_neg (by simp [closeFrame]), List.append_nil]

/-! ### From one end to the other -/

/-- **The wire delivers in order.**  In every run of the writer task of a JSON connection
that is given valid records to send: for some `n`, a reader of the wire makes, pings
apart, the calls of the first `n` records, and until a callback panics, the callbacks at
its end are called with the invocations in these, in order.  If a close request was
answered with `Ok` and the task has not answered a close frame, the first `n` are all that
were accepted before the request. -/
theorem wire_delivers_in_order {ls : List Label} (h : Run (step C) Replies init ls s)
    (hjson : C.protocol = .json) (hempty : S.fromStr "" = none)
    (hpings : C.PingsRead (V := V) S) {pieces : List (Piece V)}
    (hsent : sends s.accepted = pieces.map Piece.bytes) (hvalid : ∀ p ∈ pieces, p.Valid S T) :
    ∃ n, traffic (readerCalls S protocol (s.wire.map Prod.snd))
        = traffic ((pieces.take n).flatMap (Piece.calls S)) ∧
      (∀ (u : Storage V) target a, u.get target = some (.callback a) →
        (u.processAll S (readerCalls S protocol (s.wire.map Prod.snd))).poisoned = false →
        (u.processAll S (readerCalls S protocol (s.wire.map Prod.snd))).receivedAt target
          = u.receivedAt target
            ++ ((pieces.take n).flatMap (Piece.requestsFor S target)).map (a.callback.id, ·)) ∧
      ∀ d, (d, .ok ()) ∈ s.answers → (∀ x ∈ s.wire, x.1 = .automatic → x.2.opcode ≠ .close) →
        ∃ before after, s.accepted = before ++ .close d :: after ∧
          sends before = (pieces.take n).map Piece.bytes := by
  have htidy := tidy_of_run h
  obtain ⟨htaken, hacknowledged⟩ := (inv_of_run (h.mono fun _ _ _ => trivial)).facts
  have haccepted : C.frames s.taken <+: C.frames s.accepted := by
    rw [accepted, Config.frames_append]
    exact List.prefix_append _ _
  obtain ⟨n, hheard⟩ := frames_take hjson hsent
    (((userFrames_heard s.wire).trans htaken).trans haccepted)
  have hfirst : ∀ p ∈ pieces.take n, p.Valid S T := fun p hp => hvalid p (List.mem_of_mem_take hp)
  have hcalls : traffic (readerCalls S protocol (s.wire.map Prod.snd))
      = traffic ((pieces.take n).flatMap (Piece.calls S)) := by
    rw [readerCalls_heard, traffic_userFrames hjson hempty hpings ?_, hheard,
      flatMap_frameCalls protocol hempty hfirst]
    intro x hx
    refine ⟨htidy.written x ((List.takeWhile_prefix _).subset hx), ?_⟩
    simpa using List.mem_takeWhile_imp hx
  refine ⟨n, hcalls, ?_, ?_⟩
  · intro u target a hget hcalm
    rw [Storage.receivedAt_processAll hget hcalm, ← filterMap_traffic, hcalls, filterMap_traffic,
      filterMap_flatMap_calls hfirst]
  · intro d hd hopen
    obtain ⟨before, wire, htaken, hwire, hbefore⟩ := hacknowledged d hd
    refine ⟨before, s.queue, ?_, ?_⟩
    · rw [accepted, htaken, List.append_assoc]
      rfl
    · rw [heard_of_acknowledged htidy hopen hjson hwire, hbefore] at hheard
      apply List.map_injective_iff.mpr C.dataFrame_injective
      show C.frames before = _
      rw [hheard, List.map_map]
      exact List.map_congr_left fun p _ => (Config.dataFrame_json hjson p).symm

/-- A request, a ping and a pong, and the close frame. -/
def addLabels : List Label :=
  [.send addPiece.bytes, .tick, .written, .automatic ⟨true, .pong, []⟩, .recv, .requestClose 0,
    .written, .recvAutomatic, .written, .recv, .written, .finish]

/-- The writer after `addLabels`. -/
def addWriter : Writer where
  queue := []
  autoQueue := []
  taken := [.send addPiece.bytes, .close 0]
  pc := .done
  wire :=
    [(.ping, textWriter.dataFrame pingPiece.bytes), (.user, textWriter.dataFrame addPiece.bytes),
      (.automatic, ⟨true, .pong, []⟩), (.closing 0, closeFrame)]
  answers := [(0, .ok ())]
  events := []

theorem wire_delivers_in_order_add :
    ∃ n, traffic (readerCalls plainSerde .json (addWriter.wire.map Prod.snd))
        = traffic (([addPiece].take n).flatMap (Piece.calls plainSerde)) ∧
      (∀ (u : Storage Int) target a, u.get target = some (.callback a) →
        (u.processAll plainSerde
          (readerCalls plainSerde .json (addWriter.wire.map Prod.snd))).poisoned = false →
        (u.processAll plainSerde
            (readerCalls plainSerde .json (addWriter.wire.map Prod.snd))).receivedAt target
          = u.receivedAt target ++ (([addPiece].take n).flatMap
              (Piece.requestsFor plainSerde target)).map (a.callback.id, ·)) ∧
      ∀ d, (d, .ok ()) ∈ addWriter.answers →
        (∀ x ∈ addWriter.wire, x.1 = .automatic → x.2.opcode ≠ .close) →
        ∃ before after, addWriter.accepted = before ++ .close d :: after ∧
          sends before = ([addPiece].take n).map Piece.bytes := by
  have hexec : exec (step textWriter) init addLabels = some addWriter := rfl
  have hreplies : ∀ l ∈ addLabels, ∀ s, Replies s l := by
    rintro l hl - frame rfl
    obtain rfl : frame = ⟨true, .pong, []⟩ := by simpa [addLabels] using hl
    exact .inl rfl
  have hpings : textWriter.PingsRead (V := Int) plainSerde := by
    intro text htext
    obtain rfl := Except.ok.inj htext
    exact ⟨by decide, rfl⟩
  refine wire_delivers_in_order (T := plainWriter)
    ((run_free_iff_exec.mpr hexec).of_forall hreplies) rfl rfl hpings rfl ?_
  intro p hp
  rw [List.mem_singleton.mp hp]
  refine ⟨?_, rfl, rfl, by decide⟩
  intro args hargs v hv
  obtain rfl := Option.some.inj (show some [] = some args from hargs)
  simp at hv

end Writer

end SignalR
