/-
SignalR/Reader.lean

The reader task's loop over incoming frames: which `process_message` calls it
makes.  A text or binary frame is split into records and every record whose type
can be read is dispatched; a close frame ends the loop; any other frame, a
continuation in particular, is skipped.

So of a fragmented message only the first frame is read.  The records that end in
a continuation frame are lost, and a record cut by the first frame's end is read
as what stands before the cut (`fragmented_calls_eq_iff`).
-/
import SignalR.Records

namespace SignalR

/-! ### Frames -/

/-- `OpCode`. -/
inductive OpCode
  | continuation
  | text
  | binary
  | close
  | ping
  | pong
  deriving DecidableEq, Repr

/-- `Frame`. -/
structure Frame where
  fin : Bool
  opcode : OpCode
  payload : List UInt8

/-- One record: the `process_message` call it causes, if its type can be read. -/
def readRecord (S : Serde) (protocol : Protocol) (message : List UInt8) : Option RawMessage :=
  match readSignalrMessageType S message protocol with
  | .ok messageType => some { bytes := message, messageType, protocol }
  | .error _ => none

/-- The `process_message` calls for one frame, in order. -/
def frameCalls (S : Serde) (protocol : Protocol) (frame : Frame) : List RawMessage :=
  match frame.opcode with
  | .text =>
      match fromUtf8 frame.payload with
      | some text =>
          (getMessagesText text).filterMap fun message => readRecord S .json (asBytes message)
      -- a frame that is not UTF-8 is dropped and not even logged
      | none => []
  | .binary => (getMessagesBinary frame.payload).filterMap (readRecord S protocol)
  | .close => []
  -- `_ => {}`: FIN is never looked at, and a continuation is skipped like a ping
  | .continuation => []
  | .ping => []
  | .pong => []

/-- The `process_message` calls of the reader task on a sequence of frames.  They
are made one after the other; a callback that panics ends the task. -/
def readerCalls (S : Serde) (protocol : Protocol) : List Frame → List RawMessage
  | [] => []
  | frame :: frames =>
      match frame.opcode with
      | .close => []
      | _ => frameCalls S protocol frame ++ readerCalls S protocol frames

/-! ### Readable records -/

/-- The record is not empty and its type can be read. -/
def Readable (S : Serde) (protocol : Protocol) (record : List UInt8) : Bool :=
  !record.isEmpty && (readRecord S protocol record).isSome

/-- The readable records of a payload. -/
def readableRecords (S : Serde) (protocol : Protocol) (payload : List UInt8) :
    List (List UInt8) :=
  (payload.splitOn separatorByte).filter (Readable S protocol)

variable {S : Serde} {protocol : Protocol}

theorem bytes_of_readRecord {record : List UInt8} {m : RawMessage}
    (h : readRecord S protocol record = some m) : m.bytes = record := by
  rw [readRecord] at h
  split at h
  · obtain rfl := Option.some.inj h
    rfl
  · simp at h

/-- The calls of a payload carry its readable records. -/
theorem map_bytes_filterMap_readRecord (payload : List UInt8) :
    ((getMessagesBinary payload).filterMap (readRecord S protocol)).map RawMessage.bytes
      = readableRecords S protocol payload := by
  rw [getMessagesBinary_eq, readableRecords]
  induction payload.splitOn separatorByte with
  | nil => rfl
  | cons piece pieces ih =>
      rw [List.filter_cons, List.filter_cons]
      rcases hr : readRecord S protocol piece with - | m
      · rcases piece.isEmpty <;> simp [Readable, hr, ih]
      · rcases hp : piece.isEmpty <;> simp [Readable, hr, hp, ih, bytes_of_readRecord hr]

/-- A call is determined by its bytes. -/
theorem filterMap_readRecord_eq_iff (payload payload' : List UInt8) :
    (getMessagesBinary payload).filterMap (readRecord S protocol)
        = (getMessagesBinary payload').filterMap (readRecord S protocol)
      ↔ readableRecords S protocol payload = readableRecords S protocol payload' := by
  rw [← map_bytes_filterMap_readRecord, ← map_bytes_filterMap_readRecord]
  constructor
  · exact congrArg _
  · intro h
    have hread : ∀ l : List (List UInt8), l.filterMap (readRecord S protocol)
        = ((l.filterMap (readRecord S protocol)).map RawMessage.bytes).filterMap
            (readRecord S protocol) := by
      intro l
      induction l with
      | nil => rfl
      | cons record l ih =>
          rcases hr : readRecord S protocol record with - | m
          · simpa [hr] using ih
          · simp [hr, bytes_of_readRecord hr, ← ih]
    rw [hread (getMessagesBinary payload), h, ← hread]

theorem filterMap_readRecord_eq_nil_iff (payload : List UInt8) :
    (getMessagesBinary payload).filterMap (readRecord S protocol) = []
      ↔ readableRecords S protocol payload = [] := by
  rw [← map_bytes_filterMap_readRecord, List.map_eq_nil_iff]

/-- A text frame that is valid UTF-8 causes the calls of its bytes. -/
theorem frameCalls_text {payload : List UInt8} {text : String} (fin : Bool)
    (h : fromUtf8 payload = some text) :
    frameCalls S protocol ⟨fin, .text, payload⟩
      = (getMessagesBinary payload).filterMap (readRecord S .json) := by
  simp only [frameCalls, h]
  rw [← asBytes_of_fromUtf8 h, ← getMessagesText_asBytes, List.filterMap_map]
  rfl

/-! ### When the first frame suffices -/

/-- What stands after the last separator of the first frame. -/
def openPiece (first : List UInt8) : List UInt8 :=
  (first.splitOn separatorByte).getLastD []

/-- What stands before the first separator of the continuation. -/
def closingPiece (continued : List UInt8) : List UInt8 :=
  (continued.splitOn separatorByte).headD []

/-- The readable records that start in the continuation. -/
def laterRecords (S : Serde) (protocol : Protocol) (continued : List UInt8) :
    List (List UInt8) :=
  ((continued.splitOn separatorByte).tail).filter (Readable S protocol)

/-- No readable record is lost or cut short at the end of the first frame.  If the
continuation starts at a record boundary, no readable record may follow.
Otherwise the record across the cut must be unreadable, and what follows must make
up for the piece before the cut, which is read as a record of its own. -/
def RecordsIntact (S : Serde) (protocol : Protocol) (first continued : List UInt8) : Prop :=
  if closingPiece continued = [] then
    laterRecords S protocol continued = []
  else
    Readable S protocol (openPiece first ++ closingPiece continued) = false ∧
      laterRecords S protocol continued = [openPiece first].filter (Readable S protocol)

instance (first continued : List UInt8) : Decidable (RecordsIntact S protocol first continued) := by
  rw [RecordsIntact]
  exact inferInstance

/-- The first frame of a message causes the calls of the whole message. -/
def FirstFrameSuffices (S : Serde) (protocol : Protocol) (opcode : OpCode)
    (first continued : List UInt8) : Prop :=
  match opcode with
  | .text =>
      match fromUtf8 first, fromUtf8 (first ++ continued) with
      | some _, some _ => RecordsIntact S .json first continued
      | some _, none => readableRecords S .json first = []
      -- the cut is inside a character
      | none, some _ => readableRecords S .json (first ++ continued) = []
      | none, none => True
  | _ => RecordsIntact S protocol first continued

theorem readableRecords_append_eq_iff (first continued : List UInt8) :
    readableRecords S protocol first = readableRecords S protocol (first ++ continued)
      ↔ RecordsIntact S protocol first continued := by
  have hkey : readableRecords S protocol first = readableRecords S protocol (first ++ continued)
      ↔ [openPiece first].filter (Readable S protocol)
        = [openPiece first ++ closingPiece continued].filter (Readable S protocol)
          ++ laterRecords S protocol continued := by
    -- all pieces of the first frame but the last are pieces of the whole
    have hlast : first.splitOn separatorByte
        = (first.splitOn separatorByte).dropLast ++ [openPiece first] := by
      rw [openPiece, List.getLastD_eq_getLast?,
        List.getLast?_eq_some_getLast (List.splitOn_ne_nil _ _)]
      exact (List.dropLast_append_getLast _).symm
    have hwhole : readableRecords S protocol (first ++ continued)
        = ((first.splitOn separatorByte).dropLast).filter (Readable S protocol)
          ++ ([openPiece first ++ closingPiece continued].filter (Readable S protocol)
            ++ laterRecords S protocol continued) := by
      rw [readableRecords, splitOn_append, List.filter_append, ← List.singleton_append,
        List.filter_append]
      rfl
    rw [hwhole, readableRecords, hlast, List.filter_append]
    simp only [List.dropLast_concat, List.append_cancel_left_eq]
  rw [hkey, RecordsIntact]
  split
  · rename_i hclosing
    rw [hclosing, List.append_nil, List.self_eq_append_right]
  · rename_i hclosing
    constructor
    · intro h
      have hunreadable :
          Readable S protocol (openPiece first ++ closingPiece continued) = false := by
        by_contra hr
        have hread : [openPiece first ++ closingPiece continued].filter (Readable S protocol)
            = [openPiece first ++ closingPiece continued] := by simpa using hr
        rw [hread, List.singleton_append, List.filter_cons] at h
        split at h
        · -- the record across the cut would be the piece before it
          have hpiece := (List.cons_eq_cons.mp h).1
          exact hclosing (List.self_eq_append_right.mp hpiece)
        · simp at h
      refine ⟨hunreadable, ?_⟩
      simpa [hunreadable] using h.symm
    · rintro ⟨hunreadable, hlater⟩
      simp [hunreadable, hlater]

/-! ### Fragmented messages -/

/-- The payload that the continuation frames of a message carry. -/
def continuationPayload (frames : List Frame) : List UInt8 :=
  frames.flatMap fun frame => if frame.opcode = .continuation then frame.payload else []

/-- `frames` continue a fragmented message of type `opcode`: continuation frames
of which exactly the last has FIN, with control frames in between. -/
structure Continues (opcode : OpCode) (frames : List Frame) : Prop where
  data : opcode = .text ∨ opcode = .binary
  rest : ∀ frame ∈ frames, frame.opcode ≠ .text ∧ frame.opcode ≠ .binary
  fin : (frames.filter fun frame => frame.opcode = .continuation).map Frame.fin
    = List.replicate ((frames.filter fun frame => frame.opcode = .continuation).length - 1) false
      ++ [true]

/-- Only text and binary frames cause calls. -/
theorem readerCalls_eq_nil {frames : List Frame}
    (h : ∀ frame ∈ frames, frame.opcode ≠ .text ∧ frame.opcode ≠ .binary) :
    readerCalls S protocol frames = [] := by
  induction frames with
  | nil => rfl
  | cons frame frames ih =>
      obtain ⟨htext, hbinary⟩ := h frame List.mem_cons_self
      have ih := ih fun f hf => h f (List.mem_cons_of_mem _ hf)
      rcases hop : frame.opcode <;> simp_all [readerCalls, frameCalls]

/-- **When a fragmented message is read like an unfragmented one.**  The reader
makes the same calls for a message in fragments as for the message in one frame
exactly if its first frame suffices. -/
theorem fragmented_calls_eq_iff (S : Serde) (protocol : Protocol) {opcode : OpCode}
    (first : List UInt8) {frames : List Frame} (h : Continues opcode frames) :
    readerCalls S protocol (⟨false, opcode, first⟩ :: frames)
        = readerCalls S protocol [⟨true, opcode, first ++ continuationPayload frames⟩]
      ↔ FirstFrameSuffices S protocol opcode first (continuationPayload frames) := by
  have hrest : readerCalls S protocol frames = [] := readerCalls_eq_nil h.rest
  generalize continuationPayload frames = continued
  rcases h.data with rfl | rfl
  · have hcalls : readerCalls S protocol (⟨false, .text, first⟩ :: frames)
        = frameCalls S protocol ⟨false, .text, first⟩ := by simp [readerCalls, hrest]
    have hwhole : readerCalls S protocol [⟨true, .text, first ++ continued⟩]
        = frameCalls S protocol ⟨true, .text, first ++ continued⟩ := by simp [readerCalls]
    rw [hcalls, hwhole, FirstFrameSuffices]
    rcases hf : fromUtf8 first with - | text <;>
      rcases hw : fromUtf8 (first ++ continued) with - | text'
    · simp [frameCalls, hf, hw]
    · rw [frameCalls_text true hw]
      have hnil : frameCalls S protocol ⟨false, .text, first⟩ = [] := by simp [frameCalls, hf]
      rw [hnil, eq_comm]
      exact filterMap_readRecord_eq_nil_iff (first ++ continued)
    · rw [frameCalls_text false hf]
      have hnil : frameCalls S protocol ⟨true, .text, first ++ continued⟩ = [] := by
        simp [frameCalls, hw]
      rw [hnil]
      exact filterMap_readRecord_eq_nil_iff first
    · rw [frameCalls_text false hf, frameCalls_text true hw, filterMap_readRecord_eq_iff]
      exact readableRecords_append_eq_iff first continued
  · have hcalls : readerCalls S protocol (⟨false, .binary, first⟩ :: frames)
        = frameCalls S protocol ⟨false, .binary, first⟩ := by simp [readerCalls, hrest]
    have hwhole : readerCalls S protocol [⟨true, .binary, first ++ continued⟩]
        = frameCalls S protocol ⟨true, .binary, first ++ continued⟩ := by simp [readerCalls]
    rw [hcalls, hwhole]
    exact (filterMap_readRecord_eq_iff _ _).trans (readableRecords_append_eq_iff first continued)

/-- The two halves of a ping record, `{"type"` and `:6}` with its separator. -/
def pingHalves : String × String := ("\x7b\"type\"", ":6\x7d\x1e")

/-- The serializer on that record. -/
def pingSerde : Serde :=
  .ofTable [("\x7b\"type\":6\x7d", .obj [("type", .int 6)])] []

theorem fragmented_calls_eq_iff_ping :
    readerCalls pingSerde .json
        [⟨false, .text, asBytes pingHalves.1⟩, ⟨true, .ping, []⟩,
          ⟨true, .continuation, asBytes pingHalves.2⟩]
        = readerCalls pingSerde .json
          [⟨true, .text, asBytes pingHalves.1 ++ continuationPayload
            [⟨true, .ping, []⟩, ⟨true, .continuation, asBytes pingHalves.2⟩]⟩]
      ↔ FirstFrameSuffices pingSerde .json .text (asBytes pingHalves.1)
        (continuationPayload [⟨true, .ping, []⟩, ⟨true, .continuation, asBytes pingHalves.2⟩]) :=
  fragmented_calls_eq_iff pingSerde .json _
    { data := .inl rfl
      rest := by simp
      fin := by decide }

theorem fragmented_ping_lost :
    readerCalls pingSerde .json
        [⟨false, .text, asBytes pingHalves.1⟩, ⟨true, .continuation, asBytes pingHalves.2⟩] = [] ∧
      readerCalls pingSerde .json
        [⟨true, .text, asBytes pingHalves.1 ++ asBytes pingHalves.2⟩] ≠ [] := by
  have hwhole : asBytes pingHalves.1 ++ asBytes pingHalves.2
      = asBytes (pingHalves.1 ++ pingHalves.2) := by
    simp [asBytes]
  have hsplit : getMessagesText (pingHalves.1 ++ pingHalves.2) = ["\x7b\"type\":6\x7d"] := by
    decide
  have hfirst : getMessagesText pingHalves.1 = ["\x7b\"type\""] := by
    decide
  have hping : readRecord pingSerde .json (asBytes "\x7b\"type\":6\x7d")
      = some ⟨asBytes "\x7b\"type\":6\x7d", .ping, .json⟩ := by
    simp only [readRecord, readSignalrMessageType, deserialize, fromUtf8_asBytes]
    rfl
  have hcut : readRecord pingSerde .json (asBytes "\x7b\"type\"") = none := by
    simp only [readRecord, readSignalrMessageType, deserialize, fromUtf8_asBytes]
    rfl
  constructor
  · simp [readerCalls, frameCalls, hfirst, hcut]
  · rw [hwhole]
    simp [readerCalls, frameCalls, hsplit, hping]

end SignalR
