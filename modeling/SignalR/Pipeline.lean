/-
SignalR/Pipeline.lean

JSON messages on their way through the reader.  Text frames carry records, each
ended by a separator: messages as `MessageParser::serialize` writes them, and
records of any other origin.  However the records are grouped into frames, the
reader makes for every message the one call with the message's type, in order, and
the message is seen in it; another record causes what it would cause alone
(`text_frames_calls`).
-/
import SignalR.Reader
import SignalR.Serialization

namespace SignalR

variable {V : Type}

/-! ### Records in a frame -/

/-- The JSON crate writes a value as a text and reads it back; the text has no
separator in it, since a control character in a string is escaped. -/
structure WrittenAs (S : Serde) (T : Serializer Value) (v : Value) (text : String) : Prop where
  written : T.toStr v = .ok text
  read : S.fromStr text = some v
  separator : recordSeparator ∉ text.toList

/-- A record in a text frame: a message with its text, or any other text. -/
inductive Piece (V : Type)
  | message (m : Message V) (text : String)
  | foreign (text : String)

namespace Piece

def text : Piece V → String
  | .message _ text => text
  | .foreign text => text

/-- The record and its separator. -/
def bytes (p : Piece V) : List UInt8 :=
  asBytes p.text ++ [separatorByte]

/-- A faithful message is written by the crate; any other record is only required to
have no separator inside. -/
def Valid (S : Serde) (T : Serializer Value) : Piece V → Prop
  | .message m text => m.Faithful ∧ WrittenAs S T (m.value .json) text
  | .foreign text => recordSeparator ∉ text.toList

/-- The `process_message` calls that the record should cause. -/
def calls (S : Serde) : Piece V → List RawMessage
  | .message m text => [{ bytes := asBytes text, messageType := m.type, protocol := .json }]
  | .foreign text => (readRecord S .json (asBytes text)).toList

/-- A message is sent as its record. -/
theorem serialize_eq {S : Serde} {T : Serializer Value} {m : Message V} {text : String}
    (h : Valid S T (.message m text)) :
    serialize T (m.value .json) .json = .ok (message m text).bytes :=
  serialize_json h.2.written

variable {S : Serde} {T : Serializer Value}

theorem separator_not_mem {p : Piece V} (h : p.Valid S T) : separatorByte ∉ asBytes p.text := by
  have hchar : recordSeparator ∉ p.text.toList := by
    cases p with
    | message m text => exact h.2.separator
    | foreign text => exact h
  intro hmem
  obtain ⟨c, hc, hbyte⟩ := List.mem_flatMap.mp hmem
  refine separatorByte_not_mem_utf8EncodeChar ?_ hbyte
  rintro rfl
  exact hchar hc

/-- A message is seen in its text. -/
theorem seen {m : Message V} {text : String} (h : Valid S T (.message m text)) :
    m.Seen S .json (asBytes text) := by
  refine Message.seen_json h.1 ?_
  rw [wireValue, fromUtf8_asBytes]
  exact h.2.read

/-- The reader makes the calls of a record. -/
theorem readRecord_eq {p : Piece V} (h : p.Valid S T) :
    (readRecord S .json (asBytes p.text)).toList = p.calls S := by
  cases p with
  | message m text =>
      have htype : readSignalrMessageType S (asBytes text) .json = .ok m.type := by
        rw [readSignalrMessageType, if_neg (by simp), (seen h).type]
        rfl
      rw [Piece.text, readRecord, htype]
      rfl
  | foreign text => rfl

/-- A record that is not JSON causes no call. -/
theorem calls_malformed {text : String} (h : S.fromStr text = none) :
    (foreign text : Piece V).calls S = [] := by
  rw [calls, readRecord, readSignalrMessageType, if_neg (by simp), deserialize, fromUtf8_asBytes]
  simp [h, Except.map]

end Piece

/-! ### Frames of records -/

/-- A text frame of whole records. -/
def textFrame (pieces : List (Piece V)) : Frame :=
  { fin := true, opcode := .text, payload := pieces.flatMap Piece.bytes }

section

variable {S : Serde} {T : Serializer Value} {pieces : List (Piece V)}

/-- The payload is the encoding of a text. -/
theorem fromUtf8_textFrame (pieces : List (Piece V)) :
    ∃ text, fromUtf8 (textFrame pieces).payload = some text := by
  refine ⟨String.ofList (pieces.flatMap fun p => p.text.toList ++ [recordSeparator]), ?_⟩
  have hpayload : (textFrame pieces).payload = asBytes (String.ofList
      (pieces.flatMap fun p => p.text.toList ++ [recordSeparator])) := by
    rw [asBytes_ofList, List.flatMap_assoc]
    refine List.flatMap_congr fun p _ => ?_
    rw [List.flatMap_append]
    rfl
  rw [hpayload, fromUtf8_asBytes]

/-- The calls of a payload, record by record.  An empty record is dropped when the
payload is split; it would cause no call either. -/
theorem filterMap_readRecord_pieces (hempty : S.fromStr "" = none)
    (h : ∀ p ∈ pieces, p.Valid S T) :
    (getMessagesBinary (pieces.flatMap Piece.bytes)).filterMap (readRecord S .json)
      = pieces.flatMap (Piece.calls S) := by
  rw [getMessagesBinary_eq]
  induction pieces with
  | nil => rfl
  | cons p pieces ih =>
      have hp := h p List.mem_cons_self
      have ih := ih fun q hq => h q (List.mem_cons_of_mem _ hq)
      rw [List.flatMap_cons, List.flatMap_cons, Piece.bytes, List.append_assoc,
        List.singleton_append,
        List.splitOn_append_cons_self_of_not_mem (Piece.separator_not_mem hp), ← ih,
        ← Piece.readRecord_eq hp, List.filter_cons]
      split
      · rcases hr : readRecord S .json (asBytes p.text) with - | call <;> simp [hr]
      · rename_i hrecord
        have htext : asBytes p.text = asBytes "" := by simpa [asBytes] using hrecord
        have hnone := Piece.calls_malformed (V := V) hempty
        rw [Piece.calls, Option.toList_eq_nil_iff] at hnone
        rw [htext, hnone]
        rfl

theorem frameCalls_textFrame (protocol : Protocol) (hempty : S.fromStr "" = none)
    (h : ∀ p ∈ pieces, p.Valid S T) :
    frameCalls S protocol (textFrame pieces) = pieces.flatMap (Piece.calls S) := by
  obtain ⟨text, htext⟩ := fromUtf8_textFrame pieces
  rw [← filterMap_readRecord_pieces hempty h]
  exact frameCalls_text true htext

end

/-- **JSON messages reach the actions as they were sent.**  However valid records are
grouped into text frames, the calls of the reader are those of the records, in
order.  For a message that is one call with the message's own type, in whose bytes
the message is seen: its type, its target or id, and all of it.  A record that is
not JSON causes none. -/
theorem text_frames_calls {S : Serde} {T : Serializer Value} (protocol : Protocol)
    (hempty : S.fromStr "" = none) {frames : List (List (Piece V))}
    (h : ∀ pieces ∈ frames, ∀ p ∈ pieces, p.Valid S T) :
    readerCalls S protocol (frames.map textFrame) = frames.flatten.flatMap (Piece.calls S) ∧
      (∀ m text, Piece.message m text ∈ frames.flatten →
        serialize T (m.value .json) .json = .ok (Piece.message m text).bytes ∧
          m.Seen S .json (asBytes text)) ∧
      ∀ text, S.fromStr text = none → (Piece.foreign text : Piece V).calls S = [] := by
  refine ⟨?_, ?_, fun text => Piece.calls_malformed⟩
  · induction frames with
    | nil => rfl
    | cons pieces frames ih =>
        have ih := ih fun ps hps => h ps (List.mem_cons_of_mem _ hps)
        rw [List.map_cons, List.flatten_cons, List.flatMap_append, ← ih,
          ← frameCalls_textFrame protocol hempty (h pieces List.mem_cons_self)]
        rfl
  · intro m text hm
    obtain ⟨pieces, hpieces, hp⟩ := List.mem_flatten.mp hm
    have hvalid := h pieces hpieces _ hp
    exact ⟨Piece.serialize_eq hvalid, Piece.seen hvalid⟩

/-- `serde_json::to_string` on pings and on invocations without arguments. -/
def plainWriter : Serializer Value where
  toStr
    | .obj [("type", .int n)] => .ok ("\x7b\"type\":" ++ toString n ++ "\x7d")
    | .obj [("type", .int n), ("target", .str target), ("arguments", .arr [])] =>
        .ok ("\x7b\"type\":" ++ toString n ++ ",\"target\":\"" ++ target
          ++ "\",\"arguments\":[]\x7d")
    | _ => .error "unsupported"
  toVec _ := .error "unsupported"

/-- The invocation `add()` with its text. -/
def addPiece : Piece Int :=
  .message (.invocation (.createSingle "add"))
    "\x7b\"type\":1,\"target\":\"add\",\"arguments\":[]\x7d"

/-- A ping with its text. -/
def pingPiece : Piece Int :=
  .message .ping "\x7b\"type\":6\x7d"

/-- What `serde_json::from_str` makes of the two texts. -/
def plainSerde : Serde :=
  .ofTable
    [(addPiece.text, .obj [("type", .int 1), ("target", .str "add"), ("arguments", .arr [])]),
      (pingPiece.text, .obj [("type", .int 6)])]
    []

theorem text_frames_calls_add :
    readerCalls plainSerde .json
        ([[addPiece, .foreign "oops"], [.foreign "", pingPiece]].map textFrame)
      = [[addPiece, .foreign "oops"], [.foreign "", pingPiece]].flatten.flatMap
          (Piece.calls plainSerde) ∧
      (∀ m text, Piece.message m text
          ∈ [[addPiece, .foreign "oops"], [.foreign "", pingPiece]].flatten →
        serialize plainWriter (m.value .json) .json = .ok (Piece.message m text).bytes ∧
          m.Seen plainSerde .json (asBytes text)) ∧
      ∀ text, plainSerde.fromStr text = none →
        (Piece.foreign text : Piece Int).calls plainSerde = [] := by
  refine text_frames_calls .json rfl ?_
  have hadd : addPiece.Valid plainSerde plainWriter := by
    refine ⟨?_, rfl, rfl, by decide⟩
    intro args hargs a ha
    obtain rfl := Option.some.inj (show some [] = some args from hargs)
    simp at ha
  have hping : pingPiece.Valid plainSerde plainWriter := ⟨trivial, rfl, rfl, by decide⟩
  have hother : ∀ text ∈ ["oops", ""],
      (Piece.foreign text : Piece Int).Valid plainSerde plainWriter := by
    show ∀ text ∈ ["oops", ""], recordSeparator ∉ text.toList
    decide
  simp only [List.mem_cons, List.not_mem_nil, or_false]
  rintro pieces (rfl | rfl) p hp
  · rcases List.mem_pair.mp hp with rfl | rfl
    · exact hadd
    · exact hother _ (by simp)
  · rcases List.mem_pair.mp hp with rfl | rfl
    · exact hother _ (by simp)
    · exact hping

end SignalR
