/-
SignalR/Framing.lean

What the reader finds in the MessagePack messages of a client.  A value is sent as
its encoding and a separator byte, a ping with the length prefix of the hub
protocol and no separator, and `get_messages_binary` cuts at separator bytes.

So the framing loses nothing exactly as long as no value's encoding holds the
separator byte and no ping stands before another message (`framing_iff`).
-/
import SignalR.Serialization

namespace SignalR

open MessagePack

/-! ### Outgoing messages -/

/-- `serialize_signalr_ping`. -/
def serializeSignalrPing (T : Serializer Value) : Protocol → Except String (List UInt8)
  | .json => serialize T ((Message.ping (V := Unit)).value .json) .json
  -- a length prefix, and no separator
  | .messagePack => .ok [0x02, 0x91, 0x06]

/-- A message that is sent as MessagePack: a value of any serializable type, as the
object it is written as, or a ping. -/
inductive Outgoing
  | value (m : Msg)
  | ping

namespace Outgoing

/-- The message without the separator. -/
def body : Outgoing → List UInt8
  | .value m => encode m
  | .ping => [0x02, 0x91, 0x06]

/-- What is sent. -/
def bytes : Outgoing → List UInt8
  | .value m => encode m ++ [separatorByte]
  | .ping => [0x02, 0x91, 0x06]

/-- `bytes` is what `MessageParser::serialize` makes of a value. -/
theorem serialize_value {T : Serializer Msg} {m : Msg} (h : T.toVec m = .ok (encode m)) :
    serialize T m .messagePack = .ok (value m).bytes :=
  serialize_messagePack h

theorem serialize_ping (T : Serializer Value) :
    serializeSignalrPing T .messagePack = .ok ping.bytes := rfl

end Outgoing

/-! ### Cutting at separators -/

theorem getMessagesBinary_append {record : List UInt8} (hrecord : separatorByte ∉ record)
    (hne : record ≠ []) (rest : List UInt8) :
    getMessagesBinary (record ++ separatorByte :: rest) = record :: getMessagesBinary rest := by
  rw [getMessagesBinary_eq, List.splitOn_append_cons_self_of_not_mem hrecord,
    List.filter_cons_of_pos, getMessagesBinary_eq]
  simpa using hne

theorem getMessagesBinary_singleton {record : List UInt8} (hrecord : separatorByte ∉ record)
    (hne : record ≠ []) : getMessagesBinary record = [record] := by
  rw [getMessagesBinary_eq, List.splitOn_eq_singleton hrecord, List.filter_cons_of_pos,
    List.filter_nil]
  simpa using hne

/-- A piece without separator before a byte that is not one: the piece is only the
beginning of a record. -/
theorem getMessagesBinary_append_cons {piece : List UInt8} (hpiece : separatorByte ∉ piece)
    {b : UInt8} (hb : b ≠ separatorByte) (rest : List UInt8) :
    ∃ tail records, getMessagesBinary (piece ++ b :: rest) = (piece ++ b :: tail) :: records := by
  rcases hrest : rest.splitOn separatorByte with - | ⟨tail, pieces⟩
  · exact absurd hrest (List.splitOn_ne_nil _ _)
  refine ⟨tail, pieces.filter fun record => !record.isEmpty, ?_⟩
  have hcons : (b :: rest).splitOn separatorByte = (b :: tail) :: pieces := by
    rw [List.splitOn_cons_eq_if_modifyHead, if_neg (by simpa using hb), hrest]
    rfl
  rw [getMessagesBinary_eq, splitOn_append, List.splitOn_eq_singleton hpiece, hcons]
  simp

/-- No record holds a separator. -/
theorem not_mem_of_mem_getMessagesBinary {data record : List UInt8}
    (h : record ∈ getMessagesBinary data) : separatorByte ∉ record := by
  rw [getMessagesBinary_eq] at h
  exact not_mem_of_mem_splitOn (List.mem_of_mem_filter h)

/-! ### Lossless framing -/

/-- No encoding of a value holds the separator byte. -/
def Quiet (messages : List Outgoing) : Prop :=
  ∀ m, .value m ∈ messages → separatorByte ∉ encode m

/-- The bytes of quiet messages do not begin with a separator. -/
theorem Quiet.head {message : Outgoing} {messages : List Outgoing}
    (h : Quiet (message :: messages)) :
    ∃ b rest, (message :: messages).flatMap Outgoing.bytes = b :: rest ∧ b ≠ separatorByte := by
  cases message with
  | value m =>
      have hm := h m List.mem_cons_self
      rcases hb : encode m with - | ⟨b, rest⟩
      · exact absurd hb (encode_ne_nil m)
      · refine ⟨b, rest ++ separatorByte :: messages.flatMap Outgoing.bytes,
          by simp [Outgoing.bytes, hb], ?_⟩
        rintro rfl
        exact hm (hb ▸ List.mem_cons_self)
  | ping => exact ⟨0x02, _, rfl, by decide⟩

/-- Among quiet messages only a ping that is not the last one does harm. -/
theorem Quiet.getMessagesBinary_eq_iff {messages : List Outgoing} (h : Quiet messages) :
    getMessagesBinary (messages.flatMap Outgoing.bytes) = messages.map Outgoing.body
      ↔ .ping ∉ messages.dropLast := by
  -- message by message: a value is cut off whole, a ping runs into what follows
  induction messages with
  | nil => simp [getMessagesBinary]
  | cons message messages ih =>
      have ih := ih fun m hm => h m (List.mem_cons_of_mem _ hm)
      cases message with
      | value m =>
          have hcut : getMessagesBinary ((.value m :: messages).flatMap Outgoing.bytes)
              = encode m :: getMessagesBinary (messages.flatMap Outgoing.bytes) := by
            rw [List.flatMap_cons, Outgoing.bytes, List.append_assoc]
            exact getMessagesBinary_append (h m List.mem_cons_self) (encode_ne_nil m) _
          rw [hcut, List.map_cons, Outgoing.body, List.cons_inj_right, ih]
          rcases messages with - | ⟨message, messages⟩ <;> simp
      | ping =>
          have hping : separatorByte ∉ Outgoing.ping.bytes := by decide
          rcases messages with - | ⟨message, messages⟩
          · have hlast := getMessagesBinary_singleton hping (by simp [Outgoing.bytes])
            simpa [Outgoing.body, Outgoing.bytes] using hlast
          · obtain ⟨b, rest, hrest, hb⟩ :=
              Quiet.head fun m hm => h m (List.mem_cons_of_mem _ hm)
            obtain ⟨tail, records, hcut⟩ := getMessagesBinary_append_cons hping hb rest
            rw [List.flatMap_cons, hrest, hcut]
            simp [Outgoing.body, Outgoing.bytes]

/-- **When the framing is lossless.**  The reader finds exactly the bodies of the
messages in their concatenation iff no encoding of a value holds the separator byte
and only the last message may be a ping. -/
theorem framing_iff (messages : List Outgoing) :
    getMessagesBinary (messages.flatMap Outgoing.bytes) = messages.map Outgoing.body
      ↔ Quiet messages ∧ .ping ∉ messages.dropLast := by
  constructor
  · intro h
    have hquiet : Quiet messages := by
      intro m hm
      have hbody : encode m ∈ messages.map Outgoing.body :=
        List.mem_map.mpr ⟨.value m, hm, rfl⟩
      exact not_mem_of_mem_getMessagesBinary (h ▸ hbody)
    exact ⟨hquiet, hquiet.getMessagesBinary_eq_iff.mp h⟩
  · rintro ⟨hquiet, hping⟩
    exact hquiet.getMessagesBinary_eq_iff.mpr hping

/-- A list with the number 30 is cut in two. -/
theorem framing_splits_thirty :
    getMessagesBinary ([Outgoing.value (.arr [.int 1, .int 30, .int 2])].flatMap Outgoing.bytes)
      ≠ [Outgoing.value (.arr [.int 1, .int 30, .int 2])].map Outgoing.body := by
  rw [getMessagesBinary_eq]
  decide

-- A ping runs into the message after it.
example :
    getMessagesBinary ([Outgoing.ping, .value (.arr [.int 1])].flatMap Outgoing.bytes)
      ≠ [Outgoing.ping, .value (.arr [.int 1])].map Outgoing.body := by
  rw [getMessagesBinary_eq]
  decide

end SignalR
