/-
SignalR/Messages.lean

The hub messages and `MessageParser::deserialize`.

A message is decoded several times with different record types: first as
`Ping`, for its type alone; then as `Invocation` or `PossibleInvocation`, for
the target or the id that routes it; and last by the action it is routed to, as
`Invocation`, `Completion<R>` or `StreamItem<R>`.  A generic type argument
`R: DeserializeOwned` is a `DeserializeOwned V`, where `V` holds the results of
every type in use.
-/
import SignalR.Value

namespace SignalR

/-- `Protocol`. -/
inductive Protocol
  | json
  | messagePack
  deriving DecidableEq, Repr

/-- `MessageType`, a `repr(u8)` enumeration on the wire. -/
inductive MessageType
  | invocation
  | streamItem
  | completion
  | streamInvocation
  | cancelInvocation
  | ping
  | close
  | other
  deriving DecidableEq, Repr

namespace MessageType

/-- The discriminant. -/
def toU8 : MessageType → Nat
  | .invocation => 1
  | .streamItem => 2
  | .completion => 3
  | .streamInvocation => 4
  | .cancelInvocation => 5
  | .ping => 6
  | .close => 7
  | .other => 8

/-- The variant with a given discriminant. -/
def ofU8 : Nat → Option MessageType
  | 1 => some .invocation
  | 2 => some .streamItem
  | 3 => some .completion
  | 4 => some .streamInvocation
  | 5 => some .cancelInvocation
  | 6 => some .ping
  | 7 => some .close
  -- the source gives its catch-all variant a discriminant of its own
  | 8 => some .other
  | _ => none

@[simp] theorem ofU8_toU8 (t : MessageType) : ofU8 t.toU8 = some t := by
  cases t <;> rfl

/-- `MessageType::deserialize`. -/
def decode (v : Value) : Option MessageType :=
  v.asU8.bind ofU8

end MessageType

/-! ### Record types -/

/-- `Ping`: the one field every message has. -/
structure Ping where
  type : MessageType

/-- `Invocation`. -/
structure Invocation where
  type : MessageType
  headers : Option (List (String × String))
  id : Option String
  target : String
  arguments : Option (List Value)
  streamIds : Option (List String)

/-- `PossibleInvocation`, which routes stream items and completions. -/
structure PossibleInvocation where
  type : MessageType
  headers : Option (List (String × String))
  invocationId : Option String
  target : Option String

/-- `Completion<R>`. -/
structure Completion (V : Type) where
  type : MessageType
  headers : Option (List (String × String))
  invocationId : String
  result : Option V
  error : Option String

/-- `StreamItem<I>`. -/
structure StreamItem (V : Type) where
  type : MessageType
  headers : Option (List (String × String))
  invocationId : String
  item : V

open Value

def Ping.decode (v : Value) : Option Ping := do
  let get ← record ["type"] v
  let type ← required (.plain MessageType.decode) (get "type")
  pure { type }

def Invocation.decode (v : Value) : Option Invocation := do
  let get ← record ["type", "headers", "invocationId", "target", "arguments", "streamIds"] v
  let type ← required (.plain MessageType.decode) (get "type")
  let headers ← optional asStringMap (get "headers")
  let id ← optional asStr (get "invocationId")
  let target ← required (.plain asStr) (get "target")
  let arguments ← optional (asVec asJson) (get "arguments")
  let streamIds ← optional (asVec asStr) (get "streamIds")
  pure { type, headers, id, target, arguments, streamIds }

def PossibleInvocation.decode (v : Value) : Option PossibleInvocation := do
  let get ← record ["type", "headers", "invocationId", "target"] v
  let type ← required (.plain MessageType.decode) (get "type")
  let headers ← optional asStringMap (get "headers")
  let invocationId ← optional asStr (get "invocationId")
  let target ← optional asStr (get "target")
  pure { type, headers, invocationId, target }

variable {V : Type}

def Completion.decode (result : DeserializeOwned V) (v : Value) : Option (Completion V) := do
  let get ← record ["type", "headers", "invocationId", "result", "error"] v
  let type ← required (.plain MessageType.decode) (get "type")
  let headers ← optional asStringMap (get "headers")
  let invocationId ← required (.plain asStr) (get "invocationId")
  let result ← optional result.read (get "result")
  let error ← optional asStr (get "error")
  pure { type, headers, invocationId, result, error }

def StreamItem.decode (item : DeserializeOwned V) (v : Value) : Option (StreamItem V) := do
  let get ← record ["type", "headers", "invocationId", "item"] v
  let type ← required (.plain MessageType.decode) (get "type")
  let headers ← optional asStringMap (get "headers")
  let invocationId ← required (.plain asStr) (get "invocationId")
  let item ← required item (get "item")
  pure { type, headers, invocationId, item }

/-- `Completion::into_result`. -/
def Completion.intoResult (c : Completion V) : Except String V :=
  match c.result, c.error with
  -- a result wins over an error that is sent beside it
  | some result, _ => .ok result
  | none, some error => .error error
  | none, none => .error "Completion did not include a result or error"

/-! ### MessageParser -/

/-- `str::as_bytes`. -/
def asBytes (text : String) : List UInt8 :=
  text.toList.flatMap String.utf8EncodeChar

/-- `MessageParser::deserialize`. -/
def deserialize {α : Type} (S : Serde) (decode : Value → Option α) (message : List UInt8) :
    Protocol → Except String α
  | .json =>
      match fromUtf8 message with
      | none => .error ("UTF-8 error: " ++ S.errorText message)
      | some text =>
          match (S.fromStr text).bind decode with
          | some a => .ok a
          | none => .error (S.errorText message)
  | .messagePack =>
      match (S.fromSlice message).bind decode with
      | some a => .ok a
      | none => .error (S.errorText message)

/-- The value a message denotes under a protocol, if it denotes one. -/
def wireValue (S : Serde) (message : List UInt8) : Protocol → Option Value
  | .json => (fromUtf8 message).bind S.fromStr
  | .messagePack => S.fromSlice message

/-- A message decodes as a type exactly if the value it denotes does. -/
theorem deserialize_eq_ok_iff {α : Type} {S : Serde} {decode : Value → Option α}
    {message : List UInt8} {protocol : Protocol} {a : α} :
    deserialize S decode message protocol = .ok a
      ↔ (wireValue S message protocol).bind decode = some a := by
  cases protocol with
  | json =>
      rcases h : fromUtf8 message with - | text
      · simp [deserialize, wireValue, h]
      · rcases h' : (S.fromStr text).bind decode with - | b <;>
          simp [deserialize, wireValue, h, h']
  | messagePack =>
      rcases h : (S.fromSlice message).bind decode with - | b <;>
        simp [deserialize, wireValue, h]

/-- Text survives the way through its bytes. -/
@[simp] theorem fromUtf8_asBytes (text : String) : fromUtf8 (asBytes text) = some text := by
  have hbytes : (asBytes text).toByteArray = text.toByteArray := by
    rw [← String.utf8Encode_toList]
    rfl
  -- the bytes are those the string itself holds, which are valid by construction
  have hvalid : (asBytes text).toByteArray.IsValidUTF8 := hbytes ▸ text.isValidUTF8
  unfold fromUtf8 String.fromUTF8?
  rw [dif_pos hvalid]
  exact congrArg some (String.toByteArray_inj.mp hbytes)

/-! ### Reading the type of a record -/

/-- `is_messagepack_ping`. -/
def isMessagepackPing (message : List UInt8) : Bool :=
  message == [0x02, 0x91, 0x06] || message == [0x91, 0x06]

/-- `read_signalr_message_type`. -/
def readSignalrMessageType (S : Serde) (message : List UInt8) (protocol : Protocol) :
    Except String MessageType :=
  if protocol = .messagePack ∧ isMessagepackPing message = true then
    .ok .ping
  else
    (deserialize S Ping.decode message protocol).map Ping.type

/-- The arguments of one `process_message` call. -/
structure RawMessage where
  bytes : List UInt8
  messageType : MessageType
  protocol : Protocol
  deriving DecidableEq, Repr

end SignalR
