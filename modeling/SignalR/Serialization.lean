/-
SignalR/Serialization.lean

`MessageParser::serialize`, the records the derived `Serialize` implementations
write, and the way of a message through its bytes and back.

A record is written field by field, in declaration order and without the fields
that are `None` (`present`).  JSON writes the rest as an object, so a reader finds
each field by its name and the absent ones are `None` again: a JSON message
round-trips (`roundTrips_json`).  MessagePack writes an array of the values alone,
and the reader takes them by position: a field that was skipped moves all the
later ones, and an array of another length than the record type is refused.  So no
message but the ping is read back by all the types that have to read it
(`not_roundTrips_messagePack`).
-/
import SignalR.MessagePack
import SignalR.Records
import Mathlib.Data.List.Nodup

namespace SignalR

variable {V : Type}

/-! ### MessageParser::serialize -/

/-- The two serialization crates on the values of a type. -/
structure Serializer (α : Type) where
  /-- `serde_json::to_string`. -/
  toStr : α → Except String String
  /-- `rmp_serde::to_vec`. -/
  toVec : α → Except String (List UInt8)

/-- `MessageParser::serialize`. -/
def serialize {α : Type} (T : Serializer α) (value : α) : Protocol → Except String (List UInt8)
  | .json =>
      match T.toStr value with
      | .ok serialized => .ok (asBytes serialized ++ [separatorByte])
      | .error e => .error ("JSON error: " ++ e)
  | .messagePack =>
      match T.toVec value with
      -- the separator follows binary data as well
      | .ok bytes => .ok (bytes ++ [separatorByte])
      | .error e => .error ("MessagePack error: " ++ e)

theorem serialize_json {α : Type} {T : Serializer α} {value : α} {text : String}
    (h : T.toStr value = .ok text) :
    serialize T value .json = .ok (asBytes text ++ [separatorByte]) := by
  simp [serialize, h]

theorem serialize_messagePack {α : Type} {T : Serializer α} {value : α} {body : List UInt8}
    (h : T.toVec value = .ok body) :
    serialize T value .messagePack = .ok (body ++ [separatorByte]) := by
  simp [serialize, h]

/-! ### Records -/

/-- The fields that are written: those of `Option` type are skipped while `None`. -/
def present (fields : List (String × Option Value)) : List (String × Value) :=
  fields.filterMap fun p => p.2.map fun v => (p.1, v)

/-- A record as a protocol writes it: with the names, or by position. -/
def Protocol.record : Protocol → List (String × Value) → Value
  | .json, fields => .obj fields
  | .messagePack, fields => .arr (fields.map Prod.snd)

/-- `MessageType::serialize`. -/
def MessageType.encode (t : MessageType) : Value :=
  .int t.toU8

/-- `HashMap::<String, String>::serialize`. -/
def encodeStringMap (m : List (String × String)) : Value :=
  .obj (m.map fun p => (p.1, .str p.2))

/-- A type of results or items: how each protocol writes a value of it, and how the
values are read back. -/
structure Payload (V : Type) where
  encode : Protocol → V → Value
  decode : DeserializeOwned V

def Ping.fields (m : Ping) : List (String × Option Value) :=
  [("type", some m.type.encode)]

def Invocation.fields (m : Invocation) : List (String × Option Value) :=
  [("type", some m.type.encode), ("headers", m.headers.map encodeStringMap),
    ("invocationId", m.id.map .str), ("target", some (.str m.target)),
    ("arguments", m.arguments.map .arr),
    ("streamIds", m.streamIds.map fun ids => .arr (ids.map .str))]

def Completion.fields (encode : V → Value) (m : Completion V) : List (String × Option Value) :=
  [("type", some m.type.encode), ("headers", m.headers.map encodeStringMap),
    ("invocationId", some (.str m.invocationId)), ("result", m.result.map encode),
    ("error", m.error.map .str)]

def StreamItem.fields (encode : V → Value) (m : StreamItem V) : List (String × Option Value) :=
  [("type", some m.type.encode), ("headers", m.headers.map encodeStringMap),
    ("invocationId", some (.str m.invocationId)), ("item", some (encode m.item))]

/-! ### Building messages -/

/-- `Ping::new`. -/
def Ping.new : Ping :=
  { type := .ping }

/-- `Completion::create_result`. -/
def Completion.createResult (invocationId : String) (data : V) : Completion V where
  type := .completion
  headers := none
  invocationId := invocationId
  result := some data
  error := none

/-- `Completion::is_error`. -/
def Completion.isError (m : Completion V) : Bool :=
  m.error.isSome

namespace Invocation

/-- `Invocation::create_single`. -/
def createSingle (target : String) : Invocation where
  type := .invocation
  headers := none
  id := none
  target := target
  arguments := some []
  streamIds := none

/-- `Invocation::create_multiple`. -/
def createMultiple (target : String) : Invocation where
  type := .streamInvocation
  headers := none
  id := none
  target := target
  arguments := some []
  streamIds := none

/-- `with_argument`, given what `to_json_value` makes of the argument. -/
def withArgument (m : Invocation) (data : Except String Value) :
    Invocation × Except String Unit :=
  match data with
  | .ok json => ({ m with arguments := some (m.arguments.getD [] ++ [json]) }, .ok ())
  | .error e => (m, .error ("Serialization error: " ++ e))

/-- `with_invocation_id`. -/
def withInvocationId (m : Invocation) (invocationId : String) : Invocation :=
  { m with id := some invocationId }

/-- `with_streams`. -/
def withStreams (m : Invocation) (streamIds : List String) : Invocation :=
  if streamIds.isEmpty then m else { m with streamIds := some streamIds }

/-- One call of a builder method. -/
inductive Builder
  | withArgument (data : Except String Value)
  | withInvocationId (invocationId : String)
  | withStreams (streamIds : List String)

def build (m : Invocation) : Builder → Invocation
  | .withArgument data => (m.withArgument data).1
  | .withInvocationId invocationId => m.withInvocationId invocationId
  | .withStreams streamIds => m.withStreams streamIds

/-- No builder method sets headers. -/
theorem headers_foldl_build (m : Invocation) (calls : List Builder) :
    (calls.foldl build m).headers = m.headers := by
  induction calls generalizing m with
  | nil => rfl
  | cons call calls ih =>
      rw [List.foldl_cons, ih]
      cases call with
      | withArgument data => cases data <;> rfl
      | withInvocationId invocationId => rfl
      | withStreams streamIds =>
          rw [build, withStreams]
          split <;> rfl

end Invocation

/-! ### Fields by name -/

@[simp] theorem present_nil : present [] = [] := rfl

@[simp] theorem present_cons_none (name : String) (fields : List (String × Option Value)) :
    present ((name, none) :: fields) = present fields := rfl

@[simp] theorem present_cons_some (name : String) (v : Value)
    (fields : List (String × Option Value)) :
    present ((name, some v) :: fields) = (name, v) :: present fields := rfl

section

variable {fields : List (String × Option Value)} {n : String}

theorem lookup_present_of_not_mem (h : n ∉ fields.map Prod.fst) :
    (present fields).lookup n = none := by
  rw [List.lookup_eq_none_iff]
  rintro ⟨name, v⟩ hp
  obtain ⟨⟨name', w⟩, hmem, hw⟩ := List.mem_filterMap.mp hp
  obtain ⟨v', -, hv'⟩ := Option.map_eq_some_iff.mp hw
  obtain ⟨rfl, rfl⟩ := Prod.mk.inj hv'
  rw [bne_iff_ne]
  rintro rfl
  exact h (List.mem_map_of_mem hmem)

/-- A field is found under its name, and not at all if it was skipped. -/
theorem lookup_present (h : (fields.map Prod.fst).Nodup) :
    (present fields).lookup n = (fields.lookup n).join := by
  induction fields with
  | nil => rfl
  | cons p fields ih =>
      obtain ⟨name, v⟩ := p
      rw [List.map_cons, List.nodup_cons] at h
      have ih := ih h.2
      rw [List.lookup_cons]
      rcases hn : n == name with - | -
      · rcases v with - | v
        · exact ih
        · rw [present_cons_some, List.lookup_cons, hn, ih]
      · obtain rfl := beq_iff_eq.mp hn
        rcases v with - | v
        -- a skipped name does not come back among the later fields
        · rw [present_cons_none, lookup_present_of_not_mem h.1]
          rfl
        · rw [present_cons_some, List.lookup_cons, hn]
          rfl

/-- No name is written twice. -/
theorem unambiguous_present (h : (fields.map Prod.fst).Nodup) (names : List String) :
    Value.Unambiguous names (present fields) := by
  intro name _
  have hcount : ((present fields).filter fun p => p.1 == name).length
      ≤ (fields.map Prod.fst).count name := by
    clear h
    induction fields with
    | nil => exact Nat.le_refl 0
    | cons p fields ih =>
        obtain ⟨name', v⟩ := p
        rw [List.map_cons, List.count_cons]
        rcases v with - | v
        · exact ih.trans (Nat.le_add_right _ _)
        · rw [present_cons_some, List.filter_cons]
          split
          · exact Nat.succ_le_succ ih
          · exact ih
  exact hcount.trans (List.nodup_iff_count_le_one.mp h name)

end

/-! ### Messages -/

/-- A message of the hub protocol; a completion and a stream item come with the type
of their payload. -/
inductive Message (V : Type)
  | invocation (m : Invocation)
  | streamItem (payload : Payload V) (m : StreamItem V)
  | completion (payload : Payload V) (m : Completion V)
  | ping

namespace Message

/-- The fields of the record. -/
def fields (protocol : Protocol) : Message V → List (String × Option Value)
  | .invocation m => m.fields
  | .streamItem payload m => m.fields (payload.encode protocol)
  | .completion payload m => m.fields (payload.encode protocol)
  | .ping => Ping.new.fields

/-- What the message's `Serialize` implementation writes. -/
def value (protocol : Protocol) (m : Message V) : Value :=
  protocol.record (present (m.fields protocol))

def type : Message V → MessageType
  | .invocation m => m.type
  | .streamItem _ m => m.type
  | .completion _ m => m.type
  | .ping => .ping

variable (S : Serde) (protocol : Protocol) (body : List UInt8)

/-- The body is read back as the message itself, by the message's own type. -/
def ReadBack : Message V → Prop
  | .invocation m => deserialize S Invocation.decode body protocol = .ok m
  | .streamItem payload m =>
      deserialize S (StreamItem.decode payload.decode) body protocol = .ok m
  | .completion payload m =>
      deserialize S (Completion.decode payload.decode) body protocol = .ok m
  | .ping => deserialize S Ping.decode body protocol = .ok Ping.new

/-- The body is routed as the message should be: an invocation by its target, a
stream item or a completion by its id. -/
def Routed : Message V → Prop
  | .invocation m =>
      ∃ i, deserialize S Invocation.decode body protocol = .ok i ∧ i.target = m.target
  | .streamItem _ m =>
      ∃ i, deserialize S PossibleInvocation.decode body protocol = .ok i ∧
        i.invocationId = some m.invocationId
  | .completion _ m =>
      ∃ i, deserialize S PossibleInvocation.decode body protocol = .ok i ∧
        i.invocationId = some m.invocationId
  | .ping => True

/-- The reader, and the action it routes to, see the message itself in the body: its
type, its route, and all of it. -/
structure Seen (m : Message V) : Prop where
  type : deserialize S Ping.decode body protocol = .ok ⟨m.type⟩
  routed : m.Routed S protocol body
  readBack : m.ReadBack S protocol body

/-- The message survives the way through a protocol: what is sent is a body and the
separator, and the message is seen in the body. -/
def RoundTrips (T : Serializer Value) (m : Message V) : Prop :=
  ∃ body, serialize T (m.value protocol) protocol = .ok (body ++ [separatorByte]) ∧
    m.Seen S protocol body

end Message

/-! ### Fields that are read as they were written -/

namespace Value

theorem asOption_of_ne_null {α : Type} {decode : Value → Option α} {v : Value} (h : v ≠ .null) :
    asOption decode v = (decode v).map some := by
  cases v <;> simp_all [asOption]

/-- An optional field is read back if its values are, and none of them is `null`. -/
theorem optional_map {α : Type} {encode : α → Value} {decode : Value → Option α} {o : Option α}
    (h : ∀ a, o = some a → decode (encode a) = some a ∧ encode a ≠ .null) :
    Value.optional decode (o.map encode) = some o := by
  rcases o with - | a
  · rfl
  · obtain ⟨hdec, hne⟩ := h a rfl
    show asOption decode (encode a) = _
    rw [asOption_of_ne_null hne, hdec]
    rfl

theorem mapM_map_eq_some {α β : Type} {encode : α → β} {decode : β → Option α} {l : List α}
    (h : ∀ a ∈ l, decode (encode a) = some a) : (l.map encode).mapM decode = some l := by
  induction l with
  | nil => rfl
  | cons a l ih =>
      have ih := ih fun b hb => h b (List.mem_cons_of_mem _ hb)
      simp [h a List.mem_cons_self, ih]

theorem asVec_map {α : Type} {encode : α → Value} {decode : Value → Option α} {l : List α}
    (h : ∀ a ∈ l, decode (encode a) = some a) : asVec decode (.arr (l.map encode)) = some l :=
  mapM_map_eq_some h

theorem asStringMap_encodeStringMap (m : List (String × String)) :
    asStringMap (encodeStringMap m) = some m :=
  mapM_map_eq_some fun _ _ => rfl

end Value

@[simp] theorem MessageType.decode_encode (t : MessageType) : decode t.encode = some t := by
  cases t <;> rfl

/-- The fields of a record that JSON wrote. -/
theorem record_json {fields : List (String × Option Value)} (h : (fields.map Prod.fst).Nodup)
    (names : List String) :
    Value.record names (Protocol.json.record (present fields))
      = some fun n => (fields.lookup n).join := by
  rw [Protocol.record, Value.record_obj, if_pos (unambiguous_present h names)]
  congr 1
  funext n
  exact lookup_present h

/-! ### JSON messages -/

section

open Value

/-- The names of a message's fields, written or skipped. -/
def Message.names : Message V → List String
  | .invocation _ => ["type", "headers", "invocationId", "target", "arguments", "streamIds"]
  | .streamItem _ _ => ["type", "headers", "invocationId", "item"]
  | .completion _ _ => ["type", "headers", "invocationId", "result", "error"]
  | .ping => ["type"]

theorem Message.map_fst_fields (protocol : Protocol) (m : Message V) :
    (m.fields protocol).map Prod.fst = m.names := by
  cases m <;> rfl

/-- What a record type with the given names finds in a JSON message. -/
theorem Message.record_value (m : Message V) (names : List String) :
    record names (m.value .json) = some fun n => ((m.fields .json).lookup n).join := by
  refine record_json ?_ names
  rw [map_fst_fields]
  cases m <;> simp [Message.names]

/-- The arguments are values of `serde_json`, as those that `with_argument` adds are:
they have no byte strings and no key twice. -/
def Invocation.JsonArguments (m : Invocation) : Prop :=
  ∀ args, m.arguments = some args → ∀ a ∈ args, asJson a = some a

theorem optional_headers (headers : Option (List (String × String))) :
    Value.optional asStringMap (headers.map encodeStringMap) = some headers :=
  optional_map fun m _ => ⟨asStringMap_encodeStringMap m, by simp [encodeStringMap]⟩

theorem optional_str (o : Option String) : Value.optional asStr (o.map .str) = some o :=
  optional_map fun _ _ => ⟨rfl, by simp⟩

theorem optional_strs (o : Option (List String)) :
    Value.optional (asVec asStr) (o.map fun ids => .arr (ids.map .str)) = some o :=
  optional_map fun _ _ => ⟨asVec_map fun _ _ => rfl, by simp⟩

theorem Invocation.optional_arguments {m : Invocation} (h : m.JsonArguments) :
    Value.optional (asVec asJson) (m.arguments.map .arr) = some m.arguments := by
  refine optional_map fun args hm => ⟨?_, by simp⟩
  have hmap : asVec asJson (.arr (args.map fun a => a)) = some args :=
    asVec_map fun a ha => h args hm a ha
  rwa [List.map_id'] at hmap

theorem Ping.decode_json (m : Message V) : Ping.decode (m.value .json) = some ⟨m.type⟩ := by
  rw [Ping.decode, m.record_value]
  cases m <;> simp [Message.fields, Message.type, Invocation.fields, StreamItem.fields,
    Completion.fields, Ping.fields, Ping.new]

theorem Invocation.decode_json {m : Invocation} (h : m.JsonArguments) :
    decode ((Message.invocation (V := V) m).value .json) = some m := by
  rw [decode, Message.record_value]
  simp only [Message.fields, fields]
  simp [List.lookup_cons, optional_headers, optional_str, optional_strs, optional_arguments h]

theorem StreamItem.decode_json {payload : Payload V} {m : StreamItem V}
    (h : payload.decode.read (payload.encode .json m.item) = some m.item) :
    decode payload.decode ((Message.streamItem payload m).value .json) = some m := by
  rw [decode, Message.record_value]
  simp only [Message.fields, fields]
  simp [List.lookup_cons, optional_headers, h]

theorem Completion.decode_json {payload : Payload V} {m : Completion V}
    (h : ∀ r, m.result = some r →
      payload.decode.read (payload.encode .json r) = some r ∧ payload.encode .json r ≠ .null) :
    decode payload.decode ((Message.completion payload m).value .json) = some m := by
  rw [decode, Message.record_value]
  simp only [Message.fields, fields]
  simp [List.lookup_cons, optional_headers, optional_str, optional_map h]

/-- A stream item or a completion is routed by its id: it has no target. -/
theorem PossibleInvocation.decode_json {m : Message V} {headers : Option (List (String × String))}
    {id : String} (hheaders : (m.fields .json).lookup "headers"
      = some (headers.map encodeStringMap))
    (hid : (m.fields .json).lookup "invocationId" = some (some (.str id)))
    (htarget : (m.fields .json).lookup "target" = none) :
    decode (m.value .json) = some ⟨m.type, headers, some id, none⟩ := by
  have htype : (m.fields .json).lookup "type" = some (some m.type.encode) := by
    cases m <;> rfl
  have hsome : Value.optional asStr (some (.str id)) = some (some id) := rfl
  rw [decode, m.record_value]
  simp [hheaders, hid, htarget, htype, optional_headers, hsome]

end

/-- What a message relies on to survive as JSON: its payload is read back as it was
written, and a result is not written as `null`. -/
def Message.Faithful : Message V → Prop
  | .invocation m => m.JsonArguments
  | .streamItem payload m => payload.decode.read (payload.encode .json m.item) = some m.item
  | .completion payload m => ∀ r, m.result = some r →
      payload.decode.read (payload.encode .json r) = some r ∧ payload.encode .json r ≠ .null
  | .ping => True

/-- **A JSON body shows its message.**  A body that denotes the value of a faithful
message is read by all the types that have to read it. -/
theorem Message.seen_json {S : Serde} {body : List UInt8} {m : Message V} (hm : m.Faithful)
    (hbody : wireValue S body .json = some (m.value .json)) : m.Seen S .json body := by
  have hread : ∀ {α : Type} {d : Value → Option α} {a : α}, d (m.value .json) = some a →
      deserialize S d body .json = .ok a := by
    intro α d a h
    rw [deserialize_eq_ok_iff, hbody]
    exact h
  refine ⟨hread (Ping.decode_json m), ?_, ?_⟩
  · cases m with
    | invocation m => exact ⟨m, hread (Invocation.decode_json hm), rfl⟩
    | streamItem payload m => exact ⟨_, hread (PossibleInvocation.decode_json rfl rfl rfl), rfl⟩
    | completion payload m => exact ⟨_, hread (PossibleInvocation.decode_json rfl rfl rfl), rfl⟩
    | ping => trivial
  · cases m with
    | invocation m => exact hread (Invocation.decode_json hm)
    | streamItem payload m => exact hread (StreamItem.decode_json hm)
    | completion payload m => exact hread (Completion.decode_json hm)
    | ping => exact hread (Ping.decode_json (V := V) .ping)

/-! ### MessagePack messages -/

namespace Message

/-- `headers`, which only a peer can have set. -/
def headers : Message V → Option (List (String × String))
  | .invocation m => m.headers
  | .streamItem _ m => m.headers
  | .completion _ m => m.headers
  | .ping => none

/-- The ping is the only message with a single field. -/
theorem one_lt_length_present {m : Message V} (hm : m ≠ .ping) (protocol : Protocol) :
    1 < (present (m.fields protocol)).length := by
  cases m with
  | invocation m =>
      obtain ⟨type, headers, id, target, arguments, streamIds⟩ := m
      rcases headers with - | _ <;> rcases id with - | _ <;> rcases arguments with - | _ <;>
        rcases streamIds with - | _ <;> simp [fields, Invocation.fields]
  | streamItem payload m =>
      rcases hh : m.headers with - | _ <;> simp [fields, StreamItem.fields, hh]
  | completion payload m =>
      obtain ⟨type, headers, id, result, error⟩ := m
      rcases headers with - | _ <;> rcases result with - | _ <;> rcases error with - | _ <;>
        simp [fields, Completion.fields]
  | ping => exact absurd rfl hm

theorem length_filterMap_lt {α β : Type} {f : α → Option β} {l : List α} {a : α} (ha : a ∈ l)
    (hf : f a = none) : (l.filterMap f).length < l.length := by
  induction l with
  | nil => simp at ha
  | cons b l ih =>
      rcases List.mem_cons.mp ha with rfl | ha
      · rw [List.filterMap_cons_none hf]
        exact Nat.lt_succ_of_le (List.length_filterMap_le f l)
      · rcases hb : f b with - | c
        · rw [List.filterMap_cons_none hb]
          exact Nat.lt_succ_of_lt (ih ha)
        · rw [List.filterMap_cons_some hb]
          exact Nat.succ_lt_succ (ih ha)

/-- A skipped field makes the array too short. -/
theorem length_present_lt {m : Message V} (hm : m ≠ .ping) (hheaders : m.headers = none)
    (protocol : Protocol) : (present (m.fields protocol)).length < m.names.length := by
  rw [← m.map_fst_fields protocol, List.length_map]
  refine length_filterMap_lt (a := ("headers", none)) ?_ rfl
  cases m with
  | invocation m => simp_all [fields, Invocation.fields, headers]
  | streamItem payload m => simp_all [fields, StreamItem.fields, headers]
  | completion payload m => simp_all [fields, Completion.fields, headers]
  | ping => exact absurd rfl hm

/-- A record type with another number of fields does not read the message. -/
theorem record_messagePack {m : Message V} {names : List String}
    (h : (present (m.fields .messagePack)).length ≠ names.length) :
    Value.record names (m.value .messagePack) = none := by
  rw [value, Protocol.record, Value.record, if_neg]
  rwa [List.length_map]

variable {S : Serde} {body : List UInt8} {m : Message V}

/-- No message but the ping is read as a `Ping`. -/
theorem ping_not_read (hm : m ≠ .ping)
    (hbody : wireValue S body .messagePack = some (m.value .messagePack)) (x : Ping) :
    deserialize S Ping.decode body .messagePack ≠ .ok x := by
  rw [Ne, deserialize_eq_ok_iff, hbody, Option.bind_some, Ping.decode, record_messagePack]
  · simp
  · exact (one_lt_length_present hm .messagePack).ne'

/-- A message without headers, as the client makes them all, is not even read by its
own type. -/
theorem not_readBack_messagePack (hm : m ≠ .ping) (hheaders : m.headers = none)
    (hbody : wireValue S body .messagePack = some (m.value .messagePack)) :
    ¬ m.ReadBack S .messagePack body := by
  have hread : ∀ {α : Type} {d : Value → Option α} {a : α}, d (m.value .messagePack) = none →
      deserialize S d body .messagePack ≠ .ok a := by
    intro α d a h
    rw [Ne, deserialize_eq_ok_iff, hbody, Option.bind_some, h]
    simp
  have hrecord := record_messagePack (length_present_lt hm hheaders .messagePack).ne
  cases m with
  | invocation m => exact hread (congrArg (Option.bind · _) hrecord)
  | streamItem payload m => exact hread (congrArg (Option.bind · _) hrecord)
  | completion payload m => exact hread (congrArg (Option.bind · _) hrecord)
  | ping => exact absurd rfl hm

/-- **No message round-trips as MessagePack.**  Whatever the crates write for a
message other than the ping, and read back from it, the reader does not see the
message; and without headers the message is not read back by its own type. -/
theorem not_roundTrips_messagePack {T : Serializer Value} (hm : m ≠ .ping)
    (hwrite : T.toVec (m.value .messagePack) = .ok body)
    (hread : S.fromSlice body = some (m.value .messagePack)) :
    ¬ m.RoundTrips S .messagePack T ∧
      (m.headers = none → ¬ m.ReadBack S .messagePack body) := by
  refine ⟨?_, fun hheaders => not_readBack_messagePack hm hheaders hread⟩
  rintro ⟨body', hserialize, hseen⟩
  rw [serialize_messagePack hwrite] at hserialize
  obtain rfl : body = body' := List.append_cancel_right (Except.ok.inj hserialize)
  exact ping_not_read hm hread _ hseen.type

end Message

/-! ### Two messages as MessagePack -/

namespace Value

open MessagePack (Msg)

mutual

/-- The MessagePack object of a value; `bits` are the bits of a float. -/
def toMsg (bits : String → UInt64) : Value → Msg
  | .null => .nil
  | .bool b => .bool b
  | .int n => .int n
  | .float text => .float64 (bits text)
  | .str s => .str s
  | .bin bytes => .bin bytes
  | .arr items => .arr (toMsgItems bits items)
  | .obj fields => .map (toMsgFields bits fields)

def toMsgItems (bits : String → UInt64) : List Value → List Msg
  | [] => []
  | v :: vs => v.toMsg bits :: toMsgItems bits vs

def toMsgFields (bits : String → UInt64) : List (String × Value) → List (Msg × Msg)
  | [] => []
  | (name, v) :: fs => (.str name, v.toMsg bits) :: toMsgFields bits fs

end

end Value

/-- `rmp_serde::to_vec` by the standard encoding. -/
def Serializer.standard (toStr : Value → Except String String) (bits : String → UInt64) :
    Serializer Value where
  toStr := toStr
  toVec v := .ok (MessagePack.encode (v.toMsg bits))

/-- The crates on values without floats; no JSON is written. -/
def packer : Serializer Value :=
  .standard (fun _ => .error "") fun _ => 0

/-- Integers as results and items. -/
def intPayload : Payload Int where
  encode _ n := .int n
  decode := .i64

/-- The invocation `add(3)`. -/
def addInvocation : Message Int :=
  .invocation ((Invocation.createSingle "add").withArgument (.ok (.int 3))).1

/-- The item `7` of stream `1`. -/
def sevenItem : Message Int :=
  .streamItem intPayload { type := .streamItem, headers := none, invocationId := "1", item := 7 }

/-- What `rmp_serde::from_slice` makes of the two messages. -/
def packedSerde : Serde :=
  .ofTable []
    [([0x93, 0x01, 0xa3, 0x61, 0x64, 0x64, 0x91, 0x03], addInvocation.value .messagePack),
      ([0x93, 0x02, 0xa1, 0x31, 0x07], sevenItem.value .messagePack)]

theorem not_roundTrips_messagePack_item :
    ¬ sevenItem.RoundTrips packedSerde .messagePack packer ∧
      (sevenItem.headers = none →
        ¬ sevenItem.ReadBack packedSerde .messagePack [0x93, 0x02, 0xa1, 0x31, 0x07]) :=
  Message.not_roundTrips_messagePack nofun rfl rfl

theorem addInvocation_not_roundTrips :
    packer.toVec (addInvocation.value .messagePack)
        = .ok [0x93, 0x01, 0xa3, 0x61, 0x64, 0x64, 0x91, 0x03] ∧
      packedSerde.fromSlice [0x93, 0x01, 0xa3, 0x61, 0x64, 0x64, 0x91, 0x03]
        = some (addInvocation.value .messagePack) ∧
      ¬ addInvocation.RoundTrips packedSerde .messagePack packer := by
  refine ⟨rfl, rfl, ?_⟩
  rintro ⟨body, hserialize, hseen⟩
  obtain rfl : [0x93, 0x01, 0xa3, 0x61, 0x64, 0x64, 0x91, 0x03] = body :=
    List.append_cancel_right (Except.ok.inj hserialize)
  exact Message.not_readBack_messagePack (m := addInvocation) nofun rfl rfl hseen.readBack

end SignalR
