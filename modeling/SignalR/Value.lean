/-
SignalR/Value.lean

The values a serialized message is made of, and the way a derived `Deserialize`
implementation reads a record out of one.

`serde_json` and `rmp_serde` are not part of the repository.  What they do with
raw bytes is the parameter `Serde`: a text, or a MessagePack body, denotes a
`Value` or nothing.  What the repository's record types do with a value is
modelled here and in `SignalR/Messages.lean`:

* from a map, a field is looked up by its name, an unknown field is ignored, a
  known field that occurs twice is an error (`record`);
* from an array, the fields are read by position and the array must have
  exactly one element for each field;
* a missing field is what its type makes of one, `None` for an `Option` and an
  error for every other type, and an `Option` also takes `null` as `None`
  (`DeserializeOwned`, `required`, `optional`).

Maps whose keys are not strings have no `Value`; no peer of the hub protocol
sends them.
-/
import Mathlib.Data.List.Basic

namespace SignalR

/-- What a serialized message denotes: the JSON values, plus the byte strings of
MessagePack.  A number that is not an integer is kept as its text. -/
inductive Value
  | null
  | bool (b : Bool)
  | int (n : Int)
  | float (text : String)
  | str (s : String)
  | bin (bytes : List UInt8)
  | arr (items : List Value)
  | obj (fields : List (String × Value))

/-- `std::str::from_utf8` and `String::from_utf8`. -/
def fromUtf8 (bytes : List UInt8) : Option String :=
  String.fromUTF8? bytes.toByteArray

namespace Value

/-! ### Scalars and containers -/

/-- `String::deserialize`. -/
def asStr : Value → Option String
  | .str s => some s
  -- MessagePack may carry a text as a byte string
  | .bin bytes => fromUtf8 bytes
  | _ => none

/-- `u8::deserialize`. -/
def asU8 : Value → Option Nat
  -- a float is refused even where it is integral
  | .int n => if 0 ≤ n ∧ n < 256 then some n.toNat else none
  | _ => none

/-- `i64::deserialize`. -/
def asInt : Value → Option Int
  | .int n => if -0x8000000000000000 ≤ n ∧ n < 0x8000000000000000 then some n else none
  | _ => none

/-- `Option::<T>::deserialize`: `null` is `None`, whatever `T` is. -/
def asOption {α : Type} (decode : Value → Option α) : Value → Option (Option α)
  | .null => some none
  | v => (decode v).map some

/-- `Vec::<T>::deserialize`. -/
def asVec {α : Type} (decode : Value → Option α) : Value → Option (List α)
  | .arr items => items.mapM decode
  | _ => none

/-- `HashMap::<String, String>::deserialize`. -/
def asStringMap : Value → Option (List (String × String))
  -- a value that is not a string fails the whole map
  | .obj fields => fields.mapM fun p => p.2.asStr.map fun s => (p.1, s)
  | _ => none

mutual

/-- No byte string occurs in the value. -/
def binFree : Value → Bool
  | .bin _ => false
  | .arr items => binFreeItems items
  | .obj fields => binFreeFields fields
  | _ => true

def binFreeItems : List Value → Bool
  | [] => true
  | v :: vs => v.binFree && binFreeItems vs

def binFreeFields : List (String × Value) → Bool
  | [] => true
  | (_, v) :: fs => v.binFree && binFreeFields fs

end

mutual

/-- Of the entries that an object has under one key, the last. -/
def lastEntries : Value → Value
  | .arr items => .arr (lastEntriesItems items)
  | .obj fields => .obj (lastEntriesFields fields)
  | v => v

def lastEntriesItems : List Value → List Value
  | [] => []
  | v :: vs => v.lastEntries :: lastEntriesItems vs

def lastEntriesFields : List (String × Value) → List (String × Value)
  | [] => []
  | (k, v) :: fs =>
      if fs.any fun p => p.1 == k then lastEntriesFields fs
      else (k, v.lastEntries) :: lastEntriesFields fs

end

/-- `serde_json::Value::deserialize`, which has no byte strings, and objects with one
entry for each key. -/
def asJson (v : Value) : Option Value :=
  if v.binFree then some v.lastEntries else none

/-! ### Records -/

/-- No name of the list is given twice. -/
def Unambiguous (names : List String) (fields : List (String × Value)) : Prop :=
  ∀ n ∈ names, (fields.filter fun p => p.1 == n).length ≤ 1

instance (names : List String) (fields : List (String × Value)) :
    Decidable (Unambiguous names fields) :=
  inferInstanceAs (Decidable (∀ n ∈ names, _))

/-- The fields of a record type with the field names `names`, as the derived
visitor finds them in a value. -/
def record (names : List String) : Value → Option (String → Option Value)
  | .obj fields =>
      -- an unknown name is skipped, however often it occurs
      if Unambiguous names fields then some fun n => fields.lookup n else none
  | .arr items =>
      -- neither a short nor a long array is accepted
      if items.length = names.length then some fun n => (names.zip items).lookup n else none
  | _ => none

end Value

/-- A type with `DeserializeOwned`: how a value of it is read, and what it makes of a
field of it that is missing. -/
structure DeserializeOwned (α : Type) where
  read : Value → Option α
  missing : Option α

namespace DeserializeOwned

/-- A type that is no `Option`: a field of it has to be there. -/
def plain {α : Type} (read : Value → Option α) : DeserializeOwned α where
  read := read
  missing := none

@[simp] theorem plain_read {α : Type} (read : Value → Option α) : (plain read).read = read := rfl

@[simp] theorem plain_missing {α : Type} (read : Value → Option α) :
    (plain read).missing = none := rfl

/-- `Option<T>`, whose missing field is `None`. -/
def option {α : Type} (d : DeserializeOwned α) : DeserializeOwned (Option α) where
  read := Value.asOption d.read
  missing := some none

@[simp] theorem option_read {α : Type} (d : DeserializeOwned α) :
    d.option.read = Value.asOption d.read := rfl

/-- `i64`, a type of results that examples use. -/
def i64 : DeserializeOwned Int :=
  plain Value.asInt

end DeserializeOwned

namespace Value

/-- A field without a default. -/
def required {α : Type} (d : DeserializeOwned α) : Option Value → Option α
  | some v => d.read v
  | none => d.missing

/-- A field of type `Option<T>`, where `decode` reads a `T`. -/
def optional {α : Type} (decode : Value → Option α) : Option Value → Option (Option α) :=
  required (.option (.plain decode))

@[simp] theorem required_some {α : Type} (d : DeserializeOwned α) (v : Value) :
    required d (some v) = d.read v := rfl

@[simp] theorem optional_none {α : Type} (decode : Value → Option α) :
    optional decode none = some none := rfl

@[simp] theorem asStr_str (s : String) : asStr (.str s) = some s := rfl

theorem record_obj (names : List String) (fields : List (String × Value)) :
    record names (.obj fields)
      = if Unambiguous names fields then some fun n => fields.lookup n else none := rfl

end Value

/-- The two serialization crates, as far as the client relies on them: the value
a text or a MessagePack body denotes, and the texts they render (nothing in the
client inspects those). -/
structure Serde where
  /-- `serde_json::from_str`, up to the type read. -/
  fromStr : String → Option Value
  /-- `rmp_serde::from_slice`, up to the type read. -/
  fromSlice : List UInt8 → Option Value
  /-- The text of a decoding error. -/
  errorText : List UInt8 → String
  /-- Raw bytes in a log or error text (`String::from_utf8_lossy`). -/
  lossy : List UInt8 → String

/-- The crates on finitely many JSON texts and MessagePack bodies, to run the model
on concrete input. -/
def Serde.ofTable (json : List (String × Value)) (messagePack : List (List UInt8 × Value)) :
    Serde where
  fromStr text := json.lookup text
  fromSlice body := messagePack.lookup body
  errorText _ := "Deserialization error"
  lossy _ := ""

end SignalR
