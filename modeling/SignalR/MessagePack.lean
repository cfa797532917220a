/-
SignalR/MessagePack.lean

The MessagePack format, as a library of its own: the objects of the format
(`Msg`) and their standard encoding (`encode`), in which every object takes the
shortest form that holds it and numbers are big-endian.

A length is written in at most four bytes, so an object that is longer than that
is written with its length cut off, as encoders that cast the length do.  Every
object takes at least one byte (`encode_ne_nil`).
-/
import Mathlib.Data.List.Basic
import Mathlib.Algebra.Ring.Nat

namespace MessagePack

/-- The objects of the format.  Floats are given by their bits. -/
inductive Msg
  | nil
  | bool (b : Bool)
  | int (n : Int)
  | float32 (bits : UInt32)
  | float64 (bits : UInt64)
  | str (s : String)
  | bin (bytes : List UInt8)
  | arr (items : List Msg)
  | map (entries : List (Msg × Msg))
  | ext (tag : UInt8) (bytes : List UInt8)

/-! ### Numbers and lengths -/

/-- The `width` low bytes of a number, the highest first. -/
def bigEndian (width n : Nat) : List UInt8 :=
  (List.range width).reverse.map fun i => UInt8.ofNat (n / 256 ^ i)

/-- An integer, in the shortest form. -/
def intBytes (n : Int) : List UInt8 :=
  if 0 ≤ n then
    -- an unsigned form whenever the sign allows it
    if n < 0x80 then [UInt8.ofNat n.toNat]
    else if n < 0x100 then 0xcc :: bigEndian 1 n.toNat
    else if n < 0x10000 then 0xcd :: bigEndian 2 n.toNat
    else if n < 0x100000000 then 0xce :: bigEndian 4 n.toNat
    else 0xcf :: bigEndian 8 n.toNat
  else
    if -0x20 ≤ n then [UInt8.ofNat (n + 0x100).toNat]
    else if -0x80 ≤ n then 0xd0 :: bigEndian 1 (n + 0x100).toNat
    else if -0x8000 ≤ n then 0xd1 :: bigEndian 2 (n + 0x10000).toNat
    else if -0x80000000 ≤ n then 0xd2 :: bigEndian 4 (n + 0x100000000).toNat
    else 0xd3 :: bigEndian 8 (n + 0x10000000000000000).toNat

/-- What stands before the bytes of a string. -/
def strHead (length : Nat) : List UInt8 :=
  if length < 0x20 then [UInt8.ofNat (0xa0 + length)]
  else if length < 0x100 then 0xd9 :: bigEndian 1 length
  else if length < 0x10000 then 0xda :: bigEndian 2 length
  else 0xdb :: bigEndian 4 length

/-- What stands before a byte string. -/
def binHead (length : Nat) : List UInt8 :=
  if length < 0x100 then 0xc4 :: bigEndian 1 length
  else if length < 0x10000 then 0xc5 :: bigEndian 2 length
  else 0xc6 :: bigEndian 4 length

/-- What stands before the items of an array. -/
def arrHead (length : Nat) : List UInt8 :=
  if length < 0x10 then [UInt8.ofNat (0x90 + length)]
  else if length < 0x10000 then 0xdc :: bigEndian 2 length
  else 0xdd :: bigEndian 4 length

/-- What stands before the entries of a map. -/
def mapHead (length : Nat) : List UInt8 :=
  if length < 0x10 then [UInt8.ofNat (0x80 + length)]
  else if length < 0x10000 then 0xde :: bigEndian 2 length
  else 0xdf :: bigEndian 4 length

/-- What stands before the tag of an extension. -/
def extHead (length : Nat) : List UInt8 :=
  if length = 1 then [0xd4]
  else if length = 2 then [0xd5]
  else if length = 4 then [0xd6]
  else if length = 8 then [0xd7]
  else if length = 16 then [0xd8]
  else if length < 0x100 then 0xc7 :: bigEndian 1 length
  else if length < 0x10000 then 0xc8 :: bigEndian 2 length
  else 0xc9 :: bigEndian 4 length

/-- The bytes of a text. -/
def utf8 (s : String) : List UInt8 :=
  s.toList.flatMap String.utf8EncodeChar

/-! ### Objects -/

mutual

/-- The standard encoding of an object. -/
def encode : Msg → List UInt8
  | .nil => [0xc0]
  | .bool b => [if b then 0xc3 else 0xc2]
  | .int n => intBytes n
  | .float32 bits => 0xca :: bigEndian 4 bits.toNat
  | .float64 bits => 0xcb :: bigEndian 8 bits.toNat
  | .str s => strHead (utf8 s).length ++ utf8 s
  | .bin bytes => binHead bytes.length ++ bytes
  | .arr items => arrHead items.length ++ encodeItems items
  | .map entries => mapHead entries.length ++ encodeEntries entries
  | .ext tag bytes => extHead bytes.length ++ tag :: bytes

def encodeItems : List Msg → List UInt8
  | [] => []
  | m :: ms => encode m ++ encodeItems ms

def encodeEntries : List (Msg × Msg) → List UInt8
  | [] => []
  | (key, value) :: entries => encode key ++ encode value ++ encodeEntries entries

end

/-! ### The first byte -/

theorem intBytes_ne_nil (n : Int) : intBytes n ≠ [] := by
  rw [intBytes]
  split_ifs <;> simp

theorem strHead_ne_nil (length : Nat) : strHead length ≠ [] := by
  rw [strHead]
  split_ifs <;> simp

theorem binHead_ne_nil (length : Nat) : binHead length ≠ [] := by
  rw [binHead]
  split_ifs <;> simp

theorem arrHead_ne_nil (length : Nat) : arrHead length ≠ [] := by
  rw [arrHead]
  split_ifs <;> simp

theorem mapHead_ne_nil (length : Nat) : mapHead length ≠ [] := by
  rw [mapHead]
  split_ifs <;> simp

/-- An object takes at least one byte. -/
theorem encode_ne_nil (m : Msg) : encode m ≠ [] := by
  cases m with
  | int n => exact intBytes_ne_nil n
  | str s => simp [encode, strHead_ne_nil]
  | bin bytes => simp [encode, binHead_ne_nil]
  | arr items => simp [encode, arrHead_ne_nil]
  | map entries => simp [encode, mapHead_ne_nil]
  | nil | bool b | float32 bits | float64 bits | ext tag bytes => simp [encode]

end MessagePack
