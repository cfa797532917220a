/-
SignalR/UrlQuery.lean

The parameters of a URL, as a library of its own.  The query goes from the first `?` to
the fragment, which starts at the first `#`.  It is split into pieces at `&`, empty
pieces are skipped, a piece is split into a name and a value at its first `=`, and both
are decoded: `+` is a space, and `%` with two hexadecimal digits is a byte.

A text that is put into a URL as the value of its only parameter is read back unchanged
if and only if nothing in it has a meaning there (`parameters_single_iff`).
-/
import Mathlib.Data.List.Infix
import Mathlib.Data.List.TakeWhile

namespace UrlQuery

/-! ### Reading a URL -/

/-- From the first `?` to the first `#`. -/
def query (url : List Char) : List Char :=
  ((url.takeWhile (· != '#')).dropWhile (· != '?')).drop 1

/-- The value of a hexadecimal digit. -/
def hexValue (c : Char) : Option Nat :=
  if '0' ≤ c ∧ c ≤ '9' then some (c.toNat - 48)
  else if 'a' ≤ c ∧ c ≤ 'f' then some (c.toNat - 87)
  else if 'A' ≤ c ∧ c ≤ 'F' then some (c.toNat - 55)
  else none

/-- The byte that an escape at the front of a text stands for. -/
def escape : List Char → Option UInt8
  | '%' :: a :: b :: _ =>
      match hexValue a, hexValue b with
      | some x, some y => some (.ofNat (16 * x + y))
      | _, _ => none
  | _ => none

/-- A character that begins no escape. -/
def plain (c : Char) : List UInt8 :=
  if c = '+' then [0x20] else String.utf8EncodeChar c

/-- Plus-decoding and percent-decoding, to bytes. -/
def decode : List Char → List UInt8
  | c :: a :: b :: rest =>
      match escape (c :: a :: b :: rest) with
      | some byte => byte :: decode rest
      | none => plain c ++ decode (a :: b :: rest)
  -- too short for an escape
  | l => l.flatMap plain

/-- The name and the value of a piece, decoded. -/
def pair (piece : List Char) : List UInt8 × List UInt8 :=
  (decode (piece.takeWhile (· != '=')), decode ((piece.dropWhile (· != '=')).drop 1))

/-- The parameters of a URL. -/
def parameters (url : List Char) : List (List UInt8 × List UInt8) :=
  (((query url).splitOn '&').filter fun piece => !piece.isEmpty).map pair

/-- The bytes of a text. -/
def bytes (l : List Char) : List UInt8 :=
  l.flatMap String.utf8EncodeChar

/-- An escape somewhere in a text. -/
def HasEscape (l : List Char) : Prop :=
  ∃ t ∈ l.tails, (escape t).isSome

instance (l : List Char) : Decidable (HasEscape l) :=
  inferInstanceAs (Decidable (∃ t ∈ l.tails, _))

/-- Nothing in the text has a meaning in a query value. -/
structure Verbatim (l : List Char) : Prop where
  ampersand : '&' ∉ l
  hash : '#' ∉ l
  plus : '+' ∉ l
  escape : ¬ HasEscape l

/-! ### Decoding -/

theorem hasEscape_cons {c : Char} {l : List Char} :
    HasEscape (c :: l) ↔ (escape (c :: l)).isSome ∨ HasEscape l := by
  simp [HasEscape, List.tails]

theorem bytes_cons (c : Char) (l : List Char) :
    bytes (c :: l) = String.utf8EncodeChar c ++ bytes l :=
  List.flatMap_cons

theorem bytes_append (l l' : List Char) : bytes (l ++ l') = bytes l ++ bytes l' :=
  List.flatMap_append

theorem length_le_bytes (l : List Char) : l.length ≤ (bytes l).length := by
  induction l with
  | nil => exact Nat.le_refl 0
  | cons c l ih =>
      have hc : 0 < (String.utf8EncodeChar c).length :=
        List.length_pos_iff.mpr String.utf8EncodeChar_ne_nil
      rw [bytes_cons, List.length_append, List.length_cons]
      omega

/-- An escape has two characters after the percent sign. -/
theorem exists_of_escape {c : Char} {l : List Char} {byte : UInt8}
    (h : escape (c :: l) = some byte) :
    ∃ a b rest, l = a :: b :: rest ∧ decode (c :: l) = byte :: decode rest := by
  rcases l with - | ⟨a, - | ⟨b, rest⟩⟩
  · simp [escape] at h
  · simp [escape] at h
  · exact ⟨a, b, rest, rfl, by rw [decode, h]⟩

theorem decode_of_escape_none {c : Char} {l : List Char} (h : escape (c :: l) = none) :
    decode (c :: l) = plain c ++ decode l := by
  rcases l with - | ⟨a, - | ⟨b, rest⟩⟩
  · exact List.flatMap_cons
  · exact List.flatMap_cons
  · rw [decode, h]

theorem length_plain_le (c : Char) : (plain c).length ≤ (String.utf8EncodeChar c).length := by
  rw [plain]
  split
  · subst c
    exact Nat.le_refl 1
  · exact Nat.le_refl _

theorem plain_eq_iff (c : Char) : plain c = String.utf8EncodeChar c ↔ c ≠ '+' := by
  rw [plain]
  split
  · subst c
    exact iff_of_false (by decide) (by simp)
  · exact iff_of_true rfl ‹_›

/-- What is decoded is at most as long as the text. -/
theorem length_decode_le (l : List Char) : (decode l).length ≤ (bytes l).length := by
  induction hlen : l.length using Nat.strongRecOn generalizing l with
  | ind n ih =>
    rcases l with - | ⟨c, l⟩
    · exact Nat.le_refl 0
    rw [List.length_cons] at hlen
    rcases hesc : escape (c :: l) with - | byte
    · have hrest := ih l.length (by omega) l rfl
      have hplain := length_plain_le c
      rw [decode_of_escape_none hesc, bytes_cons, List.length_append, List.length_append]
      omega
    · obtain ⟨a, b, rest, rfl, hdecode⟩ := exists_of_escape hesc
      have hrest := ih rest.length (by simp at hlen; omega) rest rfl
      have htwo : (bytes rest).length ≤ (bytes (a :: b :: rest)).length := by
        rw [bytes_cons, bytes_cons, List.length_append, List.length_append]
        omega
      have hc : 0 < (String.utf8EncodeChar c).length :=
        List.length_pos_iff.mpr String.utf8EncodeChar_ne_nil
      rw [hdecode, bytes_cons, List.length_append, List.length_cons]
      omega

/-- **A text is decoded to itself** if and only if it has no plus and no escape. -/
theorem decode_eq_bytes_iff (l : List Char) : decode l = bytes l ↔ '+' ∉ l ∧ ¬ HasEscape l := by
  induction l with
  | nil => simp [decode, bytes, HasEscape, escape]
  | cons c l ih =>
      rw [hasEscape_cons, List.mem_cons]
      rcases hesc : escape (c :: l) with - | byte
      · rw [decode_of_escape_none hesc, bytes_cons]
        constructor
        · intro h
          -- neither part is longer than what it is compared with, so both are equal
          have hlen := congrArg List.length h
          rw [List.length_append, List.length_append] at hlen
          have hplain := length_plain_le c
          have hrest := length_decode_le l
          obtain ⟨hc, hl⟩ := List.append_inj h (by omega)
          obtain ⟨hplus, hno⟩ := ih.mp hl
          exact ⟨by simp [Ne.symm ((plain_eq_iff c).mp hc), hplus], by simp [hno]⟩
        · rintro ⟨hplus, hno⟩
          rw [not_or] at hplus hno
          rw [(plain_eq_iff c).mpr (Ne.symm hplus.1), ih.mpr ⟨hplus.2, hno.2⟩]
      · refine iff_of_false ?_ (by simp)
        obtain ⟨a, b, rest, rfl, hdecode⟩ := exists_of_escape hesc
        intro h
        have hlen := congrArg List.length h
        have hrest := length_decode_le rest
        have hsplit : bytes (c :: a :: b :: rest) = bytes [c, a, b] ++ bytes rest :=
          bytes_append [c, a, b] rest
        have hthree : 3 ≤ (bytes [c, a, b]).length := length_le_bytes [c, a, b]
        rw [hdecode, hsplit, List.length_append, List.length_cons] at hlen
        omega

/-! ### A single parameter -/

/-- The text up to the first character that a condition rules out. -/
theorem takeWhile_append_cons {p : Char → Bool} {l : List Char} {c : Char} {r : List Char}
    (hl : ∀ x ∈ l, p x = true) (hc : p c = false) : (l ++ c :: r).takeWhile p = l := by
  rw [List.takeWhile_append_of_pos hl, List.takeWhile_cons_of_neg (by simp [hc]), List.append_nil]

theorem dropWhile_append_cons {p : Char → Bool} {l : List Char} {c : Char} {r : List Char}
    (hl : ∀ x ∈ l, p x = true) (hc : p c = false) : (l ++ c :: r).dropWhile p = c :: r := by
  rw [List.dropWhile_append_of_pos hl, List.dropWhile_cons_of_neg (by simp [hc])]

theorem all_ne_of_not_mem {c : Char} {l : List Char} (h : c ∉ l) : ∀ x ∈ l, (x != c) = true := by
  intro x hx
  rw [bne_iff_ne]
  rintro rfl
  exact h hx

/-- The query that is appended to a URL without one. -/
theorem query_append {base text : List Char} (hq : '?' ∉ base) (hf : '#' ∉ base) :
    query (base ++ '?' :: text) = text.takeWhile (· != '#') := by
  rw [query, List.takeWhile_append_of_pos (all_ne_of_not_mem hf),
    List.takeWhile_cons_of_pos (by decide), dropWhile_append_cons (all_ne_of_not_mem hq) (by simp),
    List.drop_one, List.tail_cons]

/-- A piece with a plain name. -/
theorem pair_append {name value : List Char} (hn : '=' ∉ name) :
    pair (name ++ '=' :: value) = (decode name, decode value) := by
  rw [pair, takeWhile_append_cons (all_ne_of_not_mem hn) (by simp),
    dropWhile_append_cons (all_ne_of_not_mem hn) (by simp), List.drop_one, List.tail_cons]

/-- The first piece of a query. -/
theorem splitOn_ampersand (l : List Char) :
    ∃ pieces, l.splitOn '&' = l.takeWhile (· != '&') :: pieces ∧ ('&' ∉ l → pieces = []) := by
  by_cases h : '&' ∈ l
  · obtain ⟨p, r, rfl, hp⟩ := List.eq_append_cons_of_mem h
    refine ⟨r.splitOn '&', ?_, fun hno => absurd h hno⟩
    rw [List.splitOn_append_cons_self_of_not_mem hp,
      takeWhile_append_cons (all_ne_of_not_mem hp) (by simp)]
  · refine ⟨[], ?_, fun _ => rfl⟩
    rw [List.splitOn_eq_singleton h, List.takeWhile_eq_self_iff.mpr (all_ne_of_not_mem h)]

/-- **The parameters of a URL** to which one parameter is appended as text.  The first one
has the value up to the first `&` or `#`. -/
theorem parameters_append {base name : List Char} (value : List Char) (hq : '?' ∉ base)
    (hf : '#' ∉ base) (hn : Verbatim name) (he : '=' ∉ name) :
    ∃ others, parameters (base ++ '?' :: (name ++ '=' :: value)) =
        (bytes name, decode ((value.takeWhile (· != '#')).takeWhile (· != '&'))) :: others ∧
      ('&' ∉ value → others = []) := by
  obtain ⟨pieces, hsplit, hone⟩ :=
    splitOn_ampersand (name ++ '=' :: value.takeWhile (· != '#'))
  have hfirst : (name ++ '=' :: value.takeWhile (· != '#')).takeWhile (· != '&')
      = name ++ '=' :: (value.takeWhile (· != '#')).takeWhile (· != '&') := by
    rw [List.takeWhile_append_of_pos (all_ne_of_not_mem hn.ampersand),
      List.takeWhile_cons_of_pos (by decide)]
  refine ⟨(pieces.filter fun piece => !piece.isEmpty).map pair, ?_, fun hno => ?_⟩
  · rw [parameters, query_append hq hf, List.takeWhile_append_of_pos (all_ne_of_not_mem hn.hash),
      List.takeWhile_cons_of_pos (by decide), hsplit, hfirst, List.filter_cons_of_pos (by simp),
      List.map_cons, pair_append he, (decode_eq_bytes_iff name).mpr ⟨hn.plus, hn.escape⟩]
  · rw [hone]
    · rfl
    · simp only [List.mem_append, List.mem_cons, not_or]
      refine ⟨hn.ampersand, by decide, fun hmem => hno ?_⟩
      exact (List.takeWhile_prefix _).subset hmem

/-- A text that is cut has fewer bytes. -/
theorem eq_of_bytes_le {l t : List Char} (hpre : t <+: l)
    (h : (bytes l).length ≤ (bytes t).length) : t = l := by
  obtain ⟨r, rfl⟩ := hpre
  have hr := length_le_bytes r
  rw [bytes_append, List.length_append] at h
  rw [List.eq_nil_of_length_eq_zero (l := r) (by omega), List.append_nil]

/-- **The value of the only parameter** is the text that was put there if and only if
nothing in that text has a meaning in a query. -/
theorem parameters_single_iff {base name value : List Char} (hq : '?' ∉ base) (hf : '#' ∉ base)
    (hn : Verbatim name) (he : '=' ∉ name) :
    parameters (base ++ '?' :: (name ++ '=' :: value)) = [(bytes name, bytes value)] ↔
      Verbatim value := by
  obtain ⟨others, hparams, hothers⟩ := parameters_append value hq hf hn he
  rw [hparams]
  constructor
  · intro h
    obtain ⟨hpair, -⟩ := List.cons.inj h
    have hvalue := (Prod.mk.inj hpair).2
    -- the decoded text is as long as the whole value, so nothing was cut off
    have hprefix : (value.takeWhile (· != '#')).takeWhile (· != '&') <+: value :=
      (List.takeWhile_prefix _).trans (List.takeWhile_prefix _)
    have hall := eq_of_bytes_le hprefix (by rw [← hvalue]; exact length_decode_le _)
    have hhash : value.takeWhile (· != '#') = value := by
      refine (List.takeWhile_prefix _).eq_of_length_le ?_
      conv_lhs => rw [← hall]
      exact (List.takeWhile_prefix _).length_le
    rw [hhash] at hall hvalue
    rw [hall] at hvalue
    obtain ⟨hplus, hesc⟩ := (decode_eq_bytes_iff value).mp hvalue
    refine ⟨fun hmem => ?_, fun hmem => ?_, hplus, hesc⟩
    · simpa using List.takeWhile_eq_self_iff.mp hall '&' hmem
    · simpa using List.takeWhile_eq_self_iff.mp hhash '#' hmem
  · intro h
    rw [List.takeWhile_eq_self_iff.mpr (all_ne_of_not_mem h.hash),
      List.takeWhile_eq_self_iff.mpr (all_ne_of_not_mem h.ampersand),
      (decode_eq_bytes_iff value).mpr ⟨h.plus, h.escape⟩, hothers h.ampersand]

end UrlQuery
