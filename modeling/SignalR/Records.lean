/-
SignalR/Records.lean

Splitting a payload into records at the record separator `0x1E`: on text
(`get_messages_text`) and on raw bytes (`get_messages_binary`).

Both keep the nonempty pieces between separators, and they agree on every text:
the separator is a one-byte character, and that byte occurs in the encoding of
no other character (`getMessagesText_asBytes`).
-/
import SignalR.Messages
import Mathlib.Data.List.DropRight

namespace SignalR

/-- `RECORD_SEPARATOR`, as a character. -/
def recordSeparator : Char := '\x1e'

/-- `RECORD_SEPARATOR.as_bytes()`, which is one byte. -/
def separatorByte : UInt8 := 0x1e

/-! ### Text -/

/-- `MessageParser::strip_record_separator`. -/
def stripRecordSeparator (input : List Char) : List Char :=
  input.rdropWhile (· == recordSeparator)

/-- `get_messages_text`. -/
def getMessagesText (message : String) : List String :=
  ((message.toList.splitOn recordSeparator).map fun piece =>
    String.ofList (stripRecordSeparator piece)).filter fun record => !record.isEmpty

/-! ### Bytes -/

/-- `get_messages_binary`: each turn of the loop cuts off what stands before the
first separator. -/
def getMessagesBinary (data : List UInt8) : List (List UInt8) :=
  if h : separatorByte ∈ data then
    -- an empty record between two separators is dropped
    let pos := data.idxOf separatorByte
    if (data.take pos).isEmpty then
      getMessagesBinary (data.drop (pos + 1))
    else
      data.take pos :: getMessagesBinary (data.drop (pos + 1))
  else if data.isEmpty then
    []
  else
    [data]
termination_by data.length
decreasing_by
  all_goals
    have hlt := List.idxOf_lt_length_of_mem h
    simp only [List.length_drop]
    omega

/-! ### The pieces between separators -/

/-- A list with a separator in it: the first piece ends at the first separator. -/
theorem splitOn_eq_of_mem {α : Type} [DecidableEq α] {a : α} {l : List α} (h : a ∈ l) :
    l.splitOn a = l.take (l.idxOf a) :: (l.drop (l.idxOf a + 1)).splitOn a := by
  have hlt := List.idxOf_lt_length_of_mem h
  have hsplit : l = l.take (l.idxOf a) ++ a :: l.drop (l.idxOf a + 1) := by
    conv_lhs => rw [← List.take_append_drop (l.idxOf a) l]
    rw [List.drop_eq_getElem_cons hlt, List.getElem_idxOf hlt]
  have hnot : a ∉ l.take (l.idxOf a) := by
    rw [List.mem_take_iff_idxOf_lt h]
    exact Nat.lt_irrefl _
  conv_lhs => rw [hsplit]
  exact List.splitOn_append_cons_self_of_not_mem hnot _

/-- The loop of `get_messages_binary` keeps the nonempty pieces. -/
theorem getMessagesBinary_eq (data : List UInt8) :
    getMessagesBinary data = (data.splitOn separatorByte).filter fun record => !record.isEmpty := by
  -- along the turns of the loop
  induction data using getMessagesBinary.induct with
  | case1 data hmem pos hempty ih =>
      have hpiece : (data.take (data.idxOf separatorByte)).isEmpty = true := hempty
      rw [getMessagesBinary, dif_pos hmem, splitOn_eq_of_mem hmem, List.filter_cons, ← ih]
      simp only [hpiece, Bool.not_true, Bool.false_eq_true, if_true, if_false, pos]
  | case2 data hmem pos hne ih =>
      rw [getMessagesBinary, dif_pos hmem, splitOn_eq_of_mem hmem, List.filter_cons_of_pos, ← ih]
      · exact if_neg hne
      · simpa using hne
  | case3 data hmem hempty =>
      rw [getMessagesBinary, dif_neg hmem, List.splitOn_eq_singleton hmem]
      simp [hempty]
  | case4 data hmem hne =>
      rw [getMessagesBinary, dif_neg hmem, List.splitOn_eq_singleton hmem]
      simp [hne]

/-- Splitting an append: the last piece of the left part and the first piece of
the right part are one. -/
theorem splitOn_append {α : Type} [DecidableEq α] (a : α) (l m : List α) :
    (l ++ m).splitOn a = (l.splitOn a).dropLast ++
      ((l.splitOn a).getLastD [] ++ (m.splitOn a).headD []) :: (m.splitOn a).tail := by
  induction l with
  | nil =>
      rcases h : m.splitOn a with - | ⟨piece, pieces⟩
      · exact absurd h (List.splitOn_ne_nil a m)
      · simp [h]
  | cons x l ih =>
      rw [List.cons_append, List.splitOn_cons_eq_if_modifyHead, List.splitOn_cons_eq_if_modifyHead,
        ih]
      rcases h : l.splitOn a with - | ⟨piece, pieces⟩
      · exact absurd h (List.splitOn_ne_nil a l)
      split
      · simp
      · rcases pieces with - | ⟨piece', pieces⟩ <;> simp

/-- No piece contains the separator. -/
theorem not_mem_of_mem_splitOn {α : Type} [DecidableEq α] {a : α} {l piece : List α}
    (h : piece ∈ l.splitOn a) : a ∉ piece := by
  induction l generalizing piece with
  | nil => simp_all
  | cons x l ih =>
      rw [List.splitOn_cons_eq_if_modifyHead] at h
      split at h
      · rcases List.mem_cons.mp h with rfl | h
        · simp
        · exact ih h
      · rename_i hx
        rcases hl : l.splitOn a with - | ⟨head, tail⟩
        · exact absurd hl (List.splitOn_ne_nil a l)
        rw [hl, List.modifyHead_cons] at h
        rcases List.mem_cons.mp h with rfl | h
        · have hhead := ih (hl ▸ List.mem_cons_self)
          have hne : a ≠ x := by
            rintro rfl
            simp at hx
          simp [hne, hhead]
        · exact ih (hl ▸ List.mem_cons_of_mem _ h)

/-- Splitting commutes with an encoding of the elements in which the separator
stands for itself and occurs in no other code. -/
theorem splitOn_flatMap {α β : Type} [DecidableEq α] [DecidableEq β] {a : α} {b : β}
    {encode : α → List β} (ha : encode a = [b]) (hne : ∀ x, x ≠ a → b ∉ encode x) (l : List α) :
    (l.flatMap encode).splitOn b = (l.splitOn a).map (List.flatMap encode) := by
  induction l with
  | nil => simp
  | cons x l ih =>
      rw [List.flatMap_cons, List.splitOn_cons_eq_if_modifyHead]
      by_cases hx : x = a
      · subst hx
        rw [ha, List.singleton_append, List.splitOn_cons_eq_if_modifyHead, ih]
        simp
      -- the code of `x` has no separator: it extends the first piece
      · rw [splitOn_append, List.splitOn_eq_singleton (hne x hx), ih]
        rcases h : l.splitOn a with - | ⟨piece, pieces⟩
        · exact absurd h (List.splitOn_ne_nil a l)
        · simp [hx]

/-! ### Text and bytes agree -/

/-- The separator byte occurs in the encoding of the separator only. -/
theorem separatorByte_not_mem_utf8EncodeChar {c : Char} (hc : c ≠ recordSeparator) :
    separatorByte ∉ String.utf8EncodeChar c := by
  have hval : c.val.toNat ≠ 0x1e := by
    intro h
    exact hc (Char.ext (UInt32.toNat_inj.mp h))
  -- a byte of a longer encoding is at least `0x80`
  have hbyte : ∀ n : Nat, n < 256 → n ≠ 0x1e → separatorByte ≠ UInt8.ofNat n := by
    intro n hlt hn h
    have hnat := congrArg UInt8.toNat h
    rw [UInt8.toNat_ofNat_of_lt' hlt] at hnat
    exact hn hnat.symm
  unfold String.utf8EncodeChar
  intro h
  simp only at h
  split at h
  · simp only [List.mem_singleton] at h
    exact hbyte _ (by omega) hval h
  · split at h
    · simp only [List.mem_cons, List.not_mem_nil, or_false] at h
      rcases h with h | h
      · exact hbyte _ (by omega) (by omega) h
      · exact hbyte _ (by omega) (by omega) h
    · split at h
      · simp only [List.mem_cons, List.not_mem_nil, or_false] at h
        rcases h with h | h | h
        · exact hbyte _ (by omega) (by omega) h
        · exact hbyte _ (by omega) (by omega) h
        · exact hbyte _ (by omega) (by omega) h
      · simp only [List.mem_cons, List.not_mem_nil, or_false] at h
        rcases h with h | h | h | h
        · exact hbyte _ (by omega) (by omega) h
        · exact hbyte _ (by omega) (by omega) h
        · exact hbyte _ (by omega) (by omega) h
        · exact hbyte _ (by omega) (by omega) h

theorem asBytes_ofList (piece : List Char) :
    asBytes (String.ofList piece) = piece.flatMap String.utf8EncodeChar := by
  rw [asBytes, String.toList_ofList]

theorem isEmpty_flatMap_utf8EncodeChar (piece : List Char) :
    (piece.flatMap String.utf8EncodeChar).isEmpty = piece.isEmpty := by
  cases piece with
  | nil => rfl
  | cons c piece => simp [String.utf8EncodeChar_ne_nil]

/-- A piece has no separator to strip. -/
theorem stripRecordSeparator_eq_self {piece : List Char} (h : recordSeparator ∉ piece) :
    stripRecordSeparator piece = piece := by
  refine List.rdropWhile_eq_self_iff.mpr fun hne hlast => h ?_
  rw [← beq_iff_eq.mp hlast]
  exact List.getLast_mem hne

/-- A text and its bytes split into the same records. -/
theorem getMessagesText_asBytes (text : String) :
    (getMessagesText text).map asBytes = getMessagesBinary (asBytes text) := by
  rw [getMessagesBinary_eq, asBytes,
    splitOn_flatMap (a := recordSeparator) rfl fun c hc => separatorByte_not_mem_utf8EncodeChar hc]
  rw [getMessagesText]
  have hpieces : ∀ piece ∈ text.toList.splitOn recordSeparator, recordSeparator ∉ piece :=
    fun piece h => not_mem_of_mem_splitOn h
  -- piece by piece; that no piece holds a separator is all that is needed of them
  generalize text.toList.splitOn recordSeparator = pieces at hpieces
  induction pieces with
  | nil => rfl
  | cons piece pieces ih =>
      have hstrip := stripRecordSeparator_eq_self (hpieces piece List.mem_cons_self)
      have ih := ih fun p hp => hpieces p (List.mem_cons_of_mem _ hp)
      have hempty : (String.ofList piece).isEmpty = piece.isEmpty := by
        rw [Bool.eq_iff_iff]
        simp
      rw [List.map_cons, List.map_cons, List.filter_cons, List.filter_cons, hstrip, hempty,
        isEmpty_flatMap_utf8EncodeChar]
      split
      · rw [List.map_cons, ih, asBytes_ofList]
      · exact ih

/-- A payload that is valid UTF-8 is the encoding of its text. -/
theorem asBytes_of_fromUtf8 {bytes : List UInt8} {text : String}
    (h : fromUtf8 bytes = some text) : asBytes text = bytes := by
  have htext : text.toByteArray = bytes.toByteArray := by
    unfold fromUtf8 String.fromUTF8? at h
    split at h
    · obtain rfl := Option.some.inj h
      rfl
    · simp at h
  refine List.toByteArray_inj.mp ?_
  rw [← htext, ← String.utf8Encode_toList]
  rfl

end SignalR
