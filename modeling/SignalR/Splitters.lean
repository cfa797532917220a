/-
SignalR/Splitters.lean

The loop of `get_messages_binary` on its mutable buffer, and the two record splitters
against each other.

A turn cuts the buffer at the first separator, moves what stands before it to the
messages, and drops the separator.  So it takes one separator from the buffer and keeps
`messages ++ getMessagesBinary data` (`turn_spec`), the loop ends after as many turns as
there are separators, and it returns the records (`loop_eq`).  These are the maximal
separator-free segments of the payload, and on the bytes of a text they are the records
of `get_messages_text` (`splitters_agree`).
-/
import SignalR.Records
import SignalR.Segments

namespace SignalR

open Segments

/-- The variables `data` and `messages` of `get_messages_binary`. -/
structure BinarySplit where
  data : List UInt8
  messages : List (List UInt8)
  deriving Repr, DecidableEq

namespace BinarySplit

/-- One turn of the loop, `none` when no window is the separator.  A window has the
length of the separator, which is one byte. -/
def turn (s : BinarySplit) : Option BinarySplit :=
  match s.data.findIdx? fun window => window == separatorByte with
  | none => none
  | some pos =>
      -- `split_off` leaves what stands before `pos`
      let rest := s.data.drop pos
      let data := s.data.take pos
      some {
        data := rest.drop 1
        messages := if data.isEmpty then s.messages else s.messages ++ [data] }

/-- What follows the loop. -/
def finish (s : BinarySplit) : List (List UInt8) :=
  if s.data.isEmpty then s.messages else s.messages ++ [s.data]

/-- At most `fuel` evaluations of the loop's condition. -/
def loop : Nat → BinarySplit → Option (List (List UInt8))
  | 0, _ => none
  | fuel + 1, s =>
      match s.turn with
      | none => some s.finish
      | some t => loop fuel t

/-! ### A turn -/

/-- The loop goes on at the first separator. -/
theorem turn_of_mem {s : BinarySplit} (h : separatorByte ∈ s.data) :
    s.turn = some {
      data := s.data.drop (s.data.idxOf separatorByte + 1)
      messages :=
        if (s.data.take (s.data.idxOf separatorByte)).isEmpty then s.messages
        else s.messages ++ [s.data.take (s.data.idxOf separatorByte)] } := by
  have hfind : s.data.findIdx? (fun window => window == separatorByte)
      = some (s.data.idxOf separatorByte) := by
    apply List.findIdx?_eq_some_of_exists
    exact ⟨separatorByte, h, beq_self_eq_true _⟩
  rw [turn, hfind]
  simp only [List.drop_drop]

/-- The loop ends when no separator is left. -/
theorem turn_of_not_mem {s : BinarySplit} (h : separatorByte ∉ s.data) : s.turn = none := by
  have hfind : s.data.findIdx? (fun window => window == separatorByte) = none := by
    rw [List.findIdx?_eq_none_iff]
    intro x hx
    rw [beq_eq_false_iff_ne]
    rintro rfl
    exact h hx
  rw [turn, hfind]

/-- **A turn** takes one separator, and keeps the records that were found and those that
are still to be found. -/
theorem turn_spec {s t : BinarySplit} (h : s.turn = some t) :
    s.data.count separatorByte = t.data.count separatorByte + 1 ∧
      s.messages ++ getMessagesBinary s.data = t.messages ++ getMessagesBinary t.data := by
  by_cases hmem : separatorByte ∈ s.data
  · rw [turn_of_mem hmem] at h
    obtain rfl := Option.some.inj h
    constructor
    · have hlt := List.idxOf_lt_length_of_mem hmem
      have hfree : separatorByte ∉ s.data.take (s.data.idxOf separatorByte) := by
        rw [List.mem_take_iff_idxOf_lt hmem]
        exact Nat.lt_irrefl _
      conv_lhs => rw [← List.take_append_drop (s.data.idxOf separatorByte) s.data]
      rw [List.count_append, List.count_eq_zero_of_not_mem hfree, List.drop_eq_getElem_cons hlt,
        List.getElem_idxOf hlt, List.count_cons_self, Nat.zero_add]
    · rw [getMessagesBinary, dif_pos hmem]
      simp only
      split
      · rfl
      · rw [List.append_assoc, List.singleton_append]
  · rw [turn_of_not_mem hmem] at h
    simp at h

theorem finish_eq {s : BinarySplit} (h : s.turn = none) :
    s.finish = s.messages ++ getMessagesBinary s.data := by
  have hmem : separatorByte ∉ s.data := by
    intro hmem
    rw [turn_of_mem hmem] at h
    simp at h
  rw [finish, getMessagesBinary, dif_neg hmem]
  split <;> simp

/-! ### The loop -/

/-- **The loop** returns after at most one turn for each separator, with the records of
the buffer behind those it starts with. -/
theorem loop_eq {fuel : Nat} {s : BinarySplit} (h : s.data.count separatorByte < fuel) :
    loop fuel s = some (s.messages ++ getMessagesBinary s.data) := by
  induction fuel generalizing s with
  | zero => exact absurd h (Nat.not_lt_zero _)
  | succ fuel ih =>
      rw [loop]
      rcases hturn : s.turn with - | t
      · rw [finish_eq hturn]
      · obtain ⟨hcount, hkeep⟩ := turn_spec hturn
        show loop fuel t = _
        rw [ih (by omega), hkeep]

end BinarySplit

/-! ### The records -/

/-- The records of a payload are its segments. -/
theorem segmentsOf_getMessagesBinary (data : List UInt8) :
    SegmentsOf separatorByte data (getMessagesBinary data) := by
  rw [getMessagesBinary_eq]
  exact segmentsOf_splitOn separatorByte data

/-- **The two record splitters agree.**  The loop over any payload ends and returns the
nonempty maximal separator-free segments in order, and on the bytes of any text these are
the records of the text. -/
theorem splitters_agree :
    (∀ data fuel, BinarySplit.loop (data.count separatorByte + fuel + 1) ⟨data, []⟩
        = some (getMessagesBinary data) ∧
      SegmentsOf separatorByte data (getMessagesBinary data)) ∧
    ∀ text, getMessagesBinary (asBytes text) = (getMessagesText text).map asBytes := by
  refine ⟨fun data fuel => ⟨?_, segmentsOf_getMessagesBinary data⟩, fun text => ?_⟩
  · rw [BinarySplit.loop_eq (by show data.count separatorByte < _; omega), List.nil_append]
  · exact (getMessagesText_asBytes text).symm

example : BinarySplit.loop 5 ⟨[0x1e, 0x61, 0x1e, 0x1e, 0x62], []⟩ = some [[0x61], [0x62]] := by
  decide

end SignalR
