/-
SignalR/Segments.lean

The maximal parts of a list without a separator, as a library of its own.  A part is
maximal when it stands between two separators, or between a separator and an end of the
list.  `SegmentsOf a l pieces` says that `pieces` are all the nonempty ones, in the
order in which they stand in `l`.

The pieces of `List.splitOn` that are not empty are these parts (`segmentsOf_splitOn`).
-/
import Mathlib.Data.List.Basic

namespace Segments

variable {α : Type}

/-- A nonempty part of `l` that starts at `n`, has no `a` in it, and is followed and
preceded by `a` or by nothing. -/
def IsSegment (a : α) (l : List α) (n : Nat) (piece : List α) : Prop :=
  ∃ pre post, l = pre ++ (piece ++ post) ∧ pre.length = n ∧ piece ≠ [] ∧ a ∉ piece ∧
    (∀ x ∈ pre.getLast?, x = a) ∧ ∀ x ∈ post.head?, x = a

/-- `pieces` are the segments of `l`, from left to right. -/
def SegmentsOf (a : α) (l : List α) (pieces : List (List α)) : Prop :=
  ∃ located : List (Nat × List α), located.Pairwise (fun x y => x.1 < y.1) ∧
    (∀ n piece, (n, piece) ∈ located ↔ IsSegment a l n piece) ∧ located.map Prod.snd = pieces

/-! ### The segments, from the left -/

/-- A text without separators that ends in one is empty. -/
theorem eq_nil_of_getLast {a : α} {pre : List α} (hlast : ∀ x ∈ pre.getLast?, x = a)
    (hfree : a ∉ pre) : pre = [] := by
  rcases List.eq_nil_or_concat' pre with hnil | ⟨init, x, rfl⟩
  · exact hnil
  · obtain rfl := hlast x (by simp)
    exact absurd (by simp) hfree

theorem eq_nil_of_head {a : α} {post : List α} (hhead : ∀ x ∈ post.head?, x = a)
    (hfree : a ∉ post) : post = [] := by
  rcases post with - | ⟨x, post⟩
  · rfl
  · obtain rfl := hhead x rfl
    exact absurd List.mem_cons_self hfree

/-- A list without separators is a segment, unless it is empty. -/
theorem isSegment_of_free {a : α} {l : List α} (h : a ∉ l) {n : Nat} {piece : List α} :
    IsSegment a l n piece ↔ l ≠ [] ∧ n = 0 ∧ piece = l := by
  constructor
  · rintro ⟨pre, post, rfl, rfl, hne, -, hlast, hhead⟩
    simp only [List.mem_append, not_or] at h
    obtain rfl := eq_nil_of_getLast hlast h.1
    obtain rfl := eq_nil_of_head hhead h.2.2
    simp [hne]
  · rintro ⟨hne, rfl, rfl⟩
    exact ⟨[], [], by simp, rfl, hne, h, by simp, by simp⟩

/-- Up to the first separator there is one segment, or none; the others are segments of
what follows. -/
theorem isSegment_append_cons {a : α} {p r : List α} (hp : a ∉ p) {n : Nat} {piece : List α} :
    IsSegment a (p ++ a :: r) n piece ↔
      (p ≠ [] ∧ n = 0 ∧ piece = p) ∨ ∃ k, n = k + (p.length + 1) ∧ IsSegment a r k piece := by
  constructor
  · rintro ⟨pre, post, hsplit, rfl, hne, hfree, hlast, hhead⟩
    rcases List.append_eq_append_iff.mp hsplit with ⟨c, rfl, hc⟩ | ⟨c, rfl, hc⟩
    -- the segment starts after `p`, so after the separator too
    · rcases c with - | ⟨x, c⟩
      · obtain ⟨x, piece, rfl⟩ := List.exists_cons_of_ne_nil hne
        obtain ⟨rfl, -⟩ := List.cons.inj hc
        exact absurd List.mem_cons_self hfree
      · obtain ⟨rfl, rfl⟩ := List.cons.inj hc
        refine Or.inr ⟨c.length, by simp; omega, c, post, rfl, rfl, hne, hfree, ?_, hhead⟩
        intro x hx
        apply hlast x
        rw [List.getLast?_append_of_ne_nil _ (List.cons_ne_nil _ _), List.getLast?_cons]
        simp [Option.mem_def.mp hx]
    -- it starts within `p`, where no separator stands before it
    · simp only [List.mem_append, not_or] at hp
      obtain rfl := eq_nil_of_getLast hlast hp.1
      refine Or.inl ?_
      rw [List.nil_append]
      rcases List.append_eq_append_iff.mp hc with ⟨c', rfl, hc'⟩ | ⟨c', rfl, hc'⟩
      · have hnext : ∀ x ∈ c'.head?, x = a := by
          intro x hx
          apply hhead x
          rw [hc', List.head?_append, Option.mem_def.mp hx]
          rfl
        obtain rfl := eq_nil_of_head hnext fun hmem => hp.2 (List.mem_append_right _ hmem)
        simpa using hne
      · rcases c' with - | ⟨x, c'⟩
        · simpa using hne
        · obtain ⟨rfl, -⟩ := List.cons.inj hc'
          exact absurd (List.mem_append_right _ List.mem_cons_self) hfree
  · rintro (⟨hne, rfl, rfl⟩ | ⟨k, rfl, pre, post, rfl, rfl, hne, hfree, hlast, hhead⟩)
    · exact ⟨[], a :: r, rfl, rfl, hne, hp, by simp, by simp⟩
    · refine ⟨p ++ a :: pre, post, by simp, by simp; omega, hne, hfree, ?_, hhead⟩
      intro x hx
      rw [List.getLast?_append_of_ne_nil _ (List.cons_ne_nil _ _), List.getLast?_cons] at hx
      rcases hpre : pre.getLast? with - | y
      · simp only [hpre, Option.getD_none, Option.mem_some_iff] at hx
        exact hx.symm
      · simp only [hpre, Option.getD_some, Option.mem_some_iff] at hx
        exact hx ▸ hlast y hpre

/-! ### The pieces of a split -/

/-- **The nonempty pieces between separators are the segments.** -/
theorem segmentsOf_splitOn [DecidableEq α] (a : α) (l : List α) :
    SegmentsOf a l ((l.splitOn a).filter fun piece => !piece.isEmpty) := by
  -- what follows the first separator is shorter
  induction hlen : l.length using Nat.strongRecOn generalizing l with
  | ind len ih =>
    by_cases ha : a ∈ l
    · obtain ⟨p, r, rfl, hp⟩ := List.eq_append_cons_of_mem ha
      obtain ⟨located, hsorted, hmem, hmap⟩ := ih r.length (by simp at hlen; omega) r rfl
      rw [List.splitOn_append_cons_self_of_not_mem hp]
      refine ⟨(if p = [] then [] else [(0, p)]) ++
        located.map fun x => (x.1 + (p.length + 1), x.2), ?_, ?_, ?_⟩
      · rw [List.pairwise_append, List.pairwise_map]
        refine ⟨by split <;> simp, hsorted.imp fun h => by omega, ?_⟩
        intro x hx y hy
        obtain ⟨y, -, rfl⟩ := List.mem_map.mp hy
        split at hx
        · simp at hx
        · obtain rfl := List.mem_singleton.mp hx
          show 0 < y.1 + (p.length + 1)
          omega
      · intro n piece
        rw [isSegment_append_cons hp, List.mem_append, List.mem_map]
        apply or_congr
        · split <;> simp_all
        · constructor
          · rintro ⟨x, hx, heq⟩
            obtain ⟨rfl, rfl⟩ := Prod.mk.inj heq
            exact ⟨x.1, rfl, (hmem x.1 x.2).mp hx⟩
          · rintro ⟨k, rfl, hk⟩
            exact ⟨(k, piece), (hmem k piece).mpr hk, rfl⟩
      · rw [List.map_append, List.map_map, List.filter_cons, ← hmap]
        rcases p with - | ⟨x, p⟩ <;> simp
    · rw [List.splitOn_eq_singleton ha]
      refine ⟨if l = [] then [] else [(0, l)], by split <;> simp, ?_, ?_⟩
      · intro n piece
        rw [isSegment_of_free ha]
        split <;> simp_all
      · rcases l with - | ⟨x, l⟩ <;> simp

end Segments
