/-
`Lines.lean` -- cutting a stream into lines, however it arrives.

A line ends with the separator and keeps it. `split` carries the unfinished line, so
that what is split in pieces is what is split at once (`split_append`), and `by_piece`
says which lines each piece completes.
-/
import Mathlib.Data.List.Basic
import Mathlib.Data.List.Count

set_option autoImplicit false

namespace Lines

variable {α : Type*} [DecidableEq α] {sep : α}

/-- The lines that the data completes, after the unfinished `line`, and the line it
leaves unfinished. -/
def split (sep : α) : List α → List α → List (List α) × List α
  | line, [] => ([], line)
  | line, b :: data =>
      if b = sep then ((line ++ [b]) :: (split sep [] data).1, (split sep [] data).2)
      else split sep (line ++ [b]) data

theorem split_append (line a b : List α) :
    split sep line (a ++ b) =
      ((split sep line a).1 ++ (split sep (split sep line a).2 b).1,
        (split sep (split sep line a).2 b).2) := by
  induction a generalizing line with
  | nil => rfl
  | cons c a ih =>
      rw [List.cons_append, split, split]
      by_cases hc : c = sep
      · rw [if_pos hc, if_pos hc, ih]
        rfl
      · rw [if_neg hc, if_neg hc, ih]

theorem split_of_not_mem (line : List α) {data : List α} (h : sep ∉ data) :
    split sep line data = ([], line ++ data) := by
  induction data generalizing line with
  | nil => rw [split, List.append_nil]
  | cons c data ih =>
      rw [List.mem_cons, not_or] at h
      rw [split, if_neg (Ne.symm h.1), ih _ h.2, List.append_assoc, List.singleton_append]

/-- An unfinished line may as well be part of the data. -/
theorem split_unfinished {line : List α} (h : sep ∉ line) (data : List α) :
    split sep [] (line ++ data) = split sep line data := by
  rw [split_append, split_of_not_mem [] h]
  rfl

theorem not_mem_unfinished {line : List α} (h : sep ∉ line) (data : List α) :
    sep ∉ (split sep line data).2 := by
  induction data generalizing line with
  | nil => exact h
  | cons c data ih =>
      rw [split]
      by_cases hc : c = sep
      · rw [if_pos hc]
        exact ih List.not_mem_nil
      · rw [if_neg hc]
        apply ih
        rw [List.mem_append, List.mem_singleton, not_or]
        exact ⟨h, Ne.symm hc⟩

/-- As many lines as separators. -/
theorem length_split (line data : List α) : (split sep line data).1.length = data.count sep := by
  induction data generalizing line with
  | nil => rfl
  | cons c data ih =>
      rw [split, List.count_cons]
      by_cases hc : c = sep
      · rw [if_pos hc, List.length_cons, ih, if_pos (beq_iff_eq.2 hc)]
      · rw [if_neg hc, ih, if_neg (by rwa [beq_iff_eq]), Nat.add_zero]

/-- The lines that each piece completes. -/
def by_piece (sep : α) : List α → List (List α) → List (List (List α))
  | _, [] => []
  | line, piece :: pieces =>
      (split sep line piece).1 :: by_piece sep (split sep line piece).2 pieces

/-- **However the data is cut**, the lines are the same. -/
theorem flatten_by_piece (line : List α) (pieces : List (List α)) :
    (by_piece sep line pieces).flatten = (split sep line pieces.flatten).1 := by
  induction pieces generalizing line with
  | nil => rfl
  | cons piece pieces ih =>
      rw [by_piece, List.flatten_cons, List.flatten_cons, split_append, ih]

theorem by_piece_append (line : List α) (pieces more : List (List α)) :
    by_piece sep line (pieces ++ more) =
      by_piece sep line pieces ++ by_piece sep (split sep line pieces.flatten).2 more := by
  induction pieces generalizing line with
  | nil => rfl
  | cons piece pieces ih =>
      rw [List.cons_append, by_piece, by_piece, ih, List.flatten_cons, split_append]
      rfl

theorem length_of_mem_by_piece {line : List α} {pieces : List (List α)} {lines : List (List α)}
    (h : lines ∈ by_piece sep line pieces) : ∃ piece ∈ pieces, lines.length = piece.count sep := by
  induction pieces generalizing line with
  | nil => cases h
  | cons piece pieces ih =>
      rw [by_piece, List.mem_cons] at h
      rcases h with heq | hmem
      · exact ⟨piece, List.mem_cons_self, by rw [heq, length_split]⟩
      · obtain ⟨piece', hpiece', hlength⟩ := ih hmem
        exact ⟨piece', List.mem_cons_of_mem _ hpiece', hlength⟩

end Lines
