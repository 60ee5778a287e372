/-
`Tools/Truncation.lean` -- what is left of the output of a tool.

Mirrors `truncate_output` (`tools/builtins/helpers.rs`). The output is cut to so many lines,
and what is left, joined with newlines, to so many bytes. The second cut takes or skips
characters by a number of bytes: towards the end of a text it drops more than it has to,
but from its beginning it keeps characters that are more than one byte long, and the limit
is missed (`truncate_output_iff`).
-/
import Querymt.Library.JoinedLines

set_option autoImplicit false

open Strings

namespace Querymt.Tools

/-! ## 1. The code -/

inductive TruncationDirection where
  | Head
  | Tail
  deriving DecidableEq

structure TruncationResult where
  content : Str
  was_truncated : Bool
  original_line_count : ℕ
  original_byte_count : ℕ

/-- The cut to a number of lines. -/
def cut_lines (direction : TruncationDirection) (max_lines : ℕ) (ls : List Str) : List Str :=
  if max_lines < ls.length then
    match direction with
    | .Head => ls.take max_lines
    | .Tail => ls.drop (ls.length - max_lines)
  else ls

/-- The cut to a number of bytes, in characters. -/
def cut_bytes (direction : TruncationDirection) (max_bytes : ℕ) (s : Str) : Str :=
  if max_bytes < byte_len s then
    match direction with
    | .Head => s.take max_bytes
    | .Tail => s.drop (byte_len s - max_bytes)
  else s

def truncate_output (content : Str) (max_lines max_bytes : ℕ) (direction : TruncationDirection) :
    TruncationResult :=
  let result_lines := cut_lines direction max_lines (lines content)
  let result := unlines result_lines
  { content := cut_bytes direction max_bytes result
    was_truncated := decide (max_lines < (lines content).length) ||
      decide (max_bytes < byte_len result)
    original_line_count := (lines content).length
    original_byte_count := byte_len content }

/-! ## 2. The law and the condition -/

/-- The content is within both limits. -/
def WithinLimits (content : Str) (max_lines max_bytes : ℕ) : Prop :=
  (lines content).length ≤ max_lines ∧ byte_len content ≤ max_bytes

/-- What is cut off in a direction. -/
def TruncationDirection.Part (direction : TruncationDirection) (part s : Str) : Prop :=
  match direction with
  | .Head => part <+: s
  | .Tail => part <:+ s

/-- **The limits are respected.** -/
structure RespectsLimits (content : Str) (max_lines max_bytes : ℕ)
    (direction : TruncationDirection) : Prop where
  lines : (lines (truncate_output content max_lines max_bytes direction).content).length ≤ max_lines
  bytes : byte_len (truncate_output content max_lines max_bytes direction).content ≤ max_bytes
  part : direction.Part (truncate_output content max_lines max_bytes direction).content
    (unlines (Strings.lines content))
  whole : WithinLimits content max_lines max_bytes →
    (truncate_output content max_lines max_bytes direction).content =
        unlines (Strings.lines content) ∧
      (truncate_output content max_lines max_bytes direction).was_truncated = false

/-- **The condition**: the first lines fit, or start with as many characters of one byte as
bytes are allowed. -/
def FrontFits (content : Str) (max_lines max_bytes : ℕ) : Prop :=
  byte_len (unlines ((lines content).take max_lines)) ≤ max_bytes ∨
    ∀ c ∈ (unlines ((lines content).take max_lines)).take max_bytes, c.utf8Size = 1

/-! ## 3. Both cuts -/

section

variable {direction : TruncationDirection} {max_lines max_bytes : ℕ} {s : Str} {ls : List Str}

theorem length_cut_lines_le : (cut_lines direction max_lines ls).length ≤ max_lines := by
  unfold cut_lines
  split
  · cases direction with
    | Head => exact List.length_take_le _ _
    | Tail =>
        dsimp only
        rw [List.length_drop]
        omega
  · omega

theorem cut_lines_subset : cut_lines direction max_lines ls ⊆ ls := by
  unfold cut_lines
  split
  · cases direction with
    | Head => exact List.take_subset _ _
    | Tail => exact List.drop_subset _ _
  · exact List.Subset.refl _

/-- The kept lines, joined, are a part of all lines joined. -/
theorem cut_lines_part : direction.Part (unlines (cut_lines direction max_lines ls)) (unlines ls) := by
  unfold cut_lines
  split
  · cases direction with
    | Head => exact unlines_take_prefix ls max_lines
    | Tail => exact unlines_drop_suffix ls _
  · cases direction with
    | Head => exact List.prefix_refl _
    | Tail => exact List.suffix_refl _

theorem cut_bytes_part : direction.Part (cut_bytes direction max_bytes s) s := by
  unfold cut_bytes
  split
  · cases direction with
    | Head => exact List.take_prefix _ _
    | Tail => exact List.drop_suffix _ _
  · cases direction with
    | Head => exact List.prefix_refl _
    | Tail => exact List.suffix_refl _

theorem TruncationDirection.Part.trans {a b c : Str} (hab : direction.Part a b)
    (hbc : direction.Part b c) : direction.Part a c := by
  cases direction with
  | Head => exact List.IsPrefix.trans hab hbc
  | Tail => exact List.IsSuffix.trans hab hbc

theorem TruncationDirection.Part.sublist {a b : Str} (h : direction.Part a b) : a.Sublist b := by
  cases direction with
  | Head => exact List.IsPrefix.sublist h
  | Tail => exact List.IsSuffix.sublist h

/-- A text has at least as many bytes as characters. -/
theorem length_le_byte_len (s : Str) : s.length ≤ byte_len s := by
  induction s with
  | nil => exact Nat.le_refl _
  | cons c s ih =>
      rw [List.length_cons, byte_len_cons]
      have := c.utf8Size_pos
      omega

/-- **The end of a text respects the limit**: what is skipped has at least as many bytes as
it has characters. -/
theorem byte_len_drop_le (s : Str) (n : ℕ) : byte_len (s.drop n) ≤ byte_len s - n := by
  induction s generalizing n with
  | nil => rw [List.drop_nil]; exact Nat.zero_le _
  | cons c s ih =>
      rcases n with _ | n
      · exact Nat.le_refl _
      · rw [List.drop_succ_cons, byte_len_cons]
        have := c.utf8Size_pos
        have := ih n
        omega

theorem byte_len_le_length_iff (s : Str) :
    byte_len s ≤ s.length ↔ ∀ c ∈ s, c.utf8Size = 1 := by
  induction s with
  | nil => exact iff_of_true (Nat.le_refl _) (fun c hc => absurd hc List.not_mem_nil)
  | cons c s ih =>
      have hc := c.utf8Size_pos
      have hs := length_le_byte_len s
      rw [byte_len_cons, List.length_cons, List.forall_mem_cons, ← ih]
      omega

/-- The front of a text that does not fit respects the limit exactly when its characters are
of one byte. -/
theorem byte_len_take_le_iff (hover : max_bytes < byte_len s) :
    byte_len (s.take max_bytes) ≤ max_bytes ↔ ∀ c ∈ s.take max_bytes, c.utf8Size = 1 := by
  rw [← byte_len_le_length_iff, List.length_take]
  by_cases hlen : max_bytes ≤ s.length
  · rw [Nat.min_eq_left hlen]
  · -- the whole text is taken, and does not fit
    rw [List.take_of_length_le (by omega), Nat.min_eq_right (by omega)]
    omega

/-- **The bytes of what is kept.** -/
theorem byte_len_cut_bytes_le_iff : byte_len (cut_bytes direction max_bytes s) ≤ max_bytes ↔
    (direction = .Head → byte_len s ≤ max_bytes ∨ ∀ c ∈ s.take max_bytes, c.utf8Size = 1) := by
  unfold cut_bytes
  by_cases hover : max_bytes < byte_len s
  · rw [if_pos hover]
    cases direction with
    | Head =>
        dsimp only
        rw [byte_len_take_le_iff hover]
        exact ⟨fun h _ => .inr h, fun h => (h rfl).resolve_left (Nat.not_le.2 hover)⟩
    | Tail =>
        have := byte_len_drop_le s (byte_len s - max_bytes)
        exact iff_of_true (by dsimp only; omega) (fun h => by cases h)
  · rw [if_neg hover]
    exact iff_of_true (Nat.not_lt.1 hover) (fun _ => .inl (Nat.not_lt.1 hover))

end

/-! ## 4. The result -/

/-- A content within both limits passes both cuts. -/
theorem truncate_output_whole {content : Str} {max_lines max_bytes : ℕ}
    (direction : TruncationDirection) (h : WithinLimits content max_lines max_bytes) :
    (truncate_output content max_lines max_bytes direction).content = unlines (lines content) ∧
      (truncate_output content max_lines max_bytes direction).was_truncated = false := by
  have hlines : cut_lines direction max_lines (lines content) = lines content :=
    if_neg (Nat.not_lt.2 h.1)
  have hbytes : byte_len (unlines (lines content)) ≤ max_bytes :=
    (byte_len_le_of_sublist (unlines_lines_sublist content)).trans h.2
  unfold truncate_output cut_bytes
  dsimp only
  rw [hlines, if_neg (Nat.not_lt.2 hbytes), decide_eq_false (Nat.not_lt.2 h.1),
    decide_eq_false (Nat.not_lt.2 hbytes)]
  exact ⟨rfl, rfl⟩

theorem cut_lines_head (max_lines : ℕ) (ls : List Str) :
    cut_lines .Head max_lines ls = ls.take max_lines := by
  unfold cut_lines
  split
  · rfl
  · rw [List.take_of_length_le (by omega)]

/-- **The limits are respected exactly when the first lines fit or the characters that are
taken are of one byte**; the last lines always respect them. And a content within both limits
comes back as it is when its line breaks are newlines between lines. -/
theorem truncate_output_iff (content : Str) (max_lines max_bytes : ℕ)
    (direction : TruncationDirection) :
    (RespectsLimits content max_lines max_bytes direction ↔
      (direction = .Head → FrontFits content max_lines max_bytes)) ∧
    (WithinLimits content max_lines max_bytes →
      ((truncate_output content max_lines max_bytes direction).content = content ↔
        LinesPlain content)) := by
  have hbytes : byte_len (truncate_output content max_lines max_bytes direction).content ≤ max_bytes ↔
      (direction = .Head → FrontFits content max_lines max_bytes) := by
    rw [truncate_output, byte_len_cut_bytes_le_iff]
    refine forall_congr' fun hhead => ?_
    rw [hhead, cut_lines_head]
    rfl
  refine ⟨⟨fun h => hbytes.1 h.bytes, fun hfits => ?_⟩, fun hwithin => ?_⟩
  · have hpart : direction.Part (truncate_output content max_lines max_bytes direction).content
        (unlines (cut_lines direction max_lines (lines content))) := cut_bytes_part
    refine ⟨?_, hbytes.2 hfits, hpart.trans cut_lines_part, truncate_output_whole direction⟩
    refine (length_lines_le_of_sublist ?_ hpart.sublist).trans length_cut_lines_le
    intro l hl
    exact newline_not_mem_lines (cut_lines_subset hl)
  · rw [(truncate_output_whole direction hwithin).1, unlines_lines_iff]

/-- Two bytes are allowed, and two characters of two bytes are kept. -/
theorem truncation_over_limit : ¬ RespectsLimits ['é', 'é', 'é'] 10 2 .Head := by
  intro h
  have := h.bytes
  exact absurd this (by decide)

end Querymt.Tools
