/-
`Library/JoinedLines.lean` -- the lines of a text, joined again.

`lines` takes the line breaks off, and joining with newlines puts other ones in: what comes
back is the text itself unless it ends in a line break or has one of two characters
(`unlines_lines_iff`). The first lines joined are the front of all lines joined, and the
last ones their end; a part of a joined text has no more lines than were joined.
-/
import Querymt.Library.Strings

set_option autoImplicit false

namespace Strings

/-- `lines.join("\n")`. -/
def unlines (ls : List Str) : Str := ['\n'].intercalate ls

section

variable {s p l : Str} {ls : List Str}

@[simp] theorem unlines_nil : unlines [] = [] := rfl

@[simp] theorem unlines_singleton (l : Str) : unlines [l] = l := List.intercalate_singleton

theorem unlines_cons_cons (l l' : Str) (ls : List Str) :
    unlines (l :: l' :: ls) = l ++ '\n' :: unlines (l' :: ls) := by
  rw [unlines, List.intercalate_cons_cons, List.append_assoc]
  rfl

/-! ## Parts -/

theorem unlines_take_prefix (ls : List Str) (n : ℕ) : unlines (ls.take n) <+: unlines ls := by
  induction ls generalizing n with
  | nil => rw [List.take_nil]
  | cons l ls ih =>
      rcases n with _ | n
      · exact List.nil_prefix
      · rcases ls with _ | ⟨l', ls⟩
        · rw [List.take_succ_cons, List.take_nil]
        · have hrest := ih n
          rcases n with _ | n
          · rw [List.take_succ_cons, List.take_zero, unlines_singleton, unlines_cons_cons]
            exact List.prefix_append _ _
          · rw [List.take_succ_cons, List.take_succ_cons, unlines_cons_cons, unlines_cons_cons]
            rw [List.take_succ_cons] at hrest
            exact (List.prefix_append_right_inj l).2 (List.cons_prefix_cons.2 ⟨rfl, hrest⟩)

theorem unlines_drop_suffix (ls : List Str) (n : ℕ) : unlines (ls.drop n) <:+ unlines ls := by
  induction ls generalizing n with
  | nil => rw [List.drop_nil]
  | cons l ls ih =>
      rcases n with _ | n
      · exact List.suffix_refl _
      · rw [List.drop_succ_cons]
        refine (ih n).trans ?_
        rcases ls with _ | ⟨l', ls⟩
        · exact List.nil_suffix
        · rw [unlines_cons_cons]
          exact (List.suffix_cons _ _).trans (List.suffix_append _ _)

/-! ## How many lines -/

/-- A text has at most one line more than it has newlines. -/
theorem length_lines_le (s : Str) : (lines s).length ≤ s.count '\n' + 1 := by
  rw [lines, List.length_map]
  induction s with
  | nil => exact Nat.zero_le _
  | cons c s ih =>
      obtain ⟨rfl, h⟩ | ⟨-, ⟨rfl, h⟩ | ⟨p, ps, hs, h⟩⟩ := split_inclusive_cons c s
      · rw [h, List.length_cons, List.count_cons_self]
        omega
      · rw [h]
        exact Nat.le_add_left _ _
      · rw [hs, List.length_cons] at ih
        rw [h, List.length_cons, List.count_cons]
        omega

/-- A piece has a newline at its end at most. -/
theorem piece_cases (h : p ∈ split_inclusive s) :
    ∃ q, '\n' ∉ q ∧ (p = q ∨ p = q ++ ['\n']) := by
  induction s generalizing p with
  | nil => cases h
  | cons c s ih =>
      obtain ⟨rfl, hs⟩ | ⟨hc, ⟨-, hs⟩ | ⟨q, ps, hq, hs⟩⟩ := split_inclusive_cons c s <;>
        rw [hs] at h
      · rcases List.mem_cons.1 h with rfl | h
        · exact ⟨[], List.not_mem_nil, .inr rfl⟩
        · exact ih h
      · rw [List.mem_singleton.1 h]
        exact ⟨[c], by simpa using Ne.symm hc, .inl rfl⟩
      · rcases List.mem_cons.1 h with rfl | h
        · obtain ⟨q', hq', hcases⟩ := ih (p := q) (by rw [hq]; exact List.mem_cons_self)
          refine ⟨c :: q', ?_, ?_⟩
          · rw [List.mem_cons, not_or]
            exact ⟨Ne.symm hc, hq'⟩
          · rcases hcases with rfl | rfl
            · exact .inl rfl
            · exact .inr rfl
        · exact ih (by rw [hq]; exact List.mem_cons_of_mem q h)

theorem newline_not_mem_lines (h : l ∈ lines s) : '\n' ∉ l := by
  obtain ⟨p, hp, rfl⟩ := List.mem_map.1 h
  obtain ⟨q, hq, rfl | rfl⟩ := piece_cases hp
  · have hkept : strip_line_break p <+: p := ⟨_, strip_line_break_append p⟩
    exact fun hmem => hq (hkept.subset hmem)
  · rw [strip_line_break, strip_end_append, if_pos rfl]
    dsimp only
    rw [strip_end]
    split
    · exact fun hmem => hq (List.dropLast_subset q hmem)
    · exact hq

theorem count_unlines (h : ∀ l ∈ ls, '\n' ∉ l) : (unlines ls).count '\n' = ls.length - 1 := by
  induction ls with
  | nil => rfl
  | cons l ls ih =>
      have hl : l.count '\n' = 0 := List.count_eq_zero.2 (h l List.mem_cons_self)
      have hrest := ih fun l' hl' => h l' (List.mem_cons_of_mem l hl')
      rcases ls with _ | ⟨l', ls⟩
      · rw [unlines_singleton, hl]
        rfl
      · rw [unlines_cons_cons, List.count_append, List.count_cons_self, hl, hrest]
        simp only [List.length_cons]
        omega

/-- **A part of joined lines has no more lines than were joined.** -/
theorem length_lines_le_of_sublist (h : ∀ l ∈ ls, '\n' ∉ l) (hs : s.Sublist (unlines ls)) :
    (lines s).length ≤ ls.length := by
  have hcount := hs.count_le '\n'
  rw [count_unlines h] at hcount
  have hlines := length_lines_le s
  rcases ls with _ | ⟨l, ls⟩
  · rw [unlines_nil, List.sublist_nil] at hs
    rw [hs]
    exact Nat.le_refl _
  · rw [List.length_cons] at hcount ⊢
    omega

/-! ## The text itself -/

/-- A character in front of a piece stays in front of its line, unless it is half of its
line break. -/
theorem strip_line_break_cons (c : Char) (hp : p ∈ split_inclusive s) (hne : p ≠ [])
    (hbreak : ¬ (c = '\r' ∧ p = ['\n'])) :
    strip_line_break (c :: p) = c :: strip_line_break p := by
  obtain ⟨q, hq, rfl | rfl⟩ := piece_cases hp
  · -- no line break at the end
    have hlast : p.getLast? ≠ some '\n' := fun h => hq (List.mem_of_getLast? h)
    have hlast' : (c :: p).getLast? ≠ some '\n' := by
      rw [List.getLast?_cons_of_ne_nil hne]
      exact hlast
    rw [strip_line_break, strip_line_break, strip_end, strip_end, if_neg hlast, if_neg hlast']
  · rw [strip_line_break, strip_line_break, ← List.cons_append, strip_end_append,
      strip_end_append, if_pos rfl, if_pos rfl]
    dsimp only
    rcases q with _ | ⟨d, q⟩
    · have hc : c ≠ '\r' := fun h => hbreak ⟨h, rfl⟩
      rw [strip_end, if_neg (by simpa using hc)]
      rfl
    · unfold strip_end
      rw [List.getLast?_cons_of_ne_nil (List.cons_ne_nil d q)]
      split
      · rw [Option.getD_some, Option.getD_some, List.dropLast_cons_of_ne_nil (List.cons_ne_nil d q)]
      · rfl

/-- **What a character in front does to the lines.** -/
theorem lines_cons (c : Char) (s : Str) :
    (c = '\n' ∧ lines (c :: s) = [] :: lines s) ∨
    (c ≠ '\n' ∧ s = [] ∧ lines (c :: s) = [[c]]) ∨
    (c = '\r' ∧ ['\n'] <+: s ∧ lines (c :: s) = lines s) ∨
    (c ≠ '\n' ∧ s ≠ [] ∧ ¬ (c = '\r' ∧ ['\n'] <+: s) ∧
      ∃ l ls, lines s = l :: ls ∧ lines (c :: s) = (c :: l) :: ls) := by
  unfold lines
  obtain ⟨rfl, h⟩ | ⟨hc, ⟨rfl, h⟩ | ⟨p, ps, hs, h⟩⟩ := split_inclusive_cons c s
  · refine .inl ⟨rfl, ?_⟩
    rw [h]
    rfl
  · refine .inr (.inl ⟨hc, rfl, ?_⟩)
    rw [h, List.map_singleton, strip_line_break, strip_end, if_neg (by simpa using hc)]
  · right; right
    have hp : p ∈ split_inclusive s := by
      rw [hs]
      exact List.mem_cons_self
    -- the first piece is not empty, and it is one line break or starts with another character
    have hpiece : p ≠ [] ∧ (p = ['\n'] ↔ ['\n'] <+: s) := by
      rcases s with _ | ⟨d, s⟩
      · cases hs
      · have hhead : ['\n'] <+: d :: s ↔ '\n' = d :=
          List.cons_prefix_cons.trans (and_iff_left List.nil_prefix)
        rw [hhead]
        obtain ⟨rfl, hd⟩ | ⟨hd, ⟨-, hd'⟩ | ⟨q, qs, -, hd'⟩⟩ := split_inclusive_cons d s
        · cases hs.symm.trans hd
          exact ⟨List.cons_ne_nil _ _, iff_of_true rfl rfl⟩
        · cases hs.symm.trans hd'
          exact ⟨List.cons_ne_nil _ _, by simpa using eq_comm⟩
        · cases hs.symm.trans hd'
          refine ⟨List.cons_ne_nil _ _, iff_of_false ?_ (Ne.symm hd)⟩
          intro heq
          exact hd (List.cons.inj heq).1
    obtain ⟨hne, hfirst⟩ := hpiece
    rw [h, hs, List.map_cons, List.map_cons, ← hfirst]
    by_cases hbreak : c = '\r' ∧ p = ['\n']
    · refine .inl ⟨hbreak.1, hbreak.2, ?_⟩
      rw [hbreak.1, hbreak.2]
      rfl
    · refine .inr ⟨hc, ?_, hbreak, strip_line_break p, ps.map strip_line_break, rfl, ?_⟩
      · rintro rfl
        cases hs
      · rw [strip_line_break_cons c hp hne hbreak]

theorem unlines_cons (l : Str) (ls : List Str) :
    unlines (l :: ls) = l ++ if ls = [] then [] else '\n' :: unlines ls := by
  rcases ls with _ | ⟨l', ls⟩
  · rw [if_pos rfl, unlines_singleton, List.append_nil]
  · rw [if_neg (List.cons_ne_nil _ _), unlines_cons_cons]

/-- The joined lines are the text with characters of line breaks left out. -/
theorem unlines_lines_sublist (s : Str) : (unlines (lines s)).Sublist s := by
  induction s with
  | nil => exact List.Sublist.refl _
  | cons c s ih =>
      obtain ⟨rfl, h⟩ | ⟨-, rfl, h⟩ | ⟨-, -, h⟩ | ⟨-, -, -, l, ls, hl, h⟩ := lines_cons c s
      · rw [h, unlines_cons, List.nil_append]
        split
        · exact List.nil_sublist _
        · exact ih.cons_cons '\n'
      · rw [h, unlines_singleton]
      · rw [h]
        exact ih.cons c
      · rw [hl] at ih
        rw [h, unlines, List.intercalate_cons_cons_left]
        exact ih.cons_cons c

/-- A text whose lines, joined, are the text. -/
def LinesPlain (s : Str) : Prop := s.getLast? ≠ some '\n' ∧ ¬ ['\r', '\n'] <:+: s

/-- **Joining the lines gives the text back exactly when it does not end in a line break and
has none of two characters.** -/
theorem unlines_lines_iff (s : Str) : unlines (lines s) = s ↔ LinesPlain s := by
  unfold LinesPlain
  induction s with
  | nil => exact iff_of_true rfl (by simp)
  | cons c s ih =>
      have hbreaks : ['\r', '\n'] <:+: c :: s ↔
          (c = '\r' ∧ ['\n'] <+: s) ∨ ['\r', '\n'] <:+: s := by
        rw [List.infix_cons_iff, List.cons_prefix_cons, eq_comm]
      have hlast : s ≠ [] → (c :: s).getLast? = s.getLast? := fun h =>
        List.getLast?_cons_of_ne_nil h
      obtain ⟨rfl, h⟩ | ⟨hc, rfl, h⟩ | ⟨rfl, hs, h⟩ | ⟨hc, hs, hbreak, l, ls, hl, h⟩ :=
        lines_cons c s
      · rw [h, unlines_cons, List.nil_append]
        by_cases hs : s = []
        · subst hs
          exact iff_of_false (by simp [lines, split_inclusive]) (fun h => h.1 rfl)
        · rw [if_neg (by rw [lines_eq_nil]; exact hs), hlast hs, hbreaks, List.cons.injEq, ih]
          simp
      · rw [h, unlines_singleton]
        refine iff_of_true rfl ⟨by simpa using hc, ?_⟩
        rw [hbreaks]
        simp
      · rw [h, hbreaks]
        refine iff_of_false (fun heq => ?_) (fun hplain => hplain.2 (.inl ⟨rfl, hs⟩))
        have := (unlines_lines_sublist s).length_le
        rw [heq, List.length_cons] at this
        omega
      · rw [hl] at ih
        rw [h, unlines, List.intercalate_cons_cons_left, List.cons.injEq, hlast hs, hbreaks]
        change c = c ∧ unlines (l :: ls) = s ↔ _
        rw [ih]
        simp only [true_and, hbreak, false_or]

theorem byte_len_le_of_sublist {a b : Str} (h : a.Sublist b) : byte_len a ≤ byte_len b :=
  (h.map Char.utf8Size).sum_le_sum fun _ _ => Nat.zero_le _

end

end Strings
