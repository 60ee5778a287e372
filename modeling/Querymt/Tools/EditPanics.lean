/-
`EditPanics.lean` -- when `edit` panics.

What each strategy returns, and where it can end without a value. Indices and subtractions
are always in range. A slice of the content is taken at computed offsets of lines, and the
white space in front of a line is cut off by a number of bytes that was counted in another
line: both can fall inside of a character.
-/
import Querymt.Tools.EditOutcomes
import Querymt.Tools.EditRanges

set_option autoImplicit false

open Faults Strings

namespace Querymt.Edit

/-! ## Blocks of lines -/

/-- All blocks of `n` lines, put together again. -/
def blocks (ls : List Str) (n : ℕ) : List Str :=
  (List.range (ls.length - n + 1)).map fun i => join ['\n'] ((ls.drop i).take n)

section

variable {ls : List Str} {i n : ℕ}

theorem block_eq (h : i + n ≤ ls.length) :
    block ls i n = .ok (join ['\n'] ((ls.drop i).take n)) := by
  have hslice : (slice ls i (i + n) : Run (List Str)) = .ok ((ls.drop i).take n) := by
    unfold slice
    rw [if_pos ⟨Nat.le_add_right i n, h⟩, Nat.add_sub_cancel_left]
  unfold block
  rw [hslice, ok_bind]
  rfl

/-- A loop over the blocks that can end without a value in what it does with a block
only. -/
theorem collect_blocks (hn : n ≤ ls.length) (body : Str → Run (List Str)) :
    collect (fun i => block ls i n >>= body) (List.range (ls.length - n + 1)) =
      collect body (blocks ls n) := by
  have hround : ∀ i ∈ List.range (ls.length - n + 1), (block ls i n >>= body) =
      if (fun _ => true) i then body (join ['\n'] ((ls.drop i).take n)) else .ok [] := by
    intro i hi
    have := List.mem_range.1 hi
    rw [block_eq (by omega)]
    rfl
  rw [collect_filter_map hround, List.filter_true]
  rfl

/-- A loop that keeps what passes a test. -/
theorem collect_test (test : Str → Prop) [DecidablePred test] (bs : List Str) :
    collect (fun block => (return if test block then [block] else [] : Run (List Str))) bs =
      .ok (bs.filter test) := by
  induction bs with
  | nil => rfl
  | cons b bs ih =>
      rw [collect, ih, List.filter_cons]
      by_cases h : test b
      · simp [h, pure, Except.pure, bind, Except.bind]
      · simp [h, pure, Except.pure, bind, Except.bind]

end

/-! ## What the strategies return -/

section

variable {content find : Str}

theorem whitespace_normalized_replacer_eq (content find : Str) :
    whitespace_normalized_replacer content find =
      .ok (if (lines find).length > 1 then
          if (lines content).length ≥ (lines find).length then
            (blocks (lines content) (lines find).length).filter (normalize · = normalize find)
          else []
        else (lines content).filter (normalize · = normalize find)) := by
  unfold whitespace_normalized_replacer
  dsimp only
  split
  · split
    · next hlen =>
      rw [checked_sub_of_le hlen, ok_bind]
      rw [collect_blocks hlen fun block =>
        return if normalize block = normalize find then [block] else []]
      exact collect_test _ _
    · rfl
  · rfl

theorem trimmed_boundary_replacer_eq (content find : Str) :
    trimmed_boundary_replacer content find =
      .ok (if trim find = find then []
        else if lines find = [] ∨ (lines content).length < (lines find).length then []
        else (blocks (lines content) (lines find).length).filter (trim · = trim find)) := by
  unfold trimmed_boundary_replacer
  dsimp only
  split
  · rfl
  · split
    · rfl
    · next hlen =>
      rw [collect_blocks (by omega) fun block =>
        return if trim block = trim find then [block] else []]
      exact collect_test _ _

theorem escape_normalized_replacer_eq (content find : Str) :
    escape_normalized_replacer content find =
      .ok (if lines (unescape find) = [] ∨
          (lines content).length < (lines (unescape find)).length then []
        else
          let found := ((blocks (lines content) (lines (unescape find)).length).filter
            (unescape · = unescape find)).foldl push_new []
          if found = [] ∧ contains (unescape find) content then [unescape find] else found) := by
  unfold escape_normalized_replacer
  dsimp only
  split
  · rfl
  · next hlen =>
    rw [collect_blocks (by omega) fun block =>
      return if unescape block = unescape find then [block] else [], collect_test]
    rfl

/-! ## Indentation -/

/-- How many bytes of white space stand in front of a line. -/
def indent_width (line : Str) : ℕ := byte_len line - byte_len (line.dropWhile is_whitespace)

/-- The smallest indentation of the lines that are not blank. -/
def min_indent (text : Str) : ℕ :=
  (((lines text).filter fun line => trim line ≠ []).map indent_width).min?.getD 0

/-- The smallest indentation ends at a character of every line. -/
def IndentCuts (text : Str) : Prop :=
  ∀ line ∈ lines text, trim line ≠ [] → IsBoundary line (min_indent text)

theorem byte_len_dropWhile (line : Str) :
    byte_len (line.takeWhile is_whitespace) + byte_len (line.dropWhile is_whitespace) =
      byte_len line := by
  rw [← byte_len_append, List.takeWhile_append_dropWhile]

theorem indentation_eq (line : Str) : indentation line = .ok (indent_width line) :=
  if_pos (by have := byte_len_dropWhile line; omega)

theorem indent_width_lt {line : Str} (h : trim line ≠ []) : indent_width line < byte_len line := by
  have hrest : line.dropWhile is_whitespace ≠ [] := by
    intro hnil
    refine h ?_
    unfold trim Texts.trim
    rw [hnil]
    rfl
  have hpos : byte_len (line.dropWhile is_whitespace) ≠ 0 := fun h0 => hrest (byte_len_eq_zero.1 h0)
  have hlen := byte_len_dropWhile line
  unfold indent_width
  omega

variable {text line : Str}

theorem min_indent_le (hline : line ∈ lines text) (h : trim line ≠ []) :
    min_indent text ≤ indent_width line := by
  have hmem : indent_width line ∈
      ((lines text).filter fun line => trim line ≠ []).map indent_width :=
    List.mem_map_of_mem (List.mem_filter.2 ⟨hline, by simpa using h⟩)
  unfold min_indent
  cases hmin : (((lines text).filter fun line => trim line ≠ []).map indent_width).min? with
  | none =>
      rw [List.min?_eq_none_iff.1 hmin] at hmem
      cases hmem
  | some m => exact (List.min?_eq_some_iff.1 hmin).2 _ hmem

/-- What is done with one line. -/
def cut_line (min_indent : ℕ) (line : Str) : Run (List Str) :=
  if trim line = [] then return [line]
  else do
    let piece ← str_slice line min_indent (byte_len line)
    return [piece]

theorem remove_indentation_eq (text : Str) :
    remove_indentation text =
      if ∀ line ∈ lines text, trim line = [] then .ok text
      else do
        let cut ← collect (cut_line (min_indent text)) (lines text)
        return join ['\n'] cut := by
  unfold remove_indentation
  dsimp only
  by_cases hblank : ∀ line ∈ lines text, trim line = []
  · rw [if_pos hblank, if_pos (by simpa using hblank)]
    rfl
  · rw [if_neg hblank, if_neg (by simpa using hblank)]
    have hindents : collect (fun line => do
        let indent ← indentation line
        return [indent]) ((lines text).filter fun line => trim line ≠ []) =
        (.ok (((lines text).filter fun line => trim line ≠ []).map indent_width) : Run (List ℕ)) := by
      generalize (lines text).filter (fun line => trim line ≠ []) = ls
      induction ls with
      | nil => rfl
      | cons l ls ih =>
          rw [collect, indentation_eq, ih]
          rfl
    rw [hindents, ok_bind]
    -- the smallest indentation is no longer than a line that is not blank
    have hbody : ∀ line ∈ lines text, (if trim line = [] then (return [line] : Run (List Str))
        else do
          let piece ← str_slice line (min (min_indent text) (byte_len line)) (byte_len line)
          return [piece]) =
        if (fun _ => true) line then cut_line (min_indent text) (id line) else .ok [] := by
      intro line hline
      rw [if_pos rfl, cut_line, id_eq]
      split
      · rfl
      · next h =>
        have hle := min_indent_le hline h
        have hlt := indent_width_lt h
        rw [min_eq_left (by omega)]
    have hcut := collect_filter_map hbody
    rw [List.filter_true, List.map_id] at hcut
    unfold min_indent at hcut ⊢
    rw [hcut]

/-- The indentation can be removed exactly if it ends at a character of every line. -/
theorem remove_indentation_returns_iff (text : Str) :
    (∃ removed, remove_indentation text = .ok removed) ↔ IndentCuts text := by
  rw [remove_indentation_eq]
  split
  · next hblank =>
    exact iff_of_true ⟨text, rfl⟩ fun line hline h => absurd (hblank line hline) h
  · -- joining the lines again cannot fail
    have hbind : (∃ removed, (do
        let cut ← collect (cut_line (min_indent text)) (lines text)
        return join ['\n'] cut : Run Str) = .ok removed) ↔
        ∃ found, collect (cut_line (min_indent text)) (lines text) = .ok found := by
      constructor
      · rintro ⟨removed, h⟩
        obtain ⟨cut, hcut, -⟩ := bind_eq_ok.1 h
        exact ⟨cut, hcut⟩
      · rintro ⟨cut, hcut⟩
        rw [hcut]
        exact ⟨_, rfl⟩
    rw [hbind, collect_returns_iff]
    refine forall₂_congr fun line hline => ?_
    unfold cut_line
    by_cases h : trim line = []
    · rw [if_pos h]
      exact iff_of_true ⟨[line], rfl⟩ fun hne => absurd h hne
    · rw [if_neg h]
      have hle := min_indent_le hline h
      have hlt := indent_width_lt h
      obtain ⟨hcut, -, m, hm⟩ | ⟨hcut, hm⟩ :=
        @str_slice_cases Empty line (min_indent text) (byte_len line) (by omega)
      · rw [hm]
        exact iff_of_true ⟨[m], rfl⟩ fun _ => hcut
      · rw [hm]
        refine iff_of_false ?_ fun hb => hcut ⟨hb h, isBoundary_byte_len line⟩
        rintro ⟨part, hpart⟩
        cases hpart

variable {content find : Str}

/-- The smallest indentation can be cut off, of the text looked for and of every block. -/
def IndentationCuts (content find : Str) : Prop :=
  IndentCuts find ∧ (lines find ≠ [] → (lines find).length ≤ (lines content).length →
    ∀ block ∈ blocks (lines content) (lines find).length, IndentCuts block)

theorem indentation_flexible_returns_iff (content find : Str) :
    (∃ found, indentation_flexible_replacer content find = .ok found) ↔
      IndentationCuts content find := by
  unfold indentation_flexible_replacer IndentationCuts
  rw [← remove_indentation_returns_iff]
  dsimp only
  cases hfind : remove_indentation find with
  | error e =>
      refine iff_of_false ?_ ?_
      · rintro ⟨found, h⟩
        cases h
      · rintro ⟨⟨removed, h⟩, -⟩
        cases h
  | ok normalized =>
      rw [ok_bind]
      split
      · next hfew =>
        refine iff_of_true ⟨[], rfl⟩ ⟨⟨normalized, rfl⟩, fun hne hlen => ?_⟩
        obtain hnil | hlt := hfew
        · exact absurd hnil hne
        · omega
      · next hmany =>
        rw [not_or, not_lt] at hmany
        rw [collect_blocks hmany.2 fun block => do
          let removed ← remove_indentation block
          return if removed = normalized then [block] else []]
        rw [collect_returns_iff]
        -- a block is compared once its indentation is removed
        have hbody : ∀ block, (∃ part, (do
            let removed ← remove_indentation block
            return if removed = normalized then [block] else [] : Run (List Str)) = .ok part) ↔
            IndentCuts block := by
          intro block
          rw [← remove_indentation_returns_iff]
          constructor
          · rintro ⟨part, hpart⟩
            obtain ⟨removed, hremoved, -⟩ := bind_eq_ok.1 hpart
            exact ⟨removed, hremoved⟩
          · rintro ⟨removed, hremoved⟩
            rw [hremoved]
            exact ⟨_, rfl⟩
        simp only [hbody]
        exact ⟨fun h => ⟨⟨normalized, rfl⟩, fun _ _ => h⟩, fun h => h.2 hmany.1 hmany.2⟩

/-! ## Blocks between two lines -/

theorem context_counts_safe {block_lines find_lines : List Str} {ks : List ℕ}
    (h : ∀ k ∈ ks, k < block_lines.length ∧ k < find_lines.length) (matching total : ℕ) :
    Safe (context_counts block_lines find_lines ks matching total) fun _ => True := by
  induction ks generalizing matching total with
  | nil => exact safe_ok trivial
  | cons k ks ih =>
      obtain ⟨⟨hb, hf⟩, hks⟩ := List.forall_mem_cons.1 h
      refine safe_bind (safe_index hb fun block_line _ => ?_)
      refine safe_bind (safe_index hf fun find_line _ => ?_)
      split
      · exact ih hks _ _
      · exact ih hks _ _

/-- A block that is found has as many lines as are looked for. -/
theorem context_block_safe {content_lines find_lines : List Str} {i j : ℕ} (hij : i ≤ j)
    (hj : j < content_lines.length) :
    Safe (context_block content_lines find_lines i j) fun found => ∀ s ∈ found,
      ∃ block_lines, s = join ['\n'] block_lines ∧ block_lines.length = find_lines.length := by
  unfold context_block
  refine safe_bind (safe_slice (j + 1 - i) (by omega) (by omega) ?_)
  have hblock : ((content_lines.drop i).take (j + 1 - i)).length = j + 1 - i := by
    rw [List.length_take, List.length_drop]
    omega
  generalize (content_lines.drop i).take (j + 1 - i) = block_lines at hblock
  split
  · next hlen =>
    refine safe_bind (safe_checked_sub (by omega) ?_)
    refine safe_bind ((context_counts_safe (fun k hk => ?_) 0 0).imp fun counts _ => ?_)
    · rw [List.mem_range'_1] at hk
      omega
    · refine safe_ok fun s hs => ?_
      split at hs
      · exact ⟨block_lines, List.mem_singleton.1 hs, hlen⟩
      · cases hs
  · exact safe_ok (List.forall_mem_nil _)

theorem context_aware_safe (content find : Str) :
    Safe (context_aware_replacer content find) fun found => ∀ s ∈ found,
      ∃ block_lines, s = join ['\n'] block_lines ∧ 2 ≤ block_lines.length := by
  unfold context_aware_replacer
  split
  · exact safe_ok (List.forall_mem_nil _)
  · next hthree =>
    have hlen := length_drop_last_empty (lines find)
    dsimp only
    refine safe_bind (safe_index (by omega) fun first_line _ => ?_)
    refine safe_bind (safe_checked_sub (by omega) ?_)
    refine safe_bind (safe_index (by omega) fun last_line _ => ?_)
    refine safe_collect fun i hi => ?_
    refine safe_bind (safe_index (List.mem_range.1 hi) fun content_line _ => ?_)
    split
    · exact safe_ok (List.forall_mem_nil _)
    · split
      · exact safe_ok (List.forall_mem_nil _)
      · next j hj =>
        obtain ⟨hij, hlt, -⟩ := closing_line_eq_some hj
        refine (context_block_safe (by omega) hlt).imp fun found hfound s hs => ?_
        obtain ⟨block_lines, rfl, hblock⟩ := hfound s hs
        exact ⟨block_lines, rfl, by omega⟩

/-! ## Cuts at lines -/

/-- Both ends of a range are at characters. -/
def CutAt (content : Str) (range : ℕ × ℕ) : Prop :=
  IsBoundary content range.1 ∧ IsBoundary content range.2

theorem cut_pieces_returns_iff {ranges : List (ℕ × ℕ)} (h : ∀ range ∈ ranges, range.1 ≤ range.2) :
    (∃ found, cut_pieces content ranges = .ok found) ↔ ∀ range ∈ ranges, CutAt content range := by
  unfold cut_pieces
  rw [collect_returns_iff]
  refine forall₂_congr fun range hrange => ?_
  obtain ⟨hl, hr, m, hm⟩ | ⟨hcut, hm⟩ :=
    @str_slice_cases Empty content range.1 range.2 (h range hrange)
  · rw [hm]
    exact iff_of_true ⟨[m], rfl⟩ ⟨hl, hr⟩
  · rw [hm]
    refine iff_of_false ?_ hcut
    rintro ⟨part, hpart⟩
    cases hpart

theorem trimmed_ranges_le : ∀ range ∈ trimmed_ranges content find, range.1 ≤ range.2 := by
  refine List.forall_mem_map.2 fun i hi => ?_
  obtain ⟨hsl, -, -⟩ := mem_trimmed_starts.1 hi
  have hpos := List.length_pos_iff.2 hsl
  have hmono := line_offset_mono (lines content)
    (show i ≤ i + (search_lines find).length - 1 by omega)
  unfold cut_range
  dsimp only
  omega

/-- The two line breaks between the anchors are cut out with them. -/
theorem anchored_ranges_le {lev : Str → Str → ℕ} :
    ∀ range ∈ anchored_ranges lev content find, range.1 + 2 ≤ range.2 := by
  obtain ⟨selected, hselected, hanchored⟩ := (anchored_lines_safe lev content find).returns
  unfold anchored_ranges
  rw [hselected]
  cases selected with
  | none => exact List.forall_mem_nil _
  | some block =>
      obtain ⟨hij, hj, -⟩ := hanchored block rfl
      refine List.forall_mem_singleton.2 ?_
      have hle := line_offset_add_le (lines content) (i := block.1) (by omega) hj.le
      unfold cut_range
      dsimp only
      omega

theorem line_trimmed_returns_iff (content find : Str) :
    (∃ found, line_trimmed_replacer content find = .ok found) ↔
      ∀ range ∈ trimmed_ranges content find, CutAt content range := by
  rw [line_trimmed_replacer_eq]
  exact cut_pieces_returns_iff trimmed_ranges_le

theorem block_anchor_returns_iff (lev : Str → Str → ℕ) (content find : Str) :
    (∃ found, block_anchor_replacer lev content find = .ok found) ↔
      ∀ range ∈ anchored_ranges lev content find, CutAt content range := by
  rw [block_anchor_replacer_eq]
  refine cut_pieces_returns_iff fun range hrange => ?_
  have := anchored_ranges_le range hrange
  omega

end

/-! ## The whole call -/

section

variable {lev : Str → Str → ℕ} {content old new : Str} {all : Bool}

theorem chosen_returns_cons {replacer : Str → Str → Run (List Str)}
    {rs : List (Str → Str → Run (List Str))} :
    (∃ o, chosen content old all (replacer :: rs) = .ok o) ↔
      (∃ found, replacer content old = .ok found) ∧
        (PassesOn content old all replacer → ∃ o, chosen content old all rs = .ok o) := by
  rw [chosen]
  cases hfound : replacer content old with
  | error e =>
      refine iff_of_false ?_ ?_
      · rintro ⟨o, h⟩
        cases h
      · rintro ⟨⟨found, h⟩, -⟩
        cases h
  | ok found =>
      rw [ok_bind]
      cases hs : found.find? (accepted content all) with
      | some s =>
          -- the strategy does not pass on, the rest is not run
          refine iff_of_true ⟨some s, rfl⟩ ⟨⟨found, rfl⟩, ?_⟩
          rintro ⟨found', hfound', hall⟩
          cases hfound.symm.trans hfound'
          have hno := hall s (List.mem_of_find?_eq_some hs)
          rw [List.find?_some hs] at hno
          cases hno
      | none =>
          have hpass : PassesOn content old all replacer := ⟨found, hfound, by simpa using hs⟩
          exact ⟨fun h => ⟨⟨found, rfl⟩, fun _ => h⟩, fun h => h.2 hpass⟩

theorem replace_returns_iff : EditTool.replace lev content old new all ≠ .error .Panic ↔
    (old ≠ [] → old ≠ new → ∃ o, chosen content old all (replacers lev) = .ok o) := by
  by_cases hne : old = []
  · rw [EditTool.replace, if_pos hne]
    exact iff_of_true (by simp) fun h => absurd hne h
  by_cases hdiff : old = new
  · rw [EditTool.replace, if_neg hne, if_pos hdiff]
    exact iff_of_true (by simp) fun _ h => absurd hdiff h
  obtain ⟨s, r, hs, hr, -⟩ | ⟨hs, message, hr⟩ | ⟨e, hs, hr⟩ := replace_cases hne hdiff
  · rw [hs, hr]
    exact iff_of_true (by simp) fun _ _ => ⟨some s, rfl⟩
  · rw [hs, hr]
    exact iff_of_true (by simp) fun _ _ => ⟨none, rfl⟩
  · rw [hs, hr]
    simp [hne, hdiff]

end

/-- `edit` panics only where a strategy cuts inside of a character, if the strategies before
it did not find anything to be used: at the offsets of lines, or at the end of the smallest
indentation. -/
theorem panic_free_iff (lev : Str → Str → ℕ) (content old_string new_string : Str)
    (replace_all : Bool) :
    EditTool.replace lev content old_string new_string replace_all ≠ .error .Panic ↔
      (old_string ≠ [] → old_string ≠ new_string →
        ((∀ r ∈ (replacers lev).take 1, PassesOn content old_string replace_all r) →
          ∀ range ∈ trimmed_ranges content old_string, CutAt content range) ∧
        ((∀ r ∈ (replacers lev).take 2, PassesOn content old_string replace_all r) →
          ∀ range ∈ anchored_ranges lev content old_string, CutAt content range) ∧
        ((∀ r ∈ (replacers lev).take 4, PassesOn content old_string replace_all r) →
          IndentationCuts content old_string)) := by
  rw [replace_returns_iff]
  refine forall_congr' fun hne => forall_congr' fun _ => ?_
  obtain ⟨multi, hmulti, -⟩ := multi_occurrence_finds content hne
  obtain ⟨context, hcontext, -⟩ := (context_aware_safe content old_string).returns
  have hsimple : ∃ found, simple_replacer content old_string = .ok found := ⟨_, rfl⟩
  have hwhitespace : ∃ found, whitespace_normalized_replacer content old_string = .ok found :=
    ⟨_, whitespace_normalized_replacer_eq content old_string⟩
  have hescape : ∃ found, escape_normalized_replacer content old_string = .ok found :=
    ⟨_, escape_normalized_replacer_eq content old_string⟩
  have htrimmed : ∃ found, trimmed_boundary_replacer content old_string = .ok found :=
    ⟨_, trimmed_boundary_replacer_eq content old_string⟩
  have hend : ∃ o, chosen content old_string replace_all [] = .ok o := ⟨none, rfl⟩
  -- strategy by strategy; what always returns drops out
  unfold replacers
  simp only [chosen_returns_cons, hsimple, hwhitespace, hescape, htrimmed, hend,
    show ∃ found, context_aware_replacer content old_string = .ok found from ⟨context, hcontext⟩,
    show ∃ found, multi_occurrence_replacer content old_string = .ok found from ⟨multi, hmulti⟩,
    line_trimmed_returns_iff, block_anchor_returns_iff, indentation_flexible_returns_iff,
    List.take_succ_cons, List.take_zero, List.forall_mem_cons, List.not_mem_nil, false_imp_iff,
    implies_true, and_true, true_and]
  constructor
  · intro h
    refine ⟨fun h₁ => (h h₁).1, ?_, ?_⟩
    · rintro ⟨h₁, h₂⟩
      exact ((h h₁).2 h₂).1
    · rintro ⟨h₁, h₂, h₃, h₄⟩
      exact ((h h₁).2 h₂).2 h₃ h₄
  · rintro ⟨htrim, hanchor, hindent⟩ h₁
    exact ⟨htrim h₁, fun h₂ => ⟨hanchor ⟨h₁, h₂⟩, fun h₃ h₄ => hindent ⟨h₁, h₂, h₃, h₄⟩⟩⟩

/-- A line that ends in a character of two bytes, behind one that ends in `\r\n`; and a
space less than the wide one that another line begins with. -/
theorem cuts_inside_of_characters :
    EditTool.replace (fun _ _ => 0) "x\r\n\t\u00e9".toList " \u00e9".toList "y".toList false =
        .error .Panic ∧
    EditTool.replace (fun _ _ => 0) "z".toList "\u3000x\n y".toList "y".toList false =
        .error .Panic :=
  ⟨rfl, rfl⟩

end Querymt.Edit
