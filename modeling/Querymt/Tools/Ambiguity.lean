/-
`Ambiguity.lean` -- when `edit` refuses a text that occurs several times.

The exact strategy passes on such a text, and each fuzzy strategy looks for texts of its
own that are taken for it. The edit is refused if none of these stands in the content
exactly once. What each of them looks for is said here in terms of the lines of the
content and of the text: lines that agree when trimmed, blocks of lines with the same
words, blocks that agree once their indentation, their escapes or the white space at their
ends are gone, and blocks between two lines that agree.
-/
import Querymt.Tools.EditAll

set_option autoImplicit false

open Faults Strings

namespace Querymt.Edit

/-! ## What the strategies take for a text -/

/-- The blocks of the content that have as many lines as the text. -/
def line_blocks (content text : Str) : List Str :=
  if lines text = [] ∨ (lines content).length < (lines text).length then []
  else blocks (lines content) (lines text).length

/-- Between these offsets stands a text that does not occur exactly once. -/
def RepeatedCut (content : Str) (range : ℕ × ℕ) : Prop :=
  ∃ before s after, content = before ++ (s ++ after) ∧ byte_len before = range.1 ∧
    byte_len (before ++ s) = range.2 ∧ ¬ OccursOnce s content

/-- The lines from `i` to `j` begin and end like the text, are as many, and at least half of
those in the middle that are not blank on both sides agree. -/
def InContext (original_lines search_lines : List Str) (i j : ℕ) : Prop :=
  trim (original_lines.getD i []) = trim (search_lines.getD 0 []) ∧
    closing_line original_lines i (trim (search_lines.getD (search_lines.length - 1) [])) =
      some j ∧
    j + 1 - i = search_lines.length ∧
    let middle := (List.range' 1 (search_lines.length - 1 - 1)).filter fun k =>
      trim (original_lines.getD (i + k) []) ≠ [] ∨ trim (search_lines.getD k []) ≠ []
    middle.length ≤ 2 * middle.countP fun k =>
      trim (original_lines.getD (i + k) []) = trim (search_lines.getD k [])

/-- **Nothing is unique**: no text that is taken for the one looked for occurs exactly once;
and no strategy cuts inside of a character. -/
structure NothingUnique (lev : Str → Str → ℕ) (content old_string : Str) : Prop where
  /-- lines that are, trimmed, the lines of the text -/
  line_trimmed : ∀ i ∈ trimmed_starts (lines content) (search_lines old_string),
    RepeatedCut content
      (cut_range (lines content) i (i + (search_lines old_string).length - 1))
  /-- the lines between the two anchors that are similar enough -/
  block_anchor : ∀ i j, anchored_lines lev content old_string = .ok (some (i, j)) →
    RepeatedCut content (cut_range (lines content) i j)
  /-- blocks with the same words -/
  whitespace_normalized : ∀ block ∈ line_blocks content old_string,
    normalize block = normalize old_string → ¬ OccursOnce block content
  /-- blocks that are the same without their indentation -/
  indentation_flexible : IndentCuts old_string ∧ ∀ block ∈ line_blocks content old_string,
    IndentCuts block ∧
      (remove_indentation block = remove_indentation old_string → ¬ OccursOnce block content)
  /-- blocks that are the same once escapes are read; without one, the text once they are -/
  escape_normalized : (∀ block ∈ line_blocks content (unescape old_string),
      unescape block = unescape old_string → ¬ OccursOnce block content) ∧
    ((lines (unescape old_string)).length ≤ (lines content).length →
      (∀ block ∈ line_blocks content (unescape old_string),
        unescape block ≠ unescape old_string) →
      ¬ OccursOnce (unescape old_string) content)
  /-- blocks that are the text between white space, for a text that has some at its ends -/
  trimmed_boundary : trim old_string ≠ old_string →
    ∀ block ∈ line_blocks content old_string, trim block = trim old_string →
      ¬ OccursOnce block content
  /-- blocks of at least two lines in the same context -/
  context_aware : 3 ≤ (lines old_string).length →
    ∀ i j, InContext (lines content) (search_lines old_string) i j →
      ¬ OccursOnce (join ['\n'] (((lines content).drop i).take (j + 1 - i))) content

section

variable {lev : Str → Str → ℕ} {content old : Str}

/-- Of a strategy that always returns, what it finds is to be looked at. -/
theorem passesOn_iff {replacer : Str → Str → Run (List Str)} {found : List Str}
    (h : replacer content old = .ok found) :
    PassesOn content old false replacer ↔ ∀ s ∈ found, ¬ OccursOnce s content := by
  simp only [PassesOn, ← accepted_once_iff, Bool.not_eq_true]
  constructor
  · rintro ⟨found', hfound', hall⟩
    rw [Except.ok.inj (h.symm.trans hfound')]
    exact hall
  · exact fun hall => ⟨found, h, hall⟩

theorem passesOn_iff_exists {replacer : Str → Str → Run (List Str)} :
    PassesOn content old false replacer ↔
      ∃ found, replacer content old = .ok found ∧ ∀ s ∈ found, ¬ OccursOnce s content := by
  simp only [PassesOn, ← accepted_once_iff, Bool.not_eq_true]

/-! ## Strategies that cut at offsets -/

theorem cut_pieces_passes_iff {ranges : List (ℕ × ℕ)} :
    (∃ found, cut_pieces content ranges = .ok found ∧ ∀ s ∈ found, ¬ OccursOnce s content) ↔
      ∀ range ∈ ranges, RepeatedCut content range := by
  unfold cut_pieces
  rw [collect_forall_iff]
  refine forall₂_congr fun range _ => ?_
  constructor
  · rintro ⟨part, hpart, hall⟩
    obtain ⟨piece, hpiece, hone⟩ := bind_eq_ok.1 hpart
    obtain ⟨before, after, hcontent, hl, hr⟩ := str_slice_eq_ok.1 hpiece
    refine ⟨before, piece, after, hcontent, hl, hr, hall piece ?_⟩
    rw [← Except.ok.inj hone]
    exact List.mem_singleton_self _
  · rintro ⟨before, s, after, hcontent, hl, hr, honce⟩
    have hpiece : @str_slice Empty content range.1 range.2 = .ok s :=
      str_slice_eq_ok.2 ⟨before, after, hcontent, hl, hr⟩
    refine ⟨[s], ?_, List.forall_mem_singleton.2 honce⟩
    rw [hpiece]
    rfl

theorem line_trimmed_passes_iff : PassesOn content old false line_trimmed_replacer ↔
    ∀ i ∈ trimmed_starts (lines content) (search_lines old),
      RepeatedCut content (cut_range (lines content) i (i + (search_lines old).length - 1)) := by
  rw [passesOn_iff_exists, line_trimmed_replacer_eq, cut_pieces_passes_iff, trimmed_ranges,
    List.forall_mem_map]

theorem block_anchor_passes_iff : PassesOn content old false (block_anchor_replacer lev) ↔
    ∀ i j, anchored_lines lev content old = .ok (some (i, j)) →
      RepeatedCut content (cut_range (lines content) i j) := by
  rw [passesOn_iff_exists, block_anchor_replacer_eq, cut_pieces_passes_iff]
  obtain ⟨selected, hselected, -⟩ := (anchored_lines_safe lev content old).returns
  unfold anchored_ranges
  rw [hselected]
  cases selected with
  | none => simp [Except.toOption]
  | some block =>
      simp only [Except.toOption, Option.join_some, Option.map_some, Option.toList_some,
        List.forall_mem_singleton, Except.ok.injEq, Option.some.injEq]
      constructor
      · rintro h i j rfl
        exact h
      · exact fun h => h block.1 block.2 rfl

/-! ## Strategies that compare blocks -/

/-- The blocks of one line are the lines. -/
theorem blocks_one {ls : List Str} (h : ls ≠ []) : blocks ls 1 = ls := by
  have hpos := List.length_pos_iff.2 h
  refine List.ext_getElem ?_ fun i hi _ => ?_
  · rw [blocks, List.length_map, List.length_range]
    omega
  · rw [blocks, List.length_map, List.length_range] at hi
    simp only [blocks, List.getElem_map, List.getElem_range]
    rw [List.drop_eq_getElem_cons (by omega), List.take_succ_cons, List.take_zero]
    simp [join, List.intercalate]

theorem whitespace_normalized_passes_iff (hne : old ≠ []) :
    PassesOn content old false whitespace_normalized_replacer ↔
      ∀ block ∈ line_blocks content old, normalize block = normalize old →
        ¬ OccursOnce block content := by
  rw [passesOn_iff (whitespace_normalized_replacer_eq content old)]
  have hpos := List.length_pos_iff.2 fun h0 => hne (lines_eq_nil.1 h0)
  have hlines : lines old ≠ [] := List.length_pos_iff.1 hpos
  have hfound : (if (lines old).length > 1 then
        if (lines content).length ≥ (lines old).length then
          (blocks (lines content) (lines old).length).filter (normalize · = normalize old)
        else []
      else (lines content).filter (normalize · = normalize old)) =
      (line_blocks content old).filter (normalize · = normalize old) := by
    unfold line_blocks
    by_cases hone : (lines old).length > 1
    · rw [if_pos hone]
      by_cases hlen : (lines content).length ≥ (lines old).length
      · rw [if_pos hlen, if_neg (by rw [not_or]; exact ⟨hlines, by omega⟩)]
      · rw [if_neg hlen, if_pos (.inr (by omega))]
        rfl
    · have hlen : (lines old).length = 1 := by omega
      rw [if_neg hone, hlen]
      by_cases hcontent : lines content = []
      · rw [hcontent, if_pos (.inr Nat.one_pos)]
      · have := List.length_pos_iff.2 hcontent
        rw [if_neg (by rw [not_or]; exact ⟨hlines, by omega⟩), blocks_one hcontent]
  rw [hfound]
  simp only [List.mem_filter, decide_eq_true_eq, and_imp]

theorem trimmed_boundary_passes_iff : PassesOn content old false trimmed_boundary_replacer ↔
    (trim old ≠ old → ∀ block ∈ line_blocks content old, trim block = trim old →
      ¬ OccursOnce block content) := by
  rw [passesOn_iff (trimmed_boundary_replacer_eq content old)]
  by_cases htrim : trim old = old
  · rw [if_pos htrim]
    exact iff_of_true (List.forall_mem_nil _) fun h => absurd htrim h
  · rw [if_neg htrim]
    unfold line_blocks
    split
    · exact iff_of_true (List.forall_mem_nil _) fun _ => List.forall_mem_nil _
    · simp only [List.mem_filter, decide_eq_true_eq, and_imp, ne_eq, htrim, not_false_eq_true,
        true_imp_iff]

theorem escape_normalized_passes_iff (hcontent : content ≠ []) :
    PassesOn content old false escape_normalized_replacer ↔
      (∀ block ∈ line_blocks content (unescape old), unescape block = unescape old →
        ¬ OccursOnce block content) ∧
      ((lines (unescape old)).length ≤ (lines content).length →
        (∀ block ∈ line_blocks content (unescape old), unescape block ≠ unescape old) →
        ¬ OccursOnce (unescape old) content) := by
  rw [passesOn_iff (escape_normalized_replacer_eq content old)]
  unfold line_blocks
  by_cases hfew : lines (unescape old) = [] ∨
      (lines content).length < (lines (unescape old)).length
  · rw [if_pos hfew, if_pos hfew]
    refine iff_of_true (List.forall_mem_nil _) ⟨List.forall_mem_nil _, fun hlen _ honce => ?_⟩
    obtain hnil | hlt := hfew
    · rw [lines_eq_nil.1 hnil] at honce
      exact hcontent (occursOnce_nil.1 honce)
    · omega
  · rw [if_neg hfew, if_neg hfew]
    rw [not_or, not_lt] at hfew
    generalize blocks (lines content) (lines (unescape old)).length = bs
    have hmem : ∀ s, s ∈ (bs.filter (unescape · = unescape old)).foldl push_new [] ↔
        s ∈ bs ∧ unescape s = unescape old := by
      intro s
      rw [mem_foldl_push_new, List.mem_filter, decide_eq_true_eq]
      simp
    dsimp only
    by_cases hany : ∃ block ∈ bs, unescape block = unescape old
    · -- a block agrees, so the text itself is not looked for
      have hfound : (bs.filter (unescape · = unescape old)).foldl push_new [] ≠ [] := by
        obtain ⟨block, hblock, heq⟩ := hany
        exact List.ne_nil_of_mem ((hmem block).2 ⟨hblock, heq⟩)
      rw [if_neg fun h => hfound h.1]
      simp only [hmem, and_imp]
      refine ⟨fun h => ⟨h, fun _ hno => ?_⟩, fun h => h.1⟩
      obtain ⟨block, hblock, heq⟩ := hany
      exact absurd heq (hno block hblock)
    · simp only [not_exists, not_and] at hany
      have hnil : (bs.filter (unescape · = unescape old)).foldl push_new [] = [] := by
        refine List.eq_nil_iff_forall_not_mem.2 fun s hs => ?_
        obtain ⟨hs, heq⟩ := (hmem s).1 hs
        exact hany s hs heq
      rw [hnil]
      have hall : ∀ block ∈ bs, unescape block = unescape old → ¬ OccursOnce block content :=
        fun block hblock heq => absurd heq (hany block hblock)
      by_cases hwithin : contains (unescape old) content = true
      · rw [if_pos ⟨rfl, hwithin⟩, List.forall_mem_singleton]
        exact ⟨fun h => ⟨hall, fun _ _ => h⟩, fun h => h.2 hfew.2 hany⟩
      · rw [if_neg fun h => hwithin h.2]
        refine iff_of_true (List.forall_mem_nil _) ⟨hall, fun _ _ honce => hwithin ?_⟩
        obtain ⟨i, hi, -⟩ := occursOnce_iff.1 honce
        exact Option.isSome_iff_exists.2 ⟨i, hi⟩

theorem indentation_flexible_passes_iff :
    PassesOn content old false indentation_flexible_replacer ↔
      IndentCuts old ∧ ∀ block ∈ line_blocks content old, IndentCuts block ∧
        (remove_indentation block = remove_indentation old → ¬ OccursOnce block content) := by
  rw [passesOn_iff_exists, ← remove_indentation_returns_iff old]
  unfold indentation_flexible_replacer line_blocks
  dsimp only
  cases hold : remove_indentation old with
  | error e =>
      refine iff_of_false ?_ ?_
      · rintro ⟨found, h, -⟩
        cases h
      · rintro ⟨⟨removed, h⟩, -⟩
        cases h
  | ok normalized =>
      rw [ok_bind]
      have hreturns : ∃ removed, (.ok normalized : Run Str) = .ok removed := ⟨normalized, rfl⟩
      by_cases hfew : lines old = [] ∨ (lines content).length < (lines old).length
      · rw [if_pos hfew, if_pos hfew]
        exact iff_of_true ⟨[], rfl, List.forall_mem_nil _⟩ ⟨hreturns, List.forall_mem_nil _⟩
      rw [if_neg hfew, if_neg hfew]
      rw [not_or, not_lt] at hfew
      rw [collect_blocks hfew.2 fun block => do
        let removed ← remove_indentation block
        return if removed = normalized then [block] else []]
      rw [collect_forall_iff, and_iff_right hreturns]
      refine forall₂_congr fun block _ => ?_
      -- a block is compared once its indentation is removed
      rw [← remove_indentation_returns_iff block]
      cases hblock : remove_indentation block with
      | error e =>
          refine iff_of_false ?_ ?_
          · rintro ⟨part, h, -⟩
            cases h
          · rintro ⟨⟨removed, h⟩, -⟩
            cases h
      | ok removed =>
          rw [ok_bind, and_iff_right ⟨removed, rfl⟩, Except.ok.injEq]
          by_cases heq : removed = normalized
          · rw [if_pos heq]
            constructor
            · rintro ⟨part, hpart, hall⟩ _
              refine hall block ?_
              rw [← Except.ok.inj hpart]
              exact List.mem_singleton_self _
            · exact fun h => ⟨[block], rfl, List.forall_mem_singleton.2 (h heq)⟩
          · rw [if_neg heq]
            exact iff_of_true ⟨[], rfl, List.forall_mem_nil _⟩ fun h => absurd h heq

/-! ## Blocks in the same context -/

/-- The lines of the middle that are not blank on both sides. -/
def middle_lines (block_lines find_lines : List Str) (ks : List ℕ) : List ℕ :=
  ks.filter fun k => trim (block_lines.getD k []) ≠ [] ∨ trim (find_lines.getD k []) ≠ []

theorem index_getD (ls : List Str) (k : ℕ) (hk : k < ls.length) :
    index ls k = (.ok (ls.getD k []) : Run Str) := by
  rw [List.getD_eq_getElem _ _ hk]
  exact index_of_drop (List.drop_eq_getElem_cons hk)

theorem context_counts_eq {block_lines find_lines : List Str} {ks : List ℕ}
    (h : ∀ k ∈ ks, k < block_lines.length ∧ k < find_lines.length) (matching total : ℕ) :
    context_counts block_lines find_lines ks matching total =
      .ok (matching + (middle_lines block_lines find_lines ks).countP
          (fun k => trim (block_lines.getD k []) = trim (find_lines.getD k [])),
        total + (middle_lines block_lines find_lines ks).length) := by
  induction ks generalizing matching total with
  | nil => rfl
  | cons k ks ih =>
      obtain ⟨⟨hb, hf⟩, hks⟩ := List.forall_mem_cons.1 h
      rw [context_counts, index_getD _ k hb, ok_bind, index_getD _ k hf, ok_bind]
      unfold middle_lines at ih ⊢
      by_cases hblank : trim (block_lines.getD k []) ≠ [] ∨ trim (find_lines.getD k []) ≠ []
      · rw [if_pos hblank, ih hks, List.filter_cons_of_pos (by simpa using hblank),
          List.length_cons, List.countP_cons]
        simp only [decide_eq_true_eq]
        congr 2
        · omega
        · omega
      · rw [if_neg hblank, ih hks, List.filter_cons_of_neg (by simpa using hblank)]

theorem context_block_eq {ls sl : List Str} {i j : ℕ} (hij : i ≤ j) (hj : j < ls.length) :
    context_block ls sl i j = .ok (if j + 1 - i = sl.length ∧
        (let middle := (List.range' 1 (sl.length - 1 - 1)).filter fun k =>
          trim (ls.getD (i + k) []) ≠ [] ∨ trim (sl.getD k []) ≠ []
        middle.length ≤ 2 * middle.countP fun k =>
          trim (ls.getD (i + k) []) = trim (sl.getD k []))
      then [join ['\n'] ((ls.drop i).take (j + 1 - i))] else []) := by
  have hslice : (slice ls i (j + 1) : Run (List Str)) = .ok ((ls.drop i).take (j + 1 - i)) := by
    unfold slice
    rw [if_pos ⟨by omega, by omega⟩]
  have hblock : ((ls.drop i).take (j + 1 - i)).length = j + 1 - i := by
    rw [List.length_take, List.length_drop]
    omega
  have hget : ∀ k, k < j + 1 - i →
      ((ls.drop i).take (j + 1 - i)).getD k [] = ls.getD (i + k) [] := by
    intro k hk
    rw [List.getD_eq_getElem _ _ (by omega), List.getD_eq_getElem _ _ (by omega),
      List.getElem_take, List.getElem_drop]
  unfold context_block
  rw [hslice, ok_bind, hblock]
  by_cases hlen : j + 1 - i = sl.length
  · have hmiddle : ∀ k ∈ List.range' 1 (sl.length - 1 - 1), k < sl.length := by
      intro k hk
      rw [List.mem_range'_1] at hk
      omega
    rw [if_pos hlen, checked_sub_of_le (by omega), ok_bind, hlen, context_counts_eq, ok_bind]
    · -- the lines of the block are those of the content, from line `i` on
      rw [hlen] at hget
      have hfilter : middle_lines ((ls.drop i).take sl.length) sl
          (List.range' 1 (sl.length - 1 - 1)) =
          (List.range' 1 (sl.length - 1 - 1)).filter fun k =>
            trim (ls.getD (i + k) []) ≠ [] ∨ trim (sl.getD k []) ≠ [] :=
        List.filter_congr fun k hk => by rw [hget k (hmiddle k hk)]
      have hcount : ∀ ks : List ℕ, (∀ k ∈ ks, k < sl.length) → ks.countP (fun k => decide
          (trim (((ls.drop i).take sl.length).getD k []) = trim (sl.getD k []))) =
          ks.countP fun k => decide (trim (ls.getD (i + k) []) = trim (sl.getD k [])) :=
        fun ks hks => List.countP_congr fun k hk => by rw [hget k (hks k hk)]
      rw [hfilter, hcount _ fun k hk => hmiddle k (List.mem_of_mem_filter hk)]
      generalize (List.range' 1 (sl.length - 1 - 1)).filter _ = middle
      dsimp only
      rw [Nat.zero_add, Nat.zero_add]
      congr 2
      rw [eq_iff_iff, and_iff_right rfl]
      omega
    · intro k hk
      rw [hlen] at hblock
      rw [hblock]
      exact ⟨hmiddle k hk, hmiddle k hk⟩
  · rw [if_neg hlen, if_neg fun h => hlen h.1]
    rfl

theorem context_aware_passes_iff : PassesOn content old false context_aware_replacer ↔
    (3 ≤ (lines old).length → ∀ i j, InContext (lines content) (search_lines old) i j →
      ¬ OccursOnce (join ['\n'] (((lines content).drop i).take (j + 1 - i))) content) := by
  rw [passesOn_iff_exists]
  unfold context_aware_replacer
  by_cases hthree : (lines old).length < 3
  · rw [if_pos hthree]
    exact iff_of_true ⟨[], rfl, List.forall_mem_nil _⟩ fun h => by omega
  have hlen := length_drop_last_empty (lines old)
  rw [if_neg hthree]
  dsimp only
  rw [index_getD _ 0 (by omega), ok_bind, checked_sub_of_le (by omega), ok_bind,
    index_getD _ ((drop_last_empty (lines old)).length - 1) (by omega), ok_bind, collect_forall_iff]
  change _ ↔ (3 ≤ (lines old).length → _)
  rw [forall_prop_of_true (Nat.le_of_not_lt hthree)]
  have hsearch : drop_last_empty (lines old) = search_lines old := rfl
  rw [hsearch]
  generalize search_lines old = sl
  constructor
  · intro h i j hcontext
    obtain ⟨hfirst, hclosing, hcontext⟩ := hcontext
    obtain ⟨hij, hj, -⟩ := closing_line_eq_some hclosing
    obtain ⟨part, hpart, hall⟩ := h i (List.mem_range.2 (by omega))
    rw [index_getD _ i (by omega), ok_bind, if_neg (not_not.2 hfirst), hclosing] at hpart
    dsimp only at hpart
    rw [context_block_eq (by omega) hj, if_pos hcontext] at hpart
    refine hall _ ?_
    rw [← Except.ok.inj hpart]
    exact List.mem_singleton_self _
  · intro h i hi
    rw [index_getD _ i (List.mem_range.1 hi), ok_bind]
    by_cases hfirst : trim ((lines content).getD i []) = trim (sl.getD 0 [])
    · rw [if_neg (not_not.2 hfirst)]
      cases hclosing : closing_line (lines content) i (trim (sl.getD (sl.length - 1) [])) with
      | none => exact ⟨[], rfl, List.forall_mem_nil _⟩
      | some j =>
          obtain ⟨hij, hj, -⟩ := closing_line_eq_some hclosing
          dsimp only
          rw [context_block_eq (by omega) hj]
          refine ⟨_, rfl, fun s hs => ?_⟩
          split at hs
          · next hcontext =>
            rw [List.mem_singleton.1 hs]
            exact h i j ⟨hfirst, hclosing, hcontext⟩
          · cases hs
    · rw [if_pos hfirst]
      exact ⟨[], rfl, List.forall_mem_nil _⟩

end

/-! ## Ambiguous texts -/

/-- A text that occurs several times is refused exactly if none of the texts that the
strategies take for it occurs once. -/
theorem ambiguous_refused_iff (lev : Str → Str → ℕ) (content old_string new_string : Str)
    (hne : old_string ≠ []) (hdiff : old_string ≠ new_string)
    (htwice : 2 ≤ (occurrences old_string 0 content).length) :
    (∃ message, EditTool.replace lev content old_string new_string false =
        .error (.Error message)) ↔
      NothingUnique lev content old_string := by
  have hcontent : content ≠ [] := by
    rintro rfl
    have hpos : 0 < (occurrences old_string 0 []).length := by omega
    obtain ⟨k, hk⟩ := List.exists_mem_of_length_pos hpos
    simp [occurrences, hne] at hk
  rw [ambiguous_passes_iff hne hdiff htwice]
  simp only [fuzzy_replacers, List.forall_mem_cons, List.not_mem_nil, false_imp_iff, implies_true,
    and_true]
  rw [line_trimmed_passes_iff, block_anchor_passes_iff, whitespace_normalized_passes_iff hne,
    indentation_flexible_passes_iff, escape_normalized_passes_iff hcontent,
    trimmed_boundary_passes_iff, context_aware_passes_iff]
  constructor
  · rintro ⟨h₁, h₂, h₃, h₄, h₅, h₆, h₇⟩
    exact ⟨h₁, h₂, h₃, h₄, h₅, h₆, h₇⟩
  · rintro ⟨h₁, h₂, h₃, h₄, h₅, h₆, h₇⟩
    exact ⟨h₁, h₂, h₃, h₄, h₅, h₆, h₇⟩

/-- Two occurrences, one of them alone in its line behind blanks: the line is unique. -/
theorem ambiguous_edited :
    2 ≤ (occurrences "hello".toList 0 "  hello  \nhello world".toList).length ∧
    EditTool.replace (fun _ _ => 0) "  hello  \nhello world".toList "hello".toList "hi".toList
      false = .ok "hi\nhello world".toList :=
  ⟨by decide, rfl⟩

/-- Two occurrences in one line, nothing to be mistaken for it. -/
theorem ambiguous_refused :
    ∃ message, EditTool.replace (fun _ _ => 0) "aa".toList "a".toList "b".toList false =
      .error (.Error message) := by
  refine (ambiguous_refused_iff (fun _ _ => 0) "aa".toList "a".toList "b".toList (by decide)
    (by decide) (by decide)).2 ?_
  have hblocks : line_blocks "aa".toList "a".toList = ["aa".toList] := rfl
  refine ⟨?_, ?_, ?_, ⟨?_, ?_⟩, ⟨?_, ?_⟩, ?_, ?_⟩
  · exact List.forall_mem_nil _
  · intro i j h
    cases h
  · rw [hblocks, List.forall_mem_singleton]
    exact fun h => absurd h (by decide)
  · exact (remove_indentation_returns_iff _).1 ⟨_, rfl⟩
  · rw [hblocks, List.forall_mem_singleton]
    refine ⟨(remove_indentation_returns_iff _).1 ⟨_, rfl⟩, fun h => ?_⟩
    exact absurd h (by decide)
  · exact List.forall_mem_singleton.2 fun h => absurd h (by decide)
  · exact fun _ _ => by decide
  · exact fun h => absurd rfl h
  · exact fun h => absurd h (by decide)

end Querymt.Edit
