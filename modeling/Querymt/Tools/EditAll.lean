/-
`EditAll.lean` -- what `edit` replaces when all occurrences are to be replaced.

A line that is blank is a candidate for a text that is blank, in whatever way. If the
first blank line of the content is empty, so is the candidate; an empty text is found
everywhere, and the new text is put between any two characters. No other strategy finds
an empty text, or it comes too late.
-/
import Querymt.Tools.EditPanics

set_option autoImplicit false

open Faults Strings

namespace Querymt.Edit

/-- The text looked for is one blank line, possibly with an empty one behind it, and the
first blank line of the content is empty. -/
def BlankMatch (content old_string : Str) : Prop :=
  (∃ l, trim l = [] ∧ (lines old_string = [l] ∨ lines old_string = [l, []])) ∧
    (lines content).find? (trim · = []) = some []

/-- Such a text that is not in the content as it is. -/
def EmptyMatch (content old_string : Str) : Prop :=
  ¬ old_string <:+: content ∧ BlankMatch content old_string

/-! ## Texts that are joined -/

section

variable {s sep : Str} {ls bs : List Str} {n : ℕ}

theorem join_eq_nil (hsep : sep ≠ []) (h : join sep ls = []) : ls = [] ∨ ls = [[]] := by
  cases ls with
  | nil => exact .inl rfl
  | cons l ls =>
      cases ls with
      | nil => exact .inr (by simpa [join, List.intercalate] using h)
      | cons l' ls =>
          have hmem : sep = [] := by
            simp only [join, List.intercalate, List.intersperse, List.flatten_cons,
              List.append_eq_nil_iff] at h
            exact h.2.1
          exact absurd hmem hsep

/-- An empty block is an empty line. -/
theorem nil_mem_blocks (hn : 0 < n) (hlen : n ≤ ls.length) (h : [] ∈ blocks ls n) :
    n = 1 ∧ [] ∈ ls := by
  obtain ⟨i, hi, hjoin⟩ := List.mem_map.1 h
  have hi' := List.mem_range.1 hi
  have htake : ((ls.drop i).take n).length = n := by
    rw [List.length_take, List.length_drop]
    omega
  obtain hnil | hone := join_eq_nil (List.cons_ne_nil _ _) hjoin
  · rw [hnil] at htake
    exact absurd htake (by simp; omega)
  · rw [hone] at htake
    refine ⟨htake.symm, ?_⟩
    have hmem : [] ∈ (ls.drop i).take n := by
      rw [hone]
      exact List.mem_singleton_self _
    exact List.mem_of_mem_drop (List.mem_of_mem_take hmem)

theorem words_eq_nil : (s.splitOnP is_whitespace).filter (· ≠ []) = [] ↔ trim s = [] := by
  rw [trim_eq_nil]
  induction s with
  | nil => simp
  | cons c s ih =>
      rw [List.splitOnP_cons_eq_if_modifyHead, List.forall_mem_cons]
      by_cases hc : is_whitespace c = true
      · rw [if_pos hc, ← ih]
        simp [hc]
      · rw [if_neg hc]
        obtain ⟨w, ws, hws⟩ := List.exists_cons_of_ne_nil (List.splitOnP_ne_nil is_whitespace s)
        rw [hws]
        simp [hc]

theorem normalize_eq_nil : normalize s = [] ↔ trim s = [] := by
  rw [← words_eq_nil]
  unfold normalize
  constructor
  · intro h
    obtain hnil | hone := join_eq_nil (List.cons_ne_nil _ _) h
    · exact hnil
    · have hmem : [] ∈ (s.splitOnP is_whitespace).filter (· ≠ []) := by
        rw [hone]
        exact List.mem_singleton_self _
      simpa using List.of_mem_filter hmem
  · intro h
    rw [h]
    rfl

end

/-! ## Which strategies find an empty text -/

section

variable {content find l : Str} {found : List Str} {lev : Str → Str → ℕ}

theorem cut_pieces_eq_ok {ranges : List (ℕ × ℕ)} (h : cut_pieces content ranges = .ok found) :
    (∀ s ∈ found, s <:+: content) ∧
      found.map byte_len = ranges.map fun range => range.2 - range.1 := by
  unfold cut_pieces at h
  induction ranges generalizing found with
  | nil =>
      cases h
      exact ⟨List.forall_mem_nil _, rfl⟩
  | cons range ranges ih =>
      rw [collect] at h
      obtain ⟨part, hpart, h⟩ := bind_eq_ok.1 h
      obtain ⟨others, hothers, h⟩ := bind_eq_ok.1 h
      obtain ⟨piece, hpiece, hpart⟩ := bind_eq_ok.1 hpart
      cases hpart
      cases h
      obtain ⟨hwithin, hlens⟩ := ih hothers
      obtain ⟨p, q, hcontent, -⟩ := str_slice_eq_ok.1 hpiece
      have hlen := byte_len_str_slice hpiece
      refine ⟨List.forall_mem_cons.2 ⟨⟨p, q, by rw [hcontent, List.append_assoc]⟩, hwithin⟩, ?_⟩
      rw [List.singleton_append, List.map_cons, List.map_cons, hlens]
      congr 1
      omega

theorem linesMatch_singleton {ls : List Str} {i : ℕ} (hi : i < ls.length) :
    LinesMatch ls [l] i ↔ trim (ls.getD i []) = trim l := by
  unfold LinesMatch
  rw [List.drop_eq_getElem_cons hi, List.length_singleton, List.take_succ_cons, List.take_zero,
    List.map_singleton, List.map_singleton, List.singleton_inj, List.getD_eq_getElem _ _ hi]

/-- What is found for one search line has the lengths of the lines that match it. -/
theorem line_trimmed_one (hl : search_lines find = [l])
    (h : line_trimmed_replacer content find = .ok found) :
    found.map byte_len = ((lines content).filter (trim · = trim l)).map byte_len := by
  rw [line_trimmed_replacer_eq] at h
  rw [(cut_pieces_eq_ok h).2]
  unfold trimmed_ranges trimmed_starts
  rw [hl, if_neg (List.cons_ne_nil _ _), List.map_map]
  generalize lines content = ls
  have hlines : ls = (List.range ls.length).map fun i => ls.getD i [] := by
    refine List.ext_getElem (by simp) fun i hi _ => ?_
    rw [List.getElem_map, List.getElem_range, List.getD_eq_getElem _ _ hi]
  -- both sides are now lists over the indices of the lines that match
  conv_rhs => rw [hlines, List.filter_map, List.map_map]
  rw [List.length_singleton, Nat.add_sub_cancel]
  have hstarts : (List.range ls.length).filter (fun i => decide (LinesMatch ls [l] i)) =
      (List.range ls.length).filter
        ((fun line => decide (trim line = trim l)) ∘ fun i => ls.getD i []) := by
    refine List.filter_congr fun i hi => ?_
    exact decide_eq_decide.2 (linesMatch_singleton (List.mem_range.1 hi))
  rw [hstarts]
  refine List.map_congr_left fun i _ => ?_
  rw [Function.comp_apply, Function.comp_apply, Nat.add_sub_cancel]
  unfold cut_range
  dsimp only
  omega

/-- More than one search line: at least the line break in between is found. -/
theorem search_lines_of_nil_mem (h : line_trimmed_replacer content find = .ok found)
    (hmem : [] ∈ found) : ∃ l, search_lines find = [l] := by
  rw [line_trimmed_replacer_eq] at h
  have hzero : 0 ∈ (trimmed_ranges content find).map fun range => range.2 - range.1 := by
    rw [← (cut_pieces_eq_ok h).2]
    exact List.mem_map.2 ⟨[], hmem, rfl⟩
  obtain ⟨range, hrange, hlen⟩ := List.mem_map.1 hzero
  obtain ⟨i, hi, rfl⟩ := List.mem_map.1 hrange
  obtain ⟨hsl, hle, -⟩ := mem_trimmed_starts.1 hi
  have hpos := List.length_pos_iff.2 hsl
  have hoffset := line_offset_add_le (lines content) (i := i)
    (j := i + (search_lines find).length - 1) (by omega) (by omega)
  unfold cut_range at hlen
  dsimp only at hlen
  exact List.length_eq_one_iff.1 (by omega)

theorem block_anchor_ne_nil (h : block_anchor_replacer lev content find = .ok found) :
    [] ∉ found := by
  intro hmem
  rw [block_anchor_replacer_eq] at h
  have hzero : 0 ∈ (anchored_ranges lev content find).map fun range => range.2 - range.1 := by
    rw [← (cut_pieces_eq_ok h).2]
    exact List.mem_map.2 ⟨[], hmem, rfl⟩
  obtain ⟨range, hrange, hlen⟩ := List.mem_map.1 hzero
  have := anchored_ranges_le range hrange
  omega

/-- A text with a line that is not blank keeps it. -/
theorem remove_indentation_ne_nil (hfind : find ≠ []) : remove_indentation find ≠ .ok [] := by
  intro h
  rw [remove_indentation_eq] at h
  split at h
  · cases h
    exact hfind rfl
  · next hblank =>
    obtain ⟨cut, hcut, h⟩ := bind_eq_ok.1 h
    have hjoin : join ['\n'] cut = [] := Except.ok.inj h
    simp only [not_forall] at hblank
    obtain ⟨line, hline, hne⟩ := hblank
    obtain ⟨parts, hparts, rfl⟩ := collect_eq_ok.1 hcut
    obtain ⟨k, hk, rfl⟩ := List.getElem_of_mem hline
    have hk' : k < parts.length := hparts.length_eq ▸ hk
    have hpart := (List.forall₂_iff_get.1 hparts).2 k hk hk'
    have hpart' : cut_line (min_indent find) (lines find)[k] = .ok parts[k] := hpart
    unfold cut_line at hpart'
    rw [if_neg hne] at hpart'
    obtain ⟨piece, hpiece, hone⟩ := bind_eq_ok.1 hpart'
    -- the rest of the line is kept, and it is not empty
    have hmem : piece ∈ parts.flatten := by
      refine List.mem_flatten.2 ⟨parts[k], List.getElem_mem _, ?_⟩
      rw [← Except.ok.inj hone]
      exact List.mem_singleton_self _
    have hle := min_indent_le hline hne
    have hlt := indent_width_lt hne
    have hlen := byte_len_str_slice hpiece
    obtain hnil | hnil := join_eq_nil (List.cons_ne_nil _ _) hjoin
    · rw [hnil] at hmem
      cases hmem
    · rw [hnil] at hmem
      rw [List.mem_singleton.1 hmem, byte_len_nil] at hlen
      omega

theorem indentation_flexible_ne_nil (hfind : find ≠ [])
    (h : indentation_flexible_replacer content find = .ok found) : [] ∉ found := by
  intro hmem
  unfold indentation_flexible_replacer at h
  obtain ⟨normalized, hnormalized, h⟩ := bind_eq_ok.1 h
  dsimp only at h
  split at h
  · cases h
    cases hmem
  · obtain ⟨i, hi, part, hpart, hin⟩ := mem_collect h hmem
    obtain ⟨block, hblock, hpart⟩ := bind_eq_ok.1 hpart
    obtain ⟨removed, hremoved, hpart⟩ := bind_eq_ok.1 hpart
    have hpart' : (if removed = normalized then [block] else []) = part := Except.ok.inj hpart
    rw [← hpart'] at hin
    split at hin
    · next heq =>
      obtain rfl := List.mem_singleton.1 hin
      -- the empty block is left as it is
      have hnil : removed = [] := (Except.ok.inj hremoved).symm
      rw [← heq, hnil] at hnormalized
      exact remove_indentation_ne_nil hfind hnormalized
    · cases hin

theorem mem_foldl_push_new {s : Str} {bs found : List Str} :
    s ∈ bs.foldl push_new found ↔ s ∈ found ∨ s ∈ bs := by
  induction bs generalizing found with
  | nil => simp
  | cons b bs ih =>
      have hpush : s ∈ push_new found b ↔ s ∈ found ∨ s = b := by
        unfold push_new
        split
        · next hin =>
          exact ⟨.inl, fun h => h.elim id fun h => h ▸ List.contains_iff_mem.1 hin⟩
        · rw [List.mem_append, List.mem_singleton]
      rw [List.foldl_cons, ih, hpush, List.mem_cons, or_assoc]

theorem escape_normalized_ne_nil (h : escape_normalized_replacer content find = .ok found) :
    [] ∉ found := by
  intro hmem
  rw [escape_normalized_replacer_eq] at h
  have hfound := Except.ok.inj h
  rw [← hfound] at hmem
  split at hmem
  · cases hmem
  · next hmany =>
    have hne : unescape find ≠ [] := by
      intro hnil
      rw [hnil] at hmany
      exact hmany (.inl rfl)
    dsimp only at hmem
    split at hmem
    · exact hne (List.mem_singleton.1 hmem).symm
    · obtain h | h := mem_foldl_push_new.1 hmem
      · cases h
      · have heq : unescape [] = unescape find := of_decide_eq_true (List.mem_filter.1 h).2
        exact hne heq.symm

theorem context_aware_ne_nil (h : context_aware_replacer content find = .ok found) :
    [] ∉ found := by
  intro hmem
  obtain ⟨block_lines, hjoin, hlen⟩ := (context_aware_safe content find).of_ok h [] hmem
  obtain hnil | hnil := join_eq_nil (List.cons_ne_nil _ _) hjoin.symm
  · rw [hnil] at hlen
    exact absurd hlen (by decide)
  · rw [hnil] at hlen
    exact absurd hlen (by decide)

end

/-! ## The candidate that is replaced everywhere -/

section

variable {content old l s : Str} {found : List Str} {lev : Str → Str → ℕ}

theorem lines_of_search_lines (h : search_lines old = [l]) :
    lines old = [l] ∨ lines old = [l, []] := by
  unfold search_lines drop_last_empty at h
  split at h
  · next hlast =>
    rw [← List.dropLast_append_getLast? _ hlast, h]
    exact .inr rfl
  · exact .inl h

/-- Where everything that is found occurs, the first of it is taken. -/
theorem find?_accepted (h : ∀ s ∈ found, s <:+: content) :
    found.find? (accepted content true) = found.head? := by
  cases found with
  | nil => rfl
  | cons s found => exact List.find?_cons_of_pos (accepted_all_iff.2 (h s (List.mem_cons_self ..)))

theorem head?_eq_some_nil {ls : List Str} (h : found.map byte_len = ls.map byte_len) :
    found.head? = some [] ↔ ls.head? = some [] := by
  have hhead := congrArg List.head? h
  rw [List.head?_map, List.head?_map] at hhead
  have hzero : ∀ o : Option Str, o = some [] ↔ o.map byte_len = some 0 := by
    intro o
    rw [Option.map_eq_some_iff]
    simp only [byte_len_eq_zero, exists_eq_right]
  rw [hzero, hzero, hhead]

/-- With one search line the empty text is taken exactly if the first line that matches is
empty. -/
theorem line_trimmed_takes_nil (hl : search_lines old = [l])
    (h : line_trimmed_replacer content old = .ok found) :
    found.find? (accepted content true) = some [] ↔
      (lines content).find? (trim · = trim l) = some [] := by
  have hpieces := h
  rw [line_trimmed_replacer_eq] at hpieces
  rw [find?_accepted (cut_pieces_eq_ok hpieces).1, head?_eq_some_nil (line_trimmed_one hl h),
    List.head?_filter]

/-- The same for one line whose white space is normalized. -/
theorem whitespace_takes_nil (hone : ¬ (lines old).length > 1)
    (h : whitespace_normalized_replacer content old = .ok found) :
    found.find? (accepted content true) = some [] ↔
      (lines content).find? (normalize · = normalize old) = some [] := by
  rw [whitespace_normalized_replacer_eq, if_neg hone] at h
  rw [← Except.ok.inj h, find?_accepted fun s hs => lines_infix (List.mem_of_mem_filter hs),
    List.head?_filter]

theorem find?_blank {ls : List Str} (h : ls.find? (normalize · = normalize old) = some []) :
    trim old = [] ∧ ls.find? (trim · = []) = some [] := by
  have hsome := List.find?_some h
  have heq : normalize [] = normalize old := of_decide_eq_true hsome
  have hnil : normalize old = [] := heq.symm
  refine ⟨normalize_eq_nil.1 hnil, ?_⟩
  rw [hnil] at h
  simpa only [normalize_eq_nil] using h

/-! ## Where an empty text is taken -/

theorem not_infix_of_passesOn (h : PassesOn content old true simple_replacer) :
    ¬ old <:+: content := by
  intro hwithin
  obtain ⟨found, hfound, hall⟩ := h
  rw [simple_replacer_finds, if_pos (contains_iff.2 hwithin)] at hfound
  have hno := hall old (by rw [← Except.ok.inj hfound]; exact List.mem_singleton_self _)
  rw [accepted_all_iff.2 hwithin] at hno
  cases hno

theorem blankMatch_of_line_trimmed (h : line_trimmed_replacer content old = .ok found)
    (hnil : found.find? (accepted content true) = some []) : BlankMatch content old := by
  obtain ⟨l, hl⟩ := search_lines_of_nil_mem h (List.mem_of_find?_eq_some hnil)
  have hfirst := (line_trimmed_takes_nil hl h).1 hnil
  have hsome := List.find?_some hfirst
  have heq : trim [] = trim l := of_decide_eq_true hsome
  have hblank : trim l = [] := heq.symm
  rw [hblank] at hfirst
  exact ⟨⟨l, hblank, lines_of_search_lines hl⟩, hfirst⟩

theorem blankMatch_of_whitespace (hne : old ≠ [])
    (h : whitespace_normalized_replacer content old = .ok found)
    (hnil : found.find? (accepted content true) = some []) : BlankMatch content old := by
  by_cases hone : (lines old).length > 1
  · -- a block of two lines is not empty
    have hmem := List.mem_of_find?_eq_some hnil
    rw [whitespace_normalized_replacer_eq, if_pos hone] at h
    rw [← Except.ok.inj h] at hmem
    split at hmem
    · next hlen =>
      have := (nil_mem_blocks (by omega) hlen (List.mem_of_mem_filter hmem)).1
      omega
    · cases hmem
  · obtain ⟨hblank, hfirst⟩ := find?_blank ((whitespace_takes_nil hone h).1 hnil)
    have hpos := List.length_pos_iff.2 fun h0 => hne (lines_eq_nil.1 h0)
    obtain ⟨l, hl⟩ : ∃ l, lines old = [l] := List.length_eq_one_iff.1 (by omega)
    have hl' : trim l = [] := trim_eq_nil_iff_lines.1 hblank l (by rw [hl]; exact .head _)
    exact ⟨⟨l, hl', .inl hl⟩, hfirst⟩

/-- An empty line that is a block for a blank text was found before. -/
theorem trimmed_boundary_ne_nil (hne : old ≠ [])
    (hpass : PassesOn content old true whitespace_normalized_replacer)
    (h : trimmed_boundary_replacer content old = .ok found) : [] ∉ found := by
  intro hmem
  rw [trimmed_boundary_replacer_eq] at h
  rw [← Except.ok.inj h] at hmem
  split at hmem
  · cases hmem
  · split at hmem
    · cases hmem
    · next hmany =>
      rw [not_or, not_lt] at hmany
      have hpos := List.length_pos_iff.2 fun h0 => hne (lines_eq_nil.1 h0)
      obtain ⟨hone, hin⟩ := nil_mem_blocks hpos hmany.2 (List.mem_of_mem_filter hmem)
      have htrim : trim [] = trim old := of_decide_eq_true (List.mem_filter.1 hmem).2
      have hnormalize : normalize [] = normalize old := (normalize_eq_nil.2 htrim.symm).symm
      obtain ⟨found, hfound, hall⟩ := hpass
      rw [whitespace_normalized_replacer_eq, if_neg (by omega)] at hfound
      have hno := hall [] (by
        rw [← Except.ok.inj hfound]
        exact List.mem_filter.2 ⟨hin, decide_eq_true hnormalize⟩)
      rw [accepted_all_iff.2 (List.nil_infix ..)] at hno
      cases hno

/-- An empty text is only ever taken for a blank one, and where the first blank line is
empty. -/
theorem emptyMatch_of_chosen (hne : old ≠ [])
    (h : chosen content old true (replacers lev) = .ok (some [])) : EmptyMatch content old := by
  unfold replacers at h
  -- either a strategy takes the empty text, or it passes on to the next
  obtain ⟨found, hfound, hnil | ⟨hsimple, h⟩⟩ := chosen_cons_eq_some h
  · have hmem := List.mem_of_find?_eq_some hnil
    rw [← Except.ok.inj hfound] at hmem
    split at hmem
    · exact absurd (List.mem_singleton.1 hmem).symm hne
    · cases hmem
  have hnot := not_infix_of_passesOn hsimple
  obtain ⟨found, hfound, hnil | ⟨-, h⟩⟩ := chosen_cons_eq_some h
  · exact ⟨hnot, blankMatch_of_line_trimmed hfound hnil⟩
  obtain ⟨found, hfound, hnil | ⟨-, h⟩⟩ := chosen_cons_eq_some h
  · exact absurd (List.mem_of_find?_eq_some hnil) (block_anchor_ne_nil hfound)
  obtain ⟨found, hfound, hnil | ⟨hwhitespace, h⟩⟩ := chosen_cons_eq_some h
  · exact ⟨hnot, blankMatch_of_whitespace hne hfound hnil⟩
  obtain ⟨found, hfound, hnil | ⟨-, h⟩⟩ := chosen_cons_eq_some h
  · exact absurd (List.mem_of_find?_eq_some hnil) (indentation_flexible_ne_nil hne hfound)
  obtain ⟨found, hfound, hnil | ⟨-, h⟩⟩ := chosen_cons_eq_some h
  · exact absurd (List.mem_of_find?_eq_some hnil) (escape_normalized_ne_nil hfound)
  obtain ⟨found, hfound, hnil | ⟨-, h⟩⟩ := chosen_cons_eq_some h
  · exact absurd (List.mem_of_find?_eq_some hnil)
      (trimmed_boundary_ne_nil hne hwhitespace hfound)
  obtain ⟨found, hfound, hnil | ⟨-, h⟩⟩ := chosen_cons_eq_some h
  · exact absurd (List.mem_of_find?_eq_some hnil) (context_aware_ne_nil hfound)
  obtain ⟨found, hfound, hnil | ⟨-, h⟩⟩ := chosen_cons_eq_some h
  · obtain ⟨found', hfound', hall⟩ := multi_occurrence_finds content hne
    cases hfound.symm.trans hfound'
    exact absurd (hall [] (List.mem_of_find?_eq_some hnil)).symm hne
  · cases h

/-- For a blank line the first strategy that compares it finds the empty line first. -/
theorem nil_of_emptyMatch (hm : EmptyMatch content old)
    (h : chosen content old true (replacers lev) = .ok (some s)) : s = [] := by
  obtain ⟨hnot, ⟨l, hblank, hl⟩, hfirst⟩ := hm
  have hcontains : contains old content = false :=
    Bool.eq_false_iff.2 fun hc => hnot (contains_iff.1 hc)
  have hsimple : simple_replacer content old = .ok [] := by
    rw [simple_replacer_finds, hcontains]
    rfl
  have hnone : ∀ {replacer : Str → Str → Run (List Str)}, replacer content old = .ok [] →
      PassesOn content old true replacer := fun h => ⟨[], h, List.forall_mem_nil _⟩
  unfold replacers at h
  rw [chosen_cons_of_passesOn (hnone hsimple)] at h
  by_cases hone : lines old = [[]]
  · -- the only search line is dropped, the next strategy for single lines finds it
    have htrimmed : line_trimmed_replacer content old = .ok [] := by
      unfold line_trimmed_replacer
      rw [hone]
      rfl
    have hanchor : block_anchor_replacer lev content old = .ok [] := by
      unfold block_anchor_replacer anchored_lines
      rw [hone]
      rfl
    rw [chosen_cons_of_passesOn (hnone htrimmed), chosen_cons_of_passesOn (hnone hanchor)] at h
    have hnormalize : normalize old = [] := by
      refine normalize_eq_nil.2 (trim_eq_nil_iff_lines.2 ?_)
      rw [hone]
      exact List.forall_mem_singleton.2 rfl
    obtain ⟨found, hfound, -⟩ := chosen_cons_eq_some h
    have htaken : found.find? (accepted content true) = some [] := by
      rw [whitespace_takes_nil (by simp [hone]) hfound, hnormalize]
      simpa only [normalize_eq_nil] using hfirst
    cases h.symm.trans (chosen_of_find? hfound htaken)
    rfl
  · have hsearch : search_lines old = [l] := by
      unfold search_lines drop_last_empty
      obtain hl | hl := hl
      · rw [hl, if_neg]
        intro hlast
        have hnil : l = [] := Option.some.inj hlast
        exact hone (hnil ▸ hl)
      · rw [hl]
        rfl
    obtain ⟨found, hfound, -⟩ := chosen_cons_eq_some h
    have htaken : found.find? (accepted content true) = some [] := by
      rw [line_trimmed_takes_nil hsearch hfound, hblank]
      exact hfirst
    cases h.symm.trans (chosen_of_find? hfound htaken)
    rfl

end

/-- One of the strategies finds the text. -/
def Candidate (lev : Str → Str → ℕ) (content old_string s : Str) : Prop :=
  ∃ replacer ∈ replacers lev, ∃ found, replacer content old_string = .ok found ∧ s ∈ found

/-- With `replace_all` all occurrences of a candidate are replaced and nothing else, unless
an empty line is matched; then still if nothing is put in and some candidate does not
occur. -/
theorem all_replaced_iff (lev : Str → Str → ℕ) (content old_string new_string r : Str)
    (h : EditTool.replace lev content old_string new_string true = .ok r) :
    (∃ s, s ≠ [] ∧ Candidate lev content old_string s ∧ r = replace s new_string content) ↔
      ¬ EmptyMatch content old_string ∨
        (new_string = [] ∧ ∃ s, s ≠ [] ∧ Candidate lev content old_string s ∧ ¬ s <:+: content) := by
  obtain ⟨hne, s, hchosen, hr⟩ := replace_eq_ok h
  have hr' : r = replace s new_string content := hr
  by_cases hm : EmptyMatch content old_string
  · obtain rfl := nil_of_emptyMatch hm hchosen
    by_cases hnew : new_string = []
    · -- erasing the empty text leaves the content, and so does erasing what does not occur
      subst hnew
      have hself : replace [] [] content = content := by simp [replace]
      have hsame : ∀ t, t ≠ [] → (r = replace t [] content ↔ ¬ t <:+: content) := by
        intro t ht
        rw [hr', hself, ← replace_nil_eq_self_iff ht]
        exact eq_comm
      constructor
      · rintro ⟨t, ht, hcandidate, heq⟩
        exact .inr ⟨rfl, t, ht, hcandidate, (hsame t ht).1 heq⟩
      · rintro (hnot | ⟨-, t, ht, hcandidate, hnot⟩)
        · exact absurd hm hnot
        · exact ⟨t, ht, hcandidate, (hsame t ht).2 hnot⟩
    · refine iff_of_false ?_ ?_
      · rintro ⟨t, ht, -, heq⟩
        exact replace_nil_ne ht hnew (hr'.symm.trans heq)
      · rintro (hnot | ⟨hnil, -⟩)
        · exact hnot hm
        · exact hnew hnil
  · obtain ⟨before, replacer, after, found, hsplit, -, hfound, hs⟩ := chosen_eq_some hchosen
    refine iff_of_true ⟨s, ?_, ⟨replacer, ?_, found, hfound, List.mem_of_find?_eq_some hs⟩, hr'⟩
      (.inl hm)
    · rintro rfl
      exact hm (emptyMatch_of_chosen hne hchosen)
    · rw [hsplit]
      simp

/-- A line of blanks is looked for, in a text with an empty line. -/
theorem inserted_everywhere :
    EditTool.replace (fun _ _ => 0) "a\n\nb".toList "   ".toList "X".toList true =
      .ok "XaX\nX\nXbX".toList ∧
    ¬ ∃ s, s ≠ [] ∧ Candidate (fun _ _ => 0) "a\n\nb".toList "   ".toList s ∧
      "XaX\nX\nXbX".toList = replace s "X".toList "a\n\nb".toList := by
  refine ⟨rfl, ?_⟩
  rintro ⟨s, hs, -, heq⟩
  have hnil : replace [] "X".toList "a\n\nb".toList = "XaX\nX\nXbX".toList := rfl
  exact replace_nil_ne hs (List.cons_ne_nil _ _) (hnil.trans heq)

theorem all_replaced_once :
    (∃ s, s ≠ [] ∧ Candidate (fun _ _ => 0) "a b a".toList "a".toList s ∧
        "c b c".toList = replace s "c".toList "a b a".toList) ↔
      ¬ EmptyMatch "a b a".toList "a".toList ∨
        ("c".toList = [] ∧ ∃ s, s ≠ [] ∧ Candidate (fun _ _ => 0) "a b a".toList "a".toList s ∧
          ¬ s <:+: "a b a".toList) :=
  all_replaced_iff (fun _ _ => 0) "a b a".toList "a".toList "c".toList "c b c".toList rfl

end Querymt.Edit
