/-
`EditRanges.lean` -- where the line-based strategies of `edit` cut.

`line_trimmed_replacer` and `block_anchor_replacer` compare lines and then compute the
offsets of what they matched: the lengths of the lines before, and one byte for every
line break. `lines` takes off one byte or two. The computed offset of a line is therefore
the offset where it starts, less one for every line before it that ends in `\r\n`, and
what is cut out lies that much too far to the front.
-/
import Querymt.Tools.Replacers

set_option autoImplicit false

open Faults Strings

namespace Querymt.Edit

/-! ## Offsets of lines -/

/-- Where line `i` starts. -/
def line_start (content : Str) (i : ℕ) : ℕ :=
  byte_len ((split_inclusive content).take i).flatten

/-- How many of the lines before line `i` end in `\r\n`. -/
def crlf_before (content : Str) (i : ℕ) : ℕ :=
  ((split_inclusive content).take i).countP fun p => line_break p = ['\r', '\n']

/-- Where line `j` ends, its line break not included. -/
def line_end (content : Str) (j : ℕ) : ℕ :=
  line_start content j + byte_len ((lines content).getD j [])

/-- From the start of line `i` to the end of line `j`. -/
def line_range (content : Str) (i j : ℕ) : ℕ × ℕ := (line_start content i, line_end content j)

/-- The offsets that are computed for these lines. -/
def cut_range (original_lines : List Str) (i j : ℕ) : ℕ × ℕ :=
  (line_offset original_lines i,
    line_offset original_lines j + byte_len (original_lines.getD j []))

/-- What is cut out at several ranges. -/
def cut_pieces (content : Str) (ranges : List (ℕ × ℕ)) : Run (List Str) :=
  collect (fun range => do
    let piece ← str_slice content range.1 range.2
    return [piece]) ranges

section

variable {content : Str} {ls : List Str} {i j : ℕ}

theorem line_offset_succ (ls : List Str) (h : i < ls.length) :
    line_offset ls (i + 1) = line_offset ls i + (byte_len (ls.getD i []) + 1) := by
  unfold line_offset
  rw [List.take_add_one, List.getElem?_eq_getElem h, List.getD_eq_getElem _ _ h, Option.toList_some,
    List.map_append, List.sum_append, List.map_singleton, List.sum_singleton]

theorem line_offset_mono (ls : List Str) (hij : i ≤ j) : line_offset ls i ≤ line_offset ls j := by
  unfold line_offset
  rw [← Nat.add_sub_cancel' hij, List.take_add, List.map_append, List.sum_append]
  exact Nat.le_add_right ..

theorem crlf_before_mono (content : Str) (hij : i ≤ j) : crlf_before content i ≤ crlf_before content j := by
  unfold crlf_before
  rw [← Nat.add_sub_cancel' hij, List.take_add, List.countP_append]
  exact Nat.le_add_right ..

/-- What closed pieces take, against what is counted for their lines. -/
theorem byte_len_flatten {ps : List Str} (h : ∀ p ∈ ps, line_break p ≠ []) :
    byte_len ps.flatten = (ps.map fun p => byte_len (strip_line_break p) + 1).sum +
      ps.countP fun p => line_break p = ['\r', '\n'] := by
  induction ps with
  | nil => rfl
  | cons p ps ih =>
      obtain ⟨hp, hps⟩ := List.forall_mem_cons.1 h
      have hlen : byte_len p = byte_len (strip_line_break p) + byte_len (line_break p) := by
        rw [← byte_len_append, strip_line_break_append]
      rw [List.flatten_cons, byte_len_append, ih hps, List.map_cons, List.sum_cons, hlen]
      obtain hnil | hlf | hcrlf := line_break_cases p
      · exact absurd hnil hp
      · have hwidth : byte_len ['\n'] = 1 := rfl
        rw [List.countP_cons_of_neg (by simp [hlf]), hlf, hwidth]
        omega
      · have hwidth : byte_len ['\r', '\n'] = 2 := rfl
        rw [List.countP_cons_of_pos (by simp [hcrlf]), hcrlf, hwidth]
        omega

/-- The pieces before a line are closed: a line stands behind them. -/
theorem closed_of_mem_take (hi : i < (lines content).length) {p : Str}
    (hp : p ∈ (split_inclusive content).take i) : line_break p ≠ [] := by
  rw [lines, List.length_map] at hi
  refine line_break_ne_nil (s := content) ?_
  rw [List.dropLast_eq_take]
  exact (List.take_subset_take_left _ (by omega)) hp

/-- The computed offset of a line falls short by the lines before it that end in two
bytes. -/
theorem line_start_eq (hi : i < (lines content).length) :
    line_start content i = line_offset (lines content) i + crlf_before content i := by
  unfold line_start crlf_before line_offset lines
  rw [byte_len_flatten fun p hp => closed_of_mem_take hi hp, ← List.map_take, List.map_map]
  rfl

theorem line_range_eq_cut_range (hij : i ≤ j) (hj : j < (lines content).length) :
    line_range content i j =
      ((cut_range (lines content) i j).1 + crlf_before content i,
        (cut_range (lines content) i j).2 + crlf_before content j) := by
  unfold line_range line_end cut_range
  rw [line_start_eq (hij.trans_lt hj), line_start_eq hj]
  simp only [Prod.mk.injEq, true_and]
  omega

/-- The lines are cut where they are exactly if none before the last of them ends in
`\r\n`. -/
theorem cut_range_eq_iff (hij : i ≤ j) (hj : j < (lines content).length) :
    cut_range (lines content) i j = line_range content i j ↔ crlf_before content j = 0 := by
  have hmono := crlf_before_mono content hij
  rw [line_range_eq_cut_range hij hj, Prod.ext_iff]
  dsimp only
  omega

theorem line_offset_add_le (ls : List Str) (hij : i ≤ j) (hj : j ≤ ls.length) :
    line_offset ls i + (j - i) ≤ line_offset ls j := by
  induction j, hij using Nat.le_induction with
  | base => omega
  | succ j hij ih =>
      have hsucc := line_offset_succ ls (i := j) (by omega)
      have := ih (by omega)
      omega

/-- Between two lines lie at least the line breaks of the lines in between. -/
theorem line_start_add_le (hij : i ≤ j) (hj : j < (lines content).length) :
    line_start content i + (j - i) + (crlf_before content j - crlf_before content i) ≤
      line_start content j := by
  have hoffset := line_offset_add_le (lines content) hij hj.le
  have hmono := crlf_before_mono content hij
  rw [line_start_eq (hij.trans_lt hj), line_start_eq hj]
  omega

theorem line_start_lt (hij : i < j) (hj : j < (lines content).length) :
    line_start content i < line_start content j := by
  have := line_start_add_le hij.le hj
  omega

end

/-! ## What the strategies cut out -/

section

variable {content : Str} {ls sl : List Str} {i k n : ℕ}

/-- `n` lines from line `i` on are, trimmed, the search lines. -/
def LinesMatch (original_lines search_lines : List Str) (i : ℕ) : Prop :=
  ((original_lines.drop i).take search_lines.length).map trim = search_lines.map trim

instance (original_lines search_lines : List Str) (i : ℕ) :
    Decidable (LinesMatch original_lines search_lines i) :=
  inferInstanceAs (Decidable (_ = _))

theorem lines_match_eq (hk : k + sl.length ≤ ls.length) :
    lines_match ls k sl = .ok (decide (LinesMatch ls sl k)) := by
  induction sl generalizing k with
  | nil => simp [lines_match, LinesMatch]
  | cons l sl ih =>
      rw [List.length_cons] at hk
      have hk' : k < ls.length := by omega
      have hdrop := List.drop_eq_getElem_cons hk'
      have hmatch : LinesMatch ls (l :: sl) k ↔ trim ls[k] = trim l ∧ LinesMatch ls sl (k + 1) := by
        unfold LinesMatch
        rw [hdrop, List.length_cons, List.take_succ_cons, List.map_cons, List.map_cons,
          List.cons.injEq]
      rw [lines_match, index_of_drop hdrop, ok_bind]
      by_cases heq : trim ls[k] = trim l
      · rw [if_neg (not_not.2 heq), ih (by omega)]
        simp [hmatch, heq]
      · rw [if_pos heq]
        simp [hmatch, heq, pure, Except.pure]

/-- The loop over the search lines ends at the end of the last line. -/
theorem match_end_eq (hn : 0 < n) (hi : i + n ≤ ls.length) :
    match_end ls i n (line_offset ls i) = .ok (cut_range ls i (i + n - 1)).2 := by
  obtain ⟨n, rfl⟩ : ∃ m, n = m + 1 := ⟨n - 1, by omega⟩
  unfold match_end
  have hindex : ∀ k, k < n + 1 → index ls (i + k) = (.ok (ls.getD (i + k) []) : Run Str) := by
    intro k hk
    rw [List.getD_eq_getElem _ _ (by omega)]
    exact index_of_drop (List.drop_eq_getElem_cons (by omega))
  -- up to the last line one byte is added for every line break
  have hfront : ∀ m ≤ n, (List.range m).foldlM (fun stop k => do
      let line ← index ls (i + k)
      let last ← checked_sub (n + 1) 1
      return stop + byte_len line + if k < last then 1 else 0) (line_offset ls i) =
      (.ok (line_offset ls (i + m)) : Run ℕ) := by
    intro m hm
    induction m with
    | zero => rfl
    | succ m ih =>
        rw [List.range_succ, List.foldlM_append, ih (by omega), ok_bind, List.foldlM_cons,
          hindex m (by omega)]
        rw [ok_bind, checked_sub_of_le (by omega), ok_bind, Nat.add_sub_cancel, if_pos (by omega)]
        have hsucc := line_offset_succ ls (i := i + m) (by omega)
        rw [← Nat.add_assoc, hsucc, ← Nat.add_assoc]
        rfl
  rw [List.range_succ, List.foldlM_append, hfront n le_rfl, ok_bind, List.foldlM_cons,
    hindex n (by omega)]
  rw [ok_bind, checked_sub_of_le (by omega), ok_bind, Nat.add_sub_cancel, if_neg (lt_irrefl n)]
  rfl

/-- The lines at which the search lines are found. -/
def trimmed_starts (original_lines search_lines : List Str) : List ℕ :=
  if search_lines = [] then []
  else (List.range (original_lines.length + 1 - search_lines.length)).filter fun i =>
    LinesMatch original_lines search_lines i

theorem mem_trimmed_starts : i ∈ trimmed_starts ls sl ↔
    sl ≠ [] ∧ i + sl.length ≤ ls.length ∧ LinesMatch ls sl i := by
  unfold trimmed_starts
  by_cases hsl : sl = []
  · simp [hsl]
  · rw [if_neg hsl, List.mem_filter, List.mem_range, decide_eq_true_iff]
    have := List.length_pos_iff.2 hsl
    constructor
    · rintro ⟨hi, hmatch⟩
      exact ⟨hsl, by omega, hmatch⟩
    · rintro ⟨-, hi, hmatch⟩
      exact ⟨by omega, hmatch⟩

/-- The search lines without the empty one at the end. -/
def search_lines (find : Str) : List Str := drop_last_empty (lines find)

/-- Where `line_trimmed_replacer` cuts. -/
def trimmed_ranges (content find : Str) : List (ℕ × ℕ) :=
  (trimmed_starts (lines content) (search_lines find)).map fun i =>
    cut_range (lines content) i (i + (search_lines find).length - 1)

theorem line_trimmed_replacer_eq (content find : Str) :
    line_trimmed_replacer content find = cut_pieces content (trimmed_ranges content find) := by
  unfold line_trimmed_replacer trimmed_ranges trimmed_starts search_lines
  dsimp only
  generalize drop_last_empty (lines find) = sl
  by_cases hsl : sl = []
  · rw [if_pos hsl, if_pos hsl]
    rfl
  · have hpos := List.length_pos_iff.2 hsl
    rw [if_neg hsl, if_neg hsl]
    by_cases hlen : (lines content).length < sl.length
    · rw [if_pos hlen, Nat.sub_eq_zero_of_le (by omega)]
      rfl
    · rw [if_neg hlen, ← Nat.sub_add_comm (by omega)]
      refine collect_filter_map fun i hi => ?_
      have hi' : i + sl.length ≤ (lines content).length := by
        have := List.mem_range.1 hi
        omega
      rw [lines_match_eq hi', ok_bind, match_end_eq hpos hi', ok_bind]
      rfl

/-- `extract_match` ends at the end of the last line as well. -/
theorem extract_range_eq {j : ℕ} (hij : i ≤ j) (hj : j < ls.length) :
    extract_range ls i j = cut_range ls i j := by
  have hloop : ((ls.zipIdx.take (j + 1)).drop i).foldl
      (fun stop line => stop + byte_len line.1 + if line.2 < j then 1 else 0) (line_offset ls i) =
        line_offset ls j + byte_len (ls.getD j []) := by
    -- from the last line to the front; the start of the sum moves along
    induction hd : j - i generalizing i with
    | zero =>
        obtain rfl : i = j := by omega
        have hlen : (ls.zipIdx.take (i + 1)).length = i + 1 := by
          rw [List.length_take, List.length_zipIdx]
          omega
        rw [List.drop_eq_getElem_cons (by omega), List.drop_eq_nil_of_le (by omega),
          List.getElem_take, List.getElem_zipIdx, Nat.zero_add, List.foldl_cons, List.foldl_nil,
          if_neg (lt_irrefl i), List.getD_eq_getElem _ _ hj]
        rfl
    | succ d ih =>
        have hlen : (ls.zipIdx.take (j + 1)).length = j + 1 := by
          rw [List.length_take, List.length_zipIdx]
          omega
        have hi : i < j := by omega
        have hnext := @ih (i + 1) (by omega) (by omega)
        have hsucc := line_offset_succ ls (i := i) (by omega)
        rw [List.getD_eq_getElem _ _ (by omega)] at hsucc
        rw [List.drop_eq_getElem_cons (by omega), List.getElem_take, List.getElem_zipIdx,
          Nat.zero_add, List.foldl_cons, if_pos hi, ← hnext, hsucc, Nat.add_assoc]
  exact Prod.ext rfl hloop

end

/-! ## The lines between two anchors -/

section

variable {ls sl : List Str} {first last : Str} {i j : ℕ}

/-- The two lines are, trimmed, the anchors, with a line in between. -/
def Anchored (original_lines : List Str) (first_line_search last_line_search : Str)
    (block : ℕ × ℕ) : Prop :=
  block.1 + 2 ≤ block.2 ∧ block.2 < original_lines.length ∧
    trim (original_lines.getD block.1 []) = first_line_search ∧
    trim (original_lines.getD block.2 []) = last_line_search

theorem closing_line_eq_some (h : closing_line ls i last = some j) :
    i + 2 ≤ j ∧ j < ls.length ∧ trim (ls.getD j []) = last := by
  unfold closing_line at h
  obtain ⟨line, hline, rfl⟩ := Option.map_eq_some_iff.1 h
  have htrim : trim line.1 = last := by simpa using List.find?_some hline
  obtain ⟨k, hk, hget⟩ := List.getElem_of_mem (List.mem_of_find?_eq_some hline)
  rw [List.length_drop, List.length_zipIdx] at hk
  rw [List.getElem_drop, List.getElem_zipIdx] at hget
  subst hget
  dsimp only at htrim ⊢
  refine ⟨by omega, by omega, ?_⟩
  rw [Nat.zero_add, List.getD_eq_getElem _ _ (by omega), htrim]

theorem anchor_candidates_safe :
    Safe (anchor_candidates ls first last) fun candidates =>
      ∀ block ∈ candidates, Anchored ls first last block := by
  refine safe_collect fun i hi => ?_
  have hi' := List.mem_range.1 hi
  refine safe_bind (safe_index hi' fun line hline => ?_)
  split
  · exact safe_ok (List.forall_mem_nil _)
  · next hfirst =>
    refine safe_ok fun block hblock => ?_
    obtain ⟨j, hj, rfl⟩ := Option.map_eq_some_iff.1 (Option.mem_toList.1 hblock)
    obtain ⟨hle, hlt, hlast⟩ := closing_line_eq_some hj
    refine ⟨hle, hlt, ?_, hlast⟩
    rw [List.getD_eq_getElem?_getD, hline, Option.getD_some]
    exact not_not.1 hfirst

variable {lev : Str → Str → ℕ}

theorem add_similarity_safe {size checked : ℕ} (hsize : 0 < size) (hstop : i + size ≤ ls.length)
    {js : List ℕ} (hjs : ∀ j ∈ js, j < sl.length) (similarity : Float) :
    Safe (add_similarity lev ls sl i size checked js similarity) fun _ => True := by
  induction js generalizing similarity with
  | nil => exact safe_ok trivial
  | cons j js ih =>
      obtain ⟨hj, hjs⟩ := List.forall_mem_cons.1 hjs
      refine safe_bind (safe_checked_sub hsize ?_)
      split
      · exact safe_ok trivial
      · refine safe_bind (safe_index (by omega) fun original_line _ => ?_)
        refine safe_bind (safe_index hj fun search_line _ => ?_)
        dsimp only
        split
        · exact ih hjs _
        · exact ih hjs _

theorem calc_similarity_safe (hsl : 2 ≤ sl.length) (hij : i + 2 ≤ j) (hj : j < ls.length) :
    Safe (calc_similarity lev ls sl i j) fun _ => True := by
  unfold calc_similarity
  refine safe_bind (safe_checked_sub (by omega) ?_)
  dsimp only
  split
  · exact safe_ok trivial
  · refine safe_bind (safe_checked_sub hsl (safe_bind (safe_checked_sub (by omega) ?_)))
    split
    · exact safe_ok trivial
    · refine safe_bind (safe_checked_sub (by omega) ?_)
      refine add_similarity_safe (by omega) (by omega) (fun k hk => ?_) _
      rw [List.mem_range'_1] at hk
      omega

theorem best_match_safe (hsl : 2 ≤ sl.length) {candidates : List (ℕ × ℕ)} {best : Option (ℕ × ℕ)}
    (hbest : ∀ block, best = some block → Anchored ls first last block)
    (h : ∀ block ∈ candidates, Anchored ls first last block) (max_similarity : Float) :
    Safe (best_match lev ls sl candidates best max_similarity) fun result =>
      ∀ block, result.1 = some block → Anchored ls first last block := by
  induction candidates generalizing best max_similarity with
  | nil => exact safe_ok hbest
  | cons candidate candidates ih =>
      obtain ⟨hthis, hrest⟩ := List.forall_mem_cons.1 h
      refine safe_bind ((calc_similarity_safe hsl hthis.1 hthis.2.1).imp fun similarity _ => ?_)
      split
      · refine ih (fun block hblock => ?_) hrest _
        cases hblock
        exact hthis
      · exact ih hbest hrest _

theorem select_candidate_safe (hsl : 2 ≤ sl.length) {candidates : List (ℕ × ℕ)}
    (h : ∀ block ∈ candidates, Anchored ls first last block) :
    Safe (select_candidate lev ls sl candidates) fun selected =>
      ∀ block, selected = some block → Anchored ls first last block := by
  unfold select_candidate
  split
  · exact safe_ok fun block hblock => by cases hblock
  · next candidate =>
    have hthis := h candidate (List.mem_singleton_self _)
    refine safe_bind ((calc_similarity_safe hsl hthis.1 hthis.2.1).imp fun similarity _ => ?_)
    refine safe_ok fun block hblock => ?_
    split at hblock
    · cases hblock
      exact hthis
    · cases hblock
  · refine safe_bind ((best_match_safe hsl (fun block hblock => by cases hblock) h _).imp
      fun best hbest => ?_)
    refine safe_ok fun block hblock => ?_
    split at hblock
    · exact hbest block hblock
    · cases hblock

/-- At most the last line is dropped. -/
theorem length_drop_last_empty (ls : List Str) : ls.length ≤ (drop_last_empty ls).length + 1 := by
  unfold drop_last_empty
  split
  · rw [List.length_dropLast]
    omega
  · omega

/-- The first and the last search line, trimmed. -/
def first_line_search (find : Str) : Str := trim ((search_lines find).getD 0 [])

def last_line_search (find : Str) : Str :=
  trim ((search_lines find).getD ((search_lines find).length - 1) [])

theorem anchored_lines_safe (lev : Str → Str → ℕ) (content find : Str) :
    Safe (anchored_lines lev content find) fun selected => ∀ block, selected = some block →
      Anchored (lines content) (first_line_search find) (last_line_search find) block := by
  unfold anchored_lines
  dsimp only
  split
  · exact safe_ok fun block hblock => by cases hblock
  · next hthree =>
    have hlen := length_drop_last_empty (lines find)
    refine safe_bind (safe_index (by omega) fun first_line hfirst => ?_)
    refine safe_bind (safe_checked_sub (by omega) ?_)
    refine safe_bind (safe_index (by omega) fun last_line hlast_line => ?_)
    have hf : trim first_line = first_line_search find := by
      unfold first_line_search search_lines
      rw [List.getD_eq_getElem?_getD, hfirst, Option.getD_some]
    have hl : trim last_line = last_line_search find := by
      unfold last_line_search search_lines
      rw [List.getD_eq_getElem?_getD, hlast_line, Option.getD_some]
    rw [hf, hl]
    refine safe_bind (anchor_candidates_safe.imp fun candidates hcandidates => ?_)
    exact select_candidate_safe (by omega) hcandidates

/-- Where `block_anchor_replacer` cuts. -/
def anchored_ranges (lev : Str → Str → ℕ) (content find : Str) : List (ℕ × ℕ) :=
  ((anchored_lines lev content find).toOption.join.map fun block =>
    cut_range (lines content) block.1 block.2).toList

theorem block_anchor_replacer_eq (lev : Str → Str → ℕ) (content find : Str) :
    block_anchor_replacer lev content find =
      cut_pieces content (anchored_ranges lev content find) := by
  obtain ⟨selected, hselected, hanchored⟩ := (anchored_lines_safe lev content find).returns
  unfold block_anchor_replacer anchored_ranges
  rw [hselected, ok_bind]
  cases selected with
  | none => rfl
  | some block =>
      obtain ⟨hij, hj, -⟩ := hanchored block rfl
      unfold extract_match
      dsimp only
      rw [extract_range_eq (by omega) hj]
      -- one range is one round of the loop
      change _ = collect _ [_]
      cases hpiece : @str_slice Empty content (cut_range (lines content) block.1 block.2).1
        (cut_range (lines content) block.1 block.2).2 with
      | error e => simp [collect, hpiece]
      | ok piece => simp [collect, hpiece]

end

/-! ## The matched lines -/

/-- The range of lines that are, trimmed, the search lines. -/
def TrimmedLines (content find : Str) (range : ℕ × ℕ) : Prop :=
  ∃ i ∈ trimmed_starts (lines content) (search_lines find),
    range = line_range content i (i + (search_lines find).length - 1)

/-- From the start of a line that is, trimmed, the first search line to the end of one that
is the last search line. -/
def AnchoredLines (content find : Str) (range : ℕ × ℕ) : Prop :=
  ∃ i j, i < (lines content).length ∧ j < (lines content).length ∧
    trim ((lines content).getD i []) = first_line_search find ∧
    trim ((lines content).getD j []) = last_line_search find ∧ range = line_range content i j

section

variable {content find : Str}

/-- The first match that is not cut where its lines are cannot be cut where those of an
earlier match are: the lines in between take more than the offset falls short. -/
theorem trimmed_lines_iff :
    (∀ range ∈ trimmed_ranges content find, TrimmedLines content find range) ↔
      ∀ i ∈ trimmed_starts (lines content) (search_lines find),
        crlf_before content (i + (search_lines find).length - 1) = 0 := by
  unfold trimmed_ranges
  rw [List.forall_mem_map]
  constructor
  · intro h i
    induction i using Nat.strong_induction_on with
    | _ i ih =>
        intro hi
        obtain ⟨i', hi', heq⟩ := h i hi
        obtain ⟨hsl, hlen, -⟩ := mem_trimmed_starts.1 hi
        obtain ⟨-, hlen', -⟩ := mem_trimmed_starts.1 hi'
        have hpos := List.length_pos_iff.2 hsl
        have hstart : line_offset (lines content) i = line_start content i' := congrArg Prod.fst heq
        have hshift : line_start content i = _ := line_start_eq (by omega)
        rcases lt_trichotomy i i' with hlt | rfl | hlt
        · have : line_start content i < line_start content i' := line_start_lt hlt (by omega)
          omega
        · exact (cut_range_eq_iff (by omega) (by omega)).1 heq
        · -- the earlier match has no `\r\n` before it, so all that are counted lie in between
          have hgood := ih i' hlt hi'
          have hmono := crlf_before_mono content
            (i := i') (j := i' + (search_lines find).length - 1) (by omega)
          have hbetween : line_start content i' + (i - i') + _ ≤ line_start content i :=
            line_start_add_le hlt.le (by omega)
          omega
  · intro h i hi
    obtain ⟨hsl, hlen, -⟩ := mem_trimmed_starts.1 hi
    have hpos := List.length_pos_iff.2 hsl
    exact ⟨i, hi, (cut_range_eq_iff (by omega) (by omega)).2 (h i hi)⟩

/-- The start of line `i` and the end of line `j`, each as far to the front as lines before
it end in `\r\n`, are the start and the end of lines that are the anchors. -/
def MovedOntoAnchors (content find : Str) (i j : ℕ) : Prop :=
  ∃ i' j', i' < (lines content).length ∧ j' < (lines content).length ∧
    trim ((lines content).getD i' []) = first_line_search find ∧
    trim ((lines content).getD j' []) = last_line_search find ∧
    line_start content i = line_start content i' + crlf_before content i ∧
    line_end content j = line_end content j' + crlf_before content j

theorem anchored_lines_iff {i j : ℕ}
    (h : Anchored (lines content) (first_line_search find) (last_line_search find) (i, j)) :
    AnchoredLines content find (cut_range (lines content) i j) ↔
      crlf_before content j = 0 ∨ MovedOntoAnchors content find i j := by
  obtain ⟨hij, hj, hfirst, hlast⟩ := h
  dsimp only at hij hj hfirst hlast
  have hstart : line_start content i = _ := line_start_eq (by omega)
  have hstop := line_start_eq hj
  constructor
  · rintro ⟨i', j', hi', hj', hfirst', hlast', heq⟩
    obtain ⟨hl, hr⟩ := Prod.ext_iff.1 heq
    dsimp only [cut_range, line_range] at hl hr
    refine .inr ⟨i', j', hi', hj', hfirst', hlast', by omega, ?_⟩
    unfold line_end at hr ⊢
    omega
  · rintro (hnone | ⟨i', j', hi', hj', hfirst', hlast', hl, hr⟩)
    · exact ⟨i, j, by omega, hj, hfirst, hlast, (cut_range_eq_iff (by omega) hj).2 hnone⟩
    · refine ⟨i', j', hi', hj', hfirst', hlast', Prod.ext ?_ ?_⟩
      · dsimp only [cut_range, line_range]
        omega
      · dsimp only [cut_range, line_range]
        unfold line_end at hr ⊢
        omega

end

/-- Both strategies cut out the lines that they matched exactly if no line before the last
of a match ends in `\r\n`; or, between anchors, if the cut happens to fall on other lines
that are anchors. -/
theorem matched_lines_cut_iff (lev : Str → Str → ℕ) (content find : Str) :
    line_trimmed_replacer content find = cut_pieces content (trimmed_ranges content find) ∧
    block_anchor_replacer lev content find =
      cut_pieces content (anchored_ranges lev content find) ∧
    ((∀ range ∈ trimmed_ranges content find, TrimmedLines content find range) ∧
        (∀ range ∈ anchored_ranges lev content find, AnchoredLines content find range) ↔
      (∀ i ∈ trimmed_starts (lines content) (search_lines find),
        crlf_before content (i + (search_lines find).length - 1) = 0) ∧
      ∀ i j, anchored_lines lev content find = .ok (some (i, j)) →
        crlf_before content j = 0 ∨ MovedOntoAnchors content find i j) := by
  refine ⟨line_trimmed_replacer_eq content find, block_anchor_replacer_eq lev content find,
    and_congr trimmed_lines_iff ?_⟩
  obtain ⟨selected, hselected, hanchored⟩ := (anchored_lines_safe lev content find).returns
  unfold anchored_ranges
  rw [hselected]
  cases selected with
  | none => simp [Except.toOption]
  | some block =>
      obtain ⟨i, j⟩ := block
      simp only [Except.toOption, Option.join_some, Option.map_some, Option.toList_some,
        List.forall_mem_singleton, anchored_lines_iff (hanchored (i, j) rfl), Except.ok.injEq,
        Option.some.injEq, Prod.mk.injEq, and_imp]
      exact ⟨fun h i' j' hi hj => hi ▸ hj ▸ h, fun h => h i j rfl rfl⟩

/-- The line behind one that ends in `\r\n`: its line break is returned in its place. -/
theorem line_break_returned :
    line_trimmed_replacer "a\r\nb".toList "b".toList = .ok ["\n".toList] ∧
    ¬ ∃ i, i + (search_lines "b".toList).length ≤ (lines "a\r\nb".toList).length ∧
      LinesMatch (lines "a\r\nb".toList) (search_lines "b".toList) i ∧
      @str_slice Empty "a\r\nb".toList (line_start "a\r\nb".toList i)
        (line_end "a\r\nb".toList (i + (search_lines "b".toList).length - 1)) =
          .ok "\n".toList := by
  refine ⟨rfl, ?_⟩
  rintro ⟨i, hi, hmatch, hslice⟩
  have hi' : i ≤ 1 := by
    have hlen : (search_lines "b".toList).length = 1 := rfl
    have hlen' : (lines "a\r\nb".toList).length = 2 := rfl
    omega
  interval_cases i
  · exact absurd hmatch (by decide)
  · exact absurd hslice (by decide)

end Querymt.Edit
