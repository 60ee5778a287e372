/-
`Replacers.lean` -- how `edit` finds the text that it replaces.

Models `EditTool::replace` of `edit.rs` and the nine strategies it tries in turn. Each
strategy returns the texts that it takes for the one looked for; the first of them that
can be used is replaced: in `replace_all` one that occurs, else one that occurs once.

Every index, slice and subtraction is written as the checked operation that it is, so a
run of the model ends with a panic where a run of the code does. The similarity of two
lines comes from the `strsim` crate.
-/
import Querymt.Library.Strings

set_option autoImplicit false

open Faults Strings

namespace Querymt.Edit

/-- A computation that may panic. -/
abbrev Run := Except (Fault Empty)

/-- `content.lines()`, `[i..i + n]` of them. -/
def join (sep : Str) (ls : List Str) : Str := sep.intercalate ls

/-- `join("\n")` of a range of lines. -/
def block (ls : List Str) (i n : ℕ) : Run Str := do
  let part ← slice ls i (i + n)
  return join ['\n'] part

/-! ## The strategies -/

/-- Exact match. -/
def simple_replacer (content find : Str) : Run (List Str) :=
  return if contains find content then [find] else []

/-- A last line that is empty is dropped. -/
def drop_last_empty (search_lines : List Str) : List Str :=
  if search_lines.getLast? = some [] then search_lines.dropLast else search_lines

/-- The loop over the search lines, from the original line `k` on. -/
def lines_match (original_lines : List Str) : ℕ → List Str → Run Bool
  | _, [] => .ok true
  | k, search_line :: rest => do
      let original_line ← index original_lines k
      if trim original_line ≠ trim search_line then return false
      else lines_match original_lines (k + 1) rest

/-- The offset of a line, with one byte for every line break before it. -/
def line_offset (original_lines : List Str) (i : ℕ) : ℕ :=
  ((original_lines.take i).map fun orig_line => byte_len orig_line + 1).sum

/-- The loop that computes `match_end`, over `n` search lines. -/
def match_end (original_lines : List Str) (i n match_start : ℕ) : Run ℕ :=
  (List.range n).foldlM (fun stop k => do
    let line ← index original_lines (i + k)
    let last ← checked_sub n 1
    return stop + byte_len line + if k < last then 1 else 0) match_start

def line_trimmed_replacer (content find : Str) : Run (List Str) :=
  let original_lines := lines content
  let search_lines := drop_last_empty (lines find)
  if search_lines = [] then .ok []
  else if original_lines.length < search_lines.length then .ok []
  else
    collect (fun i => do
      let is_match ← lines_match original_lines i search_lines
      if is_match then
        let match_start := line_offset original_lines i
        let stop ← match_end original_lines i search_lines.length match_start
        let piece ← str_slice content match_start stop
        return [piece]
      else return []) (List.range (original_lines.length - search_lines.length + 1))

/-- The first line from `i + 2` on that is, trimmed, the last search line. -/
def closing_line (original_lines : List Str) (i : ℕ) (last_line_search : Str) : Option ℕ :=
  ((original_lines.zipIdx.drop (i + 2)).find? fun line => trim line.1 = last_line_search).map
    Prod.snd

def anchor_candidates (original_lines : List Str) (first_line_search last_line_search : Str) :
    Run (List (ℕ × ℕ)) :=
  collect (fun i => do
    let original_line ← index original_lines i
    if trim original_line ≠ first_line_search then return []
    else return ((closing_line original_lines i last_line_search).map fun j => (i, j)).toList)
    (List.range original_lines.length)

section

-- `strsim::levenshtein`
variable (levenshtein : Str → Str → ℕ)

/-- The loop of `calc_similarity` over the lines in the middle. -/
def add_similarity (original_lines search_lines : List Str)
    (start_line actual_block_size lines_to_check : ℕ) : List ℕ → Float → Run Float
  | [], similarity => .ok similarity
  | j :: js, similarity => do
      let stop ← checked_sub actual_block_size 1
      if j ≥ stop then return similarity
      else
        let original_line ← index original_lines (start_line + j)
        let search_line ← index search_lines j
        let max_len := max (byte_len (trim original_line)) (byte_len (trim search_line))
        if max_len = 0 then
          add_similarity original_lines search_lines start_line actual_block_size lines_to_check js
            similarity
        else
          let distance := levenshtein (trim original_line) (trim search_line)
          add_similarity original_lines search_lines start_line actual_block_size lines_to_check js
            (similarity + (1.0 - Float.ofNat distance / Float.ofNat max_len) /
              Float.ofNat lines_to_check)

def calc_similarity (original_lines search_lines : List Str) (start_line end_line : ℕ) :
    Run Float := do
  let search_block_size := search_lines.length
  let distance ← checked_sub end_line start_line
  let actual_block_size := distance + 1
  if search_block_size > actual_block_size + 1 then return 0.0
  else
    let search_middle ← checked_sub search_block_size 2
    let actual_middle ← checked_sub actual_block_size 2
    let lines_to_check := min search_middle actual_middle
    if lines_to_check = 0 then return 1.0
    else
      let stop ← checked_sub search_block_size 1
      add_similarity levenshtein original_lines search_lines start_line actual_block_size
        lines_to_check (List.range' 1 (stop - 1)) 0.0

/-- The offsets that `extract_match` cuts at. -/
def extract_range (original_lines : List Str) (start_line end_line : ℕ) : ℕ × ℕ :=
  let match_start := line_offset original_lines start_line
  (match_start, ((original_lines.zipIdx.take (end_line + 1)).drop start_line).foldl
    (fun stop line => stop + byte_len line.1 + if line.2 < end_line then 1 else 0) match_start)

def extract_match (content : Str) (original_lines : List Str) (start_line end_line : ℕ) : Run Str :=
  let range := extract_range original_lines start_line end_line
  str_slice content range.1 range.2

/-- The loop over several candidates: the best so far, and its similarity. -/
def best_match (original_lines search_lines : List Str) :
    List (ℕ × ℕ) → Option (ℕ × ℕ) → Float → Run (Option (ℕ × ℕ) × Float)
  | [], best, max_similarity => .ok (best, max_similarity)
  | candidate :: candidates, best, max_similarity => do
      let similarity ← calc_similarity levenshtein original_lines search_lines candidate.1 candidate.2
      if similarity > max_similarity then
        best_match original_lines search_lines candidates (some candidate) similarity
      else best_match original_lines search_lines candidates best max_similarity

/-- The candidate whose lines are taken. -/
def select_candidate (original_lines search_lines : List Str) (candidates : List (ℕ × ℕ)) :
    Run (Option (ℕ × ℕ)) :=
  match candidates with
  | [] => .ok none
  | [candidate] => do
      let similarity ← calc_similarity levenshtein original_lines search_lines candidate.1 candidate.2
      return if similarity ≥ 0.3 then some candidate else none
  | _ => do
      let best ← best_match levenshtein original_lines search_lines candidates none (-1.0)
      return if best.2 ≥ 0.5 then best.1 else none

/-- The pair of lines between which `block_anchor_replacer` finds its match. -/
def anchored_lines (content find : Str) : Run (Option (ℕ × ℕ)) :=
  let original_lines := lines content
  if (lines find).length < 3 then .ok none
  else do
    let search_lines := drop_last_empty (lines find)
    let first_line ← index search_lines 0
    let last ← checked_sub search_lines.length 1
    let last_line ← index search_lines last
    let candidates ← anchor_candidates original_lines (trim first_line) (trim last_line)
    select_candidate levenshtein original_lines search_lines candidates

def block_anchor_replacer (content find : Str) : Run (List Str) := do
  let selected ← anchored_lines levenshtein content find
  match selected with
  | none => return []
  | some (start_line, end_line) =>
      let piece ← extract_match content (lines content) start_line end_line
      return [piece]

end

/-- `split_whitespace().collect().join(" ")`. -/
def normalize (s : Str) : Str := join [' '] ((s.splitOnP is_whitespace).filter (· ≠ []))

def whitespace_normalized_replacer (content find : Str) : Run (List Str) :=
  let normalized_find := normalize find
  let find_lines := lines find
  if find_lines.length > 1 then
    let lines := lines content
    if lines.length ≥ find_lines.length then do
      let last ← checked_sub lines.length find_lines.length
      collect (fun i => do
        let block ← block lines i find_lines.length
        return if normalize block = normalized_find then [block] else []) (List.range (last + 1))
    else .ok []
  else .ok ((lines content).filter fun line => normalize line = normalized_find)

/-- The width of the white space before the text of a line. -/
def indentation (line : Str) : Run ℕ :=
  checked_sub (byte_len line) (byte_len (line.dropWhile is_whitespace))

def remove_indentation (text : Str) : Run Str := do
  let lines := lines text
  let non_empty_lines := lines.filter fun line => trim line ≠ []
  if non_empty_lines = [] then return text
  else
    let indents ← collect (fun line => do
      let indent ← indentation line
      return [indent]) non_empty_lines
    let min_indent := indents.min?.getD 0
    let cut ← collect (fun line =>
      if trim line = [] then return [line]
      else do
        let piece ← str_slice line (min min_indent (byte_len line)) (byte_len line)
        return [piece]) lines
    return join ['\n'] cut

def indentation_flexible_replacer (content find : Str) : Run (List Str) := do
  let normalized_find ← remove_indentation find
  let content_lines := lines content
  let find_lines := lines find
  if find_lines = [] ∨ content_lines.length < find_lines.length then return []
  else
    collect (fun i => do
      let block ← block content_lines i find_lines.length
      let removed ← remove_indentation block
      return if removed = normalized_find then [block] else [])
      (List.range (content_lines.length - find_lines.length + 1))

def unescape (s : Str) : Str :=
  let s := replace ['\\', 'n'] ['\n'] s
  let s := replace ['\\', 't'] ['\t'] s
  let s := replace ['\\', 'r'] ['\r'] s
  let s := replace ['\\', '\''] ['\''] s
  let s := replace ['\\', '"'] ['"'] s
  let s := replace ['\\', '\x60'] ['\x60'] s
  let s := replace ['\\', '\\'] ['\\'] s
  replace ['\\', '$'] ['$'] s

/-- `if !matches.contains(&block) { matches.push(block) }`. -/
def push_new (found : List Str) (block : Str) : List Str :=
  if found.contains block then found else found ++ [block]

def escape_normalized_replacer (content find : Str) : Run (List Str) :=
  let unescaped_find := unescape find
  let lines := lines content
  let find_lines := Strings.lines unescaped_find
  if find_lines = [] ∨ lines.length < find_lines.length then .ok []
  else do
    let blocks ← collect (fun i => do
      let block ← block lines i find_lines.length
      return if unescape block = unescaped_find then [block] else [])
      (List.range (lines.length - find_lines.length + 1))
    let found := blocks.foldl push_new []
    return if found = [] ∧ contains unescaped_find content then [unescaped_find] else found

def trimmed_boundary_replacer (content find : Str) : Run (List Str) :=
  let trimmed_find := trim find
  if trimmed_find = find then .ok []
  else
    let lines := lines content
    let find_lines := Strings.lines find
    if find_lines = [] ∨ lines.length < find_lines.length then .ok []
    else
      collect (fun i => do
        let block ← block lines i find_lines.length
        return if trim block = trimmed_find then [block] else [])
        (List.range (lines.length - find_lines.length + 1))

/-- The loop over the lines in the middle: how many of them agree, and how many are not
empty on both sides. -/
def context_counts (block_lines find_lines : List Str) : List ℕ → ℕ → ℕ → Run (ℕ × ℕ)
  | [], matching_lines, total_non_empty => .ok (matching_lines, total_non_empty)
  | k :: ks, matching_lines, total_non_empty => do
      let block_line ← index block_lines k
      let find_line ← index find_lines k
      if trim block_line ≠ [] ∨ trim find_line ≠ [] then
        context_counts block_lines find_lines ks
          (matching_lines + if trim block_line = trim find_line then 1 else 0) (total_non_empty + 1)
      else context_counts block_lines find_lines ks matching_lines total_non_empty

/-- The block between two lines, if at least half of its lines agree. The comparison
`matching / total >= 0.5` of floats is exact for counts of lines. -/
def context_block (content_lines find_lines : List Str) (i j : ℕ) : Run (List Str) := do
  let block_lines ← slice content_lines i (j + 1)
  if block_lines.length = find_lines.length then
    let stop ← checked_sub block_lines.length 1
    let counts ← context_counts block_lines find_lines (List.range' 1 (stop - 1)) 0 0
    return if counts.2 = 0 ∨ counts.2 ≤ 2 * counts.1 then [join ['\n'] block_lines] else []
  else return []

def context_aware_replacer (content find : Str) : Run (List Str) :=
  if (lines find).length < 3 then .ok []
  else do
    let find_lines := drop_last_empty (lines find)
    let content_lines := lines content
    let first_line ← index find_lines 0
    let last ← checked_sub find_lines.length 1
    let last_line ← index find_lines last
    collect (fun i => do
      let content_line ← index content_lines i
      if trim content_line ≠ trim first_line then return []
      else
        match closing_line content_lines i (trim last_line) with
        | none => return []
        | some j => context_block content_lines find_lines i j)
      (List.range content_lines.length)

/-- The loop over the rest of the content. -/
def occurrences_from (content find : Str) (hfind : find ≠ []) (start : ℕ) : Run (List Str) :=
  match _hrest : str_slice content start (byte_len content) with
  | .error e => .error e
  | .ok rest =>
      match _hidx : Strings.find find rest with
      | none => .ok []
      | some idx => do
          let others ← occurrences_from content find hfind (start + (idx + byte_len find))
          return find :: others
termination_by byte_len content - start
decreasing_by
  obtain ⟨p, q, rfl, hp⟩ := find_eq_some _hidx
  have hlen := byte_len_str_slice _hrest
  have hpos : byte_len find ≠ 0 := fun h => hfind (byte_len_eq_zero.1 h)
  rw [byte_len_append, byte_len_append] at hlen
  omega

/-- An empty text is found at the same place again and again, until the memory for what is
found is used up. -/
def multi_occurrence_replacer (content find : Str) : Run (List Str) :=
  if hfind : find = [] then .error .Panic else occurrences_from content find hfind 0

/-! ## Replacing -/

section

variable (levenshtein : Str → Str → ℕ)

def replacers : List (Str → Str → Run (List Str)) :=
  [simple_replacer, line_trimmed_replacer, block_anchor_replacer levenshtein,
    whitespace_normalized_replacer, indentation_flexible_replacer, escape_normalized_replacer,
    trimmed_boundary_replacer, context_aware_replacer, multi_occurrence_replacer]

/-- How the loop over the matches of a strategy ends: with the edited content, or without;
then it says whether any match was found so far. -/
inductive Tried
  | Replaced (content : Str)
  | Continue (found_any : Bool)
  deriving DecidableEq, Repr

/-- The loop over the matches of a strategy. -/
def try_matches (content new_string : Str) (replace_all : Bool) :
    Bool → List Str → Run Tried
  | found_any, [] => .ok (.Continue found_any)
  | found_any, search :: searches =>
      match find search content with
      | none => try_matches content new_string replace_all found_any searches
      | some idx =>
          if replace_all then .ok (.Replaced (replace search new_string content))
          else do
            let last_idx ← unwrap (rfind search content)
            if idx = last_idx then
              let before ← str_slice content 0 idx
              let after ← str_slice content (idx + byte_len search) (byte_len content)
              return .Replaced (before ++ (new_string ++ after))
            else try_matches content new_string replace_all true searches

def not_found : String := "oldString not found in content"

def found_multiple_times : String :=
  "oldString found multiple times and requires more code context to uniquely identify the " ++
    "intended match. Either provide a larger string with more surrounding context to make it " ++
    "unique or use \x60replaceAll\x60 to change every instance of \x60oldString\x60."

/-- The loop over the strategies. -/
def try_replacers (content old_string new_string : Str) (replace_all : Bool) :
    List (Str → Str → Run (List Str)) → Bool → Except (Fault String) Str
  | [], found_any => .error (.Error (if found_any then found_multiple_times else not_found))
  | replacer :: rest, found_any =>
      match replacer content old_string >>= try_matches content new_string replace_all found_any with
      | .error _ => .error .Panic
      | .ok (.Replaced result) => .ok result
      | .ok (.Continue found_any) =>
          try_replacers content old_string new_string replace_all rest found_any

def EditTool.replace (content old_string new_string : Str) (replace_all : Bool) :
    Except (Fault String) Str :=
  if old_string = [] then .error (.Error "oldString cannot be empty")
  else if old_string = new_string then
    .error (.Error "oldString and newString must be different")
  else
    try_replacers content old_string new_string replace_all (replacers levenshtein) false

end

end Querymt.Edit
