/-
`SymbolSplices.lean` -- the new text of a file in `replace_symbol`.

Models `validate_no_overlaps` and `apply_replacements_to_file` of `replace_symbol.rs`.
The ranges of the symbols refer to the file as it was read; the replacements are spliced
into its bytes from the last range to the first, and after each splice the bytes have to
be UTF-8. Whether the ranges overlap is checked before, on a list sorted the other way.

Both sorts are stable, so two ranges that start at the same byte stay in the order of the
requests; if the check accepts them, the first of them is empty.
-/
import Querymt.Library.Encodings
import Querymt.Library.Faults
import Querymt.Library.Splices
import Querymt.Tools.Edits

set_option autoImplicit false

open Encodings Faults Splices

namespace Querymt.Tools

/-! ## The code -/

inductive ToolError
  | InvalidRequest (message : String)
  | ProviderError (message : String)
  deriving DecidableEq, Repr

/-- A `ResolvedReplacement` with what only the report of the tool shows. -/
structure ResolvedSymbol extends ResolvedReplacement where
  kind_str : String
  old_hash : String
  old_start_line : ℕ
  old_end_line : ℕ

structure FileResult where
  kind_str : String
  qualified_name : String
  old_hash : String
  old_start_line : ℕ
  old_end_line : ℕ
  new_start_line : ℕ
  new_end_line : ℕ
  new_hash : String

/-- `sort_by_key`. -/
def sort_by_key {β κ : Type} [LinearOrder κ] (key : β → κ) (l : List β) : List β :=
  l.insertionSort fun a b => key a ≤ key b

/-- The pairs of neighbours among the ranges of a file. -/
def validate_windows (path : String) : List (ℕ × ℕ × String) → Except ToolError Unit
  | (_, e1, n1) :: (s2, e2, n2) :: rest =>
      if e1 > s2 then
        .error (.InvalidRequest s!"Overlapping replacements for '{n1}' and '{n2}' in {path}")
      else validate_windows path ((s2, e2, n2) :: rest)
  | _ => .ok ()

def ResolvedReplacement.range (r : ResolvedReplacement) : ℕ × ℕ × String :=
  (r.start_byte, r.end_byte, r.qualified_name)

/-- The replacements of a file, in the order of the requests. -/
def of_file (resolved : List ResolvedSymbol) (path : String) : List ResolvedSymbol :=
  resolved.filter fun r => r.path = path

/-- The files one after the other. -/
def validate_files (resolved : List ResolvedSymbol) : List String → Except ToolError Unit
  | [] => .ok ()
  | path :: paths => do
      let ranges := (of_file resolved path).map fun r => r.range
      validate_windows path (sort_by_key (fun r => r.1) ranges)
      validate_files resolved paths

/-- The files come from a hash map; their order only decides which of several errors is
reported. -/
def validate_no_overlaps (resolved : List ResolvedSymbol) : Except ToolError Unit :=
  validate_files resolved (resolved.map fun r => r.path).dedup

/-- `String::from_utf8_lossy(bytes).lines().count()`; a line break is a byte of its own, and
no replacement for malformed bytes hides one. -/
def line_count (bytes : List UInt8) : ℕ :=
  bytes.count 10 + if bytes.getLast?.all (· = 10) then 0 else 1

def ResolvedReplacement.edit (r : ResolvedReplacement) : Edit UInt8 where
  start := r.start_byte
  stop := r.end_byte
  new := as_bytes r.new_text

section

variable (hash : List UInt8 → String) (utf8_error : List UInt8 → String)

/-- The body of the loop. A slice or a splice with a range outside of the bytes panics. -/
def apply_replacement (bytes : List UInt8) (r : ResolvedSymbol) :
    Except (Fault ToolError) (List UInt8 × FileResult) := do
  let _ ← slice bytes 0 r.start_byte
  let _ ← slice bytes r.start_byte r.end_byte
  let bytes := splice bytes r.edit
  if from_utf8 bytes = none then
    .error (.Error (.ProviderError ("UTF-8 error after replacement: " ++ utf8_error bytes)))
  else
    let full_before ← slice bytes 0 r.start_byte
    let new_start_line := line_count full_before + 1
    let new_text_lines := max (line_count (as_bytes r.new_text)) 1
    return (bytes,
      { kind_str := r.kind_str, qualified_name := r.qualified_name, old_hash := r.old_hash,
        old_start_line := r.old_start_line, old_end_line := r.old_end_line,
        new_start_line := new_start_line, new_end_line := new_start_line + new_text_lines - 1,
        new_hash := hash (as_bytes r.new_text) })

def apply_sorted : List ResolvedSymbol → List UInt8 →
    Except (Fault ToolError) (List UInt8 × List FileResult)
  | [], bytes => .ok (bytes, [])
  | r :: rest, bytes => do
      let applied ← apply_replacement hash utf8_error bytes r
      let others ← apply_sorted rest applied.1
      return (others.1, applied.2 :: others.2)

def apply_replacements_to_file (content : String) (replacements : List ResolvedSymbol) :
    Except (Fault ToolError) (String × List FileResult) := do
  -- bottom-up by byte offset: `std::cmp::Reverse(r.start_byte)`
  let sorted := sort_by_key (fun r => OrderDual.toDual r.start_byte) replacements
  let applied ← apply_sorted hash utf8_error sorted (as_bytes content)
  match from_utf8 applied.1 with
  | none =>
      .error (.Error (.ProviderError
        ("UTF-8 error after replacements: " ++ utf8_error applied.1)))
  | some new_content => return (new_content, applied.2)

end

/-! ## Splicing text -/

/-- `str::is_char_boundary`, the end of the text included. -/
def IsCharBoundary (s : String) (i : ℕ) : Prop :=
  ∃ a b : String, s = a ++ b ∧ (as_bytes a).length = i

/-- The range of the symbol lies in the text, on character boundaries. -/
structure ResolvedReplacement.Inside (r : ResolvedReplacement) (content : String) : Prop where
  ordered : r.start_byte ≤ r.end_byte
  start : IsCharBoundary content r.start_byte
  stop : IsCharBoundary content r.end_byte

section

/-- Of two cuts of a text the one at the smaller offset lies within the front of the
other. -/
theorem cut_within {a b a' b' : String} (h : a ++ b = a' ++ b')
    (hle : (as_bytes a).length ≤ (as_bytes a').length) : ∃ m, a' = a ++ m ∧ b = m ++ b' := by
  have hlist := congrArg String.toList h
  rw [String.toList_append, String.toList_append] at hlist
  obtain ⟨m, ha, hb⟩ | ⟨m, ha, hb⟩ := List.append_eq_append_iff.1 hlist
  · refine ⟨String.ofList m, String.toList_inj.1 ?_, String.toList_inj.1 ?_⟩
    · rw [ha, String.toList_append, String.toList_ofList]
    · rw [hb, String.toList_append, String.toList_ofList]
  · have ha' : a = a' ++ String.ofList m :=
      String.toList_inj.1 (by rw [ha, String.toList_append, String.toList_ofList])
    have hm : String.ofList m = "" := by
      rw [ha', as_bytes_append, List.length_append] at hle
      exact as_bytes_eq_nil.1 (List.length_eq_zero_iff.1 (by omega))
    have hnil : m = [] := by
      rw [← String.toList_ofList (l := m), hm]
      rfl
    rw [hnil, List.nil_append] at hb
    refine ⟨"", ?_, ?_⟩
    · rw [ha', hm, String.append_empty, String.append_empty]
    · rw [String.toList_inj.1 hb, String.empty_append]

theorem splice_text {p m z : String} {e : Edit UInt8} (hstart : (as_bytes p).length = e.start)
    (hstop : (as_bytes (p ++ m)).length = e.stop) :
    splice (as_bytes (p ++ (m ++ z))) e = as_bytes p ++ (e.new ++ as_bytes z) := by
  have htake : (as_bytes (p ++ (m ++ z))).take e.start = as_bytes p := by
    rw [as_bytes_append, ← hstart, List.take_left]
  have hdrop : (as_bytes (p ++ (m ++ z))).drop e.stop = as_bytes z := by
    rw [← String.append_assoc, as_bytes_append, ← hstop, List.drop_left]
  unfold splice
  rw [htake, hdrop]

variable (hash utf8_error : List UInt8 → String)

theorem slice_ok {bytes : List UInt8} {a b : ℕ} (hab : a ≤ b) (hb : b ≤ bytes.length) :
    @slice ToolError _ bytes a b = .ok ((bytes.drop a).take (b - a)) :=
  if_pos ⟨hab, hb⟩

/-- One replacement: the range is cut out between two characters, so what is left is text
again. -/
theorem apply_replacement_text {p m z : String} {r : ResolvedSymbol}
    (hstart : (as_bytes p).length = r.start_byte)
    (hstop : (as_bytes (p ++ m)).length = r.end_byte) :
    ∃ result, apply_replacement hash utf8_error (as_bytes (p ++ (m ++ z))) r =
      .ok (as_bytes (p ++ (r.new_text ++ z)), result) := by
  have hsplice : splice (as_bytes (p ++ (m ++ z))) r.edit = as_bytes (p ++ (r.new_text ++ z)) := by
    rw [splice_text hstart hstop, as_bytes_append, as_bytes_append]
    rfl
  have hle : r.start_byte ≤ r.end_byte := by
    rw [← hstart, ← hstop, as_bytes_append, List.length_append]
    omega
  have hlen : r.end_byte ≤ (as_bytes (p ++ (m ++ z))).length := by
    rw [← hstop, ← String.append_assoc, as_bytes_append _ z, List.length_append]
    omega
  have hnew : r.start_byte ≤ (as_bytes (p ++ (r.new_text ++ z))).length := by
    rw [← hstart, as_bytes_append, List.length_append]
    omega
  unfold apply_replacement
  rw [slice_ok (Nat.zero_le _) (hle.trans hlen), ok_bind, slice_ok hle hlen, ok_bind]
  dsimp only
  rw [hsplice, if_neg (by simp [from_utf8_as_bytes]), slice_ok (Nat.zero_le _) hnew, ok_bind]
  exact ⟨_, rfl⟩

/-- The loop, started with a front `a` of the original text that holds all the ranges,
and with anything behind it. -/
theorem apply_sorted_text {content a b q : String} {rs : List ResolvedSymbol}
    (hcontent : content = a ++ q) (hin : ∀ r ∈ rs, r.Inside content)
    (hfront : ∀ r ∈ rs, r.end_byte ≤ (as_bytes a).length)
    (habove : (rs.map fun r => r.edit).Pairwise Above) :
    ∃ text results, apply_sorted hash utf8_error rs (as_bytes (a ++ b)) =
        .ok (as_bytes text, results) ∧
      as_bytes text = (rs.map fun r => r.edit).foldl splice (as_bytes (a ++ b)) := by
  induction rs generalizing a b q with
  | nil => exact ⟨a ++ b, [], rfl, rfl⟩
  | cons r rs ih =>
      obtain ⟨hr, habove⟩ := List.pairwise_cons.1 habove
      have hinside := hin r (List.mem_cons_self ..)
      obtain ⟨p, p', hp, hstart⟩ := hinside.start
      obtain ⟨f, f', hf, hstop⟩ := hinside.stop
      -- the range cuts the front into three parts: up to it, within it, behind it
      obtain ⟨z, ha, -⟩ := cut_within (hf.symm.trans hcontent) (by
        rw [hstop]
        exact hfront r (List.mem_cons_self ..))
      obtain ⟨m, rfl, -⟩ := cut_within (hp.symm.trans hf) (by
        rw [hstart, hstop]
        exact hinside.ordered)
      have hbuffer : a ++ b = p ++ (m ++ (z ++ b)) := by
        rw [ha]
        simp only [String.append_assoc]
      obtain ⟨result, happly⟩ := apply_replacement_text hash utf8_error (z := z ++ b)
        hstart hstop
      have hsplice : splice (as_bytes (a ++ b)) r.edit =
          as_bytes (p ++ (r.new_text ++ (z ++ b))) := by
        rw [hbuffer, splice_text hstart hstop, as_bytes_append, as_bytes_append]
        rfl
      have hbelow : ∀ r' ∈ rs, r'.end_byte ≤ (as_bytes p).length := by
        intro r' hr'
        rw [hstart]
        exact (hr r'.edit (List.mem_map_of_mem hr')).stop_le
      obtain ⟨text, results, hrest, htext⟩ := ih (b := r.new_text ++ (z ++ b)) hp
        (fun r' hr' => hin r' (List.mem_cons_of_mem _ hr')) hbelow habove
      refine ⟨text, result :: results, ?_, ?_⟩
      · rw [apply_sorted, hbuffer, happly, ok_bind]
        dsimp only
        rw [hrest]
        rfl
      · rw [List.map_cons, List.foldl_cons, hsplice]
        exact htext

end

/-! ## The check and the sort -/

section

variable {β κ : Type} [LinearOrder κ] {key : β → κ}

theorem sort_by_key_perm (key : β → κ) (l : List β) : (sort_by_key key l).Perm l :=
  List.perm_insertionSort _ l

theorem pairwise_sort_by_key (key : β → κ) (l : List β) :
    (sort_by_key key l).Pairwise fun a b => key a ≤ key b := by
  have htotal : Std.Total fun a b : β => key a ≤ key b := ⟨fun a b => le_total _ _⟩
  have htrans : IsTrans β fun a b => key a ≤ key b := ⟨fun a b c => le_trans⟩
  exact List.pairwise_insertionSort _ l

end

section

variable {path : String} {resolved : List ResolvedSymbol}

/-- A range as an edit that puts nothing in. -/
def window (w : ℕ × ℕ × String) : Edit UInt8 := ⟨w.1, w.2.1, []⟩

theorem validate_windows_eq_ok {ws : List (ℕ × ℕ × String)} :
    validate_windows path ws = .ok () ↔
      (ws.map window).IsChain fun e e' => e.stop ≤ e'.start := by
  induction ws with
  | nil => exact iff_of_true rfl .nil
  | cons w ws ih =>
      cases ws with
      | nil => exact iff_of_true rfl (.singleton _)
      | cons w' ws =>
          rw [List.map_cons, List.map_cons, List.isChain_cons_cons, ← List.map_cons, ← ih]
          obtain ⟨s1, e1, n1⟩ := w
          obtain ⟨s2, e2, n2⟩ := w'
          rw [validate_windows]
          by_cases h : e1 > s2
          · simp [h, window]
          · simp [h, window, Nat.le_of_not_gt h]

theorem validate_files_eq_ok {paths : List String} :
    validate_files resolved paths = .ok () ↔
      ∀ path ∈ paths, validate_windows path
        (sort_by_key (fun r => r.1) ((of_file resolved path).map fun r => r.range)) = .ok () := by
  induction paths with
  | nil => simp [validate_files]
  | cons path paths ih =>
      rw [List.forall_mem_cons, ← ih, validate_files, bind_eq_ok]
      constructor
      · rintro ⟨⟨⟩, h, hrest⟩
        exact ⟨h, hrest⟩
      · rintro ⟨h, hrest⟩
        exact ⟨(), h, hrest⟩

theorem validate_no_overlaps_eq_ok :
    validate_no_overlaps resolved = .ok () ↔
      ∀ path, validate_windows path
        (sort_by_key (fun r => r.1) ((of_file resolved path).map fun r => r.range)) = .ok () := by
  unfold validate_no_overlaps
  rw [validate_files_eq_ok]
  constructor
  · intro h path
    by_cases hpath : path ∈ (resolved.map fun r => r.path).dedup
    · exact h path hpath
    · -- a file without replacements has nothing to check
      have hnone : of_file resolved path = [] := by
        refine List.filter_eq_nil_iff.2 fun r hr hrp => hpath ?_
        exact List.mem_dedup.2 (List.mem_map.2 ⟨r, hr, by simpa using hrp⟩)
      rw [hnone]
      rfl
  · intro h path _
    exact h path

end

/-! ## One file -/

section

variable {path content : String} {rs : List ResolvedSymbol}

theorem ResolvedReplacement.Inside.within {r : ResolvedReplacement} (h : r.Inside content) :
    r.edit.Within (as_bytes content).length := by
  refine ⟨h.ordered, ?_⟩
  obtain ⟨a, b, rfl, hstop⟩ := h.stop
  change r.end_byte ≤ _
  rw [← hstop, as_bytes_append, List.length_append]
  omega

/-- What the check establishes: no two of the ranges overlap. -/
theorem apart_of_validated (hin : ∀ r ∈ rs, r.Inside content)
    (h : validate_windows path (sort_by_key (fun r => r.1) (rs.map fun r => r.range)) = .ok ()) :
    (rs.map fun r => r.edit).Pairwise Apart := by
  have hperm := sort_by_key_perm (fun r => r.1) (rs.map fun r => r.range)
  have hwithin : ∀ e ∈ (sort_by_key (fun r => r.1) (rs.map fun r => r.range)).map window,
      e.Within (as_bytes content).length := by
    intro e he
    obtain ⟨w, hw, rfl⟩ := List.mem_map.1 he
    obtain ⟨r, hr, rfl⟩ := List.mem_map.1 (hperm.mem_iff.1 hw)
    have hr := (hin r hr).within
    exact ⟨hr.start_le_stop, hr.stop_le⟩
  have hsorted := pairwise_apart_of_chain hwithin (validate_windows_eq_ok.1 h)
  have hranges := ((hperm.map window).pairwise_iff Apart.symm).1 hsorted
  rw [List.map_map, List.pairwise_map] at hranges
  exact List.pairwise_map.2 hranges

/-- The check accepts whatever does not overlap and starts at different bytes. -/
theorem validated_of_apart (hin : ∀ r ∈ rs, r.Inside content)
    (hstart : (rs.map fun r => r.start_byte).Nodup)
    (hapart : (rs.map fun r => r.edit).Pairwise Apart) :
    validate_windows path (sort_by_key (fun r => r.1) (rs.map fun r => r.range)) = .ok () := by
  have hperm := sort_by_key_perm (fun r => r.1) (rs.map fun r => r.range)
  refine validate_windows_eq_ok.2 (chain_of_pairwise_apart (n := (as_bytes content).length)
    ?_ ?_ ?_ ?_)
  · intro e he
    obtain ⟨w, hw, rfl⟩ := List.mem_map.1 he
    obtain ⟨r, hr, rfl⟩ := List.mem_map.1 (hperm.mem_iff.1 hw)
    have hr := (hin r hr).within
    exact ⟨hr.start_le_stop, hr.stop_le⟩
  · rw [((hperm.map window).map Edit.start).nodup_iff, List.map_map, List.map_map]
    exact hstart
  · exact List.pairwise_map.2 (pairwise_sort_by_key ..)
  · refine ((hperm.map window).pairwise_iff Apart.symm).2 ?_
    rw [List.map_map, List.pairwise_map]
    have hpairs := List.pairwise_map.1 hapart
    exact hpairs

theorem apply_replacements_of_apart (hash utf8_error : List UInt8 → String)
    (hin : ∀ r ∈ rs, r.Inside content) (hstart : (rs.map fun r => r.start_byte).Nodup)
    (hapart : (rs.map fun r => r.edit).Pairwise Apart) :
    ∃ new_content results,
      apply_replacements_to_file hash utf8_error content rs = .ok (new_content, results) ∧
      as_bytes new_content = substitute (rs.map fun r => r.edit) (as_bytes content) := by
  have hperm := sort_by_key_perm (fun r : ResolvedSymbol => OrderDual.toDual r.start_byte) rs
  have hsorted := pairwise_sort_by_key (fun r : ResolvedSymbol => OrderDual.toDual r.start_byte) rs
  unfold apply_replacements_to_file
  dsimp only
  generalize sort_by_key (fun r : ResolvedSymbol => OrderDual.toDual r.start_byte) rs = sorted
    at hperm hsorted
  have hin' : ∀ r ∈ sorted, r.Inside content := fun r hr => hin r (hperm.mem_iff.1 hr)
  have hwithin : ∀ e ∈ sorted.map fun r => r.edit, e.Within (as_bytes content).length := by
    intro e he
    obtain ⟨r, hr, rfl⟩ := List.mem_map.1 he
    exact (hin' r hr).within
  have hstart' : ((sorted.map fun r => r.edit).map Edit.start).Nodup := by
    rw [List.map_map]
    exact (hperm.map _).nodup_iff.2 hstart
  have habove : (sorted.map fun r => r.edit).Pairwise Above :=
    pairwise_above hwithin hstart' (List.pairwise_map.2 hsorted)
      (((hperm.map _).pairwise_iff Apart.symm).2 hapart)
  obtain ⟨text, results, hloop, htext⟩ := apply_sorted_text hash utf8_error (b := "")
    (String.append_empty (s := content)).symm hin'
    (fun r hr => (hin' r hr).within.stop_le) habove
  rw [String.append_empty] at hloop htext
  rw [hloop, ok_bind]
  dsimp only
  rw [from_utf8_as_bytes]
  refine ⟨text, results, rfl, ?_⟩
  rw [htext, foldl_splice_eq_substitute hwithin habove]
  exact substitute_perm (hperm.map _) hstart' _

end

/-! ## Every order of the requests -/

/-- No empty range starts where another range of the same file starts. -/
def NoEmptyAtStart (resolved : List ResolvedSymbol) : Prop :=
  resolved.Pairwise fun r r' => r.path = r'.path → r.start_byte = r'.start_byte →
    r.start_byte < r.end_byte ∧ r'.start_byte < r'.end_byte

/-- Two ranges that start together and are not empty overlap. -/
theorem starts_distinct {path : String} {resolved : List ResolvedSymbol}
    (hempty : NoEmptyAtStart resolved)
    (hapart : ((of_file resolved path).map fun r => r.edit).Pairwise Apart) :
    ((of_file resolved path).map fun r => r.start_byte).Nodup := by
  have hfile : NoEmptyAtStart (of_file resolved path) := hempty.sublist List.filter_sublist
  refine List.pairwise_map.2 (((List.pairwise_map.1 hapart).and hfile).imp_of_mem ?_)
  rintro r r' hr hr' ⟨hrr', hstarts⟩ heq
  have hpath : r.path = r'.path := by
    rw [of_decide_eq_true (List.mem_filter.1 hr).2, of_decide_eq_true (List.mem_filter.1 hr').2]
  obtain ⟨hr₁, hr₂⟩ := hstarts hpath heq
  obtain hle | hle := hrr'
  · exact absurd (show r.end_byte ≤ r'.start_byte from hle) (by omega)
  · exact absurd (show r'.end_byte ≤ r.start_byte from hle) (by omega)

/-- If the check accepts the resolved requests, every file gets its content with all the
ranges replaced at once, whatever the order of the requests. -/
theorem splicing_substitutes (hash utf8_error : List UInt8 → String) (contents : String → String)
    {resolved permuted : List ResolvedSymbol} (hin : ∀ r ∈ resolved, r.Inside (contents r.path))
    (hempty : NoEmptyAtStart resolved) (hvalid : validate_no_overlaps resolved = .ok ())
    (hperm : permuted.Perm resolved) :
    validate_no_overlaps permuted = .ok () ∧
    ∀ path, ∃ new_content results,
      apply_replacements_to_file hash utf8_error (contents path) (of_file permuted path) =
        .ok (new_content, results) ∧
      as_bytes new_content =
        substitute ((of_file resolved path).map fun r => r.edit) (as_bytes (contents path)) := by
  have hfile : ∀ path, (of_file permuted path).Perm (of_file resolved path) :=
    fun path => hperm.filter _
  have hinside : ∀ path, ∀ r ∈ of_file resolved path, r.Inside (contents path) := by
    intro path r hr
    obtain ⟨hr, hpath⟩ := List.mem_filter.1 hr
    rw [← of_decide_eq_true hpath]
    exact hin r hr
  have hapart : ∀ path, ((of_file resolved path).map fun r => r.edit).Pairwise Apart :=
    fun path => apart_of_validated (hinside path) (validate_no_overlaps_eq_ok.1 hvalid path)
  have hstart := fun path => starts_distinct hempty (hapart path)
  -- all of it carries over to the other order
  have hinside' : ∀ path, ∀ r ∈ of_file permuted path, r.Inside (contents path) :=
    fun path r hr => hinside path r ((hfile path).mem_iff.1 hr)
  have hstart' : ∀ path, ((of_file permuted path).map fun r => r.start_byte).Nodup :=
    fun path => ((hfile path).map _).nodup_iff.2 (hstart path)
  have hapart' : ∀ path, ((of_file permuted path).map fun r => r.edit).Pairwise Apart :=
    fun path => (((hfile path).map _).pairwise_iff Apart.symm).2 (hapart path)
  refine ⟨validate_no_overlaps_eq_ok.2 fun path =>
    validated_of_apart (hinside' path) (hstart' path) (hapart' path), fun path => ?_⟩
  obtain ⟨new_content, results, happly, hbytes⟩ :=
    apply_replacements_of_apart hash utf8_error (hinside' path) (hstart' path) (hapart' path)
  refine ⟨new_content, results, happly, ?_⟩
  rw [hbytes]
  refine substitute_perm ((hfile path).map _) ?_ _
  rw [List.map_map]
  exact hstart' path

/-- A replacement in one file; only its range and its text matter here. -/
def symbol_at (start_byte end_byte : ℕ) (new_text : String) : ResolvedSymbol where
  path := "src/lib.rs"
  qualified_name := "f"
  start_byte := start_byte
  end_byte := end_byte
  new_text := new_text
  kind_str := "function"
  old_hash := ""
  old_start_line := 1
  old_end_line := 1

/-- Two ranges that touch, one of them with characters of two bytes, requested from the
last to the first. -/
theorem adjacent_spliced :
    ∃ new_content results,
      apply_replacements_to_file (fun _ => "") (fun _ => "") "fn é(){}fn g(){}"
        (of_file [symbol_at 9 17 "fn h(){}", symbol_at 0 9 "x"] "src/lib.rs") =
          .ok (new_content, results) ∧
      as_bytes new_content = as_bytes "xfn h(){}" := by
  have hvalid : validate_no_overlaps [symbol_at 0 9 "x", symbol_at 9 17 "fn h(){}"] = .ok () := by
    decide
  have hin : ∀ r ∈ [symbol_at 0 9 "x", symbol_at 9 17 "fn h(){}"],
      r.Inside "fn é(){}fn g(){}" := by
    have h₀ : IsCharBoundary "fn é(){}fn g(){}" 0 := ⟨"", "fn é(){}fn g(){}", by decide, by decide⟩
    have h₉ : IsCharBoundary "fn é(){}fn g(){}" 9 := ⟨"fn é(){}", "fn g(){}", by decide, by decide⟩
    have h₁₇ : IsCharBoundary "fn é(){}fn g(){}" 17 :=
      ⟨"fn é(){}fn g(){}", "", by decide, by decide⟩
    simp only [List.forall_mem_cons]
    exact ⟨⟨by decide, h₀, h₉⟩, ⟨by decide, h₉, h₁₇⟩, List.forall_mem_nil _⟩
  obtain ⟨new_content, results, happly, hbytes⟩ := (splicing_substitutes (fun _ => "") (fun _ => "")
    (fun _ => "fn é(){}fn g(){}") hin (by simp [NoEmptyAtStart, symbol_at]) hvalid
    (List.Perm.swap _ _ _)).2 "src/lib.rs"
  refine ⟨new_content, results, happly, ?_⟩
  rw [hbytes]
  decide

/-- An empty range and another that starts at the same byte are accepted, and what was
put in at the first is overwritten by the second. -/
theorem insertion_overwritten :
    validate_no_overlaps [symbol_at 5 5 "X", symbol_at 5 8 "Y"] = .ok () ∧
    (∀ r ∈ [symbol_at 5 5 "X", symbol_at 5 8 "Y"], r.Inside "abcdefgh") ∧
    (∃ results, apply_replacements_to_file (fun _ => "") (fun _ => "") "abcdefgh"
      [symbol_at 5 5 "X", symbol_at 5 8 "Y"] = .ok ("abcdeYh", results)) ∧
    substitute ([symbol_at 5 5 "X", symbol_at 5 8 "Y"].map fun r => r.edit) (as_bytes "abcdefgh") =
      as_bytes "abcdeXY" ∧
    as_bytes "abcdeYh" ≠ as_bytes "abcdeXY" := by
  have h₅ : IsCharBoundary "abcdefgh" 5 := ⟨"abcde", "fgh", by decide, by decide⟩
  have h₈ : IsCharBoundary "abcdefgh" 8 := ⟨"abcdefgh", "", by decide, by decide⟩
  refine ⟨by decide, ?_, ?_, by decide, by decide⟩
  · simp only [List.forall_mem_cons]
    exact ⟨⟨by decide, h₅, h₅⟩, ⟨by decide, h₅, h₈⟩, List.forall_mem_nil _⟩
  · obtain ⟨result, hfirst⟩ := apply_replacement_text (fun _ => "") (fun _ => "")
      (p := "abcde") (m := "") (z := "fgh") (r := symbol_at 5 5 "X")
      (by decide) (by decide)
    obtain ⟨result', hsecond⟩ := apply_replacement_text (fun _ => "") (fun _ => "")
      (p := "abcde") (m := "Xfg") (z := "h") (r := symbol_at 5 8 "Y")
      (by decide) (by decide)
    have hsort : sort_by_key (fun r => OrderDual.toDual r.start_byte)
        [symbol_at 5 5 "X", symbol_at 5 8 "Y"] = [symbol_at 5 5 "X", symbol_at 5 8 "Y"] := rfl
    have hbytes : as_bytes "abcdefgh" = as_bytes ("abcde" ++ ("" ++ "fgh")) := by decide
    have hbytes' : as_bytes ("abcde" ++ ((symbol_at 5 5 "X").new_text ++ "fgh")) =
        as_bytes ("abcde" ++ ("Xfg" ++ "h")) := by decide
    have hlast : "abcde" ++ ((symbol_at 5 8 "Y").new_text ++ "h") = "abcdeYh" := by decide
    refine ⟨[result, result'], ?_⟩
    unfold apply_replacements_to_file
    dsimp only
    rw [hsort, hbytes, apply_sorted, hfirst, ok_bind]
    dsimp only
    rw [hbytes', apply_sorted, hsecond, ok_bind]
    dsimp only
    rw [hlast, apply_sorted, ok_bind]
    simp [pure, Except.pure, from_utf8_as_bytes]

end Querymt.Tools
