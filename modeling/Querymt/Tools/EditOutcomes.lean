/-
`EditOutcomes.lean` -- what `edit` replaces, and when it refuses.

The strategies are tried in turn and the first candidate that can be used is replaced.
`chosen` is that candidate; the rest of `EditTool::replace` follows from it: which text
is replaced, that nothing else of the content changes, and which error is returned.

An ambiguous text is not refused as such. The exact strategy passes on it, and so do the
fuzzy ones unless one of their own candidates happens to be unique. And an empty line of
the content is a candidate for a blank text: replacing all of its occurrences puts the
new text everywhere.
-/
import Querymt.Tools.Replacers

set_option autoImplicit false

open Faults Strings

namespace Querymt.Edit

/-! ## The candidate that is replaced -/

/-- The candidate can be used: it occurs, or, to be replaced once, occurs once. -/
def accepted (content : Str) (replace_all : Bool) (s : Str) : Bool :=
  if replace_all then contains s content else decide (OccursOnce s content)

/-- The first candidate that can be used; later strategies are not run. -/
def chosen (content old_string : Str) (replace_all : Bool) :
    List (Str → Str → Run (List Str)) → Run (Option Str)
  | [] => .ok none
  | replacer :: rest => do
      let found ← replacer content old_string
      match found.find? (accepted content replace_all) with
      | some s => return some s
      | none => chosen content old_string replace_all rest

/-- The content with the candidate replaced. -/
def Edited (content new_string : Str) (replace_all : Bool) (s result : Str) : Prop :=
  if replace_all then result = replace s new_string content
  else ∃ p q, content = p ++ (s ++ q) ∧ result = p ++ (new_string ++ q)

section

variable {content old new : Str} {all : Bool}

theorem edited_once {s p q : Str} (hcontent : content = p ++ (s ++ q)) :
    Edited content new false s (p ++ (new ++ q)) :=
  ⟨p, q, hcontent, rfl⟩

theorem accepted_once_iff {s : Str} : accepted content false s = true ↔ OccursOnce s content :=
  decide_eq_true_iff

theorem accepted_all_iff {s : Str} : accepted content true s = true ↔ s <:+: content :=
  contains_iff

/-- In either mode the candidate has to occur. -/
theorem not_accepted_of_not_found {s : Str} (h : find s content = none) :
    accepted content all s = false := by
  refine Bool.eq_false_iff.2 fun hacc => ?_
  cases all with
  | false =>
      obtain ⟨i, hi, -⟩ := occursOnce_iff.1 (accepted_once_iff.1 hacc)
      rw [h] at hi
      cases hi
  | true =>
      have hcontains : (find s content).isSome := hacc
      rw [h] at hcontains
      cases hcontains

/-- The matches of one strategy: the first that can be used is replaced. -/
theorem try_matches_cases (content new : Str) (all found_any : Bool) (found : List Str) :
    match found.find? (accepted content all) with
    | some s => ∃ r, try_matches content new all found_any found = .ok (.Replaced r) ∧
        Edited content new all s r
    | none => ∃ any, try_matches content new all found_any found = .ok (.Continue any) := by
  induction found generalizing found_any with
  | nil => exact ⟨found_any, rfl⟩
  | cons s found ih =>
      rw [List.find?_cons, try_matches]
      cases hfind : find s content with
      | none =>
          rw [not_accepted_of_not_found hfind]
          exact ih found_any
      | some idx =>
          cases all with
          | true =>
              have hyes : accepted content true s = true := Option.isSome_iff_exists.2 ⟨idx, hfind⟩
              rw [hyes]
              exact ⟨_, rfl, rfl⟩
          | false =>
              obtain ⟨p, q, hcontent, hp⟩ := find_eq_some hfind
              obtain ⟨last, hlast⟩ := rfind_of_find hfind
              rw [hlast]
              dsimp only [unwrap, Bool.false_eq_true, if_false]
              rw [ok_bind]
              -- the first and the last occurrence are one exactly if there is only one
              by_cases heq : idx = last
              · subst heq
                have hyes : accepted content false s = true :=
                  accepted_once_iff.2 (occursOnce_iff.2 ⟨idx, hfind, hlast⟩)
                have hbefore : @str_slice Empty content 0 idx = .ok p :=
                  str_slice_eq_ok.2 ⟨[], s ++ q, hcontent, rfl, hp⟩
                have hafter : @str_slice Empty content (idx + byte_len s) (byte_len content) =
                    .ok q := by
                  refine str_slice_eq_ok.2 ⟨p ++ s, [], ?_, ?_, ?_⟩
                  · rw [hcontent, List.append_nil, List.append_assoc]
                  · rw [byte_len_append, hp]
                  · rw [hcontent, List.append_assoc]
                rw [hyes, if_pos rfl, hbefore, ok_bind, hafter]
                exact ⟨_, rfl, edited_once hcontent⟩
              · have hno : accepted content false s = false := by
                  refine Bool.eq_false_iff.2 fun hacc => heq ?_
                  obtain ⟨i, hi, hi'⟩ := occursOnce_iff.1 (accepted_once_iff.1 hacc)
                  rw [hfind] at hi
                  rw [hlast] at hi'
                  rw [Option.some.inj hi, Option.some.inj hi']
                rw [hno, if_neg heq]
                exact ih true

/-- The strategies: what is chosen is replaced, nothing chosen is an error, and a panic of
a strategy that is reached ends the run. -/
theorem try_replacers_cases (content old new : Str) (all : Bool)
    (rs : List (Str → Str → Run (List Str))) (found_any : Bool) :
    match chosen content old all rs with
    | .ok (some s) => ∃ r, try_replacers content old new all rs found_any = .ok r ∧
        Edited content new all s r
    | .ok none => ∃ message, try_replacers content old new all rs found_any =
        .error (.Error message)
    | .error _ => try_replacers content old new all rs found_any = .error .Panic := by
  induction rs generalizing found_any with
  | nil => exact ⟨_, rfl⟩
  | cons replacer rs ih =>
      rw [chosen, try_replacers]
      cases hfound : replacer content old with
      | error e => rfl
      | ok found =>
          -- both functions go on with what is found; they differ in what they return
          rw [ok_bind, ok_bind]
          have htried := try_matches_cases content new all found_any found
          cases hs : found.find? (accepted content all) with
          | none =>
              rw [hs] at htried
              obtain ⟨any, hany⟩ := htried
              rw [hany]
              exact ih any
          | some s =>
              rw [hs] at htried
              obtain ⟨r, hr, hedited⟩ := htried
              rw [hr]
              exact ⟨r, rfl, hedited⟩

/-- The strategy returns, and none of what it found can be used. -/
def PassesOn (content old_string : Str) (replace_all : Bool)
    (replacer : Str → Str → Run (List Str)) : Prop :=
  ∃ found, replacer content old_string = .ok found ∧
    ∀ s ∈ found, accepted content replace_all s = false

variable {rs : List (Str → Str → Run (List Str))}

theorem chosen_cons_of_passesOn {replacer : Str → Str → Run (List Str)}
    (h : PassesOn content old all replacer) :
    chosen content old all (replacer :: rs) = chosen content old all rs := by
  obtain ⟨found, hfound, hall⟩ := h
  have hnone : found.find? (accepted content all) = none := by
    simpa using hall
  rw [chosen, hfound, ok_bind, hnone]

theorem chosen_eq_none_iff :
    chosen content old all rs = .ok none ↔ ∀ replacer ∈ rs, PassesOn content old all replacer := by
  induction rs with
  | nil => simp [chosen]
  | cons replacer rs ih =>
      rw [List.forall_mem_cons, ← ih]
      constructor
      · intro h
        have hpass : PassesOn content old all replacer := by
          rw [chosen] at h
          obtain ⟨found, hfound, h⟩ := bind_eq_ok.1 h
          cases hs : found.find? (accepted content all) with
          | some s =>
              rw [hs] at h
              cases h
          | none => exact ⟨found, hfound, by simpa using hs⟩
        exact ⟨hpass, (chosen_cons_of_passesOn hpass) ▸ h⟩
      · rintro ⟨hpass, h⟩
        rw [chosen_cons_of_passesOn hpass, h]

theorem chosen_of_find? {replacer : Str → Str → Run (List Str)} {found : List Str} {s : Str}
    (hfound : replacer content old = .ok found)
    (hs : found.find? (accepted content all) = some s) :
    chosen content old all (replacer :: rs) = .ok (some s) := by
  rw [chosen, hfound, ok_bind, hs]
  rfl

theorem chosen_cons_eq_some {replacer : Str → Str → Run (List Str)} {s : Str}
    (h : chosen content old all (replacer :: rs) = .ok (some s)) :
    ∃ found, replacer content old = .ok found ∧
      (found.find? (accepted content all) = some s ∨
        PassesOn content old all replacer ∧ chosen content old all rs = .ok (some s)) := by
  have hthis := h
  rw [chosen] at hthis
  obtain ⟨found, hfound, hthis⟩ := bind_eq_ok.1 hthis
  refine ⟨found, hfound, ?_⟩
  cases hs : found.find? (accepted content all) with
  | some s' =>
      rw [hs] at hthis
      exact .inl (Except.ok.inj hthis)
  | none =>
      have hpass : PassesOn content old all replacer := ⟨found, hfound, by simpa using hs⟩
      exact .inr ⟨hpass, (chosen_cons_of_passesOn hpass) ▸ h⟩

/-- What is chosen is the first usable match of the first strategy that does not pass
on. -/
theorem chosen_eq_some {s : Str} (h : chosen content old all rs = .ok (some s)) :
    ∃ before replacer after found, rs = before ++ replacer :: after ∧
      (∀ r ∈ before, PassesOn content old all r) ∧ replacer content old = .ok found ∧
      found.find? (accepted content all) = some s := by
  induction rs with
  | nil => cases h
  | cons replacer rs ih =>
      obtain ⟨found, hfound, hs | ⟨hpass, h⟩⟩ := chosen_cons_eq_some h
      · exact ⟨[], replacer, rs, found, rfl, by simp, hfound, hs⟩
      · obtain ⟨before, r, after, found', rfl, hbefore, hr⟩ := ih h
        exact ⟨replacer :: before, r, after, found', rfl,
          List.forall_mem_cons.2 ⟨hpass, hbefore⟩, hr⟩

end

/-! ## The whole call -/

section

variable {lev : Str → Str → ℕ} {content old new r : Str} {all : Bool}

/-- The three ways in which a call that is not refused outright can end. -/
theorem replace_cases (hne : old ≠ []) (hdiff : old ≠ new) :
    (∃ s r, chosen content old all (replacers lev) = .ok (some s) ∧
      EditTool.replace lev content old new all = .ok r ∧ Edited content new all s r) ∨
    (chosen content old all (replacers lev) = .ok none ∧
      ∃ message, EditTool.replace lev content old new all = .error (.Error message)) ∨
    (∃ e, chosen content old all (replacers lev) = .error e ∧
      EditTool.replace lev content old new all = .error .Panic) := by
  unfold EditTool.replace
  rw [if_neg hne, if_neg hdiff]
  have hcases := try_replacers_cases content old new all (replacers lev) false
  cases hchosen : chosen content old all (replacers lev) with
  | error e =>
      rw [hchosen] at hcases
      exact .inr (.inr ⟨e, rfl, hcases⟩)
  | ok o =>
      rw [hchosen] at hcases
      cases o with
      | none => exact .inr (.inl ⟨rfl, hcases⟩)
      | some s =>
          obtain ⟨r, hr, hedited⟩ := hcases
          exact .inl ⟨s, r, rfl, hr, hedited⟩

theorem replace_eq_ok (h : EditTool.replace lev content old new all = .ok r) :
    old ≠ [] ∧ ∃ s, chosen content old all (replacers lev) = .ok (some s) ∧
      Edited content new all s r := by
  have hne : old ≠ [] := by
    intro heq
    rw [EditTool.replace, if_pos heq] at h
    cases h
  have hdiff : old ≠ new := by
    intro heq
    rw [EditTool.replace, if_neg hne, if_pos heq] at h
    cases h
  obtain ⟨s, r', hs, hr, hedited⟩ | ⟨-, message, hr⟩ | ⟨e, -, hr⟩ := replace_cases hne hdiff
  · cases h.symm.trans hr
    exact ⟨hne, s, hs, hedited⟩
  · cases h.symm.trans hr
  · cases h.symm.trans hr

/-- With two texts that are not refused outright, an error other than a panic means that
every strategy passed on. -/
theorem replace_refuses_iff (hne : old ≠ []) (hdiff : old ≠ new) :
    (∃ message, EditTool.replace lev content old new all = .error (.Error message)) ↔
      ∀ replacer ∈ replacers lev, PassesOn content old all replacer := by
  rw [← chosen_eq_none_iff]
  obtain ⟨s, r, hs, hr, -⟩ | ⟨hs, hmessage⟩ | ⟨e, hs, hr⟩ := replace_cases hne hdiff
  · rw [hs, hr]
    simp
  · exact iff_of_true hmessage hs
  · rw [hs, hr]
    simp

end

/-! ## The exact strategies -/

section

variable {content find : Str}

theorem simple_replacer_finds :
    simple_replacer content find = .ok (if contains find content then [find] else []) := rfl

/-- Whatever is found from a boundary on is the text itself, and the search gets to the
end. -/
theorem occurrences_from_finds (hfind : find ≠ []) {start : ℕ} (hstart : IsBoundary content start) :
    ∃ found, occurrences_from content find hfind start = .ok found ∧ ∀ s ∈ found, s = find := by
  induction hn : byte_len content - start using Nat.strong_induction_on generalizing start with
  | _ n ih =>
      obtain ⟨front, rest, hcontent, hfront, hrest⟩ := @str_slice_from _ _ Empty hstart
      rw [occurrences_from]
      split
      · next e he =>
        rw [hrest] at he
        cases he
      · next rest' hrest' =>
        cases hrest.symm.trans hrest'
        split
        · exact ⟨[], rfl, by simp⟩
        · next idx hidx =>
          obtain ⟨p, q, hpq, hp⟩ := find_eq_some hidx
          have hpos : byte_len find ≠ 0 := fun h => hfind (byte_len_eq_zero.1 h)
          -- behind an occurrence is a boundary again, and closer to the end
          have hnext : IsBoundary content (start + (idx + byte_len find)) := by
            refine isBoundary_iff.2 ⟨front ++ (p ++ find), q, ?_, ?_⟩
            · rw [hcontent, hpq]
              simp only [List.append_assoc]
            · rw [byte_len_append, byte_len_append, hfront, hp]
          have hlen := congrArg byte_len hcontent
          rw [hpq, byte_len_append, byte_len_append, byte_len_append, hfront, hp] at hlen
          obtain ⟨others, hothers, hall⟩ := ih _ (by omega) hnext rfl
          rw [hothers]
          exact ⟨find :: others, rfl, by simpa using hall⟩

theorem multi_occurrence_finds (content : Str) (hfind : find ≠ []) :
    ∃ found, multi_occurrence_replacer content find = .ok found ∧ ∀ s ∈ found, s = find := by
  unfold multi_occurrence_replacer
  rw [dif_neg hfind]
  exact occurrences_from_finds hfind (isBoundary_zero content)

end

/-! ## Texts that occur several times -/

/-- The strategies between the two that look for the text as it is. -/
def fuzzy_replacers (lev : Str → Str → ℕ) : List (Str → Str → Run (List Str)) :=
  [line_trimmed_replacer, block_anchor_replacer lev, whitespace_normalized_replacer,
    indentation_flexible_replacer, escape_normalized_replacer, trimmed_boundary_replacer,
    context_aware_replacer]

theorem replacers_eq (lev : Str → Str → ℕ) :
    replacers lev = simple_replacer :: (fuzzy_replacers lev ++ [multi_occurrence_replacer]) := rfl

/-- A text that occurs several times is refused exactly if every fuzzy strategy passes on:
the two exact ones do. -/
theorem ambiguous_passes_iff {lev : Str → Str → ℕ} {content old new : Str} (hne : old ≠ [])
    (hdiff : old ≠ new) (htwice : 2 ≤ (occurrences old 0 content).length) :
    (∃ message, EditTool.replace lev content old new false = .error (.Error message)) ↔
      ∀ replacer ∈ fuzzy_replacers lev, PassesOn content old false replacer := by
  have hunusable : accepted content false old = false := by
    refine Bool.eq_false_iff.2 fun hacc => ?_
    have hone : (occurrences old 0 content).length = 1 := accepted_once_iff.1 hacc
    omega
  have hsimple : PassesOn content old false simple_replacer := by
    refine ⟨_, simple_replacer_finds, fun s hs => ?_⟩
    split at hs
    · rw [List.mem_singleton.1 hs, hunusable]
    · cases hs
  have hmulti : PassesOn content old false multi_occurrence_replacer := by
    obtain ⟨found, hfound, hall⟩ := multi_occurrence_finds content hne
    exact ⟨found, hfound, fun s hs => by rw [hall s hs, hunusable]⟩
  rw [replace_refuses_iff hne hdiff, replacers_eq, List.forall_mem_cons, List.forall_mem_append,
    List.forall_mem_singleton]
  exact ⟨fun h => h.2.1, fun h => ⟨hsimple, h, hmulti⟩⟩

/-! ## One place only -/

section

variable {lev : Str → Str → ℕ} {find : Str} {found : List Str}

/-- Every loop over blocks of lines first asks whether there are enough lines. -/
theorem too_few_lines (find_lines : List Str) :
    find_lines = [] ∨ (lines []).length < find_lines.length := by
  cases find_lines with
  | nil => exact .inl rfl
  | cons l ls => exact .inr (Nat.succ_pos _)

theorem anchored_lines_nil {selected : Option (ℕ × ℕ)}
    (h : anchored_lines lev [] find = .ok selected) : selected = none := by
  unfold anchored_lines at h
  dsimp only at h
  split at h
  · cases h
    rfl
  · obtain ⟨first, -, h⟩ := bind_eq_ok.1 h
    obtain ⟨last, -, h⟩ := bind_eq_ok.1 h
    obtain ⟨last_line, -, h⟩ := bind_eq_ok.1 h
    cases h
    rfl

theorem whitespace_normalized_nil (h : whitespace_normalized_replacer [] find = .ok found) :
    found = [] := by
  unfold whitespace_normalized_replacer at h
  dsimp only at h
  split at h
  · next hmany =>
    have hfew : ¬ (lines []).length ≥ (lines find).length := by
      simp only [lines, split_inclusive, List.map_nil, List.length_nil, List.length_map] at hmany ⊢
      omega
    rw [if_neg hfew] at h
    cases h
    rfl
  · cases h
    rfl

theorem multi_occurrence_nil (hfind : find ≠ [])
    (h : multi_occurrence_replacer [] find = .ok found) : found = [] := by
  unfold multi_occurrence_replacer at h
  rw [dif_neg hfind, occurrences_from] at h
  split at h
  · cases h
  · next rest hrest =>
    split at h
    · cases h
      rfl
    · next idx hidx =>
      -- an occurrence would be longer than the text
      obtain ⟨p, q, hpq, -⟩ := find_eq_some hidx
      have hlen := byte_len_str_slice hrest
      have hpos : byte_len find ≠ 0 := fun h0 => hfind (byte_len_eq_zero.1 h0)
      rw [hpq, byte_len_append, byte_len_append, byte_len_nil] at hlen
      omega

/-- There is nothing to be found in an empty text. -/
theorem nothing_in_empty (hfind : find ≠ []) {replacer : Str → Str → Run (List Str)}
    (hmem : replacer ∈ replacers lev) (h : replacer [] find = .ok found) : found = [] := by
  simp only [replacers, List.mem_cons, List.not_mem_nil, or_false] at hmem
  obtain rfl | rfl | rfl | rfl | rfl | rfl | rfl | rfl | rfl := hmem
  · have hno : contains find [] = false := by
      refine Bool.eq_false_iff.2 fun hc => hfind ?_
      exact List.infix_nil.1 (contains_iff.1 hc)
    rw [simple_replacer_finds, hno] at h
    cases h
    rfl
  · unfold line_trimmed_replacer at h
    dsimp only at h
    obtain hnil | hlt := too_few_lines (drop_last_empty (lines find))
    · rw [if_pos hnil] at h
      cases h
      rfl
    · rw [if_pos hlt, ite_self] at h
      cases h
      rfl
  · unfold block_anchor_replacer at h
    obtain ⟨selected, hselected, h⟩ := bind_eq_ok.1 h
    rw [anchored_lines_nil hselected] at h
    cases h
    rfl
  · exact whitespace_normalized_nil h
  · unfold indentation_flexible_replacer at h
    obtain ⟨removed, -, h⟩ := bind_eq_ok.1 h
    dsimp only at h
    rw [if_pos (too_few_lines _)] at h
    cases h
    rfl
  · unfold escape_normalized_replacer at h
    dsimp only at h
    rw [if_pos (too_few_lines _)] at h
    cases h
    rfl
  · unfold trimmed_boundary_replacer at h
    dsimp only at h
    rw [if_pos (too_few_lines _), ite_self] at h
    cases h
    rfl
  · unfold context_aware_replacer at h
    split at h
    · cases h
      rfl
    · dsimp only at h
      obtain ⟨first, -, h⟩ := bind_eq_ok.1 h
      obtain ⟨last, -, h⟩ := bind_eq_ok.1 h
      obtain ⟨last_line, -, h⟩ := bind_eq_ok.1 h
      cases h
      rfl
  · exact multi_occurrence_nil hfind h

end

/-- An edit without `replace_all` changes one place, at which a candidate of a strategy
stands that occurs nowhere else; it is the text looked for if that occurs once. -/
theorem one_place_edited (lev : Str → Str → ℕ) (content old_string new_string r : Str)
    (h : EditTool.replace lev content old_string new_string false = .ok r) :
    ∃ p s q, content = p ++ (s ++ q) ∧ r = p ++ (new_string ++ q) ∧ s ≠ [] ∧
      OccursOnce s content ∧
      (∃ replacer ∈ replacers lev, ∃ found, replacer content old_string = .ok found ∧ s ∈ found) ∧
      (OccursOnce old_string content → s = old_string) := by
  obtain ⟨hne, s, hchosen, p, q, hcontent, hr⟩ := replace_eq_ok h
  obtain ⟨before, replacer, after, found, hsplit, -, hfound, hs⟩ := chosen_eq_some hchosen
  have hmem : replacer ∈ replacers lev := by
    rw [hsplit]
    simp
  have hin : s ∈ found := List.mem_of_find?_eq_some hs
  have honce : OccursOnce s content := accepted_once_iff.1 (List.find?_some hs)
  refine ⟨p, s, q, hcontent, hr, ?_, honce, ⟨replacer, hmem, found, hfound, hin⟩, fun hold => ?_⟩
  · rintro rfl
    -- the empty text occurs once in an empty content only, where nothing is found
    rw [occursOnce_nil.1 honce] at hfound
    rw [nothing_in_empty hne hmem hfound] at hin
    cases hin
  · have hcontains : contains old_string content = true := by
      obtain ⟨i, hi, -⟩ := occursOnce_iff.1 hold
      exact Option.isSome_iff_exists.2 ⟨i, hi⟩
    have hfirst : chosen content old_string false (replacers lev) = .ok (some old_string) := by
      rw [replacers_eq, chosen, simple_replacer_finds, hcontains, ok_bind]
      simp [accepted_once_iff.2 hold, pure, Except.pure]
    cases hchosen.symm.trans hfirst
    rfl

theorem one_place_edited_witness :
    ∃ p s q, "a b".toList = p ++ (s ++ q) ∧ "c b".toList = p ++ ("c".toList ++ q) ∧ s ≠ [] ∧
      OccursOnce s "a b".toList ∧
      (∃ replacer ∈ replacers fun _ _ => 0, ∃ found,
        replacer "a b".toList "a".toList = .ok found ∧ s ∈ found) ∧
      (OccursOnce "a".toList "a b".toList → s = "a".toList) :=
  one_place_edited (fun _ _ => 0) _ _ _ _ (by rfl)

end Querymt.Edit
