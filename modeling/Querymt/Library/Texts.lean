/-
`Texts.lean` -- searching, trimming and cutting of texts.

Three tools of hand-written parsers, each with the law that makes it usable on a text
that was put together from parts.

`cut` searches for a tag. It finds the tag where it was put if the part before does not
contain it, provided that the tag cannot overlap itself; all tags that start with a
character they have nowhere else are of this kind (`Tag`).

`trim` drops what is blank at both ends, so blanks may be added there.

`split` cuts at a delimiter outside of quotes and brackets. What it does depends on the
state of a scanner that runs over the text from its start; `pass` is that scanner, and
it says whether a part is crossed without a cut and in which state it is left.
-/
import Mathlib

set_option autoImplicit false

namespace Texts

/-! ## Tags -/

section Tags

variable {α : Type} [DecidableEq α]

/-- The text before the first occurrence of `pat`, and the text after it. -/
def cut (pat : List α) : List α → Option (List α × List α)
  | [] => if pat = [] then some ([], []) else none
  | c :: s =>
      if pat <+: c :: s then some ([], (c :: s).drop pat.length)
      else (cut pat s).map fun r => (c :: r.1, r.2)

/-- A text whose first character occurs in it only once. -/
def Tag (pat : List α) : Prop := ∃ p ps, pat = p :: ps ∧ p ∉ ps

theorem cut_eq_none {pat s : List α} (h : ¬ pat <:+: s) : cut pat s = none := by
  induction s with
  | nil =>
      rw [cut, if_neg]
      rintro rfl
      exact h List.nil_infix
  | cons c s ih =>
      have hhead : ¬ pat <+: c :: s := fun hp => h hp.isInfix
      have htail : ¬ pat <:+: s := fun hs => h (hs.trans (List.suffix_cons c s).isInfix)
      rw [cut, if_neg hhead, ih htail, Option.map_none]

omit [DecidableEq α] in
/-- A tag that starts within `a` and ends behind it would start twice. -/
theorem Tag.prefix_append {pat a b : List α} (hpat : Tag pat) (h : pat <+: a ++ (pat ++ b))
    (ha : a ≠ []) : pat <+: a := by
  obtain ⟨p, ps, rfl, hp⟩ := hpat
  obtain hlt | hle := Nat.lt_or_ge a.length (p :: ps).length
  · exfalso
    obtain ⟨c, a, rfl⟩ := List.exists_cons_of_ne_nil ha
    obtain ⟨-, htail⟩ := List.cons_prefix_cons.1 h
    -- the first character of the second `pat` is then one of the rest of the first
    have hget : ps[a.length]? = some p := by
      have hlen : a.length < ps.length := by
        simp only [List.length_cons] at hlt
        omega
      have htail : ps <+: a ++ (p :: ps ++ b) := htail
      rw [List.prefix_iff_getElem?] at htail
      rw [List.getElem?_eq_getElem hlen, ← htail a.length hlen,
        List.getElem?_append_right (le_refl _), Nat.sub_self]
      rfl
    exact hp (List.mem_of_getElem? hget)
  · exact List.prefix_of_prefix_length_le h (List.prefix_append a _) hle

theorem cut_append {pat a b : List α} (hpat : Tag pat) (h : ¬ pat <:+: a) :
    cut pat (a ++ (pat ++ b)) = some (a, b) := by
  induction a with
  | nil =>
      obtain ⟨p, ps, rfl, -⟩ := hpat
      rw [List.nil_append, List.cons_append, cut, ← List.cons_append,
        if_pos (List.prefix_append _ _), List.drop_left]
  | cons c a ih =>
      have hhead : ¬ pat <+: c :: (a ++ (pat ++ b)) := fun hp =>
        h (hpat.prefix_append hp (List.cons_ne_nil c a)).isInfix
      have htail : ¬ pat <:+: a := fun hs => h (hs.trans (List.suffix_cons c a).isInfix)
      rw [List.cons_append, cut, if_neg hhead, ih htail]
      rfl

end Tags

section Infixes

variable {α : Type}

theorem not_infix_of_not_mem {p : α} {ps a : List α} (h : p ∉ a) : ¬ p :: ps <:+: a :=
  fun hin => h (hin.subset (List.mem_cons_self ..))

/-- A text is no part of another that it would have to reach over a foreign
character. -/
theorem infix_append_of_not_mem {pat a b : List α} {x : α} (hx : x ∉ pat) :
    pat <:+: a ++ x :: b ↔ pat <:+: a ∨ pat <:+: b := by
  constructor
  · rintro ⟨l, r, h⟩
    rw [List.append_assoc, List.append_eq_append_iff] at h
    obtain ⟨m, rfl, h⟩ | ⟨m, rfl, h⟩ := h
    · -- `pat` starts within `a`
      rw [List.append_eq_append_iff] at h
      obtain ⟨n, rfl, -⟩ | ⟨n, hn, h⟩ := h
      · exact .inl ⟨l, n, by rw [List.append_assoc]⟩
      · cases n with
        | nil =>
            rw [List.append_nil] at hn
            exact .inl ⟨l, [], by rw [List.append_nil, hn]⟩
        | cons y n =>
            rw [List.cons_append, List.cons.injEq] at h
            rw [hn, h.1] at hx
            exact absurd (List.mem_append_right m (List.mem_cons_self ..)) hx
    · cases m with
      | nil =>
          cases pat with
          | nil => exact .inl List.nil_infix
          | cons p pat =>
              rw [List.nil_append, List.cons_append, List.cons.injEq] at h
              rw [← h.1] at hx
              exact absurd (List.mem_cons_self ..) hx
      | cons y m =>
          rw [List.cons_append, List.cons.injEq] at h
          exact .inr ⟨m, r, by rw [List.append_assoc, ← h.2]⟩
  · rintro (h | h)
    · exact h.trans (List.prefix_append a _).isInfix
    · exact h.trans ((List.suffix_cons x b).trans (List.suffix_append a _)).isInfix

theorem infix_of_infix_append {pat a b : List α} (hpat : pat ≠ []) (ha : ∀ c ∈ a, c ∉ pat)
    (h : pat <:+: a ++ b) : pat <:+: b := by
  induction a with
  | nil => exact h
  | cons c a ih =>
      have hc : c ∉ pat := ha c (List.mem_cons_self ..)
      rw [List.cons_append, ← List.nil_append (c :: _), infix_append_of_not_mem hc] at h
      obtain h | h := h
      · exact absurd (List.infix_nil.1 h) hpat
      · exact ih (fun c hc => ha c (List.mem_cons_of_mem _ hc)) h

theorem infix_of_infix_append_right {pat a b : List α} (hpat : pat ≠ []) (hb : ∀ c ∈ b, c ∉ pat)
    (h : pat <:+: a ++ b) : pat <:+: a := by
  cases b with
  | nil => rwa [List.append_nil] at h
  | cons c b =>
      rw [infix_append_of_not_mem (hb c (List.mem_cons_self ..))] at h
      obtain h | h := h
      · exact h
      · obtain ⟨p, ps, rfl⟩ := List.exists_cons_of_ne_nil hpat
        have hp : p ∈ b := h.subset (List.mem_cons_self ..)
        exact absurd (List.mem_cons_self ..) (hb p (List.mem_cons_of_mem _ hp))

end Infixes

/-! ## Blanks -/

section Blanks

variable {α : Type} {p : α → Bool}

/-- Drop what satisfies `p` at both ends. -/
def trim (p : α → Bool) (s : List α) : List α := (s.dropWhile p).rdropWhile p

theorem trim_append_left {w : List α} (hw : ∀ c ∈ w, p c) (s : List α) :
    trim p (w ++ s) = trim p s := by
  unfold trim
  rw [List.dropWhile_append_of_pos hw]

theorem trim_append_right {w : List α} (hw : ∀ c ∈ w, p c) (s : List α) :
    trim p (s ++ w) = trim p s := by
  unfold trim
  by_cases hs : ∀ c ∈ s, p c
  · have hall : ∀ c ∈ s ++ w, p c := by
      intro c hc
      exact (List.mem_append.1 hc).elim (hs c) (hw c)
    rw [List.dropWhile_eq_nil_iff.2 hall, List.dropWhile_eq_nil_iff.2 hs]
  · have hne : s.dropWhile p ≠ [] := fun hnil => hs (List.dropWhile_eq_nil_iff.1 hnil)
    rw [List.dropWhile_append, if_neg (by simpa using hne), List.rdropWhile, List.reverse_append,
      List.dropWhile_append_of_pos (by simpa using hw)]
    rfl

/-- What is trimmed away is blank. -/
theorem blank_of_trim {s : List α} (h : trim p s = []) : ∀ c ∈ s, p c := by
  intro c hc
  rw [← List.takeWhile_append_dropWhile (p := p) (l := s)] at hc
  rcases List.mem_append.1 hc with hc | hc
  · exact List.mem_takeWhile_imp hc
  · exact List.rdropWhile_eq_nil_iff.1 h c hc

/-- Trimming takes blanks away, and nothing else. -/
theorem countP_trim (p : α → Bool) (s : List α) :
    (trim p s).countP (fun c => !p c) = s.countP fun c => !p c := by
  have hblank : ∀ w : List α, (∀ c ∈ w, p c = true) → (w.countP fun c => !p c) = 0 := by
    intro w hw
    rw [List.countP_eq_zero]
    intro c hc
    simp [hw c hc]
  have hfront : ∀ s : List α, ((s.dropWhile p).countP fun c => !p c) = s.countP fun c => !p c := by
    intro s
    have hsplit := congrArg (List.countP fun c => !p c) (List.takeWhile_append_dropWhile (p := p) (l := s))
    rw [List.countP_append, hblank _ fun c hc => List.mem_takeWhile_imp hc, Nat.zero_add] at hsplit
    exact hsplit
  rw [trim, List.rdropWhile, List.countP_reverse, hfront, List.countP_reverse, hfront]

theorem trim_pad {w w' : List α} (hw : ∀ c ∈ w, p c) (hw' : ∀ c ∈ w', p c) (s : List α) :
    trim p (w ++ (s ++ w')) = trim p s := by
  rw [trim_append_left hw, trim_append_right hw']

/-- A text that does not start blank keeps its start. -/
theorem trim_cons {c : α} (hc : p c = false) (s : List α) : ∃ s', trim p (c :: s) = c :: s' := by
  unfold trim
  rw [List.dropWhile_cons_of_neg (by rw [hc]; exact Bool.false_ne_true), List.rdropWhile,
    List.reverse_cons, List.dropWhile_append]
  split
  · rw [List.dropWhile_cons_of_neg (by rw [hc]; exact Bool.false_ne_true)]
    exact ⟨[], rfl⟩
  · rw [List.reverse_append]
    exact ⟨_, rfl⟩

/-- Not blank at either end. -/
def Tight (p : α → Bool) (s : List α) : Prop :=
  (∀ h : 0 < s.length, ¬ p s[0]) ∧ ∀ h : s ≠ [], ¬ p (s.getLast h)

theorem trim_eq_self_iff {s : List α} : trim p s = s ↔ Tight p s := by
  unfold trim Tight
  rw [← List.dropWhile_eq_self_iff, ← List.rdropWhile_eq_self_iff]
  constructor
  · intro h
    -- neither of the two drops anything, for the length
    have hlen := congrArg List.length h
    have h₁ := (List.dropWhile_suffix p : s.dropWhile p <:+ s).length_le
    have h₂ := (List.rdropWhile_prefix p (s.dropWhile p)).length_le
    have hdrop : s.dropWhile p = s :=
      (List.dropWhile_suffix p).eq_of_length (by omega)
    rw [hdrop] at h
    exact ⟨hdrop, h⟩
  · rintro ⟨hdrop, hrdrop⟩
    rw [hdrop, hrdrop]

/-- What is trimmed is between blanks. -/
theorem exists_pad (p : α → Bool) (s : List α) :
    ∃ w w', s = w ++ (trim p s ++ w') ∧ (∀ c ∈ w, p c) ∧ ∀ c ∈ w', p c := by
  refine ⟨s.takeWhile p, (s.dropWhile p).rtakeWhile p, ?_, fun c hc => List.mem_takeWhile_imp hc,
    fun c hc => List.mem_rtakeWhile_imp hc⟩
  rw [trim, List.rdropWhile_append_rtakeWhile, List.takeWhile_append_dropWhile]

theorem tight_trim (p : α → Bool) (s : List α) : Tight p (trim p s) := by
  constructor
  · intro h
    have hfront : trim p s <+: s.dropWhile p := List.rdropWhile_prefix p _
    have hlen := hfront.length_le
    rw [hfront.getElem h]
    exact List.dropWhile_get_zero_not p s (by omega)
  · intro h
    exact List.rdropWhile_last_not p _ h

/-- What is not blank is not trimmed away. -/
theorem mem_trim {c : α} (hc : p c = false) {s : List α} : c ∈ trim p s ↔ c ∈ s := by
  obtain ⟨w, w', hs, hw, hw'⟩ := exists_pad p s
  constructor
  · intro h
    rw [hs]
    exact List.mem_append_right _ (List.mem_append_left _ h)
  · intro h
    have hblank : ∀ u : List α, (∀ d ∈ u, p d) → c ∉ u := fun u hu hmem => by
      rw [hu c hmem] at hc
      cases hc
    rw [hs] at h
    exact ((List.mem_append.1 h).resolve_left (hblank w hw) |> List.mem_append.1).resolve_right
      (hblank w' hw')

theorem Tight.mono {q : α → Bool} (hpq : ∀ c, p c → q c) {s : List α} (h : Tight q s) :
    Tight p s :=
  ⟨fun hs hp => h.1 hs (hpq _ hp), fun hs hp => h.2 hs (hpq _ hp)⟩

theorem tight_of_forall_not {s : List α} (hs : ∀ c ∈ s, p c = false) : Tight p s := by
  constructor
  · intro h
    rw [hs _ (List.getElem_mem h)]
    exact Bool.false_ne_true
  · intro h
    rw [hs _ (List.getLast_mem h)]
    exact Bool.false_ne_true

theorem tight_of_ends {c d : α} (hc : p c = false) (hd : p d = false) (s : List α) :
    Tight p (c :: (s ++ [d])) := by
  constructor
  · intro h
    rw [List.getElem_cons_zero, hc]
    exact Bool.false_ne_true
  · intro h
    rw [List.getLast_cons (by simp), List.getLast_append_singleton, hd]
    exact Bool.false_ne_true

/-- Two texts that are not blank at their outer ends, with anything between. -/
theorem Tight.join {a b : List α} (ha : Tight p a) (hb : Tight p b) (ha₀ : a ≠ []) (hb₀ : b ≠ [])
    (m : List α) : Tight p (a ++ (m ++ b)) := by
  constructor
  · intro h
    rw [List.getElem_append_left (List.length_pos_of_ne_nil ha₀)]
    exact ha.1 _
  · intro h
    have hmb : m ++ b ≠ [] := List.append_ne_nil_of_right_ne_nil m hb₀
    rw [List.getLast_append_of_ne_nil h hmb, List.getLast_append_of_ne_nil hmb hb₀]
    exact hb.2 hb₀

end Blanks

/-! ## Delimiters outside of quotes and brackets -/

/-- What a scanner remembers of the text before. -/
structure Scan where
  depth : ℤ
  in_string : Bool
  escaped : Bool
  deriving DecidableEq

namespace Scan

/-- Outside of quotes, at the given depth. -/
def at_depth (n : ℤ) : Scan := ⟨n, false, false⟩

/-- Within quotes. -/
def quoted (n : ℤ) : Scan := ⟨n, true, false⟩

def start : Scan := at_depth 0

/-- Read one character: the state after it, and whether the text is cut there. -/
def read (delimiter : Char) (st : Scan) (c : Char) : Scan × Bool :=
  if st.in_string then
    if st.escaped then ({ st with escaped := false }, false)
    else if c = '\\' then ({ st with escaped := true }, false)
    else if c = '"' then ({ st with in_string := false }, false)
    else (st, false)
  else if c = '"' then ({ st with in_string := true }, false)
  else if c = '(' ∨ c = '[' ∨ c = '\x7b' then ({ st with depth := st.depth + 1 }, false)
  else if c = ')' ∨ c = ']' ∨ c = '\x7d' then ({ st with depth := st.depth - 1 }, false)
  else if c = delimiter ∧ st.depth = 0 then (st, true)
  else (st, false)

/-- Read a text that is not to be cut: the state after it, if it is not. -/
def pass (delimiter : Char) : Scan → List Char → Option Scan
  | st, [] => some st
  | st, c :: s =>
      match st.read delimiter c with
      | (st', false) => pass delimiter st' s
      | (_, true) => none

end Scan

open Scan

/-- The parts, the first of which continues `part`. -/
def split_from (delimiter : Char) : Scan → List Char → List Char → List (List Char)
  | _, part, [] => [part]
  | st, part, c :: s =>
      match st.read delimiter c with
      | (st', false) => split_from delimiter st' (part ++ [c]) s
      | (st', true) => part :: split_from delimiter st' [] s

def split_top_level (s : List Char) (delimiter : Char) : List (List Char) :=
  split_from delimiter start [] s

/-- What stands before the first delimiter, and what after it. -/
def split_first_from (delimiter : Char) : Scan → List Char → List Char →
    Option (List Char × List Char)
  | _, _, [] => none
  | st, part, c :: s =>
      match st.read delimiter c with
      | (st', false) => split_first_from delimiter st' (part ++ [c]) s
      | (_, true) => some (part, s)

def split_first_top_level (s : List Char) (delimiter : Char) : Option (List Char × List Char) :=
  split_first_from delimiter start [] s

/-- A delimiter that is no quote and no bracket. -/
def Delimiter (d : Char) : Prop := d = ',' ∨ d = '=' ∨ d = ':'

/-- A character that means nothing to the scanner. -/
def Plain (d c : Char) : Prop := c ∉ ['"', '(', '[', '\x7b', ')', ']', '\x7d', d]

section Scanning

variable {d : Char} {st st' : Scan} {n : ℤ}

theorem pass_append (a b : List Char) :
    pass d st (a ++ b) = (pass d st a).bind (pass d · b) := by
  induction a generalizing st with
  | nil => rfl
  | cons c a ih =>
      rw [List.cons_append, Scan.pass, Scan.pass]
      split
      · exact ih
      · rfl

theorem pass_trans {a b : List Char} (ha : pass d st a = some st') :
    pass d st (a ++ b) = pass d st' b := by
  rw [pass_append, ha, Option.bind_some]

theorem pass_cons_of_read {c : Char} (h : st.read d c = (st', false)) (s : List Char) :
    pass d st (c :: s) = pass d st' s := by
  rw [Scan.pass, h]

theorem split_from_of_pass {part s : List Char} (h : (pass d st s).isSome) :
    split_from d st part s = [part ++ s] := by
  induction s generalizing st part with
  | nil => rw [split_from, List.append_nil]
  | cons c s ih =>
      rw [Scan.pass] at h
      rw [split_from]
      split at h
      · rw [ih h, List.append_assoc, List.singleton_append]
      · cases h

theorem split_from_append {part a b : List Char} (h : pass d st a = some st') :
    split_from d st part (a ++ b) = split_from d st' (part ++ a) b := by
  induction a generalizing st part with
  | nil =>
      rw [← Option.some.inj h, List.nil_append, List.append_nil]
  | cons c a ih =>
      rw [Scan.pass] at h
      rw [List.cons_append, split_from]
      split at h
      · rw [ih h, List.append_assoc, List.singleton_append]
      · cases h

theorem split_first_from_append {part a b : List Char} (h : pass d st a = some st') :
    split_first_from d st part (a ++ b) = split_first_from d st' (part ++ a) b := by
  induction a generalizing st part with
  | nil =>
      rw [← Option.some.inj h, List.nil_append, List.append_nil]
  | cons c a ih =>
      rw [Scan.pass] at h
      rw [List.cons_append, split_first_from]
      split at h
      · rw [ih h, List.append_assoc, List.singleton_append]
      · cases h

theorem read_delimiter (hd : Delimiter d) : start.read d d = (start, true) := by
  obtain rfl | rfl | rfl := hd <;> decide

/-- A part that is crossed without a cut is a part of its own in front of a
delimiter. -/
theorem split_top_level_cons (hd : Delimiter d) {a : List Char} (h : pass d start a = some start)
    (b : List Char) : split_top_level (a ++ d :: b) d = a :: split_top_level b d := by
  unfold split_top_level
  rw [split_from_append h, split_from, read_delimiter hd]
  rfl

theorem split_top_level_of_pass {a : List Char} (h : (pass d start a).isSome) :
    split_top_level a d = [a] := split_from_of_pass h

theorem split_first_top_level_append (hd : Delimiter d) {a : List Char}
    (h : pass d start a = some start) (b : List Char) :
    split_first_top_level (a ++ d :: b) d = some (a, b) := by
  unfold split_first_top_level
  rw [split_first_from_append h, split_first_from, read_delimiter hd]
  rfl

/-! What the scanner does with the kinds of text there are. -/

theorem read_plain {c : Char} (hc : Plain d c) : (at_depth n).read d c = (at_depth n, false) := by
  simp only [Plain, List.mem_cons, List.not_mem_nil, or_false, not_or] at hc
  obtain ⟨h₁, h₂, h₃, h₄, h₅, h₆, h₇, h₈⟩ := hc
  simp [Scan.read, at_depth, h₁, h₂, h₃, h₄, h₅, h₆, h₇, h₈]

theorem pass_plain {s : List Char} (hs : ∀ c ∈ s, Plain d c) :
    pass d (at_depth n) s = some (at_depth n) := by
  induction s with
  | nil => rfl
  | cons c s ih =>
      rw [pass_cons_of_read (read_plain (hs c (List.mem_cons_self ..)))]
      exact ih fun c hc => hs c (List.mem_cons_of_mem _ hc)

theorem read_open {c : Char} (hc : c = '(' ∨ c = '[' ∨ c = '\x7b') :
    (at_depth n).read d c = (at_depth (n + 1), false) := by
  have hq : c ≠ '"' := by
    obtain rfl | rfl | rfl := hc <;> decide
  simp [Scan.read, at_depth, hq, hc]

theorem read_close {c : Char} (hc : c = ')' ∨ c = ']' ∨ c = '\x7d') :
    (at_depth n).read d c = (at_depth (n - 1), false) := by
  have hq : c ≠ '"' := by
    obtain rfl | rfl | rfl := hc <;> decide
  have ho : ¬ (c = '(' ∨ c = '[' ∨ c = '\x7b') := by
    obtain rfl | rfl | rfl := hc <;> decide
  simp [Scan.read, at_depth, hq, ho, hc]

/-- A delimiter within brackets does not cut. -/
theorem read_nested {c : Char} (hc : Delimiter c) (hn : 1 ≤ n) :
    (at_depth n).read d c = (at_depth n, false) := by
  have h0 : n ≠ 0 := by omega
  obtain rfl | rfl | rfl := hc <;> simp [Scan.read, at_depth, h0]

theorem read_quote : (at_depth n).read d '"' = (quoted n, false) := by
  simp [Scan.read, at_depth, quoted]

theorem read_unquote : (quoted n).read d '"' = (at_depth n, false) := by
  simp [Scan.read, at_depth, quoted]

theorem pass_quoted_plain {c : Char} (h₁ : c ≠ '"') (h₂ : c ≠ '\\') (s : List Char) :
    pass d (quoted n) (c :: s) = pass d (quoted n) s := by
  refine pass_cons_of_read ?_ s
  simp [Scan.read, quoted, h₁, h₂]

theorem pass_quoted_escape (c : Char) (s : List Char) :
    pass d (quoted n) ('\\' :: c :: s) = pass d (quoted n) s := by
  have hescape : (quoted n).read d '\\' = (⟨n, true, true⟩, false) := by simp [Scan.read, quoted]
  have hnext : (⟨n, true, true⟩ : Scan).read d c = (quoted n, false) := by simp [Scan.read, quoted]
  rw [pass_cons_of_read hescape, pass_cons_of_read hnext]

/-- In a text without the delimiter nothing is cut, in whatever state. -/
theorem pass_isSome_of_not_mem (st : Scan) {s : List Char} (hs : d ∉ s) :
    (pass d st s).isSome := by
  induction s generalizing st with
  | nil => rfl
  | cons c s ih =>
      rw [List.mem_cons, not_or] at hs
      have hread : (st.read d c).2 = false := by
        unfold Scan.read
        repeat' split
        all_goals first | rfl | exact absurd (‹c = d ∧ _›).1.symm hs.1
      rw [Scan.pass]
      split
      · exact ih _ hs.2
      · next h => rw [h] at hread; cases hread

end Scanning

end Texts
