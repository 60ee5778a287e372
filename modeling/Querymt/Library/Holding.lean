/-
`Library/Holding.lean` -- a tag that is searched in a text as it arrives.

Of a text without the tag in it, only what may still become the tag has to be held back: the
longest end of the text with which the tag starts (`held`). What comes later can be searched
together with that end alone (`cut_append_held`), and what is then to be held back is
decided by it as well (`held_append`).

A text in which two tags alternate falls into pieces (`Pieces`). The text may be continued in
its last piece (`Pieces.append`), of which again only the end has to be known
(`Pieces.of_held`).
-/
import Querymt.Library.Texts

set_option autoImplicit false

open Texts

namespace Holding

variable {α : Type} [DecidableEq α] {tag s t u a b : List α}

/-! ## 1. What is held back -/

/-- The start of a tag, and not all of it. -/
def Proper (tag s : List α) : Prop := s <+: tag ∧ s ≠ tag

instance (tag s : List α) : Decidable (Proper tag s) := inferInstanceAs (Decidable (_ ∧ _))

/-- The longest end of a text that is the start of the tag. -/
def held (tag : List α) : List α → List α
  | [] => []
  | c :: s => if Proper tag (c :: s) then c :: s else held tag s

/-- The text before that end. -/
def free (tag : List α) : List α → List α
  | [] => []
  | c :: s => if Proper tag (c :: s) then [] else c :: free tag s

@[simp] theorem held_nil : held tag [] = [] := rfl

@[simp] theorem free_nil : free tag [] = [] := rfl

theorem free_append_held (tag s : List α) : free tag s ++ held tag s = s := by
  induction s with
  | nil => rfl
  | cons c s ih =>
      rw [free, held]
      by_cases h : Proper tag (c :: s)
      · rw [if_pos h, if_pos h, List.nil_append]
      · rw [if_neg h, if_neg h, List.cons_append, ih]

omit [DecidableEq α] in
theorem proper_nil (htag : tag ≠ []) : Proper tag [] := ⟨List.nil_prefix, Ne.symm htag⟩

omit [DecidableEq α] in
theorem Proper.length_lt (h : Proper tag s) : s.length < tag.length := by
  have hle := h.1.length_le
  have hne : s.length ≠ tag.length := fun heq => h.2 (h.1.eq_of_length heq)
  omega

omit [DecidableEq α] in
/-- A shorter start is one as well. -/
theorem Proper.of_append (h : Proper tag (s ++ t)) : Proper tag s := by
  refine ⟨(List.prefix_append s t).trans h.1, ?_⟩
  intro heq
  have hlt := h.length_lt
  rw [List.length_append, ← heq] at hlt
  omega

theorem proper_held (htag : tag ≠ []) (s : List α) : Proper tag (held tag s) := by
  induction s with
  | nil => exact proper_nil htag
  | cons c s ih =>
      rw [held]
      by_cases h : Proper tag (c :: s)
      · rw [if_pos h]
        exact h
      · rw [if_neg h]
        exact ih

/-- Nothing longer is the start of the tag. -/
theorem length_le_held (hsuffix : u <:+ s) (hu : Proper tag u) :
    u.length ≤ (held tag s).length := by
  induction s with
  | nil =>
      rw [List.suffix_nil.1 hsuffix]
      exact Nat.le_refl _
  | cons c s ih =>
      rw [held]
      by_cases h : Proper tag (c :: s)
      · rw [if_pos h]
        exact hsuffix.length_le
      · rw [if_neg h]
        apply ih
        rcases List.suffix_cons_iff.1 hsuffix with rfl | hsuffix
        · exact absurd hu h
        · exact hsuffix

/-- A held end is held again. -/
theorem held_append (tag s t : List α) : held tag (s ++ t) = held tag (held tag s ++ t) := by
  induction s with
  | nil => rfl
  | cons c s ih =>
      rw [held.eq_2 tag c s]
      by_cases h : Proper tag (c :: s)
      · rw [if_pos h]
      · rw [if_neg h, ← ih, List.cons_append, held, if_neg]
        exact fun hlong => h (Proper.of_append (t := t) hlong)

/-- After a text of which nothing is held back, the rest decides. -/
theorem free_append (h : held tag s = []) (t : List α) : free tag (s ++ t) = s ++ free tag t := by
  have hwhole := free_append_held tag (s ++ t)
  rw [held_append, h, List.nil_append] at hwhole
  have hpart := free_append_held tag t
  apply List.append_cancel_right
  rw [List.append_assoc, hpart, hwhole]

/-! ## 2. Searching -/

theorem not_infix_of_cut (h : cut tag s = none) : ¬tag <:+: s := by
  induction s with
  | nil =>
      rw [cut] at h
      intro hin
      rw [if_pos (List.infix_nil.1 hin)] at h
      cases h
  | cons c s ih =>
      rw [cut] at h
      by_cases hpre : tag <+: c :: s
      · rw [if_pos hpre] at h
        cases h
      · rw [if_neg hpre, Option.map_eq_none_iff] at h
        intro hin
        rcases List.infix_cons_iff.1 hin with hin | hin
        · exact hpre hin
        · exact ih h hin

/-- What is found, and that it is the first. -/
theorem cut_eq (h : cut tag s = some (a, b)) : s = a ++ (tag ++ b) := by
  induction s generalizing a with
  | nil =>
      rw [cut] at h
      by_cases hnil : tag = []
      · rw [if_pos hnil] at h
        obtain ⟨rfl, rfl⟩ := Prod.mk.inj (Option.some.inj h)
        rw [hnil]
        rfl
      · rw [if_neg hnil] at h
        cases h
  | cons c s ih =>
      rw [cut] at h
      by_cases hpre : tag <+: c :: s
      · rw [if_pos hpre] at h
        obtain ⟨rfl, rfl⟩ := Prod.mk.inj (Option.some.inj h)
        rw [List.nil_append, List.prefix_iff_eq_append.1 hpre]
      · rw [if_neg hpre] at h
        obtain ⟨r, hr, heq⟩ := Option.map_eq_some_iff.1 h
        obtain ⟨rfl, rfl⟩ := Prod.mk.inj heq
        rw [ih hr, List.cons_append]

/-- The first occurrence stays the first. -/
theorem cut_append_right (h : cut tag s = some (a, b)) (t : List α) :
    cut tag (s ++ t) = some (a, b ++ t) := by
  induction s generalizing a with
  | nil =>
      rw [cut] at h
      by_cases hnil : tag = []
      · rw [if_pos hnil] at h
        obtain ⟨rfl, rfl⟩ := Prod.mk.inj (Option.some.inj h)
        rw [hnil]
        cases t <;> simp [cut]
      · rw [if_neg hnil] at h
        cases h
  | cons c s ih =>
      rw [cut] at h
      by_cases hpre : tag <+: c :: s
      · rw [if_pos hpre] at h
        obtain ⟨rfl, rfl⟩ := Prod.mk.inj (Option.some.inj h)
        have hlong : tag <+: c :: (s ++ t) := hpre.trans (List.prefix_append (c :: s) t)
        rw [List.cons_append, cut, if_pos hlong, ← List.cons_append,
          List.drop_append_of_le_length hpre.length_le]
      · rw [if_neg hpre] at h
        obtain ⟨r, hr, heq⟩ := Option.map_eq_some_iff.1 h
        obtain ⟨rfl, rfl⟩ := Prod.mk.inj heq
        have hnot : ¬tag <+: c :: (s ++ t) := by
          intro hlong
          -- the tag is found in what was there, so it does not reach beyond it
          have hlength : tag.length ≤ (c :: s).length := by
            rw [cut_eq hr]
            simp only [List.length_append, List.length_cons]
            omega
          exact hpre (List.prefix_of_prefix_length_le hlong (List.prefix_append (c :: s) t) hlength)
        rw [List.cons_append, cut, if_neg hnot, ih hr]
        rfl

/-- Before what is found first there is none. -/
theorem not_infix_of_first (htag : tag ≠ []) (h : cut tag s = some (a ++ t, b)) :
    ¬tag <:+: a := by
  intro hin
  cases hcut : cut tag a with
  | none => exact not_infix_of_cut hcut hin
  | some r =>
      have hlong := cut_append_right (b := r.2) hcut (t ++ (tag ++ b))
      have htext := cut_eq h
      rw [List.append_assoc] at htext
      rw [← htext, h] at hlong
      have hlength := congrArg List.length (cut_eq (b := r.2) hcut)
      have hpos := List.length_pos_of_ne_nil htag
      rw [← (Prod.mk.inj (Option.some.inj hlong)).1] at hlength
      simp only [List.length_append] at hlength
      omega

/-- What comes after the tag does not matter for where it is found. -/
theorem cut_change (htag : tag ≠ []) (h : cut tag (a ++ (tag ++ b)) = some (a, b))
    (t : List α) : cut tag (a ++ (tag ++ t)) = some (a, t) := by
  induction a with
  | nil =>
      obtain ⟨c, tag, rfl⟩ := List.exists_cons_of_ne_nil htag
      have hpre : c :: tag <+: c :: (tag ++ t) := List.prefix_append (c :: tag) t
      rw [List.nil_append, List.cons_append, cut, if_pos hpre, ← List.cons_append, List.drop_left]
  | cons c a ih =>
      rw [List.cons_append, cut] at h
      by_cases hpre : tag <+: c :: (a ++ (tag ++ b))
      · rw [if_pos hpre] at h
        cases (Prod.mk.inj (Option.some.inj h)).1
      · rw [if_neg hpre] at h
        obtain ⟨r, hr, heq⟩ := Option.map_eq_some_iff.1 h
        obtain ⟨hcons, hb⟩ := Prod.mk.inj heq
        have hr' : r = (a, b) := Prod.ext (List.cons.inj hcons).2 hb
        rw [hr'] at hr
        have hnot : ¬tag <+: c :: (a ++ (tag ++ t)) := by
          intro hlong
          -- the tag would lie before what was changed
          have hfront : c :: (a ++ tag) <+: c :: (a ++ (tag ++ t)) := by
            rw [← List.append_assoc]
            exact List.prefix_append (c :: (a ++ tag)) t
          have hshort : tag <+: c :: (a ++ tag) := by
            apply List.prefix_of_prefix_length_le hlong hfront
            simp only [List.length_cons, List.length_append]
            omega
          apply hpre
          rw [← List.append_assoc]
          exact hshort.trans (List.prefix_append (c :: (a ++ tag)) b)
        rw [List.cons_append, cut, if_neg hnot, ih hr]
        rfl

/-- **Searching on**: a tag that comes with more text starts in the held end or behind it. -/
theorem cut_append_held (h : ¬tag <:+: s) (t : List α) :
    cut tag (s ++ t) = (cut tag (held tag s ++ t)).map fun r => (free tag s ++ r.1, r.2) := by
  induction s with
  | nil => simp
  | cons c s ih =>
      rw [held, free]
      by_cases hproper : Proper tag (c :: s)
      · rw [if_pos hproper, if_pos hproper]
        simp
      · have hnot : ¬tag <+: c :: (s ++ t) := by
          intro hlong
          by_cases hlength : tag.length ≤ (c :: s).length
          · exact h (List.prefix_of_prefix_length_le hlong
              (List.prefix_append (c :: s) t) hlength).isInfix
          · -- it would start with the whole text
            apply hproper
            refine ⟨List.prefix_of_prefix_length_le (List.prefix_append (c :: s) t) hlong
              (by omega), ?_⟩
            rintro rfl
            exact hlength (Nat.le_refl _)
        have htail : ¬tag <:+: s := fun hin => h (hin.trans (List.suffix_cons c s).isInfix)
        rw [if_neg hproper, if_neg hproper, List.cons_append, cut, if_neg hnot, ih htail,
          Option.map_map]
        rfl

/-! ## 3. Alternating tags -/

/-- The pieces of a text in which two tags alternate: each one ends at the first tag of its
kind. -/
inductive Pieces (tags : Bool → List α) : Bool → List α → List (Bool × List α) → Prop where
  | last {kind : Bool} {s : List α} (hnone : cut (tags kind) s = none) :
      Pieces tags kind s [(kind, s)]
  | tagged {kind : Bool} {s a b : List α} {ps : List (Bool × List α)}
      (hcut : cut (tags kind) s = some (a, b)) (hrest : Pieces tags (!kind) b ps) :
      Pieces tags kind s ((kind, a) :: ps)

variable {tags : Bool → List α} {kind : Bool} {ps qs : List (Bool × List α)}

theorem exists_pieces (htags : ∀ kind, tags kind ≠ []) (kind : Bool) (s : List α) :
    ∃ ps, Pieces tags kind s ps := by
  induction hn : s.length using Nat.strong_induction_on generalizing kind s with
  | h n ih =>
      cases hcut : cut (tags kind) s with
      | none => exact ⟨_, .last hcut⟩
      | some r =>
          obtain ⟨a, b⟩ := r
          have hpos := List.length_pos_of_ne_nil (htags kind)
          have hlength := congrArg List.length (cut_eq hcut)
          simp only [List.length_append] at hlength
          obtain ⟨ps, hps⟩ := ih b.length (by omega) (!kind) b rfl
          exact ⟨_, .tagged hcut hps⟩

/-- There is one way to fall into pieces. -/
theorem Pieces.unique (h : Pieces tags kind s ps) (h' : Pieces tags kind s qs) : ps = qs := by
  induction h generalizing qs with
  | last hnone =>
      cases h' with
      | last => rfl
      | tagged hcut =>
          rw [hnone] at hcut
          cases hcut
  | tagged hcut hrest ih =>
      cases h' with
      | last hnone =>
          rw [hnone] at hcut
          cases hcut
      | tagged hcut' hrest' =>
          rw [hcut] at hcut'
          obtain ⟨rfl, rfl⟩ := Prod.mk.inj (Option.some.inj hcut')
          rw [ih hrest']

/-- The last piece has no tag of its kind. -/
theorem Pieces.last_free {j : Bool} {p : List α} (h : Pieces tags kind s (ps ++ [(j, p)])) :
    ¬tags j <:+: p := by
  induction ps generalizing kind s with
  | nil =>
      cases h with
      | last hnone => exact not_infix_of_cut hnone
      | tagged _ hrest => cases hrest
  | cons q ps ih =>
      cases h' : ps ++ [(j, p)] with
      | nil => exact absurd h' (by simp)
      | cons q' ps' =>
          rw [List.cons_append, h'] at h
          cases h with
          | tagged _ hrest =>
              rw [← h'] at hrest
              exact ih hrest

/-- **More text** is more of the last piece. -/
theorem Pieces.append {j : Bool} {p : List α} (h : Pieces tags kind s (ps ++ [(j, p)]))
    (hmore : Pieces tags j (p ++ t) qs) : Pieces tags kind (s ++ t) (ps ++ qs) := by
  induction ps generalizing kind s with
  | nil =>
      cases h with
      | last => exact hmore
      | tagged _ hrest => cases hrest
  | cons q ps ih =>
      cases h' : ps ++ [(j, p)] with
      | nil => exact absurd h' (by simp)
      | cons q' ps' =>
          rw [List.cons_append, h'] at h
          cases h with
          | tagged hcut hrest =>
              rw [← h'] at hrest
              exact .tagged (cut_append_right hcut t) (ih hrest)

/-- Of the text before, only the held end has to be known. -/
theorem Pieces.of_held (h : ¬tags kind <:+: s) {p : List α}
    (hmore : Pieces tags kind (held (tags kind) s ++ t) ((kind, p) :: ps)) :
    Pieces tags kind (s ++ t) ((kind, free (tags kind) s ++ p) :: ps) := by
  have hcut := cut_append_held h t
  cases hmore with
  | last hnone =>
      rw [hnone] at hcut
      rw [← List.append_assoc, free_append_held]
      exact .last hcut
  | tagged hsome hrest =>
      rw [hsome] at hcut
      exact .tagged hcut hrest

/-- The first piece is a start of the text. -/
theorem Pieces.exists_cons (h : Pieces tags kind s ps) :
    ∃ p qs rest, ps = (kind, p) :: qs ∧ s = p ++ rest := by
  cases h with
  | last => exact ⟨_, _, [], rfl, (List.append_nil s).symm⟩
  | tagged hcut => exact ⟨_, _, _, rfl, cut_eq hcut⟩

/-- A start of the text of which nothing is held back is a start of the first piece. -/
theorem Pieces.prefix_of_free {j : Bool} {p : List α} (h : ¬tags kind <:+: s)
    (hheld : held (tags kind) s = []) (hps : Pieces tags kind (s ++ t) ((j, p) :: ps)) :
    s <+: p := by
  have hcut := cut_append_held h t
  have hfree : free (tags kind) s = s := by
    have hsplit := free_append_held (tags kind) s
    rwa [hheld, List.append_nil] at hsplit
  rw [hheld, List.nil_append, hfree] at hcut
  cases hps with
  | last => exact List.prefix_append s t
  | tagged hsome =>
      rw [hsome] at hcut
      obtain ⟨r, -, heq⟩ := Option.map_eq_some_iff.1 hcut.symm
      rw [← (Prod.mk.inj heq).1]
      exact List.prefix_append s r.1

/-- **Splitting a text** inside a piece: the first half ends in the piece, and where nothing is
held back the second half starts in it. -/
theorem Pieces.split_at (htags : ∀ kind, tags kind ≠ []) {j : Bool} {x y : List α}
    (h : Pieces tags kind s (ps ++ (j, x ++ y) :: qs)) (hheld : held (tags j) x = []) :
    ∃ s₁ s₂, s = s₁ ++ s₂ ∧ Pieces tags kind s₁ (ps ++ [(j, x)]) ∧
      Pieces tags j s₂ ((j, y) :: qs) := by
  induction ps generalizing kind s with
  | nil =>
      have hfree : free (tags j) x = x := by
        have hsplit := free_append_held (tags j) x
        rwa [hheld, List.append_nil] at hsplit
      cases h with
      | last hnone =>
          have hnot := not_infix_of_cut hnone
          refine ⟨x, y, rfl, .last ?_, .last ?_⟩
          · exact cut_eq_none fun hin => hnot (hin.trans (List.prefix_append x y).isInfix)
          · exact cut_eq_none fun hin => hnot (hin.trans (List.suffix_append x y).isInfix)
      | @tagged _ _ _ b _ hcut hrest =>
          have htext := cut_eq hcut
          rw [List.append_assoc] at htext
          have hnot := not_infix_of_first (htags j) hcut
          refine ⟨x, y ++ (tags j ++ b), htext, .last (cut_eq_none hnot), .tagged ?_ hrest⟩
          rw [htext, cut_append_held hnot, hheld, hfree, List.nil_append] at hcut
          obtain ⟨r, hr, heq⟩ := Option.map_eq_some_iff.1 hcut
          obtain ⟨hx, rfl⟩ := Prod.mk.inj heq
          rw [hr, ← List.append_cancel_left hx]
  | cons q ps ih =>
      cases h' : ps ++ (j, x ++ y) :: qs with
      | nil => exact absurd h' (by simp)
      | cons q' ps' =>
          rw [List.cons_append, h'] at h
          cases h with
          | @tagged _ _ a b _ hcut hrest =>
              rw [← h'] at hrest
              obtain ⟨b₁, b₂, rfl, hfirst, hsecond⟩ := ih hrest
              have htext := cut_eq hcut
              refine ⟨a ++ (tags kind ++ b₁), b₂, ?_, ?_, hsecond⟩
              · rw [htext, List.append_assoc, List.append_assoc]
              · rw [htext] at hcut
                exact .tagged (cut_change (htags kind) hcut b₁) hfirst

/-- A single piece is the text. -/
theorem Pieces.eq_of_single {j : Bool} {p : List α} (h : Pieces tags kind s [(j, p)]) :
    j = kind ∧ p = s := by
  cases h with
  | last => exact ⟨rfl, rfl⟩
  | tagged _ hrest => cases hrest

/-! ## 4. Parts of a piece -/

/-- Where a piece is broken into parts: a part starts like the tag, or nothing was held back
before it. -/
def Broken (tag : List α) : List α → List (List α) → Prop
  | _, [] => True
  | before, part :: parts =>
      (part ≠ [] → part.head? = tag.head? ∨ held tag before = []) ∧
        Broken tag (before ++ part) parts

theorem broken_append {parts more : List (List α)} (before : List α) :
    Broken tag before (parts ++ more) ↔
      Broken tag before parts ∧ Broken tag (before ++ parts.flatten) more := by
  induction parts generalizing before with
  | nil => simp [Broken]
  | cons part parts ih =>
      rw [List.cons_append, Broken, Broken, ih, and_assoc, List.flatten_cons, List.append_assoc]

/-- The next part is broken off where the last one ended. -/
theorem broken_next {before pending part rest more : List α}
    (hpending : pending = held tag (before ++ pending) ∨ before = [])
    (htag : tag ≠ []) (hpart : pending ++ more = part ++ rest) (hne : part ≠ []) :
    part.head? = tag.head? ∨ held tag before = [] := by
  rcases hpending with hpending | rfl
  · cases pending with
    | nil =>
        rw [List.append_nil] at hpending
        exact .inr hpending.symm
    | cons c pending =>
        -- what was held back starts like the tag, and the part starts with it
        have hproper := proper_held htag (before ++ c :: pending)
        rw [← hpending] at hproper
        obtain ⟨d, part, rfl⟩ := List.exists_cons_of_ne_nil hne
        obtain ⟨rfl, -⟩ := List.cons.inj hpart
        obtain ⟨tail, htail⟩ := hproper.1
        rw [← htail]
        exact .inl rfl
  · exact .inr rfl

end Holding
