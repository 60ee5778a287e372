/-
`Offsets.lean` -- cutting a text at offsets that a search has found.

`str::find` and `str::rfind` return offsets in bytes, and a text is cut there with ranges. What
comes out is what `Texts` gives on the characters: the offset of a find is a character boundary,
and so is the one behind what was found (`find_eq_map_cut`, `slices_found_behind`). A loop over
`char_indices` that cuts at delimiters stays at boundaries as well (`split_offsets_eq`).

The first of one character and the last of another may stand in either order
(`within_or_inverted`). A range from the one to the other is the same in bytes and in characters,
and in the wrong order it is none (`str_slice_eq_slice`).
-/
import Querymt.Library.Holding
import Querymt.Library.Strings

set_option autoImplicit false

open Faults Texts

namespace Strings

section

variable {ε : Type} {pat s a m b : Str} {i j : ℕ}

/-- `&s[..i]`. -/
def slice_to (s : Str) (i : ℕ) : Except (Fault ε) Str := str_slice s 0 i

/-- `&s[i..]`. -/
def slice_from (s : Str) (i : ℕ) : Except (Fault ε) Str := str_slice s i (byte_len s)

/-! ## Ranges between parts -/

theorem slice_middle (a m b : Str) :
    @str_slice ε (a ++ (m ++ b)) (byte_len a) (byte_len (a ++ m)) = .ok m :=
  str_slice_eq_ok.2 ⟨a, b, rfl, rfl, rfl⟩

theorem slice_front (a b : Str) : @slice_to ε (a ++ b) (byte_len a) = .ok a :=
  str_slice_eq_ok.2 ⟨[], b, rfl, rfl, rfl⟩

theorem slice_back (a b : Str) : @slice_from ε (a ++ b) (byte_len a) = .ok b :=
  str_slice_eq_ok.2 ⟨a, [], by rw [List.append_nil], rfl, rfl⟩

theorem slice_all (s : Str) : @slice_to ε s (byte_len s) = .ok s :=
  str_slice_eq_ok.2 ⟨[], [], by simp, rfl, rfl⟩

/-- A range of what stands behind a front. -/
theorem slice_behind (front : Str) (h : @str_slice ε s i j = .ok m) :
    @str_slice ε (front ++ s) (byte_len front + i) (byte_len front + j) = .ok m := by
  obtain ⟨p, q, rfl, rfl, rfl⟩ := str_slice_eq_ok.1 h
  refine str_slice_eq_ok.2 ⟨front ++ p, q, ?_, ?_, ?_⟩
  · rw [List.append_assoc]
  · exact byte_len_append ..
  · rw [List.append_assoc]
    exact byte_len_append ..

theorem slice_from_behind (front : Str) (h : @slice_from ε s i = .ok m) :
    @slice_from ε (front ++ s) (byte_len front + i) = .ok m := by
  rw [slice_from, byte_len_append]
  exact slice_behind front h

/-- A range that ends before it starts is none. -/
theorem slice_reversed (h : j < i) : @str_slice ε s i j = .error .Panic := by
  cases hslice : @str_slice ε s i j with
  | ok piece =>
      have hlength := byte_len_str_slice hslice
      omega
  | error e =>
      unfold str_slice at hslice
      split at hslice
      · exact hslice.symm
      · split at hslice
        · exact hslice.symm
        · cases hslice

/-- **A range between two boundaries**, counted in bytes or in characters. -/
theorem str_slice_eq_slice {x y : Str} (ha : s = a ++ x) (hb : s = b ++ y) :
    @str_slice ε s (byte_len a) (byte_len b) = slice s a.length b.length := by
  have hsplit := ha.symm.trans hb
  rw [List.append_eq_append_iff] at hsplit
  obtain ⟨m, rfl, rfl⟩ | ⟨m, rfl, rfl⟩ := hsplit
  · have hpiece : @slice ε _ s a.length (a ++ m).length = .ok m := by
      have hdrop : s.drop a.length = m ++ y := by rw [ha, List.drop_left]
      exact slice_of_drop hdrop (by simp) (by rw [ha]; simp)
    rw [hpiece, ha]
    exact slice_middle a m y
  · by_cases hm : m = []
    · subst hm
      rw [List.append_nil] at ha ⊢
      have hdrop : s.drop b.length = [] ++ x := by
        rw [ha, List.drop_left]
        rfl
      have hpiece : @slice ε _ s b.length b.length = .ok [] :=
        slice_of_drop hdrop rfl (by rw [ha]; simp)
      have hempty := @slice_middle ε b [] x
      rw [List.append_nil] at hempty
      rw [hpiece, ha]
      exact hempty
    · have hpos := List.length_pos_iff.2 hm
      have hbytes : 0 < byte_len m := Nat.pos_of_ne_zero fun h => hm (byte_len_eq_zero.1 h)
      rw [slice_reversed, slice, if_neg]
      · rw [List.length_append]
        omega
      · rw [byte_len_append]
        omega

/-! ## What a search finds -/

theorem occurrences_head (pat : Str) (o : ℕ) (s : Str) :
    (occurrences pat o s).head? = (cut pat s).map fun r => o + byte_len r.1 := by
  induction s generalizing o with
  | nil =>
      by_cases hpat : pat = []
      · simp [occurrences, cut, hpat]
      · simp [occurrences, cut, hpat]
  | cons c s ih =>
      by_cases hpre : pat <+: c :: s
      · simp [occurrences, cut, hpre]
      · rw [occurrences, cut, if_neg hpre, if_neg hpre, List.nil_append, ih, Option.map_map]
        congr 1
        funext r
        simp only [Function.comp_apply, byte_len_cons]
        omega

/-- **The offset of a find** is the length of what stands before the pattern. -/
theorem find_eq_map_cut (pat s : Str) : find pat s = (cut pat s).map fun r => byte_len r.1 := by
  unfold find
  rw [occurrences_head]
  simp

/-- The range before what was found. -/
theorem slice_to_found (h : cut pat s = some (a, b)) : @slice_to ε s (byte_len a) = .ok a := by
  rw [Holding.cut_eq h]
  exact slice_front ..

/-- The range behind what was found. -/
theorem slice_from_found (h : cut pat s = some (a, b)) :
    @slice_from ε s (byte_len a + byte_len pat) = .ok b := by
  rw [Holding.cut_eq h, ← List.append_assoc, ← byte_len_append]
  exact slice_back ..

/-- The ranges before and behind what was found, where the search was behind a front. -/
theorem slices_found_behind (front : Str) (h : cut pat s = some (a, b)) :
    @str_slice ε (front ++ s) (byte_len front) (byte_len front + byte_len a) = .ok a ∧
      @slice_from ε (front ++ s) (byte_len front + byte_len a + byte_len pat) = .ok b := by
  refine ⟨slice_behind front (slice_to_found h), ?_⟩
  rw [Nat.add_assoc]
  exact slice_from_behind front (slice_from_found h)

/-- The range from what was found on. -/
theorem slice_at_found (h : cut pat s = some (a, b)) :
    @slice_from ε s (byte_len a) = .ok (pat ++ b) := by
  rw [Holding.cut_eq h]
  exact slice_back ..

end

/-! ## The first and the last of a character -/

section

variable {ε : Type} {c d : Char} {s a m b : Str}

theorem occurrences_of_not_mem (h : c ∉ s) (o : ℕ) : occurrences [c] o s = [] := by
  refine List.eq_nil_iff_forall_not_mem.2 fun i hi => ?_
  obtain ⟨p, q, hs, -⟩ := mem_occurrences.1 hi
  rw [hs] at h
  simp at h

theorem occurrences_append_char (c : Char) (o : ℕ) (a b : Str) :
    occurrences [c] o (a ++ c :: b) = occurrences [c] o a ++
      (o + byte_len a) :: occurrences [c] (o + byte_len a + c.utf8Size) b := by
  induction a generalizing o with
  | nil => simp [occurrences]
  | cons e a ih =>
      have hpre : ∀ t : Str, [c] <+: e :: t ↔ c = e := by
        intro t
        rw [List.cons_prefix_cons]
        simp
      rw [List.cons_append, occurrences, occurrences, ih, byte_len_cons, ← Nat.add_assoc,
        List.append_assoc]
      simp only [hpre]

/-- **The first of a character**. -/
theorem find_char_eq (h : c ∉ a) : find [c] (a ++ c :: b) = some (byte_len a) := by
  unfold find
  rw [occurrences_append_char, occurrences_of_not_mem h]
  simp

/-- **The last of a character**. -/
theorem rfind_char_eq (h : c ∉ b) : rfind [c] (a ++ c :: b) = some (byte_len a) := by
  unfold rfind
  rw [occurrences_append_char, occurrences_of_not_mem h]
  simp

theorem find_char_none (h : c ∉ s) : find [c] s = none := by
  unfold find
  rw [occurrences_of_not_mem h]
  rfl

theorem rfind_char_none (h : c ∉ s) : rfind [c] s = none := by
  unfold rfind
  rw [occurrences_of_not_mem h]
  rfl

/-- A text is cut at the first of a character in it. -/
theorem exists_first (h : c ∈ s) : ∃ a b, s = a ++ c :: b ∧ c ∉ a := List.eq_append_cons_of_mem h

/-- And at the last. -/
theorem exists_last (h : c ∈ s) : ∃ a b, s = a ++ c :: b ∧ c ∉ b := by
  obtain ⟨a, b, hs, hnot⟩ := List.eq_append_cons_of_mem (List.mem_reverse.2 h)
  refine ⟨b.reverse, a.reverse, ?_, fun hmem => hnot (List.mem_reverse.1 hmem)⟩
  rw [← List.reverse_reverse s, hs]
  simp

end

/-- The last `d` of a text stands before the first `c`, with `m` between them. -/
def Inverted (c d : Char) (s m : Str) : Prop :=
  ∃ a b, s = a ++ d :: (m ++ c :: b) ∧ c ∉ a ∧ c ∉ m ∧ d ∉ m ∧ d ∉ b

/-- The first `c` and the last `d` stand in this order, or the other way round. -/
theorem within_or_inverted {c d : Char} {s : Str} (hne : c ≠ d) (hc : c ∈ s) (hd : d ∈ s) :
    (∃ a m b, s = a ++ c :: (m ++ d :: b) ∧ c ∉ a ∧ d ∉ b) ∨ ∃ m, Inverted c d s m := by
  obtain ⟨a, b, hs, ha⟩ := exists_first hc
  obtain ⟨a', b', hs', hb'⟩ := exists_last hd
  rw [hs, List.append_eq_append_iff] at hs'
  obtain ⟨m, rfl, hm⟩ | ⟨m, rfl, hm⟩ := hs'
  · -- the last `d` is not the first `c`, so it stands behind it
    cases m with
    | nil => exact absurd (List.cons.inj hm).1 hne
    | cons e m =>
        obtain ⟨rfl, rfl⟩ := List.cons.inj hm
        exact .inl ⟨a, m, b', hs, ha, hb'⟩
  · cases m with
    | nil => exact absurd (List.cons.inj hm).1.symm hne
    | cons e m =>
        obtain ⟨rfl, rfl⟩ := List.cons.inj hm
        simp only [List.append_eq, List.mem_append, List.mem_cons, not_or] at ha hb'
        refine .inr ⟨m, a', b, by rw [hs]; simp, ha.1, ha.2.2, hb'.1, hb'.2.2⟩

/-! ## Cutting at delimiters -/

section

variable {ε : Type}

/-- The loop of `split_top_level` over the characters that are left, with their offsets. -/
def split_offsets (s : Str) (delimiter : Char) :
    Str → ℕ → Scan → ℕ → List Str → Except (Fault ε) (List Str)
  | [], _, _, start, parts => do
      let part ← slice_from s start
      return parts ++ [part]
  | ch :: chars, idx, st, start, parts =>
      match st.read delimiter ch with
      | (st', false) => split_offsets s delimiter chars (idx + ch.utf8Size) st' start parts
      | (st', true) => do
          let part ← str_slice s start idx
          split_offsets s delimiter chars (idx + ch.utf8Size) st' (idx + ch.utf8Size)
            (parts ++ [part])

/-- The loop of `split_first_top_level`. -/
def split_first_offsets (s : Str) (delimiter : Char) :
    Str → ℕ → Scan → Except (Fault ε) (Option (Str × Str))
  | [], _, _ => .ok none
  | ch :: chars, idx, st =>
      match st.read delimiter ch with
      | (st', false) => split_first_offsets s delimiter chars (idx + ch.utf8Size) st'
      | (_, true) => do
          let front ← slice_to s idx
          let back ← slice_from s (idx + ch.utf8Size)
          return some (front, back)

theorem split_offsets_from (d : Char) {s chars : Str} (front part : Str) (st : Scan)
    (parts : List Str) (hs : s = front ++ (part ++ chars)) :
    @split_offsets ε s d chars (byte_len (front ++ part)) st (byte_len front) parts =
      .ok (parts ++ split_from d st part chars) := by
  induction chars generalizing front part st parts with
  | nil =>
      rw [split_offsets, split_from, hs, List.append_nil, slice_back]
      rfl
  | cons c chars ih =>
      rw [split_offsets, split_from]
      rcases hread : st.read d c with ⟨st', _ | _⟩
      · -- the part goes on
        have hidx : byte_len (front ++ part) + c.utf8Size = byte_len (front ++ (part ++ [c])) := by
          simp [Nat.add_assoc]
        dsimp only
        rw [hidx]
        exact ih front (part ++ [c]) st' parts (by rw [hs, List.append_assoc]; rfl)
      · -- the part ends at the delimiter, and the next one starts behind it
        have hidx : byte_len (front ++ part) + c.utf8Size = byte_len (front ++ part ++ [c]) := by
          simp [Nat.add_assoc]
        dsimp only
        rw [hidx]
        conv_lhs => rw [hs, slice_middle, ← hs]
        rw [ok_bind]
        have hnext := ih (front ++ part ++ [c]) [] st' (parts ++ [part]) (by rw [hs]; simp)
        rw [List.append_nil] at hnext
        rw [hnext, List.append_assoc]
        rfl

/-- **Cutting at delimiters by offsets** is cutting at delimiters. -/
theorem split_offsets_eq (s : Str) (d : Char) :
    @split_offsets ε s d s 0 Scan.start 0 [] = .ok (split_top_level s d) :=
  split_offsets_from d [] [] Scan.start [] rfl

theorem split_first_offsets_from (d : Char) {s chars : Str} (part : Str) (st : Scan)
    (hs : s = part ++ chars) :
    @split_first_offsets ε s d chars (byte_len part) st =
      .ok (split_first_from d st part chars) := by
  induction chars generalizing part st with
  | nil => rfl
  | cons c chars ih =>
      rw [split_first_offsets, split_first_from]
      have hidx : byte_len part + c.utf8Size = byte_len (part ++ [c]) := by simp
      have hs' : s = part ++ [c] ++ chars := by rw [hs]; simp
      rcases st.read d c with ⟨st', _ | _⟩
      · dsimp only
        rw [hidx]
        exact ih (part ++ [c]) st' hs'
      · dsimp only
        rw [hidx]
        conv_lhs => rw [hs, slice_front, ← hs, hs']
        rw [ok_bind, slice_back]
        rfl

theorem split_first_offsets_eq (s : Str) (d : Char) :
    @split_first_offsets ε s d s 0 Scan.start = .ok (split_first_top_level s d) :=
  split_first_offsets_from d [] Scan.start rfl

end

end Strings
