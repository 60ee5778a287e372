/-
`Strings.lean` -- the `str` of Rust: a text whose offsets are counted in bytes.

A text is the list of its characters. Every offset that the code computes counts UTF-8
bytes, and an offset that falls inside of a character, or behind the end, is one at which
the text must not be cut: doing so panics.
-/
import Querymt.Library.Faults
import Querymt.Library.Texts

set_option autoImplicit false

open Faults

namespace Strings

/-- `&str`. -/
abbrev Str := List Char

/-! ## Blanks -/

/-- `char::is_whitespace`: the characters with the property `White_Space`. -/
def is_whitespace (c : Char) : Bool :=
  let n := c.toNat
  decide (0x09 ≤ n ∧ n ≤ 0x0d) || decide (0x2000 ≤ n ∧ n ≤ 0x200a) ||
    decide (n ∈ [0x20, 0x85, 0xa0, 0x1680, 0x2028, 0x2029, 0x202f, 0x205f, 0x3000])

/-- `str::trim`. -/
def trim (s : Str) : Str := Texts.trim is_whitespace s

/-- `str::split_whitespace`. -/
def split_whitespace (s : Str) : List Str := (s.splitOnP is_whitespace).filter (· ≠ [])

/-- `str::strip_suffix` of a character. -/
def strip_end (c : Char) (s : Str) : Option Str :=
  if s.getLast? = some c then some s.dropLast else none

theorem strip_end_eq_some {c : Char} {s t : Str} : strip_end c s = some t ↔ s = t ++ [c] := by
  unfold strip_end
  constructor
  · intro h
    split at h
    · next hlast =>
      cases h
      exact (List.dropLast_append_getLast? c hlast).symm
    · cases h
  · rintro rfl
    simp

@[simp] theorem strip_end_append (c d : Char) (s : Str) :
    strip_end c (s ++ [d]) = if d = c then some s else none := by
  unfold strip_end
  simp

/-! ## Offsets -/

/-- `str::len`. -/
def byte_len (s : Str) : ℕ := (s.map Char.utf8Size).sum

/-- The two parts of a text at an offset, if that is a character boundary. -/
def split_at : ℕ → Str → Option (Str × Str)
  | 0, s => some ([], s)
  | _ + 1, [] => none
  | i + 1, c :: s =>
      if c.utf8Size ≤ i + 1 then
        (split_at (i + 1 - c.utf8Size) s).map fun r => (c :: r.1, r.2)
      else none

/-- `str::is_char_boundary`: the end of the text is one as well. -/
def IsBoundary (s : Str) (i : ℕ) : Prop := (split_at i s).isSome

instance (s : Str) (i : ℕ) : Decidable (IsBoundary s i) :=
  inferInstanceAs (Decidable ((split_at i s).isSome = true))

/-- `&s[a..b]`. -/
def str_slice {ε : Type} (s : Str) (a b : ℕ) : Except (Fault ε) Str :=
  match split_at b s with
  | none => .error .Panic
  | some (front, _) =>
      match split_at a front with
      | none => .error .Panic
      | some (_, piece) => .ok piece

section

variable {s t a b : Str} {i j : ℕ}

@[simp] theorem byte_len_nil : byte_len [] = 0 := rfl

@[simp] theorem byte_len_cons (c : Char) (s : Str) :
    byte_len (c :: s) = c.utf8Size + byte_len s := List.sum_cons

@[simp] theorem byte_len_append (a b : Str) : byte_len (a ++ b) = byte_len a + byte_len b := by
  unfold byte_len
  rw [List.map_append, List.sum_append]

theorem byte_len_eq_zero : byte_len s = 0 ↔ s = [] := by
  cases s with
  | nil => simp
  | cons c s =>
      have := c.utf8Size_pos
      rw [byte_len_cons]
      simp
      omega

theorem split_at_eq_some : split_at i s = some (a, b) ↔ s = a ++ b ∧ byte_len a = i := by
  induction s generalizing i a with
  | nil =>
      cases i with
      | zero =>
          simp only [split_at, Option.some.injEq, Prod.mk.injEq, List.nil_eq_append_iff]
          constructor
          · rintro ⟨rfl, rfl⟩
            simp
          · rintro ⟨⟨rfl, rfl⟩, -⟩
            simp
      | succ i =>
          simp only [split_at, List.nil_eq_append_iff]
          constructor
          · rintro ⟨⟩
          · rintro ⟨⟨rfl, -⟩, h⟩
            simp at h
  | cons c s ih =>
      have hpos := c.utf8Size_pos
      cases i with
      | zero =>
          simp only [split_at, Option.some.injEq, Prod.mk.injEq, byte_len_eq_zero]
          constructor
          · rintro ⟨rfl, rfl⟩
            simp
          · rintro ⟨h, rfl⟩
            exact ⟨rfl, h⟩
      | succ i =>
          rw [split_at]
          constructor
          · intro h
            split at h
            · next hle =>
              obtain ⟨⟨a', b'⟩, hr, heq⟩ := Option.map_eq_some_iff.1 h
              cases heq
              obtain ⟨rfl, hlen⟩ := ih.1 hr
              refine ⟨rfl, ?_⟩
              dsimp only at hlen ⊢
              rw [byte_len_cons]
              omega
            · cases h
          · rintro ⟨heq, hlen⟩
            cases a with
            | nil => simp at hlen
            | cons d a =>
                obtain ⟨rfl, rfl⟩ := List.cons.inj heq
                rw [byte_len_cons] at hlen
                have hrest : split_at (i + 1 - c.utf8Size) (a ++ b) = some (a, b) :=
                  ih.2 ⟨rfl, by omega⟩
                exact (if_pos (by omega)).trans (congrArg (Option.map _) hrest)

theorem isBoundary_iff : IsBoundary s i ↔ ∃ a b, s = a ++ b ∧ byte_len a = i := by
  unfold IsBoundary
  rw [Option.isSome_iff_exists]
  constructor
  · rintro ⟨⟨a, b⟩, h⟩
    exact ⟨a, b, split_at_eq_some.1 h⟩
  · rintro ⟨a, b, h⟩
    exact ⟨(a, b), split_at_eq_some.2 h⟩

theorem isBoundary_byte_len (s : Str) : IsBoundary s (byte_len s) :=
  isBoundary_iff.2 ⟨s, [], (List.append_nil s).symm, rfl⟩

theorem isBoundary_zero (s : Str) : IsBoundary s 0 := isBoundary_iff.2 ⟨[], s, rfl, rfl⟩

/-- Of two cuts of a text, the one at the smaller offset lies in the front of the other. -/
theorem front_of_le {a' b' : Str} (h : a ++ b = a' ++ b') (hle : byte_len a ≤ byte_len a') :
    ∃ m, a' = a ++ m ∧ b = m ++ b' := by
  obtain ⟨m, ha, hb⟩ | ⟨m, ha, hb⟩ := List.append_eq_append_iff.1 h
  · exact ⟨m, ha, hb⟩
  · have hm : m = [] := by
      rw [ha, byte_len_append] at hle
      exact byte_len_eq_zero.1 (by omega)
    subst hm
    exact ⟨[], by simpa using ha.symm, by simpa using hb.symm⟩

theorem str_slice_eq_ok {ε : Type} {m : Str} :
    @str_slice ε s i j = .ok m ↔
      ∃ p q, s = p ++ (m ++ q) ∧ byte_len p = i ∧ byte_len (p ++ m) = j := by
  unfold str_slice
  constructor
  · intro h
    split at h
    · cases h
    · next front back hj =>
      split at h
      · cases h
      · next p piece hi =>
        cases h
        obtain ⟨rfl, hlen⟩ := split_at_eq_some.1 hj
        obtain ⟨rfl, hlen'⟩ := split_at_eq_some.1 hi
        exact ⟨p, back, by rw [List.append_assoc], hlen', hlen⟩
  · rintro ⟨p, q, rfl, hi, hj⟩
    have hfront : split_at j (p ++ (m ++ q)) = some (p ++ m, q) :=
      split_at_eq_some.2 ⟨by rw [List.append_assoc], hj⟩
    have hpiece : split_at i (p ++ m) = some (p, m) := split_at_eq_some.2 ⟨rfl, hi⟩
    rw [hfront]
    dsimp only
    rw [hpiece]

theorem byte_len_str_slice {ε : Type} {m : Str} (h : @str_slice ε s i j = .ok m) :
    i + byte_len m = j := by
  obtain ⟨p, q, -, hi, hj⟩ := str_slice_eq_ok.1 h
  rw [byte_len_append] at hj
  omega

/-- Slicing works exactly between two character boundaries. -/
theorem str_slice_cases {ε : Type} (s : Str) (i j : ℕ) (hij : i ≤ j) :
    (IsBoundary s i ∧ IsBoundary s j ∧ ∃ m, @str_slice ε s i j = .ok m) ∨
      (¬ (IsBoundary s i ∧ IsBoundary s j) ∧ @str_slice ε s i j = .error .Panic) := by
  by_cases h : IsBoundary s i ∧ IsBoundary s j
  · obtain ⟨hi, hj⟩ := h
    obtain ⟨p, p', hp, hlen⟩ := isBoundary_iff.1 hi
    obtain ⟨f, f', hf, hlen'⟩ := isBoundary_iff.1 hj
    obtain ⟨m, rfl, rfl⟩ := front_of_le (hp.symm.trans hf) (by omega)
    exact .inl ⟨hi, hj, m, str_slice_eq_ok.2 ⟨p, f', hp, hlen, hlen'⟩⟩
  · refine .inr ⟨h, ?_⟩
    cases hslice : @str_slice ε s i j with
    | ok m =>
        obtain ⟨p, q, hs, hi, hj⟩ := str_slice_eq_ok.1 hslice
        refine absurd ⟨isBoundary_iff.2 ⟨p, m ++ q, hs, hi⟩, isBoundary_iff.2 ⟨p ++ m, q, ?_, hj⟩⟩ h
        rw [hs, List.append_assoc]
    | error e =>
        unfold str_slice at hslice
        split at hslice
        · exact hslice.symm
        · split at hslice
          · exact hslice.symm
          · cases hslice

/-- From a character boundary on. -/
theorem str_slice_from {ε : Type} (h : IsBoundary s i) :
    ∃ p m, s = p ++ m ∧ byte_len p = i ∧ @str_slice ε s i (byte_len s) = .ok m := by
  obtain ⟨p, m, rfl, hp⟩ := isBoundary_iff.1 h
  exact ⟨p, m, rfl, hp, str_slice_eq_ok.2 ⟨p, [], by rw [List.append_nil], hp, rfl⟩⟩

end

/-! ## Searching -/

/-- The offsets at which `pat` occurs, overlapping occurrences included; `o` is the offset
of the text itself. -/
def occurrences (pat : Str) : ℕ → Str → List ℕ
  | o, [] => if pat = [] then [o] else []
  | o, c :: s => (if pat <+: c :: s then [o] else []) ++ occurrences pat (o + c.utf8Size) s

/-- `str::find` of a text. -/
def find (pat s : Str) : Option ℕ := (occurrences pat 0 s).head?

/-- `str::rfind` of a text. -/
def rfind (pat s : Str) : Option ℕ := (occurrences pat 0 s).getLast?

/-- `str::contains`. -/
def contains (pat s : Str) : Bool := (find pat s).isSome

/-- The text occurs at one place only. -/
def OccursOnce (pat s : Str) : Prop := (occurrences pat 0 s).length = 1

instance (pat s : Str) : Decidable (OccursOnce pat s) :=
  inferInstanceAs (Decidable (_ = 1))

section

variable {pat s : Str} {o i : ℕ}

theorem mem_occurrences :
    i ∈ occurrences pat o s ↔ ∃ p q, s = p ++ (pat ++ q) ∧ i = o + byte_len p := by
  induction s generalizing o with
  | nil =>
      unfold occurrences
      constructor
      · intro h
        split at h
        · next hpat =>
          exact ⟨[], [], by simp [hpat], List.mem_singleton.1 h⟩
        · cases h
      · rintro ⟨p, q, hnil, rfl⟩
        obtain ⟨rfl, hpq⟩ := List.nil_eq_append_iff.1 hnil
        obtain ⟨rfl, rfl⟩ := List.nil_eq_append_iff.1 hpq.symm
        simp
  | cons c s ih =>
      rw [occurrences, List.mem_append, ih]
      constructor
      · rintro (h | ⟨p, q, rfl, rfl⟩)
        · split at h
          · next hpre =>
            obtain ⟨q, hq⟩ := hpre
            exact ⟨[], q, hq.symm, List.mem_singleton.1 h⟩
          · cases h
        · exact ⟨c :: p, q, rfl, by rw [byte_len_cons]; omega⟩
      · rintro ⟨p, q, heq, rfl⟩
        cases p with
        | nil =>
            have hpre : pat <+: c :: s := ⟨q, heq.symm⟩
            exact .inl (by rw [if_pos hpre]; exact List.mem_singleton.2 rfl)
        | cons d p =>
            obtain ⟨rfl, rfl⟩ := List.cons.inj heq
            exact .inr ⟨p, q, rfl, by rw [byte_len_cons]; omega⟩

theorem find_eq_some (h : find pat s = some i) :
    ∃ p q, s = p ++ (pat ++ q) ∧ byte_len p = i := by
  obtain ⟨p, q, hs, hi⟩ := mem_occurrences.1 (List.mem_of_mem_head? h)
  exact ⟨p, q, hs, by omega⟩

theorem le_of_mem_occurrences (h : i ∈ occurrences pat o s) : o ≤ i := by
  obtain ⟨p, -, -, rfl⟩ := mem_occurrences.1 h
  omega

theorem occurrences_sorted (pat : Str) (o : ℕ) (s : Str) :
    (occurrences pat o s).Pairwise (· < ·) := by
  induction s generalizing o with
  | nil =>
      unfold occurrences
      split
      · exact List.pairwise_singleton ..
      · exact .nil
  | cons c s ih =>
      have hpos := c.utf8Size_pos
      unfold occurrences
      split
      · refine List.pairwise_cons.2 ⟨fun i hi => ?_, ih _⟩
        have := le_of_mem_occurrences hi
        omega
      · exact ih _

theorem contains_iff : contains pat s ↔ pat <:+: s := by
  have hmem : contains pat s ↔ ∃ i, i ∈ occurrences pat 0 s := by
    unfold contains find
    rw [List.isSome_head?]
    cases occurrences pat 0 s <;> simp
  rw [hmem]
  constructor
  · rintro ⟨i, hi⟩
    obtain ⟨p, q, rfl, -⟩ := mem_occurrences.1 hi
    exact ⟨p, q, by rw [List.append_assoc]⟩
  · rintro ⟨p, q, rfl⟩
    exact ⟨_, mem_occurrences.2 ⟨p, q, by rw [List.append_assoc], rfl⟩⟩

/-- The first and the last occurrence are the same one exactly if there is only one. -/
theorem occursOnce_iff_find : find pat s = some i ∧ rfind pat s = some i ↔
    occurrences pat 0 s = [i] := by
  unfold find rfind
  constructor
  · rintro ⟨hfirst, hlast⟩
    have hsorted := occurrences_sorted pat 0 s
    cases hocc : occurrences pat 0 s with
    | nil =>
        rw [hocc] at hfirst
        cases hfirst
    | cons j js =>
        rw [hocc] at hfirst hlast hsorted
        cases hfirst
        cases js with
        | nil => rfl
        | cons k ks =>
            -- the last occurrence lies behind the first
            have hmem : i ∈ k :: ks := by
              rw [List.getLast?_cons_cons] at hlast
              exact List.mem_of_mem_getLast? hlast
            exact absurd ((List.pairwise_cons.1 hsorted).1 i hmem) (lt_irrefl i)
  · intro hocc
    rw [hocc]
    exact ⟨rfl, rfl⟩

theorem rfind_of_find (h : find pat s = some i) : ∃ j, rfind pat s = some j := by
  refine Option.isSome_iff_exists.1 ?_
  unfold find at h
  unfold rfind
  cases hocc : occurrences pat 0 s with
  | nil =>
      rw [hocc] at h
      cases h
  | cons j js => rw [List.getLast?_isSome]; exact List.cons_ne_nil _ _

theorem occursOnce_iff : OccursOnce pat s ↔ ∃ i, find pat s = some i ∧ rfind pat s = some i := by
  unfold OccursOnce
  rw [List.length_eq_one_iff]
  simp only [occursOnce_iff_find]

/-- An empty text occurs at every boundary. -/
theorem occursOnce_nil : OccursOnce [] s ↔ s = [] := by
  unfold OccursOnce
  cases s with
  | nil => simp [occurrences]
  | cons c s =>
      cases s with
      | nil => simp [occurrences]
      | cons d s => simp [occurrences]

end

/-! ## Replacing -/

/-- Every occurrence, from left to right, each behind the one before; `skip` characters of
the last one are still to be passed. -/
def replace_from (pat new : Str) : ℕ → Str → Str
  | _, [] => []
  | skip + 1, _ :: s => replace_from pat new skip s
  | 0, c :: s =>
      if pat <+: c :: s then new ++ replace_from pat new (pat.length - 1) s
      else c :: replace_from pat new 0 s

/-- `str::replace`: an empty text is found before every character and at the end. -/
def replace (pat new s : Str) : Str :=
  if pat = [] then new ++ s.flatMap fun c => c :: new else replace_from pat new 0 s

section

variable {pat new s : Str}

theorem length_replace_from_le (pat new : Str) (skip : ℕ) (s : Str) :
    (replace_from pat new skip s).length ≤ s.length + s.length * new.length := by
  induction s generalizing skip with
  | nil => simp [replace_from]
  | cons c s ih =>
      rw [List.length_cons, Nat.succ_mul]
      cases skip with
      | succ skip =>
          have := ih skip
          rw [replace_from]
          omega
      | zero =>
          rw [replace_from]
          split
          · have := ih (pat.length - 1)
            rw [List.length_append]
            omega
          · have := ih 0
            rw [List.length_cons]
            omega

theorem length_replace_nil (new s : Str) :
    (replace [] new s).length = new.length + (s.length + s.length * new.length) := by
  unfold replace
  rw [if_pos rfl, List.length_append]
  congr 1
  induction s with
  | nil => simp
  | cons c s ih =>
      rw [List.flatMap_cons, List.length_append, ih, List.length_cons, List.length_cons,
        Nat.succ_mul]
      omega

/-- Putting a text in everywhere makes the text longer than replacing parts of it can. -/
theorem replace_nil_ne (hpat : pat ≠ []) (hnew : new ≠ []) :
    replace [] new s ≠ replace pat new s := by
  intro heq
  have hlen := congrArg List.length heq
  have hle := length_replace_from_le pat new 0 s
  have hpos := List.length_pos_iff.2 hnew
  rw [length_replace_nil, replace, if_neg hpat] at hlen
  omega

theorem length_erase_le (pat : Str) (skip : ℕ) (s : Str) :
    (replace_from pat [] skip s).length ≤ s.length := by
  have := length_replace_from_le pat [] skip s
  rwa [List.length_nil, Nat.mul_zero, Nat.add_zero] at this

/-- Erasing a text changes nothing exactly if it does not occur. -/
theorem replace_nil_eq_self_iff (hpat : pat ≠ []) : replace pat [] s = s ↔ ¬ pat <:+: s := by
  unfold replace
  rw [if_neg hpat]
  induction s with
  | nil => simpa [replace_from] using hpat
  | cons c s ih =>
      rw [replace_from]
      split
      · next hpre =>
        refine iff_of_false (fun heq => ?_) fun h => h hpre.isInfix
        have hlen := congrArg List.length heq
        have hle := length_erase_le pat (pat.length - 1) s
        rw [List.nil_append, List.length_cons] at hlen
        omega
      · next hpre =>
        rw [List.cons.injEq, List.infix_cons_iff, not_or]
        simp only [true_and, ih]
        exact ⟨fun h => ⟨hpre, h⟩, fun h => h.2⟩

end

/-! ## Lines -/

/-- `str::split_inclusive('\n')`: every piece but possibly the last ends with a line
break. -/
def split_inclusive : Str → List Str
  | [] => []
  | c :: s =>
      if c = '\n' then [c] :: split_inclusive s
      else match split_inclusive s with
        | [] => [[c]]
        | p :: ps => (c :: p) :: ps

/-- The piece without its line break, which is `\n` or `\r\n`. -/
def strip_line_break (p : Str) : Str :=
  match strip_end '\n' p with
  | none => p
  | some l => (strip_end '\r' l).getD l

/-- `str::lines`. -/
def lines (s : Str) : List Str := (split_inclusive s).map strip_line_break

/-- What `lines` takes off a piece. -/
def line_break (p : Str) : Str :=
  match strip_end '\n' p with
  | none => []
  | some l => if l.getLast? = some '\r' then ['\r', '\n'] else ['\n']

section

variable {s l p : Str} {ps : List Str}

theorem strip_line_break_append (p : Str) : strip_line_break p ++ line_break p = p := by
  unfold strip_line_break line_break
  cases h : strip_end '\n' p with
  | none => exact List.append_nil p
  | some l =>
      obtain rfl := strip_end_eq_some.1 h
      dsimp only
      unfold strip_end
      split
      · next hr =>
        rw [Option.getD_some]
        conv_rhs => rw [← List.dropLast_append_getLast? _ hr]
        rw [List.append_assoc]
        rfl
      · rfl

theorem line_break_cases (p : Str) :
    line_break p = [] ∨ line_break p = ['\n'] ∨ line_break p = ['\r', '\n'] := by
  unfold line_break
  split
  · exact .inl rfl
  · split
    · exact .inr (.inr rfl)
    · exact .inr (.inl rfl)

theorem split_inclusive_cons (c : Char) (s : Str) :
    (c = '\n' ∧ split_inclusive (c :: s) = [c] :: split_inclusive s) ∨
      (c ≠ '\n' ∧ ((s = [] ∧ split_inclusive (c :: s) = [[c]]) ∨
        ∃ p ps, split_inclusive s = p :: ps ∧ split_inclusive (c :: s) = (c :: p) :: ps)) := by
  by_cases hc : c = '\n'
  · exact .inl ⟨hc, if_pos hc⟩
  · refine .inr ⟨hc, ?_⟩
    rw [split_inclusive, if_neg hc]
    cases hs : split_inclusive s with
    | cons p ps => exact .inr ⟨p, ps, rfl, rfl⟩
    | nil =>
        refine .inl ⟨?_, rfl⟩
        cases s with
        | nil => rfl
        | cons d s =>
            rw [split_inclusive] at hs
            split at hs
            · cases hs
            · split at hs <;> cases hs

/-- The pieces make up the text. -/
theorem split_inclusive_flatten (s : Str) : (split_inclusive s).flatten = s := by
  induction s with
  | nil => rfl
  | cons c s ih =>
      -- a character closes a piece, or stands before the first piece of the rest
      obtain ⟨-, h⟩ | ⟨-, ⟨rfl, h⟩ | ⟨p, ps, hs, h⟩⟩ := split_inclusive_cons c s
      · rw [h, List.flatten_cons, ih, List.singleton_append]
      · rw [h]
        rfl
      · rw [hs, List.flatten_cons] at ih
        rw [h, List.flatten_cons, List.cons_append, ih]

/-- Every piece is closed by a line break, but for the last, which may end the text
instead. -/
theorem line_break_ne_nil (h : p ∈ (split_inclusive s).dropLast) : line_break p ≠ [] := by
  -- a character put before a piece does not change its end
  have hlast : p.getLast? = some '\n' := by
    induction s generalizing p with
    | nil => cases h
    | cons c s ih =>
        obtain ⟨rfl, hs⟩ | ⟨-, ⟨-, hs⟩ | ⟨q, ps, hq, hs⟩⟩ := split_inclusive_cons c s
        · rw [hs] at h
          cases hrest : split_inclusive s with
          | nil =>
              rw [hrest] at h
              cases h
          | cons q ps =>
              rw [hrest, List.dropLast_cons_cons, List.mem_cons, ← hrest] at h
              obtain rfl | h := h
              · rfl
              · exact ih h
        · rw [hs] at h
          cases h
        · rw [hs] at h
          rw [hq] at ih
          cases ps with
          | nil => cases h
          | cons r ps =>
              rw [List.dropLast_cons_cons, List.mem_cons] at h
              obtain rfl | h := h
              · rw [List.getLast?_cons, ih (List.mem_cons_self ..)]
                rfl
              · exact ih (List.mem_cons_of_mem _ h)
  unfold line_break strip_end
  rw [if_pos hlast]
  dsimp only
  split <;> exact List.cons_ne_nil _ _

theorem lines_infix (h : l ∈ lines s) : l <:+: s := by
  obtain ⟨p, hp, rfl⟩ := List.mem_map.1 h
  have hpre : strip_line_break p <+: p := ⟨line_break p, strip_line_break_append p⟩
  obtain ⟨front, back, hsplit⟩ := List.append_of_mem hp
  have hs := split_inclusive_flatten s
  rw [hsplit, List.flatten_append, List.flatten_cons] at hs
  exact hpre.isInfix.trans ⟨front.flatten, back.flatten, by rw [← hs, List.append_assoc]⟩

theorem lines_eq_nil : lines s = [] ↔ s = [] := by
  constructor
  · intro h
    rw [← split_inclusive_flatten s, List.map_eq_nil_iff.1 h]
    rfl
  · rintro rfl
    rfl

/-! ## Blank texts -/

theorem trim_eq_nil : trim s = [] ↔ ∀ c ∈ s, is_whitespace c = true := by
  unfold trim Texts.trim
  rw [List.rdropWhile_eq_nil_iff]
  constructor
  · intro h
    rw [← List.takeWhile_append_dropWhile (p := is_whitespace) (l := s)]
    intro c hc
    obtain hc | hc := List.mem_append.1 hc
    · exact List.mem_takeWhile_imp hc
    · exact h c hc
  · intro h c hc
    exact h c (List.dropWhile_sublist _ |>.subset hc)

theorem trim_strip_line_break : trim (strip_line_break p) = [] ↔ trim p = [] := by
  rw [trim_eq_nil, trim_eq_nil]
  conv_rhs => rw [← strip_line_break_append p]
  rw [List.forall_mem_append]
  refine (and_iff_left ?_).symm
  obtain h | h | h := line_break_cases p
  · rw [h]
    exact List.forall_mem_nil _
  · rw [h]
    exact List.forall_mem_singleton.2 rfl
  · rw [h]
    exact List.forall_mem_cons.2 ⟨rfl, List.forall_mem_singleton.2 rfl⟩

/-- A text is blank exactly if its lines are. -/
theorem trim_eq_nil_iff_lines : trim s = [] ↔ ∀ l ∈ lines s, trim l = [] := by
  unfold lines
  rw [List.forall_mem_map]
  simp only [trim_strip_line_break]
  simp only [trim_eq_nil]
  conv_lhs => rw [← split_inclusive_flatten s]
  simp only [List.mem_flatten, forall_exists_index, and_imp]
  exact ⟨fun h p hp c hc => h c p hp hc, fun h c p hp hc => h p hp c hc⟩

end

end Strings
