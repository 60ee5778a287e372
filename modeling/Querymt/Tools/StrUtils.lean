/-
`Tools/StrUtils.lean` -- the shared truncation helpers.

Mirrors `querymt-utils/src/str_utils.rs`. A text is cut at the last character boundary that
fits, and a suffix follows. Where the suffix leaves no room for text, so many characters are
taken instead as bytes are allowed (`truncate_tiny`), and a character may have more than one
byte: the budget is kept exactly if those characters have one byte each (`truncations_iff`).
-/
import Querymt.Tools.Truncation

set_option autoImplicit false

open Faults Strings

namespace Querymt.StrUtils

/-! ## 1. The code -/

section

variable {ε : Type}

/-- `while !s.is_char_boundary(i) { i -= 1 }`: below zero the subtraction panics. -/
def walk_back (s : Str) : ℕ → Except (Fault ε) ℕ
  | 0 => if IsBoundary s 0 then .ok 0 else .error .Panic
  | i + 1 => if IsBoundary s (i + 1) then .ok (i + 1) else walk_back s i

def floor_char_boundary (s : Str) (target : ℕ) : Except (Fault ε) ℕ :=
  if byte_len s ≤ target then .ok (byte_len s) else walk_back s target

/-- `input.chars().take(max_bytes).collect()`. -/
def truncate_tiny (input : Str) (max_bytes : ℕ) : Str := input.take max_bytes

def truncate_with_suffix (input : Str) (max_bytes : ℕ) (suffix : Str) : Except (Fault ε) Str :=
  if byte_len input ≤ max_bytes then .ok input
  else if max_bytes ≤ byte_len suffix then .ok (truncate_tiny input max_bytes)
  else do
    let target := max_bytes - byte_len suffix
    let last ← floor_char_boundary input target
    let front ← str_slice input 0 last
    return front ++ suffix

def ELLIPSIS : Str := ['.', '.', '.']

def truncate_with_ellipsis (input : Str) (max_bytes : ℕ) : Except (Fault ε) Str :=
  truncate_with_suffix input max_bytes ELLIPSIS

def truncate_str (input : Str) (max_bytes : ℕ) : Except (Fault ε) Str := do
  let last ← floor_char_boundary input max_bytes
  str_slice input 0 last

end

/-! ## 2. The law and the condition -/

/-- `p` is the longest front of a text in a budget: a front is cut at a character boundary. -/
structure Longest (input : Str) (budget : ℕ) (p : Str) : Prop where
  front : p <+: input
  fits : byte_len p ≤ budget
  longest : ∀ q, q <+: input → byte_len q ≤ budget → q <+: p

/-- What follows a cut text: a suffix that leaves no room for text is left out. -/
def shown_suffix (max_bytes : ℕ) (suffix : Str) : Str :=
  if byte_len suffix < max_bytes then suffix else []

/-- **The budget is kept** by what a helper returns, and it returns. -/
structure KeepsBudget (input : Str) (max_bytes : ℕ) (suffix : Str)
    (x : Except (Fault Empty) Str) : Prop where
  returns : ∃ result, x = .ok result
  bytes : ∀ result, x = .ok result → byte_len result ≤ max_bytes
  whole : ∀ result, x = .ok result → byte_len input ≤ max_bytes → result = input
  cut : ∀ result, x = .ok result → max_bytes < byte_len input →
    ∃ p, result = p ++ shown_suffix max_bytes suffix ∧
      Longest input (max_bytes - byte_len (shown_suffix max_bytes suffix)) p

/-- **The condition**: the text fits, or the suffix leaves room for text, or the text starts
with as many characters of one byte as bytes are allowed. -/
def FrontFits (input : Str) (max_bytes : ℕ) (suffix : Str) : Prop :=
  byte_len input ≤ max_bytes ∨ byte_len suffix < max_bytes ∨
    ∀ c ∈ input.take max_bytes, c.utf8Size = 1

/-! ## 3. The last boundary that fits -/

section

variable {ε : Type} {input suffix : Str} {max_bytes target : ℕ}

/-- The walk stops, at zero at the latest. -/
theorem walk_back_spec (s : Str) (target : ℕ) :
    ∃ i, @walk_back ε s target = .ok i ∧ IsBoundary s i ∧ i ≤ target ∧
      ∀ j ≤ target, IsBoundary s j → j ≤ i := by
  induction target with
  | zero =>
      have hzero := isBoundary_zero s
      exact ⟨0, if_pos hzero, hzero, Nat.le_refl 0, fun j hj _ => hj⟩
  | succ i ih =>
      by_cases hboundary : IsBoundary s (i + 1)
      · exact ⟨i + 1, if_pos hboundary, hboundary, Nat.le_refl _, fun j hj _ => hj⟩
      · obtain ⟨last, hlast, hat, hle, hmax⟩ := ih
        refine ⟨last, (if_neg hboundary).trans hlast, hat, by omega, fun j hj hjat => ?_⟩
        -- the target itself is no boundary
        have hne : j ≠ i + 1 := fun heq => hboundary (heq ▸ hjat)
        apply hmax j _ hjat
        omega

/-- **The text up to the last boundary that fits is the longest front that fits.** -/
theorem front_spec (input : Str) (target : ℕ) :
    ∃ last p, @floor_char_boundary ε input target = .ok last ∧
      @str_slice ε input 0 last = .ok p ∧ Longest input target p := by
  unfold floor_char_boundary
  by_cases hfits : byte_len input ≤ target
  · refine ⟨byte_len input, input, if_pos hfits, ?_, List.prefix_refl _, hfits, fun q hq _ => hq⟩
    exact str_slice_eq_ok.2 ⟨[], [], by simp, rfl, rfl⟩
  · obtain ⟨last, hlast, hat, hle, hmax⟩ := @walk_back_spec ε input target
    obtain ⟨p, rest, rfl, hp⟩ := isBoundary_iff.1 hat
    refine ⟨last, p, (if_neg hfits).trans hlast, ?_, List.prefix_append p rest, by omega, ?_⟩
    · exact str_slice_eq_ok.2 ⟨[], rest, rfl, rfl, hp⟩
    · rintro q ⟨rest', hq⟩ hqfits
      -- a front that fits ends at a boundary, and so not behind the last one
      have hqat : IsBoundary (p ++ rest) (byte_len q) := isBoundary_iff.2 ⟨q, rest', hq.symm, rfl⟩
      have hqle : byte_len q ≤ byte_len p := by
        rw [hp]
        exact hmax _ hqfits hqat
      obtain ⟨m, hm, -⟩ := front_of_le hq hqle
      exact ⟨m, hm.symm⟩

/-! ## 4. The helpers -/

/-- A budget that starts with characters of one byte is used up by them. -/
theorem longest_take (hover : max_bytes < byte_len input)
    (hone : ∀ c ∈ input.take max_bytes, c.utf8Size = 1) :
    Longest input max_bytes (input.take max_bytes) where
  front := List.take_prefix _ _
  fits := (Tools.byte_len_take_le_iff hover).2 hone
  longest q hq hqfits := by
    have hlen := Tools.length_le_byte_len q
    obtain ⟨rest, rfl⟩ := hq
    rw [List.take_append, List.take_of_length_le (by omega)]
    exact List.prefix_append _ _

/-- What is left of a text that is not cut. -/
theorem keepsBudget_whole {x : Except (Fault Empty) Str} (hfits : byte_len input ≤ max_bytes)
    (hx : x = .ok input) : KeepsBudget input max_bytes suffix x where
  returns := ⟨input, hx⟩
  bytes result hresult := by
    obtain rfl := Except.ok.inj (hx.symm.trans hresult)
    exact hfits
  whole result hresult _ := (Except.ok.inj (hx.symm.trans hresult)).symm
  cut _ _ hover := absurd hfits (Nat.not_le.2 hover)

/-- What is left of a text that is cut. -/
theorem keepsBudget_cut {x : Except (Fault Empty) Str} {p : Str}
    (hover : max_bytes < byte_len input) (hx : x = .ok (p ++ shown_suffix max_bytes suffix))
    (hp : Longest input (max_bytes - byte_len (shown_suffix max_bytes suffix)) p) :
    KeepsBudget input max_bytes suffix x where
  returns := ⟨_, hx⟩
  bytes result hresult := by
    obtain rfl := Except.ok.inj (hx.symm.trans hresult)
    have hshown : byte_len (shown_suffix max_bytes suffix) ≤ max_bytes := by
      unfold shown_suffix
      split_ifs with hroom
      · exact Nat.le_of_lt hroom
      · exact Nat.zero_le _
    have := hp.fits
    rw [byte_len_append]
    omega
  whole _ _ hfits := absurd hfits (Nat.not_le.2 hover)
  cut result hresult _ := ⟨p, (Except.ok.inj (hx.symm.trans hresult)).symm, hp⟩

theorem truncate_with_suffix_iff (input suffix : Str) (max_bytes : ℕ) :
    KeepsBudget input max_bytes suffix (truncate_with_suffix input max_bytes suffix) ↔
      FrontFits input max_bytes suffix := by
  unfold truncate_with_suffix FrontFits
  by_cases hfits : byte_len input ≤ max_bytes
  · rw [if_pos hfits]
    exact iff_of_true (keepsBudget_whole hfits rfl) (.inl hfits)
  rw [if_neg hfits]
  have hover : max_bytes < byte_len input := Nat.not_le.1 hfits
  by_cases hroom : byte_len suffix < max_bytes
  · rw [if_neg (Nat.not_le.2 hroom)]
    refine iff_of_true ?_ (.inr (.inl hroom))
    obtain ⟨last, p, hlast, hslice, hp⟩ :=
      @front_spec Empty input (max_bytes - byte_len suffix)
    have hshown : shown_suffix max_bytes suffix = suffix := if_pos hroom
    apply keepsBudget_cut (p := p) hover
    · rw [hshown]
      dsimp only
      rw [hlast, ok_bind, hslice, ok_bind]
      rfl
    · rw [hshown]
      exact hp
  · -- no room: the characters that are taken have to have one byte each
    rw [if_pos (Nat.not_lt.1 hroom)]
    have hshown : shown_suffix max_bytes suffix = [] := if_neg hroom
    constructor
    · intro h
      exact .inr (.inr ((Tools.byte_len_take_le_iff hover).1 (h.bytes _ rfl)))
    · intro h
      have hone := (h.resolve_left hfits).resolve_left hroom
      apply keepsBudget_cut (p := input.take max_bytes) hover
      · rw [hshown, List.append_nil]
        rfl
      · rw [hshown]
        exact longest_take hover hone

theorem truncate_str_keeps (input : Str) (max_bytes : ℕ) :
    KeepsBudget input max_bytes [] (truncate_str input max_bytes) := by
  unfold truncate_str
  obtain ⟨last, p, hlast, hslice, hp⟩ := @front_spec Empty input max_bytes
  rw [hlast, ok_bind, hslice]
  by_cases hfits : byte_len input ≤ max_bytes
  · -- the longest front that fits is the text
    have hwhole : p = input :=
      List.IsPrefix.eq_of_length_le hp.front (hp.longest input (List.prefix_refl _) hfits).length_le
    rw [hwhole]
    exact keepsBudget_whole hfits rfl
  · have hshown : shown_suffix max_bytes [] = [] := ite_self _
    apply keepsBudget_cut (p := p) (Nat.not_le.1 hfits)
    · rw [hshown, List.append_nil]
    · rw [hshown]
      exact hp

end

/-- **The truncation helpers keep their budget**: cutting without a suffix always does, cutting
with one exactly if the suffix leaves room or the front has characters of one byte. -/
theorem truncations_iff (input suffix : Str) (max_bytes : ℕ) :
    KeepsBudget input max_bytes [] (truncate_str input max_bytes) ∧
      (KeepsBudget input max_bytes ELLIPSIS (truncate_with_ellipsis input max_bytes) ↔
        FrontFits input max_bytes ELLIPSIS) ∧
      (KeepsBudget input max_bytes suffix (truncate_with_suffix input max_bytes suffix) ↔
        FrontFits input max_bytes suffix) :=
  ⟨truncate_str_keeps input max_bytes, truncate_with_suffix_iff input ELLIPSIS max_bytes,
    truncate_with_suffix_iff input suffix max_bytes⟩

/-- Two bytes are allowed, and two characters of two bytes are returned. -/
theorem ellipsis_over_budget :
    ¬ KeepsBudget ['é', 'é', 'é'] 2 ELLIPSIS (truncate_with_ellipsis ['é', 'é', 'é'] 2) := by
  intro h
  exact absurd (h.bytes ['é', 'é'] rfl) (by decide)

end Querymt.StrUtils
