/-
`Library/Timestamps.lean` -- instants as RFC 3339 texts, and the order of the texts.

An instant in UTC is its calendar date and its time of day. Its text has a fixed width down
to the second; the fraction behind it is written without trailing zeros, and not at all when
it is zero. Two texts therefore compare as their instants do up to the second, and also
behind it, unless the fraction of one is the beginning of the fraction of the other: then a
digit (or the point) of the longer one meets the `Z` that ends the shorter one, and stands
before it (`rfc3339_lt_iff`).
-/
import Mathlib

set_option autoImplicit false

namespace Timestamps

/-! ## Instants -/

/-- An instant in UTC; the time of day has nanoseconds. -/
structure UtcDateTime where
  year : ℤ
  month : ℕ
  day : ℕ
  hour : ℕ
  minute : ℕ
  second : ℕ
  nanosecond : ℕ
  year_lt : year < 10000
  month_lt : month < 13
  day_lt : day < 32
  hour_lt : hour < 24
  minute_lt : minute < 60
  second_lt : second < 60
  nanosecond_lt : nanosecond < 1000000000

/-- The instant down to the second, from the year on. -/
def UtcDateTime.to_second (t : UtcDateTime) : List ℤ :=
  [t.year, t.month, t.day, t.hour, t.minute, t.second]

/-- The order of time. -/
instance : LT UtcDateTime where
  lt t t' := t.to_second < t'.to_second ∨
    t.to_second = t'.to_second ∧ t.nanosecond < t'.nanosecond

/-! ## Texts -/

/-- So many decimal digits of a number, with leading zeros. -/
def digits : ℕ → ℕ → List Char
  | 0, _ => []
  | width + 1, n => Nat.digitChar (n / 10 ^ width % 10) :: digits width n

/-- The digits without trailing zeros. -/
def strip_zeros : List Char → List Char
  | [] => []
  | c :: s => if strip_zeros s = [] ∧ c = '0' then [] else c :: strip_zeros s

/-- The digits of the fraction. -/
def UtcDateTime.fraction (t : UtcDateTime) : List Char := strip_zeros (digits 9 t.nanosecond)

/-- What stands behind the seconds. -/
def end_of_text (fraction : List Char) : List Char :=
  (if fraction = [] then [] else '.' :: fraction) ++ ['Z']

/-- The text of an instant; a negative year has none. -/
def rfc3339 (t : UtcDateTime) : Option (List Char) :=
  if t.year < 0 then none
  else some (digits 4 t.year.toNat ++ '-' :: (digits 2 t.month ++ '-' :: (digits 2 t.day ++
    'T' :: (digits 2 t.hour ++ ':' :: (digits 2 t.minute ++ ':' :: (digits 2 t.second ++
      end_of_text t.fraction))))))

/-! ## Numbers of a fixed width -/

theorem digitChar_lt_iff {i j : ℕ} (hi : i < 10) (hj : j < 10) :
    (Nat.digitChar i < Nat.digitChar j ↔ i < j) ∧ (Nat.digitChar i = Nat.digitChar j ↔ i = j) := by
  have hall : ∀ i < 10, ∀ j < 10, (Nat.digitChar i < Nat.digitChar j ↔ i < j) ∧
      (Nat.digitChar i = Nat.digitChar j ↔ i = j) := by decide
  exact hall i hi j hj

theorem digits_mod (width n : ℕ) : digits width (n % 10 ^ width) = digits width n := by
  induction width generalizing n with
  | zero => rfl
  | succ width ih =>
      have hdvd : 10 ^ width ∣ 10 ^ (width + 1) := pow_dvd_pow 10 (Nat.le_succ width)
      rw [digits, digits, ← ih, Nat.mod_mod_of_dvd _ hdvd, ih, pow_succ,
        Nat.mod_mul_right_div_self, Nat.mod_mod]

/-- **Numbers of a fixed width compare as their digits do**, and what stands behind them
decides when they are equal. -/
theorem digits_append_lt_iff {width n m : ℕ} (hn : n < 10 ^ width) (hm : m < 10 ^ width)
    (u v : List Char) :
    digits width n ++ u < digits width m ++ v ↔ n < m ∨ n = m ∧ u < v := by
  induction width generalizing n m with
  | zero =>
      rw [pow_zero] at hn hm
      have hn0 : n = 0 := by omega
      have hm0 : m = 0 := by omega
      rw [hn0, hm0, digits, List.nil_append, List.nil_append]
      simp
  | succ width ih =>
      have hpos : 0 < 10 ^ width := Nat.pow_pos (by omega)
      have hn10 : n / 10 ^ width < 10 := Nat.div_lt_of_lt_mul (by rwa [← pow_succ])
      have hm10 : m / 10 ^ width < 10 := Nat.div_lt_of_lt_mul (by rwa [← pow_succ])
      have hrest := ih (n := n % 10 ^ width) (m := m % 10 ^ width) (Nat.mod_lt _ hpos)
        (Nat.mod_lt _ hpos)
      rw [digits_mod, digits_mod] at hrest
      rw [digits, digits, List.cons_append, List.cons_append, List.cons_lt_cons_iff,
        Nat.mod_eq_of_lt hn10, Nat.mod_eq_of_lt hm10, (digitChar_lt_iff hn10 hm10).1,
        (digitChar_lt_iff hn10 hm10).2, hrest]
      -- the first digit is the quotient, the others are the remainder
      have hn' := Nat.div_add_mod n (10 ^ width)
      have hm' := Nat.div_add_mod m (10 ^ width)
      rcases Nat.lt_trichotomy (n / 10 ^ width) (m / 10 ^ width) with hlt | heq | hgt
      · have := Nat.lt_of_div_lt_div hlt
        exact iff_of_true (.inl hlt) (.inl this)
      · rw [heq] at hn' ⊢
        have hlt : n % 10 ^ width < m % 10 ^ width ↔ n < m := by omega
        have hsame : n % 10 ^ width = m % 10 ^ width ↔ n = m := by omega
        rw [hlt, hsame]
        simp
      · have := Nat.lt_of_div_lt_div hgt
        refine iff_of_false ?_ ?_
        · rintro (hlt | ⟨heq, -⟩)
          · exact absurd hlt (Nat.lt_asymm hgt)
          · exact absurd heq (Nat.ne_of_gt hgt)
        · rintro (hlt | ⟨heq, -⟩)
          · exact absurd hlt (Nat.lt_asymm this)
          · exact absurd heq (Nat.ne_of_gt this)

/-! ## Fractions -/

/-- A digit stands before the `Z`, and the point before both. -/
def IsDigit (c : Char) : Prop := '0' ≤ c ∧ c ≤ '9'

theorem isDigit_digitChar {i : ℕ} (hi : i < 10) : IsDigit (Nat.digitChar i) := by
  have hall : ∀ i < 10, '0' ≤ Nat.digitChar i ∧ Nat.digitChar i ≤ '9' := by decide
  exact hall i hi

theorem isDigit_of_mem_digits {width n : ℕ} {c : Char} (h : c ∈ digits width n) : IsDigit c := by
  induction width with
  | zero => cases h
  | succ width ih =>
      rcases List.mem_cons.1 h with rfl | h
      · exact isDigit_digitChar (Nat.mod_lt _ (by omega))
      · exact ih h

theorem length_digits (width n : ℕ) : (digits width n).length = width := by
  induction width with
  | zero => rfl
  | succ width ih => rw [digits, List.length_cons, ih]

/-- How the stripped digits of two fractions differ. -/
inductive FractionsDiffer (x y : List Char) : Prop where
  /-- at a digit -/
  | at_digit {front u v : List Char} {c d : Char} (hx : strip_zeros x = front ++ c :: u)
      (hy : strip_zeros y = front ++ d :: v) (hcd : c < d) (hlt : x < y)
  /-- the smaller one ends where the other goes on -/
  | ends {c : Char} {rest : List Char} (hy : strip_zeros y = strip_zeros x ++ c :: rest)
      (hlt : x < y)

/-- Trailing zeros only are stripped. -/
theorem strip_zeros_cons (c : Char) (s : List Char) :
    (c = '0' ∧ strip_zeros s = [] ∧ strip_zeros (c :: s) = []) ∨
      strip_zeros (c :: s) = c :: strip_zeros s := by
  rw [strip_zeros]
  by_cases h : strip_zeros s = [] ∧ c = '0'
  · exact .inl ⟨h.2, h.1, if_pos h⟩
  · exact .inr (if_neg h)

/-- A digit in front of two fractions makes no difference. -/
theorem FractionsDiffer.cons {x y : List Char} (h : FractionsDiffer x y) (c : Char) :
    FractionsDiffer (c :: x) (c :: y) := by
  have hlt : x < y → c :: x < c :: y := fun h => List.cons_lt_cons_iff.2 (.inr ⟨rfl, h⟩)
  cases h with
  | @at_digit front u v d e hx hy hde hxy =>
      rcases strip_zeros_cons c x with ⟨-, hnil, -⟩ | hx'
      · rw [hx] at hnil
        exact absurd hnil (by simp)
      · rcases strip_zeros_cons c y with ⟨-, hnil, -⟩ | hy'
        · rw [hy] at hnil
          exact absurd hnil (by simp)
        · rw [hx, ← List.cons_append] at hx'
          rw [hy, ← List.cons_append] at hy'
          exact .at_digit hx' hy' hde (hlt hxy)
  | @ends d rest hy hxy =>
      rcases strip_zeros_cons c y with ⟨-, hnil, -⟩ | hy'
      · rw [hy] at hnil
        exact absurd hnil (by simp)
      · rw [hy] at hy'
        rcases strip_zeros_cons c x with ⟨-, hnil, hx'⟩ | hx'
        · have hends : strip_zeros (c :: y) = strip_zeros (c :: x) ++ c :: d :: rest := by
            rw [hy', hx', hnil]
            rfl
          exact .ends hends (hlt hxy)
        · have hends : strip_zeros (c :: y) = strip_zeros (c :: x) ++ d :: rest := by
            rw [hy', hx', List.cons_append]
          exact .ends hends (hlt hxy)

/-- Two fractions that differ in their first digit. -/
theorem fractionsDiffer_of_lt {c d : Char} (hc : IsDigit c) (hcd : c < d) (x y : List Char) :
    FractionsDiffer (c :: x) (d :: y) := by
  have hlt : c :: x < d :: y := List.cons_lt_cons_iff.2 (.inl hcd)
  rcases strip_zeros_cons d y with ⟨rfl, -, -⟩ | hy
  · exact absurd hcd (Char.not_lt.2 hc.1)
  · rcases strip_zeros_cons c x with ⟨-, -, hx⟩ | hx
    · have hends : strip_zeros (d :: y) = strip_zeros (c :: x) ++ d :: strip_zeros y := by
        rw [hx, hy, List.nil_append]
      exact .ends hends hlt
    · exact @FractionsDiffer.at_digit _ _ [] _ _ _ _ hx hy hcd hlt

/-- **Two fractions of one width are equal, differ at a digit, or the smaller one ends where
the other goes on.** -/
theorem fractions_cases {x y : List Char} (hlen : x.length = y.length)
    (hx : ∀ c ∈ x, IsDigit c) (hy : ∀ c ∈ y, IsDigit c) :
    x = y ∨ FractionsDiffer x y ∨ FractionsDiffer y x := by
  induction x generalizing y with
  | nil =>
      left
      exact (List.length_eq_zero_iff.1 hlen.symm).symm
  | cons c x ih =>
      rcases y with _ | ⟨d, y⟩
      · cases hlen
      · have hc := hx c List.mem_cons_self
        have hd := hy d List.mem_cons_self
        rcases lt_trichotomy c d with hlt | rfl | hgt
        · exact .inr (.inl (fractionsDiffer_of_lt hc hlt x y))
        · rcases ih (Nat.succ.inj hlen) (fun e he => hx e (List.mem_cons_of_mem c he))
            (fun e he => hy e (List.mem_cons_of_mem c he)) with rfl | hdiffer | hdiffer
          · exact .inl rfl
          · exact .inr (.inl (hdiffer.cons c))
          · exact .inr (.inr (hdiffer.cons c))
        · exact .inr (.inr (fractionsDiffer_of_lt hd hgt y x))

theorem append_lt_append_iff (front u v : List Char) : front ++ u < front ++ v ↔ u < v := by
  induction front with
  | nil => rfl
  | cons c front ih =>
      rw [List.cons_append, List.cons_append, List.cons_lt_cons_iff, ih]
      simp

theorem strip_zeros_subset (s : List Char) : strip_zeros s ⊆ s := by
  induction s with
  | nil => exact List.Subset.refl _
  | cons c s ih =>
      rcases strip_zeros_cons c s with ⟨-, -, h⟩ | h <;> rw [h]
      · exact List.nil_subset _
      · exact List.cons_subset_cons c ih

/-- **Where the fractions differ at a digit, the texts compare as they do.** -/
theorem end_of_text_lt_of_digit {front u v : List Char} {c d : Char} (hcd : c < d) :
    end_of_text (front ++ c :: u) < end_of_text (front ++ d :: v) := by
  unfold end_of_text
  rw [if_neg (by simp), if_neg (by simp), List.cons_append, List.cons_append,
    List.cons_lt_cons_iff, List.append_assoc, List.append_assoc, append_lt_append_iff]
  exact .inr ⟨rfl, List.cons_lt_cons_iff.2 (.inl hcd)⟩

/-- **Where one goes on, its text stands first.** -/
theorem end_of_text_lt_of_ends {front rest : List Char} {c : Char} (hc : IsDigit c) :
    end_of_text (front ++ c :: rest) < end_of_text front := by
  have hbefore : c < 'Z' := lt_of_le_of_lt hc.2 (by decide)
  unfold end_of_text
  rw [if_neg (by simp)]
  rcases front with _ | ⟨d, front⟩
  · exact List.cons_lt_cons_iff.2 (.inl (by decide))
  · rw [if_neg (List.cons_ne_nil _ _), ← List.cons_append, List.append_assoc,
      append_lt_append_iff]
    exact List.cons_lt_cons_iff.2 (.inl hbefore)

/-! ## The order of the texts -/

/-- The fraction of one is the beginning of the longer fraction of the other. -/
def Prefixed (a b : UtcDateTime) : Prop :=
  a.fraction ≠ b.fraction ∧ (a.fraction <+: b.fraction ∨ b.fraction <+: a.fraction)

theorem Prefixed.symm {a b : UtcDateTime} (h : Prefixed a b) : Prefixed b a :=
  ⟨h.1.symm, h.2.symm⟩

theorem digits_lt_iff (a b : UtcDateTime) :
    digits 9 a.nanosecond < digits 9 b.nanosecond ↔ a.nanosecond < b.nanosecond := by
  have h := @digits_append_lt_iff 9 a.nanosecond b.nanosecond
    a.nanosecond_lt b.nanosecond_lt [] []
  rw [List.append_nil, List.append_nil] at h
  rw [h]
  simp

theorem not_prefix_of_digit {front u v : List Char} {c d : Char} (h : c ≠ d) :
    ¬ front ++ c :: u <+: front ++ d :: v := by
  rw [List.prefix_append_right_inj, List.cons_prefix_cons]
  exact fun hprefix => h hprefix.1

/-- What a difference of the fractions says about the texts, the instants and the condition. -/
theorem FractionsDiffer.compare {a b : UtcDateTime}
    (h : FractionsDiffer (digits 9 a.nanosecond) (digits 9 b.nanosecond)) :
    a.nanosecond < b.nanosecond ∧
      (end_of_text a.fraction < end_of_text b.fraction ∧ ¬ Prefixed a b ∨
        end_of_text b.fraction < end_of_text a.fraction ∧ Prefixed a b) := by
  cases h with
  | @at_digit front u v c d hx hy hcd hlt =>
      change a.fraction = _ at hx
      change b.fraction = _ at hy
      refine ⟨(digits_lt_iff a b).1 hlt, .inl ⟨?_, ?_⟩⟩
      · rw [hx, hy]
        exact end_of_text_lt_of_digit hcd
      · rintro ⟨-, hprefix⟩
        rw [hx, hy] at hprefix
        rcases hprefix with hprefix | hprefix
        · exact not_prefix_of_digit (ne_of_lt hcd) hprefix
        · exact not_prefix_of_digit (ne_of_gt hcd) hprefix
  | @ends c rest hy hlt =>
      change b.fraction = a.fraction ++ _ at hy
      have hc : IsDigit c := by
        refine isDigit_of_mem_digits (strip_zeros_subset (digits 9 b.nanosecond) ?_)
        change c ∈ b.fraction
        rw [hy]
        simp
      refine ⟨(digits_lt_iff a b).1 hlt, .inr ⟨?_, ?_, .inl ⟨_, hy.symm⟩⟩⟩
      · rw [hy]
        exact end_of_text_lt_of_ends hc
      · intro heq
        rw [heq] at hy
        exact List.cons_ne_nil c rest (List.append_right_eq_self.1 hy.symm)

/-- **Behind the seconds the texts compare as the instants do exactly when neither fraction is
the beginning of the other.** -/
theorem end_of_text_lt_iff (a b : UtcDateTime) :
    (end_of_text a.fraction < end_of_text b.fraction ↔ a.nanosecond < b.nanosecond) ↔
      ¬ Prefixed a b := by
  rcases fractions_cases (x := digits 9 a.nanosecond) (y := digits 9 b.nanosecond)
    (by rw [length_digits, length_digits]) (fun c hc => isDigit_of_mem_digits hc)
    (fun c hc => isDigit_of_mem_digits hc) with heq | hdiffer | hdiffer
  · have hnot : ¬ a.nanosecond < b.nanosecond := by
      rw [← digits_lt_iff, heq]
      exact lt_irrefl _
    have hfraction : a.fraction = b.fraction := congrArg strip_zeros heq
    rw [hfraction]
    exact iff_of_true (iff_of_false (lt_irrefl _) hnot) fun h => h.1 hfraction
  · obtain ⟨hlt, ⟨htext, hprefixed⟩ | ⟨htext, hprefixed⟩⟩ := hdiffer.compare
    · exact iff_of_true (iff_of_true htext hlt) hprefixed
    · exact iff_of_false (fun h => lt_asymm htext (h.2 hlt)) fun h => h hprefixed
  · obtain ⟨hlt, ⟨htext, hprefixed⟩ | ⟨htext, hprefixed⟩⟩ := hdiffer.compare
    · exact iff_of_true (iff_of_false (lt_asymm htext) (lt_asymm hlt)) fun h => hprefixed h.symm
    · exact iff_of_false (fun h => lt_asymm hlt (h.1 htext)) fun h => h hprefixed.symm

theorem cons_lt_cons_same {α : Type*} [LinearOrder α] (c : α) (u v : List α) :
    c :: u < c :: v ↔ u < v := by
  rw [List.cons_lt_cons_iff]
  simp

/-- **The text of a year that is not negative compares as the instant does up to the second**,
and as what stands behind it from there on. -/
theorem rfc3339_lt_iff {a b : UtcDateTime} (ha : ¬ a.year < 0) (hb : ¬ b.year < 0) :
    (rfc3339 a).getD [] < (rfc3339 b).getD [] ↔ a.to_second < b.to_second ∨
      a.to_second = b.to_second ∧ end_of_text a.fraction < end_of_text b.fraction := by
  have hay := a.year_lt
  have hby := b.year_lt
  have ham := a.month_lt
  have hbm := b.month_lt
  have had := a.day_lt
  have hbd := b.day_lt
  have hah := a.hour_lt
  have hbh := b.hour_lt
  have hai := a.minute_lt
  have hbi := b.minute_lt
  have has := a.second_lt
  have hbs := b.second_lt
  have hyear : (a.year.toNat < b.year.toNat ↔ a.year < b.year) ∧
      (a.year.toNat = b.year.toNat ↔ a.year = b.year) := by omega
  rw [rfc3339, rfc3339, if_neg ha, if_neg hb, Option.getD_some, Option.getD_some,
    digits_append_lt_iff (by omega) (by omega), cons_lt_cons_same,
    digits_append_lt_iff (by omega) (by omega), cons_lt_cons_same,
    digits_append_lt_iff (by omega) (by omega), cons_lt_cons_same,
    digits_append_lt_iff (by omega) (by omega), cons_lt_cons_same,
    digits_append_lt_iff (by omega) (by omega), cons_lt_cons_same,
    digits_append_lt_iff (by omega) (by omega), hyear.1, hyear.2]
  unfold UtcDateTime.to_second
  simp only [List.cons_lt_cons_iff, Nat.cast_lt, Nat.cast_inj, List.cons.injEq, lt_irrefl,
    and_true, and_false, or_false]
  tauto

end Timestamps
