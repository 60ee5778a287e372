/-
`ToolTokens.lean` -- the terminals and values of the tool grammars before the tools of
the extractors.

An extractor of `providers/llama-cpp/src/chat_format.rs` trims, and cuts at delimiters
outside of quotes and brackets. This file says what these do with what the grammars can
write: blanks, identifiers, numbers, quoted characters, and the values built of them. A
JSON value is crossed without a cut and leaves the scanner as it was, and so is a value
of the last format, since its quotes hold a quote; neither is blank at its ends.

Names are copied into the grammars through literals, which is the first part.
-/
import Querymt.Provider.ToolGrammar

set_option autoImplicit false

open Encodings Faults Texts

namespace Querymt.Llama

variable {S : Serde} {L : Gbnf} {tools : List (Tool S.Number)}

/-! ## Literals -/

theorem literal_append {a : Text} (ha : ∀ c ∈ a, c ≠ '"' ∧ c ≠ '\\') (b : Text) :
    L.literal (a ++ b) = (L.literal b).map (a ++ ·) := by
  induction a with
  | nil => simp
  | cons c a ih =>
      obtain ⟨h₁, h₂⟩ := ha c (List.mem_cons_self ..)
      rw [List.cons_append, L.literal_plain c _ h₁ h₂,
        ih fun c hc => ha c (List.mem_cons_of_mem _ hc), Option.map_map]
      rfl

/-- What is written for a character is read as that character. -/
theorem literal_gbnf_escape (c : Char) (s : Text) :
    L.literal (gbnf_escape c ++ s) = (L.literal s).map (c :: ·) := by
  unfold gbnf_escape
  by_cases h₁ : c = '\\'
  · rw [if_pos h₁, h₁]
    exact L.literal_backslash s
  rw [if_neg h₁]
  by_cases h₂ : c = '"'
  · rw [if_pos h₂, h₂]
    exact L.literal_quote s
  rw [if_neg h₂]
  by_cases h₃ : c = '\n'
  · rw [if_pos h₃, h₃]
    exact L.literal_newline s
  rw [if_neg h₃]
  by_cases h₄ : c = '\r'
  · rw [if_pos h₄, h₄]
    exact L.literal_return s
  rw [if_neg h₄]
  by_cases h₅ : c = '\t'
  · rw [if_pos h₅, h₅]
    exact L.literal_tab s
  rw [if_neg h₅]
  exact L.literal_plain c s h₂ h₁

/-- `gbnf_literal` is read as the text it was made from. -/
theorem literal_gbnf_literal (s : Text) : L.literal (gbnf_literal s) = some s := by
  induction s with
  | nil => exact L.literal_nil
  | cons c s ih =>
      have hcons : gbnf_literal (c :: s) = gbnf_escape c ++ gbnf_literal s := rfl
      rw [hcons, literal_gbnf_escape, ih, Option.map_some]

theorem ToolName.eq {name text : Text} (h : ToolName S L tools name text) : text = name := by
  have hread := h.2
  rw [literal_gbnf_literal] at hread
  exact (Option.some.inj hread).symm

/-- A name without quotes and backslashes may stand in a literal as it is. -/
theorem literal_of_plain {open_ name text : Text} (hopen : ∀ c ∈ open_, c ≠ '"' ∧ c ≠ '\\')
    (hq : '"' ∉ name) (hb : '\\' ∉ name)
    (h : L.literal (open_ ++ (name ++ ">\\n".toList)) = some text) :
    text = open_ ++ (name ++ ">\n".toList) := by
  have hname : ∀ c ∈ name, c ≠ '"' ∧ c ≠ '\\' := fun c hc =>
    ⟨fun heq => hq (heq ▸ hc), fun heq => hb (heq ▸ hc)⟩
  have hend : L.literal ">\\n".toList = some ">\n".toList := by
    have h₁ := L.literal_plain '>' ['\\', 'n'] (by decide) (by decide)
    have h₂ := L.literal_newline []
    rw [L.literal_nil] at h₂
    rw [h₂] at h₁
    exact h₁
  rw [literal_append hopen, literal_append hname, hend] at h
  exact (Option.some.inj h).symm

/-! ## Blanks and identifiers -/

theorem Ws.append {w w' : Text} (h : Ws w) (h' : Ws w') : Ws (w ++ w') := by
  intro c hc
  exact (List.mem_append.1 hc).elim (h c) (h' c)

theorem ws_nil : Ws [] := fun _ h => absurd h (List.not_mem_nil)

theorem Ws.blank {w : Text} (h : Ws w) : ∀ c ∈ w, is_whitespace c := by
  intro c hc
  have hmem := h c hc
  simp only [List.mem_cons, List.not_mem_nil, or_false] at hmem
  obtain rfl | rfl | rfl | rfl := hmem <;> decide

theorem Ws.plain {w : Text} (h : Ws w) {d : Char} (hd : Delimiter d) : ∀ c ∈ w, Plain d c := by
  intro c hc
  have hmem := h c hc
  simp only [List.mem_cons, List.not_mem_nil, or_false] at hmem
  unfold Plain
  obtain rfl | rfl | rfl := hd <;> obtain rfl | rfl | rfl | rfl := hmem <;> decide

theorem Ws.not_mem {w : Text} (h : Ws w) {c : Char} (hc : c ∉ [' ', '\t', '\n', '\r']) : c ∉ w :=
  fun hmem => hc (h c hmem)

theorem trim_ws {w w' : Text} (h : Ws w) (h' : Ws w') (s : Text) : trim (w ++ (s ++ w')) = trim s :=
  trim_pad h.blank h'.blank s

theorem trim_ws_left {w : Text} (h : Ws w) (s : Text) : trim (w ++ s) = trim s :=
  trim_append_left h.blank s

theorem trim_ws_right {w : Text} (h : Ws w) (s : Text) : trim (s ++ w) = trim s :=
  trim_append_right h.blank s

theorem trim_of_tight {s : Text} (h : Tight is_whitespace s) : trim s = s := trim_eq_self_iff.2 h

/-- The characters of identifiers and numbers mean nothing to the scanner. -/
theorem plain_of_word {c d : Char} (hd : Delimiter d)
    (hc : c.isAlphanum ∨ c ∈ ['_', '-', '+', '.']) : Plain d c := by
  unfold Plain
  intro hmem
  have hd' : d = ',' ∨ d = '=' ∨ d = ':' := hd
  simp only [List.mem_cons, List.not_mem_nil, or_false] at hmem
  obtain rfl | rfl | rfl := hd' <;>
    obtain rfl | rfl | rfl | rfl | rfl | rfl | rfl | rfl := hmem <;> revert hc <;> decide

theorem not_blank_of_word {c : Char} (hc : c.isAlphanum ∨ c ∈ ['_', '-', '+', '.']) :
    is_whitespace c = false := by
  rw [Bool.eq_false_iff]
  intro hblank
  simp only [is_whitespace, Bool.or_eq_true, decide_eq_true_eq, List.mem_cons, List.not_mem_nil,
    or_false] at hblank
  obtain halnum | hmem := hc
  · simp only [Char.isAlphanum, Char.isAlpha, Char.isUpper, Char.isLower, Char.isDigit,
      Bool.or_eq_true, Bool.and_eq_true, decide_eq_true_eq, ge_iff_le, UInt32.le_iff_toNat_le]
      at halnum
    have hval : c.val.toNat = c.toNat := rfl
    simp only [hval, Char.reduceVal, UInt32.reduceToNat] at halnum
    omega
  · simp only [List.mem_cons, List.not_mem_nil, or_false] at hmem
    obtain rfl | rfl | rfl | rfl := hmem <;> revert hblank <;> decide

theorem word_of_alphanum {s : Text} (hs : s.all Char.isAlphanum = true) :
    ∀ c ∈ s, c.isAlphanum ∨ c ∈ ['_', '-', '+', '.'] :=
  fun c hc => .inl (List.all_eq_true.1 hs c hc)

theorem Identifier.word {s : Text} (h : Identifier s) :
    ∀ c ∈ s, c.isAlphanum ∨ c ∈ ['_', '-', '+', '.'] := by
  obtain ⟨c, cs, rfl, hc, hcs⟩ := h
  intro x hx
  obtain rfl | hx := List.mem_cons.1 hx
  · obtain halpha | rfl := hc
    · exact .inl (by rw [Char.isAlphanum, halpha, Bool.true_or])
    · exact .inr (by decide)
  · obtain hx | rfl | rfl := hcs x hx
    · exact .inl hx
    · exact .inr (by decide)
    · exact .inr (by decide)

theorem Number.word {s : Text} (h : Number s) :
    ∀ c ∈ s, c.isAlphanum ∨ c ∈ ['_', '-', '+', '.'] := by
  obtain ⟨sign, int, frac, exp, rfl, hsign, ⟨c, cs, rfl, hc, hcs, -⟩, hfrac, hexp⟩ := h
  have hdigit : ∀ d : Char, d.isDigit → d.isAlphanum ∨ d ∈ ['_', '-', '+', '.'] := by
    intro d hd
    exact .inl (by rw [Char.isAlphanum, hd, Bool.or_true])
  intro x hx
  simp only [List.mem_append, List.mem_cons] at hx
  obtain hx | (rfl | hx) | hx | hx := hx
  · obtain rfl | rfl := hsign
    · cases hx
    · exact .inr (by simp [List.mem_singleton.1 hx])
  · exact hdigit x hc
  · exact hdigit x (hcs x hx)
  · obtain rfl | ⟨ds, rfl, -, hds⟩ := hfrac
    · cases hx
    · obtain rfl | hx := List.mem_cons.1 hx
      · exact .inr (by decide)
      · exact hdigit x (hds x hx)
  · obtain rfl | ⟨e, plus, ds, rfl, he, hplus, -, hds⟩ := hexp
    · cases hx
    · obtain rfl | hx := List.mem_cons.1 hx
      · obtain rfl | rfl := he <;> exact .inl (by decide)
      · obtain hx | hx := List.mem_append.1 hx
        · obtain rfl | rfl | rfl := hplus
          · cases hx
          · exact .inr (by simp [List.mem_singleton.1 hx])
          · exact .inr (by simp [List.mem_singleton.1 hx])
        · exact hdigit x (hds x hx)

theorem Number.ne_nil {s : Text} (h : Number s) : s ≠ [] := by
  obtain ⟨sign, int, frac, exp, rfl, -, ⟨c, cs, rfl, -⟩, -⟩ := h
  simp

/-! ## Quoted characters -/

section Quoted

variable {d : Char} {n : ℤ}

/-- The quotes stay closed over the characters of a string. -/
theorem pass_characters {s : Text} (h : Characters s) (r : Text) :
    Scan.pass d (.quoted n) (s ++ r) = Scan.pass d (.quoted n) r := by
  induction h with
  | nil => rfl
  | plain h₁ h₂ _ ih => rw [List.cons_append, pass_quoted_plain h₁ h₂, ih]
  | escape _ _ ih => rw [List.cons_append, List.cons_append, pass_quoted_escape, ih]
  | unicode h₁ h₂ h₃ h₄ _ ih =>
      have hhex : ∀ {c : Char}, IsHex c → c ≠ '"' ∧ c ≠ '\\' := by
        intro c hc
        unfold IsHex at hc
        constructor <;> rintro rfl <;> revert hc <;> decide
      simp only [List.cons_append]
      rw [pass_quoted_escape, pass_quoted_plain (hhex h₁).1 (hhex h₁).2,
        pass_quoted_plain (hhex h₂).1 (hhex h₂).2, pass_quoted_plain (hhex h₃).1 (hhex h₃).2,
        pass_quoted_plain (hhex h₄).1 (hhex h₄).2, ih]

theorem pass_string {s : Text} (h : Characters s) (r : Text) :
    Scan.pass d (.at_depth n) ('"' :: (s ++ '"' :: r)) = Scan.pass d (.at_depth n) r := by
  rw [pass_cons_of_read read_quote, pass_characters h, pass_cons_of_read read_unquote]

end Quoted

/-- A string without a backslash denotes itself. -/
theorem unescape_of_not_mem {s : Text} (hs : '\\' ∉ s) : unescape s = some s := by
  induction s with
  | nil => rfl
  | cons c s ih =>
      rw [List.mem_cons, not_or] at hs
      rw [unescape, ih hs.2]
      · rfl
      -- the other patterns start with a backslash
      all_goals
        intros
        exact hs.1 (‹c = '\\'›).symm

/-! ## Values -/

/-- The depth from which the scanner does not cut a part: the commas of elements and
members stand within the brackets of their array or object. -/
def Part.depth {N : Type} : Part N → ℤ
  | .value _ => 0
  | .elements _ => 1
  | .members _ => 1

section Values

variable {d : Char} (hd : Delimiter d)

include hd

theorem pass_ws {w : Text} (hw : Ws w) (n : ℤ) (r : Text) :
    Scan.pass d (.at_depth n) (w ++ r) = Scan.pass d (.at_depth n) r :=
  pass_trans (pass_plain (hw.plain hd))

theorem pass_word {s : Text} (hs : ∀ c ∈ s, c.isAlphanum ∨ c ∈ ['_', '-', '+', '.']) (n : ℤ) :
    Scan.pass d (.at_depth n) s = some (.at_depth n) :=
  pass_plain fun c hc => plain_of_word hd (hs c hc)

/-- A nested delimiter between blanks. -/
theorem pass_nested {c : Char} (hc : Delimiter c) {w w' : Text} (hw : Ws w) (hw' : Ws w') {n : ℤ}
    (hn : 1 ≤ n) (r : Text) :
    Scan.pass d (.at_depth n) (w ++ c :: (w' ++ r)) = Scan.pass d (.at_depth n) r := by
  rw [pass_ws hd hw, pass_cons_of_read (read_nested hc hn), pass_ws hd hw']

/-- A character that means nothing, between blanks. -/
theorem pass_between {c : Char} (hc : Plain d c) {w w' : Text} (hw : Ws w) (hw' : Ws w') (n : ℤ)
    (r : Text) : Scan.pass d (.at_depth n) (w ++ c :: (w' ++ r)) = Scan.pass d (.at_depth n) r := by
  rw [pass_ws hd hw, pass_cons_of_read (read_plain hc), pass_ws hd hw']

omit hd in
/-- What stands within brackets is crossed one level deeper. -/
theorem pass_brackets {o c : Char} (ho : o = '(' ∨ o = '[' ∨ o = '\x7b')
    (hc : c = ')' ∨ c = ']' ∨ c = '\x7d') {s : Text} {n : ℤ}
    (hs : Scan.pass d (.at_depth (n + 1)) s = some (.at_depth (n + 1))) :
    Scan.pass d (.at_depth n) (o :: (s ++ [c])) = some (.at_depth n) := by
  rw [pass_cons_of_read (read_open ho), pass_trans hs, pass_cons_of_read (read_close hc),
    Int.add_sub_cancel]
  rfl

/-- Between blanks, as within brackets. -/
theorem pass_padded {w t w' : Text} (hw : Ws w) (hw' : Ws w') {n : ℤ}
    (ht : Scan.pass d (.at_depth n) t = some (.at_depth n)) :
    Scan.pass d (.at_depth n) (w ++ (t ++ w')) = some (.at_depth n) := by
  rw [pass_ws hd hw, pass_trans ht, ← List.append_nil w', pass_ws hd hw']
  rfl

theorem pass_blank {w : Text} (hw : Ws w) (n : ℤ) :
    Scan.pass d (.at_depth n) w = some (.at_depth n) := by
  rw [← List.append_nil w, pass_ws hd hw]
  rfl

/-- A JSON value is crossed without a cut and leaves the scanner as it was. -/
theorem Derives.pass {t : Text} {part : Part S.Number} (h : Derives S t part) {n : ℤ}
    (hn : part.depth ≤ n) : Scan.pass d (.at_depth n) t = some (.at_depth n) := by
  induction h generalizing n with
  | null => exact pass_word hd (word_of_alphanum rfl) n
  | «true» => exact pass_word hd (word_of_alphanum rfl) n
  | «false» => exact pass_word hd (word_of_alphanum rfl) n
  | number hnum => exact pass_word hd hnum.word n
  | string hs => exact pass_string hs []
  | array_empty hw =>
      exact pass_brackets (by decide) (by decide) (pass_blank hd hw _)
  | array hw _ hw' ih =>
      have hdepth : (0 : ℤ) ≤ n := hn
      exact pass_brackets (by decide) (by decide)
        (pass_padded hd hw hw' (ih (by rw [Part.depth]; omega)))
  | object_empty hw =>
      exact pass_brackets (by decide) (by decide) (pass_blank hd hw _)
  | object hw _ hw' ih =>
      have hdepth : (0 : ℤ) ≤ n := hn
      exact pass_brackets (by decide) (by decide)
        (pass_padded hd hw hw' (ih (by rw [Part.depth]; omega)))
  | element _ ih =>
      have hdepth : (1 : ℤ) ≤ n := hn
      exact ih (by rw [Part.depth]; omega)
  | elements _ hw hw' _ ih ih' =>
      have hdepth : (1 : ℤ) ≤ n := hn
      rw [pass_trans (ih (by rw [Part.depth]; omega)), pass_nested hd (.inl rfl) hw hw' hdepth]
      exact ih' hn
  | member hk hw hw' _ ih =>
      have hdepth : (1 : ℤ) ≤ n := hn
      rw [List.cons_append, List.append_assoc, List.singleton_append, pass_string hk,
        pass_nested hd (.inr (.inr rfl)) hw hw' hdepth]
      exact ih (by rw [Part.depth]; omega)
  | members hk hw hw' _ hw₁ hw₁' _ ih ih' =>
      have hdepth : (1 : ℤ) ≤ n := hn
      rw [List.append_assoc, List.cons_append, List.append_assoc, List.singleton_append,
        pass_string hk, List.append_assoc, List.cons_append, List.append_assoc,
        pass_nested hd (.inr (.inr rfl)) hw hw' hdepth,
        pass_trans (ih (by rw [Part.depth]; omega)), pass_nested hd (.inl rfl) hw₁ hw₁' hdepth]
      exact ih' hn

theorem plain_mark {c : Char} (hc : c = '<' ∨ c = '|' ∨ c = '>') : Plain d c := by
  unfold Plain
  have hd' : d = ',' ∨ d = '=' ∨ d = ':' := hd
  obtain rfl | rfl | rfl := hd' <;> obtain rfl | rfl | rfl := hc <;> decide

/-- The quotes of the last format hold a quote, with marks on both sides. -/
theorem pass_gemma_string {s : Text} (hs : Characters s) (n : ℤ) :
    Scan.pass d (.at_depth n) (gemma_quote ++ (s ++ gemma_quote)) = some (.at_depth n) := by
  have hlt : Plain d '<' := plain_mark hd (.inl rfl)
  have hbar : Plain d '|' := plain_mark hd (.inr (.inl rfl))
  have hgt : Plain d '>' := plain_mark hd (.inr (.inr rfl))
  have hmarks : gemma_quote ++ (s ++ gemma_quote) =
      '<' :: '|' :: '"' :: '|' :: '>' :: (s ++ '<' :: '|' :: '"' :: '|' :: ['>']) := rfl
  rw [hmarks, pass_cons_of_read (read_plain hlt), pass_cons_of_read (read_plain hbar),
    pass_cons_of_read read_quote, pass_quoted_plain (by decide) (by decide),
    pass_quoted_plain (by decide) (by decide), pass_characters hs,
    pass_quoted_plain (by decide) (by decide), pass_quoted_plain (by decide) (by decide),
    pass_cons_of_read read_unquote, pass_cons_of_read (read_plain hbar),
    pass_cons_of_read (read_plain hgt)]
  rfl

/-- So is a value of the last format: its quotes open and close those of the scanner. -/
theorem Gemma.pass {t : Text} {part : Part S.Number} {ls : List Leaf} (h : Gemma S t part ls)
    {n : ℤ} (hn : part.depth ≤ n) : Scan.pass d (.at_depth n) t = some (.at_depth n) := by
  induction h generalizing n with
  | null => exact pass_word hd (word_of_alphanum rfl) n
  | «true» => exact pass_word hd (word_of_alphanum rfl) n
  | «false» => exact pass_word hd (word_of_alphanum rfl) n
  | number hnum => exact pass_word hd hnum.word n
  | string hs => exact pass_gemma_string hd hs n
  | array_empty hw =>
      exact pass_brackets (by decide) (by decide) (pass_blank hd hw _)
  | array hw _ hw' ih =>
      have hdepth : (0 : ℤ) ≤ n := hn
      exact pass_brackets (by decide) (by decide)
        (pass_padded hd hw hw' (ih (by rw [Part.depth]; omega)))
  | object_empty hw =>
      exact pass_brackets (by decide) (by decide) (pass_blank hd hw _)
  | object hw _ hw' ih =>
      have hdepth : (0 : ℤ) ≤ n := hn
      exact pass_brackets (by decide) (by decide)
        (pass_padded hd hw hw' (ih (by rw [Part.depth]; omega)))
  | element _ ih =>
      have hdepth : (1 : ℤ) ≤ n := hn
      exact ih (by rw [Part.depth]; omega)
  | elements _ hw _ ih ih' =>
      have hdepth : (1 : ℤ) ≤ n := hn
      rw [pass_trans (ih (by rw [Part.depth]; omega)), ← List.nil_append (',' :: _),
        pass_nested hd (.inl rfl) ws_nil hw hdepth]
      exact ih' hn
  | member hk hw hw' _ ih =>
      have hdepth : (1 : ℤ) ≤ n := hn
      rw [List.append_assoc, pass_trans (pass_word hd hk.word n),
        pass_nested hd (.inr (.inr rfl)) hw hw' hdepth]
      exact ih (by rw [Part.depth]; omega)
  | members hk hw hw' _ hw₁ _ ih ih' =>
      have hdepth : (1 : ℤ) ≤ n := hn
      rw [List.append_assoc, List.append_assoc, pass_trans (pass_word hd hk.word n),
        List.cons_append, List.append_assoc, pass_nested hd (.inr (.inr rfl)) hw hw' hdepth,
        pass_trans (ih (by rw [Part.depth]; omega)), ← List.nil_append (',' :: _),
        pass_nested hd (.inl rfl) ws_nil hw₁ hdepth]
      exact ih' hn

end Values

/-- Not empty, and not blank at its ends. -/
def Solid (s : Text) : Prop := Tight is_whitespace s ∧ s ≠ []

theorem Solid.trim_eq {s : Text} (h : Solid s) : trim s = s := trim_of_tight h.1

theorem Solid.join {a b : Text} (ha : Solid a) (hb : Solid b) (m : Text) : Solid (a ++ (m ++ b)) :=
  ⟨ha.1.join hb.1 ha.2 hb.2 m, List.append_ne_nil_of_left_ne_nil ha.2 _⟩

theorem solid_of_word {s : Text} (hs : ∀ c ∈ s, c.isAlphanum ∨ c ∈ ['_', '-', '+', '.'])
    (hne : s ≠ []) : Solid s :=
  ⟨tight_of_forall_not fun c hc => not_blank_of_word (hs c hc), hne⟩

theorem solid_of_ends {c d : Char} (hc : is_whitespace c = false) (hd : is_whitespace d = false)
    (s : Text) : Solid (c :: (s ++ [d])) :=
  ⟨tight_of_ends hc hd s, List.cons_ne_nil c _⟩

theorem Derives.solid {t : Text} {v : Json S.Number} (h : Derives S t (.value v)) : Solid t := by
  cases h with
  | null => exact solid_of_word (word_of_alphanum rfl) (by decide)
  | «true» => exact solid_of_word (word_of_alphanum rfl) (by decide)
  | «false» => exact solid_of_word (word_of_alphanum rfl) (by decide)
  | number hnum => exact solid_of_word hnum.word hnum.ne_nil
  | string _ => exact solid_of_ends rfl rfl _
  | array_empty _ => exact solid_of_ends rfl rfl _
  | array _ _ _ => exact solid_of_ends rfl rfl _
  | object_empty _ => exact solid_of_ends rfl rfl _
  | object _ _ _ => exact solid_of_ends rfl rfl _

theorem Gemma.solid {t : Text} {v : Json S.Number} {ls : List Leaf}
    (h : Gemma S t (.value v) ls) : Solid t := by
  cases h with
  | null => exact solid_of_word (word_of_alphanum rfl) (by decide)
  | «true» => exact solid_of_word (word_of_alphanum rfl) (by decide)
  | «false» => exact solid_of_word (word_of_alphanum rfl) (by decide)
  | number hnum => exact solid_of_word hnum.word hnum.ne_nil
  | @string s _ =>
      have hends : gemma_quote ++ (s ++ gemma_quote) =
          '<' :: (['|', '"', '|', '>'] ++ (s ++ ['<', '|', '"', '|']) ++ ['>']) := by
        simp [gemma_quote]
      rw [hends]
      exact solid_of_ends rfl rfl _
  | array_empty _ => exact solid_of_ends rfl rfl _
  | array _ _ _ => exact solid_of_ends rfl rfl _
  | object_empty _ => exact solid_of_ends rfl rfl _
  | object _ _ _ => exact solid_of_ends rfl rfl _

/-! ## Keyed items -/

section Keyed

variable {key w w' : Text} (hkey : Identifier key)

include hkey

theorem Identifier.ne_nil : key ≠ [] := by
  obtain ⟨c, cs, rfl, -⟩ := hkey
  exact List.cons_ne_nil c cs

/-- A key and its value, whatever stands between them. -/
theorem solid_keyed {v : Text} (hv : Solid v) (d : Char) (w w' : Text) :
    Solid (key ++ w ++ d :: (w' ++ v)) := by
  have htext : key ++ w ++ d :: (w' ++ v) = key ++ (w ++ d :: w' ++ v) := by
    simp
  rw [htext]
  exact (solid_of_word hkey.word hkey.ne_nil).join hv _

theorem trim_key (hw : Ws w) : trim (key ++ w) = key := by
  rw [trim_ws_right hw, (solid_of_word hkey.word hkey.ne_nil).trim_eq]

/-- The key with its blanks stands before the first delimiter. -/
theorem split_keyed (hw : Ws w) {d : Char} (hd : Delimiter d) (rest : Text) :
    split_first_top_level (key ++ w ++ d :: rest) d = some (key ++ w, rest) := by
  refine split_first_top_level_append hd ?_ rest
  rw [Scan.start, pass_trans (pass_word hd hkey.word 0), pass_blank hd hw]

/-- Before a comma is looked for, only the value matters. -/
theorem pass_keyed {d : Char} (hd : d = '=' ∨ d = ':') (hw : Ws w) (hw' : Ws w') (n : ℤ)
    (r : Text) : Scan.pass ',' (.at_depth n) (key ++ w ++ d :: (w' ++ r)) =
      Scan.pass ',' (.at_depth n) r := by
  have hplain : Plain ',' d := by
    unfold Plain
    obtain rfl | rfl := hd <;> decide
  rw [List.append_assoc, pass_trans (pass_word (.inl rfl) hkey.word n),
    pass_between (.inl rfl) hplain hw hw']

end Keyed

/-! ## Lists -/

/-- What a comma list is cut into: an item between blanks. -/
def Segment {α : Type} (rule : Text → α → Prop) (part : Text) (a : α) : Prop :=
  ∃ w t w', Ws w ∧ rule t a ∧ Ws w' ∧ part = w ++ (t ++ w')

/-- All but the last satisfy `P`, the last one `Q`. -/
def AllButLast {α : Type} (P Q : α → Prop) : List α → Prop
  | [] => True
  | [a] => Q a
  | a :: b :: as => P a ∧ AllButLast P Q (b :: as)

theorem AllButLast.of_forall {α : Type} {P Q : α → Prop} {as : List α} (hP : ∀ a ∈ as, P a)
    (hQ : ∀ a ∈ as, Q a) : AllButLast P Q as := by
  induction as with
  | nil => trivial
  | cons a as ih =>
      cases as with
      | nil => exact hQ a (List.mem_cons_self ..)
      | cons b as =>
          exact ⟨hP a (List.mem_cons_self ..),
            ih (fun x hx => hP x (List.mem_cons_of_mem _ hx))
              fun x hx => hQ x (List.mem_cons_of_mem _ hx)⟩

theorem AllButLast.of_map {α β : Type} {P Q : β → Prop} {f : α → β} {as : List α}
    (h : AllButLast P Q (as.map f)) : AllButLast (fun a => P (f a)) (fun a => Q (f a)) as := by
  induction as with
  | nil => trivial
  | cons a as ih =>
      cases as with
      | nil => exact h
      | cons b as => exact ⟨h.1, ih h.2⟩

/-- The last item of a comma list, with its blanks. -/
theorem split_last {t w w' : Text} (ht : (Scan.pass ',' .start (t ++ w')).isSome) (hw : Ws w) :
    split_top_level (w ++ (t ++ w')) ',' = [w ++ (t ++ w')] := by
  refine split_top_level_of_pass ?_
  rw [Scan.start, pass_ws (.inl rfl) hw]
  exact ht

/-- An item before another one. -/
theorem split_item {t w : Text} (ht : Scan.pass ',' .start t = some .start) (hw : Ws w)
    (w₁ t' w' : Text) : split_top_level (w ++ (t ++ ',' :: (w₁ ++ t') ++ w')) ',' =
      (w ++ (t ++ [])) :: split_top_level (w₁ ++ (t' ++ w')) ',' := by
  have hpass : Scan.pass ',' .start (w ++ t) = some .start := by
    rw [Scan.start, pass_ws (.inl rfl) hw]
    exact ht
  have htext : w ++ (t ++ ',' :: (w₁ ++ t') ++ w') = (w ++ t) ++ ',' :: (w₁ ++ (t' ++ w')) := by
    simp
  rw [htext, split_top_level_cons (.inl rfl) hpass, List.append_nil]

/-- What is crossed is not cut, with blanks behind it. -/
theorem isSome_pass_padded {t w : Text} (ht : Scan.pass ',' .start t = some .start) (hw : Ws w) :
    (Scan.pass ',' .start (t ++ w)).isSome := by
  rw [pass_trans ht, Scan.start, pass_blank (.inl rfl) hw]
  rfl

/-- A comma list is cut into its items, if each of them but the last is crossed and the
last is not cut. -/
theorem split_separated {α : Type} {rule : Text → α → Prop} {P Q : α → Prop}
    (hP : ∀ t a, rule t a → P a → Scan.pass ',' .start t = some .start)
    (hQ : ∀ t a w, rule t a → Q a → Ws w → (Scan.pass ',' .start (t ++ w)).isSome)
    {t : Text} {as : List α} (h : Separated rule t as) (has : AllButLast P Q as) {w w' : Text}
    (hw : Ws w) (hw' : Ws w') :
    List.Forall₂ (Segment rule) (split_top_level (w ++ (t ++ w')) ',') as := by
  induction h generalizing w with
  | @one t a ht =>
      rw [split_last (hQ t a w' ht has hw') hw]
      exact .cons ⟨w, t, w', hw, ht, hw', rfl⟩ .nil
  | @cons t w₁ t' a as ht hw₁ hrest ih =>
      have hsplit : P a ∧ AllButLast P Q as := by
        cases hrest <;> exact has
      rw [split_item (hP t a ht hsplit.1) hw]
      exact .cons ⟨w, t, [], hw, ht, ws_nil, rfl⟩ (ih hsplit.2 hw₁)

theorem split_blank {w : Text} (hw : Ws w) : split_top_level w ',' = [w] := by
  refine split_top_level_of_pass ?_
  rw [Scan.start, pass_blank (.inl rfl) hw]
  rfl

theorem trim_blank {w : Text} (hw : Ws w) : trim w = [] := by
  rw [← List.append_nil w, trim_ws_left hw]
  rfl

theorem split_separated_of_crossed {α : Type} {rule : Text → α → Prop}
    (hrule : ∀ t a, rule t a → Scan.pass ',' .start t = some .start) {t : Text} {as : List α}
    (h : Separated rule t as) {w w' : Text} (hw : Ws w) (hw' : Ws w') :
    List.Forall₂ (Segment rule) (split_top_level (w ++ (t ++ w')) ',') as := by
  have hall : AllButLast (fun _ => True) (fun _ => True) as :=
    .of_forall (fun _ _ => trivial) fun _ _ => trivial
  exact split_separated (fun t a ht _ => hrule t a ht)
    (fun t a w ht _ hw => isSome_pass_padded (hrule t a ht) hw) h hall hw hw'

/-- A list of items that each satisfy `P`. -/
theorem Separated.attach {α : Type} {rule : Text → α → Prop} {P : α → Prop} {t : Text}
    {as : List α} (h : Separated rule t as) (has : ∀ a ∈ as, P a) :
    Separated (fun t a => rule t a ∧ P a) t as := by
  induction h with
  | one ht => exact .one ⟨ht, has _ (List.mem_cons_self ..)⟩
  | cons ht hw _ ih =>
      exact .cons ⟨ht, has _ (List.mem_cons_self ..)⟩ hw
        (ih fun a ha => has a (List.mem_cons_of_mem _ ha))

theorem Listed.attach {α : Type} {rule : Text → α → Prop} {P : α → Prop} {t : Text} {as : List α}
    (h : Listed rule t as) (has : ∀ a ∈ as, P a) : Listed (fun t a => rule t a ∧ P a) t as := by
  obtain hnil | h := h
  · exact .inl hnil
  · exact .inr (h.attach has)

end Querymt.Llama
