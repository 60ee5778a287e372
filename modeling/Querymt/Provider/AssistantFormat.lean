/-
`Provider/AssistantFormat.lean` -- a generated text as content, thinking and tool calls.

Mirrors `parse_assistant_format_with_state` and `strip_tool_blocks` (`chat_format.rs`) of the
llama.cpp provider. The tool calls are read from the text without its reasoning, and what is left
of that text without its tool blocks is the content.

# When a text can be parsed

Three of the extractors take what stands between the first opening bracket and the last closing
one. A call whose last closing bracket stands before its first opening one is no such range, and
on it, and on nothing else, the parser panics (`parse_returns_iff`).
-/
import Querymt.Library.Offsets
import Querymt.Provider.Reasoning
import Querymt.Provider.ToolFormats

set_option autoImplicit false

open Faults Texts
open Strings (Inverted within_or_inverted exists_first exists_last)

namespace Querymt.Llama

/-! ## 1. Without the tool blocks -/

def strip_blocks_within (start_tag end_tag : Text) : ℕ → Text → Text → Text
  | 0, rest, output => output ++ rest
  | fuel + 1, rest, output =>
      match cut start_tag rest with
      | none => output ++ rest
      | some (content, after_start) =>
          match cut end_tag after_start with
          | none => output ++ content
          | some (_, rest) => strip_blocks_within start_tag end_tag fuel rest (output ++ content)

def strip_tagged_blocks (text start_tag end_tag : Text) : Text :=
  strip_blocks_within start_tag end_tag (text.length + 1) text []

def strip_ministral_blocks (text : Text) : Text :=
  match cut "[TOOL_CALLS]".toList text with
  | some (content, _) => content
  | none => text

def strip_tool_blocks (text : Text) : Text :=
  let out := strip_tagged_blocks text "<tool_call>".toList "</tool_call>".toList
  let out := strip_tagged_blocks out "<|tool_call>".toList "<tool_call|>".toList
  let out := strip_tagged_blocks out "<start_function_call>".toList "<end_function_call>".toList
  let out := strip_tagged_blocks out "<|tool_call_start|>".toList "<|tool_call_end|>".toList
  strip_ministral_blocks out

structure ParsedFormat where
  content : Text
  thinking : Option Text
  tool_calls : Option (List ToolCall)
  deriving DecidableEq

def parse_assistant_format_with_state (S : Serde) (text : Text) (reasoning_format : ReasoningFormat)
    (starts_in_thinking : Bool) : Run ParsedFormat := do
  let r := extract_reasoning_blocks reasoning_format text starts_in_thinking
  let calls ← extract_tool_calls S r.2
  return ⟨trim (strip_tool_blocks r.2), r.1, calls⟩

/-! ## 2. The calls that are cut at brackets -/

/-- The text of a block without the brackets around its calls. -/
def unbracketed (body : Text) : Text :=
  let body := trim body
  let body := (strip_start ['['] body).getD body
  (strip_end [']'] body).getD body

/-- The texts that `parse_lfm2_call` is given. -/
def lfm2_calls (text : Text) : List Text :=
  (extract_tag_bodies text "<|tool_call_start|>".toList "<|tool_call_end|>".toList).flatMap
    fun body => split_top_level (unbracketed body) ','

/-- **The ranges of a text are ranges**: no call has its last closing bracket before its first
opening one. Of a Gemma 4 call the brackets are within the range, and may stand side by side. -/
structure Bracketed (text : Text) : Prop where
  lfm2 : ∀ raw ∈ lfm2_calls text, ∀ m, ¬ Inverted '(' ')' (trim raw) m
  function_gemma : ∀ body ∈
    extract_tag_bodies text "<start_function_call>".toList "<end_function_call>".toList,
    ∀ rest, strip_start "call:".toList (trim body) = some rest →
      ∀ m, ¬ Inverted '\x7b' '\x7d' rest m
  gemma4 : ∀ body ∈ extract_tag_bodies text "<|tool_call>".toList "<tool_call|>".toList,
    ∀ rest, strip_start "call:".toList (trim body) = some rest →
      ∀ m, Inverted '\x7b' '\x7d' rest m → m = []

/-- The computation does not panic. -/
def Returns {α : Type} (x : Run α) : Prop := ∃ a, x = .ok a

section

variable {α β : Type}

@[simp] theorem returns_ok (a : α) : Returns (.ok a : Run α) := ⟨a, rfl⟩

@[simp] theorem returns_pure (a : α) : Returns (pure a : Run α) := ⟨a, rfl⟩

@[simp] theorem not_returns_panic : ¬ Returns (.error .Panic : Run α) := fun ⟨_, h⟩ => by cases h

theorem returns_bind {x : Run α} {f : α → Run β} (hf : ∀ a, Returns (f a)) :
    Returns (x >>= f) ↔ Returns x := by
  constructor
  · rintro ⟨b, hb⟩
    obtain ⟨a, ha, -⟩ := bind_eq_ok.1 hb
    exact ⟨a, ha⟩
  · rintro ⟨a, rfl⟩
    exact hf a

theorem returns_bind_of {x : Run α} {f : α → Run β} {p : Prop}
    (hf : ∀ a, x = .ok a → (Returns (f a) ↔ p)) : Returns (x >>= f) ↔ Returns x ∧ p := by
  constructor
  · rintro ⟨b, hb⟩
    obtain ⟨a, ha, hfa⟩ := bind_eq_ok.1 hb
    exact ⟨⟨a, ha⟩, (hf a ha).1 ⟨b, hfa⟩⟩
  · rintro ⟨⟨a, rfl⟩, hp⟩
    exact (hf a rfl).2 hp

theorem returns_filter_map {f : α → Run (Option β)} {as : List α} :
    Returns (filter_map f as) ↔ ∀ a ∈ as, Returns (f a) := by
  induction as with
  | nil => simp [filter_map]
  | cons a as ih =>
      rw [filter_map, returns_bind_of (p := ∀ a ∈ as, Returns (f a)), List.forall_mem_cons]
      intro b _
      exact (returns_bind fun bs => returns_pure _).trans ih

end

/-! ## 3. Ranges between brackets -/

theorem rfind_last {c : Char} {b : Text} (hb : c ∉ b) (a : Text) :
    rfind c (a ++ c :: b) = some a.length := by
  have hfirst : (a ++ c :: b).reverse = b.reverse ++ c :: a.reverse := by simp
  have hfind := find_append (a := b.reverse) (fun h => hb (List.mem_reverse.1 h)) a.reverse
  unfold find at hfind
  rw [rfind, hfirst, hfind]
  simp

section

variable {o c : Char} {s m : Text} {i j : ℕ}

/-- The offsets of brackets that stand the wrong way round. -/
theorem offsets_of_inverted (hne : o ≠ c) (h : Inverted o c s m) (hi : find o s = some i)
    (hj : rfind c s = some j) : i = j + 1 + m.length := by
  obtain ⟨a, b, rfl, ha, hm, hm', hb⟩ := h
  have hlast : c ∉ m ++ o :: b := by
    simp [hm', hb, Ne.symm hne]
  have hfirst : o ∉ a ++ c :: m := by
    simp [ha, hm, hne]
  have hsplit : a ++ c :: (m ++ o :: b) = (a ++ c :: m) ++ o :: b := by simp
  rw [rfind_last hlast, Option.some.injEq] at hj
  rw [hsplit, find_append hfirst, Option.some.injEq, List.length_append, List.length_cons] at hi
  omega

theorem found_of_inverted (h : Inverted o c s m) : o ∈ s ∧ c ∈ s := by
  obtain ⟨a, b, rfl, -⟩ := h
  simp

theorem mem_of_find (h : find o s = some i) : o ∈ s := by
  by_contra hnot
  rw [find, List.idxOf?_eq_none_iff.2 hnot] at h
  cases h

theorem mem_of_rfind (h : rfind c s = some j) : c ∈ s := by
  by_contra hnot
  rw [rfind, List.idxOf?_eq_none_iff.2 fun hmem => hnot (List.mem_reverse.1 hmem)] at h
  cases h

theorem rfind_lt (h : rfind c s = some j) : j < s.length := by
  obtain ⟨a, b, rfl, hb⟩ := exists_last (mem_of_rfind h)
  rw [rfind_last hb] at h
  cases h
  simp

/-- Either the brackets stand in their order, or the wrong way round. -/
theorem lt_or_inverted (hne : o ≠ c) (hi : find o s = some i) (hj : rfind c s = some j) :
    i < j ∨ ∃ m, Inverted o c s m := by
  obtain ⟨a, m, b, rfl, ha, hb⟩ | h := within_or_inverted hne (mem_of_find hi) (mem_of_rfind hj)
  · left
    have hsplit : a ++ o :: (m ++ c :: b) = (a ++ o :: m) ++ c :: b := by simp
    rw [find_append ha, Option.some.injEq] at hi
    rw [hsplit, rfind_last hb, Option.some.injEq, List.length_append, List.length_cons] at hj
    omega
  · exact .inr h

theorem returns_slice : Returns (slice s i j : Run Text) ↔ i ≤ j ∧ j ≤ s.length := by
  unfold slice
  split_ifs with h
  · simp [h]
  · simp [h]

/-- **The range between the brackets**. -/
theorem returns_slice_between (hne : o ≠ c) (hi : find o s = some i) (hj : rfind c s = some j) :
    Returns (slice s (i + 1) j : Run Text) ↔ ∀ m, ¬ Inverted o c s m := by
  have hlt := rfind_lt hj
  rw [returns_slice]
  constructor
  · intro hle m hm
    have hoffsets := offsets_of_inverted hne hm hi hj
    omega
  · intro hnone
    obtain hij | ⟨m, hm⟩ := lt_or_inverted hne hi hj
    · omega
    · exact absurd hm (hnone m)

/-- **The range from bracket to bracket**. -/
theorem returns_slice_around (hne : o ≠ c) (hi : find o s = some i) (hj : rfind c s = some j) :
    Returns (slice s i (j + 1) : Run Text) ↔ ∀ m, Inverted o c s m → m = [] := by
  have hlt := rfind_lt hj
  rw [returns_slice]
  constructor
  · intro hle m hm
    have hoffsets := offsets_of_inverted hne hm hi hj
    apply List.length_eq_zero_iff.1
    omega
  · intro hside
    obtain hij | ⟨m, hm⟩ := lt_or_inverted hne hi hj
    · omega
    · have hoffsets := offsets_of_inverted hne hm hi hj
      rw [hside m hm, List.length_nil] at hoffsets
      omega

/-- Where a bracket is missing, nothing is the wrong way round. -/
theorem not_inverted_of_none (h : find o s = none ∨ rfind c s = none) : ¬ Inverted o c s m := by
  intro hm
  obtain ⟨ho, hc⟩ := found_of_inverted hm
  rcases h with h | h
  · obtain ⟨a, b, rfl, ha⟩ := exists_first ho
    rw [find_append ha] at h
    cases h
  · obtain ⟨a, b, rfl, hb⟩ := exists_last hc
    rw [rfind_last hb] at h
    cases h

end

/-! ## 4. What the extractors return -/

section

variable (S : Serde)

theorem returns_parse_lfm2_call (raw : Text) :
    Returns (parse_lfm2_call S raw) ↔ ∀ m, ¬ Inverted '(' ')' (trim raw) m := by
  unfold parse_lfm2_call
  dsimp only
  cases hi : find '(' (trim raw) with
  | none => simp [not_inverted_of_none (.inl hi)]
  | some i =>
      cases hj : rfind ')' (trim raw) with
      | none => simp [not_inverted_of_none (.inr hj)]
      | some j =>
          dsimp only
          rw [returns_bind fun _ => returns_pure _]
          exact returns_slice_between (by decide) hi hj

theorem returns_parse_gemma_call_body (body : Text) :
    Returns (parse_gemma_call_body S body) ↔
      ∀ rest, strip_start "call:".toList (trim body) = some rest →
        ∀ m, ¬ Inverted '\x7b' '\x7d' rest m := by
  unfold parse_gemma_call_body
  dsimp only
  cases hrest : strip_start "call:".toList (trim body) with
  | none => simp
  | some rest =>
      simp only [Option.some.injEq, forall_eq']
      cases hi : find '\x7b' rest with
      | none => simp [not_inverted_of_none (.inl hi)]
      | some i =>
          cases hj : rfind '\x7d' rest with
          | none => simp [not_inverted_of_none (.inr hj)]
          | some j =>
              dsimp only
              rw [returns_bind fun _ => returns_pure _]
              exact returns_slice_between (by decide) hi hj

theorem returns_parse_gemma4_call (body : Text) :
    Returns (parse_gemma4_call S body) ↔
      ∀ rest, strip_start "call:".toList (trim body) = some rest →
        ∀ m, Inverted '\x7b' '\x7d' rest m → m = [] := by
  unfold parse_gemma4_call
  cases hrest : strip_start "call:".toList (trim body) with
  | none => simp
  | some rest =>
      simp only [Option.some.injEq, forall_eq']
      cases hi : find '\x7b' rest with
      | none => simp [not_inverted_of_none (.inl hi)]
      | some i =>
          cases hj : rfind '\x7d' rest with
          | none => simp [not_inverted_of_none (.inr hj)]
          | some j =>
              dsimp only
              rw [returns_bind fun _ => returns_pure _]
              exact returns_slice_around (by decide) hi hj

theorem returns_extract_lfm2 (text : Text) : Returns (extract_lfm2_tool_calls S text) ↔
    ∀ raw ∈ lfm2_calls text, ∀ m, ¬ Inverted '(' ')' (trim raw) m := by
  unfold extract_lfm2_tool_calls lfm2_calls
  rw [returns_bind fun _ => returns_pure _, returns_filter_map]
  simp only [List.mem_flatMap, forall_exists_index, and_imp]
  constructor
  · intro h raw body hbody hraw
    have hcalls := (returns_bind fun _ => returns_pure _).1 (h body hbody)
    exact (returns_parse_lfm2_call S raw).1 (returns_filter_map.1 hcalls raw hraw)
  · intro h body hbody
    refine (returns_bind fun _ => returns_pure _).2 (returns_filter_map.2 fun raw hraw => ?_)
    exact (returns_parse_lfm2_call S raw).2 (h raw body hbody hraw)

/-- **The extractors return on the bracketed texts**, and on no others. -/
theorem returns_extract_tool_calls (text : Text) :
    Returns (extract_tool_calls S text) ↔ Bracketed text := by
  have hgemma : Returns (extract_function_gemma_tool_calls S text) ↔ ∀ body ∈
      extract_tag_bodies text "<start_function_call>".toList "<end_function_call>".toList,
      ∀ rest, strip_start "call:".toList (trim body) = some rest →
        ∀ m, ¬ Inverted '\x7b' '\x7d' rest m :=
    returns_filter_map.trans (forall₂_congr fun body _ => returns_parse_gemma_call_body S body)
  have hgemma4 : Returns (extract_gemma4_tool_calls S text) ↔ ∀ body ∈
      extract_tag_bodies text "<|tool_call>".toList "<tool_call|>".toList,
      ∀ rest, strip_start "call:".toList (trim body) = some rest →
        ∀ m, Inverted '\x7b' '\x7d' rest m → m = [] :=
    returns_filter_map.trans (forall₂_congr fun body _ => returns_parse_gemma4_call S body)
  unfold extract_tool_calls
  rw [returns_bind_of fun _ _ => (returns_bind_of fun _ _ => returns_bind fun _ => returns_pure _),
    returns_extract_lfm2, hgemma, hgemma4]
  exact ⟨fun h => ⟨h.1, h.2.1, h.2.2⟩, fun h => ⟨h.lfm2, h.function_gemma, h.gemma4⟩⟩

/-- **A text can be parsed** if and only if it is bracketed outside of its reasoning. -/
theorem parse_returns_iff (text : Text) (reasoning_format : ReasoningFormat)
    (starts_in_thinking : Bool) :
    Returns (parse_assistant_format_with_state S text reasoning_format starts_in_thinking) ↔
      Bracketed (extract_reasoning_blocks reasoning_format text starts_in_thinking).2 := by
  unfold parse_assistant_format_with_state
  exact (returns_bind fun _ => returns_pure _).trans (returns_extract_tool_calls S _)

end

end Querymt.Llama
