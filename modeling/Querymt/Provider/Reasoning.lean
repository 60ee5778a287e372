/-
`Provider/Reasoning.lean` -- reasoning and content of a generated text.

Mirrors `ReasoningFormat` and `ThinkingStreamParser` (`common_chat.rs`) and
`extract_reasoning_blocks` (`chat_format.rs`) of the llama.cpp provider. A text falls into
content and thinking at the tags of its format. The whole text is cut at the tags from left to
right; a stream is cut as it arrives, and the end of it that may still become a tag is held
back.

# What a stream gives

However the text is divided into chunks, what the parser gives are parts of the pieces between
the tags (`streamed_groups`). For the format with `<think>` tags the parts of a piece make
the piece, up to blanks at its end (`streamed_reasoning_agrees`).

The tags are ASCII, so lengths are counted in characters here where the code counts bytes.
-/
import Querymt.Library.Holding
import Querymt.Library.Parts
import Querymt.Provider.ToolCalls

set_option autoImplicit false

open Texts Holding

namespace Querymt.Llama

/-! ## 1. The format -/

inductive ReasoningFormat where
  | ThinkTags
  | GemmaChannel (implicit_leading_reasoning : Bool)
  deriving DecidableEq

namespace ReasoningFormat

def open_tag : ReasoningFormat → Text
  | ThinkTags => "<think>".toList
  | GemmaChannel _ => "<|channel>".toList

def close_tag : ReasoningFormat → Text
  | ThinkTags => "</think>".toList
  | GemmaChannel _ => "<channel|>".toList

/-- The label of a channel of reasoning. -/
def label : Text := "thought\n".toList

def strip_reasoning_prefix_from : ReasoningFormat → Text → Text
  | GemmaChannel _, text => (strip_start label text).getD text
  | ThinkTags, text => text

/-- The tag that ends content, or thinking. -/
def tags (fmt : ReasoningFormat) (in_thinking : Bool) : Text :=
  if in_thinking then fmt.close_tag else fmt.open_tag

end ReasoningFormat

/-! ## 2. The whole text -/

section

variable (fmt : ReasoningFormat)

/-- `reasoning`, and one block more. -/
def push_block (reasoning block : Text) : Text :=
  let block := fmt.strip_reasoning_prefix_from (trim block)
  (if reasoning ≠ [] ∧ block ≠ [] then reasoning ++ ['\n'] else reasoning) ++ trim block

/-- The loop over the text that is left: reasoning and output. -/
def reasoning_loop : ℕ → Bool → Text → Text → Text → Text × Text
  | 0, _, _, reasoning, output => (reasoning, output)
  | fuel + 1, in_thinking, rest, reasoning, output =>
      if rest = [] then (reasoning, output)
      else if in_thinking then
        match cut fmt.close_tag rest with
        | some (block, rest) =>
            reasoning_loop fuel false rest (push_block fmt reasoning block) output
        | none => reasoning_loop fuel true [] (push_block fmt reasoning rest) output
      else
        match cut fmt.open_tag rest with
        | some (content, rest) => reasoning_loop fuel true rest reasoning (output ++ content)
        | none => (reasoning, output ++ rest)

def extract_reasoning_blocks (text : Text) (starts_in_thinking : Bool) : Option Text × Text :=
  let rest :=
    if starts_in_thinking ∧ fmt = .GemmaChannel true then
      (strip_start ReasoningFormat.label text).getD text
    else text
  let r := reasoning_loop fmt (rest.length + 1) starts_in_thinking rest [] []
  (if trim r.1 = [] then none else some (trim r.1), r.2)

end

/-! ## 3. The stream -/

inductive ParsedDelta where
  | Content (text : Text)
  | Thinking (text : Text)
  deriving DecidableEq

namespace ParsedDelta

def content : ParsedDelta → Option Text
  | Content text => some text
  | Thinking _ => none

def thinking : ParsedDelta → Option Text
  | Content _ => none
  | Thinking text => some text

def in_thinking : ParsedDelta → Bool
  | Content _ => false
  | Thinking _ => true

def text : ParsedDelta → Text
  | Content text => text
  | Thinking text => text

end ParsedDelta

inductive ThinkingState where
  | Content
  | Thinking
  deriving DecidableEq

structure ThinkingStreamParser where
  state : ThinkingState
  pending : Text
  reasoning_format : ReasoningFormat
  deriving DecidableEq

/-- The longest start of the marker, and not all of it, with which the buffer ends. -/
def longest_suffix_prefix_len (buffer marker : Text) : ℕ :=
  let max := min buffer.length (marker.length - 1)
  ((List.range' 1 max).reverse.find? fun len => decide (marker.take len <:+ buffer)).getD 0

def safe_emit_len (buffer marker : Text) (is_partial_text : Bool) : ℕ :=
  if !is_partial_text then buffer.length
  else buffer.length - longest_suffix_prefix_len buffer marker

def content_delta (content : Text) : List ParsedDelta :=
  if content = [] then [] else [.Content content]

def thinking_delta (thinking : Text) : List ParsedDelta :=
  if thinking = [] then [] else [.Thinking thinking]

section

variable (fmt : ReasoningFormat) (is_partial_text : Bool)

/-- The `loop` of `push`: the deltas, and the state and the text that is left pending. -/
def push_loop : ℕ → ThinkingState → Text → List ParsedDelta × ThinkingState × Text
  | 0, state, pending => ([], state, pending)
  | fuel + 1, .Content, pending =>
      match cut fmt.open_tag pending with
      | some (content, rest) =>
          let r := push_loop fuel .Thinking rest
          (content_delta content ++ r.1, r.2)
      | none =>
          let emit_len := safe_emit_len pending fmt.open_tag is_partial_text
          if emit_len = 0 then ([], .Content, pending)
          else (content_delta (pending.take emit_len), .Content, pending.drop emit_len)
  | fuel + 1, .Thinking, pending =>
      match cut fmt.close_tag pending with
      | some (block, rest) =>
          let thinking := fmt.strip_reasoning_prefix_from block
          let r := push_loop fuel .Content rest
          ((if trim thinking = [] then [] else [.Thinking thinking]) ++ r.1, r.2)
      | none =>
          let emit_len := safe_emit_len pending fmt.close_tag is_partial_text
          if emit_len = 0 then ([], .Thinking, pending)
          else
            let thinking := fmt.strip_reasoning_prefix_from (pending.take emit_len)
            (thinking_delta thinking, .Thinking, pending.drop emit_len)

/-- What is left at the end. -/
def remainder (state : ThinkingState) (remaining : Text) : List ParsedDelta :=
  match state with
  | .Content => [.Content remaining]
  | .Thinking =>
      let thinking := fmt.strip_reasoning_prefix_from remaining
      thinking_delta thinking

end

def push (p : ThinkingStreamParser) (text : Text) (is_partial_text : Bool) :
    List ParsedDelta × ThinkingStreamParser :=
  let pending := p.pending ++ text
  let r := push_loop p.reasoning_format is_partial_text (pending.length + 1) p.state pending
  if !is_partial_text ∧ r.2.2 ≠ [] then
    (r.1 ++ remainder p.reasoning_format r.2.1 r.2.2, ⟨r.2.1, [], p.reasoning_format⟩)
  else (r.1, ⟨r.2.1, r.2.2, p.reasoning_format⟩)

/-- `initial_state`: a prompt may end in the label of the channel. -/
def initial_pending (fmt : ReasoningFormat) (starts_in_thinking : Bool) : Text :=
  if starts_in_thinking ∧ fmt = .GemmaChannel true then ReasoningFormat.label else []

def ThinkingStreamParser.new (fmt : ReasoningFormat) (starts_in_thinking : Bool) :
    ThinkingStreamParser :=
  ⟨if starts_in_thinking then .Thinking else .Content, initial_pending fmt starts_in_thinking, fmt⟩

/-- `ChatStreamingState::update`. -/
def update (p : ThinkingStreamParser) (text_added : Text) : List ParsedDelta × ThinkingStreamParser :=
  push p text_added true

/-- `ChatStreamingState::finish`. -/
def finish (p : ThinkingStreamParser) : List ParsedDelta × ThinkingStreamParser := push p [] false

/-- The deltas of a stream: those of its chunks and those of its end. -/
def streamed (fmt : ReasoningFormat) (starts_in_thinking : Bool) (chunks : List Text) :
    List ParsedDelta :=
  let r := Parts.run update (.new fmt starts_in_thinking) chunks
  r.1 ++ (finish r.2).1

/-! ## 4. What a call emits -/

section

variable {fmt : ReasoningFormat}

/-- The search from the longest length down finds the greatest one. -/
theorem find_greatest {p : ℕ → Bool} {k m : ℕ} (hk : k ≤ m) (hp : k = 0 ∨ p k = true)
    (hmax : ∀ n, k < n → n ≤ m → p n = false) :
    ((List.range' 1 m).reverse.find? p).getD 0 = k := by
  induction m with
  | zero =>
      rw [Nat.le_zero.1 hk]
      rfl
  | succ m ih =>
      rw [List.range'_concat, List.reverse_append, List.reverse_singleton, List.singleton_append,
        Nat.one_mul, Nat.add_comm 1 m]
      by_cases heq : k = m + 1
      · subst heq
        rw [List.find?_cons_of_pos (hp.resolve_left (Nat.succ_ne_zero m))]
        rfl
      · have hlt : k < m + 1 := by omega
        rw [List.find?_cons_of_neg (by rw [hmax _ hlt (Nat.le_refl _)]; exact Bool.false_ne_true)]
        apply ih (by omega)
        intro n hn hle
        exact hmax n hn (by omega)

/-- The code holds back the longest end that may become the tag. -/
theorem longest_suffix_prefix_len_eq {buffer marker : Text} (hmarker : marker ≠ []) :
    longest_suffix_prefix_len buffer marker = (held marker buffer).length := by
  have hproper := proper_held hmarker buffer
  have hsuffix : held marker buffer <:+ buffer := ⟨_, free_append_held marker buffer⟩
  have hlt := hproper.length_lt
  have hle := hsuffix.length_le
  apply find_greatest
  · omega
  · by_cases hnil : (held marker buffer).length = 0
    · exact .inl hnil
    · right
      rw [decide_eq_true_iff, ← List.prefix_iff_eq_take.1 hproper.1]
      exact hsuffix
  · intro n hn hmax
    rw [decide_eq_false_iff_not]
    intro hlonger
    have hlength : (marker.take n).length = n := List.length_take_of_le (by omega)
    have hstart : Proper marker (marker.take n) := by
      refine ⟨List.take_prefix n marker, fun heq => ?_⟩
      rw [heq] at hlength
      omega
    have hbound := length_le_held hlonger hstart
    omega

theorem take_safe_emit_len (pending : Text) {marker : Text} (hmarker : marker ≠ []) :
    pending.take (safe_emit_len pending marker true) = free marker pending ∧
      pending.drop (safe_emit_len pending marker true) = held marker pending := by
  have hlength : safe_emit_len pending marker true = (free marker pending).length := by
    have hsplit := congrArg List.length (free_append_held marker pending)
    rw [List.length_append] at hsplit
    have hlen : safe_emit_len pending marker true =
        pending.length - longest_suffix_prefix_len pending marker := rfl
    rw [hlen, longest_suffix_prefix_len_eq hmarker]
    omega
  have hsplit := free_append_held marker pending
  rw [hlength]
  generalize free marker pending = front at hsplit
  generalize held marker pending = back at hsplit
  subst hsplit
  exact ⟨List.take_left, List.drop_left⟩

theorem tags_ne_nil (fmt : ReasoningFormat) (in_thinking : Bool) : fmt.tags in_thinking ≠ [] := by
  rcases fmt with _ | label <;> cases in_thinking
  · exact (by decide +kernel : "<think>".toList ≠ [])
  · exact (by decide +kernel : "</think>".toList ≠ [])
  · exact (by decide +kernel : "<|channel>".toList ≠ [])
  · exact (by decide +kernel : "<channel|>".toList ≠ [])

def state_of (in_thinking : Bool) : ThinkingState := if in_thinking then .Thinking else .Content

/-- What is emitted for a part of a piece; `closing` if it is the part before the tag. -/
def emitted (fmt : ReasoningFormat) (in_thinking closing : Bool) (part : Text) :
    List ParsedDelta :=
  if in_thinking then
    let thinking := fmt.strip_reasoning_prefix_from part
    if closing ∧ trim thinking = [] then [] else thinking_delta thinking
  else content_delta part

/-- The loop, for a piece of either kind. -/
theorem push_loop_tagged {in_thinking is_partial_text : Bool} {fuel : ℕ} {pending a rest : Text}
    (hcut : cut (fmt.tags in_thinking) pending = some (a, rest)) :
    push_loop fmt is_partial_text (fuel + 1) (state_of in_thinking) pending =
      (emitted fmt in_thinking true a ++
          (push_loop fmt is_partial_text fuel (state_of !in_thinking) rest).1,
        (push_loop fmt is_partial_text fuel (state_of !in_thinking) rest).2) := by
  cases in_thinking with
  | false =>
      have hcut : cut fmt.open_tag pending = some (a, rest) := hcut
      simp [push_loop, state_of, hcut, emitted]
  | true =>
      have hcut : cut fmt.close_tag pending = some (a, rest) := hcut
      simp only [push_loop, state_of, hcut, emitted, if_true, Bool.not_true, if_false,
        Bool.false_eq_true]
      by_cases hblank : trim (fmt.strip_reasoning_prefix_from a) = []
      · simp [hblank]
      · have hne : fmt.strip_reasoning_prefix_from a ≠ [] := fun h => hblank (by rw [h]; rfl)
        simp [hblank, thinking_delta, hne]

theorem emitted_nil (fmt : ReasoningFormat) (in_thinking closing : Bool) :
    emitted fmt in_thinking closing [] = [] := by
  cases in_thinking with
  | false => rfl
  | true =>
      have hstrip : fmt.strip_reasoning_prefix_from [] = [] := by cases fmt <;> rfl
      simp [emitted, hstrip, thinking_delta]

/-- Without the tag, what may be emitted is. -/
theorem push_loop_none {in_thinking : Bool} {fuel : ℕ} {pending : Text} {is_partial_text : Bool}
    (hcut : cut (fmt.tags in_thinking) pending = none) :
    push_loop fmt is_partial_text (fuel + 1) (state_of in_thinking) pending =
      (emitted fmt in_thinking false
          (pending.take (safe_emit_len pending (fmt.tags in_thinking) is_partial_text)),
        state_of in_thinking,
        pending.drop (safe_emit_len pending (fmt.tags in_thinking) is_partial_text)) := by
  by_cases hzero : safe_emit_len pending (fmt.tags in_thinking) is_partial_text = 0
  · have hnone : push_loop fmt is_partial_text (fuel + 1) (state_of in_thinking) pending =
        ([], state_of in_thinking, pending) := by
      cases in_thinking with
      | false =>
          have hcut : cut fmt.open_tag pending = none := hcut
          have hzero : safe_emit_len pending fmt.open_tag is_partial_text = 0 := hzero
          simp [push_loop, state_of, hcut, hzero]
      | true =>
          have hcut : cut fmt.close_tag pending = none := hcut
          have hzero : safe_emit_len pending fmt.close_tag is_partial_text = 0 := hzero
          simp [push_loop, state_of, hcut, hzero]
    rw [hnone, hzero, List.take_zero, List.drop_zero, emitted_nil]
  · cases in_thinking with
    | false =>
        have hcut : cut fmt.open_tag pending = none := hcut
        have hzero : safe_emit_len pending fmt.open_tag is_partial_text ≠ 0 := hzero
        simp [push_loop, state_of, hcut, hzero, emitted, ReasoningFormat.tags]
    | true =>
        have hcut : cut fmt.close_tag pending = none := hcut
        have hzero : safe_emit_len pending fmt.close_tag is_partial_text ≠ 0 := hzero
        simp [push_loop, state_of, hcut, hzero, emitted, ReasoningFormat.tags]

/-- A chunk emits what need not be held back. -/
theorem push_loop_partial {in_thinking : Bool} {fuel : ℕ} {pending : Text}
    (hcut : cut (fmt.tags in_thinking) pending = none) :
    push_loop fmt true (fuel + 1) (state_of in_thinking) pending =
      (emitted fmt in_thinking false (free (fmt.tags in_thinking) pending),
        state_of in_thinking, held (fmt.tags in_thinking) pending) := by
  obtain ⟨htake, hdrop⟩ := take_safe_emit_len pending (tags_ne_nil fmt in_thinking)
  rw [push_loop_none hcut, htake, hdrop]

/-- The end emits everything. -/
theorem push_loop_last {in_thinking : Bool} {fuel : ℕ} {pending : Text}
    (hcut : cut (fmt.tags in_thinking) pending = none) :
    push_loop fmt false (fuel + 1) (state_of in_thinking) pending =
      (emitted fmt in_thinking false pending, state_of in_thinking, []) := by
  have hall : safe_emit_len pending (fmt.tags in_thinking) false = pending.length := rfl
  rw [push_loop_none hcut, hall, List.take_length, List.drop_length]

/-- **A chunk** emits the pieces that it completes, and of the last one what need not be held
back. -/
theorem push_loop_pieces {in_thinking : Bool} {pending : Text} {ps : List (Bool × Text)}
    (h : Pieces fmt.tags in_thinking pending ps) {fuel : ℕ} (hfuel : pending.length < fuel) :
    ∃ closed j p, ps = closed ++ [(j, p)] ∧
      push_loop fmt true fuel (state_of in_thinking) pending =
        (closed.flatMap (fun q => emitted fmt q.1 true q.2) ++
            emitted fmt j false (free (fmt.tags j) p),
          state_of j, held (fmt.tags j) p) := by
  induction h generalizing fuel with
  | @last kind s hnone =>
      obtain ⟨fuel, rfl⟩ := Nat.exists_eq_succ_of_ne_zero (Nat.ne_zero_of_lt hfuel)
      exact ⟨[], kind, s, rfl, push_loop_partial hnone⟩
  | @tagged kind s a b ps hcut hrest ih =>
      obtain ⟨fuel, rfl⟩ := Nat.exists_eq_succ_of_ne_zero (Nat.ne_zero_of_lt hfuel)
      have hlength := congrArg List.length (cut_eq hcut)
      have hpos := List.length_pos_of_ne_nil (tags_ne_nil fmt kind)
      simp only [List.length_append] at hlength
      obtain ⟨closed, j, p, rfl, hloop⟩ := @ih fuel (by omega)
      refine ⟨(kind, a) :: closed, j, p, rfl, ?_⟩
      rw [push_loop_tagged hcut, hloop, List.flatMap_cons, List.append_assoc]

end

/-! ## 5. What a stream emits -/

/-- A piece as it was emitted: the parts that came with chunks, and the part before its tag. -/
structure Group where
  in_thinking : Bool
  parts : List Text
  last : Text

namespace Group

def piece (g : Group) : Bool × Text := (g.in_thinking, g.parts.flatten ++ g.last)

def deltas (fmt : ReasoningFormat) (g : Group) : List ParsedDelta :=
  g.parts.flatMap (emitted fmt g.in_thinking false) ++ emitted fmt g.in_thinking true g.last

/-- All parts of the piece. -/
def all (g : Group) : List Text := g.parts ++ [g.last]

/-- Where the parts of the piece end. -/
def Broken (fmt : ReasoningFormat) (g : Group) : Prop :=
  Holding.Broken (fmt.tags g.in_thinking) [] g.all

end Group

/-- What is known of the parser after some text: the pieces that are complete, and the parts of
the last one so far. -/
structure Reached (fmt : ReasoningFormat) (starts_in_thinking : Bool) (text : Text)
    (p : ThinkingStreamParser) (groups : List Group) (in_thinking : Bool) (parts : List Text) :
    Prop where
  format : p.reasoning_format = fmt
  state : p.state = state_of in_thinking
  pieces : Pieces fmt.tags starts_in_thinking text
    (groups.map Group.piece ++ [(in_thinking, parts.flatten ++ p.pending)])
  pending : p.pending = held (fmt.tags in_thinking) (parts.flatten ++ p.pending) ∨ parts = []
  broken : ∀ g ∈ groups, g.Broken fmt
  broken_last : Holding.Broken (fmt.tags in_thinking) [] parts
  first : (groups = [] ∧ parts = [] ∧ p.pending = initial_pending fmt starts_in_thinking ∧
      in_thinking = starts_in_thinking) ∨
    ∃ part more, groups.flatMap Group.all ++ parts = part :: more ∧
      initial_pending fmt starts_in_thinking <+: part

section

variable {fmt : ReasoningFormat} {starts_in_thinking : Bool} {text : Text}
  {p : ThinkingStreamParser} {groups : List Group} {in_thinking : Bool} {parts : List Text}

/-- The label has nothing of a tag. -/
theorem initial_pending_free (fmt : ReasoningFormat) (starts_in_thinking : Bool) :
    cut (fmt.tags starts_in_thinking) (initial_pending fmt starts_in_thinking) = none ∧
      held (fmt.tags starts_in_thinking) (initial_pending fmt starts_in_thinking) = [] := by
  rw [initial_pending]
  split
  · next h =>
    rw [h.1, h.2]
    decide +kernel
  · rw [cut, if_neg (tags_ne_nil fmt starts_in_thinking)]
    exact ⟨rfl, rfl⟩

theorem reached_new (fmt : ReasoningFormat) (starts_in_thinking : Bool) :
    Reached fmt starts_in_thinking (initial_pending fmt starts_in_thinking)
      (.new fmt starts_in_thinking) [] starts_in_thinking [] where
  format := rfl
  state := rfl
  pieces := .last (initial_pending_free fmt starts_in_thinking).1
  pending := .inr rfl
  broken := fun _ hg => absurd hg List.not_mem_nil
  broken_last := trivial
  first := .inl ⟨rfl, rfl, rfl, rfl⟩

/-- One piece that came at once. -/
def whole (q : Bool × Text) : Group := ⟨q.1, [], q.2⟩

theorem whole_broken (q : Bool × Text) : (whole q).Broken fmt :=
  ⟨fun _ => .inr rfl, trivial⟩

/-- The pieces of more text, from those of the text that is pending. -/
theorem Reached.more (h : Reached fmt starts_in_thinking text p groups in_thinking parts)
    {chunk q : Text} {ps : List (Bool × Text)}
    (hps : Pieces fmt.tags in_thinking (p.pending ++ chunk) ((in_thinking, q) :: ps)) :
    Pieces fmt.tags starts_in_thinking (text ++ chunk)
      (groups.map Group.piece ++ (in_thinking, parts.flatten ++ q) :: ps) := by
  apply Pieces.append h.pieces
  rcases h.pending with hheld | rfl
  · have hfree : free (fmt.tags in_thinking) (parts.flatten ++ p.pending) = parts.flatten := by
      have hsplit := free_append_held (fmt.tags in_thinking) (parts.flatten ++ p.pending)
      rw [← hheld] at hsplit
      exact List.append_cancel_right hsplit
    have hrest := hps
    rw [hheld] at hrest
    have hnew := Pieces.of_held h.pieces.last_free hrest
    rwa [hfree] at hnew
  · exact hps

theorem Reached.pending_flatten
    (h : Reached fmt starts_in_thinking text p groups in_thinking parts) :
    p.pending = held (fmt.tags in_thinking) (parts.flatten ++ p.pending) ∨ parts.flatten = [] :=
  h.pending.imp_right fun hparts => by rw [hparts, List.flatten_nil]

theorem Reached.held_more (h : Reached fmt starts_in_thinking text p groups in_thinking parts)
    (chunk : Text) :
    held (fmt.tags in_thinking) (parts.flatten ++ (p.pending ++ chunk)) =
      held (fmt.tags in_thinking) (p.pending ++ chunk) := by
  rcases h.pending with hheld | rfl
  · rw [← List.append_assoc, held_append, ← hheld]
  · rfl

theorem update_eq (hformat : p.reasoning_format = fmt) (hstate : p.state = state_of in_thinking)
    (chunk : Text) :
    update p chunk =
      ((push_loop fmt true ((p.pending ++ chunk).length + 1) (state_of in_thinking)
          (p.pending ++ chunk)).1,
        ⟨(push_loop fmt true ((p.pending ++ chunk).length + 1) (state_of in_thinking)
            (p.pending ++ chunk)).2.1,
          (push_loop fmt true ((p.pending ++ chunk).length + 1) (state_of in_thinking)
            (p.pending ++ chunk)).2.2, fmt⟩) := by
  simp [update, push, hformat, hstate]

/-- **One chunk more.** -/
theorem Reached.update (h : Reached fmt starts_in_thinking text p groups in_thinking parts)
    (chunk : Text) :
    ∃ more in_thinking' parts',
      Reached fmt starts_in_thinking (text ++ chunk) (Llama.update p chunk).2 (groups ++ more)
        in_thinking' parts' ∧
      parts.flatMap (emitted fmt in_thinking false) ++ (Llama.update p chunk).1 =
        more.flatMap (Group.deltas fmt) ++ parts'.flatMap (emitted fmt in_thinking' false) := by
  have htag := tags_ne_nil fmt in_thinking
  obtain ⟨ps, hps⟩ := exists_pieces (tags_ne_nil fmt) in_thinking (p.pending ++ chunk)
  obtain ⟨closed, j, q, rfl, hloop⟩ := push_loop_pieces hps (Nat.lt_succ_self _)
  rw [update_eq h.format h.state, hloop]
  rcases closed with _ | ⟨⟨k, q₀⟩, closed⟩
  · -- the last piece goes on
    obtain ⟨rfl, rfl⟩ := hps.eq_of_single
    have hnew := h.more hps
    refine ⟨[], j, parts ++ [free (fmt.tags j) (p.pending ++ chunk)], ?_, by simp⟩
    refine ⟨rfl, rfl, ?_, .inl ?_, ?_, ?_, ?_⟩
    · simpa [List.append_assoc, free_append_held] using hnew
    · dsimp only
      rw [List.flatten_append, List.flatten_singleton, List.append_assoc, free_append_held,
        h.held_more]
    · simpa using h.broken
    · rw [broken_append]
      refine ⟨h.broken_last, fun hne => ?_, trivial⟩
      exact broken_next h.pending_flatten htag (free_append_held _ _).symm hne
    · right
      rcases h.first with ⟨rfl, rfl, hpending, rfl⟩ | ⟨part, more, hall, hpart⟩
      · refine ⟨_, [], rfl, ?_⟩
        rw [hpending, free_append (initial_pending_free fmt j).2]
        exact List.prefix_append _ _
      · refine ⟨part, more ++ [free (fmt.tags j) (p.pending ++ chunk)], ?_, hpart⟩
        rw [List.append_nil, ← List.append_assoc, hall, List.cons_append]
  · -- the last piece is complete, and so are those after it
    obtain ⟨q₀', qs, rest, heq, htext⟩ := hps.exists_cons
    obtain ⟨hk, rfl⟩ := List.cons.inj heq
    obtain ⟨rfl, rfl⟩ := Prod.mk.inj hk
    have hnew := h.more hps
    have hwhole : (closed.map whole).map Group.piece = closed := by
      rw [List.map_map]
      exact List.map_id'' (fun q => rfl) closed
    refine ⟨⟨k, parts, q₀⟩ :: closed.map whole, j, [free (fmt.tags j) q], ?_, ?_⟩
    · refine ⟨rfl, rfl, ?_, .inl ?_, ?_, ?_, .inr ?_⟩
      · rw [List.map_append, List.map_cons, hwhole, List.flatten_singleton, free_append_held]
        simpa [Group.piece] using hnew
      · rw [List.flatten_singleton, free_append_held]
      · intro g hg
        rcases List.mem_append.1 hg with hg | hg
        · exact h.broken g hg
        · rcases List.mem_cons.1 hg with rfl | hg
          · rw [Group.Broken, Group.all, broken_append]
            refine ⟨h.broken_last, fun hne => ?_, trivial⟩
            exact broken_next h.pending_flatten htag htext hne
          · obtain ⟨q', -, rfl⟩ := List.mem_map.1 hg
            exact whole_broken q'
      · exact ⟨fun _ => .inr rfl, trivial⟩
      · rcases h.first with ⟨rfl, rfl, hpending, rfl⟩ | ⟨part, more, hall, hpart⟩
        · rw [hpending] at hps
          have hfree := initial_pending_free fmt k
          exact ⟨q₀, _, rfl, hps.prefix_of_free (not_infix_of_cut hfree.1) hfree.2⟩
        · refine ⟨part, more ++ ([q₀] ++ ((closed.map whole).flatMap Group.all ++
            [free (fmt.tags j) q])), ?_, hpart⟩
          rw [List.flatMap_append, List.flatMap_cons, ← List.cons_append, ← hall]
          simp [Group.all, List.append_assoc]
    · have hdeltas : (closed.map whole).flatMap (Group.deltas fmt) =
          closed.flatMap fun q => emitted fmt q.1 true q.2 := by
        rw [List.flatMap_map]
        rfl
      rw [List.flatMap_cons, List.flatMap_cons, hdeltas]
      simp [Group.deltas, List.append_assoc]

/-- **Any chunks more.** -/
theorem Reached.updates (h : Reached fmt starts_in_thinking text p groups in_thinking parts)
    (chunks : List Text) :
    ∃ more in_thinking' parts',
      Reached fmt starts_in_thinking (text ++ chunks.flatten) (Parts.run Llama.update p chunks).2
        (groups ++ more) in_thinking' parts' ∧
      parts.flatMap (emitted fmt in_thinking false) ++ (Parts.run Llama.update p chunks).1 =
        more.flatMap (Group.deltas fmt) ++ parts'.flatMap (emitted fmt in_thinking' false) := by
  induction chunks generalizing text p groups in_thinking parts with
  | nil => exact ⟨[], in_thinking, parts, by simpa [Parts.run] using h, by simp [Parts.run]⟩
  | cons chunk chunks ih =>
      obtain ⟨more, j, parts', hone, hdeltas⟩ := h.update chunk
      obtain ⟨more', j', parts'', hall, hrest⟩ := ih hone
      refine ⟨more ++ more', j', parts'', ?_, ?_⟩
      · rw [List.flatten_cons, ← List.append_assoc, ← List.append_assoc]
        exact hall
      · rw [Parts.run, ← List.append_assoc, hdeltas, List.append_assoc, hrest,
          List.flatMap_append, List.append_assoc]

theorem Reached.finish (h : Reached fmt starts_in_thinking text p groups in_thinking parts) :
    (Llama.finish p).1 = emitted fmt in_thinking false p.pending := by
  have hcut : cut (fmt.tags in_thinking) p.pending = none := by
    apply cut_eq_none
    intro hin
    exact h.pieces.last_free (hin.trans (List.suffix_append _ _).isInfix)
  simp [Llama.finish, push, h.format, h.state, push_loop_last hcut]

/-- **A stream emits parts of the pieces**, in order, however it is divided into chunks. -/
theorem streamed_groups (fmt : ReasoningFormat) (starts_in_thinking : Bool) (chunks : List Text) :
    ∃ groups : List Group,
      Pieces fmt.tags starts_in_thinking (initial_pending fmt starts_in_thinking ++ chunks.flatten)
        (groups.map Group.piece) ∧
      streamed fmt starts_in_thinking chunks = groups.flatMap (Group.deltas fmt) ∧
      (∀ g ∈ groups, g.Broken fmt) ∧
      ∃ part more, groups.flatMap Group.all = part :: more ∧
        initial_pending fmt starts_in_thinking <+: part := by
  obtain ⟨groups, j, parts, h, hdeltas⟩ :=
    (reached_new fmt starts_in_thinking).updates chunks
  generalize hp : (Parts.run Llama.update (.new fmt starts_in_thinking) chunks).2 = p at h
  rw [List.nil_append] at h
  refine ⟨groups ++ [⟨j, parts ++ [p.pending], []⟩], ?_, ?_, ?_, ?_⟩
  · simpa [Group.piece] using h.pieces
  · rw [streamed, hp, h.finish, List.flatMap_append]
    rw [List.flatMap_nil, List.nil_append] at hdeltas
    rw [hdeltas]
    simp [Group.deltas, emitted_nil]
  · intro g hg
    rcases List.mem_append.1 hg with hg | hg
    · exact h.broken g hg
    · rw [List.mem_singleton.1 hg, Group.Broken, Group.all, List.append_assoc, broken_append]
      refine ⟨h.broken_last, fun hne => ?_, fun hne => absurd rfl hne, trivial⟩
      exact broken_next h.pending_flatten (tags_ne_nil fmt j)
        (show p.pending ++ [] = p.pending ++ [] from rfl) hne
  · rcases h.first with ⟨rfl, rfl, hpending, -⟩ | ⟨part, more, hall, hpart⟩
    · exact ⟨p.pending, [[]], rfl, by rw [hpending]⟩
    · refine ⟨part, more ++ [p.pending, []], ?_, hpart⟩
      rw [List.flatMap_append, ← List.cons_append, ← hall]
      simp [Group.all]

end

/-! ## 6. What the whole text gives -/

/-- The thinking blocks, and the content, of the pieces of a text. -/
def thinking_blocks (ps : List (Bool × Text)) : List Text := (ps.filter Prod.fst).map Prod.snd

def content_of (ps : List (Bool × Text)) : Text :=
  ((ps.filter fun q => !q.1).map Prod.snd).flatten

/-- The reasoning that some blocks make. -/
def reasoning_of (fmt : ReasoningFormat) (blocks : List Text) : Option Text :=
  let reasoning := blocks.foldl (push_block fmt) []
  if trim reasoning = [] then none else some (trim reasoning)

section

variable {fmt : ReasoningFormat}

theorem push_block_nil (fmt : ReasoningFormat) (reasoning : Text) :
    push_block fmt reasoning [] = reasoning := by
  have hstrip : fmt.strip_reasoning_prefix_from (trim []) = [] := by cases fmt <;> rfl
  rw [push_block, hstrip]
  simp [trim, Texts.trim]

theorem thinking_blocks_cons (q : Bool × Text) (ps : List (Bool × Text)) :
    thinking_blocks (q :: ps) =
      (if q.1 then [q.2] else []) ++ thinking_blocks ps := by
  by_cases h : q.1 = true <;> simp [thinking_blocks, h]

theorem content_of_cons (q : Bool × Text) (ps : List (Bool × Text)) :
    content_of (q :: ps) = (if q.1 then [] else q.2) ++ content_of ps := by
  by_cases h : q.1 = true <;> simp [content_of, h]

/-- The loop cuts the text into its pieces. -/
theorem reasoning_loop_pieces {in_thinking : Bool} {rest : Text} {ps : List (Bool × Text)}
    (h : Pieces fmt.tags in_thinking rest ps) {fuel : ℕ} (hfuel : rest.length < fuel)
    (reasoning output : Text) :
    reasoning_loop fmt fuel in_thinking rest reasoning output =
      ((thinking_blocks ps).foldl (push_block fmt) reasoning, output ++ content_of ps) := by
  induction h generalizing fuel reasoning output with
  | @last kind s hnone =>
      obtain ⟨fuel, rfl⟩ := Nat.exists_eq_succ_of_ne_zero (Nat.ne_zero_of_lt hfuel)
      by_cases hnil : s = []
      · subst hnil
        cases kind with
        | false => simp [reasoning_loop, thinking_blocks, content_of]
        | true => simp [reasoning_loop, thinking_blocks, content_of, push_block_nil]
      · cases kind with
        | false =>
            have hnone : cut fmt.open_tag s = none := hnone
            simp [reasoning_loop, hnil, hnone, thinking_blocks, content_of]
        | true =>
            have hnone : cut fmt.close_tag s = none := hnone
            -- one turn more, with nothing left
            obtain ⟨fuel, rfl⟩ : ∃ n, fuel = n + 1 := by
              have hpos := List.length_pos_of_ne_nil hnil
              exact ⟨fuel - 1, by omega⟩
            simp [reasoning_loop, hnil, hnone, thinking_blocks, content_of]
  | @tagged kind s a b ps hcut hrest ih =>
      obtain ⟨fuel, rfl⟩ := Nat.exists_eq_succ_of_ne_zero (Nat.ne_zero_of_lt hfuel)
      have hlength := congrArg List.length (cut_eq hcut)
      have hpos := List.length_pos_of_ne_nil (tags_ne_nil fmt kind)
      simp only [List.length_append] at hlength
      have hnil : s ≠ [] := List.ne_nil_of_length_pos (by omega)
      have hstep := fun reasoning output => @ih fuel (by omega) reasoning output
      rw [thinking_blocks_cons, content_of_cons, List.foldl_append]
      cases kind with
      | false =>
          have hcut : cut fmt.open_tag s = some (a, b) := hcut
          have hloop : reasoning_loop fmt (fuel + 1) false s reasoning output =
              reasoning_loop fmt fuel true b reasoning (output ++ a) := by
            simp [reasoning_loop, hnil, hcut]
          rw [hloop]
          simpa [List.append_assoc] using hstep reasoning (output ++ a)
      | true =>
          have hcut : cut fmt.close_tag s = some (a, b) := hcut
          have hloop : reasoning_loop fmt (fuel + 1) true s reasoning output =
              reasoning_loop fmt fuel false b (push_block fmt reasoning a) output := by
            simp [reasoning_loop, hnil, hcut]
          rw [hloop]
          simpa using hstep (push_block fmt reasoning a) output

/-- **The whole text** gives the reasoning and the content of its pieces. -/
theorem extract_think_tags {text : Text} {starts_in_thinking : Bool} {ps : List (Bool × Text)}
    (h : Pieces ReasoningFormat.ThinkTags.tags starts_in_thinking text ps) :
    extract_reasoning_blocks .ThinkTags text starts_in_thinking =
      (reasoning_of .ThinkTags (thinking_blocks ps), content_of ps) := by
  have hrest : (if starts_in_thinking ∧ ReasoningFormat.ThinkTags = .GemmaChannel true then
      (strip_start ReasoningFormat.label text).getD text else text) = text :=
    if_neg fun hboth => nomatch hboth.2
  unfold extract_reasoning_blocks
  rw [hrest]
  dsimp only
  rw [reasoning_loop_pieces h (Nat.lt_succ_self _)]
  simp [reasoning_of]

end

/-! ## 7. The stream and the whole text -/

/-- Deltas of the piece's kind, with a start of its text. -/
def Within (q : Bool × Text) (deltas : List ParsedDelta) : Prop :=
  (∀ d ∈ deltas, d.in_thinking = q.1) ∧ (deltas.map ParsedDelta.text).flatten <+: q.2

section

variable {fmt : ReasoningFormat}

/-- What of a part is given. -/
def given (fmt : ReasoningFormat) (in_thinking closing : Bool) (part : Text) : Text :=
  if in_thinking then
    if closing ∧ trim (fmt.strip_reasoning_prefix_from part) = [] then []
    else fmt.strip_reasoning_prefix_from part
  else part

theorem emitted_in_thinking {in_thinking closing : Bool} {part : Text} {d : ParsedDelta}
    (hd : d ∈ emitted fmt in_thinking closing part) : d.in_thinking = in_thinking := by
  cases in_thinking with
  | false =>
      simp only [emitted, Bool.false_eq_true, if_false, content_delta] at hd
      split at hd
      · cases hd
      · rw [List.mem_singleton.1 hd]
        rfl
  | true =>
      simp only [emitted, if_true, thinking_delta] at hd
      split at hd
      · cases hd
      · split at hd
        · cases hd
        · rw [List.mem_singleton.1 hd]
          rfl

theorem emitted_text (fmt : ReasoningFormat) (in_thinking closing : Bool) (part : Text) :
    ((emitted fmt in_thinking closing part).map ParsedDelta.text).flatten =
      given fmt in_thinking closing part := by
  cases in_thinking with
  | false =>
      by_cases hnil : part = [] <;> simp [emitted, given, content_delta, hnil, ParsedDelta.text]
  | true =>
      rw [emitted, given, if_pos rfl, if_pos rfl]
      generalize fmt.strip_reasoning_prefix_from part = thinking
      by_cases hblank : closing = true ∧ trim thinking = []
      · rw [if_pos hblank, if_pos hblank]
        rfl
      · rw [if_neg hblank, if_neg hblank, thinking_delta]
        by_cases hnil : thinking = [] <;> simp [hnil, ParsedDelta.text]

namespace Group

/-- The text of the piece that is given. -/
def text (fmt : ReasoningFormat) (g : Group) : Text :=
  (g.parts.map (given fmt g.in_thinking false)).flatten ++ given fmt g.in_thinking true g.last

theorem deltas_in_thinking {g : Group} {d : ParsedDelta} (hd : d ∈ g.deltas fmt) :
    d.in_thinking = g.in_thinking := by
  rcases List.mem_append.1 hd with hd | hd
  · obtain ⟨part, -, hd⟩ := List.mem_flatMap.1 hd
    exact emitted_in_thinking hd
  · exact emitted_in_thinking hd

theorem deltas_text (fmt : ReasoningFormat) (g : Group) :
    ((g.deltas fmt).map ParsedDelta.text).flatten = g.text fmt := by
  have hparts : ∀ parts : List Text,
      ((parts.flatMap (emitted fmt g.in_thinking false)).map ParsedDelta.text).flatten =
        (parts.map (given fmt g.in_thinking false)).flatten := by
    intro parts
    induction parts with
    | nil => rfl
    | cons part parts ih =>
        rw [List.flatMap_cons, List.map_append, List.flatten_append, emitted_text, ih,
          List.map_cons, List.flatten_cons]
  rw [deltas, List.map_append, List.flatten_append, hparts, emitted_text, text]

/-- Content is given as it is. -/
theorem text_of_content {g : Group} (h : g.in_thinking = false) : g.text fmt = g.piece.2 := by
  have hgiven : ∀ closing part, given fmt false closing part = part := fun _ _ => rfl
  have hid : given fmt false false = id := funext fun part => rfl
  rw [text, piece, h, hgiven, hid, List.map_id]

end Group

/-- Deltas of content have no thinking in them, and the other way round. -/
theorem filterMap_content {ds : List ParsedDelta} {kind : Bool}
    (h : ∀ d ∈ ds, d.in_thinking = kind) :
    ds.filterMap ParsedDelta.content = (if kind then [] else ds.map ParsedDelta.text) ∧
      ds.filterMap ParsedDelta.thinking = if kind then ds.map ParsedDelta.text else [] := by
  induction ds with
  | nil => cases kind <;> exact ⟨rfl, rfl⟩
  | cons d ds ih =>
      obtain ⟨hcontent, hthinking⟩ := ih fun d hd => h d (List.mem_cons_of_mem _ hd)
      have hd := h d List.mem_cons_self
      cases d <;> subst hd <;>
        simp_all [ParsedDelta.content, ParsedDelta.thinking, ParsedDelta.in_thinking,
          ParsedDelta.text]

theorem content_of_groups (fmt : ReasoningFormat) (groups : List Group) :
    ((groups.flatMap (Group.deltas fmt)).filterMap ParsedDelta.content).flatten =
      content_of (groups.map Group.piece) := by
  induction groups with
  | nil => rfl
  | cons g groups ih =>
      obtain ⟨hcontent, -⟩ := filterMap_content fun d hd => g.deltas_in_thinking (d := d) hd
      rw [List.flatMap_cons, List.filterMap_append, List.flatten_append, ih, hcontent,
        List.map_cons, content_of_cons]
      congr 1
      by_cases hkind : g.in_thinking = true
      · simp [hkind, Group.piece]
      · have hkind := eq_false_of_ne_true hkind
        rw [if_neg (by simp [hkind]), g.deltas_text, Group.text_of_content hkind,
          if_neg (by simp [Group.piece, hkind])]

theorem thinking_of_groups (fmt : ReasoningFormat) (groups : List Group) :
    ((groups.flatMap (Group.deltas fmt)).filterMap ParsedDelta.thinking).flatten =
      ((groups.filter Group.in_thinking).map (Group.text fmt)).flatten := by
  induction groups with
  | nil => rfl
  | cons g groups ih =>
      obtain ⟨-, hthinking⟩ := filterMap_content fun d hd => g.deltas_in_thinking (d := d) hd
      rw [List.flatMap_cons, List.filterMap_append, List.flatten_append, ih, hthinking]
      by_cases hkind : g.in_thinking = true
      · rw [if_pos hkind, g.deltas_text, List.filter_cons_of_pos hkind, List.map_cons,
          List.flatten_cons]
      · rw [if_neg hkind, List.filter_cons_of_neg hkind]
        rfl

theorem thinking_blocks_map (groups : List Group) :
    thinking_blocks (groups.map Group.piece) =
      (groups.filter Group.in_thinking).map fun g => g.piece.2 := by
  rw [thinking_blocks, List.filter_map, List.map_map]
  rfl

end

section

variable (g : Group)

/-- Without labels, thinking is given but for a blank end. -/
theorem Group.text_think_tags :
    g.text .ThinkTags =
      g.parts.flatten ++ if g.in_thinking ∧ trim g.last = [] then [] else g.last := by
  have hid : given .ThinkTags g.in_thinking false = id := by
    funext part
    cases hkind : g.in_thinking <;> simp [given, ReasoningFormat.strip_reasoning_prefix_from]
  rw [Group.text, hid, List.map_id]
  cases hkind : g.in_thinking <;> simp [given, ReasoningFormat.strip_reasoning_prefix_from]

theorem Group.text_prefix : g.text .ThinkTags <+: g.piece.2 := by
  rw [g.text_think_tags]
  apply (List.prefix_append_right_inj _).2
  split
  · exact List.nil_prefix
  · exact List.prefix_rfl

/-- Thinking is given up to blanks at its end. -/
theorem Group.trim_text : trim (g.text .ThinkTags) = trim g.piece.2 := by
  rw [g.text_think_tags, Group.piece]
  by_cases hblank : g.in_thinking = true ∧ trim g.last = []
  · rw [if_pos hblank, List.append_nil]
    exact (Texts.trim_append_right (Texts.blank_of_trim hblank.2) _).symm
  · rw [if_neg hblank]

end

/-- **The stream agrees with the whole text**, for every division of it into chunks. The text
falls into pieces, each up to the tag that ends it: content up to `<think>`, thinking up to
`</think>`. The content is that of the whole text; the thinking is that of its thinking
blocks, up to blanks around each; and every delta is within a piece. -/
theorem streamed_reasoning_agrees (starts_in_thinking : Bool) (chunks : List Text) :
    ∃ ps : List (Bool × Text),
      Pieces ReasoningFormat.ThinkTags.tags starts_in_thinking chunks.flatten ps ∧
      (extract_reasoning_blocks .ThinkTags chunks.flatten starts_in_thinking).1 =
        reasoning_of .ThinkTags (thinking_blocks ps) ∧
      ((streamed .ThinkTags starts_in_thinking chunks).filterMap ParsedDelta.content).flatten =
        (extract_reasoning_blocks .ThinkTags chunks.flatten starts_in_thinking).2 ∧
      (∃ blocks : List Text,
        ((streamed .ThinkTags starts_in_thinking chunks).filterMap ParsedDelta.thinking).flatten =
          blocks.flatten ∧
        blocks.map trim = (thinking_blocks ps).map trim) ∧
      ∃ groups : List (List ParsedDelta),
        streamed .ThinkTags starts_in_thinking chunks = groups.flatten ∧
        List.Forall₂ Within ps groups := by
  obtain ⟨groups, hpieces, hdeltas, -, -⟩ := streamed_groups .ThinkTags starts_in_thinking chunks
  have hinitial : initial_pending .ThinkTags starts_in_thinking = [] :=
    if_neg fun hboth => nomatch hboth.2
  rw [hinitial, List.nil_append] at hpieces
  have hextract := extract_think_tags hpieces
  refine ⟨groups.map Group.piece, hpieces, ?_, ?_, ?_, ?_⟩
  · rw [hextract]
  · rw [hextract, hdeltas, content_of_groups]
  · refine ⟨(groups.filter Group.in_thinking).map (Group.text .ThinkTags), ?_, ?_⟩
    · rw [hdeltas, thinking_of_groups]
    · rw [thinking_blocks_map, List.map_map, List.map_map]
      exact List.map_congr_left fun g _ => g.trim_text
  · refine ⟨groups.map (Group.deltas .ThinkTags), ?_, ?_⟩
    · rw [hdeltas, List.flatMap_def]
    · rw [List.forall₂_map_left_iff, List.forall₂_map_right_iff, List.forall₂_same]
      intro g _
      refine ⟨fun d hd => Group.deltas_in_thinking hd, ?_⟩
      rw [g.deltas_text]
      exact g.text_prefix

/-- A tag where it ends nothing is text, and is emitted. -/
theorem stray_tag_emitted :
    streamed .ThinkTags false ["</think>".toList] = [.Content "</think>".toList] ∧
      streamed .ThinkTags true ["<think>".toList] = [.Thinking "<think>".toList] := by
  decide +kernel

end Querymt.Llama
