/-
`Provider/ToolSlices.lean` -- every range by which the provider cuts a generated text.

The functions of `chat_format.rs` and the end of `generate_with_tools` (`tools/generation.rs`) with
their offsets in bytes, as they stand there: a text is searched, and cut at the offsets that the
search returns. Outside of three extractors these ranges are what `cut` gives, so a function that
cuts only there returns what it returns on the characters (`parse_eq`).

# What can crash the provider

The calls of three formats are cut between two searches from opposite ends, and the text for the
log is cut at the fixed offset 400 from either end. The provider crashes on a text exactly if one
of these ranges is none (`no_crash_iff`).
-/
import Querymt.Provider.AssistantFormat

set_option autoImplicit false

open Faults Texts
open Strings (byte_len byte_len_append str_slice slice_to slice_from IsBoundary exists_first
  exists_last find_eq_map_cut slice_to_found slice_from_found slices_found_behind)

namespace Querymt.Llama.Sliced

/-! ## 1. The end of a generation -/

/-- `output.truncate(new_len)`. -/
def truncate (output : Text) (new_len : ℕ) : Run Text :=
  if new_len ≤ byte_len output then slice_to output new_len else .ok output

/-- The first stop sequence with which the output ends is taken off. -/
def trim_stops (additional_stops : List Text) (output : Text) : Run Text :=
  match additional_stops.find? fun stop => decide (stop ≠ [] ∧ stop <:+ output) with
  | some stop => truncate output (byte_len output - byte_len stop)
  | none => .ok output

/-- The head and the tail of the output for the log. -/
def log_ends (output : Text) : Run (Text × Text) := do
  let head_len := min 400 (byte_len output)
  let tail_len := min 400 (byte_len output)
  let head ← slice_to output head_len
  let tail ←
    if 400 < byte_len output then slice_from output (byte_len output - tail_len) else .ok []
  return (head, tail)

/-! ## 2. Blocks -/

def reasoning_loop (fmt : ReasoningFormat) : ℕ → Bool → Text → Text → Text → Run (Text × Text)
  | 0, _, _, reasoning, output => .ok (reasoning, output)
  | fuel + 1, in_thinking, rest, reasoning, output =>
      if rest = [] then .ok (reasoning, output)
      else if in_thinking then
        match Strings.find fmt.close_tag rest with
        | some i => do
            let block ← slice_to rest i
            let rest ← slice_from rest (i + byte_len fmt.close_tag)
            reasoning_loop fmt fuel false rest (push_block fmt reasoning block) output
        | none => reasoning_loop fmt fuel true [] (push_block fmt reasoning rest) output
      else
        match Strings.find fmt.open_tag rest with
        | some start => do
            let content ← slice_to rest start
            let rest ← slice_from rest (start + byte_len fmt.open_tag)
            reasoning_loop fmt fuel true rest reasoning (output ++ content)
        | none => .ok (reasoning, output ++ rest)

def extract_reasoning_blocks (fmt : ReasoningFormat) (text : Text) (starts_in_thinking : Bool) :
    Run (Option Text × Text) := do
  let rest :=
    if starts_in_thinking ∧ fmt = .GemmaChannel true then
      (strip_start ReasoningFormat.label text).getD text
    else text
  let r ← reasoning_loop fmt (rest.length + 1) starts_in_thinking rest [] []
  return (if trim r.1 = [] then none else some (trim r.1), r.2)

def bodies_within (start_tag end_tag : Text) : ℕ → Text → Run (List Text)
  | 0, _ => .ok []
  | fuel + 1, rest =>
      match Strings.find start_tag rest with
      | none => .ok []
      | some start => do
          let after_start ← slice_from rest (start + byte_len start_tag)
          match Strings.find end_tag after_start with
          | none => return []
          | some i => do
              let body ← slice_to after_start i
              let rest ← slice_from after_start (i + byte_len end_tag)
              let bodies ← bodies_within start_tag end_tag fuel rest
              return body :: bodies

def extract_tag_bodies (text start_tag end_tag : Text) : Run (List Text) :=
  bodies_within start_tag end_tag (text.length + 1) text

def strip_blocks_within (start_tag end_tag : Text) : ℕ → Text → Text → Run Text
  | 0, rest, output => .ok (output ++ rest)
  | fuel + 1, rest, output =>
      match Strings.find start_tag rest with
      | none => .ok (output ++ rest)
      | some start => do
          let content ← slice_to rest start
          let after_start ← slice_from rest (start + byte_len start_tag)
          match Strings.find end_tag after_start with
          | none => return output ++ content
          | some i => do
              let rest ← slice_from after_start (i + byte_len end_tag)
              strip_blocks_within start_tag end_tag fuel rest (output ++ content)

def strip_tagged_blocks (text start_tag end_tag : Text) : Run Text :=
  strip_blocks_within start_tag end_tag (text.length + 1) text []

def strip_ministral_blocks (text : Text) : Run Text :=
  match Strings.find "[TOOL_CALLS]".toList text with
  | some start => slice_to text start
  | none => .ok text

def strip_tool_blocks (text : Text) : Run Text := do
  let out ← strip_tagged_blocks text "<tool_call>".toList "</tool_call>".toList
  let out ← strip_tagged_blocks out "<|tool_call>".toList "<tool_call|>".toList
  let out ← strip_tagged_blocks out "<start_function_call>".toList "<end_function_call>".toList
  let out ← strip_tagged_blocks out "<|tool_call_start|>".toList "<|tool_call_end|>".toList
  strip_ministral_blocks out

/-! ## 3. Parts and values -/

def split_top_level (s : Text) (delimiter : Char) : Run (List Text) :=
  Strings.split_offsets s delimiter s 0 Scan.start 0 []

def split_first_top_level (s : Text) (delimiter : Char) : Run (Option (Text × Text)) :=
  Strings.split_first_offsets s delimiter s 0 Scan.start

variable (S : Serde)

def parse_pythonish_value (raw : Text) : Run (Json S.Number) :=
  match S.from_str raw with
  | some value => .ok value
  | none =>
      if raw = "True".toList then .ok (.bool true)
      else if raw = "False".toList then .ok (.bool false)
      else if raw = "None".toList then .ok .null
      else if byte_len raw ≥ 2 ∧ raw.head? = some '\'' ∧ raw.getLast? = some '\'' then do
        let inner ← str_slice raw 1 (byte_len raw - 1)
        return .str inner
      else .ok (.str raw)

/-! ## 4. The six formats -/

def extract_qwen_json_tool_calls (text : Text) : Run (List ToolCall) := do
  let bodies ← extract_tag_bodies text "<tool_call>".toList "</tool_call>".toList
  return bodies.filterMap fun body => parse_json_tool_call S (trim body)

def parse_parameters :
    ℕ → Text → List (Text × Json S.Number) → Run (List (Text × Json S.Number))
  | 0, _, arguments => .ok arguments
  | fuel + 1, rest, arguments =>
      match Strings.find "<parameter=".toList rest with
      | none => .ok arguments
      | some param_start => do
          let key_start := param_start + byte_len "<parameter=".toList
          let after ← slice_from rest key_start
          match Strings.find ['>'] after with
          | none => return arguments
          | some key_end_rel => do
              let key_end := key_start + key_end_rel
              let key ← str_slice rest key_start key_end
              let value_start := key_end + 1
              let after ← slice_from rest value_start
              match Strings.find "</parameter>".toList after with
              | none => return arguments
              | some value_end_rel => do
                  let value_end := value_start + value_end_rel
                  let raw ← str_slice rest value_start value_end
                  let raw_value := trim (trim_newlines raw)
                  let value := (S.from_str raw_value).getD (.str raw_value)
                  let rest ← slice_from rest (value_end + byte_len "</parameter>".toList)
                  parse_parameters fuel rest (insert_member arguments (trim key, value))

def parse_function_tool_call (body : Text) : Run (Option ToolCall) :=
  match Strings.find "<function=".toList body with
  | none => .ok none
  | some function_start => do
      let name_start := function_start + byte_len "<function=".toList
      let after ← slice_from body name_start
      match Strings.find ['>'] after with
      | none => return none
      | some i => do
          let name_end := i + name_start
          let name ← str_slice body name_start name_end
          let after_name ← slice_from body (name_end + 1)
          let function_end :=
            (Strings.find "</function>".toList after_name).getD (byte_len after_name)
          let function_body ← slice_to after_name function_end
          let arguments ← parse_parameters S (function_body.length + 1) function_body []
          return some (tool_call (trim name) body (S.to_string (.obj arguments)))

def extract_qwen_function_tool_calls (text : Text) : Run (List ToolCall) := do
  let bodies ← extract_tag_bodies text "<tool_call>".toList "</tool_call>".toList
  filter_map (parse_function_tool_call S) bodies

def ministral_calls : ℕ → Text → Run (List ToolCall)
  | 0, _ => .ok []
  | fuel + 1, rest =>
      match Strings.find "[TOOL_CALLS]".toList rest with
      | none => .ok []
      | some start => do
          let after ← slice_from rest (start + byte_len "[TOOL_CALLS]".toList)
          match Strings.find "[ARGS]".toList after with
          | none => return []
          | some args_marker => do
              let before ← slice_to after args_marker
              let name := trim before
              let args_start := args_marker + byte_len "[ARGS]".toList
              let args_and_rest ← slice_from after args_start
              let next :=
                (Strings.find "[TOOL_CALLS]".toList args_and_rest).getD (byte_len args_and_rest)
              let raw ← slice_to args_and_rest next
              let raw_args := trim raw
              let arguments :=
                ((S.from_str raw_args).map (json_arguments_to_string S)).getD raw_args
              let rest ← slice_from args_and_rest next
              let calls ← ministral_calls fuel rest
              return (if name = [] then [] else [tool_call name raw_args arguments]) ++ calls

def extract_ministral_tool_calls (text : Text) : Run (List ToolCall) :=
  ministral_calls S (text.length + 1) text

def insert_kwarg (arguments : List (Text × Json S.Number)) (segment : Text) :
    Run (List (Text × Json S.Number)) :=
  let segment := trim segment
  if segment = [] then .ok arguments
  else do
    match ← split_first_top_level segment '=' with
    | none => return arguments
    | some (key, value) => do
        let value ← parse_pythonish_value S (trim value)
        return insert_member arguments (trim key, value)

def parse_lfm2_call (raw : Text) : Run (Option ToolCall) :=
  let raw := trim raw
  match Strings.find ['('] raw, Strings.rfind [')'] raw with
  | some opening, some closing => do
      let before ← slice_to raw opening
      let name := trim before
      let arg_body ← str_slice raw (opening + 1) closing
      let segments ← split_top_level arg_body ','
      let arguments ← segments.foldlM (insert_kwarg S) []
      return some (tool_call name raw (S.to_string (.obj arguments)))
  | _, _ => .ok none

def extract_lfm2_tool_calls (text : Text) : Run (List ToolCall) := do
  let bodies ← extract_tag_bodies text "<|tool_call_start|>".toList "<|tool_call_end|>".toList
  let found ← filter_map (fun body => do
      let raws ← split_top_level (unbracketed body) ','
      let calls ← filter_map (parse_lfm2_call S) raws
      return some calls) bodies
  return found.flatten

def insert_gemma_param (arguments : List (Text × Json S.Number)) (segment : Text) :
    Run (List (Text × Json S.Number)) := do
  match ← split_first_top_level (trim segment) ':' with
  | none => return arguments
  | some (key, value) => do
      let value := ((strip_start "<escape>".toList (trim value)).bind
        (strip_end "<escape>".toList)).getD (trim value)
      let value ← parse_pythonish_value S value
      return insert_member arguments (trim key, value)

def parse_gemma_call_body (body : Text) : Run (Option ToolCall) :=
  let body := trim body
  match strip_start "call:".toList body with
  | none => .ok none
  | some rest =>
      match Strings.find ['\x7b'] rest, Strings.rfind ['\x7d'] rest with
      | some opening, some closing => do
          let before ← slice_to rest opening
          let name := trim before
          let args_body ← str_slice rest (opening + 1) closing
          let segments ← split_top_level args_body ','
          let arguments ← segments.foldlM (insert_gemma_param S) []
          return some (tool_call name body (S.to_string (.obj arguments)))
      | _, _ => .ok none

def extract_function_gemma_tool_calls (text : Text) : Run (List ToolCall) := do
  let bodies ← extract_tag_bodies text "<start_function_call>".toList "<end_function_call>".toList
  filter_map (parse_gemma_call_body S) bodies

def insert_gemma4_member (value : Text → Run (Json S.Number)) (map : List (Text × Json S.Number))
    (segment : Text) : Run (List (Text × Json S.Number)) :=
  let segment := trim segment
  if segment = [] then .ok map
  else do
    match ← split_first_top_level segment ':' with
    | none => return map
    | some (key, raw) => do
        let v ← value (trim raw)
        return insert_member map (trim key, v)

def gemma4_object (value : Text → Run (Json S.Number)) (raw : Text) :
    Run (Option (Json S.Number)) :=
  match (strip_start ['\x7b'] (trim raw)).bind (strip_end ['\x7d']) with
  | none => .ok none
  | some inner => do
      let segments ← split_top_level inner ','
      let map ← segments.foldlM (insert_gemma4_member S value) []
      return some (.obj map)

def parse_gemma4_value : ℕ → Text → Run (Json S.Number)
  | 0, raw => .ok (.str raw)
  | fuel + 1, raw =>
      match (strip_start gemma_quote raw).bind (strip_end gemma_quote) with
      | some value => .ok (.str value)
      | none =>
          if raw.head? = some '\x7b' ∧ raw.getLast? = some '\x7d' then do
            let object ← gemma4_object S (parse_gemma4_value fuel) raw
            return object.getD (.str raw)
          else if raw.head? = some '[' ∧ raw.getLast? = some ']' then do
            let inner ← str_slice raw 1 (byte_len raw - 1)
            let segments ← split_top_level inner ','
            let values ← (segments.filter fun s => trim s ≠ []).mapM fun s =>
              parse_gemma4_value fuel (trim s)
            return .arr values
          else parse_pythonish_value S raw

def parse_gemma4_object (raw : Text) : Run (Option (Json S.Number)) :=
  gemma4_object S (parse_gemma4_value S (raw.length + 1)) raw

def parse_gemma4_call (body : Text) : Run (Option ToolCall) :=
  match strip_start "call:".toList (trim body) with
  | none => .ok none
  | some rest =>
      match Strings.find ['\x7b'] rest, Strings.rfind ['\x7d'] rest with
      | some opening, some closing => do
          let before ← slice_to rest opening
          let name := trim before
          let raw ← str_slice rest opening (closing + 1)
          let args ← parse_gemma4_object S raw
          return args.map fun args => tool_call name body (S.to_string args)
      | _, _ => .ok none

def extract_gemma4_tool_calls (text : Text) : Run (List ToolCall) := do
  let bodies ← extract_tag_bodies text "<|tool_call>".toList "<tool_call|>".toList
  filter_map (parse_gemma4_call S) bodies

def extract_tool_calls (text : Text) : Run (Option (List ToolCall)) := do
  let qwen_json ← extract_qwen_json_tool_calls S text
  let qwen_function ← extract_qwen_function_tool_calls S text
  let ministral ← extract_ministral_tool_calls S text
  let lfm2 ← extract_lfm2_tool_calls S text
  let function_gemma ← extract_function_gemma_tool_calls S text
  let gemma4 ← extract_gemma4_tool_calls S text
  let calls := qwen_json ++ qwen_function ++ ministral ++ lfm2 ++ function_gemma ++ gemma4
  return if calls = [] then none else some calls

def parse_assistant_format_with_state (text : Text) (reasoning_format : ReasoningFormat)
    (starts_in_thinking : Bool) : Run ParsedFormat := do
  let r ← extract_reasoning_blocks reasoning_format text starts_in_thinking
  let calls ← extract_tool_calls S r.2
  let content ← strip_tool_blocks r.2
  return ⟨trim content, r.1, calls⟩

/-! ## 5. Cutting at offsets -/

theorem reasoning_loop_eq (fmt : ReasoningFormat) (fuel : ℕ) (in_thinking : Bool)
    (rest reasoning output : Text) :
    reasoning_loop fmt fuel in_thinking rest reasoning output =
      .ok (Llama.reasoning_loop fmt fuel in_thinking rest reasoning output) := by
  induction fuel generalizing in_thinking rest reasoning output with
  | zero => rfl
  | succ fuel ih =>
      rw [reasoning_loop, Llama.reasoning_loop]
      by_cases hnil : rest = []
      · rw [if_pos hnil, if_pos hnil]
      · rw [if_neg hnil, if_neg hnil]
        cases in_thinking with
        | true =>
            simp only [if_true, find_eq_map_cut]
            cases hcut : cut fmt.close_tag rest with
            | none => exact ih ..
            | some r =>
                rw [Option.map_some]
                dsimp only
                rw [slice_to_found hcut, ok_bind, slice_from_found hcut, ok_bind, ih]
        | false =>
            simp only [Bool.false_eq_true, if_false, find_eq_map_cut]
            cases hcut : cut fmt.open_tag rest with
            | none => rfl
            | some r =>
                rw [Option.map_some]
                dsimp only
                rw [slice_to_found hcut, ok_bind, slice_from_found hcut, ok_bind, ih]

theorem extract_reasoning_blocks_eq (fmt : ReasoningFormat) (text : Text)
    (starts_in_thinking : Bool) :
    extract_reasoning_blocks fmt text starts_in_thinking =
      .ok (Llama.extract_reasoning_blocks fmt text starts_in_thinking) := by
  unfold extract_reasoning_blocks
  dsimp only
  rw [reasoning_loop_eq]
  rfl

theorem bodies_within_eq (start_tag end_tag : Text) (fuel : ℕ) (rest : Text) :
    bodies_within start_tag end_tag fuel rest =
      .ok (Llama.bodies_within start_tag end_tag fuel rest) := by
  induction fuel generalizing rest with
  | zero => rfl
  | succ fuel ih =>
      rw [bodies_within, Llama.bodies_within, find_eq_map_cut]
      cases hcut : cut start_tag rest with
      | none => rfl
      | some r =>
          rw [Option.map_some]
          dsimp only
          rw [slice_from_found hcut, ok_bind, find_eq_map_cut]
          cases hcut' : cut end_tag r.2 with
          | none => rfl
          | some r' =>
              rw [Option.map_some]
              dsimp only
              rw [slice_to_found hcut', ok_bind, slice_from_found hcut', ok_bind, ih]
              rfl

theorem extract_tag_bodies_eq (text start_tag end_tag : Text) :
    extract_tag_bodies text start_tag end_tag =
      .ok (Llama.extract_tag_bodies text start_tag end_tag) := bodies_within_eq ..

theorem strip_blocks_within_eq (start_tag end_tag : Text) (fuel : ℕ) (rest output : Text) :
    strip_blocks_within start_tag end_tag fuel rest output =
      .ok (Llama.strip_blocks_within start_tag end_tag fuel rest output) := by
  induction fuel generalizing rest output with
  | zero => rfl
  | succ fuel ih =>
      rw [strip_blocks_within, Llama.strip_blocks_within, find_eq_map_cut]
      cases hcut : cut start_tag rest with
      | none => rfl
      | some r =>
          rw [Option.map_some]
          dsimp only
          rw [slice_to_found hcut, ok_bind, slice_from_found hcut, ok_bind, find_eq_map_cut]
          cases hcut' : cut end_tag r.2 with
          | none => rfl
          | some r' =>
              rw [Option.map_some]
              dsimp only
              rw [slice_from_found hcut', ok_bind, ih]

theorem strip_ministral_blocks_eq (text : Text) :
    strip_ministral_blocks text = .ok (Llama.strip_ministral_blocks text) := by
  rw [strip_ministral_blocks, Llama.strip_ministral_blocks, find_eq_map_cut]
  cases hcut : cut "[TOOL_CALLS]".toList text with
  | none => rfl
  | some r => exact slice_to_found hcut

theorem strip_tool_blocks_eq (text : Text) :
    strip_tool_blocks text = .ok (Llama.strip_tool_blocks text) := by
  simp only [strip_tool_blocks, strip_tagged_blocks, strip_blocks_within_eq, ok_bind,
    strip_ministral_blocks_eq]
  rfl

/-! ## 6. Calls -/

section

variable (S : Serde)

/-- A text of two characters or more, by its first and its last. -/
theorem exists_inner {o c : Char} {raw : Text} (ho : raw.head? = some o)
    (hc : raw.getLast? = some c) (hlength : 2 ≤ raw.length) : ∃ m, raw = o :: (m ++ [c]) := by
  cases raw with
  | nil => cases ho
  | cons x raw =>
      cases ho
      cases raw with
      | nil => simp at hlength
      | cons y raw =>
          rw [List.getLast?_cons_cons] at hc
          exact ⟨(y :: raw).dropLast, congrArg (o :: ·) (List.dropLast_append_getLast? c hc).symm⟩

/-- What is left of it without the two. -/
theorem slice_inner {o c : Char} (ho : o.utf8Size = 1) (hc : c.utf8Size = 1) (m : Text) :
    str_slice (o :: (m ++ [c])) 1 (byte_len (o :: (m ++ [c])) - 1) =
      (.ok (((o :: (m ++ [c])).drop 1).take ((o :: (m ++ [c])).length - 2)) : Run Text) := by
  have hpiece : ((o :: (m ++ [c])).drop 1).take ((o :: (m ++ [c])).length - 2) = m := by
    simp
  rw [hpiece, Strings.str_slice_eq_ok]
  refine ⟨[o], [c], rfl, ?_, ?_⟩
  · simp [ho]
  · simp [ho, hc]
    omega

theorem two_le_byte_len_iff {c : Char} {raw : Text} (hc : c.utf8Size = 1)
    (hfirst : raw.head? = some c) : 2 ≤ byte_len raw ↔ 2 ≤ raw.length := by
  cases raw with
  | nil => cases hfirst
  | cons x raw =>
      cases hfirst
      rw [Strings.byte_len_cons, hc, List.length_cons]
      cases raw with
      | nil => simp
      | cons y raw =>
          have hpos := y.utf8Size_pos
          rw [Strings.byte_len_cons, List.length_cons]
          omega

theorem parse_pythonish_value_eq (raw : Text) :
    parse_pythonish_value S raw = .ok (Llama.parse_pythonish_value S raw) := by
  unfold parse_pythonish_value Llama.parse_pythonish_value
  cases S.from_str raw with
  | some value => rfl
  | none =>
      have hquoted : (byte_len raw ≥ 2 ∧ raw.head? = some '\'' ∧ raw.getLast? = some '\'') ↔
          raw.length ≥ 2 ∧ raw.head? = some '\'' ∧ raw.getLast? = some '\'' :=
        and_congr_left fun h => two_le_byte_len_iff (by decide) h.1
      simp only [hquoted]
      split_ifs with htrue hfalse hnone hinner
      · rfl
      · rfl
      · rfl
      · obtain ⟨m, rfl⟩ := exists_inner hinner.2.1 hinner.2.2 hinner.1
        rw [slice_inner (by decide) (by decide)]
        rfl
      · rfl

theorem byte_len_singleton : byte_len ['>'] = 1 := rfl

/-- From what is found on, or to the end. -/
theorem slices_at_next (pat s : Text) :
    ∃ next : ℕ, (Strings.find pat s).getD (byte_len s) = next ∧
      slice_to s next = (.ok (((cut pat s).map Prod.fst).getD s) : Run Text) ∧
      slice_from s next =
        (.ok (((cut pat s).map fun r => pat ++ r.2).getD []) : Run Text) := by
  refine ⟨_, rfl, ?_⟩
  rw [Strings.find_eq_map_cut]
  cases hcut : cut pat s with
  | none =>
      refine ⟨Strings.slice_all s, ?_⟩
      have hback := @Strings.slice_back Empty s []
      rwa [List.append_nil] at hback
  | some r => exact ⟨Strings.slice_to_found hcut, Strings.slice_at_found hcut⟩

theorem ministral_calls_eq (fuel : ℕ) (rest : Text) :
    ministral_calls S fuel rest = .ok (Llama.ministral_calls S fuel rest) := by
  induction fuel generalizing rest with
  | zero => rfl
  | succ fuel ih =>
      rw [ministral_calls, Llama.ministral_calls, find_eq_map_cut]
      cases hcut : cut "[TOOL_CALLS]".toList rest with
      | none => rfl
      | some r =>
          rw [Option.map_some]
          dsimp only
          rw [slice_from_found hcut, ok_bind, find_eq_map_cut]
          cases hcut' : cut "[ARGS]".toList r.2 with
          | none => rfl
          | some r' =>
              rw [Option.map_some]
              dsimp only
              obtain ⟨next, hnext, hto, hfrom⟩ := slices_at_next "[TOOL_CALLS]".toList r'.2
              rw [slice_to_found hcut', ok_bind, slice_from_found hcut', ok_bind, hnext, hto,
                ok_bind, hfrom, ok_bind, ih, split_at_call]
              cases cut "[TOOL_CALLS]".toList r'.2 <;> rfl

theorem parse_parameters_eq (fuel : ℕ) (rest : Text) (arguments : List (Text × Json S.Number)) :
    parse_parameters S fuel rest arguments =
      .ok (Llama.parse_parameters S fuel rest arguments) := by
  induction fuel generalizing rest arguments with
  | zero => rfl
  | succ fuel ih =>
      rw [parse_parameters, Llama.parse_parameters, find_eq_map_cut]
      cases hcut : cut "<parameter=".toList rest with
      | none => rfl
      | some r =>
          obtain ⟨front, after⟩ := r
          rw [Option.map_some]
          dsimp only
          rw [slice_from_found hcut, ok_bind, find_eq_map_cut]
          cases hcut' : cut ['>'] after with
          | none => rfl
          | some r' =>
              obtain ⟨key, after_key⟩ := r'
              rw [Option.map_some]
              dsimp only
              -- the offsets count from the front of the rest
              obtain rfl := Holding.cut_eq hcut
              obtain rfl := Holding.cut_eq hcut'
              generalize "<parameter=".toList = tag
              have hkey := @slices_found_behind Empty _ _ _ _ (front ++ tag) hcut'
              rw [byte_len_append, List.append_assoc, byte_len_singleton] at hkey
              rw [hkey.1, ok_bind, hkey.2, ok_bind, find_eq_map_cut]
              cases hvalue : cut "</parameter>".toList after_key with
              | none => rfl
              | some r'' =>
                  obtain ⟨raw, rest'⟩ := r''
                  rw [Option.map_some]
                  dsimp only
                  -- now the front reaches to the end of the key
                  have hraw := @slices_found_behind Empty _ _ _ _
                    (front ++ (tag ++ (key ++ ['>']))) hvalue
                  simp only [byte_len_append, byte_len_singleton, List.append_assoc,
                    ← Nat.add_assoc] at hraw
                  rw [hraw.1, ok_bind, hraw.2, ok_bind, ih]

theorem parse_function_tool_call_eq (body : Text) :
    parse_function_tool_call S body = .ok (Llama.parse_function_tool_call S body) := by
  rw [parse_function_tool_call, Llama.parse_function_tool_call, find_eq_map_cut]
  cases hcut : cut "<function=".toList body with
  | none => rfl
  | some r =>
      obtain ⟨front, after⟩ := r
      rw [Option.map_some]
      dsimp only
      rw [slice_from_found hcut, ok_bind, find_eq_map_cut]
      cases hcut' : cut ['>'] after with
      | none => simp [Option.bind_eq_bind, hcut']; rfl
      | some r' =>
          obtain ⟨name, after_name⟩ := r'
          rw [Option.map_some]
          dsimp only
          have hbody := Holding.cut_eq hcut
          have hname := @slices_found_behind Empty _ _ _ _ (front ++ "<function=".toList) hcut'
          rw [List.append_assoc, ← hbody, byte_len_append, byte_len_singleton] at hname
          obtain ⟨next, hnext, hto, -⟩ := slices_at_next "</function>".toList after_name
          rw [Nat.add_comm (byte_len name), hname.1, ok_bind, hname.2, ok_bind, hnext, hto,
            ok_bind, parse_parameters_eq]
          simp only [Option.bind_eq_bind, Option.bind_some, hcut']
          rfl

/-! ## 7. Calls between brackets -/

/-- What the two searches find, in characters and in bytes. -/
theorem ranges_eq {o c : Char} {s : Text} {i j : ℕ} (ho : o.utf8Size = 1) (hc : c.utf8Size = 1)
    (hi : find o s = some i) (hj : rfind c s = some j) :
    ∃ i' j', Strings.find [o] s = some i' ∧ Strings.rfind [c] s = some j' ∧
      slice_to s i' = (.ok (s.take i) : Run Text) ∧
      str_slice s (i' + 1) j' = (slice s (i + 1) j : Run Text) ∧
      str_slice s i' (j' + 1) = (slice s i (j + 1) : Run Text) := by
  obtain ⟨a, b, ha, hfirst⟩ := exists_first (mem_of_find hi)
  obtain ⟨a', b', ha', hlast⟩ := exists_last (mem_of_rfind hj)
  have hi' : a.length = i := by
    rw [ha, find_append hfirst] at hi
    exact Option.some.inj hi
  have hj' : a'.length = j := by
    rw [ha', rfind_last hlast] at hj
    exact Option.some.inj hj
  have hopen : s = (a ++ [o]) ++ b := by rw [ha]; simp
  have hclose : s = (a' ++ [c]) ++ b' := by rw [ha']; simp
  subst hi' hj'
  refine ⟨byte_len a, byte_len a', ?_, ?_, ?_, ?_, ?_⟩
  · rw [ha, Strings.find_char_eq hfirst]
  · rw [ha', Strings.rfind_char_eq hlast]
  · rw [ha, List.take_left]
    exact Strings.slice_front ..
  · have hrange := @Strings.str_slice_eq_slice Empty _ _ _ _ _ hopen ha'
    rwa [Strings.byte_len_append, List.length_append, Strings.byte_len_cons, ho] at hrange
  · have hrange := @Strings.str_slice_eq_slice Empty _ _ _ _ _ ha hclose
    rwa [Strings.byte_len_append, List.length_append, Strings.byte_len_cons, hc] at hrange

theorem find_none {c : Char} {s : Text} (h : find c s = none) : Strings.find [c] s = none :=
  Strings.find_char_none (List.idxOf?_eq_none_iff.1 h)

theorem rfind_none {c : Char} {s : Text} (h : rfind c s = none) : Strings.rfind [c] s = none := by
  unfold rfind at h
  rw [Option.map_eq_none_iff, List.idxOf?_eq_none_iff] at h
  exact Strings.rfind_char_none fun hmem => h (List.mem_reverse.2 hmem)

/-- A loop whose body does not panic. -/
theorem foldlM_ok {α β : Type} {f : β → α → Run β} {g : β → α → β} (h : ∀ b a, f b a = .ok (g b a))
    (as : List α) (b : β) : as.foldlM f b = .ok (as.foldl g b) := by
  induction as generalizing b with
  | nil => rfl
  | cons a as ih =>
      rw [List.foldlM_cons, h, List.foldl_cons]
      exact ih (g b a)

theorem mapM_ok {α β : Type} {f : α → Run β} {g : α → β} (h : ∀ a, f a = .ok (g a))
    (as : List α) : as.mapM f = .ok (as.map g) := by
  induction as with
  | nil => rfl
  | cons a as ih =>
      rw [List.mapM_cons, h, ok_bind, ih]
      rfl

theorem split_top_level_eq (s : Text) (d : Char) :
    split_top_level s d = .ok (Texts.split_top_level s d) := Strings.split_offsets_eq s d

theorem split_first_top_level_eq (s : Text) (d : Char) :
    split_first_top_level s d = .ok (Texts.split_first_top_level s d) :=
  Strings.split_first_offsets_eq s d

theorem insert_kwarg_eq (arguments : List (Text × Json S.Number)) (segment : Text) :
    insert_kwarg S arguments segment = .ok (Llama.insert_kwarg S arguments segment) := by
  unfold insert_kwarg Llama.insert_kwarg
  dsimp only
  rw [split_first_top_level_eq, ok_bind]
  split_ifs
  · rfl
  · cases Texts.split_first_top_level (trim segment) '=' with
    | none => rfl
    | some r =>
        dsimp only
        rw [parse_pythonish_value_eq]
        rfl

theorem parse_lfm2_call_eq (raw : Text) :
    parse_lfm2_call S raw = Llama.parse_lfm2_call S raw := by
  unfold parse_lfm2_call Llama.parse_lfm2_call
  dsimp only
  cases hi : find '(' (trim raw) with
  | none => rw [find_none hi]
  | some i =>
      cases hj : rfind ')' (trim raw) with
      | none => rw [rfind_none hj]; cases Strings.find ['('] (trim raw) <;> rfl
      | some j =>
          obtain ⟨i', j', hfind, hrfind, hto, hbetween, -⟩ :=
            ranges_eq (by decide) (by decide) hi hj
          simp only [hfind, hrfind, hto, hbetween, ok_bind, split_top_level_eq,
            foldlM_ok (insert_kwarg_eq S)]

theorem extract_lfm2_eq (text : Text) :
    extract_lfm2_tool_calls S text = Llama.extract_lfm2_tool_calls S text := by
  unfold extract_lfm2_tool_calls Llama.extract_lfm2_tool_calls
  have hcall : parse_lfm2_call S = Llama.parse_lfm2_call S := funext (parse_lfm2_call_eq S)
  simp only [extract_tag_bodies_eq, ok_bind, split_top_level_eq, hcall]
  rfl

theorem insert_gemma_param_eq (arguments : List (Text × Json S.Number)) (segment : Text) :
    insert_gemma_param S arguments segment =
      .ok (Llama.insert_gemma_param S arguments segment) := by
  unfold insert_gemma_param Llama.insert_gemma_param
  rw [split_first_top_level_eq, ok_bind]
  cases Texts.split_first_top_level (trim segment) ':' with
  | none => rfl
  | some r =>
      dsimp only
      rw [parse_pythonish_value_eq]
      rfl

theorem parse_gemma_call_body_eq (body : Text) :
    parse_gemma_call_body S body = Llama.parse_gemma_call_body S body := by
  unfold parse_gemma_call_body Llama.parse_gemma_call_body
  dsimp only
  cases strip_start "call:".toList (trim body) with
  | none => rfl
  | some rest =>
      dsimp only
      cases hi : find '\x7b' rest with
      | none => rw [find_none hi]
      | some i =>
          cases hj : rfind '\x7d' rest with
          | none => rw [rfind_none hj]; cases Strings.find ['\x7b'] rest <;> rfl
          | some j =>
              obtain ⟨i', j', hfind, hrfind, hto, hbetween, -⟩ :=
                ranges_eq (by decide) (by decide) hi hj
              simp only [hfind, hrfind, hto, hbetween, ok_bind, split_top_level_eq,
                foldlM_ok (insert_gemma_param_eq S)]

theorem insert_gemma4_member_eq {value : Text → Run (Json S.Number)}
    {value' : Text → Json S.Number} (h : ∀ raw, value raw = .ok (value' raw))
    (map : List (Text × Json S.Number)) (segment : Text) :
    insert_gemma4_member S value map segment =
      .ok (Llama.insert_gemma4_member S value' map segment) := by
  unfold insert_gemma4_member Llama.insert_gemma4_member
  dsimp only
  rw [split_first_top_level_eq, ok_bind]
  split_ifs
  · rfl
  · cases Texts.split_first_top_level (trim segment) ':' with
    | none => rfl
    | some r =>
        dsimp only
        rw [h]
        rfl

theorem gemma4_object_eq {value : Text → Run (Json S.Number)} {value' : Text → Json S.Number}
    (h : ∀ raw, value raw = .ok (value' raw)) (raw : Text) :
    gemma4_object S value raw = .ok (Llama.gemma4_object S value' raw) := by
  unfold gemma4_object Llama.gemma4_object
  cases hstart : strip_start ['\x7b'] (trim raw) with
  | none => rfl
  | some rest =>
      simp only [Option.bind_eq_bind, Option.bind_some]
      cases hend : strip_end ['\x7d'] rest with
      | none => rfl
      | some inner =>
          simp only [split_top_level_eq, ok_bind, foldlM_ok (insert_gemma4_member_eq S h)]
          rfl

/-- **A value at any depth**. -/
theorem parse_gemma4_value_eq (fuel : ℕ) (raw : Text) :
    parse_gemma4_value S fuel raw = .ok (Llama.parse_gemma4_value S fuel raw) := by
  induction fuel generalizing raw with
  | zero => rfl
  | succ fuel ih =>
      rw [parse_gemma4_value, Llama.parse_gemma4_value]
      cases (strip_start gemma_quote raw).bind (strip_end gemma_quote) with
      | some value => rfl
      | none =>
          dsimp only
          split_ifs with hbraces hbrackets
          · rw [gemma4_object_eq S ih]
            rfl
          · have hlength : 2 ≤ raw.length := by
              obtain _ | ⟨x, _ | ⟨y, raw⟩⟩ := raw
              · cases hbrackets.1
              · cases hbrackets.1
                cases hbrackets.2
              · simp
            obtain ⟨m, rfl⟩ := exists_inner hbrackets.1 hbrackets.2 hlength
            rw [slice_inner (by decide) (by decide), ok_bind, split_top_level_eq, ok_bind,
              mapM_ok fun s => ih (trim s)]
            rfl
          · exact parse_pythonish_value_eq S raw

theorem parse_gemma4_call_eq (body : Text) :
    parse_gemma4_call S body = Llama.parse_gemma4_call S body := by
  unfold parse_gemma4_call Llama.parse_gemma4_call
  cases strip_start "call:".toList (trim body) with
  | none => rfl
  | some rest =>
      dsimp only
      cases hi : find '\x7b' rest with
      | none => rw [find_none hi]
      | some i =>
          cases hj : rfind '\x7d' rest with
          | none => rw [rfind_none hj]; cases Strings.find ['\x7b'] rest <;> rfl
          | some j =>
              obtain ⟨i', j', hfind, hrfind, hto, -, haround⟩ :=
                ranges_eq (by decide) (by decide) hi hj
              simp only [hfind, hrfind, hto, haround, ok_bind, parse_gemma4_object,
                gemma4_object_eq S (parse_gemma4_value_eq S _)]
              rfl

theorem filter_map_ok {α β : Type} {f : α → Run (Option β)} {g : α → Option β}
    (h : ∀ a, f a = .ok (g a)) (as : List α) : filter_map f as = .ok (as.filterMap g) := by
  induction as with
  | nil => rfl
  | cons a as ih =>
      rw [filter_map, h, ok_bind, ih, ok_bind, List.filterMap_cons]
      cases g a <;> rfl

theorem extract_tool_calls_eq (text : Text) :
    extract_tool_calls S text = Llama.extract_tool_calls S text := by
  have hgemma : parse_gemma_call_body S = Llama.parse_gemma_call_body S :=
    funext (parse_gemma_call_body_eq S)
  have hgemma4 : parse_gemma4_call S = Llama.parse_gemma4_call S :=
    funext (parse_gemma4_call_eq S)
  unfold extract_tool_calls Llama.extract_tool_calls
  simp only [extract_qwen_json_tool_calls, extract_qwen_function_tool_calls,
    extract_ministral_tool_calls, extract_function_gemma_tool_calls, extract_gemma4_tool_calls,
    extract_tag_bodies_eq, ok_bind, filter_map_ok (parse_function_tool_call_eq S),
    ministral_calls_eq, extract_lfm2_eq, hgemma, hgemma4]
  rfl

/-- **The provider parses a text by its bytes as by its characters.** -/
theorem parse_eq (text : Text) (reasoning_format : ReasoningFormat) (starts_in_thinking : Bool) :
    parse_assistant_format_with_state S text reasoning_format starts_in_thinking =
      Llama.parse_assistant_format_with_state S text reasoning_format starts_in_thinking := by
  unfold parse_assistant_format_with_state Llama.parse_assistant_format_with_state
  simp only [extract_reasoning_blocks_eq, ok_bind, extract_tool_calls_eq, strip_tool_blocks_eq]

end

/-! ## 8. No text crashes the provider -/

/-- The offsets at which the text for the log is cut are boundaries. -/
def Loggable (output : Text) : Prop :=
  byte_len output ≤ 400 ∨ IsBoundary output 400 ∧ IsBoundary output (byte_len output - 400)

theorem returns_slice_iff {s : Text} {i j : ℕ} (hij : i ≤ j) :
    Returns (str_slice s i j : Run Text) ↔ IsBoundary s i ∧ IsBoundary s j := by
  obtain ⟨hi, hj, m, hslice⟩ | ⟨hnot, hslice⟩ := @Strings.str_slice_cases Empty s i j hij
  · rw [hslice]
    exact iff_of_true (returns_ok m) ⟨hi, hj⟩
  · rw [hslice]
    exact iff_of_false not_returns_panic hnot

/-- **The text for the log**. -/
theorem returns_log_ends (output : Text) : Returns (log_ends output) ↔ Loggable output := by
  unfold log_ends Loggable
  dsimp only
  by_cases hlong : 400 < byte_len output
  · have hhead : min 400 (byte_len output) = 400 := by omega
    have hnot : ¬ byte_len output ≤ 400 := by omega
    simp only [hhead, if_pos hlong]
    rw [returns_bind_of (p := IsBoundary output (byte_len output - 400))]
    · rw [slice_to, returns_slice_iff (Nat.zero_le _), or_iff_right hnot]
      exact and_congr_left fun _ => and_iff_right (Strings.isBoundary_zero output)
    · intro head _
      rw [returns_bind fun _ => returns_pure _, slice_from, returns_slice_iff (by omega)]
      exact and_iff_left (Strings.isBoundary_byte_len output)
  · have hhead : min 400 (byte_len output) = byte_len output := by omega
    simp only [hhead, if_neg hlong, Strings.slice_all]
    exact iff_of_true ⟨_, rfl⟩ (.inl (by omega))

/-- Taking off a stop sequence is no danger. -/
theorem returns_trim_stops (additional_stops : List Text) (output : Text) :
    ∃ front, trim_stops additional_stops output = .ok front ∧ front <+: output := by
  unfold trim_stops
  cases hstop : additional_stops.find? fun stop => decide (stop ≠ [] ∧ stop <:+ output) with
  | none => exact ⟨output, rfl, List.prefix_refl output⟩
  | some stop =>
      have hends := List.find?_some hstop
      rw [decide_eq_true_iff] at hends
      obtain ⟨front, rfl⟩ := hends.2
      refine ⟨front, ?_, List.prefix_append ..⟩
      have hlength : byte_len (front ++ stop) - byte_len stop = byte_len front := by
        rw [byte_len_append]
        omega
      dsimp only
      rw [hlength, truncate, if_pos (by rw [byte_len_append]; omega)]
      exact Strings.slice_front ..

/-- What is done with a generated text returns. -/
structure NoCrash (S : Serde) (fmt : ReasoningFormat) (starts_in_thinking : Bool)
    (text : Text) : Prop where
  trimmed : ∀ additional_stops, Returns (trim_stops additional_stops text)
  logged : Returns (log_ends text)
  parsed : Returns (parse_assistant_format_with_state S text fmt starts_in_thinking)

/-- **A text does not crash the provider** if and only if it can be cut for the log, and the
brackets of its calls stand in their order. -/
theorem no_crash_iff (S : Serde) (fmt : ReasoningFormat) (starts_in_thinking : Bool)
    (text : Text) :
    NoCrash S fmt starts_in_thinking text ↔
      Loggable text ∧ Bracketed (Llama.extract_reasoning_blocks fmt text starts_in_thinking).2 := by
  rw [← returns_log_ends, ← parse_returns_iff S, ← parse_eq]
  constructor
  · exact fun h => ⟨h.logged, h.parsed⟩
  · rintro ⟨hlogged, hparsed⟩
    refine ⟨fun additional_stops => ?_, hlogged, hparsed⟩
    obtain ⟨front, hfront, -⟩ := returns_trim_stops additional_stops text
    exact ⟨front, hfront⟩

/-- It reads no JSON. -/
def deaf_serde : Serde := ⟨Unit, fun _ => none, fun _ => none, fun _ => []⟩

/-- A call that starts with its closing bracket, and a text with two bytes at the offset 400. -/
theorem generated_text_crashes :
    ¬ NoCrash deaf_serde .ThinkTags false "<|tool_call_start|>)(<|tool_call_end|>".toList ∧
      ¬ NoCrash deaf_serde .ThinkTags false (List.replicate 399 'a' ++ ['é']) := by
  constructor
  · intro h
    have hparsed := h.parsed
    rw [parse_eq, parse_returns_iff] at hparsed
    have hraw : [')', '('] ∈ lfm2_calls (Llama.extract_reasoning_blocks .ThinkTags
        "<|tool_call_start|>)(<|tool_call_end|>".toList false).2 := by decide +kernel
    refine hparsed.lfm2 _ hraw [] ⟨[], [], by decide, ?_⟩
    simp
  · intro h
    have hlogged := (returns_log_ends _).1 h.logged
    have hnot : ¬ (byte_len (List.replicate 399 'a' ++ ['é']) ≤ 400 ∨
        IsBoundary (List.replicate 399 'a' ++ ['é']) 400 ∧
          IsBoundary (List.replicate 399 'a' ++ ['é'])
            (byte_len (List.replicate 399 'a' ++ ['é']) - 400)) := by decide +kernel
    exact hnot hlogged

end Querymt.Llama.Sliced
