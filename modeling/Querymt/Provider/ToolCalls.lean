/-
`ToolCalls.lean` -- reading tool calls out of a model's answer.

Models the extractors of `providers/llama-cpp/src/chat_format.rs`. A model writes its
tool calls as text, in one of six formats; `extract_tool_calls` does not ask which one
and runs the extractor of every format over the whole text, one after the other. The
extractors search for tags (`find`, `rfind`), cut at delimiters outside of quotes and
brackets, and hand values to `serde_json`; what it refuses is taken for a string.

Texts are lists of characters. A range that ends before it starts panics, as in the
source. Each round of a searching loop takes at least a tag off the text, and each level
of a nested value its brackets, so the length of the text bounds the rounds.
-/
import Querymt.Library.Encodings
import Querymt.Library.Faults
import Querymt.Library.Texts

set_option autoImplicit false

open Encodings Faults Texts

namespace Querymt.Llama

abbrev Text := List Char

/-! ## JSON -/

/-- A JSON value. `bad` is what a text denotes that is built like a value and has none:
a number out of range, half of a surrogate pair. -/
inductive Json (N : Type)
  | null
  | bool (b : Bool)
  | num (n : N)
  | str (s : Text)
  | arr (vs : List (Json N))
  | obj (members : List (Text × Json N))
  | bad

variable {N : Type}

/-- `Map::insert`: a later value takes the place of an earlier one. -/
def insert_member (members : List (Text × Json N)) (m : Text × Json N) : List (Text × Json N) :=
  if m.1 ∈ members.map Prod.fst then members.map fun p => if p.1 = m.1 then m else p
  else members ++ [m]

/-- The object with these members, inserted in order. -/
def Json.object (members : List (Text × Json N)) : Json N :=
  .obj (members.foldl insert_member [])

/-- What is used of `serde_json`: reading, and printing. `number` is what a number
denotes for it. -/
structure Serde where
  Number : Type
  number : Text → Option Number
  from_str : Text → Option (Json Number)
  to_string : Json Number → Text

/-! ## Texts -/

/-- `char::is_whitespace`. -/
def is_whitespace (c : Char) : Bool :=
  let n := c.toNat
  decide (0x09 ≤ n ∧ n ≤ 0x0d) || decide (0x2000 ≤ n ∧ n ≤ 0x200a) ||
    decide (n ∈ [0x20, 0x85, 0xa0, 0x1680, 0x2028, 0x2029, 0x202f, 0x205f, 0x3000])

/-- `str::trim`. -/
def trim (s : Text) : Text := Texts.trim is_whitespace s

/-- `str::trim_matches('\n')`. -/
def trim_newlines (s : Text) : Text := Texts.trim (· == '\n') s

/-- `str::find` of a character. -/
def find (c : Char) (s : Text) : Option ℕ := s.idxOf? c

/-- `str::rfind` of a character. -/
def rfind (c : Char) (s : Text) : Option ℕ :=
  (s.reverse.idxOf? c).map fun i => s.length - 1 - i

/-- `str::strip_prefix`. -/
def strip_start (tag s : Text) : Option Text :=
  if tag <+: s then some (s.drop tag.length) else none

/-- `str::strip_suffix`. -/
def strip_end (tag s : Text) : Option Text :=
  if tag <:+ s then some (s.take (s.length - tag.length)) else none

/-! ## Tool calls -/

structure FunctionCall where
  name : Text
  arguments : Text
  deriving DecidableEq

structure ToolCall where
  id : String
  call_type : String
  function : FunctionCall
  deriving DecidableEq

/-- The FNV-1a hash of the name and the text. -/
def stable_tool_call_id (name raw : Text) : String :=
  let bytes := as_bytes (String.ofList name) ++ as_bytes (String.ofList raw)
  let hash := bytes.foldl (fun (h : UInt64) b => (h ^^^ b.toUInt64) * 0x100000001b3)
    0xcbf29ce484222325
  "call_" ++ String.ofList (hex_chars (be_bytes 8 hash.toNat))

def tool_call (name raw arguments : Text) : ToolCall where
  id := stable_tool_call_id name raw
  call_type := "function"
  function := ⟨name, arguments⟩

/-- A computation that may panic. -/
abbrev Run (α : Type) := Except (Fault Empty) α

/-- `filter_map` with a function that may panic. -/
def filter_map {α β : Type} (f : α → Run (Option β)) : List α → Run (List β)
  | [] => .ok []
  | a :: as => do
      let b ← f a
      let bs ← filter_map f as
      return b.toList ++ bs

/-! ## Searching -/

def bodies_within (start_tag end_tag : Text) : ℕ → Text → List Text
  | 0, _ => []
  | fuel + 1, rest =>
      match cut start_tag rest with
      | none => []
      | some (_, after_start) =>
          match cut end_tag after_start with
          | none => []
          | some (body, rest) => body :: bodies_within start_tag end_tag fuel rest

def extract_tag_bodies (text start_tag end_tag : Text) : List Text :=
  bodies_within start_tag end_tag (text.length + 1) text

variable (S : Serde)

def json_arguments_to_string : Json S.Number → Text
  | .str s => s
  | other => S.to_string other

def parse_pythonish_value (raw : Text) : Json S.Number :=
  match S.from_str raw with
  | some value => value
  | none =>
      if raw = "True".toList then .bool true
      else if raw = "False".toList then .bool false
      else if raw = "None".toList then .null
      else if raw.length ≥ 2 ∧ raw.head? = some '\'' ∧ raw.getLast? = some '\'' then
        .str ((raw.drop 1).take (raw.length - 2))
      else .str raw

/-! ## The six formats -/

def Json.get {N : Type} (key : Text) : Json N → Option (Json N)
  | .obj members => (members.find? (·.1 = key)).map Prod.snd
  | _ => none

def Json.as_str {N : Type} : Json N → Option Text
  | .str s => some s
  | _ => none

def parse_json_tool_call (raw : Text) : Option ToolCall := do
  let value ← S.from_str raw
  let name ← (← value.get "name".toList).as_str
  let arguments := ((value.get "arguments".toList).map (json_arguments_to_string S)).getD
    ['\x7b', '\x7d']
  return tool_call name raw arguments

def extract_qwen_json_tool_calls (text : Text) : List ToolCall :=
  (extract_tag_bodies text "<tool_call>".toList "</tool_call>".toList).filterMap fun body =>
    parse_json_tool_call S (trim body)

/-- The parameters of a function call. -/
def parse_parameters : ℕ → Text → List (Text × Json S.Number) → List (Text × Json S.Number)
  | 0, _, arguments => arguments
  | fuel + 1, rest, arguments =>
      match cut "<parameter=".toList rest with
      | none => arguments
      | some (_, after) =>
          match cut ['>'] after with
          | none => arguments
          | some (key, after) =>
              match cut "</parameter>".toList after with
              | none => arguments
              | some (raw, rest) =>
                  let raw_value := trim (trim_newlines raw)
                  let value := (S.from_str raw_value).getD (.str raw_value)
                  parse_parameters fuel rest (insert_member arguments (trim key, value))

def parse_function_tool_call (body : Text) : Option ToolCall := do
  let (_, after) ← cut "<function=".toList body
  let (name, after_name) ← cut ['>'] after
  let function_body := ((cut "</function>".toList after_name).map Prod.fst).getD after_name
  let arguments := parse_parameters S (function_body.length + 1) function_body []
  return tool_call (trim name) body (S.to_string (.obj arguments))

def extract_qwen_function_tool_calls (text : Text) : List ToolCall :=
  (extract_tag_bodies text "<tool_call>".toList "</tool_call>".toList).filterMap
    (parse_function_tool_call S)

/-- The text before the next call, and from it on. -/
def split_at_call (s : Text) : Text × Text :=
  match cut "[TOOL_CALLS]".toList s with
  | some (raw, rest) => (raw, "[TOOL_CALLS]".toList ++ rest)
  | none => (s, [])

def ministral_calls : ℕ → Text → List ToolCall
  | 0, _ => []
  | fuel + 1, rest =>
      match cut "[TOOL_CALLS]".toList rest with
      | none => []
      | some (_, after) =>
          match cut "[ARGS]".toList after with
          | none => []
          | some (before, args_and_rest) =>
              let name := trim before
              let next := split_at_call args_and_rest
              let raw_args := trim next.1
              let arguments := ((S.from_str raw_args).map (json_arguments_to_string S)).getD raw_args
              (if name = [] then [] else [tool_call name raw_args arguments]) ++
                ministral_calls fuel next.2

def extract_ministral_tool_calls (text : Text) : List ToolCall :=
  ministral_calls S (text.length + 1) text

/-- One keyword argument of a call. -/
def insert_kwarg (arguments : List (Text × Json S.Number)) (segment : Text) :
    List (Text × Json S.Number) :=
  let segment := trim segment
  if segment = [] then arguments
  else
    match split_first_top_level segment '=' with
    | none => arguments
    | some (key, value) =>
        insert_member arguments (trim key, parse_pythonish_value S (trim value))

def parse_lfm2_call (raw : Text) : Run (Option ToolCall) :=
  let raw := trim raw
  match find '(' raw, rfind ')' raw with
  | some opening, some closing => do
      let name := trim (raw.take opening)
      let arg_body ← slice raw (opening + 1) closing
      let arguments := (split_top_level arg_body ',').foldl (insert_kwarg S) []
      return some (tool_call name raw (S.to_string (.obj arguments)))
  | _, _ => .ok none

def extract_lfm2_tool_calls (text : Text) : Run (List ToolCall) := do
  let found ← filter_map (fun body => do
      let body := trim body
      let body := (strip_start ['['] body).getD body
      let body := (strip_end [']'] body).getD body
      return some (← filter_map (parse_lfm2_call S) (split_top_level body ',')))
    (extract_tag_bodies text "<|tool_call_start|>".toList "<|tool_call_end|>".toList)
  return found.flatten

/-- One parameter between `<escape>` marks. -/
def insert_gemma_param (arguments : List (Text × Json S.Number)) (segment : Text) :
    List (Text × Json S.Number) :=
  match split_first_top_level (trim segment) ':' with
  | none => arguments
  | some (key, value) =>
      let value := ((strip_start "<escape>".toList (trim value)).bind
        (strip_end "<escape>".toList)).getD (trim value)
      insert_member arguments (trim key, parse_pythonish_value S value)

def parse_gemma_call_body (body : Text) : Run (Option ToolCall) :=
  let body := trim body
  match strip_start "call:".toList body with
  | none => .ok none
  | some rest =>
      match find '\x7b' rest, rfind '\x7d' rest with
      | some opening, some closing => do
          let name := trim (rest.take opening)
          let args_body ← slice rest (opening + 1) closing
          let arguments := (split_top_level args_body ',').foldl (insert_gemma_param S) []
          return some (tool_call name body (S.to_string (.obj arguments)))
      | _, _ => .ok none

def extract_function_gemma_tool_calls (text : Text) : Run (List ToolCall) :=
  filter_map (parse_gemma_call_body S)
    (extract_tag_bodies text "<start_function_call>".toList "<end_function_call>".toList)

/-- The quotes of the last format, a quote between angle brackets and bars. -/
def gemma_quote : Text := ['<', '|', '"', '|', '>']

/-- One member of an object of the last format, its value read with `value`. -/
def insert_gemma4_member (value : Text → Json S.Number) (map : List (Text × Json S.Number))
    (segment : Text) : List (Text × Json S.Number) :=
  let segment := trim segment
  if segment = [] then map
  else
    match split_first_top_level segment ':' with
    | none => map
    | some (key, raw) => insert_member map (trim key, value (trim raw))

def gemma4_object (value : Text → Json S.Number) (raw : Text) : Option (Json S.Number) := do
  let inner ← strip_end ['\x7d'] (← strip_start ['\x7b'] (trim raw))
  return .obj ((split_top_level inner ',').foldl (insert_gemma4_member S value) [])

def parse_gemma4_value : ℕ → Text → Json S.Number
  | 0, raw => .str raw
  | fuel + 1, raw =>
      match (strip_start gemma_quote raw).bind (strip_end gemma_quote) with
      | some value => .str value
      | none =>
          if raw.head? = some '\x7b' ∧ raw.getLast? = some '\x7d' then
            (gemma4_object S (parse_gemma4_value fuel) raw).getD (.str raw)
          else if raw.head? = some '[' ∧ raw.getLast? = some ']' then
            let inner := (raw.drop 1).take (raw.length - 2)
            .arr (((split_top_level inner ',').filter fun s => trim s ≠ []).map fun s =>
              parse_gemma4_value fuel (trim s))
          else parse_pythonish_value S raw

def parse_gemma4_object (raw : Text) : Option (Json S.Number) :=
  gemma4_object S (parse_gemma4_value S (raw.length + 1)) raw

def parse_gemma4_call (body : Text) : Run (Option ToolCall) :=
  match strip_start "call:".toList (trim body) with
  | none => .ok none
  | some rest =>
      match find '\x7b' rest, rfind '\x7d' rest with
      | some opening, some closing => do
          let name := trim (rest.take opening)
          let raw ← slice rest opening (closing + 1)
          return (parse_gemma4_object S raw).map fun args =>
            tool_call name body (S.to_string args)
      | _, _ => .ok none

def extract_gemma4_tool_calls (text : Text) : Run (List ToolCall) :=
  filter_map (parse_gemma4_call S)
    (extract_tag_bodies text "<|tool_call>".toList "<tool_call|>".toList)

/-- Every extractor over the whole text. -/
def extract_tool_calls (text : Text) : Run (Option (List ToolCall)) := do
  let lfm2 ← extract_lfm2_tool_calls S text
  let function_gemma ← extract_function_gemma_tool_calls S text
  let gemma4 ← extract_gemma4_tool_calls S text
  let calls := extract_qwen_json_tool_calls S text ++ extract_qwen_function_tool_calls S text ++
    extract_ministral_tool_calls S text ++ lfm2 ++ function_gemma ++ gemma4
  return if calls = [] then none else some calls

end Querymt.Llama
