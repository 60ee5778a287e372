/-
`Provider/AnthropicStream.lean` -- the content blocks of a streamed answer of Anthropic.

Mirrors `AnthropicStreamParser` (`providers/anthropic/src/lib.rs`). A block is started,
receives deltas and is stopped; the blocks of an answer may be open at the same time, and
each event names the block by its index. The parser keeps the unfinished tool calls and the
signatures of unfinished thinking by that index.

# What an answer gives

Every event gives the chunks that it reports wherever it stands (`feed_eq_reports`): the
text of its delta, or, at the end of a block, what the block's own deltas put together.
A tool call without arguments is given the empty object: that the deltas were empty is
what counts, not that there were none (`blocks_exact`, `empty_delta_gives_object`).

The JSON reader is `serde_json`, and the text of a decoding error is not read: both are
arbitrary.
-/
import Querymt.Agent.Streaming
import Querymt.Library.Encodings
import Querymt.Library.Parts
import Querymt.Library.Strings
import Querymt.Provider.HttpStream

set_option autoImplicit false

open Encodings Strings

namespace Querymt.Anthropic

open Querymt.Agent (StreamChunk Usage FinishReason LLMError ToolCall FunctionCall joined
  joined_append joined_singleton)
open Querymt.Http (ChatStreamParser feed)

/-! ## 1. What a line of the stream says -/

structure AnthropicStreamMessage where
  usage : Option Usage
  deriving DecidableEq

structure AnthropicStreamContentBlock where
  block_type : String
  id : Option String
  name : Option String
  text : Option String
  deriving DecidableEq

structure AnthropicDelta where
  delta_type : Option String
  text : Option String
  partial_json : Option String
  thinking : Option String
  signature : Option String
  stop_reason : Option String
  deriving DecidableEq

structure AnthropicStreamResponse where
  response_type : String
  index : Option ℕ
  content_block : Option AnthropicStreamContentBlock
  delta : Option AnthropicDelta
  usage : Option Usage
  message : Option AnthropicStreamMessage
  deriving DecidableEq

/-! ## 2. The parser -/

structure AnthropicToolUseState where
  id : String
  name : String
  arguments_buffer : String
  deriving DecidableEq

structure AnthropicThinkingState where
  signature : String
  deriving DecidableEq

structure AnthropicStreamParser where
  oauth : Bool
  tool_state_buffer : ℕ → Option AnthropicToolUseState
  thinking_state_buffer : ℕ → Option AnthropicThinkingState

/-- The parser that `chat_stream_parser` returns. -/
def new_stream (oauth : Bool) : AnthropicStreamParser :=
  ⟨oauth, fun _ => none, fun _ => none⟩

def TOOL_PREFIX : String := "mcp_"

def strip_tool_prefix (name : String) : String :=
  if TOOL_PREFIX.toList <+: name.toList then
    String.ofList (name.toList.drop TOOL_PREFIX.length)
  else name

def map_stop_reason (stop_reason : String) : FinishReason :=
  if stop_reason = "end_turn" ∨ stop_reason = "stop_sequence" then .Stop
  else if stop_reason = "max_tokens" then .Length
  else if stop_reason = "tool_use" then .ToolCalls
  else if stop_reason = "refusal" ∨ stop_reason = "pause_turn" then .Other
  else .Unknown

section

variable (p : AnthropicStreamParser)

/-- `tool_state_buffer.insert`, or `remove` for `none`. -/
def set_tool (index : ℕ) (state : Option AnthropicToolUseState) : AnthropicStreamParser :=
  { p with tool_state_buffer := Function.update p.tool_state_buffer index state }

/-- `thinking_state_buffer.insert`, or `remove` for `none`. -/
def set_thinking (index : ℕ) (state : Option AnthropicThinkingState) : AnthropicStreamParser :=
  { p with thinking_state_buffer := Function.update p.thinking_state_buffer index state }

/-- The name that a call of the block is given. -/
def tool_name (oauth : Bool) (name : String) : String :=
  if oauth then strip_tool_prefix name else name

/-- The branch of `content_block_start`. -/
def content_block_start (index : ℕ) (block : AnthropicStreamContentBlock) :
    List StreamChunk × AnthropicStreamParser :=
  if block.block_type = "tool_use" then
    let name := tool_name p.oauth (block.name.getD "")
    let id := block.id.getD ""
    ([.ToolUseStart index id name], set_tool p index (some ⟨id, name, ""⟩))
  else if block.block_type = "thinking" then ([], set_thinking p index (some ⟨""⟩))
  else ([], p)

def push_signature (signature : String) (state : AnthropicThinkingState) :
    AnthropicThinkingState :=
  ⟨state.signature ++ signature⟩

def push_arguments (partial_json : String) (state : AnthropicToolUseState) :
    AnthropicToolUseState :=
  { state with arguments_buffer := state.arguments_buffer ++ partial_json }

/-- The branch of `content_block_delta`: the first field that is present counts. -/
def content_block_delta (index : ℕ) (delta : AnthropicDelta) :
    List StreamChunk × AnthropicStreamParser :=
  match delta.text, delta.thinking, delta.signature, delta.partial_json with
  | some text, _, _, _ => ([.Text text], p)
  | none, some thinking, _, _ => ([.Thinking thinking], p)
  | none, none, some signature, _ =>
      ([], set_thinking p index ((p.thinking_state_buffer index).map (push_signature signature)))
  | none, none, none, some partial_json =>
      ([.ToolUseInputDelta index partial_json],
        set_tool p index ((p.tool_state_buffer index).map (push_arguments partial_json)))
  | none, none, none, none => ([], p)

/-- The arguments of a finished call. -/
def arguments (arguments_buffer : String) : String :=
  if arguments_buffer = "" then "\x7b\x7d" else arguments_buffer

def finished_call (state : AnthropicToolUseState) : ToolCall :=
  ⟨state.id, "function", ⟨state.name, arguments state.arguments_buffer⟩⟩

def tool_chunks (index : ℕ) : Option AnthropicToolUseState → List StreamChunk
  | none => []
  | some state => [.ToolUseComplete index (finished_call state)]

def signature_chunks : Option AnthropicThinkingState → List StreamChunk
  | none => []
  | some state => if state.signature = "" then [] else [.ThinkingSignature state.signature]

/-- The branch of `content_block_stop`. -/
def content_block_stop (index : ℕ) : List StreamChunk × AnthropicStreamParser :=
  (tool_chunks index (p.tool_state_buffer index) ++
      signature_chunks (p.thinking_state_buffer index),
    set_thinking (set_tool p index none) index none)

/-- The branch of `message_delta`. -/
def message_delta (r : AnthropicStreamResponse) : List StreamChunk :=
  (r.usage.map .Usage).toList ++
    ((r.delta.bind AnthropicDelta.stop_reason).map fun s => .Done (map_stop_reason s)).toList

/-- The `match` on the type of an event. -/
def handle (r : AnthropicStreamResponse) : List StreamChunk × AnthropicStreamParser :=
  if r.response_type = "message_start" then
    (((r.message.bind AnthropicStreamMessage.usage).map .Usage).toList, p)
  else if r.response_type = "content_block_start" then
    match r.index, r.content_block with
    | some index, some block => content_block_start p index block
    | _, _ => ([], p)
  else if r.response_type = "content_block_delta" then
    match r.index, r.delta with
    | some index, some delta => content_block_delta p index delta
    | _, _ => ([], p)
  else if r.response_type = "content_block_stop" then
    match r.index with
    | some index => content_block_stop p index
    | none => ([], p)
  else if r.response_type = "message_delta" then (message_delta r, p)
  else ([], p)

end

/-- What a line carries: nothing, or data, trimmed. -/
def data_of (line : Str) : Option Str :=
  if "data: ".toList <+: line then
    let data := trim (line.drop 6)
    if data = [] ∨ data = "[DONE]".toList then none else some data
  else none

section

variable (from_str : Str → Except String AnthropicStreamResponse)
  (utf8_error : List UInt8 → String)

/-- The loop over the lines. -/
def parse_lines : AnthropicStreamParser → List StreamChunk → List Str →
    Except LLMError (List StreamChunk) × AnthropicStreamParser
  | p, chunks, [] => (.ok chunks, p)
  | p, chunks, line :: rest =>
      match data_of line with
      | none => parse_lines p chunks rest
      | some data =>
          match from_str data with
          | .error e =>
              (.error (.ResponseFormatError ("Failed to parse Anthropic stream data: " ++ e)
                (String.ofList data)), p)
          | .ok r => parse_lines (handle p r).2 (chunks ++ (handle p r).1) rest

def parse_chunk (p : AnthropicStreamParser) (chunk : List UInt8) :
    Except LLMError (List StreamChunk) × AnthropicStreamParser :=
  match from_utf8 chunk with
  | none => (.error (.GenericError (utf8_error chunk)), p)
  | some text => parse_lines from_str p [] (lines text.toList)

/-- The parser as the adapter sees it; `finish` is the default of the trait. -/
def chat_stream_impl : ChatStreamParser AnthropicStreamParser StreamChunk LLMError where
  parse_chunk := parse_chunk from_str utf8_error
  finish := fun p => (.ok [], p)

/-- What the lines decode to, when every one with data decodes. -/
def Carries (ls : List Str) (rs : List AnthropicStreamResponse) : Prop :=
  ls.filterMap (fun line => (data_of line).map from_str) = rs.map .ok

end

/-! ## 3. Content blocks -/

/-- What a block starts with. -/
inductive BlockStart where
  | text (initial : Option String)
  | thinking
  | tool_use (id name : String)
  deriving DecidableEq

inductive Delta where
  | text_delta (text : String)
  | thinking_delta (thinking : String)
  | signature_delta (signature : String)
  | input_json_delta (partial_json : String)
  deriving DecidableEq

/-- The deltas that a block of each kind receives. -/
def Delta.fits : BlockStart → Delta → Bool
  | .text _, .text_delta _ => true
  | .thinking, .thinking_delta _ => true
  | .thinking, .signature_delta _ => true
  | .tool_use _ _, .input_json_delta _ => true
  | _, _ => false

def Delta.text : Delta → Option String
  | .text_delta text => some text
  | _ => none

def Delta.thinking : Delta → Option String
  | .thinking_delta thinking => some thinking
  | _ => none

def Delta.signature : Delta → Option String
  | .signature_delta signature => some signature
  | _ => none

def Delta.partial_json : Delta → Option String
  | .input_json_delta partial_json => some partial_json
  | _ => none

/-- The types of the events of content blocks. -/
def content_block_events : List String :=
  ["content_block_start", "content_block_delta", "content_block_stop"]

/-- An event: one of a content block, or any other. -/
inductive Event where
  | content_block_start (index : ℕ) (start : BlockStart)
  | content_block_delta (index : ℕ) (delta : Delta)
  | content_block_stop (index : ℕ)
  | other (response : AnthropicStreamResponse)
      (not_of_block : response.response_type ∉ content_block_events)

namespace Event

def index : Event → Option ℕ
  | content_block_start index _ => some index
  | content_block_delta index _ => some index
  | content_block_stop index => some index
  | other _ _ => none

def delta : Event → Option Delta
  | content_block_delta _ delta => some delta
  | _ => none

/-- Whether the event belongs to the block with the index. -/
def at_index (i : ℕ) (e : Event) : Bool := decide (e.index = some i)

/-- The event on the wire. -/
def response : Event → AnthropicStreamResponse
  | content_block_start index (.text initial) =>
      ⟨"content_block_start", some index, some ⟨"text", none, none, initial⟩, none, none, none⟩
  | content_block_start index .thinking =>
      ⟨"content_block_start", some index, some ⟨"thinking", none, none, none⟩, none, none, none⟩
  | content_block_start index (.tool_use id name) =>
      ⟨"content_block_start", some index, some ⟨"tool_use", some id, some name, none⟩, none, none,
        none⟩
  | content_block_delta index (.text_delta text) =>
      ⟨"content_block_delta", some index, none,
        some ⟨some "text_delta", some text, none, none, none, none⟩, none, none⟩
  | content_block_delta index (.thinking_delta thinking) =>
      ⟨"content_block_delta", some index, none,
        some ⟨some "thinking_delta", none, none, some thinking, none, none⟩, none, none⟩
  | content_block_delta index (.signature_delta signature) =>
      ⟨"content_block_delta", some index, none,
        some ⟨some "signature_delta", none, none, none, some signature, none⟩, none, none⟩
  | content_block_delta index (.input_json_delta partial_json) =>
      ⟨"content_block_delta", some index, none,
        some ⟨some "input_json_delta", none, some partial_json, none, none, none⟩, none, none⟩
  | content_block_stop index =>
      ⟨"content_block_stop", some index, none, none, none, none⟩
  | other response _ => response

end Event

/-- A block: its start and the deltas that it receives. -/
structure Block where
  start : BlockStart
  deltas : List Delta
  deltas_fit : ∀ delta ∈ deltas, delta.fits start = true

namespace Block

/-- The events before the last one. -/
def opening (b : Block) (i : ℕ) : List Event :=
  .content_block_start i b.start :: b.deltas.map (.content_block_delta i)

def events (b : Block) (i : ℕ) : List Event := b.opening i ++ [.content_block_stop i]

def partial_json (b : Block) : String := joined Delta.partial_json b.deltas

def signature (b : Block) : String := joined Delta.signature b.deltas

end Block

/-- **The events of a stream**: those of each block in order, in any interleaving with each
other and with events that are about no block. -/
def Interleaves (blocks : ℕ → Option Block) (events : List Event) : Prop :=
  ∀ i, events.filter (Event.at_index i) = ((blocks i).map fun b => b.events i).getD []

/-! ## 4. What the answer gives -/

/-- The chunk that carries an index, and the index. -/
def chunk_index : StreamChunk → Option ℕ
  | .ToolUseStart index _ _ => some index
  | .ToolUseInputDelta index _ => some index
  | .ToolUseComplete index _ => some index
  | _ => none

def chunk_signature : StreamChunk → Option String
  | .ThinkingSignature signature => some signature
  | _ => none

/-- The call of a tool block. -/
def call_of (oauth : Bool) (id name partial_json : String) : ToolCall :=
  ⟨id, "function", ⟨tool_name oauth name, arguments partial_json⟩⟩

/-- The chunks about a block: a tool block's start, its deltas and the finished call. -/
def block_chunks (oauth : Bool) (i : ℕ) (b : Block) : List StreamChunk :=
  match b.start with
  | .tool_use id name =>
      .ToolUseStart i id (tool_name oauth name) ::
        (b.deltas.filterMap Delta.partial_json).map (.ToolUseInputDelta i) ++
        [.ToolUseComplete i (call_of oauth id name b.partial_json)]
  | _ => []

/-- The signature with which a thinking block ends. -/
def block_signature (b : Block) : Option String :=
  if b.start = .thinking ∧ b.signature ≠ "" then some b.signature else none

/-- The signature that comes with an event. -/
def event_signature (blocks : ℕ → Option Block) : Event → Option String
  | .content_block_stop i => (blocks i).bind block_signature
  | _ => none

/-- **Blocks are assembled exactly.** -/
structure Assembles (oauth : Bool) (blocks : ℕ → Option Block) (events : List Event)
    (chunks : List StreamChunk) : Prop where
  /-- No chunk about a tool but those of its block. -/
  tools : ∀ i, chunks.filter (fun c => decide (chunk_index c = some i)) =
    ((blocks i).map (block_chunks oauth i)).getD []
  text : chunks.filterMap StreamChunk.text = (events.filterMap Event.delta).filterMap Delta.text
  thinking : chunks.filterMap StreamChunk.thinking =
    (events.filterMap Event.delta).filterMap Delta.thinking
  signatures : chunks.filterMap chunk_signature = events.filterMap (event_signature blocks)

/-! ## 5. One block of the state -/

section

variable {p : AnthropicStreamParser} {i : ℕ}

@[simp] theorem set_tool_tool (state : Option AnthropicToolUseState) :
    (set_tool p i state).tool_state_buffer = Function.update p.tool_state_buffer i state := rfl

@[simp] theorem set_tool_thinking (state : Option AnthropicToolUseState) :
    (set_tool p i state).thinking_state_buffer = p.thinking_state_buffer := rfl

@[simp] theorem set_tool_oauth (state : Option AnthropicToolUseState) :
    (set_tool p i state).oauth = p.oauth := rfl

@[simp] theorem set_thinking_thinking (state : Option AnthropicThinkingState) :
    (set_thinking p i state).thinking_state_buffer =
      Function.update p.thinking_state_buffer i state := rfl

@[simp] theorem set_thinking_tool (state : Option AnthropicThinkingState) :
    (set_thinking p i state).tool_state_buffer = p.tool_state_buffer := rfl

@[simp] theorem set_thinking_oauth (state : Option AnthropicThinkingState) :
    (set_thinking p i state).oauth = p.oauth := rfl

end

/-- What the parser keeps about one index. -/
structure Slot where
  oauth : Bool
  tool : Option AnthropicToolUseState
  thinking : Option AnthropicThinkingState

def slot (i : ℕ) (p : AnthropicStreamParser) : Slot :=
  ⟨p.oauth, p.tool_state_buffer i, p.thinking_state_buffer i⟩

/-- What an event of the index does to it. -/
def Slot.act (s : Slot) : Event → Slot
  | .content_block_start _ (.tool_use id name) =>
      { s with tool := some ⟨id, tool_name s.oauth name, ""⟩ }
  | .content_block_start _ .thinking => { s with thinking := some ⟨""⟩ }
  | .content_block_delta _ (.signature_delta signature) =>
      { s with thinking := s.thinking.map (push_signature signature) }
  | .content_block_delta _ (.input_json_delta partial_json) =>
      { s with tool := s.tool.map (push_arguments partial_json) }
  | .content_block_stop _ => { s with tool := none, thinking := none }
  | _ => s

/-- A step of the parser, on the events of a stream. -/
def step (p : AnthropicStreamParser) (e : Event) : List StreamChunk × AnthropicStreamParser :=
  handle p e.response

section

variable (p : AnthropicStreamParser) (i : ℕ)

@[simp] theorem step_start (start : BlockStart) :
    step p (.content_block_start i start) =
      match start with
      | .text _ => ([], p)
      | .thinking => ([], set_thinking p i (some ⟨""⟩))
      | .tool_use id name => ([.ToolUseStart i id (tool_name p.oauth name)],
          set_tool p i (some ⟨id, tool_name p.oauth name, ""⟩)) := by
  cases start <;> simp [step, Event.response, handle, content_block_start]

@[simp] theorem step_delta (delta : Delta) :
    step p (.content_block_delta i delta) =
      match delta with
      | .text_delta text => ([.Text text], p)
      | .thinking_delta thinking => ([.Thinking thinking], p)
      | .signature_delta signature =>
          ([], set_thinking p i ((p.thinking_state_buffer i).map (push_signature signature)))
      | .input_json_delta partial_json => ([.ToolUseInputDelta i partial_json],
          set_tool p i ((p.tool_state_buffer i).map (push_arguments partial_json))) := by
  cases delta <;> simp [step, Event.response, handle, content_block_delta]

@[simp] theorem step_stop : step p (.content_block_stop i) = content_block_stop p i := by
  simp [step, Event.response, handle]

/-- What an event about no block gives. -/
def message_chunks (r : AnthropicStreamResponse) : List StreamChunk :=
  if r.response_type = "message_start" then
    ((r.message.bind AnthropicStreamMessage.usage).map .Usage).toList
  else if r.response_type = "message_delta" then message_delta r
  else []

@[simp] theorem step_other {r : AnthropicStreamResponse}
    (h : r.response_type ∉ content_block_events) :
    step p (.other r h) = (message_chunks r, p) := by
  rw [content_block_events, List.mem_cons, List.mem_cons, List.mem_singleton, not_or, not_or] at h
  rw [step, Event.response, handle, message_chunks, if_neg h.1, if_neg h.2.1, if_neg h.2.2]
  by_cases hstart : r.response_type = "message_start"
  · rw [if_pos hstart, if_pos hstart]
  · rw [if_neg hstart, if_neg hstart]
    by_cases hdelta : r.response_type = "message_delta"
    · rw [if_pos hdelta, if_pos hdelta]
    · rw [if_neg hdelta, if_neg hdelta]

end

/-- An index is not touched by the events of another. -/
theorem slot_local (i : ℕ) : Parts.Local step (slot i) (Event.at_index i) Slot.act where
  mine := by
    intro p e he
    have hindex : e.index = some i := of_decide_eq_true he
    cases e with
    | content_block_start j start =>
        cases hindex
        cases start <;> simp [slot, Slot.act]
    | content_block_delta j delta =>
        cases hindex
        cases delta <;> simp [slot, Slot.act]
    | content_block_stop j =>
        cases hindex
        simp [slot, Slot.act, content_block_stop]
    | other r h => cases hindex
  others := by
    intro p e he
    have hindex : e.index ≠ some i := of_decide_eq_false he
    cases e with
    | content_block_start j start =>
        have hne : i ≠ j := fun h => hindex (by rw [h]; rfl)
        cases start <;> simp [slot, hne]
    | content_block_delta j delta =>
        have hne : i ≠ j := fun h => hindex (by rw [h]; rfl)
        cases delta <;> simp [slot, hne]
    | content_block_stop j =>
        have hne : i ≠ j := fun h => hindex (by rw [h]; rfl)
        simp [slot, content_block_stop, hne]
    | other r h => simp

/-! ## 6. The end of a block -/

theorem push_arguments_empty (state : AnthropicToolUseState) : push_arguments "" state = state := by
  rw [push_arguments, String.append_empty]

theorem push_arguments_append (a b : String) (state : AnthropicToolUseState) :
    push_arguments b (push_arguments a state) = push_arguments (a ++ b) state := by
  rw [push_arguments, push_arguments, push_arguments, String.append_assoc]

theorem push_signature_empty (state : AnthropicThinkingState) :
    push_signature "" state = state := by
  rw [push_signature, String.append_empty]

theorem push_signature_append (a b : String) (state : AnthropicThinkingState) :
    push_signature b (push_signature a state) = push_signature (a ++ b) state := by
  rw [push_signature, push_signature, push_signature, String.append_assoc]

/-- A slot that has received these texts. -/
def Slot.push (s : Slot) (partial_json signature : String) : Slot where
  oauth := s.oauth
  tool := s.tool.map (push_arguments partial_json)
  thinking := s.thinking.map (push_signature signature)

theorem Slot.push_empty (s : Slot) : s.push "" "" = s := by
  have htool : push_arguments "" = id := funext push_arguments_empty
  have hthinking : push_signature "" = id := funext push_signature_empty
  rw [Slot.push, htool, hthinking, Option.map_id, Option.map_id, id, id]

theorem Slot.push_push (s : Slot) (a b a' b' : String) :
    (s.push a b).push a' b' = s.push (a ++ a') (b ++ b') := by
  have htool : push_arguments a' ∘ push_arguments a = push_arguments (a ++ a') :=
    funext (push_arguments_append a a')
  have hthinking : push_signature b' ∘ push_signature b = push_signature (b ++ b') :=
    funext (push_signature_append b b')
  rw [Slot.push, Slot.push, Slot.push, Option.map_map, Option.map_map, htool, hthinking]

theorem Slot.act_delta (s : Slot) (i : ℕ) (delta : Delta) :
    s.act (.content_block_delta i delta) =
      s.push (delta.partial_json.getD "") (delta.signature.getD "") := by
  cases delta with
  | text_delta text => exact (Slot.push_empty s).symm
  | thinking_delta thinking => exact (Slot.push_empty s).symm
  | signature_delta signature =>
      have htool : push_arguments "" = id := funext push_arguments_empty
      simp [Slot.act, Slot.push, Delta.partial_json, Delta.signature, htool]
  | input_json_delta partial_json =>
      have hthinking : push_signature "" = id := funext push_signature_empty
      simp [Slot.act, Slot.push, Delta.partial_json, Delta.signature, hthinking]

/-- What the deltas of a block make of its slot. -/
theorem slot_deltas (i : ℕ) (deltas : List Delta) (s : Slot) :
    (deltas.map (Event.content_block_delta i)).foldl Slot.act s =
      s.push (joined Delta.partial_json deltas) (joined Delta.signature deltas) := by
  induction deltas generalizing s with
  | nil => exact (Slot.push_empty s).symm
  | cons delta deltas ih =>
      rw [List.map_cons, List.foldl_cons, ih, Slot.act_delta, Slot.push_push,
        ← List.singleton_append, joined_append, joined_append, joined_singleton,
        joined_singleton]

/-- The slot of a block that is about to stop. -/
def finished_slot (oauth : Bool) (b : Block) : Slot where
  oauth := oauth
  tool :=
    match b.start with
    | .tool_use id name => some ⟨id, tool_name oauth name, b.partial_json⟩
    | _ => none
  thinking :=
    match b.start with
    | .thinking => some ⟨b.signature⟩
    | _ => none

theorem slot_opening (oauth : Bool) (i : ℕ) (b : Block) :
    (b.opening i).foldl Slot.act ⟨oauth, none, none⟩ = finished_slot oauth b := by
  rw [Block.opening, List.foldl_cons, slot_deltas, finished_slot]
  cases b.start with
  | text initial => rfl
  | thinking => simp [Slot.act, Slot.push, push_signature, Block.signature]
  | tool_use id name => simp [Slot.act, Slot.push, push_arguments, Block.partial_json]

/-- The chunks with which a block ends. -/
def end_chunks (oauth : Bool) (i : ℕ) (b : Block) : List StreamChunk :=
  match b.start with
  | .text _ => []
  | .thinking => if b.signature = "" then [] else [.ThinkingSignature b.signature]
  | .tool_use id name => [.ToolUseComplete i (call_of oauth id name b.partial_json)]

/-- What an event reports, wherever it stands. -/
def report (oauth : Bool) (blocks : ℕ → Option Block) : Event → List StreamChunk
  | .content_block_start i (.tool_use id name) => [.ToolUseStart i id (tool_name oauth name)]
  | .content_block_start _ _ => []
  | .content_block_delta _ (.text_delta text) => [.Text text]
  | .content_block_delta _ (.thinking_delta thinking) => [.Thinking thinking]
  | .content_block_delta _ (.signature_delta _) => []
  | .content_block_delta i (.input_json_delta partial_json) => [.ToolUseInputDelta i partial_json]
  | .content_block_stop i => ((blocks i).map (end_chunks oauth i)).getD []
  | .other r _ => message_chunks r

section

variable {oauth : Bool} {blocks : ℕ → Option Block} {events : List Event}

theorem step_oauth (p : AnthropicStreamParser) (e : Event) : (step p e).2.oauth = p.oauth := by
  cases e with
  | content_block_start i start => cases start <;> simp
  | content_block_delta i delta => cases delta <;> simp
  | content_block_stop i => simp [content_block_stop]
  | other r h => simp

theorem run_oauth (p : AnthropicStreamParser) (es : List Event) :
    (Parts.run step p es).2.oauth = p.oauth := by
  induction es generalizing p with
  | nil => rfl
  | cons e es ih => rw [Parts.run, ih, step_oauth]

/-- The block of an event that stands in the stream. -/
theorem block_of_mem (h : Interleaves blocks events) {e : Event} {i : ℕ} (he : e ∈ events)
    (hi : e.index = some i) : ∃ b, blocks i = some b ∧ e ∈ b.events i := by
  have hmem : e ∈ events.filter (Event.at_index i) :=
    List.mem_filter.2 ⟨he, decide_eq_true hi⟩
  rw [h i] at hmem
  cases hb : blocks i with
  | none =>
      rw [hb] at hmem
      exact absurd hmem List.not_mem_nil
  | some b =>
      rw [hb] at hmem
      exact ⟨b, rfl, hmem⟩

theorem stop_not_mem_opening (b : Block) (i : ℕ) : .content_block_stop i ∉ b.opening i := by
  intro hmem
  rcases List.mem_cons.1 hmem with hstart | hdelta
  · cases hstart
  · obtain ⟨delta, -, heq⟩ := List.mem_map.1 hdelta
    cases heq

/-- A block that stops has received its deltas, and no others. -/
theorem slot_before_stop (oauth : Bool) (h : Interleaves blocks events)
    {before after : List Event} {i : ℕ} {b : Block} (hb : blocks i = some b)
    (hsplit : events = before ++ .content_block_stop i :: after) :
    slot i (Parts.run step (new_stream oauth) before).2 = finished_slot oauth b := by
  have hcourse : events.filter (Event.at_index i) = b.opening i ++ [.content_block_stop i] := by
    rw [h i, hb]
    rfl
  rw [Parts.part_before (slot_local i) hsplit (decide_eq_true rfl) hcourse
    (stop_not_mem_opening b i)]
  exact slot_opening oauth i b

/-- Every event gives what it reports. -/
theorem step_reports (h : Interleaves blocks events) {before after : List Event} {e : Event}
    (hsplit : events = before ++ e :: after) :
    (step (Parts.run step (new_stream oauth) before).2 e).1 = report oauth blocks e := by
  have hoauth := run_oauth (new_stream oauth) before
  cases e with
  | content_block_start i start =>
      rw [step_start, hoauth]
      cases start <;> rfl
  | content_block_delta i delta =>
      rw [step_delta]
      cases delta <;> rfl
  | content_block_stop i =>
      have hmem : Event.content_block_stop i ∈ events := by
        rw [hsplit]
        exact List.mem_append_right _ List.mem_cons_self
      obtain ⟨b, hb, -⟩ := block_of_mem h hmem rfl
      have hslot := slot_before_stop oauth h hb hsplit
      have htool := congrArg Slot.tool hslot
      have hthinking := congrArg Slot.thinking hslot
      dsimp only [slot, finished_slot] at htool hthinking
      rw [step_stop, content_block_stop, htool, hthinking, report, hb]
      dsimp only [Option.map_some, Option.getD_some, end_chunks]
      cases b.start <;> rfl
  | other r hr => rw [step_other, report]

/-! ## 7. The whole stream -/

theorem run_eq_reports (h : Interleaves blocks events) :
    (Parts.run step (new_stream oauth) events).1 = events.flatMap (report oauth blocks) :=
  Parts.emitted_eq_flatMap fun _ _ _ hsplit => step_reports h hsplit

/-- An event about no block says nothing about one. -/
theorem message_chunks_free {r : AnthropicStreamResponse} {c : StreamChunk}
    (h : c ∈ message_chunks r) :
    chunk_index c = none ∧ c.text = none ∧ c.thinking = none ∧ chunk_signature c = none := by
  unfold message_chunks message_delta at h
  split at h
  · obtain ⟨usage, -, rfl⟩ := Option.map_eq_some_iff.1 (Option.mem_toList.1 h)
    exact ⟨rfl, rfl, rfl, rfl⟩
  · split at h
    · rcases List.mem_append.1 h with h | h
      · obtain ⟨usage, -, rfl⟩ := Option.map_eq_some_iff.1 (Option.mem_toList.1 h)
        exact ⟨rfl, rfl, rfl, rfl⟩
      · obtain ⟨reason, -, rfl⟩ := Option.map_eq_some_iff.1 (Option.mem_toList.1 h)
        exact ⟨rfl, rfl, rfl, rfl⟩
    · cases h

/-- The chunks of a block's end are about that block. -/
theorem end_chunks_other {i j : ℕ} (hne : j ≠ i) (b : Block) :
    (end_chunks oauth j b).filter (fun c => decide (chunk_index c = some i)) = [] := by
  rw [end_chunks]
  cases b.start with
  | text initial => rfl
  | thinking => dsimp only; split <;> rfl
  | tool_use id name => simp [chunk_index, hne]

/-- What is about a block is reported by the events of that block. -/
theorem report_other (i : ℕ) {e : Event} (he : e.at_index i = false) :
    (report oauth blocks e).filter (fun c => decide (chunk_index c = some i)) = [] := by
  have hindex : e.index ≠ some i := of_decide_eq_false he
  cases e with
  | content_block_start j start =>
      have hne : j ≠ i := fun h => hindex (by rw [h]; rfl)
      cases start <;> simp [report, chunk_index, hne]
  | content_block_delta j delta =>
      have hne : j ≠ i := fun h => hindex (by rw [h]; rfl)
      cases delta <;> simp [report, chunk_index, hne]
  | content_block_stop j =>
      have hne : j ≠ i := fun h => hindex (by rw [h]; rfl)
      rw [report]
      cases blocks j with
      | none => rfl
      | some b => exact end_chunks_other hne b
  | other r hr =>
      apply List.filter_eq_nil_iff.2
      intro c hc
      simp [(message_chunks_free hc).1]

/-- The deltas of a block report their texts, those about a tool its arguments. -/
theorem report_deltas (i : ℕ) (deltas : List Delta) :
    (deltas.map (Event.content_block_delta i)).flatMap (fun e => (report oauth blocks e).filter
        fun c => decide (chunk_index c = some i)) =
      (deltas.filterMap Delta.partial_json).map (.ToolUseInputDelta i) := by
  induction deltas with
  | nil => rfl
  | cons delta deltas ih =>
      rw [List.map_cons, List.flatMap_cons, ih, List.filterMap_cons]
      cases delta <;> simp [report, chunk_index, Delta.partial_json]

theorem no_partial_json {b : Block} (h : ∀ id name, b.start ≠ .tool_use id name) :
    b.deltas.filterMap Delta.partial_json = [] := by
  apply List.filterMap_eq_nil_iff.2
  intro delta hmem
  have hfits := b.deltas_fit delta hmem
  cases delta with
  | input_json_delta partial_json =>
      cases hstart : b.start with
      | tool_use id name => exact absurd hstart (h id name)
      | text initial => rw [hstart] at hfits; cases hfits
      | thinking => rw [hstart] at hfits; cases hfits
  | text_delta text => rfl
  | thinking_delta thinking => rfl
  | signature_delta signature => rfl

theorem report_stop {i : ℕ} {b : Block} (hb : blocks i = some b) :
    report oauth blocks (.content_block_stop i) = end_chunks oauth i b := by
  have h : report oauth blocks (.content_block_stop i) =
      ((blocks i).map (end_chunks oauth i)).getD [] := rfl
  rw [h, hb]
  rfl

/-- The events of a block report its start, its deltas and its end. -/
theorem report_block (i : ℕ) {b : Block} (hb : blocks i = some b) :
    (b.events i).flatMap (fun e => (report oauth blocks e).filter
      fun c => decide (chunk_index c = some i)) = block_chunks oauth i b := by
  rw [Block.events, Block.opening, List.cons_append, List.flatMap_cons, List.flatMap_append,
    report_deltas, List.flatMap_singleton, block_chunks, report_stop hb, end_chunks]
  cases hstart : b.start with
  | text initial =>
      rw [no_partial_json (by rw [hstart]; intro id name h; cases h)]
      rfl
  | thinking =>
      rw [no_partial_json (by rw [hstart]; intro id name h; cases h)]
      by_cases hempty : b.signature = "" <;> simp [report, hempty, chunk_index]
  | tool_use id name => simp [report, chunk_index]

/-- The end of a block repeats no delta. -/
theorem end_chunks_silent {i : ℕ} {b : Block} {c : StreamChunk} (h : c ∈ end_chunks oauth i b) :
    c.text = none ∧ c.thinking = none := by
  rw [end_chunks] at h
  cases hstart : b.start with
  | text initial =>
      rw [hstart] at h
      cases h
  | thinking =>
      rw [hstart] at h
      dsimp only at h
      split at h
      · cases h
      · rw [List.mem_singleton.1 h]
        exact ⟨rfl, rfl⟩
  | tool_use id name =>
      rw [hstart] at h
      rw [List.mem_singleton.1 h]
      exact ⟨rfl, rfl⟩

theorem end_chunks_signature (i : ℕ) (b : Block) :
    (end_chunks oauth i b).filterMap chunk_signature = (block_signature b).toList := by
  rw [end_chunks, block_signature]
  cases hstart : b.start with
  | text initial => rfl
  | thinking => by_cases hempty : b.signature = "" <;> simp [hempty, chunk_signature]
  | tool_use id name => rfl

/-- An event reports the text of its delta. -/
theorem report_text (e : Event) :
    (report oauth blocks e).filterMap StreamChunk.text = (e.delta.bind Delta.text).toList := by
  cases e with
  | content_block_start i start => cases start <;> rfl
  | content_block_delta i delta => cases delta <;> rfl
  | content_block_stop i =>
      cases hb : blocks i with
      | none => simp [report, hb, Event.delta]
      | some b =>
          rw [report_stop hb]
          exact List.filterMap_eq_nil_iff.2 fun c hc => (end_chunks_silent hc).1
  | other r hr => exact List.filterMap_eq_nil_iff.2 fun c hc => (message_chunks_free hc).2.1

theorem report_thinking (e : Event) :
    (report oauth blocks e).filterMap StreamChunk.thinking =
      (e.delta.bind Delta.thinking).toList := by
  cases e with
  | content_block_start i start => cases start <;> rfl
  | content_block_delta i delta => cases delta <;> rfl
  | content_block_stop i =>
      cases hb : blocks i with
      | none => simp [report, hb, Event.delta]
      | some b =>
          rw [report_stop hb]
          exact List.filterMap_eq_nil_iff.2 fun c hc => (end_chunks_silent hc).2
  | other r hr => exact List.filterMap_eq_nil_iff.2 fun c hc => (message_chunks_free hc).2.2.1

theorem report_signature (e : Event) :
    (report oauth blocks e).filterMap chunk_signature = (event_signature blocks e).toList := by
  cases e with
  | content_block_start i start => cases start <;> rfl
  | content_block_delta i delta => cases delta <;> rfl
  | content_block_stop i =>
      cases hb : blocks i with
      | none => simp [report, hb, event_signature]
      | some b =>
          rw [report_stop hb, end_chunks_signature, event_signature, hb]
          rfl
  | other r hr => exact List.filterMap_eq_nil_iff.2 fun c hc => (message_chunks_free hc).2.2.2

/-- What the events report is the blocks, assembled. -/
theorem assembles_reports (h : Interleaves blocks events) :
    Assembles oauth blocks events (events.flatMap (report oauth blocks)) where
  tools := by
    intro i
    rw [List.filter_flatMap, ← Parts.flatMap_filter (fun e he => report_other i he), h i]
    cases hb : blocks i with
    | none => rfl
    | some b => exact report_block i hb
  text := by
    rw [List.filterMap_filterMap]
    exact Parts.filterMap_reports report_text events
  thinking := by
    rw [List.filterMap_filterMap]
    exact Parts.filterMap_reports report_thinking events
  signatures := Parts.filterMap_reports report_signature events

end

/-! ## 8. Any division into calls -/

section

variable {from_str : Str → Except String AnthropicStreamResponse}
  {utf8_error : List UInt8 → String} {p : AnthropicStreamParser}

theorem carries_nil {es : List Event} (h : Carries from_str [] (es.map Event.response)) :
    es = [] :=
  List.map_eq_nil_iff.1 (List.map_eq_nil_iff.1 h.symm)

/-- The first part of the lines carries the first part of the events. -/
theorem Carries.append {ls ls' : List Str} {es : List Event}
    (h : Carries from_str (ls ++ ls') (es.map Event.response)) :
    ∃ front back, es = front ++ back ∧ Carries from_str ls (front.map Event.response) ∧
      Carries from_str ls' (back.map Event.response) := by
  rw [Carries, List.filterMap_append, List.map_map] at h
  obtain ⟨front, back, rfl, hfront, hback⟩ := List.append_eq_map_iff.1 h
  refine ⟨front, back, rfl, ?_, ?_⟩
  · rw [Carries, List.map_map, hfront]
  · rw [Carries, List.map_map, hback]

theorem parse_lines_of_carries {ls : List Str} {es : List Event}
    (h : Carries from_str ls (es.map Event.response)) (chunks : List StreamChunk) :
    parse_lines from_str p chunks ls =
      (.ok (chunks ++ (Parts.run step p es).1), (Parts.run step p es).2) := by
  induction ls generalizing p es chunks with
  | nil =>
      rw [carries_nil h, Parts.run, List.append_nil]
      rfl
  | cons line ls ih =>
      rw [parse_lines]
      cases hdata : data_of line with
      | none =>
          -- the line is passed over
          apply ih
          rwa [Carries, List.filterMap_cons, hdata] at h
      | some data =>
          rw [Carries, List.filterMap_cons, hdata] at h
          obtain ⟨r, rs, hrs, hr, hrest⟩ := List.map_eq_cons_iff.1 h.symm
          obtain ⟨e, es, rfl, rfl, rfl⟩ := List.map_eq_cons_iff.1 hrs
          dsimp only
          rw [← hr, Parts.run, ← List.append_assoc]
          exact ih hrest.symm _

/-- A call gives what its events give, and an error never. -/
theorem parse_chunk_of_carries {text : String} {es : List Event}
    (h : Carries from_str (lines text.toList) (es.map Event.response)) :
    parse_chunk from_str utf8_error p (as_bytes text) =
      (.ok (Parts.run step p es).1, (Parts.run step p es).2) := by
  rw [parse_chunk, from_utf8_as_bytes]
  exact parse_lines_of_carries h []

/-- The calls together give what all the events give. -/
theorem feed_of_carries {texts : List String} {es : List Event}
    (h : Carries from_str (texts.flatMap fun text => lines text.toList) (es.map Event.response)) :
    feed (chat_stream_impl from_str utf8_error) p (texts.map as_bytes) =
      ((Parts.run step p es).1, none, (Parts.run step p es).2) := by
  induction texts generalizing p es with
  | nil =>
      rw [carries_nil h]
      rfl
  | cons text texts ih =>
      rw [List.flatMap_cons] at h
      obtain ⟨front, back, rfl, hfront, hback⟩ := h.append
      have hcall : (chat_stream_impl from_str utf8_error).parse_chunk p (as_bytes text) =
          (.ok (Parts.run step p front).1, (Parts.run step p front).2) :=
        parse_chunk_of_carries hfront
      rw [List.map_cons, feed, hcall]
      dsimp only
      rw [ih hback, Parts.run_append]

/-- **Anthropic streaming assembles content blocks exactly**, however the lines are divided into
calls; a call whose arguments are empty is given the empty object. -/
theorem blocks_exact (from_str : Str → Except String AnthropicStreamResponse)
    (utf8_error : List UInt8 → String) (oauth : Bool) (blocks : ℕ → Option Block)
    (events : List Event) (texts : List String) (hblocks : Interleaves blocks events)
    (hlines : Carries from_str (texts.flatMap fun text => lines text.toList)
      (events.map Event.response)) :
    ∃ chunks p, feed (chat_stream_impl from_str utf8_error) (new_stream oauth)
        (texts.map as_bytes) = (chunks, none, p) ∧ Assembles oauth blocks events chunks := by
  refine ⟨_, _, feed_of_carries hlines, ?_⟩
  rw [run_eq_reports hblocks]
  exact assembles_reports hblocks

end

/-! ## 9. A call without arguments -/

def sample_start : String :=
  "\x7b\"type\":\"content_block_start\",\"index\":1,\"content_block\":\x7b\"type\":" ++
  "\"tool_use\",\"id\":\"toolu_1\",\"name\":\"mcp_ls\",\"input\":\x7b\x7d\x7d\x7d"

def sample_delta : String :=
  "\x7b\"type\":\"content_block_delta\",\"index\":1,\"delta\":\x7b\"type\":" ++
  "\"input_json_delta\",\"partial_json\":\"\"\x7d\x7d"

def sample_stop : String := "\x7b\"type\":\"content_block_stop\",\"index\":1\x7d"

/-- The block: a call with one delta, which is empty. -/
def sample_block : Block :=
  ⟨.tool_use "toolu_1" "mcp_ls", [.input_json_delta ""], by decide⟩

def sample_blocks (i : ℕ) : Option Block := if i = 1 then some sample_block else none

/-- What `serde_json` reads in these texts. -/
def sample_from_str (data : Str) : Except String AnthropicStreamResponse :=
  if data = sample_start.toList then
    .ok (Event.content_block_start 1 sample_block.start).response
  else if data = sample_delta.toList then
    .ok (Event.content_block_delta 1 (.input_json_delta "")).response
  else if data = sample_stop.toList then .ok (Event.content_block_stop 1).response
  else .error "expected value at line 1 column 1"

/-- Two calls; the second has one line. -/
def sample_texts : List String :=
  ["event: content_block_start\ndata: " ++ sample_start ++ "\n\ndata: " ++ sample_delta ++ "\n",
    "data: " ++ sample_stop ++ "\n"]

theorem sample_interleaves : Interleaves sample_blocks (sample_block.events 1) := by
  intro i
  by_cases hi : i = 1
  · subst hi
    rfl
  · have hne : 1 ≠ i := Ne.symm hi
    simp [sample_blocks, hi, sample_block, Block.events, Block.opening, Event.at_index, Event.index,
      hne]

theorem sample_carries : Carries sample_from_str
    (sample_texts.flatMap fun text => lines text.toList)
    ((sample_block.events 1).map Event.response) := by
  have htexts : (sample_texts.flatMap fun text => lines text.toList) =
      lines ("event: content_block_start\ndata: ".toList ++ (sample_start.toList ++
        ("\n\ndata: ".toList ++ (sample_delta.toList ++ "\n".toList)))) ++
      lines ("data: ".toList ++ (sample_stop.toList ++ "\n".toList)) := by
    simp only [sample_texts, List.flatMap_cons, List.flatMap_nil, String.toList_append,
      List.append_assoc, List.append_nil]
  rw [htexts, Carries]
  decide +kernel

/-- The block has one delta, the empty text, and its call has other arguments. -/
theorem empty_delta_gives_object :
    Interleaves sample_blocks (sample_block.events 1) ∧
      Carries sample_from_str (sample_texts.flatMap fun text => lines text.toList)
        ((sample_block.events 1).map Event.response) ∧
      sample_block.deltas = [.input_json_delta ""] ∧
      (feed (chat_stream_impl sample_from_str fun _ => "invalid utf-8 sequence")
        (new_stream true) (sample_texts.map as_bytes)).1.filterMap StreamChunk.tool_call =
        [⟨"toolu_1", "function", ⟨"ls", "\x7b\x7d"⟩⟩] := by
  refine ⟨sample_interleaves, sample_carries, rfl, ?_⟩
  rw [feed_of_carries sample_carries]
  decide +kernel

/-! ## 10. Two blocks at once -/

def text_block : Block :=
  ⟨.text (some ""), [.text_delta "Let me ", .text_delta "look."], by decide⟩

def call_block : Block :=
  ⟨.tool_use "toolu_1" "mcp_ls", [.input_json_delta "[1,", .input_json_delta "2]"], by decide⟩

def pair_blocks (i : ℕ) : Option Block :=
  if i = 0 then some text_block else if i = 1 then some call_block else none

def delta_data (index delta : String) : Str :=
  "\x7b\"type\":\"content_block_delta\",\"index\":".toList ++ index.toList ++
    ",\"delta\":\x7b\"type\":".toList ++ delta.toList ++ "\x7d\x7d".toList

/-- The data of the lines, each with the event that it is read as. -/
def pair_data : List (Str × Event) :=
  [("\x7b\"type\":\"content_block_start\",\"index\":0,\"content_block\":\x7b\"type\":".toList ++
      "\"text\",\"text\":\"\"\x7d\x7d".toList, .content_block_start 0 text_block.start),
    (delta_data "0" "\"text_delta\",\"text\":\"Let me \"",
      .content_block_delta 0 (.text_delta "Let me ")),
    (sample_start.toList, .content_block_start 1 call_block.start),
    (delta_data "1" "\"input_json_delta\",\"partial_json\":\"[1,\"",
      .content_block_delta 1 (.input_json_delta "[1,")),
    (delta_data "0" "\"text_delta\",\"text\":\"look.\"",
      .content_block_delta 0 (.text_delta "look.")),
    (delta_data "1" "\"input_json_delta\",\"partial_json\":\"2]\"",
      .content_block_delta 1 (.input_json_delta "2]")),
    ("\x7b\"type\":\"content_block_stop\",\"index\":0\x7d".toList, .content_block_stop 0),
    (sample_stop.toList, .content_block_stop 1)]

def pair_events : List Event := pair_data.map Prod.snd

def pair_from_str (data : Str) : Except String AnthropicStreamResponse :=
  match pair_data.find? fun e => e.1 = data with
  | some e => .ok e.2.response
  | none => .error "expected value at line 1 column 1"

/-- Three calls; the last has no line. -/
def pair_texts : List String :=
  [String.ofList ((pair_data.take 3).flatMap fun e => "data: ".toList ++ e.1 ++ "\n\n".toList),
    String.ofList ((pair_data.drop 3).flatMap fun e => "data: ".toList ++ e.1 ++ "\n".toList), ""]

theorem blocks_exact_sample :
    ∃ chunks p, feed (chat_stream_impl pair_from_str fun _ => "invalid utf-8 sequence")
        (new_stream true) (pair_texts.map as_bytes) = (chunks, none, p) ∧
      Assembles true pair_blocks pair_events chunks := by
  apply blocks_exact
  · intro i
    by_cases hzero : i = 0
    · subst hzero
      rfl
    · by_cases hone : i = 1
      · subst hone
        rfl
      · simp [pair_blocks, pair_events, pair_data, Event.at_index, Event.index, hzero, hone,
          Ne.symm hzero, Ne.symm hone]
  · unfold pair_texts
    simp only [List.flatMap_cons, List.flatMap_nil, String.toList_ofList]
    unfold Carries
    decide +kernel

end Querymt.Anthropic
