/-
`Provider/CodexStream.lean` -- the tool calls of a streamed answer of Codex.

Mirrors `codex_parse_stream_chunk_with_state` and what it calls (`providers/codex/src/api.rs`).
A tool call is added, receives deltas of its arguments, and is reported up to three times with
the arguments in full: by an event of its own, by the item that is done, and in the list of
the whole answer. The parser keeps each call under the index of its item; the thinking is kept
in the same map, under an index that no item has.

# The list at the end

The first two reports carry the index of the item. The list at the end carries none, and its
elements are taken to be at the places where they stand. So an element that stands at the
place of another item is merged into that item's call (`shifted_list_merged`).

That this does no harm is what the calls depend on: they are exact if and only if an element at
the index of another call has that call's arguments (`calls_exact_iff`).

The JSON reader is arbitrary, and a JSON value is given by the fields that are read.
-/
import Querymt.Agent.Streaming
import Querymt.Library.HashMaps
import Querymt.Library.Parts
import Querymt.Library.Strings

set_option autoImplicit false

open Strings HashMaps

namespace Querymt.Codex

open Querymt.Agent (StreamChunk Usage FinishReason LLMError ToolCall FunctionCall)

/-! ## 1. What a line of the stream says -/

/-- An item of the output: fields that are no strings, or not there, are `none`. `content` has
the type and the text of each element. -/
structure OutputItem where
  item_type : Option String
  id : Option String
  call_id : Option String
  name : Option String
  arguments : Option String
  text : Option String
  reasoning : Option String
  reasoning_content : Option String
  summary : Option (List (Option String))
  content : Option (List (Option String × Option String))
  deriving DecidableEq

/-- The usage is `none` unless it decodes. -/
structure Response where
  output : Option (List OutputItem)
  usage : Option Usage
  error_message : Option String
  deriving DecidableEq

structure CodexSseEvent where
  kind : String
  delta : Option String
  arguments : Option String
  response : Option Response
  item : Option OutputItem
  output_index : Option ℕ
  item_id : Option String
  deriving DecidableEq

/-- A line with data: the marker `[DONE]`, or an event. -/
inductive Line where
  | Marker
  | Event (event : CodexSseEvent)
  deriving DecidableEq

/-! ## 2. The state -/

structure CodexToolUseState where
  item_id : Option String
  id : Option String
  name : Option String
  arguments : String
  started : Bool
  emitted_thinking : List String
  emitted_thinking_text : String
  streamed_thinking_seen : Bool
  deriving DecidableEq

instance : Inhabited CodexToolUseState := ⟨⟨none, none, none, "", false, [], "", false⟩⟩

abbrev State := HashMap ℕ CodexToolUseState

/-- `usize::MAX`, where the thinking is kept. -/
def USIZE_MAX : ℕ := 18446744073709551615

/-- `buffer.entry(index).or_default()`, and what is done with it. -/
def at_entry {α : Type} (p : State) (index : ℕ)
    (f : CodexToolUseState → α × CodexToolUseState) : α × State :=
  ((f ((p.lookup index).getD default)).1, p.insert index (f ((p.lookup index).getD default)).2)

section

variable (order : DrainOrder ℕ CodexToolUseState)

/-- Without an index: the first that is free. -/
def resolve_tool_index (output_index : Option ℕ) (p : State) : ℕ :=
  match output_index with
  | some index => index
  | none =>
      ((List.range (p.entries.length + 1)).find? fun index => !p.entries.keys.contains index).getD 0

/-- Or that of the item, if the item is known. -/
def resolve_tool_index_with_item (output_index : Option ℕ) (item_id : Option String) (p : State) :
    ℕ :=
  match output_index, item_id with
  | some index, _ => index
  | none, some item_id =>
      match (order.drain p).find? fun e => decide (e.2.item_id = some item_id) with
      | some e => e.1
      | none => resolve_tool_index none p
  | none, none => resolve_tool_index none p

/-! ## 3. Tool calls -/

/-- A call is started when its id and its name are known. -/
def start_call (index : ℕ) (s : CodexToolUseState) : List StreamChunk × CodexToolUseState :=
  match s.started, s.id, s.name with
  | false, some id, some name => ([.ToolUseStart index id name], { s with started := true })
  | _, _, _ => ([], s)

def emit_tool_complete (index : ℕ) (s : CodexToolUseState) : List StreamChunk :=
  match s.id, s.name with
  | some id, some name => [.ToolUseComplete index ⟨id, "function", ⟨name, s.arguments⟩⟩]
  | _, _ => []

/-- Arguments in full: what is new in them, or all of them if they do not go on from those that
are known. -/
def emit_arguments_delta (index : ℕ) (arguments : String) (s : CodexToolUseState) :
    List StreamChunk × CodexToolUseState :=
  if s.arguments.toList.isPrefixOf arguments.toList then
    let delta := String.ofList (arguments.toList.drop s.arguments.toList.length)
    if delta = "" then ([], s)
    else ([.ToolUseInputDelta index delta], { s with arguments := s.arguments ++ delta })
  else ([.ToolUseInputDelta index arguments], { s with arguments := arguments })

/-- What an item says of itself. -/
def name_item (item : OutputItem) (s : CodexToolUseState) : CodexToolUseState :=
  { s with
    item_id := item.id.or s.item_id
    id := item.call_id.or s.id
    name := item.name.or s.name }

/-- Arguments that are merged in, and the call that is complete with them. -/
def emit_full (index : ℕ) (arguments : String) (s : CodexToolUseState) :
    List StreamChunk × CodexToolUseState :=
  let merged := emit_arguments_delta index arguments s
  (merged.1 ++ emit_tool_complete index merged.2, merged.2)

def is_blank (text : String) : Bool := decide (trim text.toList = [])

/-- `handle_output_item_event`, on the entry of the item. -/
def item_event (index : ℕ) (item : OutputItem) (s : CodexToolUseState) :
    List StreamChunk × CodexToolUseState :=
  let started := start_call index (name_item item s)
  match item.arguments with
  | some arguments =>
      if is_blank arguments then started
      else
        let full := emit_full index arguments started.2
        (started.1 ++ full.1, full.2)
  | none => started

def handle_output_item_event (item : OutputItem) (output_index : Option ℕ) (p : State) :
    List StreamChunk × State :=
  if item.item_type = some "function_call" then
    at_entry p (resolve_tool_index output_index p)
      (item_event (resolve_tool_index output_index p) item)
  else ([], p)

/-- `handle_function_call_arguments_delta`, on the entry. -/
def delta_event (index : ℕ) (delta : String) (s : CodexToolUseState) :
    List StreamChunk × CodexToolUseState :=
  let started := start_call index s
  (started.1 ++ [.ToolUseInputDelta index delta],
    { started.2 with arguments := started.2.arguments ++ delta })

def handle_function_call_arguments_delta (output_index : Option ℕ) (item_id : Option String)
    (delta : String) (p : State) : List StreamChunk × State :=
  at_entry p (resolve_tool_index_with_item order output_index item_id p)
    (delta_event (resolve_tool_index_with_item order output_index item_id p) delta)

/-- `handle_function_call_arguments_done`, on the entry. -/
def done_event (index : ℕ) (arguments : Option String) (s : CodexToolUseState) :
    List StreamChunk × CodexToolUseState :=
  let started := start_call index s
  let merged :=
    match arguments with
    | some arguments =>
        if is_blank arguments then ([], started.2)
        else emit_arguments_delta index arguments started.2
    | none => ([], started.2)
  (started.1 ++ merged.1 ++ emit_tool_complete index merged.2, merged.2)

/-- A call that is not known is not made. -/
def handle_function_call_arguments_done (output_index : Option ℕ) (item_id : Option String)
    (arguments : Option String) (p : State) : List StreamChunk × State :=
  let index := resolve_tool_index_with_item order output_index item_id p
  match p.lookup index with
  | some s => ((done_event index arguments s).1, p.insert index (done_event index arguments s).2)
  | none => ([], p)

/-- The body of the loop over the list of the answer, on the entry at the place. -/
def listed_event (index : ℕ) (item : OutputItem) (s : CodexToolUseState) :
    List StreamChunk × CodexToolUseState :=
  let started := start_call index (name_item item s)
  let arguments := item.arguments.getD ""
  let merged := if arguments = "" then ([], started.2)
    else emit_arguments_delta index arguments started.2
  (started.1 ++ merged.1 ++ emit_tool_complete index merged.2, merged.2)

def list_step (p : State) (listed : OutputItem × ℕ) : List StreamChunk × State :=
  if listed.1.item_type = some "function_call" then at_entry p listed.2 (listed_event listed.2 listed.1)
  else ([], p)

def emit_tool_calls_from_response (response : Response) (p : State) : List StreamChunk × State :=
  Parts.run list_step p (response.output.getD []).zipIdx

/-! ## 4. Thinking -/

/-- `collect_reasoning_text_from_value`: the texts that are not empty, in the order of the
fields. -/
def collect_reasoning_text_from_value (value : OutputItem) : List String :=
  ((value.text.toList ++ value.reasoning.toList ++ value.reasoning_content.toList) ++
    (value.summary.getD []).filterMap id ++
    (value.content.getD []).filterMap fun c =>
      if c.1 = some "reasoning_text" ∨ c.1 = some "text" then c.2 else none).filter (· ≠ "")

def joined_non_empty (pieces : List String) : Option String :=
  if pieces.isEmpty then none else some (String.join pieces)

def extract_reasoning_text_from_value (value : OutputItem) : Option String :=
  joined_non_empty (collect_reasoning_text_from_value value)

def extract_reasoning_text_from_response (response : Response) : Option String :=
  joined_non_empty (((response.output.getD []).filter fun item =>
    item.item_type = some "reasoning").flatMap collect_reasoning_text_from_value)

/-- `mark_streamed_thinking_emitted`, on the entry. -/
def mark_streamed (text : String) (s : CodexToolUseState) : CodexToolUseState :=
  { s with
    streamed_thinking_seen := true
    emitted_thinking := s.emitted_thinking ++ [text]
    emitted_thinking_text := s.emitted_thinking_text ++ text }

/-- `str::strip_prefix`, with the whole text in the place of `None`. -/
def after_emitted (emitted text : String) : String :=
  if emitted.toList.isPrefixOf text.toList then
    String.ofList (text.toList.drop emitted.toList.length)
  else text

def push_thinking (text : String) (s : CodexToolUseState) : CodexToolUseState :=
  { s with
    emitted_thinking := s.emitted_thinking ++ [text]
    emitted_thinking_text := s.emitted_thinking_text ++ text }

/-- `mark_final_thinking_emitted`, on the entry. -/
def mark_final (text : String) (s : CodexToolUseState) : Option String × CodexToolUseState :=
  if s.streamed_thinking_seen then
    if s.emitted_thinking_text = text ∨
        Strings.contains text.toList s.emitted_thinking_text.toList then (none, s)
    else
      (some (after_emitted s.emitted_thinking_text text),
        push_thinking (after_emitted s.emitted_thinking_text text) s)
  else if s.emitted_thinking.contains text then (none, s)
  else (some text, push_thinking text s)

def mark_streamed_thinking_emitted (text : String) (p : State) : State :=
  (at_entry p USIZE_MAX fun s => ((), mark_streamed text s)).2

def mark_final_thinking_emitted (text : String) (p : State) : Option String × State :=
  at_entry p USIZE_MAX (mark_final text)

def clear_thinking_state (p : State) : State := p.erase USIZE_MAX

/-- Thinking that an item or the answer reports in full. -/
def final_thinking (text : Option String) (p : State) : List StreamChunk × State :=
  match text with
  | none => ([], p)
  | some text =>
      (((mark_final_thinking_emitted text p).1.map .Thinking).toList,
        (mark_final_thinking_emitted text p).2)

/-! ## 5. The parser -/

def finish_reason (p : State) : FinishReason :=
  if p.entries.any fun e => e.2.started then .ToolCalls else .Stop

def is_reasoning_delta (kind : String) : Bool :=
  Strings.contains "reasoning".toList kind.toList && Strings.contains "delta".toList kind.toList

/-- The branch of the deltas of thinking. -/
def reasoning_delta (delta : Option String) (p : State) : List StreamChunk × State :=
  match delta with
  | some delta =>
      if delta = "" then ([], p) else ([.Thinking delta], mark_streamed_thinking_emitted delta p)
  | none => ([], p)

/-- The branch of `response.output_item.done`. -/
def output_item_done (item : OutputItem) (output_index : Option ℕ) (p : State) :
    List StreamChunk × State :=
  if item.item_type = some "reasoning" then
    final_thinking (extract_reasoning_text_from_value item) p
  else handle_output_item_event item output_index p

/-- The branch of `response.completed`. -/
def response_completed (response : Option Response) (p : State) : List StreamChunk × State :=
  match response with
  | none => ([.Done (finish_reason p)], clear_thinking_state p)
  | some response =>
      let calls := emit_tool_calls_from_response response p
      let thinking := final_thinking (extract_reasoning_text_from_response response) calls.2
      (calls.1 ++ thinking.1 ++ (response.usage.map .Usage).toList ++
        [.Done (finish_reason thinking.2)], clear_thinking_state thinking.2)

/-- The `match` on the kind of an event. -/
def handle (e : CodexSseEvent) (p : State) : List StreamChunk × State :=
  if e.kind = "response.output_text.delta" then ((e.delta.map .Text).toList, p)
  else if e.kind = "response.output_item.done" then
    match e.item with
    | some item => output_item_done item e.output_index p
    | none => ([], p)
  else if e.kind = "response.output_item.added" then
    match e.item with
    | some item => handle_output_item_event item e.output_index p
    | none => ([], p)
  else if e.kind = "response.function_call_arguments.delta" then
    match e.delta with
    | some delta => handle_function_call_arguments_delta order e.output_index e.item_id delta p
    | none => ([], p)
  else if e.kind = "response.function_call_arguments.done" then
    handle_function_call_arguments_done order e.output_index e.item_id e.arguments p
  else if e.kind = "response.completed" then response_completed e.response p
  else ([], p)

/-- A line that does not fail. -/
def step (p : State) : Line → List StreamChunk × State
  | .Marker => ([.Done (finish_reason p)], clear_thinking_state p)
  | .Event e => if is_reasoning_delta e.kind then reasoning_delta e.delta p else handle order e p

/-- The message of `response.failed`. -/
def failure : Line → Option String
  | .Event e =>
      if e.kind = "response.failed" then
        some ((e.response.bind Response.error_message).getD "Codex response failed")
      else none
  | .Marker => none

/-- What a line carries: nothing, unless it is trimmed data that decodes. -/
def read_line (from_str : Str → Option CodexSseEvent) (line : Str) : Option Line :=
  let line := trim line
  if "data: ".toList <+: line then
    let data := line.drop 6
    if data = "[DONE]".toList then some .Marker else (from_str data).map .Event
  else none

/-- The loop over the lines. -/
def parse_lines (from_str : Str → Option CodexSseEvent) :
    State → List StreamChunk → List Str → Except LLMError (List StreamChunk) × State
  | p, results, [] => (.ok results, p)
  | p, results, line :: rest =>
      match read_line from_str line with
      | none => parse_lines from_str p results rest
      | some l =>
          match failure l with
          | some message => (.error (.ProviderError message), clear_thinking_state p)
          | none => parse_lines from_str (step order p l).2 (results ++ (step order p l).1) rest

/-- The text of a chunk. -/
def codex_parse_stream_chunk_with_state (from_str : Str → Option CodexSseEvent) (text : Str)
    (p : State) : Except LLMError (List StreamChunk) × State :=
  parse_lines order from_str p [] (lines text)

/-- The chunks of a stream, up to the first error. -/
def parse_stream (from_str : Str → Option CodexSseEvent) :
    State → List Str → Except LLMError (List StreamChunk)
  | _, [] => .ok []
  | p, text :: texts =>
      match codex_parse_stream_chunk_with_state order from_str text p with
      | (.error e, _) => .error e
      | (.ok chunks, p) => (parse_stream from_str p texts).map (chunks ++ ·)

end

/-! ## 6. The events of a stream -/

/-- A call of the output: what its item says, the deltas of its arguments, and which of its own
two reports come. `initial` is what the item carries when it is added. -/
structure Call where
  item_id : String
  call_id : String
  name : String
  initial : Option String
  initial_blank : ∀ arguments ∈ initial, is_blank arguments = true
  deltas : List String
  arguments_done : Bool
  item_done : Bool

namespace Call

variable (c : Call)

def arguments : String := String.join c.deltas

/-- The item, with its arguments so far. -/
def item (arguments : Option String) : OutputItem where
  item_type := some "function_call"
  id := some c.item_id
  call_id := some c.call_id
  name := some c.name
  arguments := arguments
  text := none
  reasoning := none
  reasoning_content := none
  summary := none
  content := none

def finished_item : OutputItem := c.item (some c.arguments)

end Call

/-- The kinds of the events that are about the arguments of a call, or end the stream. -/
def call_kinds : List String :=
  ["response.function_call_arguments.delta", "response.function_call_arguments.done",
    "response.completed", "response.failed"]

/-- An event that is about no call: of another kind, or of another item. -/
def Free (e : CodexSseEvent) : Prop :=
  e.kind ∉ call_kinds ∧ ∀ item ∈ e.item, item.item_type ≠ some "function_call"

/-- An event before the end of the stream. -/
inductive Event where
  | added (index : ℕ) (c : Call)
  | delta (index : ℕ) (c : Call) (text : String)
  | arguments_done (index : ℕ) (c : Call)
  | item_done (index : ℕ) (c : Call)
  | other (e : CodexSseEvent) (free : Free e)

namespace Event

def index : Event → Option ℕ
  | added index _ | delta index _ _ | arguments_done index _ | item_done index _ => some index
  | other _ _ => none

def at_index (i : ℕ) (e : Event) : Bool := decide (e.index = some i)

/-- The event on the wire. -/
def line : Event → Line
  | added index c => .Event ⟨"response.output_item.added", none, none, none,
      some (c.item c.initial), some index, none⟩
  | delta index c text => .Event ⟨"response.function_call_arguments.delta", some text, none,
      none, none, some index, some c.item_id⟩
  | arguments_done index c => .Event ⟨"response.function_call_arguments.done", none,
      some c.arguments, none, none, some index, some c.item_id⟩
  | item_done index c => .Event ⟨"response.output_item.done", none, none, none,
      some c.finished_item, some index, none⟩
  | other e _ => .Event e

end Event

/-- The events of a call, in their order. -/
def Call.events (c : Call) (i : ℕ) : List Event :=
  .added i c :: c.deltas.map (.delta i c) ++
    ((if c.arguments_done then [.arguments_done i c] else []) ++
      if c.item_done then [.item_done i c] else [])

/-- How a stream ends: with the whole answer, with the marker, or with both. -/
structure Ending where
  completed : Option (Option Response)
  marker : Bool

namespace Ending

variable (ending : Ending)

def lines : List Line :=
  (ending.completed.map fun response => .Event ⟨"response.completed", none, none, response, none,
    none, none⟩).toList ++ if ending.marker then [.Marker] else []

/-- The list of the answer, with the places of its elements. -/
def listed : List (OutputItem × ℕ) :=
  (((ending.completed.bind id).bind Response.output).getD []).zipIdx

end Ending

/-- **The events of a stream**: those of each call in order, in any interleaving with each other
and with events that are about no call, and at the end a list whose calls are calls of the
stream. No index is `usize::MAX`. -/
structure Streams (calls : ℕ → Option Call) (events : List Event) (ending : Ending) : Prop where
  interleaves : ∀ i, events.filter (Event.at_index i) = ((calls i).map fun c => c.events i).getD []
  ids : ∀ i j c d, calls i = some c → calls j = some d → c.call_id = d.call_id → i = j
  bounded : calls USIZE_MAX = none
  listed : ∀ entry ∈ ending.listed, entry.1.item_type = some "function_call" →
    ∃ i c, calls i = some c ∧ entry.1 = c.finished_item
  listed_bounded : ∀ entry ∈ ending.listed, entry.2 < USIZE_MAX

/-! ## 7. What the calls give -/

/-- The chunk that carries an index, and the index. -/
def chunk_index : StreamChunk → Option ℕ
  | .ToolUseStart index _ _ => some index
  | .ToolUseInputDelta index _ => some index
  | .ToolUseComplete index _ => some index
  | _ => none

def is_start : StreamChunk → Bool
  | .ToolUseStart _ _ _ => true
  | _ => false

def partial_json : StreamChunk → Option String
  | .ToolUseInputDelta _ partial_json => some partial_json
  | _ => none

def index_chunks (i : ℕ) (chunks : List StreamChunk) : List StreamChunk :=
  chunks.filter fun c => decide (chunk_index c = some i)

/-- **Calls are exact.** -/
structure Exact (calls : ℕ → Option Call) (chunks : List StreamChunk) : Prop where
  /-- Whatever is about an index starts with its one start, and a call is started. -/
  started : ∀ i, (∃ id name rest, index_chunks i chunks = .ToolUseStart i id name :: rest ∧
    ∀ c ∈ rest, is_start c = false) ∨ index_chunks i chunks = [] ∧ calls i = none
  deltas : ∀ i c, calls i = some c →
    String.join ((index_chunks i chunks).filterMap partial_json) = c.arguments
  complete : ∀ i call, .ToolUseComplete i call ∈ chunks → ∀ j c, calls j = some c →
    call.id = c.call_id → call.function.arguments = c.arguments
  done : ∀ reason, .Done reason ∈ chunks →
    (reason = .ToolCalls ↔ ∃ c ∈ chunks, is_start c = true)

/-- An element of the list that stands at the index of another call has that call's
arguments. -/
def Aligned (calls : ℕ → Option Call) (ending : Ending) : Prop :=
  ∀ entry ∈ ending.listed, ∀ c d i, calls i = some c → entry.1 = c.finished_item →
    calls entry.2 = some d → d.arguments = c.arguments

/-! ## 8. One entry -/

section

variable {index i : ℕ} {p : State} {s : CodexToolUseState} {item : OutputItem}

theorem lookup_at_entry {α : Type} (f : CodexToolUseState → α × CodexToolUseState) :
    (at_entry p index f).2.lookup i =
      if i = index then some (f ((p.lookup index).getD default)).2 else p.lookup i := by
  by_cases h : i = index
  · rw [if_pos h, h]
    exact AList.lookup_insert _
  · rw [if_neg h]
    exact AList.lookup_insert_ne h

/-- The chunks of a call's handlers carry its index. -/
theorem index_of_start_call : ∀ c ∈ (start_call index s).1, chunk_index c = some index := by
  intro c hc
  unfold start_call at hc
  split at hc
  · rw [List.mem_singleton.1 hc]
    rfl
  · exact absurd hc List.not_mem_nil

theorem index_of_complete : ∀ c ∈ emit_tool_complete index s, chunk_index c = some index := by
  intro c hc
  unfold emit_tool_complete at hc
  split at hc
  · rw [List.mem_singleton.1 hc]
    rfl
  · exact absurd hc List.not_mem_nil

theorem index_of_arguments {arguments : String} :
    ∀ c ∈ (emit_arguments_delta index arguments s).1, chunk_index c = some index := by
  intro c hc
  unfold emit_arguments_delta at hc
  dsimp only at hc
  split_ifs at hc
  · exact absurd hc List.not_mem_nil
  · rw [List.mem_singleton.1 hc]
    rfl
  · rw [List.mem_singleton.1 hc]
    rfl

theorem index_of_item_event : ∀ c ∈ (item_event index item s).1, chunk_index c = some index := by
  intro c hc
  unfold item_event at hc
  cases harguments : item.arguments with
  | none =>
      rw [harguments] at hc
      exact index_of_start_call c hc
  | some arguments =>
      rw [harguments] at hc
      dsimp only at hc
      split_ifs at hc
      · exact index_of_start_call c hc
      · rw [emit_full, List.mem_append, List.mem_append] at hc
        rcases hc with hc | hc | hc
        · exact index_of_start_call c hc
        · exact index_of_arguments c hc
        · exact index_of_complete c hc

theorem index_of_delta_event {text : String} :
    ∀ c ∈ (delta_event index text s).1, chunk_index c = some index := by
  intro c hc
  obtain hc | hc := List.mem_append.1 hc
  · exact index_of_start_call c hc
  · rw [List.mem_singleton.1 hc]
    rfl

theorem index_of_done_event {arguments : Option String} :
    ∀ c ∈ (done_event index arguments s).1, chunk_index c = some index := by
  intro c hc
  obtain hc | hc := List.mem_append.1 hc
  · obtain hc | hc := List.mem_append.1 hc
    · exact index_of_start_call c hc
    · cases arguments with
      | none => exact absurd hc List.not_mem_nil
      | some arguments =>
          dsimp only at hc
          split_ifs at hc
          · exact absurd hc List.not_mem_nil
          · exact index_of_arguments c hc
  · exact index_of_complete c hc

theorem index_of_listed_event :
    ∀ c ∈ (listed_event index item s).1, chunk_index c = some index := by
  intro c hc
  obtain hc | hc := List.mem_append.1 hc
  · obtain hc | hc := List.mem_append.1 hc
    · exact index_of_start_call c hc
    · split_ifs at hc
      · exact absurd hc List.not_mem_nil
      · exact index_of_arguments c hc
  · exact index_of_complete c hc

end

theorem index_chunks_of_own {i : ℕ} {chunks : List StreamChunk}
    (h : ∀ c ∈ chunks, chunk_index c = some i) : index_chunks i chunks = chunks :=
  List.filter_eq_self.2 fun c hc => decide_eq_true (h c hc)

theorem index_chunks_of_ne {i : ℕ} {chunks : List StreamChunk}
    (h : ∀ c ∈ chunks, chunk_index c ≠ some i) : index_chunks i chunks = [] :=
  List.filter_eq_nil_iff.2 fun c hc => by simpa using h c hc

theorem index_chunks_append (i : ℕ) (a b : List StreamChunk) :
    index_chunks i (a ++ b) = index_chunks i a ++ index_chunks i b := List.filter_append ..

/-- Arguments in full that are known already. -/
theorem emit_arguments_delta_self (index : ℕ) (s : CodexToolUseState) :
    emit_arguments_delta index s.arguments s = ([], s) := by
  unfold emit_arguments_delta
  rw [if_pos (List.isPrefixOf_iff_prefix.2 (List.prefix_refl _)), List.drop_length]
  rfl

theorem eq_append_of_prefix {a b : String} (h : a.toList <+: b.toList) :
    b = a ++ String.ofList (b.toList.drop a.toList.length) := by
  obtain ⟨rest, hrest⟩ := h
  apply String.toList_injective
  rw [String.toList_append, String.toList_ofList, ← hrest, List.drop_left]

/-- Afterwards the arguments are those that were given in full. -/
theorem emit_arguments_delta_state (index : ℕ) (arguments : String) (s : CodexToolUseState) :
    (emit_arguments_delta index arguments s).2 = { s with arguments := arguments } := by
  unfold emit_arguments_delta
  by_cases h : s.arguments.toList.isPrefixOf arguments.toList = true
  · have happend := eq_append_of_prefix (List.isPrefixOf_iff_prefix.1 h)
    rw [if_pos h]
    dsimp only
    by_cases hempty : String.ofList (arguments.toList.drop s.arguments.toList.length) = ""
    · rw [if_pos hempty]
      rw [hempty, String.append_empty] at happend
      rw [happend]
    · rw [if_neg hempty, ← happend]
  · rw [if_neg h]

/-- Arguments that are not known yet: something is emitted. -/
theorem emit_arguments_delta_new (index : ℕ) {arguments : String} {s : CodexToolUseState}
    (hempty : arguments ≠ "") (hnew : s.arguments ≠ arguments) : ∃ text, text ≠ "" ∧
      (emit_arguments_delta index arguments s).1 = [.ToolUseInputDelta index text] := by
  unfold emit_arguments_delta
  by_cases h : s.arguments.toList.isPrefixOf arguments.toList = true
  · have happend := eq_append_of_prefix (List.isPrefixOf_iff_prefix.1 h)
    rw [if_pos h]
    dsimp only
    have hrest : String.ofList (arguments.toList.drop s.arguments.toList.length) ≠ "" := by
      intro hrest
      rw [hrest, String.append_empty] at happend
      exact hnew happend.symm
    rw [if_neg hrest]
    exact ⟨_, hrest, rfl⟩
  · rw [if_neg h]
    exact ⟨arguments, hempty, rfl⟩

/-! ## 9. The events before the end -/

section

variable (order : DrainOrder ℕ CodexToolUseState) (p : State)

/-- A step of the parser, on the events of a stream. -/
def event_step (p : State) (e : Event) : List StreamChunk × State := step order p e.line

theorem event_step_added (i : ℕ) (c : Call) :
    event_step order p (.added i c) = at_entry p i (item_event i (c.item c.initial)) := by
  have hkind : is_reasoning_delta "response.output_item.added" = false := by decide +kernel
  simp [event_step, step, Event.line, hkind, handle, handle_output_item_event, Call.item,
    resolve_tool_index]

theorem event_step_delta (i : ℕ) (c : Call) (text : String) :
    event_step order p (.delta i c text) = at_entry p i (delta_event i text) := by
  have hkind : is_reasoning_delta "response.function_call_arguments.delta" = false := by
    decide +kernel
  simp [event_step, step, Event.line, hkind, handle, handle_function_call_arguments_delta,
    resolve_tool_index_with_item]

theorem event_step_arguments_done (i : ℕ) (c : Call) :
    event_step order p (.arguments_done i c) =
      handle_function_call_arguments_done order (some i) (some c.item_id) (some c.arguments) p := by
  have hkind : is_reasoning_delta "response.function_call_arguments.done" = false := by
    decide +kernel
  simp [event_step, step, Event.line, hkind, handle]

theorem event_step_item_done (i : ℕ) (c : Call) :
    event_step order p (.item_done i c) = at_entry p i (item_event i c.finished_item) := by
  have hkind : is_reasoning_delta "response.output_item.done" = false := by decide +kernel
  simp [event_step, step, Event.line, hkind, handle, output_item_done, handle_output_item_event,
    Call.finished_item, Call.item, resolve_tool_index]

/-- What is given concerns no call's entry, starts nothing, and ends nothing. -/
structure Quiet (out : List StreamChunk × State) : Prop where
  chunks : ∀ c ∈ out.1, chunk_index c = none ∧ c.finish_reason = none
  lookup : ∀ i ≠ USIZE_MAX, out.2.lookup i = p.lookup i
  started : ∀ i, (out.2.lookup i).any CodexToolUseState.started =
    (p.lookup i).any CodexToolUseState.started

variable {p}

theorem quiet_of_chunks {chunks : List StreamChunk}
    (h : ∀ c ∈ chunks, chunk_index c = none ∧ c.finish_reason = none) : Quiet p (chunks, p) :=
  ⟨h, fun _ _ => rfl, fun _ => rfl⟩

/-- The thinking is kept at an index of its own. -/
theorem quiet_of_thinking {α : Type} {f : CodexToolUseState → α × CodexToolUseState}
    (hf : ∀ s, (f s).2.started = s.started) {chunks : List StreamChunk}
    (h : ∀ c ∈ chunks, chunk_index c = none ∧ c.finish_reason = none) :
    Quiet p (chunks, (at_entry p USIZE_MAX f).2) where
  chunks := h
  lookup i hi := by
    rw [lookup_at_entry, if_neg hi]
  started i := by
    rw [lookup_at_entry]
    by_cases hi : i = USIZE_MAX
    · rw [if_pos hi, hi, Option.any_some, hf]
      cases p.lookup USIZE_MAX <;> rfl
    · rw [if_neg hi]

theorem mark_final_started (text : String) (s : CodexToolUseState) :
    (mark_final text s).2.started = s.started := by
  unfold mark_final
  split_ifs <;> rfl

theorem quiet_final_thinking (text : Option String) : Quiet p (final_thinking text p) := by
  cases text with
  | none => exact quiet_of_chunks fun c hc => absurd hc List.not_mem_nil
  | some text =>
      apply quiet_of_thinking (mark_final_started text)
      intro c hc
      obtain ⟨thinking, -, rfl⟩ := Option.map_eq_some_iff.1 (Option.mem_toList.1 hc)
      exact ⟨rfl, rfl⟩

theorem quiet_item {item : OutputItem} (h : item.item_type ≠ some "function_call")
    (output_index : Option ℕ) : Quiet p (handle_output_item_event item output_index p) := by
  unfold handle_output_item_event
  rw [if_neg h]
  exact quiet_of_chunks fun c hc => absurd hc List.not_mem_nil

/-- An event that is about no call. -/
theorem quiet_other {e : CodexSseEvent} (h : Free e) : Quiet p (event_step order p (.other e h)) := by
  have hnothing : Quiet p ([], p) := quiet_of_chunks fun c hc => absurd hc List.not_mem_nil
  obtain ⟨hkind, hitem⟩ := h
  rw [call_kinds, List.mem_cons, List.mem_cons, List.mem_cons, List.mem_singleton, not_or, not_or,
    not_or] at hkind
  unfold event_step step Event.line
  dsimp only
  by_cases hreasoning : is_reasoning_delta e.kind = true
  · rw [if_pos hreasoning]
    unfold reasoning_delta
    cases e.delta with
    | none => exact hnothing
    | some delta =>
        dsimp only
        split_ifs
        · exact hnothing
        · apply quiet_of_thinking fun s => rfl
          intro c hc
          rw [List.mem_singleton.1 hc]
          exact ⟨rfl, rfl⟩
  · rw [if_neg hreasoning]
    unfold handle
    rw [if_neg hkind.1, if_neg hkind.2.1, if_neg hkind.2.2.1]
    split_ifs
    · apply quiet_of_chunks
      intro c hc
      obtain ⟨text, -, rfl⟩ := Option.map_eq_some_iff.1 (Option.mem_toList.1 hc)
      exact ⟨rfl, rfl⟩
    · cases hi : e.item with
      | none => exact hnothing
      | some item =>
          dsimp only
          unfold output_item_done
          split_ifs
          · exact quiet_final_thinking _
          · exact quiet_item (hitem item hi) _
    · cases hi : e.item with
      | none => exact hnothing
      | some item => exact quiet_item (hitem item hi) _
    · exact hnothing

/-! ## 10. One call -/

/-- What an event of an index gives and makes of the entry. -/
def slot_step (s : Option CodexToolUseState) :
    Event → List StreamChunk × Option CodexToolUseState
  | .added i c => ((item_event i (c.item c.initial) (s.getD default)).1,
      some (item_event i (c.item c.initial) (s.getD default)).2)
  | .delta i _ text => ((delta_event i text (s.getD default)).1,
      some (delta_event i text (s.getD default)).2)
  | .arguments_done i c =>
      match s with
      | some s => ((done_event i (some c.arguments) s).1, some (done_event i (some c.arguments) s).2)
      | none => ([], none)
  | .item_done i c => ((item_event i c.finished_item (s.getD default)).1,
      some (item_event i c.finished_item (s.getD default)).2)
  | .other _ _ => ([], s)

/-- An event of an index is a step of its entry. -/
theorem event_step_own {i : ℕ} {e : Event} (he : e.index = some i) :
    (event_step order p e).1 = (slot_step (p.lookup i) e).1 ∧
      (event_step order p e).2.lookup i = (slot_step (p.lookup i) e).2 ∧
      ∀ j ≠ i, (event_step order p e).2.lookup j = p.lookup j := by
  have hentry : ∀ f : CodexToolUseState → List StreamChunk × CodexToolUseState,
      (at_entry p i f).1 = (f ((p.lookup i).getD default)).1 ∧
        (at_entry p i f).2.lookup i = some (f ((p.lookup i).getD default)).2 ∧
        ∀ j ≠ i, (at_entry p i f).2.lookup j = p.lookup j := by
    intro f
    refine ⟨rfl, ?_, fun j hj => ?_⟩
    · rw [lookup_at_entry, if_pos rfl]
    · rw [lookup_at_entry, if_neg hj]
  cases e with
  | added k c =>
      obtain rfl : k = i := Option.some.inj he
      rw [event_step_added]
      exact hentry _
  | delta k c text =>
      obtain rfl : k = i := Option.some.inj he
      rw [event_step_delta]
      exact hentry _
  | arguments_done k c =>
      obtain rfl : k = i := Option.some.inj he
      rw [event_step_arguments_done]
      unfold handle_function_call_arguments_done
      dsimp only [resolve_tool_index_with_item]
      cases hs : p.lookup k with
      | none => exact ⟨rfl, hs, fun j _ => rfl⟩
      | some s => exact ⟨rfl, AList.lookup_insert _, fun j hj => AList.lookup_insert_ne hj⟩
  | item_done k c =>
      obtain rfl : k = i := Option.some.inj he
      rw [event_step_item_done]
      exact hentry _
  | other e h => cases he

theorem index_of_slot_step {i : ℕ} {e : Event} (he : e.index = some i)
    (s : Option CodexToolUseState) : ∀ c ∈ (slot_step s e).1, chunk_index c = some i := by
  cases e with
  | added k c =>
      obtain rfl : k = i := Option.some.inj he
      exact index_of_item_event
  | delta k c text =>
      obtain rfl : k = i := Option.some.inj he
      exact index_of_delta_event
  | arguments_done k c =>
      obtain rfl : k = i := Option.some.inj he
      cases s with
      | none => exact fun c hc => absurd hc List.not_mem_nil
      | some s =>
          change ∀ chunk ∈ (done_event k (some c.arguments) s).1, chunk_index chunk = some k
          exact index_of_done_event
  | item_done k c =>
      obtain rfl : k = i := Option.some.inj he
      exact index_of_item_event
  | other e h => cases he

/-- What an event of another index gives is about that one. -/
theorem index_chunks_event_step {i : ℕ} {e : Event} (he : e.index ≠ some i) :
    index_chunks i (event_step order p e).1 = [] := by
  apply index_chunks_of_ne
  intro c hc
  cases hindex : e.index with
  | none =>
      cases e with
      | other e h =>
          rw [((quiet_other order h).chunks c hc).1]
          exact nofun
      | added k c => cases hindex
      | delta k c text => cases hindex
      | arguments_done k c => cases hindex
      | item_done k c => cases hindex
  | some k =>
      rw [(event_step_own order hindex).1] at hc
      rw [index_of_slot_step hindex _ c hc, ← hindex]
      exact he

/-- An index of a call is not touched by the events of another. -/
theorem entry_local {i : ℕ} (hi : i ≠ USIZE_MAX) :
    Parts.Local (event_step order) (fun p => p.lookup i) (Event.at_index i)
      (fun s e => (slot_step s e).2) where
  mine p e he := (event_step_own order (of_decide_eq_true he)).2.1
  others p e he := by
    have hne : e.index ≠ some i := of_decide_eq_false he
    cases hindex : e.index with
    | none =>
        cases e with
        | other e h => exact (quiet_other order h).lookup i hi
        | added k c => cases hindex
        | delta k c text => cases hindex
        | arguments_done k c => cases hindex
        | item_done k c => cases hindex
    | some k =>
        apply (event_step_own order hindex).2.2 i
        rintro rfl
        exact hne hindex

/-- The entry of a call, and what is known of its arguments. -/
def entry_of (c : Call) (arguments : String) : CodexToolUseState where
  item_id := some c.item_id
  id := some c.call_id
  name := some c.name
  arguments := arguments
  started := true
  emitted_thinking := []
  emitted_thinking_text := ""
  streamed_thinking_seen := false

def completion (i : ℕ) (c : Call) : StreamChunk :=
  .ToolUseComplete i ⟨c.call_id, "function", ⟨c.name, c.arguments⟩⟩

/-- The chunks of a call before the end of the stream. -/
def call_chunks (i : ℕ) (c : Call) : List StreamChunk :=
  .ToolUseStart i c.call_id c.name :: c.deltas.map (.ToolUseInputDelta i) ++
    ((if c.arguments_done then [completion i c] else []) ++
      if c.item_done ∧ is_blank c.arguments = false then [completion i c] else [])

/-! The entry of a call in the course of its events. -/

theorem slot_added (i : ℕ) (c : Call) :
    slot_step none (.added i c) = ([.ToolUseStart i c.call_id c.name], some (entry_of c "")) := by
  have hevent : item_event i (c.item c.initial) default =
      ([.ToolUseStart i c.call_id c.name], entry_of c "") := by
    unfold item_event
    cases hinitial : c.initial with
    | none => rfl
    | some arguments =>
        change (if is_blank arguments = true then _ else _) = _
        rw [if_pos (c.initial_blank arguments hinitial)]
        rfl
  change ((item_event i (c.item c.initial) default).1,
    some (item_event i (c.item c.initial) default).2) = _
  rw [hevent]

theorem slot_delta (i : ℕ) (c : Call) (arguments text : String) :
    slot_step (some (entry_of c arguments)) (.delta i c text) =
      ([.ToolUseInputDelta i text], some (entry_of c (arguments ++ text))) := rfl

theorem run_deltas (i : ℕ) (c : Call) (arguments : String) (deltas : List String) :
    Parts.run slot_step (some (entry_of c arguments)) (deltas.map (.delta i c)) =
      (deltas.map (.ToolUseInputDelta i), some (entry_of c (arguments ++ String.join deltas))) := by
  induction deltas generalizing arguments with
  | nil => simp [Parts.run]
  | cons text deltas ih =>
      rw [List.map_cons, Parts.run, slot_delta, ih, String.join_cons, String.append_assoc]
      rfl

theorem start_call_started (i : ℕ) (c : Call) (arguments : String) :
    start_call i (entry_of c arguments) = ([], entry_of c arguments) := rfl

theorem emit_arguments_delta_known (i : ℕ) (c : Call) :
    emit_arguments_delta i c.arguments (entry_of c c.arguments) =
      ([], entry_of c c.arguments) :=
  emit_arguments_delta_self i (entry_of c c.arguments)

theorem slot_arguments_done (i : ℕ) (c : Call) :
    slot_step (some (entry_of c c.arguments)) (.arguments_done i c) =
      ([completion i c], some (entry_of c c.arguments)) := by
  have hevent : done_event i (some c.arguments) (entry_of c c.arguments) =
      ([completion i c], entry_of c c.arguments) := by
    unfold done_event
    rw [start_call_started]
    dsimp only
    rw [emit_arguments_delta_known, ite_self]
    rfl
  change ((done_event i (some c.arguments) (entry_of c c.arguments)).1,
    some (done_event i (some c.arguments) (entry_of c c.arguments)).2) = _
  rw [hevent]

theorem slot_item_done (i : ℕ) (c : Call) :
    slot_step (some (entry_of c c.arguments)) (.item_done i c) =
      (if is_blank c.arguments = false then [completion i c] else [],
        some (entry_of c c.arguments)) := by
  have hnamed : name_item c.finished_item (entry_of c c.arguments) = entry_of c c.arguments := rfl
  have hevent : item_event i c.finished_item (entry_of c c.arguments) =
      (if is_blank c.arguments = false then [completion i c] else [], entry_of c c.arguments) := by
    have harguments : c.finished_item.arguments = some c.arguments := rfl
    unfold item_event
    rw [hnamed, start_call_started, harguments]
    dsimp only
    unfold emit_full
    rw [emit_arguments_delta_known]
    by_cases hblank : is_blank c.arguments = true
    · rw [if_pos hblank, if_neg (by simp [hblank])]
    · rw [if_neg hblank, if_pos (Bool.eq_false_iff.2 hblank)]
      rfl
  change ((item_event i c.finished_item (entry_of c c.arguments)).1,
    some (item_event i c.finished_item (entry_of c c.arguments)).2) = _
  rw [hevent]

/-- The events of a call, one after the other. -/
theorem run_call (i : ℕ) (c : Call) :
    Parts.run slot_step none (c.events i) = (call_chunks i c, some (entry_of c c.arguments)) := by
  have hdone : Parts.run slot_step (some (entry_of c c.arguments))
      (if c.arguments_done then [.arguments_done i c] else []) =
        (if c.arguments_done then [completion i c] else [], some (entry_of c c.arguments)) := by
    by_cases h : c.arguments_done = true
    · rw [if_pos h, if_pos h, Parts.run, slot_arguments_done]
      rfl
    · rw [if_neg h, if_neg h]
      rfl
  have hitem : Parts.run slot_step (some (entry_of c c.arguments))
      (if c.item_done then [.item_done i c] else []) =
        (if c.item_done ∧ is_blank c.arguments = false then [completion i c] else [],
          some (entry_of c c.arguments)) := by
    by_cases h : c.item_done = true
    · rw [if_pos h, Parts.run, slot_item_done]
      simp [h, Parts.run]
    · rw [if_neg h, if_neg fun hboth => h hboth.1]
      rfl
  have harguments : "" ++ String.join c.deltas = c.arguments := String.empty_append
  unfold Call.events call_chunks
  rw [List.cons_append, Parts.run, slot_added, Parts.run_append, run_deltas, harguments,
    Parts.run_append, hdone, hitem]
  rfl

variable {calls : ℕ → Option Call} {events : List Event} {ending : Ending}

/-- The entry of an index before the end, and the chunks about it. -/
theorem body_entry (h : Streams calls events ending) {i : ℕ} (hi : i ≠ USIZE_MAX) :
    (Parts.run (event_step order) ∅ events).2.lookup i =
      (calls i).map fun c => entry_of c c.arguments := by
  rw [Parts.part_run (entry_local order hi), h.interleaves i]
  have hfold : ∀ (es : List Event) (s : Option CodexToolUseState),
      es.foldl (fun s e => (slot_step s e).2) s = (Parts.run slot_step s es).2 := by
    intro es
    induction es with
    | nil => exact fun _ => rfl
    | cons e es ih => exact fun s => ih _
  cases calls i with
  | none => rfl
  | some c =>
      rw [Option.map_some, Option.getD_some, hfold]
      exact congrArg Prod.snd (run_call i c)

theorem body_chunks (h : Streams calls events ending) (i : ℕ) :
    index_chunks i (Parts.run (event_step order) ∅ events).1 =
      ((calls i).map (call_chunks i)).getD [] := by
  by_cases hi : i = USIZE_MAX
  · -- no event is about this index
    have hnone : events.filter (Event.at_index i) = [] := by
      rw [h.interleaves i, hi, h.bounded]
      rfl
    have hrun : ∀ (es : List Event) (p : State), es.filter (Event.at_index i) = [] →
        index_chunks i (Parts.run (event_step order) p es).1 = [] := by
      intro es
      induction es with
      | nil => exact fun _ _ => rfl
      | cons e es ih =>
          intro p hes
          have hall := List.filter_eq_nil_iff.1 hes
          have hfalse : e.index ≠ some i := fun heq =>
            hall e List.mem_cons_self (decide_eq_true heq)
          rw [Parts.run, index_chunks_append, index_chunks_event_step order hfalse, ih]
          · rfl
          · exact List.filter_eq_nil_iff.2 fun e' he' => hall e' (List.mem_cons_of_mem e he')
    rw [hrun events ∅ hnone, hi, h.bounded]
    rfl
  · have hemits : (Parts.run (event_step order) ∅ events).1.filterMap
        (Option.guard fun c => decide (chunk_index c = some i)) =
          (Parts.run slot_step none (events.filter (Event.at_index i))).1 := by
      refine Parts.part_emits (entry_local order hi) (fun p e he => ?_) (fun p e he => ?_) ∅ events
      · rw [List.filterMap_eq_filter]
        have hindex := of_decide_eq_true he
        rw [(event_step_own order hindex).1]
        exact index_chunks_of_own (index_of_slot_step hindex _)
      · rw [List.filterMap_eq_filter]
        exact index_chunks_event_step order (of_decide_eq_false he)
    rw [List.filterMap_eq_filter] at hemits
    rw [index_chunks, hemits, h.interleaves i]
    cases calls i with
    | none => rfl
    | some c => exact congrArg Prod.fst (run_call i c)

/-- No event starts anything at the index of the thinking. -/
theorem body_thinking (h : Streams calls events ending) :
    ((Parts.run (event_step order) ∅ events).2.lookup USIZE_MAX).any CodexToolUseState.started =
      false := by
  have hnone : events.filter (Event.at_index USIZE_MAX) = [] := by
    rw [h.interleaves, h.bounded]
    rfl
  have hrun : ∀ (es : List Event) (p : State), es.filter (Event.at_index USIZE_MAX) = [] →
      ((Parts.run (event_step order) p es).2.lookup USIZE_MAX).any CodexToolUseState.started =
        (p.lookup USIZE_MAX).any CodexToolUseState.started := by
    intro es
    induction es with
    | nil => exact fun _ _ => rfl
    | cons e es ih =>
        intro p hes
        have hall := List.filter_eq_nil_iff.1 hes
        have hfalse : e.index ≠ some USIZE_MAX := fun heq =>
          hall e List.mem_cons_self (decide_eq_true heq)
        rw [Parts.run, ih _ (List.filter_eq_nil_iff.2 fun e' he' =>
          hall e' (List.mem_cons_of_mem e he'))]
        cases hindex : e.index with
        | none =>
            cases e with
            | other e hfree => exact (quiet_other order hfree).started USIZE_MAX
            | added k c => cases hindex
            | delta k c text => cases hindex
            | arguments_done k c => cases hindex
            | item_done k c => cases hindex
        | some k =>
            rw [(event_step_own order hindex).2.2 USIZE_MAX]
            rintro rfl
            exact hfalse hindex
  rw [hrun events ∅ hnone]
  rfl

end

/-! ## 11. The list at the end -/

/-- The elements of the list that are about a place. -/
def at_place (i : ℕ) (listed : OutputItem × ℕ) : Bool :=
  decide (listed.2 = i) && decide (listed.1.item_type = some "function_call")

/-- What an element makes of the entry at its place. -/
def list_slot (i : ℕ) (s : Option CodexToolUseState) (listed : OutputItem × ℕ) :
    List StreamChunk × Option CodexToolUseState :=
  ((listed_event i listed.1 (s.getD default)).1,
    some (listed_event i listed.1 (s.getD default)).2)

theorem at_place_iff {i : ℕ} {listed : OutputItem × ℕ} :
    at_place i listed = true ↔ listed.2 = i ∧ listed.1.item_type = some "function_call" := by
  rw [at_place, Bool.and_eq_true, decide_eq_true_eq, decide_eq_true_eq]

theorem list_local (i : ℕ) : Parts.Local list_step (fun p => p.lookup i) (at_place i)
    (fun s listed => (list_slot i s listed).2) where
  mine p listed hown := by
    obtain ⟨hplace, hcall⟩ := at_place_iff.1 hown
    unfold list_step
    rw [if_pos hcall, lookup_at_entry, if_pos hplace.symm, hplace]
    rfl
  others p listed hother := by
    unfold list_step
    by_cases hcall : listed.1.item_type = some "function_call"
    · rw [if_pos hcall, lookup_at_entry, if_neg]
      rintro rfl
      rw [at_place_iff.2 ⟨rfl, hcall⟩] at hother
      cases hother
    · rw [if_neg hcall]

theorem list_chunks (p : State) (i : ℕ) (listed : List (OutputItem × ℕ)) :
    index_chunks i (Parts.run list_step p listed).1 =
      (Parts.run (list_slot i) (p.lookup i) (listed.filter (at_place i))).1 := by
  have hemits : (Parts.run list_step p listed).1.filterMap
      (Option.guard fun c => decide (chunk_index c = some i)) =
        (Parts.run (list_slot i) (p.lookup i) (listed.filter (at_place i))).1 := by
    refine Parts.part_emits (list_local i) (fun p listed hown => ?_)
      (fun p listed hother => ?_) p listed
    · obtain ⟨hplace, hcall⟩ := at_place_iff.1 hown
      unfold list_step
      rw [if_pos hcall, List.filterMap_eq_filter, hplace]
      exact index_chunks_of_own index_of_listed_event
    · rw [List.filterMap_eq_filter]
      apply index_chunks_of_ne
      unfold list_step
      by_cases hcall : listed.1.item_type = some "function_call"
      · rw [if_pos hcall]
        intro c hc heq
        have hplace : listed.2 = i := Option.some.inj ((index_of_listed_event c hc).symm.trans heq)
        rw [at_place_iff.2 ⟨hplace, hcall⟩] at hother
        cases hother
      · rw [if_neg hcall]
        exact fun c hc => absurd hc List.not_mem_nil
  rw [List.filterMap_eq_filter] at hemits
  exact hemits

theorem list_entry (p : State) (i : ℕ) (listed : List (OutputItem × ℕ)) :
    (Parts.run list_step p listed).2.lookup i =
      (listed.filter (at_place i)).foldl (fun s listed => (list_slot i s listed).2) (p.lookup i) :=
  Parts.part_run (list_local i) p listed

/-- A place is that of one element at most. -/
theorem filter_at_place (i : ℕ) {listed : List (OutputItem × ℕ)}
    (h : (listed.map Prod.snd).Nodup) : listed.filter (at_place i) = [] ∨ ∃ item,
      (item, i) ∈ listed ∧ item.item_type = some "function_call" ∧
        listed.filter (at_place i) = [(item, i)] := by
  induction listed with
  | nil => exact .inl rfl
  | cons entry listed ih =>
      rw [List.map_cons, List.nodup_cons] at h
      by_cases hown : at_place i entry = true
      · obtain ⟨hplace, hcall⟩ := at_place_iff.1 hown
        have hrest : listed.filter (at_place i) = [] := by
          apply List.filter_eq_nil_iff.2
          intro other hmem hother
          apply h.1
          rw [hplace, ← (at_place_iff.1 hother).1]
          exact List.mem_map_of_mem hmem
        right
        refine ⟨entry.1, ?_, hcall, ?_⟩
        · rw [← hplace]
          exact List.mem_cons_self
        · rw [List.filter_cons_of_pos hown, hrest, ← hplace]
      · rw [List.filter_cons_of_neg hown]
        obtain hnone | ⟨item, hmem, hcall, hone⟩ := ih h.2
        · exact .inl hnone
        · exact .inr ⟨item, List.mem_cons_of_mem entry hmem, hcall, hone⟩

/-- An element with arguments at the place of a call: the call is complete with them. -/
theorem listed_known (i : ℕ) (c d : Call) :
    ∃ deltas, listed_event i c.finished_item (entry_of d d.arguments) =
        (deltas ++ [.ToolUseComplete i ⟨c.call_id, "function", ⟨c.name,
          if c.arguments = "" then d.arguments else c.arguments⟩⟩],
          entry_of c (if c.arguments = "" then d.arguments else c.arguments)) ∧
      (c.arguments = "" ∨ c.arguments = d.arguments → deltas = []) ∧
      (c.arguments ≠ "" → d.arguments ≠ c.arguments →
        ∃ text, text ≠ "" ∧ deltas = [.ToolUseInputDelta i text]) := by
  have hnamed : start_call i (name_item c.finished_item (entry_of d d.arguments)) =
      ([], entry_of c d.arguments) := rfl
  have harguments : c.finished_item.arguments.getD "" = c.arguments := rfl
  unfold listed_event
  rw [hnamed, harguments]
  dsimp only
  by_cases hempty : c.arguments = ""
  · rw [if_pos hempty, if_pos hempty]
    exact ⟨[], rfl, fun _ => rfl, fun hne => absurd hempty hne⟩
  · rw [if_neg hempty, if_neg hempty, emit_arguments_delta_state]
    refine ⟨(emit_arguments_delta i c.arguments (entry_of c d.arguments)).1, rfl, ?_, ?_⟩
    · intro hsame
      rw [hsame.resolve_left hempty]
      exact congrArg Prod.fst (emit_arguments_delta_self i (entry_of c d.arguments))
    · intro hne hnew
      exact emit_arguments_delta_new i hne hnew

/-- An element at another place: a call of its own. -/
theorem listed_new (i : ℕ) (c : Call) :
    ∃ deltas, listed_event i c.finished_item default =
        (.ToolUseStart i c.call_id c.name :: (deltas ++ [completion i c]), entry_of c c.arguments) ∧
      ∀ chunk ∈ deltas, ∃ text, chunk = .ToolUseInputDelta i text := by
  have hnamed : start_call i (name_item c.finished_item default) =
      ([.ToolUseStart i c.call_id c.name], entry_of c "") := rfl
  have harguments : c.finished_item.arguments.getD "" = c.arguments := rfl
  unfold listed_event
  rw [hnamed, harguments]
  dsimp only
  by_cases hempty : c.arguments = ""
  · rw [if_pos hempty]
    refine ⟨[], ?_, fun chunk hmem => absurd hmem List.not_mem_nil⟩
    rw [completion, hempty]
    rfl
  · rw [if_neg hempty, emit_arguments_delta_state]
    refine ⟨(emit_arguments_delta i c.arguments (entry_of c "")).1, rfl, ?_⟩
    obtain ⟨text, -, htext⟩ := emit_arguments_delta_new i hempty
      (s := entry_of c "") (fun heq => hempty heq.symm)
    rw [htext]
    intro chunk hmem
    exact ⟨text, List.mem_singleton.1 hmem⟩

/-! ## 12. What is given about an index -/

/-- The chunks about an index, and whether its entry is started at the end. -/
inductive AtIndex (calls : ℕ → Option Call) (ending : Ending) (i : ℕ) :
    List StreamChunk → Bool → Prop where
  | unused (hcall : calls i = none) : AtIndex calls ending i [] false
  /-- An element of the list at a place that no call has. -/
  | listed (hcall : calls i = none) {j : ℕ} {c : Call} (hc : calls j = some c)
      {deltas : List StreamChunk} (hdeltas : ∀ d ∈ deltas, ∃ text, d = .ToolUseInputDelta i text) :
      AtIndex calls ending i (.ToolUseStart i c.call_id c.name :: (deltas ++ [completion i c])) true
  | called {d : Call} (hd : calls i = some d)
      (hlisted : ∀ entry ∈ ending.listed, at_place i entry = false) :
      AtIndex calls ending i (call_chunks i d) true
  /-- An element of the list at the place of a call. -/
  | merged {d : Call} (hd : calls i = some d) {j : ℕ} {c : Call} (hc : calls j = some c)
      (hlisted : (c.finished_item, i) ∈ ending.listed) {deltas : List StreamChunk}
      (hsame : c.arguments = "" ∨ c.arguments = d.arguments → deltas = [])
      (hnew : c.arguments ≠ "" → d.arguments ≠ c.arguments →
        ∃ text, text ≠ "" ∧ deltas = [.ToolUseInputDelta i text]) :
      AtIndex calls ending i (call_chunks i d ++ (deltas ++ [.ToolUseComplete i ⟨c.call_id,
        "function", ⟨c.name, if c.arguments = "" then d.arguments else c.arguments⟩⟩])) true

theorem nodup_listed (ending : Ending) : (ending.listed.map Prod.snd).Nodup := by
  unfold Ending.listed
  rw [List.zipIdx_map_snd]
  exact List.nodup_range'

section

variable (order : DrainOrder ℕ CodexToolUseState) {calls : ℕ → Option Call} {events : List Event}
  {ending : Ending}

/-- The state before the end, and what the list makes of it. -/
def before_end (events : List Event) : List StreamChunk × State :=
  Parts.run (event_step order) ∅ events

def after_list (events : List Event) (ending : Ending) : List StreamChunk × State :=
  Parts.run list_step (before_end order events).2 ending.listed

theorem at_index (h : Streams calls events ending) (i : ℕ) :
    AtIndex calls ending i
      (index_chunks i (before_end order events).1 ++
        index_chunks i (after_list order events ending).1)
      (((after_list order events ending).2.lookup i).any CodexToolUseState.started) := by
  unfold after_list
  rw [list_chunks, list_entry, before_end, body_chunks order h]
  obtain hnone | ⟨item, hmem, hcall, hone⟩ := filter_at_place i (nodup_listed ending)
  · -- no element stands at the index
    rw [hnone, List.foldl_nil, Parts.run, List.append_nil]
    cases hc : calls i with
    | none =>
        have hstarted : ((Parts.run (event_step order) ∅ events).2.lookup i).any
            CodexToolUseState.started = false := by
          by_cases hi : i = USIZE_MAX
          · rw [hi]
            exact body_thinking order h
          · rw [body_entry order h hi, hc]
            rfl
        rw [hstarted]
        exact .unused hc
    | some d =>
        have hi : i ≠ USIZE_MAX := by
          rintro rfl
          rw [h.bounded] at hc
          cases hc
        rw [body_entry order h hi, hc]
        refine .called hc fun entry hentry => ?_
        rw [← Bool.not_eq_true]
        exact List.filter_eq_nil_iff.1 hnone entry hentry
  · obtain ⟨j, c, hc, hitem⟩ := h.listed (item, i) hmem hcall
    have hi : i ≠ USIZE_MAX := (h.listed_bounded (item, i) hmem).ne
    obtain rfl : item = c.finished_item := hitem
    rw [hone, body_entry order h hi, List.foldl_cons, List.foldl_nil, Parts.run, Parts.run,
      List.append_nil]
    cases hd : calls i with
    | none =>
        obtain ⟨deltas, hevent, hdeltas⟩ := listed_new i c
        have hslot : list_slot i ((none : Option Call).map fun d => entry_of d d.arguments)
            (c.finished_item, i) = (.ToolUseStart i c.call_id c.name :: (deltas ++ [completion i c]),
              some (entry_of c c.arguments)) := by
          change ((listed_event i c.finished_item default).1,
            some (listed_event i c.finished_item default).2) = _
          rw [hevent]
        rw [hslot]
        exact .listed hd hc hdeltas
    | some d =>
        obtain ⟨deltas, hevent, hsame, hnew⟩ := listed_known i c d
        have hslot := congrArg Prod.fst hevent
        have hentry := congrArg Prod.snd hevent
        dsimp only at hslot hentry
        dsimp only [Option.map_some, Option.getD_some, list_slot]
        rw [hslot, hentry]
        exact .merged hd hc hmem hsame hnew

/-! ### Exactness, index by index -/

theorem started_of_at_index {i : ℕ} {chunks : List StreamChunk} {started : Bool}
    (h : AtIndex calls ending i chunks started) :
    ((∃ id name rest, chunks = .ToolUseStart i id name :: rest ∧ ∀ c ∈ rest, is_start c = false) ∧
      started = true) ∨
    chunks = [] ∧ calls i = none ∧ started = false := by
  have hcall : ∀ d : Call, ∃ rest, call_chunks i d = .ToolUseStart i d.call_id d.name :: rest ∧
      ∀ c ∈ rest, is_start c = false := by
    intro d
    refine ⟨_, List.cons_append, ?_⟩
    intro c hc
    rw [List.mem_append, List.mem_append] at hc
    rcases hc with hc | hc | hc
    · obtain ⟨text, -, rfl⟩ := List.mem_map.1 hc
      rfl
    · split_ifs at hc
      · rw [List.mem_singleton.1 hc]
        rfl
      · exact absurd hc List.not_mem_nil
    · split_ifs at hc
      · rw [List.mem_singleton.1 hc]
        rfl
      · exact absurd hc List.not_mem_nil
  cases h with
  | unused hnone => exact .inr ⟨rfl, hnone, rfl⟩
  | @listed hnone j c hc deltas hdeltas =>
      refine .inl ⟨⟨_, _, _, rfl, fun chunk hmem => ?_⟩, rfl⟩
      obtain hmem | hmem := List.mem_append.1 hmem
      · obtain ⟨text, rfl⟩ := hdeltas chunk hmem
        rfl
      · rw [List.mem_singleton.1 hmem]
        rfl
  | @called d hd hlisted =>
      obtain ⟨rest, heq, hrest⟩ := hcall d
      exact .inl ⟨⟨_, _, rest, heq, hrest⟩, rfl⟩
  | @merged d hd j c hc hlisted deltas hsame hnew =>
      obtain ⟨rest, heq, hrest⟩ := hcall d
      refine .inl ⟨⟨_, _, _, by rw [heq]; rfl, fun chunk hmem => ?_⟩, rfl⟩
      obtain hmem | hmem := List.mem_append.1 hmem
      · exact hrest chunk hmem
      · obtain hmem | hmem := List.mem_append.1 hmem
        · -- at most one delta
          by_cases hknown : c.arguments = "" ∨ c.arguments = d.arguments
          · rw [hsame hknown] at hmem
            exact absurd hmem List.not_mem_nil
          · rw [not_or] at hknown
            obtain ⟨text, -, hdeltas⟩ := hnew hknown.1 (Ne.symm hknown.2)
            rw [hdeltas] at hmem
            rw [List.mem_singleton.1 hmem]
            rfl
        · rw [List.mem_singleton.1 hmem]
          rfl

theorem partial_json_call_chunks (i : ℕ) (d : Call) :
    (call_chunks i d).filterMap partial_json = d.deltas := by
  have hdone : ∀ b : Prop, ∀ [Decidable b],
      (if b then [completion i d] else []).filterMap partial_json = [] := by
    intro b _
    split_ifs <;> rfl
  unfold call_chunks
  rw [List.cons_append, List.filterMap_cons_none rfl, List.filterMap_append, List.filterMap_append,
    hdone, hdone, List.filterMap_map]
  have hsome : partial_json ∘ StreamChunk.ToolUseInputDelta i = some := rfl
  rw [hsome, List.filterMap_some, List.append_nil, List.append_nil]

theorem complete_call_chunks {i k : ℕ} {d : Call} {call : ToolCall}
    (h : .ToolUseComplete k call ∈ call_chunks i d) :
    call = ⟨d.call_id, "function", ⟨d.name, d.arguments⟩⟩ := by
  unfold call_chunks completion at h
  rw [List.cons_append, List.mem_cons, List.mem_append, List.mem_append] at h
  rcases h with h | h | h | h
  · cases h
  · obtain ⟨text, -, heq⟩ := List.mem_map.1 h
    cases heq
  · split_ifs at h
    · exact (StreamChunk.ToolUseComplete.inj (List.mem_singleton.1 h)).2
    · exact absurd h List.not_mem_nil
  · split_ifs at h
    · exact (StreamChunk.ToolUseComplete.inj (List.mem_singleton.1 h)).2
    · exact absurd h List.not_mem_nil

/-- The calls of an index are right exactly when the element at its place has the arguments of
its call. -/
theorem exact_at_index (h : Streams calls events ending) {i : ℕ} {chunks : List StreamChunk}
    {started : Bool} (hat : AtIndex calls ending i chunks started) :
    ((∀ d, calls i = some d → String.join (chunks.filterMap partial_json) = d.arguments) ∧
      ∀ k call, .ToolUseComplete k call ∈ chunks → ∀ j c, calls j = some c →
        call.id = c.call_id → call.function.arguments = c.arguments) ↔
    ∀ entry ∈ ending.listed, entry.2 = i → ∀ c d j, calls j = some c →
      entry.1 = c.finished_item → calls i = some d → d.arguments = c.arguments := by
  have hsame : ∀ {j k : ℕ} {c d : Call}, calls j = some c → calls k = some d →
      c.call_id = d.call_id → d = c := by
    intro j k c d hc hd hid
    rw [h.ids j k c d hc hd hid, hd] at hc
    exact Option.some.inj hc
  cases hat with
  | unused hnone =>
      apply iff_of_true
      · refine ⟨fun d hd => ?_, fun k call hmem => absurd hmem List.not_mem_nil⟩
        rw [hnone] at hd
        cases hd
      · intro entry _ _ c d j _ _ hd
        rw [hnone] at hd
        cases hd
  | @listed hnone j c hc deltas hdeltas =>
      apply iff_of_true
      · refine ⟨fun d hd => ?_, fun k call hmem j' c' hc' hid => ?_⟩
        · rw [hnone] at hd
          cases hd
        · rw [List.mem_cons, List.mem_append, List.mem_singleton] at hmem
          rcases hmem with hmem | hmem | hmem
          · cases hmem
          · obtain ⟨text, heq⟩ := hdeltas _ hmem
            cases heq
          · rw [(StreamChunk.ToolUseComplete.inj hmem).2] at hid ⊢
            rw [hsame hc hc' hid]
      · intro entry _ _ c' d j' _ _ hd
        rw [hnone] at hd
        cases hd
  | @called d hd hlisted =>
      apply iff_of_true
      · refine ⟨fun d' hd' => ?_, fun k call hmem j' c' hc' hid => ?_⟩
        · rw [hd, Option.some_inj] at hd'
          rw [partial_json_call_chunks, ← hd']
          rfl
        · rw [complete_call_chunks hmem] at hid ⊢
          rw [hsame hd hc' hid]
      · intro entry hentry hplace c' d' j' _ hitem _
        have hother := hlisted entry hentry
        rw [at_place_iff.2 ⟨hplace, by rw [hitem]; rfl⟩] at hother
        cases hother
  | @merged d hd j c hc hlisted deltas hknown hnew =>
      constructor
      · rintro ⟨hdeltas, hcomplete⟩ entry hentry hplace c' d' j' hc' hitem hd'
        rw [hd, Option.some_inj] at hd'
        subst hd'
        -- there is one element at the place
        have hone : entry = (c.finished_item, i) :=
          List.inj_on_of_nodup_map (nodup_listed ending) hentry hlisted hplace
        rw [hone] at hitem
        have harguments : c.arguments = c'.arguments :=
          Option.some.inj (congrArg OutputItem.arguments hitem)
        rw [← harguments]
        by_contra hne
        by_cases hempty : c.arguments = ""
        · -- the element has no arguments: its call is complete with those of the other
          have hcall := hcomplete i _ (List.mem_append_right _ (List.mem_append_right _
            List.mem_cons_self)) j c hc rfl
          rw [if_pos hempty] at hcall
          exact hne hcall
        · obtain ⟨text, htext, heq⟩ := hnew hempty hne
          have hjoin := hdeltas d hd
          rw [heq, List.filterMap_append, partial_json_call_chunks, String.join_append] at hjoin
          have hlast : String.join (List.filterMap partial_json
              ([StreamChunk.ToolUseInputDelta i text] ++ [.ToolUseComplete i ⟨c.call_id,
                "function", ⟨c.name, if c.arguments = "" then d.arguments else c.arguments⟩⟩])) =
              text := by
            change String.join [text] = text
            rw [String.join_cons, String.join_nil, String.append_empty]
          rw [hlast] at hjoin
          have hlength := congrArg String.length hjoin
          rw [String.length_append, Call.arguments] at hlength
          have hzero : text.length = 0 := by omega
          exact htext (String.length_eq_zero_iff.1 hzero)
      · intro haligned
        have heq : d.arguments = c.arguments :=
          haligned _ hlisted rfl c d j hc rfl hd
        have hnone : deltas = [] := hknown (.inr heq.symm)
        subst hnone
        refine ⟨fun d' hd' => ?_, fun k call hmem j' c' hc' hid => ?_⟩
        · rw [hd, Option.some_inj] at hd'
          rw [List.filterMap_append, partial_json_call_chunks, ← hd']
          change String.join (d.deltas ++ []) = _
          rw [List.append_nil]
          rfl
        · obtain hmem | hmem := List.mem_append.1 hmem
          · rw [complete_call_chunks hmem] at hid ⊢
            rw [hsame hd hc' hid]
          · rw [(StreamChunk.ToolUseComplete.inj (List.mem_singleton.1 hmem)).2] at hid ⊢
            dsimp only
            rw [heq, ite_self, hsame hc hc' hid]

/-! ### The end of the stream -/

theorem finish_reason_iff (p : State) :
    finish_reason p = .ToolCalls ↔ ∃ i, (p.lookup i).any CodexToolUseState.started = true := by
  have hany : (p.entries.any fun e => e.2.started) = true ↔
      ∃ i, (p.lookup i).any CodexToolUseState.started = true := by
    rw [List.any_eq_true]
    constructor
    · rintro ⟨e, he, hstarted⟩
      refine ⟨e.1, ?_⟩
      rw [AList.mem_lookup_iff.2 he]
      exact hstarted
    · rintro ⟨i, hi⟩
      cases hs : p.lookup i with
      | none =>
          rw [hs] at hi
          cases hi
      | some s =>
          rw [hs] at hi
          exact ⟨⟨i, s⟩, AList.mem_lookup_iff.1 hs, hi⟩
  rw [← hany]
  unfold finish_reason
  split_ifs with h
  · exact iff_of_true rfl h
  · exact iff_of_false nofun h

/-- Done, with the reason that `p` gives. -/
def EndsAs (p : State) (tail : List StreamChunk) : Prop :=
  (∀ c ∈ tail, chunk_index c = none) ∧ ∀ reason, .Done reason ∈ tail →
    (reason = .ToolCalls ↔ ∃ i, (p.lookup i).any CodexToolUseState.started = true)

theorem EndsAs.append {p : State} {a b : List StreamChunk} (ha : EndsAs p a) (hb : EndsAs p b) :
    EndsAs p (a ++ b) := by
  constructor
  · intro c hc
    exact (List.mem_append.1 hc).elim (ha.1 c) (hb.1 c)
  · intro reason hmem
    exact (List.mem_append.1 hmem).elim (ha.2 reason) (hb.2 reason)

theorem EndsAs.nil {p : State} : EndsAs p [] :=
  ⟨fun _ hc => absurd hc List.not_mem_nil, fun _ hc => absurd hc List.not_mem_nil⟩

theorem endsAs_done {p q : State} (h : ∀ i, (q.lookup i).any CodexToolUseState.started =
    (p.lookup i).any CodexToolUseState.started) : EndsAs p [.Done (finish_reason q)] := by
  constructor
  · intro c hc
    rw [List.mem_singleton.1 hc]
    rfl
  · intro reason hmem
    rw [StreamChunk.Done.inj (List.mem_singleton.1 hmem), finish_reason_iff]
    exact exists_congr fun i => by rw [h i]

theorem endsAs_quiet {p : State} {chunks : List StreamChunk}
    (h : ∀ c ∈ chunks, chunk_index c = none ∧ c.finish_reason = none) : EndsAs p chunks := by
  refine ⟨fun c hc => (h c hc).1, fun reason hmem => ?_⟩
  have hnone := (h _ hmem).2
  cases hnone

/-- Nothing is started at the index of the thinking, so that it may be cleared. -/
theorem clear_started {p : State}
    (h : (p.lookup USIZE_MAX).any CodexToolUseState.started = false) (i : ℕ) :
    ((clear_thinking_state p).lookup i).any CodexToolUseState.started =
      (p.lookup i).any CodexToolUseState.started := by
  unfold clear_thinking_state
  by_cases hi : i = USIZE_MAX
  · rw [hi, AList.lookup_erase, h]
    rfl
  · rw [AList.lookup_erase_ne hi]

theorem step_completed (p : State) (response : Option Response) :
    step order p (.Event ⟨"response.completed", none, none, response, none, none, none⟩) =
      response_completed response p := by
  have hkind : is_reasoning_delta "response.completed" = false := by decide +kernel
  simp [step, hkind, handle]

/-- The end of the answer: the calls of the list, and what says nothing of a call. -/
theorem completed_ends (p : State) (response : Option Response)
    (hmax : ((Parts.run list_step p ((response.bind Response.output).getD []).zipIdx).2.lookup
      USIZE_MAX).any CodexToolUseState.started = false) :
    ∃ tail, (response_completed response p).1 =
        (Parts.run list_step p ((response.bind Response.output).getD []).zipIdx).1 ++ tail ∧
      EndsAs (Parts.run list_step p ((response.bind Response.output).getD []).zipIdx).2 tail ∧
      ∀ i, ((response_completed response p).2.lookup i).any CodexToolUseState.started =
        ((Parts.run list_step p ((response.bind Response.output).getD []).zipIdx).2.lookup i).any
          CodexToolUseState.started := by
  cases response with
  | none => exact ⟨_, rfl, endsAs_done fun _ => rfl, clear_started hmax⟩
  | some r =>
      have hthinking : Quiet (emit_tool_calls_from_response r p).2
          (final_thinking (extract_reasoning_text_from_response r)
            (emit_tool_calls_from_response r p).2) := quiet_final_thinking _
      refine ⟨_, (List.append_assoc _ _ _).trans (List.append_assoc _ _ _), ?_, fun i => ?_⟩
      · refine (endsAs_quiet hthinking.chunks).append (EndsAs.append ?_ ?_)
        · apply endsAs_quiet
          intro c hc
          obtain ⟨usage, -, rfl⟩ := Option.map_eq_some_iff.1 (Option.mem_toList.1 hc)
          exact ⟨rfl, rfl⟩
        · exact endsAs_done hthinking.started
      · refine (clear_started ?_ i).trans (hthinking.started i)
        rw [hthinking.started]
        exact hmax

theorem ending_ends (p : State) (ending : Ending)
    (hmax : ((Parts.run list_step p ending.listed).2.lookup USIZE_MAX).any
      CodexToolUseState.started = false) :
    ∃ tail, (Parts.run (step order) p ending.lines).1 =
        (Parts.run list_step p ending.listed).1 ++ tail ∧
      EndsAs (Parts.run list_step p ending.listed).2 tail := by
  have hmarker : ∀ {p q : State}, (∀ i, (q.lookup i).any CodexToolUseState.started =
      (p.lookup i).any CodexToolUseState.started) →
        EndsAs p (Parts.run (step order) q (if ending.marker then [.Marker] else [])).1 := by
    intro p q h
    split_ifs
    · exact endsAs_done h
    · exact .nil
  unfold Ending.lines Ending.listed at *
  rw [Parts.run_append]
  cases hcompleted : ending.completed with
  | none => exact ⟨_, rfl, hmarker fun _ => rfl⟩
  | some response =>
      rw [hcompleted] at hmax
      obtain ⟨tail, htail, hends, hstarted⟩ := completed_ends p response hmax
      rw [Option.map_some, Option.toList_some, Parts.run, Parts.run, step_completed,
        List.append_nil, htail, List.append_assoc]
      exact ⟨_, rfl, hends.append (hmarker hstarted)⟩

/-- Before the end nothing is done. -/
theorem body_not_done (events : List Event) (p : State) :
    ∀ c ∈ (Parts.run (event_step order) p events).1, c.finish_reason = none := by
  induction events generalizing p with
  | nil => exact fun c hc => absurd hc List.not_mem_nil
  | cons e events ih =>
      intro c hc
      obtain hc | hc := List.mem_append.1 hc
      · cases hindex : e.index with
        | none =>
            cases e with
            | other e h => exact ((quiet_other order h).chunks c hc).2
            | added k c => cases hindex
            | delta k c text => cases hindex
            | arguments_done k c => cases hindex
            | item_done k c => cases hindex
        | some k =>
            rw [(event_step_own order hindex).1] at hc
            have hown := index_of_slot_step hindex _ c hc
            cases c with
            | Done reason => cases hown
            | Text delta => rfl
            | Thinking delta => rfl
            | ThinkingSignature signature => rfl
            | ToolUseStart index id name => rfl
            | ToolUseInputDelta index text => rfl
            | ToolUseComplete index call => rfl
            | Usage usage => rfl
      · exact ih _ c hc

theorem list_index (p : State) (listed : List (OutputItem × ℕ)) :
    ∀ c ∈ (Parts.run list_step p listed).1, chunk_index c ≠ none := by
  induction listed generalizing p with
  | nil => exact fun c hc => absurd hc List.not_mem_nil
  | cons entry listed ih =>
      intro c hc
      obtain hc | hc := List.mem_append.1 hc
      · unfold list_step at hc
        split_ifs at hc
        · rw [index_of_listed_event c hc]
          exact nofun
        · exact absurd hc List.not_mem_nil
      · exact ih _ c hc

/-- The chunks of the whole stream. -/
theorem exact_iff (h : Streams calls events ending) :
    Exact calls (Parts.run (step order) ∅ (events.map Event.line ++ ending.lines)).1 ↔
      Aligned calls ending := by
  have hmax : ((after_list order events ending).2.lookup USIZE_MAX).any
      CodexToolUseState.started = false := by
    unfold after_list
    have hnone : ending.listed.filter (at_place USIZE_MAX) = [] := by
      apply List.filter_eq_nil_iff.2
      intro entry hentry hplace
      exact (h.listed_bounded entry hentry).ne (at_place_iff.1 hplace).1
    rw [list_entry, hnone]
    exact body_thinking order h
  obtain ⟨tail, htail, hindex, hdone⟩ := ending_ends order (before_end order events).2 ending hmax
  have hchunks : (Parts.run (step order) ∅ (events.map Event.line ++ ending.lines)).1 =
      (before_end order events).1 ++ ((after_list order events ending).1 ++ tail) := by
    rw [Parts.run_append, Parts.run_map]
    exact congrArg _ htail
  have hat : ∀ i, AtIndex calls ending i
      (index_chunks i ((before_end order events).1 ++ ((after_list order events ending).1 ++ tail)))
      (((after_list order events ending).2.lookup i).any CodexToolUseState.started) := by
    intro i
    have hnone : index_chunks i tail = [] := by
      apply index_chunks_of_ne
      intro c hc
      rw [hindex c hc]
      exact nofun
    rw [index_chunks_append, index_chunks_append, hnone, List.append_nil]
    exact at_index order h i
  rw [hchunks]
  generalize hall : (before_end order events).1 ++ ((after_list order events ending).1 ++ tail) =
    chunks at hat
  have hmem : ∀ {i : ℕ} {c : StreamChunk}, c ∈ index_chunks i chunks → c ∈ chunks :=
    fun hc => (List.mem_filter.1 hc).1
  constructor
  · intro hexact entry hentry c d j hc hitem hd
    refine ((exact_at_index h (hat entry.2)).1 ⟨hexact.deltas entry.2, ?_⟩) entry hentry rfl c d j
      hc hitem hd
    exact fun k call hcall => hexact.complete k call (hmem hcall)
  · intro haligned
    have hright := fun i => (exact_at_index h (hat i)).2
      fun entry hentry hplace c d j hc hitem hd =>
        haligned entry hentry c d j hc hitem (by rw [hplace]; exact hd)
    constructor
    · intro i
      obtain ⟨⟨id, name, rest, heq, hrest⟩, -⟩ | ⟨hnil, hnone, -⟩ := started_of_at_index (hat i)
      · exact .inl ⟨id, name, rest, heq, hrest⟩
      · exact .inr ⟨hnil, hnone⟩
    · exact fun i => (hright i).1
    · intro i call hcall
      exact (hright i).2 i call (List.mem_filter.2 ⟨hcall, decide_eq_true rfl⟩)
    · intro reason hreason
      have hin : .Done reason ∈ tail := by
        rw [← hall, List.mem_append, List.mem_append] at hreason
        rcases hreason with hreason | hreason | hreason
        · cases body_not_done order events ∅ _ hreason
        · exact absurd rfl (list_index _ _ _ hreason)
        · exact hreason
      rw [hdone reason hin]
      constructor
      · rintro ⟨i, hi⟩
        obtain ⟨⟨id, name, rest, heq, -⟩, -⟩ | ⟨-, -, hfalse⟩ := started_of_at_index (hat i)
        · refine ⟨.ToolUseStart i id name, hmem (i := i) ?_, rfl⟩
          rw [heq]
          exact List.mem_cons_self
        · cases hi.symm.trans hfalse
      · rintro ⟨c, hc, hstart⟩
        cases c with
        | ToolUseStart i id name =>
            obtain ⟨-, htrue⟩ | ⟨hnil, -⟩ := started_of_at_index (hat i)
            · exact ⟨i, htrue⟩
            · have hin : StreamChunk.ToolUseStart i id name ∈ index_chunks i chunks :=
                List.mem_filter.2 ⟨hc, decide_eq_true rfl⟩
              rw [hnil] at hin
              exact absurd hin List.not_mem_nil
        | Text delta => cases hstart
        | Thinking delta => cases hstart
        | ThinkingSignature signature => cases hstart
        | ToolUseInputDelta index text => cases hstart
        | ToolUseComplete index call => cases hstart
        | Usage usage => cases hstart
        | Done reason => cases hstart

end

/-! ## 13. Any division into chunks -/

/-- What the lines carry, in any division into texts. -/
def Carries (from_str : Str → Option CodexSseEvent) (texts : List String) (ls : List Line) : Prop :=
  texts.flatMap (fun text => (lines text.toList).filterMap (read_line from_str)) = ls

section

variable {order : DrainOrder ℕ CodexToolUseState} {from_str : Str → Option CodexSseEvent}

theorem parse_lines_of_carries {ls : List Str}
    (h : ∀ l ∈ ls.filterMap (read_line from_str), failure l = none) (p : State)
    (results : List StreamChunk) :
    parse_lines order from_str p results ls =
      (.ok (results ++ (Parts.run (step order) p (ls.filterMap (read_line from_str))).1),
        (Parts.run (step order) p (ls.filterMap (read_line from_str))).2) := by
  induction ls generalizing p results with
  | nil =>
      rw [List.filterMap_nil, Parts.run, List.append_nil]
      rfl
  | cons line ls ih =>
      rw [parse_lines]
      cases hread : read_line from_str line with
      | none =>
          -- the line is passed over
          rw [List.filterMap_cons_none hread] at h ⊢
          exact ih h p results
      | some l =>
          rw [List.filterMap_cons_some hread] at h ⊢
          dsimp only
          rw [h l List.mem_cons_self, Parts.run, ← List.append_assoc]
          exact ih (fun l' hl' => h l' (List.mem_cons_of_mem l hl')) _ _

theorem parse_stream_of_carries {texts : List String} {ls : List Line}
    (h : Carries from_str texts ls) (hfailure : ∀ l ∈ ls, failure l = none) (p : State) :
    parse_stream order from_str p (texts.map String.toList) = .ok (Parts.run (step order) p ls).1 := by
  induction texts generalizing p ls with
  | nil =>
      rw [← h]
      rfl
  | cons text texts ih =>
      rw [Carries, List.flatMap_cons] at h
      subst h
      rw [List.map_cons, parse_stream, codex_parse_stream_chunk_with_state,
        parse_lines_of_carries fun l hl => hfailure l (List.mem_append_left _ hl)]
      dsimp only
      rw [ih rfl fun l hl => hfailure l (List.mem_append_right _ hl), Parts.run_append]
      rfl

end

theorem no_failure (events : List Event) (ending : Ending) :
    ∀ l ∈ events.map Event.line ++ ending.lines, failure l = none := by
  intro l hl
  obtain hl | hl := List.mem_append.1 hl
  · obtain ⟨e, -, rfl⟩ := List.mem_map.1 hl
    cases e with
    | added i c => rfl
    | delta i c text => rfl
    | arguments_done i c => rfl
    | item_done i c => rfl
    | other e h =>
        apply if_neg
        intro hkind
        apply h.1
        rw [hkind]
        decide
  · obtain hl | hl := List.mem_append.1 hl
    · obtain ⟨response, -, rfl⟩ := Option.map_eq_some_iff.1 (Option.mem_toList.1 hl)
      rfl
    · split_ifs at hl
      · rw [List.mem_singleton.1 hl]
        rfl
      · exact absurd hl List.not_mem_nil

/-- **Codex streaming assembles tool calls exactly** if and only if an element of the list that
stands at the index of another call has that call's arguments, in every interleaving of the
events and however the lines are divided. -/
theorem calls_exact_iff (order : DrainOrder ℕ CodexToolUseState)
    (from_str : Str → Option CodexSseEvent) (calls : ℕ → Option Call) (events : List Event)
    (ending : Ending) (texts : List String) (hstream : Streams calls events ending)
    (hlines : Carries from_str texts (events.map Event.line ++ ending.lines)) :
    ∃ chunks, parse_stream order from_str ∅ (texts.map String.toList) = .ok chunks ∧
      (Exact calls chunks ↔ Aligned calls ending) :=
  ⟨_, parse_stream_of_carries hlines (no_failure events ending) ∅, exact_iff order hstream⟩

/-! ## 14. A list without its first element -/

/-- The JSON text of an item. -/
def sample_json (item_id call_id name arguments : String) : String :=
  "\x7b\"type\":\"function_call\",\"id\":\"" ++ item_id ++ "\",\"call_id\":\"" ++ call_id ++
    "\",\"name\":\"" ++ name ++ "\",\"arguments\":\"" ++ arguments ++ "\"\x7d"

def sample_added (index item : String) : String :=
  "\x7b\"type\":\"response.output_item.added\",\"output_index\":" ++ index ++ ",\"item\":" ++ item ++
    "\x7d"

def sample_delta (index item_id delta : String) : String :=
  "\x7b\"type\":\"response.function_call_arguments.delta\",\"output_index\":" ++ index ++
    ",\"item_id\":\"" ++ item_id ++ "\",\"delta\":\"" ++ delta ++ "\"\x7d"

def sample_completed (output : String) : String :=
  "\x7b\"type\":\"response.completed\",\"response\":\x7b\"output\":[" ++ output ++ "]\x7d\x7d"

def added_0 : String := sample_added "0" (sample_json "fc_0" "call_0" "ls" "")

def added_1 : String := sample_added "1" (sample_json "fc_1" "call_1" "cat" "")

def delta_0 : String := sample_delta "0" "fc_0" "\x7b\x7d"

def delta_1 : String := sample_delta "1" "fc_1" "\x7b\\\"n\\\":1\x7d"

def last_item : String := sample_json "fc_1" "call_1" "cat" "\x7b\\\"n\\\":1\x7d"

/-- The list in full, and without its first element. -/
def completed : String :=
  sample_completed (sample_json "fc_0" "call_0" "ls" "\x7b\x7d" ++ "," ++ last_item)

def shifted : String := sample_completed last_item

def sample_call (item_id call_id name arguments : String) : Call where
  item_id := item_id
  call_id := call_id
  name := name
  initial := some ""
  initial_blank := by
    intro arguments harguments
    obtain rfl := Option.some.inj harguments
    decide +kernel
  deltas := [arguments]
  arguments_done := false
  item_done := false

def sample_ls : Call := sample_call "fc_0" "call_0" "ls" "\x7b\x7d"

def sample_cat : Call := sample_call "fc_1" "call_1" "cat" "\x7b\"n\":1\x7d"

def sample_calls (i : ℕ) : Option Call :=
  if i = 0 then some sample_ls else if i = 1 then some sample_cat else none

/-- The calls are made at the same time. -/
def sample_events : List Event :=
  [.added 0 sample_ls, .added 1 sample_cat, .delta 0 sample_ls "\x7b\x7d",
    .delta 1 sample_cat "\x7b\"n\":1\x7d"]

def sample_ending (listed : List Call) : Ending :=
  ⟨some (some ⟨some (listed.map Call.finished_item), none, none⟩), false⟩

/-- What `serde_json` reads in these texts. -/
def sample_from_str (data : Str) : Option CodexSseEvent :=
  let line : Option Line :=
    if data = added_0.toList then some (Event.added 0 sample_ls).line
    else if data = added_1.toList then some (Event.added 1 sample_cat).line
    else if data = delta_0.toList then some (Event.delta 0 sample_ls "\x7b\x7d").line
    else if data = delta_1.toList then
      some (Event.delta 1 sample_cat "\x7b\"n\":1\x7d").line
    else if data = completed.toList then (sample_ending [sample_ls, sample_cat]).lines.head?
    else if data = shifted.toList then (sample_ending [sample_cat]).lines.head?
    else none
  match line with
  | some (.Event e) => some e
  | _ => none

/-- One text for each line. -/
def sample_texts (last : String) : List String :=
  [added_0, added_1, delta_0, delta_1, last].map fun data => "data: " ++ data ++ "\n"

theorem sample_streams {listed : List Call} (hlisted : ∀ c ∈ listed, c = sample_ls ∨ c = sample_cat)
    (hlength : listed.length ≤ 2) : Streams sample_calls sample_events (sample_ending listed) where
  interleaves i := by
    by_cases h0 : i = 0
    · subst h0
      rfl
    · by_cases h1 : i = 1
      · subst h1
        rfl
      · have hne0 : (0 : ℕ) ≠ i := Ne.symm h0
        have hne1 : (1 : ℕ) ≠ i := Ne.symm h1
        simp [sample_calls, h0, h1, sample_events, Event.at_index, Event.index, hne0, hne1]
  ids i j c d hc hd hid := by
    unfold sample_calls at hc hd
    split_ifs at hc hd with hi hj hj hi' hj hj'
    · exact hi.trans hj.symm
    · rw [← Option.some.inj hc, ← Option.some.inj hd] at hid
      exact absurd hid (by decide)
    · rw [← Option.some.inj hc, ← Option.some.inj hd] at hid
      exact absurd hid (by decide)
    · exact hi'.trans hj'.symm
  bounded := rfl
  listed entry hentry _ := by
    obtain ⟨c, hc, hitem⟩ := List.mem_map.1 (List.fst_mem_of_mem_zipIdx hentry)
    obtain rfl | rfl := hlisted c hc
    · exact ⟨0, sample_ls, rfl, hitem.symm⟩
    · exact ⟨1, sample_cat, rfl, hitem.symm⟩
  listed_bounded entry hentry := by
    have hlt := List.snd_lt_of_mem_zipIdx hentry
    have hmap : (listed.map Call.finished_item).length = listed.length := List.length_map _
    have hmax : 2 < USIZE_MAX := by decide
    change entry.2 < (listed.map Call.finished_item).length + 0 at hlt
    omega

set_option maxRecDepth 10000 in
/-- The texts carry the events and the list in full. -/
theorem sample_carries :
    Carries sample_from_str (sample_texts completed)
      (sample_events.map Event.line ++ (sample_ending [sample_ls, sample_cat]).lines) := by
  -- the texts are spelt out as characters before they are compared
  unfold Carries sample_texts sample_from_str added_0 added_1 delta_0 delta_1 completed shifted
    last_item sample_added sample_delta sample_completed sample_json
  simp only [List.map_cons, List.map_nil, List.flatMap_cons, List.flatMap_nil,
    String.toList_append, String.reduceToList, List.cons_append, List.nil_append]
  decide +kernel

set_option maxRecDepth 10000 in
/-- The texts carry the events and the list without its first element. -/
theorem sample_carries_shifted :
    Carries sample_from_str (sample_texts shifted)
      (sample_events.map Event.line ++ (sample_ending [sample_cat]).lines) := by
  unfold Carries sample_texts sample_from_str added_0 added_1 delta_0 delta_1 completed shifted
    last_item sample_added sample_delta sample_completed sample_json
  simp only [List.map_cons, List.map_nil, List.flatMap_cons, List.flatMap_nil,
    String.toList_append, String.reduceToList, List.cons_append, List.nil_append]
  decide +kernel

theorem calls_exact_sample :
    ∃ chunks, parse_stream falling sample_from_str ∅ ((sample_texts completed).map String.toList) =
        .ok chunks ∧
      (Exact sample_calls chunks ↔
        Aligned sample_calls (sample_ending [sample_ls, sample_cat])) := by
  exact calls_exact_iff falling sample_from_str sample_calls sample_events
    (sample_ending [sample_ls, sample_cat]) (sample_texts completed)
    (sample_streams (by simp) (by decide)) sample_carries

/-- The one element of the list is merged into the first call. -/
theorem shifted_list_merged :
    Streams sample_calls sample_events (sample_ending [sample_cat]) ∧
      Carries sample_from_str (sample_texts shifted)
        (sample_events.map Event.line ++ (sample_ending [sample_cat]).lines) ∧
      ¬ ∃ chunks, parse_stream falling sample_from_str ∅
        ((sample_texts shifted).map String.toList) = .ok chunks ∧ Exact sample_calls chunks := by
  refine ⟨sample_streams (by simp) (by decide), sample_carries_shifted, ?_⟩
  rintro ⟨chunks, hparse, hexact⟩
  rw [parse_stream_of_carries sample_carries_shifted (no_failure _ _), Except.ok.injEq] at hparse
  have hdeltas := hexact.deltas 0 sample_ls rfl
  rw [← hparse] at hdeltas
  exact absurd hdeltas (by decide +kernel)

end Querymt.Codex
