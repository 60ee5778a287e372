/-
`Provider/OpenAIStream.lean` -- the tool calls of a streamed answer of OpenAI.

Mirrors `parse_openai_sse_chunk` (`providers/openai/src/api.rs`), which other providers of
the same protocol use as well. The deltas of a tool call carry its index; the states of the
calls are kept in a map that all calls of the parser share, and the finish reason drains it.

# Two ends

An answer ends with a finish reason and again with the line `[DONE]`. Whether the end has
been reported is known within a call of the parser only, so a `[DONE]` in a later call is
reported once more (`second_end`).

# In which order the calls are completed

The map is drained in the order of its hashes, which is arbitrary here: with two indices it
can be the wrong one (`HashMaps.falling`).

The law holds exactly when neither matters (`assembled_iff`).
-/
import Querymt.Agent.Streaming
import Querymt.Library.Encodings
import Querymt.Library.HashMaps
import Querymt.Library.Parts
import Querymt.Library.Strings
import Querymt.Provider.HttpStream

set_option autoImplicit false

open Encodings Strings HashMaps

namespace Querymt.OpenAI

open Querymt.Agent (StreamChunk Usage FinishReason LLMError ToolCall FunctionCall)
open Querymt.Http (ChatStreamParser feed)

/-! ## 1. What a line of the stream says -/

structure OpenAIPromptTokensDetails where
  cached_tokens : ℕ
  deriving DecidableEq

structure OpenAICompletionTokensDetails where
  reasoning_tokens : ℕ
  deriving DecidableEq

/-- The usage as the API gives it; the misses of the cache are read by nothing. -/
structure OpenAIRawUsage where
  prompt_tokens : ℕ
  completion_tokens : ℕ
  prompt_tokens_details : Option OpenAIPromptTokensDetails
  completion_tokens_details : Option OpenAICompletionTokensDetails
  prompt_cache_hit_tokens : Option ℕ
  deriving DecidableEq

def OpenAIRawUsage.into_usage (u : OpenAIRawUsage) : Usage :=
  let openai_cached := (u.prompt_tokens_details.map fun d => d.cached_tokens).getD 0
  let deepseek_cached := u.prompt_cache_hit_tokens.getD 0
  let cache_read := max openai_cached deepseek_cached
  let reasoning := (u.completion_tokens_details.map fun d => d.reasoning_tokens).getD 0
  { input_tokens := u.prompt_tokens - cache_read
    output_tokens := u.completion_tokens - reasoning
    reasoning_tokens := reasoning
    cache_read := cache_read
    cache_write := 0 }

structure OpenAIStreamFunction where
  name : Option String
  arguments : String
  deriving DecidableEq

structure OpenAIStreamToolCall where
  index : Option ℕ
  id : Option String
  call_type : Option String
  function : OpenAIStreamFunction
  deriving DecidableEq

structure OpenAIStreamDelta where
  content : Option String
  thinking : Option String
  tool_calls : Option (List OpenAIStreamToolCall)
  deriving DecidableEq

structure OpenAIStreamChoice where
  index : ℕ
  delta : OpenAIStreamDelta
  finish_reason : Option String
  deriving DecidableEq

structure OpenAIStreamChunk where
  choices : List OpenAIStreamChoice
  usage : Option OpenAIRawUsage
  deriving DecidableEq

/-! ## 2. The parser -/

structure OpenAIToolUseState where
  id : String
  name : String
  arguments_buffer : String
  started : Bool
  deriving DecidableEq

/-- `OpenAIToolUseState::default`. -/
def OpenAIToolUseState.default : OpenAIToolUseState := ⟨"", "", "", false⟩

abbrev ToolStates := HashMap ℕ OpenAIToolUseState

/-- The index of a delta; the first one if it has none. -/
def OpenAIStreamToolCall.key (tc : OpenAIStreamToolCall) : ℕ := tc.index.getD 0

/-- What a delta makes of the state of its index, and what is emitted. -/
def receive (state : OpenAIToolUseState) (tc : OpenAIStreamToolCall) :
    List StreamChunk × OpenAIToolUseState :=
  let id := tc.id.getD state.id
  let name := tc.function.name.getD state.name
  let starts := tc.function.name.isSome && !state.started
  ((if starts then [.ToolUseStart tc.key id name] else []) ++
      (if tc.function.arguments = "" then []
        else [.ToolUseInputDelta tc.key tc.function.arguments]),
    { id := id
      name := name
      arguments_buffer := state.arguments_buffer ++ tc.function.arguments
      started := state.started || tc.function.name.isSome })

/-- `tool_states.entry(index).or_default()`, and the delta on it. -/
def tool_call_delta (m : ToolStates) (tc : OpenAIStreamToolCall) :
    List StreamChunk × ToolStates :=
  let r := receive ((m.lookup tc.key).getD OpenAIToolUseState.default) tc
  (r.1, m.insert tc.key r.2)

/-- A delta of text, unless it is empty. -/
def text_delta (chunk : String → StreamChunk) (delta : Option String) : List StreamChunk :=
  match delta with
  | some text => if text = "" then [] else [chunk text]
  | none => []

def complete (index : ℕ) (state : OpenAIToolUseState) : Option StreamChunk :=
  if state.started then
    some (.ToolUseComplete index
      ⟨state.id, "function", ⟨state.name, state.arguments_buffer⟩⟩)
  else none

def map_finish_reason (finish_reason : String) : FinishReason :=
  if finish_reason = "tool_calls" then .ToolCalls
  else if finish_reason = "stop" then .Stop
  else if finish_reason = "length" then .Length
  else if finish_reason = "content_filter" then .ContentFilter
  else .Unknown

section

variable (order : DrainOrder ℕ OpenAIToolUseState)

/-- The loop over `tool_states.drain()`. -/
def completions (m : ToolStates) : List StreamChunk :=
  (order.drain m).filterMap fun e => complete e.1 e.2

/-- One turn of the loop over the choices. -/
def process_choice (m : ToolStates) (choice : OpenAIStreamChoice) :
    List StreamChunk × ToolStates :=
  let tools := Parts.run tool_call_delta m (choice.delta.tool_calls.getD [])
  let results := text_delta .Thinking choice.delta.thinking ++
    text_delta .Text choice.delta.content ++ tools.1
  match choice.finish_reason with
  | none => (results, tools.2)
  | some finish_reason =>
      (results ++ completions order tools.2 ++ [.Done (map_finish_reason finish_reason)], ∅)

/-- What a line of JSON gives; the usage comes first. -/
def process_chunk (m : ToolStates) (c : OpenAIStreamChunk) : List StreamChunk × ToolStates :=
  let r := Parts.run (process_choice order) m c.choices
  ((c.usage.map fun u => StreamChunk.Usage u.into_usage).toList ++ r.1, r.2)

/-- Whether the line sets `done_emitted`. -/
def OpenAIStreamChunk.finishes (c : OpenAIStreamChunk) : Bool :=
  c.choices.any fun choice => choice.finish_reason.isSome

/-- What a line carries: nothing, or data. -/
def data_of (line : Str) : Option Str :=
  let line := trim line
  if "data: ".toList <+: line then some (line.drop 6) else none

variable (from_str : Str → Except String OpenAIStreamChunk)

/-- The loop over the lines. -/
def parse_lines : ToolStates → Bool → List StreamChunk → List Str →
    Except LLMError (List StreamChunk) × ToolStates
  | m, _, results, [] => (.ok results, m)
  | m, done_emitted, results, line :: rest =>
      if done_emitted then (.ok results, m)
      else
        match data_of line with
        | none => parse_lines m done_emitted results rest
        | some data =>
            if data = "[DONE]".toList then
              parse_lines ∅ true (results ++ completions order m ++ [.Done .Stop]) rest
            else
              match from_str data with
              | .error e =>
                  (.error (.ResponseFormatError ("Failed to parse OpenAI stream chunk: " ++ e)
                    (String.ofList data)), m)
              | .ok c =>
                  let r := process_chunk order m c
                  parse_lines r.2 c.finishes (results ++ r.1) rest

def parse_openai_sse_chunk (m : ToolStates) (chunk : List UInt8) :
    Except LLMError (List StreamChunk) × ToolStates :=
  if chunk.isEmpty then (.ok [], m)
  else parse_lines order from_str m false [] (lines (from_utf8_lossy chunk))

/-- `OpenAIStreamParser`; `finish` is the default of the trait. -/
def chat_stream_impl : ChatStreamParser ToolStates StreamChunk LLMError where
  parse_chunk := parse_openai_sse_chunk order from_str
  finish := fun m => (.ok [], m)

end

/-! ## 3. The lines of an answer -/

inductive Line where
  | chunk (c : OpenAIStreamChunk)
  | done
  deriving DecidableEq

/-- Whether it is the line with the finish reason. -/
def Line.finishes : Line → Bool
  | chunk c => c.finishes
  | done => false

def read (from_str : Str → Except String OpenAIStreamChunk) (data : Str) : Except String Line :=
  if data = "[DONE]".toList then .ok .done else (from_str data).map .chunk

/-- What the lines with data say, when all of them can be read. -/
def Carries (from_str : Str → Except String OpenAIStreamChunk) (ls : List Str)
    (group : List Line) : Prop :=
  ls.filterMap (fun line => (data_of line).map (read from_str)) = group.map .ok

/-- A tool call that the answer makes. -/
structure Call where
  id : String
  name : String
  arguments : String
  deriving DecidableEq

/-- The deltas of a call: the first one names it. -/
structure Call.Deltas (call : Call) (first : OpenAIStreamToolCall)
    (more : List OpenAIStreamToolCall) : Prop where
  id : first.id = some call.id
  name : first.function.name = some call.name
  unnamed : ∀ tc ∈ more, tc.id = none ∧ tc.function.name = none
  arguments : call.arguments = String.join ((first :: more).map fun tc => tc.function.arguments)

def OpenAIStreamChunk.tool_deltas (c : OpenAIStreamChunk) : List OpenAIStreamToolCall :=
  c.choices.flatMap fun choice => choice.delta.tool_calls.getD []

/-- The lines of an answer of one choice: deltas, the finish reason, and after it usage and
`[DONE]`. -/
structure Answer where
  body : List OpenAIStreamChunk
  last : OpenAIStreamChunk
  finish_reason : String
  tail : List Line
  body_open : ∀ c ∈ body, c.finishes = false
  last_choice : ∃ choice, last.choices = [choice] ∧ choice.finish_reason = some finish_reason
  tail_quiet : ∀ line ∈ tail, line = .done ∨ ∃ usage, line = .chunk ⟨[], usage⟩

namespace Answer

variable (a : Answer)

def lines : List Line := a.body.map .chunk ++ .chunk a.last :: a.tail

def tool_deltas : List OpenAIStreamToolCall :=
  (a.body ++ [a.last]).flatMap OpenAIStreamChunk.tool_deltas

/-- The calls that its deltas make, whatever the order in which they come. -/
def Makes (calls : ℕ → Option Call) : Prop :=
  ∀ i,
    match calls i, a.tool_deltas.filter (fun tc => decide (tc.key = i)) with
    | none, tcs => tcs = []
    | some _, [] => False
    | some call, first :: more => call.Deltas first more

end Answer

/-! ## 4. The law and the condition -/

def start_at (i : ℕ) : StreamChunk → Option (String × String)
  | .ToolUseStart index id name => if index = i then some (id, name) else none
  | _ => none

def completion_at (i : ℕ) : StreamChunk → Option ToolCall
  | .ToolUseComplete index tool_call => if index = i then some tool_call else none
  | _ => none

def completed : StreamChunk → Option ℕ
  | .ToolUseComplete index _ => some index
  | _ => none

/-- **Tool calls are assembled exactly**: each index is started and completed once, in order, and
the end is reported once, with usage behind it only. -/
structure Assembled (calls : ℕ → Option Call) (finish_reason : String)
    (chunks : List StreamChunk) : Prop where
  starts : ∀ i, chunks.filterMap (start_at i) = ((calls i).map fun c => (c.id, c.name)).toList
  completions : ∀ i, chunks.filterMap (completion_at i) =
    ((calls i).map fun c => (⟨c.id, "function", ⟨c.name, c.arguments⟩⟩ : ToolCall)).toList
  increasing : (chunks.filterMap completed).Pairwise (· < ·)
  one_end : ∃ front back, chunks = front ++ .Done (map_finish_reason finish_reason) :: back ∧
    (∀ c ∈ front, c.finish_reason = none) ∧ ∀ c ∈ back, ∃ usage, c = .Usage usage

/-- The calls of the parser after the one that has the finish reason. -/
def later (groups : List (List Line)) : List (List Line) :=
  (groups.dropWhile fun group => !group.any Line.finishes).tail

/-- **The condition**: at most one index, and no `[DONE]` after the call with the finish
reason. -/
structure Plain (calls : ℕ → Option Call) (groups : List (List Line)) : Prop where
  one_index : ∀ i j, (calls i).isSome → (calls j).isSome → i = j
  no_late_end : .done ∉ (later groups).flatten

/-! ## 5. One index of the map -/

/-- What a delta of an index does to its state. -/
def act (state : Option OpenAIToolUseState) (tc : OpenAIStreamToolCall) :
    Option OpenAIToolUseState :=
  some (receive (state.getD OpenAIToolUseState.default) tc).2

def own (i : ℕ) (tc : OpenAIStreamToolCall) : Bool := decide (tc.key = i)

theorem tool_call_delta_local (i : ℕ) :
    Parts.Local tool_call_delta (fun m => m.lookup i) (own i) act where
  mine := by
    intro m tc hown
    have hkey : tc.key = i := of_decide_eq_true hown
    subst hkey
    exact AList.lookup_insert m
  others := by
    intro m tc hown
    have hkey : i ≠ tc.key := Ne.symm (of_decide_eq_false hown)
    exact AList.lookup_insert_ne hkey

/-- The state of a call that has received all its deltas. -/
def Call.state (call : Call) : OpenAIToolUseState := ⟨call.id, call.name, call.arguments, true⟩

section

variable {call : Call} {first : OpenAIStreamToolCall} {more : List OpenAIStreamToolCall} {i : ℕ}

/-- Deltas without a name only add arguments. -/
theorem act_unnamed (h : ∀ tc ∈ more, tc.id = none ∧ tc.function.name = none)
    (state : OpenAIToolUseState) :
    more.foldl act (some state) =
      some { state with arguments_buffer :=
        state.arguments_buffer ++ String.join (more.map fun tc => tc.function.arguments) } := by
  induction more generalizing state with
  | nil => rw [List.foldl_nil, List.map_nil, String.join_nil, String.append_empty]
  | cons tc more ih =>
      obtain ⟨hid, hname⟩ := h tc List.mem_cons_self
      rw [List.foldl_cons, act, ih fun tc' htc' => h tc' (List.mem_cons_of_mem tc htc'),
        List.map_cons, String.join_cons, ← String.append_assoc]
      simp [receive, hid, hname]

/-- The deltas of a call make its state. -/
theorem act_deltas (h : call.Deltas first more) :
    (first :: more).foldl act none = some call.state := by
  have hstart : act none first =
      some ⟨call.id, call.name, first.function.arguments, true⟩ := by
    simp [act, receive, OpenAIToolUseState.default, h.id, h.name]
  rw [List.foldl_cons, hstart, act_unnamed h.unnamed, Call.state, h.arguments, List.map_cons,
    String.join_cons]

/-- What a delta starts. -/
def starts (state : Option OpenAIToolUseState) (tc : OpenAIStreamToolCall) :
    List (String × String) :=
  let state := state.getD OpenAIToolUseState.default
  if tc.function.name.isSome && !state.started then
    [(tc.id.getD state.id, tc.function.name.getD state.name)]
  else []

theorem receive_start (state : OpenAIToolUseState) (tc : OpenAIStreamToolCall) :
    (receive state tc).1.filterMap (start_at i) =
      if tc.key = i then starts (some state) tc else [] := by
  have hdelta : (if tc.function.arguments = "" then []
      else [StreamChunk.ToolUseInputDelta tc.key tc.function.arguments]).filterMap (start_at i) =
      [] := by
    split <;> rfl
  rw [receive, List.filterMap_append, hdelta, List.append_nil, starts, Option.getD_some]
  by_cases hnamed : (tc.function.name.isSome && !state.started) = true
  · rw [if_pos hnamed, if_pos hnamed]
    by_cases hkey : tc.key = i <;> simp [start_at, hkey]
  · rw [if_neg hnamed, if_neg hnamed, List.filterMap_nil, ite_self]

theorem starts_unnamed (h : ∀ tc ∈ more, tc.id = none ∧ tc.function.name = none)
    (state : Option OpenAIToolUseState) :
    (Parts.run (fun t tc => (starts t tc, act t tc)) state more).1 = [] := by
  induction more generalizing state with
  | nil => rfl
  | cons tc more ih =>
      have hname := (h tc List.mem_cons_self).2
      rw [Parts.run, ih fun tc' htc' => h tc' (List.mem_cons_of_mem tc htc'), List.append_nil]
      simp [starts, hname]

/-- The first delta of a call starts it, and no other. -/
theorem starts_deltas (h : call.Deltas first more) :
    (Parts.run (fun t tc => (starts t tc, act t tc)) none (first :: more)).1 =
      [(call.id, call.name)] := by
  rw [Parts.run, starts_unnamed h.unnamed, List.append_nil]
  simp [starts, OpenAIToolUseState.default, h.id, h.name]

/-- Deltas complete nothing, and end nothing. -/
theorem receive_silent {state : OpenAIToolUseState} {tc : OpenAIStreamToolCall} {c : StreamChunk}
    (h : c ∈ (receive state tc).1) :
    completion_at i c = none ∧ completed c = none ∧ c.finish_reason = none := by
  rw [receive] at h
  rcases List.mem_append.1 h with h | h
  · split at h
    · rw [List.mem_singleton.1 h]
      exact ⟨rfl, rfl, rfl⟩
    · cases h
  · split at h
    · cases h
    · rw [List.mem_singleton.1 h]
      exact ⟨rfl, rfl, rfl⟩

theorem tool_deltas_silent {m : ToolStates} {tcs : List OpenAIStreamToolCall} {c : StreamChunk}
    (h : c ∈ (Parts.run tool_call_delta m tcs).1) :
    completion_at i c = none ∧ completed c = none ∧ c.finish_reason = none := by
  induction tcs generalizing m with
  | nil => cases h
  | cons tc tcs ih =>
      rcases List.mem_append.1 h with h | h
      · exact receive_silent h
      · exact ih h

end

section

variable {a : Answer} {calls : ℕ → Option Call}

/-- All the deltas of an answer, one after the other. -/
def Answer.tools (a : Answer) : List StreamChunk × ToolStates :=
  Parts.run tool_call_delta ∅ a.tool_deltas

theorem Answer.Makes.cases (h : a.Makes calls) (i : ℕ) :
    (calls i = none ∧ a.tool_deltas.filter (own i) = []) ∨
      ∃ call first more, calls i = some call ∧
        a.tool_deltas.filter (own i) = first :: more ∧ call.Deltas first more := by
  have hi := h i
  unfold own
  cases hcall : calls i with
  | none =>
      rw [hcall] at hi
      exact .inl ⟨rfl, hi⟩
  | some call =>
      rw [hcall] at hi
      cases htcs : a.tool_deltas.filter fun tc => decide (tc.key = i) with
      | nil =>
          rw [htcs] at hi
          cases hi
      | cons first more =>
          rw [htcs] at hi
          exact .inr ⟨call, first, more, rfl, rfl, hi⟩

/-- At the end the map has the calls that the answer makes. -/
theorem lookup_tools (h : a.Makes calls) (i : ℕ) :
    a.tools.2.lookup i = (calls i).map Call.state := by
  rw [Answer.tools, Parts.part_run (tool_call_delta_local i), AList.lookup_empty]
  obtain ⟨hcall, htcs⟩ | ⟨call, first, more, hcall, htcs, hdeltas⟩ := h.cases i
  · rw [hcall, htcs]
    rfl
  · rw [hcall, htcs]
    exact act_deltas hdeltas

/-- Each call has been started once. -/
theorem starts_tools (h : a.Makes calls) (i : ℕ) :
    a.tools.1.filterMap (start_at i) = ((calls i).map fun c => (c.id, c.name)).toList := by
  have hmine : ∀ (m : ToolStates) tc, own i tc = true →
      (tool_call_delta m tc).1.filterMap (start_at i) = starts (m.lookup i) tc := by
    intro m tc hown
    have hkey : tc.key = i := of_decide_eq_true hown
    rw [tool_call_delta, receive_start, if_pos hkey, hkey]
    rfl
  have hothers : ∀ (m : ToolStates) tc, own i tc = false →
      (tool_call_delta m tc).1.filterMap (start_at i) = [] := by
    intro m tc hown
    rw [tool_call_delta, receive_start, if_neg (of_decide_eq_false hown)]
  rw [Answer.tools, Parts.part_emits (tool_call_delta_local i) hmine hothers, AList.lookup_empty]
  obtain ⟨hcall, htcs⟩ | ⟨call, first, more, hcall, htcs, hdeltas⟩ := h.cases i
  · rw [hcall, htcs]
    rfl
  · rw [hcall, htcs, starts_deltas hdeltas]
    rfl

/-! ## 6. The drained map -/

variable {order : DrainOrder ℕ OpenAIToolUseState}

theorem completions_empty : completions order ∅ = [] := by
  rw [completions, drain_empty]
  rfl

theorem mem_completions {m : ToolStates} {c : StreamChunk} (h : c ∈ completions order m) :
    ∃ index tool_call, c = .ToolUseComplete index tool_call := by
  obtain ⟨e, -, he⟩ := List.mem_filterMap.1 h
  unfold complete at he
  split at he
  · exact ⟨_, _, (Option.some.inj he).symm⟩
  · cases he

/-- Each call is completed once. -/
theorem completions_tools (h : a.Makes calls) (i : ℕ) :
    (completions order a.tools.2).filterMap (completion_at i) =
      ((calls i).map fun c => (⟨c.id, "function", ⟨c.name, c.arguments⟩⟩ : ToolCall)).toList := by
  let g := fun s : OpenAIToolUseState => if s.started then
    some (⟨s.id, "function", ⟨s.name, s.arguments_buffer⟩⟩ : ToolCall) else none
  have hat : (fun e : (Σ _ : ℕ, OpenAIToolUseState) =>
      (complete e.1 e.2).bind (completion_at i)) = at_key i g := by
    funext e
    rw [complete, at_key]
    by_cases hstarted : e.2.started = true
    · rw [if_pos hstarted]
      by_cases hkey : e.1 = i <;> simp [completion_at, g, hkey, hstarted]
    · rw [if_neg hstarted]
      by_cases hkey : e.1 = i <;> simp [g, hkey, hstarted]
  rw [completions, List.filterMap_filterMap, hat, drain_at, lookup_tools h]
  cases calls i <;> rfl

/-- The indices that are completed are those of the map, in the order in which it is drained. -/
theorem completed_completions (h : a.Makes calls) :
    (completions order a.tools.2).filterMap completed = (order.drain a.tools.2).map Sigma.fst := by
  rw [completions, List.filterMap_filterMap, ← List.filterMap_eq_map]
  apply List.filterMap_congr
  intro e he
  have hlookup : a.tools.2.lookup e.1 = some e.2 :=
    AList.mem_lookup_iff.2 ((order.perm a.tools.2).mem_iff.1 he)
  rw [lookup_tools h] at hlookup
  obtain ⟨call, -, hstate⟩ := Option.map_eq_some_iff.1 hlookup
  rw [← hstate]
  rfl

theorem mem_tools_iff (h : a.Makes calls) (i : ℕ) : i ∈ a.tools.2 ↔ (calls i).isSome := by
  rw [← AList.lookup_isSome, lookup_tools h, Option.isSome_map]

/-- Draining is in order whatever the hashes, exactly when there is nothing to order. -/
theorem increasing_iff (h : a.Makes calls) :
    (∀ order, ((completions order a.tools.2).filterMap completed).Pairwise (· < ·)) ↔
      ∀ i j, (calls i).isSome → (calls j).isSome → i = j := by
  constructor
  · intro hall i j hi hj
    have hup := hall falling
    have hdown := (@List.pairwise_map _ _ Sigma.fst (fun x y => y ≤ x) _).2
      (falling_sorted a.tools.2)
    rw [completed_completions h] at hup
    have himem := (mem_drain_keys falling a.tools.2).2 ((mem_tools_iff h i).2 hi)
    have hjmem := (mem_drain_keys falling a.tools.2).2 ((mem_tools_iff h j).2 hj)
    revert hup hdown himem hjmem
    generalize (falling.drain a.tools.2).map Sigma.fst = keys
    intro hup hdown himem hjmem
    rcases keys with _ | ⟨k, _ | ⟨k', keys⟩⟩
    · cases himem
    · rw [List.mem_singleton.1 himem, List.mem_singleton.1 hjmem]
    · -- two keys would have to rise and to fall
      have hlt := (List.pairwise_cons.1 hup).1 k' List.mem_cons_self
      have hle := (List.pairwise_cons.1 hdown).1 k' List.mem_cons_self
      omega
  · intro hone order
    rw [completed_completions h]
    have hnodup : ((order.drain a.tools.2).map Sigma.fst).Nodup :=
      ((order.perm a.tools.2).map Sigma.fst).nodup_iff.2 a.tools.2.keys_nodup
    apply List.Pairwise.imp_of_mem _ hnodup
    intro i j hi hj hne
    have hi := (mem_tools_iff h i).1 ((mem_drain_keys order a.tools.2).1 hi)
    have hj := (mem_tools_iff h j).1 ((mem_drain_keys order a.tools.2).1 hj)
    exact absurd (hone i j hi hj) hne

end

/-! ## 7. Lines without an end -/

/-- What a reader of the chunks makes nothing of: text, thinking and usage. -/
structure Skips {α : Type} (f : StreamChunk → Option α) : Prop where
  text : ∀ t, f (.Text t) = none
  thinking : ∀ t, f (.Thinking t) = none
  usage : ∀ u, f (.Usage u) = none

theorem skips_start (i : ℕ) : Skips (start_at i) := ⟨fun _ => rfl, fun _ => rfl, fun _ => rfl⟩

theorem skips_completion (i : ℕ) : Skips (completion_at i) :=
  ⟨fun _ => rfl, fun _ => rfl, fun _ => rfl⟩

theorem skips_completed : Skips completed := ⟨fun _ => rfl, fun _ => rfl, fun _ => rfl⟩

theorem skips_finish_reason : Skips StreamChunk.finish_reason :=
  ⟨fun _ => rfl, fun _ => rfl, fun _ => rfl⟩

section

variable {order : DrainOrder ℕ OpenAIToolUseState} {α : Type} {f : StreamChunk → Option α}

theorem filterMap_text_delta {chunk : String → StreamChunk} (h : ∀ t, f (chunk t) = none)
    (delta : Option String) : (text_delta chunk delta).filterMap f = [] := by
  unfold text_delta
  cases delta with
  | none => rfl
  | some text =>
      dsimp only
      split
      · rfl
      · rw [List.filterMap_cons_none (h text)]
        rfl

/-- A choice without an end is its deltas. -/
theorem open_choice (hf : Skips f) {choice : OpenAIStreamChoice}
    (hopen : choice.finish_reason = none) (m : ToolStates) :
    (process_choice order m choice).1.filterMap f =
        (Parts.run tool_call_delta m (choice.delta.tool_calls.getD [])).1.filterMap f ∧
      (process_choice order m choice).2 =
        (Parts.run tool_call_delta m (choice.delta.tool_calls.getD [])).2 := by
  rw [process_choice, hopen]
  refine ⟨?_, rfl⟩
  rw [List.filterMap_append, List.filterMap_append, filterMap_text_delta hf.thinking,
    filterMap_text_delta hf.text]
  rfl

theorem filterMap_usage (hf : Skips f) (usage : Option OpenAIRawUsage) :
    ((usage.map fun u => StreamChunk.Usage u.into_usage).toList).filterMap f = [] := by
  cases usage with
  | none => rfl
  | some u => exact List.filterMap_cons_none (hf.usage _)

theorem open_chunk (hf : Skips f) {c : OpenAIStreamChunk} (hopen : c.finishes = false)
    (m : ToolStates) :
    (process_chunk order m c).1.filterMap f =
        (Parts.run tool_call_delta m c.tool_deltas).1.filterMap f ∧
      (process_chunk order m c).2 = (Parts.run tool_call_delta m c.tool_deltas).2 := by
  have hall : ∀ choice ∈ c.choices, choice.finish_reason = none := by
    intro choice hc
    have hnot := List.any_eq_false.1 hopen choice hc
    rwa [Option.isSome_iff_ne_none, not_not] at hnot
  rw [process_chunk, List.filterMap_append, filterMap_usage hf, List.nil_append]
  exact Parts.run_flatMap (fun m choice hc => open_choice hf (hall choice hc) m) m

theorem open_chunks (order : DrainOrder ℕ OpenAIToolUseState) (hf : Skips f)
    {cs : List OpenAIStreamChunk}
    (hopen : ∀ c ∈ cs, c.finishes = false) (m : ToolStates) :
    (Parts.run (process_chunk order) m cs).1.filterMap f =
        (Parts.run tool_call_delta m (cs.flatMap OpenAIStreamChunk.tool_deltas)).1.filterMap f ∧
      (Parts.run (process_chunk order) m cs).2 =
        (Parts.run tool_call_delta m (cs.flatMap OpenAIStreamChunk.tool_deltas)).2 :=
  Parts.run_flatMap (fun m c hc => open_chunk hf (hopen c hc) m) m

end

section

variable {order : DrainOrder ℕ OpenAIToolUseState} {a : Answer} {calls : ℕ → Option Call}

/-- The line with the finish reason: its deltas, the finished calls, and the end. -/
theorem last_chunk (order : DrainOrder ℕ OpenAIToolUseState) (a : Answer) (m : ToolStates) :
    ∃ front, (∀ {α : Type} {f : StreamChunk → Option α}, Skips f → front.filterMap f =
        (Parts.run tool_call_delta m a.last.tool_deltas).1.filterMap f) ∧
      process_chunk order m a.last =
        (front ++ completions order (Parts.run tool_call_delta m a.last.tool_deltas).2 ++
          [.Done (map_finish_reason a.finish_reason)], ∅) := by
  obtain ⟨choice, hchoices, hreason⟩ := a.last_choice
  have htools : a.last.tool_deltas = choice.delta.tool_calls.getD [] := by
    rw [OpenAIStreamChunk.tool_deltas, hchoices, List.flatMap_singleton]
  refine ⟨(a.last.usage.map fun u => StreamChunk.Usage u.into_usage).toList ++
    (text_delta .Thinking choice.delta.thinking ++ text_delta .Text choice.delta.content ++
      (Parts.run tool_call_delta m a.last.tool_deltas).1), ?_, ?_⟩
  · intro α f hf
    rw [List.filterMap_append, filterMap_usage hf, List.filterMap_append, List.filterMap_append,
      filterMap_text_delta hf.thinking, filterMap_text_delta hf.text]
    rfl
  · rw [process_chunk, hchoices, Parts.run, Parts.run, process_choice, hreason, htools]
    simp only [List.append_assoc, List.append_nil]

theorem last_finishes (a : Answer) : a.last.finishes = true := by
  obtain ⟨choice, hchoices, hreason⟩ := a.last_choice
  simp [OpenAIStreamChunk.finishes, hchoices, hreason]

/-- **Up to the end**, an answer gives what its tool deltas give, the completions and the
end. -/
theorem up_to_end (order : DrainOrder ℕ OpenAIToolUseState) (a : Answer) :
    ∃ front, (∀ {α : Type} {f : StreamChunk → Option α}, Skips f →
        front.filterMap f = a.tools.1.filterMap f) ∧
      Parts.run (process_chunk order) ∅ (a.body ++ [a.last]) =
        (front ++ completions order a.tools.2 ++
          [.Done (map_finish_reason a.finish_reason)], ∅) := by
  have hbody {α : Type} {f : StreamChunk → Option α} (hf : Skips f) :=
    open_chunks order hf a.body_open ∅
  obtain ⟨front, hfront, hlast⟩ := last_chunk order a
    (Parts.run (process_chunk order) ∅ a.body).2
  have htools : a.tools = ((Parts.run tool_call_delta ∅
        (a.body.flatMap OpenAIStreamChunk.tool_deltas)).1 ++
      (Parts.run tool_call_delta (Parts.run (process_chunk order) ∅ a.body).2
        a.last.tool_deltas).1,
      (Parts.run tool_call_delta (Parts.run (process_chunk order) ∅ a.body).2
        a.last.tool_deltas).2) := by
    rw [Answer.tools, Answer.tool_deltas, List.flatMap_append, List.flatMap_singleton,
      Parts.run_append, (hbody skips_completed).2]
  refine ⟨(Parts.run (process_chunk order) ∅ a.body).1 ++ front, ?_, ?_⟩
  · intro α f hf
    rw [List.filterMap_append, (hbody hf).1, hfront hf, htools, List.filterMap_append]
  · rw [Parts.run_append, Parts.run, Parts.run, hlast, htools]
    simp only [List.append_assoc, List.append_nil]

/-! ## 8. Calls of the parser -/

/-- What the lines of one call give: those after an end are not read. -/
def group_run (order : DrainOrder ℕ OpenAIToolUseState) : ToolStates → List Line →
    List StreamChunk × ToolStates
  | m, [] => ([], m)
  | m, .done :: _ => (completions order m ++ [.Done .Stop], ∅)
  | m, .chunk c :: rest =>
      let r := process_chunk order m c
      if c.finishes then r
      else (r.1 ++ (group_run order r.2 rest).1, (group_run order r.2 rest).2)

/-- Lines before the end, and then others. -/
theorem group_run_open (order : DrainOrder ℕ OpenAIToolUseState)
    {cs : List OpenAIStreamChunk} (hopen : ∀ c ∈ cs, c.finishes = false)
    (m : ToolStates) (rest : List Line) :
    group_run order m (cs.map .chunk ++ rest) =
      ((Parts.run (process_chunk order) m cs).1 ++
          (group_run order (Parts.run (process_chunk order) m cs).2 rest).1,
        (group_run order (Parts.run (process_chunk order) m cs).2 rest).2) := by
  induction cs generalizing m with
  | nil => rfl
  | cons c cs ih =>
      have hc := hopen c List.mem_cons_self
      have hrest := ih fun c' h => hopen c' (List.mem_cons_of_mem c h)
      rw [List.map_cons, List.cons_append, group_run, hrest]
      simp [hc, Parts.run]

/-- Calls before the one with the end. -/
theorem groups_run_open {groups : List (List Line)} {cs : List OpenAIStreamChunk}
    (hopen : ∀ c ∈ cs, c.finishes = false) (hflat : groups.flatten = cs.map .chunk)
    (m : ToolStates) :
    Parts.run (group_run order) m groups = Parts.run (process_chunk order) m cs := by
  induction groups generalizing cs m with
  | nil =>
      rw [List.map_eq_nil_iff.1 hflat.symm]
      rfl
  | cons group groups ih =>
      rw [List.flatten_cons] at hflat
      obtain ⟨front, back, rfl, hfront, hback⟩ := List.append_eq_map_iff.1 hflat
      have hgroup := group_run_open order
        (fun c hc => hopen c (List.mem_append_left back hc)) m []
      rw [List.append_nil, hfront] at hgroup
      rw [Parts.run, hgroup, ih (fun c hc => hopen c (List.mem_append_right front hc)) hback.symm,
        Parts.run_append, group_run, List.append_nil]

/-- What is left to come after the end. -/
def QuietLine (line : Line) : Prop := line = .done ∨ ∃ usage, line = .chunk ⟨[], usage⟩

/-- What a call after the end gives: usage, and an end if it has the line for one. -/
structure QuietRun (ls : List Line) (r : List StreamChunk × ToolStates) : Prop where
  state : r.2 = ∅
  chunks : ∀ c ∈ r.1, (∃ usage, c = .Usage usage) ∨ c = .Done .Stop
  done_iff : .Done .Stop ∈ r.1 ↔ Line.done ∈ ls

theorem quiet_group (order : DrainOrder ℕ OpenAIToolUseState)
    {group : List Line} (h : ∀ line ∈ group, QuietLine line) :
    QuietRun group (group_run order ∅ group) := by
  induction group with
  | nil => exact ⟨rfl, fun c hc => absurd hc List.not_mem_nil, by simp [group_run]⟩
  | cons line group ih =>
      have hrest := ih fun l hl => h l (List.mem_cons_of_mem line hl)
      rcases h line List.mem_cons_self with rfl | ⟨usage, rfl⟩
      · rw [group_run, completions_empty]
        exact ⟨rfl, fun c hc => .inr (List.mem_singleton.1 hc), by simp⟩
      · have hstep : group_run order ∅ (.chunk ⟨[], usage⟩ :: group) =
            ((usage.map fun u => StreamChunk.Usage u.into_usage).toList ++
              (group_run order ∅ group).1, (group_run order ∅ group).2) := by
          simp [group_run, process_chunk, OpenAIStreamChunk.finishes, Parts.run]
        have husage : ∀ c ∈ (usage.map fun u => StreamChunk.Usage u.into_usage).toList,
            ∃ u, c = .Usage u := by
          intro c hc
          obtain ⟨u, -, rfl⟩ := Option.map_eq_some_iff.1 (Option.mem_toList.1 hc)
          exact ⟨_, rfl⟩
        rw [hstep]
        refine ⟨hrest.state, ?_, ?_⟩
        · intro c hc
          rcases List.mem_append.1 hc with hc | hc
          · exact .inl (husage c hc)
          · exact hrest.chunks c hc
        · have hnot : .Done .Stop ∉ (usage.map fun u => StreamChunk.Usage u.into_usage).toList := by
            intro hmem
            obtain ⟨u, hu⟩ := husage _ hmem
            cases hu
          rw [List.mem_append, hrest.done_iff, List.mem_cons]
          simp [hnot]

theorem quiet_groups (order : DrainOrder ℕ OpenAIToolUseState)
    {groups : List (List Line)} (h : ∀ line ∈ groups.flatten, QuietLine line) :
    QuietRun groups.flatten (Parts.run (group_run order) ∅ groups) := by
  induction groups with
  | nil => exact ⟨rfl, fun c hc => absurd hc List.not_mem_nil, by simp [Parts.run]⟩
  | cons group groups ih =>
      rw [List.flatten_cons] at h
      have hgroup := quiet_group order fun l hl => h l (List.mem_append_left _ hl)
      have hrest := ih fun l hl => h l (List.mem_append_right _ hl)
      rw [Parts.run, hgroup.state, List.flatten_cons]
      refine ⟨hrest.state, ?_, ?_⟩
      · intro c hc
        rcases List.mem_append.1 hc with hc | hc
        · exact hgroup.chunks c hc
        · exact hrest.chunks c hc
      · rw [List.mem_append, List.mem_append, hgroup.done_iff, hrest.done_iff]

/-- The calls before the one with the end, and those after it. -/
theorem later_eq {before after : List (List Line)} {pre post : List Line} {fin : Line}
    (hopen : ∀ line ∈ before.flatten, line.finishes = false) (hfin : fin.finishes = true) :
    later (before ++ (pre ++ fin :: post) :: after) = after := by
  have hbefore : ∀ group ∈ before, (!group.any Line.finishes) = true := by
    intro group hgroup
    rw [Bool.not_eq_true', List.any_eq_false]
    intro line hline
    rw [hopen line (List.mem_flatten.2 ⟨group, hgroup, hline⟩)]
    exact Bool.false_ne_true
  have hany : (pre ++ fin :: post).any Line.finishes = true :=
    List.any_eq_true.2 ⟨fin, List.mem_append_right _ List.mem_cons_self, hfin⟩
  rw [later, List.dropWhile_append_of_pos hbefore, List.dropWhile_cons_of_neg (by rw [hany]; simp),
    List.tail_cons]

/-- **What all the calls give**: what comes up to the end, and what the calls after it give. -/
theorem groups_run (order : DrainOrder ℕ OpenAIToolUseState)
    {groups : List (List Line)} (hgroups : groups.flatten = a.lines) :
    (Parts.run (group_run order) ∅ groups).1 =
        (Parts.run (process_chunk order) ∅ (a.body ++ [a.last])).1 ++
          (Parts.run (group_run order) ∅ (later groups)).1 ∧
      ∀ line ∈ (later groups).flatten, QuietLine line := by
  obtain ⟨before, pre, post, after, rfl, hfront, hback⟩ := Parts.split_groups hgroups
  obtain ⟨cs, cs', hbody, hbefore, hpre⟩ := List.append_eq_map_iff.1 hfront
  have hopen := a.body_open
  rw [hbody] at hopen
  have hlater : later (before ++ (pre ++ .chunk a.last :: post) :: after) = after := by
    have hlast : (Line.chunk a.last).finishes = true := last_finishes a
    apply later_eq _ hlast
    intro line hline
    rw [← hbefore] at hline
    obtain ⟨c, hc, rfl⟩ := List.mem_map.1 hline
    exact hopen c (List.mem_append_left cs' hc)
  have hmiddle := group_run_open order
    (fun c hc => hopen c (List.mem_append_right cs hc))
    (Parts.run (process_chunk order) ∅ cs).2 (.chunk a.last :: post)
  rw [hlater]
  constructor
  · obtain ⟨front, -, hend⟩ := up_to_end order a
    have hempty : (Parts.run (process_chunk order) ∅ (a.body ++ [a.last])).2 = ∅ := by rw [hend]
    have hfin (m : ToolStates) : group_run order m (.chunk a.last :: post) =
        process_chunk order m a.last := by
      rw [group_run]
      exact if_pos (last_finishes a)
    have hwhole : Parts.run (process_chunk order) ∅ (a.body ++ [a.last]) =
        ((Parts.run (process_chunk order) ∅ cs).1 ++
          ((Parts.run (process_chunk order) (Parts.run (process_chunk order) ∅ cs).2 cs').1 ++
            (process_chunk order (Parts.run (process_chunk order)
              (Parts.run (process_chunk order) ∅ cs).2 cs').2 a.last).1),
          (process_chunk order (Parts.run (process_chunk order)
            (Parts.run (process_chunk order) ∅ cs).2 cs').2 a.last).2) := by
      rw [hbody, Parts.run_append, Parts.run_append, Parts.run, Parts.run, List.append_nil,
        List.append_assoc]
    rw [hwhole] at hempty ⊢
    rw [Parts.run_append, groups_run_open (fun c hc => hopen c (List.mem_append_left cs' hc))
      hbefore.symm, Parts.run, ← hpre, hmiddle, hfin, hempty]
    simp only [List.append_assoc]
  · intro line hline
    apply a.tail_quiet
    rw [← hback]
    exact List.mem_append_right post hline

end

/-! ## 9. From the bytes -/

section

variable {order : DrainOrder ℕ OpenAIToolUseState}
  {from_str : Str → Except String OpenAIStreamChunk} {m : ToolStates}

theorem parse_lines_done (results : List StreamChunk) (ls : List Str) :
    parse_lines order from_str m true results ls = (.ok results, m) := by
  cases ls <;> simp [parse_lines]

theorem parse_lines_of_carries {ls : List Str} {group : List Line} (h : Carries from_str ls group)
    (results : List StreamChunk) :
    parse_lines order from_str m false results ls =
      (.ok (results ++ (group_run order m group).1), (group_run order m group).2) := by
  induction ls generalizing m group results with
  | nil =>
      have hgroup : group = [] := List.map_eq_nil_iff.1 h.symm
      rw [hgroup, parse_lines, group_run, List.append_nil]
  | cons line ls ih =>
      rw [parse_lines, if_neg Bool.false_ne_true]
      cases hdata : data_of line with
      | none =>
          apply ih
          rwa [Carries, List.filterMap_cons, hdata] at h
      | some data =>
          rw [Carries, List.filterMap_cons, hdata] at h
          obtain ⟨l, group, rfl, hl, hrest⟩ := List.map_eq_cons_iff.1 h.symm
          dsimp only
          rw [read] at hl
          by_cases hdone : data = "[DONE]".toList
          · rw [if_pos hdone] at hl ⊢
            cases hl
            rw [parse_lines_done, group_run, List.append_assoc]
          · rw [if_neg hdone] at hl ⊢
            cases hc : from_str data with
            | error e =>
                rw [hc] at hl
                cases hl
            | ok c =>
                rw [hc] at hl
                cases hl
                dsimp only
                rw [group_run]
                by_cases hfinishes : c.finishes = true
                · rw [hfinishes, parse_lines_done]
                  rfl
                · rw [Bool.not_eq_true] at hfinishes
                  rw [hfinishes, ih hrest.symm, List.append_assoc]
                  rfl

theorem parse_chunk_of_carries {text : String} {group : List Line}
    (h : Carries from_str (lines text.toList) group) :
    parse_openai_sse_chunk order from_str m (as_bytes text) =
      (.ok (group_run order m group).1, (group_run order m group).2) := by
  rw [parse_openai_sse_chunk]
  split
  · next hempty =>
    -- no bytes, no lines
    have htext : text = "" := as_bytes_eq_nil.1 (List.isEmpty_iff.1 hempty)
    rw [htext] at h
    have hgroup : group = [] := List.map_eq_nil_iff.1 h.symm
    rw [hgroup, group_run]
  · rw [from_utf8_lossy_as_bytes]
    exact parse_lines_of_carries h []

/-- The calls together, each with the lines that it carries. -/
theorem feed_of_carries (order : DrainOrder ℕ OpenAIToolUseState)
    {texts : List String} {groups : List (List Line)}
    (h : List.Forall₂ (fun text group => Carries from_str (lines text.toList) group) texts groups) :
    feed (chat_stream_impl order from_str) m (texts.map as_bytes) =
      ((Parts.run (group_run order) m groups).1, none, (Parts.run (group_run order) m groups).2) := by
  induction h generalizing m with
  | nil => rfl
  | cons htext hrest ih =>
      have hcall : (chat_stream_impl order from_str).parse_chunk m (as_bytes _) = _ :=
        parse_chunk_of_carries htext
      rw [List.map_cons, feed, hcall]
      dsimp only
      rw [ih, Parts.run]

end

/-! ## 10. Exactly when -/

section

variable {order : DrainOrder ℕ OpenAIToolUseState} {a : Answer} {calls : ℕ → Option Call}
  {groups : List (List Line)}

theorem filterMap_quiet {ls : List Line} {r : List StreamChunk × ToolStates}
    (h : QuietRun ls r) {α : Type} {f : StreamChunk → Option α} (hf : Skips f)
    (hdone : f (.Done .Stop) = none) : r.1.filterMap f = [] := by
  apply List.filterMap_eq_nil_iff.2
  intro c hc
  rcases h.chunks c hc with ⟨usage, rfl⟩ | rfl
  · exact hf.usage usage
  · exact hdone

/-- All that is emitted, read by something that makes nothing of an end. -/
theorem filterMap_groups (hgroups : groups.flatten = a.lines) {α : Type}
    {f : StreamChunk → Option α} (hf : Skips f) (hdone : ∀ r, f (.Done r) = none) :
    (Parts.run (group_run order) ∅ groups).1.filterMap f =
      a.tools.1.filterMap f ++ (completions order a.tools.2).filterMap f := by
  obtain ⟨hrun, hquiet⟩ := groups_run order hgroups
  obtain ⟨front, hfront, hend⟩ := up_to_end order a
  rw [hrun, hend, List.filterMap_append, List.filterMap_append, List.filterMap_append, hfront hf,
    filterMap_quiet (quiet_groups order hquiet) hf (hdone .Stop),
    List.filterMap_cons_none (hdone _), List.filterMap_nil, List.append_nil, List.append_nil]

theorem ends_iff (hgroups : groups.flatten = a.lines) :
    (∃ front back, (Parts.run (group_run order) ∅ groups).1 =
        front ++ .Done (map_finish_reason a.finish_reason) :: back ∧
      (∀ c ∈ front, c.finish_reason = none) ∧ ∀ c ∈ back, ∃ usage, c = .Usage usage) ↔
      .done ∉ (later groups).flatten := by
  obtain ⟨hrun, hquiet⟩ := groups_run order hgroups
  obtain ⟨front, hfront, hend⟩ := up_to_end order a
  have hlater := quiet_groups order hquiet
  have hopen : ∀ c ∈ front ++ completions order a.tools.2, c.finish_reason = none := by
    intro c hc
    rcases List.mem_append.1 hc with hc | hc
    · have htools : a.tools.1.filterMap StreamChunk.finish_reason = [] :=
        List.filterMap_eq_nil_iff.2 fun c hc => (tool_deltas_silent (i := 0) hc).2.2
      exact List.filterMap_eq_nil_iff.1 ((hfront skips_finish_reason).trans htools) c hc
    · obtain ⟨index, tool_call, rfl⟩ := mem_completions hc
      rfl
  rw [hrun, hend, List.append_assoc, List.singleton_append]
  generalize front ++ completions order a.tools.2 = opening at hopen
  constructor
  · rintro ⟨front', back, heq, hfront', hback⟩ hlate
    -- the only end is the first one, so the second would be usage
    have hends := congrArg (List.filterMap StreamChunk.finish_reason) heq
    rw [List.filterMap_append, List.filterMap_append, List.filterMap_eq_nil_iff.2 hopen,
      List.filterMap_eq_nil_iff.2 hfront', List.nil_append, List.nil_append] at hends
    have hnone : back.filterMap StreamChunk.finish_reason = [] := by
      apply List.filterMap_eq_nil_iff.2
      intro c hc
      obtain ⟨usage, rfl⟩ := hback c hc
      rfl
    have hrest : (Parts.run (group_run order) ∅ (later groups)).1.filterMap
        StreamChunk.finish_reason = [] := by
      rw [← hnone]
      exact (List.cons.inj hends).2
    exact absurd (List.filterMap_eq_nil_iff.1 hrest _ (hlater.done_iff.2 hlate))
      (Option.some_ne_none _)
  · intro hlate
    refine ⟨_, _, rfl, hopen, ?_⟩
    intro c hc
    rcases hlater.chunks c hc with husage | rfl
    · exact husage
    · exact absurd (hlater.done_iff.1 hc) hlate

/-- **OpenAI streaming assembles tool calls exactly**, for every order in which a map may be
drained, if and only if there is at most one index and no `[DONE]` comes in a later call than the
finish reason. -/
theorem assembled_iff (from_str : Str → Except String OpenAIStreamChunk) (a : Answer)
    (calls : ℕ → Option Call) (hcalls : a.Makes calls) (groups : List (List Line))
    (hgroups : groups.flatten = a.lines) (texts : List String)
    (htexts : List.Forall₂ (fun text group => Carries from_str (Strings.lines text.toList) group)
      texts groups) :
    (∀ order, ∃ chunks m, feed (chat_stream_impl order from_str) ∅ (texts.map as_bytes) =
        (chunks, none, m) ∧ Assembled calls a.finish_reason chunks) ↔ Plain calls groups := by
  have hfeed (order : DrainOrder ℕ OpenAIToolUseState) :=
    feed_of_carries order (m := ∅) htexts
  constructor
  · intro hall
    have hlaw : ∀ order, Assembled calls a.finish_reason
        (Parts.run (group_run order) ∅ groups).1 := by
      intro order
      obtain ⟨chunks, m, heq, hlaw⟩ := hall order
      rw [hfeed] at heq
      rwa [(Prod.mk.inj heq).1]
    refine ⟨(increasing_iff hcalls).1 fun order => ?_, (ends_iff hgroups).1 (hlaw falling).one_end⟩
    have hup := (hlaw order).increasing
    rw [filterMap_groups hgroups skips_completed fun _ => rfl] at hup
    exact (List.pairwise_append.1 hup).2.1
  · intro hplain order
    refine ⟨_, _, hfeed order, ?_⟩
    constructor
    · intro i
      have hnone : (completions order a.tools.2).filterMap (start_at i) = [] := by
        apply List.filterMap_eq_nil_iff.2
        intro c hc
        obtain ⟨index, tool_call, rfl⟩ := mem_completions hc
        rfl
      rw [filterMap_groups hgroups (skips_start i) fun _ => rfl, starts_tools hcalls, hnone,
        List.append_nil]
    · intro i
      have hnone : a.tools.1.filterMap (completion_at i) = [] :=
        List.filterMap_eq_nil_iff.2 fun c hc => (tool_deltas_silent hc).1
      rw [filterMap_groups hgroups (skips_completion i) fun _ => rfl, completions_tools hcalls,
        hnone, List.nil_append]
    · have hnone : a.tools.1.filterMap completed = [] :=
        List.filterMap_eq_nil_iff.2 fun c hc => (tool_deltas_silent (i := 0) hc).2.1
      rw [filterMap_groups hgroups skips_completed fun _ => rfl, hnone, List.nil_append]
      exact (increasing_iff hcalls).2 hplain.one_index order
    · exact (ends_iff hgroups).2 hplain.no_late_end

end

/-! ## 11. One call, and `[DONE]` by itself -/

def sample_delta : String :=
  "\x7b\"choices\":[\x7b\"index\":0,\"delta\":\x7b\"tool_calls\":[\x7b\"index\":0,\"id\":\"c1\"," ++
  "\"function\":\x7b\"name\":\"ls\",\"arguments\":\"\x7b\x7d\"\x7d\x7d]\x7d\x7d]\x7d"

def sample_finish : String :=
  "\x7b\"choices\":[\x7b\"index\":0,\"delta\":\x7b\x7d,\"finish_reason\":\"tool_calls\"\x7d]\x7d"

def sample_tool_call : OpenAIStreamToolCall := ⟨some 0, some "c1", none, ⟨some "ls", "\x7b\x7d"⟩⟩

def sample_delta_chunk : OpenAIStreamChunk :=
  ⟨[⟨0, ⟨none, none, some [sample_tool_call]⟩, none⟩], none⟩

def sample_finish_chunk : OpenAIStreamChunk :=
  ⟨[⟨0, ⟨none, none, none⟩, some "tool_calls"⟩], none⟩

/-- What `serde_json` reads in these texts. -/
def sample_from_str (data : Str) : Except String OpenAIStreamChunk :=
  if data = sample_delta.toList then .ok sample_delta_chunk
  else if data = sample_finish.toList then .ok sample_finish_chunk
  else .error "expected value at line 1 column 1"

def sample_answer : Answer where
  body := [sample_delta_chunk]
  last := sample_finish_chunk
  finish_reason := "tool_calls"
  tail := [.done]
  body_open := by decide
  last_choice := ⟨_, rfl, rfl⟩
  tail_quiet := fun line hline => .inl (List.mem_singleton.1 hline)

def sample_calls (i : ℕ) : Option Call := if i = 0 then some ⟨"c1", "ls", "\x7b\x7d"⟩ else none

/-- Each line in a call of its own, as the adapter gives them. -/
def sample_groups : List (List Line) :=
  [[.chunk sample_delta_chunk], [.chunk sample_finish_chunk], [.done]]

def sample_texts : List String :=
  ["data: " ++ sample_delta ++ "\n", "data: " ++ sample_finish ++ "\n", "data: [DONE]\n"]

theorem sample_makes : sample_answer.Makes sample_calls := by
  intro i
  by_cases hi : i = 0
  · subst hi
    exact ⟨rfl, rfl, fun tc htc => absurd htc List.not_mem_nil, by decide⟩
  · have hne : 0 ≠ i := Ne.symm hi
    simp [sample_calls, hi, sample_answer, Answer.tool_deltas, OpenAIStreamChunk.tool_deltas,
      sample_delta_chunk, sample_finish_chunk, sample_tool_call, OpenAIStreamToolCall.key, hne]

theorem sample_carries : List.Forall₂
    (fun text group => Carries sample_from_str (Strings.lines text.toList) group)
    sample_texts sample_groups := by
  refine .cons ?_ (.cons ?_ (.cons ?_ .nil))
  · rw [String.toList_append, String.toList_append, Carries]
    decide +kernel
  · rw [String.toList_append, String.toList_append, Carries]
    decide +kernel
  · rw [Carries]
    decide +kernel

/-- The end is reported by the finish reason and again by `[DONE]`. -/
theorem second_end :
    sample_answer.Makes sample_calls ∧ sample_groups.flatten = sample_answer.lines ∧
      List.Forall₂ (fun text group => Carries sample_from_str (Strings.lines text.toList) group)
        sample_texts sample_groups ∧
      (feed (chat_stream_impl falling sample_from_str) ∅ (sample_texts.map as_bytes)).1.filterMap
        StreamChunk.finish_reason = [.ToolCalls, .Stop] := by
  refine ⟨sample_makes, rfl, sample_carries, ?_⟩
  rw [feed_of_carries falling sample_carries]
  decide +kernel

/-! ## 12. Arguments in pieces -/

def start_delta : OpenAIStreamToolCall := ⟨some 0, some "c1", none, ⟨some "ls", ""⟩⟩

def arguments_delta (arguments : String) : OpenAIStreamToolCall :=
  ⟨some 0, none, none, ⟨none, arguments⟩⟩

def delta_chunk (tc : OpenAIStreamToolCall) : OpenAIStreamChunk :=
  ⟨[⟨0, ⟨none, none, some [tc]⟩, none⟩], none⟩

def delta_data (fields : String) : Str :=
  "\x7b\"choices\":[\x7b\"index\":0,\"delta\":\x7b\"tool_calls\":[\x7b\"index\":0,".toList ++
    fields.toList ++ "\x7d]\x7d\x7d]\x7d".toList

/-- The data of the lines, each with the chunk that it is read as. -/
def split_data : List (Str × OpenAIStreamChunk) :=
  [(delta_data "\"id\":\"c1\",\"function\":\x7b\"name\":\"ls\",\"arguments\":\"\"\x7d",
      delta_chunk start_delta),
    (delta_data "\"function\":\x7b\"arguments\":\"[1,\"\x7d", delta_chunk (arguments_delta "[1,")),
    (delta_data "\"function\":\x7b\"arguments\":\"2]\"\x7d", delta_chunk (arguments_delta "2]")),
    (sample_finish.toList, sample_finish_chunk)]

def split_from_str (data : Str) : Except String OpenAIStreamChunk :=
  match split_data.find? fun e => e.1 = data with
  | some e => .ok e.2
  | none => .error "expected value at line 1 column 1"

def split_answer : Answer where
  body := [start_delta, arguments_delta "[1,", arguments_delta "2]"].map delta_chunk
  last := sample_finish_chunk
  finish_reason := "tool_calls"
  tail := [.done]
  body_open := by decide
  last_choice := ⟨_, rfl, rfl⟩
  tail_quiet := fun line hline => .inl (List.mem_singleton.1 hline)

def split_calls (i : ℕ) : Option Call := if i = 0 then some ⟨"c1", "ls", "[1,2]"⟩ else none

/-- Two calls; the finish reason and `[DONE]` come in the second. -/
def split_groups : List (List Line) := [split_answer.lines.take 2, split_answer.lines.drop 2]

def split_texts : List String :=
  [String.ofList ((split_data.take 2).flatMap fun e => "data: ".toList ++ e.1 ++ "\n\n".toList),
    String.ofList ((split_data.drop 2).flatMap (fun e => "data: ".toList ++ e.1 ++ "\n\n".toList) ++
      "data: [DONE]\n".toList)]

theorem assembled_iff_sample :
    (∀ order, ∃ chunks m, feed (chat_stream_impl order split_from_str) ∅
        (split_texts.map as_bytes) = (chunks, none, m) ∧
      Assembled split_calls "tool_calls" chunks) ↔ Plain split_calls split_groups := by
  apply assembled_iff split_from_str split_answer split_calls
  · intro i
    by_cases hi : i = 0
    · subst hi
      exact ⟨rfl, rfl, by decide, by decide⟩
    · simp [split_calls, hi, split_answer, Answer.tool_deltas, OpenAIStreamChunk.tool_deltas,
        delta_chunk, start_delta, arguments_delta, sample_finish_chunk, OpenAIStreamToolCall.key,
        Ne.symm hi]
  · rfl
  · refine .cons ?_ (.cons ?_ .nil)
    · rw [String.toList_ofList]
      unfold Carries
      decide +kernel
    · rw [String.toList_ofList]
      unfold Carries
      decide +kernel

end Querymt.OpenAI
