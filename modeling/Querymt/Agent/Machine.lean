/-
`Agent/Machine.lean` -- the state machine of an agent turn.

Mirrors `execute_cycle_state_machine` (`agent/execution/mod.rs`) with the
transitions it calls (`transitions.rs`, the result storage of `tool_calls.rs`,
`wait.rs`, `maintenance.rs`). One iteration of the loop is one step; everything the
loop learns from outside in an iteration (cancellation, middleware, the provider,
the tools, the hooks, delegations) is the record `Env` of that iteration and is
arbitrary. Writing to the store always succeeds.

Left out: tracing, hook notices, progress entries and task status, the tool events,
and the turn's accumulated diffs, none of which a transition reads back.
-/
import Querymt.Agent.History
import Querymt.Agent.State
import Querymt.Library.Runs

set_option autoImplicit false

namespace Querymt.Agent

/-! ## 1. What an iteration learns -/

/-- `transition_call_llm`, up to the response. -/
inductive LlmOutcome where
  | Cancelled
  | Failed (error : String)
  | Response (response : LlmResponse)

/-- One future of the parallel tool execution: `execute_tool_call` returns a result
for the call (its id, name and the arguments in effect) or an error, or the
cancellation wins the race. -/
inductive ToolOutcome where
  | Returned (content : List Content) (is_error : Bool) (arguments : String)
      (snapshot_part : Option SnapshotPart)
  | Failed (error : String)
  | Interrupted

/-- What becomes of a successful `delegate` result. -/
inductive DelegationOutcome where
  /-- the pre-delegation hook returned an error -/
  | HookFailed (error : String)
  /-- the hook blocked the delegation -/
  | Blocked (block_reason : Option String)
  /-- recorded (or not) with the arguments the hook left -/
  | Requested (tool_arguments : Option String) (public_id : Option String)

/-- `transition_waiting_for_event`, after its check of the token. -/
inductive WaitOutcome where
  | Cancelled
  | Closed
  /-- there was nothing to wait for -/
  | Unchanged
  | Resumed (message : String)

structure StopHook where
  should_continue : Bool
  stop_reason : Option String
  block_reason : Option String
  additional_contexts : List String

/-- `run_ai_compaction`, up to the messages it stores. -/
inductive CompactionOutcome where
  | Failed (error : String)
  | Blocked (block_reason : Option String) (additional_contexts : List String)
  /-- the summary, with the contexts of the post-compaction hook; `reloaded` is the
  token estimate of the new history, or the error of reading it back -/
  | Summarised (summary : String) (additional_contexts : List String)
      (original_token_count : ℕ) (reloaded : Except String ℕ)

/-- What one iteration of the loop learns. -/
structure Env where
  /-- the token at the top of the loop, at the entry of the transition, and after the
  tools ran -/
  cancelled_at_top : Bool
  cancelled : Bool
  cancelled_after_tools : Bool
  drivers : List MiddlewareDriver
  /-- `collect_tools`, or the error of building the provider -/
  tools : Except String (List String)
  llm : LlmOutcome
  /-- the requests of `call_llm_with_retry`: the first, and one for each retry -/
  llm_requests : ℕ
  record_progress : Except String Unit
  tool : MiddlewareToolCall → ToolOutcome
  delegation : ToolResult → DelegationOutcome
  wait : WaitOutcome
  stop_hook : Except String StopHook
  /-- the call ids `run_pruning` selects -/
  pruned : List String
  compaction : CompactionOutcome
  /-- the requests for a summary, with their retries (`SessionCompaction::call_with_retry`) -/
  summary_requests : ℕ
  uuid : ℕ → String
  now : ℤ

structure Config where
  session_id : String
  /-- provider and model -/
  llm_config : Option (String × String)
  /-- does reading the history succeed at the start of the turn? -/
  get_history : Except String Unit
  max_prompt_bytes : Option ℕ
  session_mode : AgentMode
  compaction_auto : Bool
  pruning_enabled : Bool

/-! ## 2. The machine -/

inductive CycleOutcome where
  | Completed
  | Cancelled
  | Stopped (reason : StopReason)
  deriving DecidableEq

/-- The events of the modelled transitions. The priced totals of `LlmRequestEnd` stand
for the cost computed from them. -/
inductive AgentEventKind where
  | LlmRequestStart (message_count : ℕ)
  | LlmRequestEnd (usage : Option Usage) (tool_calls : ℕ) (finish_reason : Option FinishReason)
      (cumulative_input cumulative_output context_tokens steps turns : ℕ)
  | AssistantMessageStored (content : String) (thinking : Option String) (message_id : String)
  | UserMessageStored (content : String)
  | CompactionStart
  | CompactionEnd (summary : String)
  | MiddlewareStopped (stop_type : StopType) (reason : String) (steps turns : ℕ)
  deriving DecidableEq

/-- The model calls and the compactions of a run, in order. -/
inductive TrailEntry where
  | Called (context : ConversationContext) (outcome : LlmOutcome)
  | Compacted

structure Machine where
  /-- the messages of the session, in the order in which they were stored -/
  history : List AgentMessage
  /-- the pre-turn snapshot task: its turn id, and the snapshot id unless it failed -/
  pre_turn_snapshot_task : Option (String × Option String)
  initial_context : ConversationContext
  stop_hook_continuations : ℕ
  state : ExecutionState
  events : List AgentEventKind
  trail : List TrailEntry
  /-- `none` while the loop runs -/
  outcome : Option (Except String CycleOutcome)

namespace Machine

variable (m : Machine)

def goto (state : ExecutionState) : Machine := { m with state := state }

def fail (error : String) : Machine := { m with outcome := some (.error error) }

def return_ok (outcome : CycleOutcome) : Machine := { m with outcome := some (.ok outcome) }

def add_message (message : AgentMessage) : Machine := { m with history := m.history ++ [message] }

def emit_event (event : AgentEventKind) : Machine := { m with events := m.events ++ [event] }

def record (entry : TrailEntry) : Machine := { m with trail := m.trail ++ [entry] }

end Machine

/-! ## 3. Before, at and after the model call -/

def transition_before_llm_call (env : Env) (m : Machine) (context : ConversationContext) :
    Machine :=
  if env.cancelled then m.goto .Cancelled
  else
    match env.tools with
    | .error error => m.fail error
    | .ok tools => m.goto (.CallLlm context tools)

def transition_call_llm (env : Env) (m : Machine) (context : ConversationContext) : Machine :=
  if env.cancelled then m.goto .Cancelled
  else
    let m1 := (m.emit_event (.LlmRequestStart context.messages.length)).record
      (.Called context env.llm)
    match env.llm with
    | .Cancelled => m1.goto .Cancelled
    | .Failed error => m1.fail error
    | .Response response =>
        -- the priced output total counts the reasoning tokens of the response twice
        let (input, output) :=
          match response.usage with
          | some u =>
              (context.stats.total_input_tokens + u.input_tokens,
                context.stats.total_output_tokens + u.reasoning_tokens +
                  (u.output_tokens + u.reasoning_tokens))
          | none => (0, 0)
        (m1.emit_event (.LlmRequestEnd response.usage response.tool_calls.length
          response.finish_reason input output (calculate_context_tokens response.usage)
          (context.stats.steps + 1) context.stats.turns)).goto (.AfterLlm response context)

/-- `ensure_pre_turn_snapshot_ready`. -/
def ensure_pre_turn_snapshot_ready (cfg : Config) (env : Env) (m : Machine) : Machine :=
  let m1 := { m with pre_turn_snapshot_task := none }
  match m.pre_turn_snapshot_task with
  | some (turn_id, some snapshot_id) =>
      m1.add_message
        { id := env.uuid 0
          session_id := cfg.session_id
          role := .Assistant
          parts := [.TurnSnapshotStart turn_id snapshot_id]
          created_at := env.now
          parent_message_id := none
          source_provider := none
          source_model := none }
  | _ => m1

/-- The parts of the assistant message: reasoning, text, tool calls. -/
def response_parts (response : LlmResponse) : List MessagePart :=
  (match response.thinking with
    | some thinking =>
        if thinking.isEmpty then []
        else [.Reasoning thinking response.thinking_signature none]
    | none => []) ++
  (if response.content.isEmpty then [] else [.Text response.content]) ++
  response.tool_calls.map fun call =>
    .ToolUse ⟨call.id, "function", ⟨call.function.name, call.function.arguments⟩⟩

def assistant_message (cfg : Config) (env : Env) (response : LlmResponse)
    (context : ConversationContext) : AgentMessage where
  id := response.message_id.getD (env.uuid 1)
  session_id := cfg.session_id
  role := .Assistant
  parts := response_parts response
  created_at := env.now
  parent_message_id := none
  source_provider := some context.provider
  source_model := some context.model

/-- The statistics after a response; a response without usage is not counted. -/
def updated_stats (stats : AgentStats) : Option Usage → AgentStats
  | none => stats
  | some u =>
      { stats with
        total_input_tokens := stats.total_input_tokens + u.input_tokens
        total_output_tokens := stats.total_output_tokens + u.output_tokens
        reasoning_tokens := stats.reasoning_tokens + u.reasoning_tokens
        cache_read_tokens := stats.cache_read_tokens + u.cache_read
        cache_write_tokens := stats.cache_write_tokens + u.cache_write
        context_tokens := calculate_context_tokens (some u)
        steps := stats.steps + 1 }

/-- The context after a response. -/
def context_after_llm (cfg : Config) (env : Env) (response : LlmResponse)
    (context : ConversationContext) : ConversationContext :=
  { context with
    messages := context.messages ++ [(assistant_message cfg env response context).to_chat_message]
    stats := updated_stats context.stats response.usage }

/-- The state after a response, by its finish reason. -/
def state_after_llm (response : LlmResponse) (new_context : ConversationContext) : ExecutionState :=
  match response.finish_reason with
  -- whatever tool calls the response carries; they are stored with it
  | some .Stop => .Complete
  | some .Length => .Stopped "Model hit token limit" .ModelTokenLimit (some new_context)
  | some .ContentFilter =>
      .Stopped "Response blocked by content filter" .ContentFilter (some new_context)
  | some .ToolCalls | some .Error | some .Unknown | some .Other | none =>
      if response.tool_calls.isEmpty then .Complete
      else .ProcessingToolCalls response.tool_calls [] new_context

def transition_after_llm (cfg : Config) (env : Env) (m : Machine) (response : LlmResponse)
    (context : ConversationContext) : Machine :=
  if env.cancelled then m.goto .Cancelled
  else
    -- the snapshot of the files is stored before the message it belongs to
    let m1 := ensure_pre_turn_snapshot_ready cfg env m
    match env.record_progress with
    | .error error => m1.fail ("Failed to record progress: " ++ error)
    | .ok () =>
        let message := assistant_message cfg env response context
        let m2 := (m1.add_message message).emit_event
          (.AssistantMessageStored response.content response.thinking message.id)
        m2.goto (state_after_llm response (context_after_llm cfg env response context))

/-! ## 4. Tool calls -/

/-- The result of one tool future. -/
def run_tool (env : Env) (call : MiddlewareToolCall) : ToolResult :=
  match env.tool call with
  | .Returned content is_error arguments snapshot_part =>
      { ToolResult.new call.id content is_error (some call.function.name) (some arguments) with
        snapshot_part := snapshot_part }
  | .Failed error =>
      .new call.id [.Text ("Error: internal tool execution failed: " ++ error)] true
        (some call.function.name) (some call.function.arguments)
  | .Interrupted =>
      .new call.id [.Text "Error: Cancelled by user"] true
        (some call.function.name) (some call.function.arguments)

/-- `record_tool_side_effects`: the result as it is stored, and what to wait for. -/
def record_tool_side_effects (env : Env) (result : ToolResult) :
    Except String (ToolResult × Option WaitCondition) :=
  if result.is_error = false ∧ result.tool_name = some "delegate" then
    match env.delegation result with
    | .HookFailed error => .error error
    | .Blocked block_reason =>
        .ok ({ result with
          content := [.Text ("Delegation blocked by hook: " ++
            block_reason.getD "delegation blocked by hook")] }, none)
    | .Requested tool_arguments public_id =>
        .ok ({ result with tool_arguments := tool_arguments.orElse fun _ => result.tool_arguments },
          public_id.map fun id => ⟨[id]⟩)
  else .ok (result, none)

/-- The loop over the results; the first error ends it. -/
def record_all_side_effects (env : Env) :
    List ToolResult → Except String (List ToolResult × List WaitCondition)
  | [] => .ok ([], [])
  | result :: results =>
      match record_tool_side_effects env result with
      | .error error => .error error
      | .ok (adjusted, wait) =>
          match record_all_side_effects env results with
          | .error error => .error error
          | .ok (adjusted_results, waits) =>
              .ok (adjusted :: adjusted_results, wait.toList ++ waits)

def result_part (result : ToolResult) : MessagePart :=
  .ToolResult result.call_id result.content result.is_error result.tool_name
    result.tool_arguments none

/-- The one message that carries all results, and the snapshots after them. -/
def result_message (cfg : Config) (env : Env) (results : List ToolResult) : AgentMessage where
  id := env.uuid 0
  session_id := cfg.session_id
  role := .User
  parts := results.map result_part ++ results.filterMap fun result =>
    result.snapshot_part.map fun part => .Snapshot part.root_hash part.changed_paths
  created_at := env.now
  parent_message_id := none
  source_provider := none
  source_model := none

/-- `store_all_tool_results`; `cancelled` says what the caller makes of it. -/
def store_all_tool_results (cfg : Config) (env : Env) (m : Machine) (results : List ToolResult)
    (context : ConversationContext) (cancelled : Bool) : Machine :=
  match record_all_side_effects env results with
  -- nothing is stored yet: the calls of the response stay without results
  | .error error => m.fail error
  | .ok (adjusted_results, wait_conditions) =>
      let message := result_message cfg env adjusted_results
      let m1 := m.add_message message
      let new_context :=
        { context with messages := context.messages ++ [message.to_chat_message] }
      if cancelled then m1.goto .Cancelled
      else
        match WaitCondition.merge wait_conditions with
        | some wait => m1.goto (.WaitingForEvent new_context wait)
        | none => m1.goto (.BeforeLlmCall new_context)

def transition_processing_tool_calls (cfg : Config) (env : Env) (m : Machine)
    (remaining_calls : List MiddlewareToolCall) (results : List ToolResult)
    (context : ConversationContext) : Machine :=
  if remaining_calls.isEmpty then
    -- no call left: a cancelled turn stores what it has, and ends behind it
    store_all_tool_results cfg env m results context env.cancelled
  else
    store_all_tool_results cfg env m (results ++ remaining_calls.map (run_tool env)) context
      (env.cancelled || env.cancelled_after_tools)

/-! ## 5. Waiting, compaction, pruning -/

/-- `inject_wait_message`. -/
def inject_wait_message (cfg : Config) (env : Env) (m : Machine) (context : ConversationContext)
    (content : String) : Machine :=
  ((m.add_message
    { id := env.uuid 0
      session_id := cfg.session_id
      role := .User
      parts := [.Text content]
      created_at := env.now
      parent_message_id := none
      source_provider := none
      source_model := none }).emit_event (.UserMessageStored content)).goto
    (.BeforeLlmCall (context.inject_message content))

def transition_waiting_for_event (cfg : Config) (env : Env) (m : Machine)
    (context : ConversationContext) : Machine :=
  if env.cancelled then m.goto .Cancelled
  else
    match env.wait with
    | .Cancelled => m.goto .Cancelled
    | .Closed => m.goto (.Stopped "Event stream closed while waiting" .Other (some context))
    -- an `All` wait without ids
    | .Unchanged => m.goto (.BeforeLlmCall context)
    | .Resumed message => inject_wait_message cfg env m context message

/-- `SessionCompaction::create_compaction_messages`. -/
def create_compaction_messages (cfg : Config) (env : Env) (summary : String)
    (original_token_count : ℕ) : AgentMessage × AgentMessage :=
  ({ id := env.uuid 0
     session_id := cfg.session_id
     role := .User
     parts := [.CompactionRequest original_token_count]
     created_at := env.now
     parent_message_id := none
     source_provider := none
     source_model := none },
   { id := env.uuid 1
     session_id := cfg.session_id
     role := .Assistant
     parts := [.Compaction summary original_token_count]
     created_at := env.now
     parent_message_id := some (env.uuid 0)
     source_provider := none
     source_model := none })

/-- A text with the additional contexts of a hook. -/
def with_contexts (text : String) (additional_contexts : List String) : String :=
  if additional_contexts.isEmpty then text
  else text ++ "\n\n" ++ String.intercalate "\n\n" additional_contexts

/-- `run_ai_compaction`: what it stores, and the new state or its error. -/
def run_ai_compaction (cfg : Config) (env : Env) (m : Machine) :
    Machine × Except String ExecutionState :=
  match env.compaction with
  | .Failed error => (m, .error error)
  | .Blocked block_reason additional_contexts =>
      (m, .ok (.Stopped
        (with_contexts (block_reason.getD "compaction blocked by hook") additional_contexts)
        -- the stop type that led here, so the next iteration compacts again
        .ContextThreshold m.state.context))
  | .Summarised summary additional_contexts original_token_count reloaded =>
      let text := with_contexts summary additional_contexts
      let (request_msg, summary_msg) := create_compaction_messages cfg env text original_token_count
      let m1 := ((((m.emit_event .CompactionStart).add_message request_msg).add_message
        summary_msg).emit_event (.CompactionEnd text)).record .Compacted
      match reloaded, m.state.context with
      | .error error, _ => (m1, .error error)
      | .ok _, none => (m1, .error "No context available for compaction")
      | .ok new_context_tokens, some context =>
          (m1, .ok (.BeforeLlmCall
            { context with
              messages := (filter_to_effective_history (get_history m1.history)).map fun message =>
                message.to_chat_message_with_target none none cfg.max_prompt_bytes
              stats := { context.stats with context_tokens := new_context_tokens } }))

/-- `mark_tool_results_compacted`, on one part. -/
def mark_compacted (call_ids : List String) (now : ℤ) : MessagePart → MessagePart
  | .ToolResult call_id content is_error tool_name tool_arguments compacted_at =>
      .ToolResult call_id content is_error tool_name tool_arguments
        (if call_id ∈ call_ids then compacted_at.orElse fun _ => some now else compacted_at)
  | part => part

/-- `run_pruning`. -/
def run_pruning (env : Env) (m : Machine) : Machine :=
  { m with history := m.history.map fun message =>
      { message with parts := message.parts.map (mark_compacted env.pruned env.now) } }

/-! ## 6. The loop -/

def MAX_STOP_HOOK_CONTINUATIONS_PER_TURN : ℕ := 1

def format_stop_hook_continuation_message (reason : Option String)
    (additional_contexts : List String) : String :=
  "<system-reminder>\nA QueryMT Stop hook requested another agent step.\n" ++
  (match reason.filter fun reason => !reason.trimAscii.isEmpty with
    | some reason => "\nReason:\n" ++ reason ++ "\n"
    | none => "") ++
  (if additional_contexts.isEmpty then ""
    else "\nAdditional hook context:\n" ++
      String.join (additional_contexts.map fun context => "- " ++ context ++ "\n")) ++
  "\nThis message was generated by the QueryMT hook runtime, not by the user.\n</system-reminder>"

/-- The branch of `Complete`, once the turn-end middleware has let it pass. -/
def complete_turn (cfg : Config) (env : Env) (m : Machine) : Machine :=
  match env.stop_hook with
  | .error error => m.fail error
  | .ok stop_hook =>
      if stop_hook.should_continue ∧
          m.stop_hook_continuations < MAX_STOP_HOOK_CONTINUATIONS_PER_TURN then
        -- `Complete` carries no context, so this is always the initial one
        let current_context := m.state.context.getD m.initial_context
        let message := format_stop_hook_continuation_message
          (stop_hook.stop_reason.orElse fun _ => stop_hook.block_reason)
          stop_hook.additional_contexts
        { m with stop_hook_continuations := m.stop_hook_continuations + 1 }.goto
          (.BeforeLlmCall (current_context.inject_message message))
      else if cfg.pruning_enabled then (run_pruning env m).return_ok .Completed
      else m.return_ok .Completed

/-- The branch of `Stopped`. -/
def stop_turn (cfg : Config) (env : Env) (m : Machine) (message : String) (stop_type : StopType)
    (context : Option ConversationContext) : Machine :=
  let stopped (m : Machine) : Machine :=
    let stats := (context.map ConversationContext.stats).getD {}
    (m.emit_event (.MiddlewareStopped stop_type message stats.steps stats.turns)).return_ok
      (.Stopped stop_type.stop_reason)
  if stop_type = .ContextThreshold ∧ cfg.compaction_auto then
    match run_ai_compaction cfg env m with
    | (m1, .ok new_state) => m1.goto new_state
    -- the error is logged, and the turn ends with the stop it was to avoid
    | (m1, .error _) => stopped m1
  else stopped m

/-- A middleware phase and what follows it. -/
def with_middleware (env : Env) (m : Machine) (phase : MiddlewarePhase)
    (continuation : ExecutionState → Machine) : Machine :=
  match run_phase phase env.drivers m.state with
  | .error error => m.fail ("Middleware error: " ++ error)
  | .ok state => continuation state

/-- One iteration of the loop. -/
def iterate (cfg : Config) (m : Machine) (env : Env) : Machine :=
  if m.outcome.isSome then m
  else if env.cancelled_at_top then m.return_ok .Cancelled
  else
    match m.state with
    | .BeforeLlmCall _ =>
        with_middleware env m .StepStart fun
          | .BeforeLlmCall context => transition_before_llm_call env m context
          | other => m.goto other
    | .CallLlm context _ => transition_call_llm env m context
    | .AfterLlm _ _ =>
        with_middleware env m .AfterLlm fun
          | .AfterLlm response context => transition_after_llm cfg env m response context
          | other => m.goto other
    | .ProcessingToolCalls _ _ _ =>
        with_middleware env m .ProcessingToolCalls fun
          | .ProcessingToolCalls remaining_calls results context =>
              transition_processing_tool_calls cfg env m remaining_calls results context
          | other => m.goto other
    | .WaitingForEvent context _ => transition_waiting_for_event cfg env m context
    | .Complete =>
        with_middleware env m .TurnEnd fun
          | .Complete => complete_turn cfg env m
          | other => m.goto other
    -- neither `Stopped` nor `CallLlm` and `WaitingForEvent` pass a middleware first
    | .Stopped message stop_type context => stop_turn cfg env m message stop_type context
    | .Cancelled => m.return_ok .Cancelled

/-- The messages a turn starts from (`SessionHandle::history`). -/
def reload_history (cfg : Config) (history : List AgentMessage) : List ChatMessage :=
  match cfg.get_history with
  | .ok () =>
      (filter_to_effective_history (get_history history)).map fun message =>
        message.to_chat_message_with_target (cfg.llm_config.map Prod.fst)
          (cfg.llm_config.map Prod.snd) cfg.max_prompt_bytes
  -- the error is logged, and the turn starts from nothing
  | .error _ => []

/-- The user messages that are not tool results. -/
def count_turns (messages : List ChatMessage) : ℕ :=
  messages.countP fun message => decide (message.role = .User) && !message.has_tool_result

/-- The context a turn starts from. -/
def starting_context (cfg : Config) (history : List AgentMessage) (provider model : String) :
    ConversationContext where
  session_id := cfg.session_id
  messages := reload_history cfg history
  stats := { turns := count_turns (reload_history cfg history) }
  provider := provider
  model := model
  session_mode := cfg.session_mode

/-- `execute_cycle_state_machine`, up to the loop. -/
def start (cfg : Config) (history : List AgentMessage)
    (pre_turn_snapshot_task : Option (String × Option String)) (drivers : List MiddlewareDriver) :
    Machine :=
  let provider := (cfg.llm_config.map Prod.fst).getD ""
  let model := (cfg.llm_config.map Prod.snd).getD ""
  let initial_context := starting_context cfg history provider model
  let m : Machine :=
    { history := history
      pre_turn_snapshot_task := pre_turn_snapshot_task
      initial_context := initial_context
      stop_hook_continuations := 0
      state := .BeforeLlmCall initial_context
      events := []
      trail := []
      outcome := none }
  if cfg.llm_config.isNone then m.fail "No LLM config for session"
  else
    -- may leave any state, as every phase may
    match run_phase .TurnStart drivers m.state with
    | .error error => m.fail ("Middleware error: " ++ error)
    | .ok state => m.goto state

end Querymt.Agent
