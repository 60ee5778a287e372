/-
`Agent/State.lean` -- the states of an agent turn, and the middleware between them.

Mirrors `middleware/state.rs` (statistics, conversation context, response, tool
results, wait conditions, `ExecutionState`) and `middleware/driver.rs` (the composite
driver). Costs are floating point and take no part in any transition, so the
statistics hold the token counts only. A middleware is what its hooks did when they
were called: its own state, the store and the runtime it reads are not modelled, and
its answers are arbitrary.
-/
import Querymt.Agent.Model

set_option autoImplicit false

namespace Querymt.Agent

/-! ## 1. Statistics and context -/

/-- Token usage of one response; the fields are `u32`. -/
structure Usage where
  input_tokens : ℕ
  output_tokens : ℕ
  reasoning_tokens : ℕ
  cache_read : ℕ
  cache_write : ℕ
  deriving DecidableEq

structure AgentStats where
  steps : ℕ := 0
  turns : ℕ := 0
  total_input_tokens : ℕ := 0
  total_output_tokens : ℕ := 0
  context_tokens : ℕ := 0
  reasoning_tokens : ℕ := 0
  cache_read_tokens : ℕ := 0
  cache_write_tokens : ℕ := 0
  deriving DecidableEq

/-- `calculate_context_tokens`; the sum is taken in `u32`. -/
def calculate_context_tokens : Option Usage → ℕ
  | some u => (u.input_tokens + u.output_tokens + u.reasoning_tokens + u.cache_read +
      u.cache_write) % 2 ^ 32
  | none => 0

inductive AgentMode where
  | Build
  | Plan
  | Review
  deriving DecidableEq

structure ConversationContext where
  session_id : String
  messages : List ChatMessage
  stats : AgentStats
  provider : String
  model : String
  session_mode : AgentMode

/-- The message `inject_message` adds. -/
def injected_message (content : String) : ChatMessage := ⟨.User, [.Text content]⟩

def ConversationContext.inject_message (c : ConversationContext) (content : String) :
    ConversationContext :=
  { c with messages := c.messages ++ [injected_message content] }

/-! ## 2. Responses and tool results -/

structure ToolFunction where
  name : String
  arguments : String
  deriving DecidableEq

/-- The tool call of `middleware/state.rs`. -/
structure MiddlewareToolCall where
  id : String
  function : ToolFunction
  deriving DecidableEq

structure LlmResponse where
  content : String
  thinking : Option String
  thinking_signature : Option String
  tool_calls : List MiddlewareToolCall
  usage : Option Usage
  finish_reason : Option FinishReason
  message_id : Option String
  deriving DecidableEq

/-- The part with which a tool result reports file changes: always a
`MessagePart::Snapshot`. -/
structure SnapshotPart where
  root_hash : ℕ
  changed_paths : DiffPaths
  deriving DecidableEq

structure ToolResult where
  call_id : String
  content : List Content
  is_error : Bool
  tool_name : Option String
  tool_arguments : Option String
  snapshot_part : Option SnapshotPart

/-- `ToolResult::new`. -/
def ToolResult.new (call_id : String) (content : List Content) (is_error : Bool)
    (tool_name tool_arguments : Option String) : ToolResult :=
  ⟨call_id, content, is_error, tool_name, tool_arguments, none⟩

/-- `WaitReason` has the one value `Delegation`. -/
structure WaitCondition where
  correlation_ids : List String
  deriving DecidableEq

/-- `WaitCondition::merge`. -/
def WaitCondition.merge (conditions : List WaitCondition) : Option WaitCondition :=
  if conditions.isEmpty then none
  else some ⟨conditions.flatMap WaitCondition.correlation_ids⟩

/-! ## 3. Execution states -/

inductive StopType where
  | StepLimit
  | TurnLimit
  | PriceLimit
  | ContextThreshold
  | ModelTokenLimit
  | ContentFilter
  | DelegationBlocked
  | Other
  deriving DecidableEq

inductive StopReason where
  | EndTurn
  | MaxTokens
  | MaxTurnRequests
  deriving DecidableEq

/-- `StopReason::from(stop_type)`. -/
def StopType.stop_reason : StopType → StopReason
  | .StepLimit | .TurnLimit | .DelegationBlocked => .MaxTurnRequests
  | .PriceLimit | .ContextThreshold | .ModelTokenLimit => .MaxTokens
  | .ContentFilter | .Other => .EndTurn

/-- `tools` are the names of the tools offered to the model. -/
inductive ExecutionState where
  | BeforeLlmCall (context : ConversationContext)
  | CallLlm (context : ConversationContext) (tools : List String)
  | AfterLlm (response : LlmResponse) (context : ConversationContext)
  | ProcessingToolCalls (remaining_calls : List MiddlewareToolCall) (results : List ToolResult)
      (context : ConversationContext)
  | WaitingForEvent (context : ConversationContext) (wait : WaitCondition)
  | Complete
  | Stopped (message : String) (stop_type : StopType) (context : Option ConversationContext)
  | Cancelled

def ExecutionState.context : ExecutionState → Option ConversationContext
  | .BeforeLlmCall context => some context
  | .CallLlm context _ => some context
  | .AfterLlm _ context => some context
  | .ProcessingToolCalls _ _ context => some context
  | .WaitingForEvent context _ => some context
  | .Stopped _ _ context => context
  | .Complete | .Cancelled => none

/-- The tool calls that wait for their results in a state: those answered in memory
and those still to run. -/
def ExecutionState.pending_ids : ExecutionState → List String
  | .ProcessingToolCalls remaining_calls results _ =>
      results.map ToolResult.call_id ++ remaining_calls.map MiddlewareToolCall.id
  | _ => []

def ExecutionState.is_processing : ExecutionState → Bool
  | .ProcessingToolCalls _ _ _ => true
  | _ => false

/-! ## 4. The composite driver (`driver.rs`) -/

inductive MiddlewarePhase where
  | TurnStart
  | StepStart
  | AfterLlm
  | ProcessingToolCalls
  | TurnEnd
  deriving DecidableEq

/-- The hooks of one middleware: what each phase makes of a state. -/
abbrev MiddlewareDriver := MiddlewarePhase → ExecutionState → Except String ExecutionState

/-- Does the state end the pipeline of a phase? During `TurnEnd`, `Complete` is passed
on. -/
def MiddlewarePhase.is_terminal : MiddlewarePhase → ExecutionState → Bool
  | .TurnEnd, .Complete => false
  | _, .Complete => true
  | _, .Stopped _ _ _ => true
  | _, .Cancelled => true
  | _, _ => false

/-- `CompositeDriver::run_phase`. -/
def run_phase (phase : MiddlewarePhase) : List MiddlewareDriver → ExecutionState →
    Except String ExecutionState
  | [], state => .ok state
  | driver :: drivers, state =>
      match driver phase state with
      | .error e => .error e
      | .ok state' =>
          if phase.is_terminal state' then .ok state' else run_phase phase drivers state'

/-- What every middleware of a pipeline keeps, the pipeline keeps. -/
theorem run_phase_keeps {I : ExecutionState → Prop} {phase : MiddlewarePhase}
    {drivers : List MiddlewareDriver}
    (h : ∀ driver ∈ drivers, ∀ s s', I s → driver phase s = .ok s' → I s')
    {state state' : ExecutionState} (hI : I state) (heq : run_phase phase drivers state = .ok state') :
    I state' := by
  induction drivers generalizing state with
  | nil =>
      rw [run_phase, Except.ok.injEq] at heq
      rw [← heq]
      exact hI
  | cons driver drivers ih =>
      rw [run_phase] at heq
      rcases hd : driver phase state with e | mid
      · rw [hd] at heq
        cases heq
      · rw [hd] at heq
        have hmid : I mid := h driver List.mem_cons_self state mid hI hd
        dsimp only at heq
        split at heq
        · rw [Except.ok.injEq] at heq
          rw [← heq]
          exact hmid
        · exact ih (fun d hd' => h d (List.mem_cons_of_mem driver hd')) hmid heq

end Querymt.Agent
