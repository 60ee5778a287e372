/-
`Agent/Context.lean` -- does the model's context only grow?

Every state of the loop carries the conversation by value: the response is appended
in `transition_after_llm`, the tool results in `store_all_tool_results`, and a
middleware or a wait injects messages at the end. `Complete` is the state that
carries none, and both ways back from it miss the last response: the stop hook
restarts from the context the turn began with (`state.context()` is always `None`
there), and a middleware at the end of the turn has only the contexts it was shown
earlier. The file proves that nothing else loses messages or steps.
-/
import Querymt.Agent.Answers

set_option autoImplicit false

open Runs

namespace Querymt.Agent

/-! ## 1. The law -/

/-- A response as a message of the context. -/
def response_message (response : LlmResponse) : ChatMessage :=
  ⟨.Assistant, (response_parts response).flatMap (MessagePart.to_content true none)⟩

/-- The context of a call and the context of the next one: the messages of the first,
its response, the results of its tool calls, then what was injected. -/
def Follows (context : ConversationContext) (outcome : LlmOutcome)
    (next : ConversationContext) : Prop :=
  ∃ (response : LlmResponse) (results : List ChatMessage) (injected : List String),
    outcome = .Response response ∧
    next.messages = context.messages ++
      response_message response :: (results ++ injected.map injected_message) ∧
    results.flatMap ChatMessage.tool_result_ids =
      response.tool_calls.map MiddlewareToolCall.id ∧
    ∀ result ∈ results, result.role = .User ∧ result.tool_result_ids ≠ []

/-- A context that may come after an entry of the trail; a compaction starts afresh. -/
def MayFollow : TrailEntry → ConversationContext → Prop
  | .Called context outcome, next => Follows context outcome next
  | .Compacted, _ => True

/-- **Two entries in a row**: the second call of two without a compaction between them
extends the first. -/
def Extends (entry : TrailEntry) : TrailEntry → Prop
  | .Called next _ => MayFollow entry next
  | .Compacted => True

/-- The contexts a run goes through. -/
def contexts (cfg : Config) (m : Machine) (envs : List Env) : List ConversationContext :=
  (trace (iterate cfg) m envs).filterMap fun m => m.state.context

/-! ## 2. The condition -/

/-- `inject_message`, any number of times. -/
def Injects (context next : ConversationContext) : Prop :=
  (∃ injected : List String, next.messages = context.messages ++ injected.map injected_message) ∧
    next.stats.steps = context.stats.steps

/-- The messages and the step count of a context are left alone. -/
def Leaves (context next : ConversationContext) : Prop :=
  next.messages = context.messages ∧ next.stats.steps = context.stats.steps

/-- What a phase before the end of the turn makes of a state: it injects messages before
a call, leaves a response and pending calls alone, or ends the turn. -/
def Passes (s : ExecutionState) : ExecutionState → Prop
  | .BeforeLlmCall next | .CallLlm next _ | .WaitingForEvent next _ =>
      ∃ context, s = .BeforeLlmCall context ∧ Injects context next
  | .AfterLlm response next => ∃ context, s = .AfterLlm response context ∧ Leaves context next
  | .ProcessingToolCalls remaining_calls results next =>
      s.is_processing = true ∧
        results.map ToolResult.call_id ++ remaining_calls.map MiddlewareToolCall.id =
          s.pending_ids ∧
        ∃ context, s.context = some context ∧ Leaves context next
  | .Stopped _ _ (some next) =>
      ∃ context, s.context = some context ∧ next.stats.steps = context.stats.steps
  | .Stopped _ _ none | .Complete | .Cancelled => True

/-- The stop hook asks for another step and is heard. -/
def ContinuesTurn (m : Machine) (env : Env) : Prop :=
  ∃ stop_hook, env.stop_hook = .ok stop_hook ∧ stop_hook.should_continue = true ∧
    m.stop_hook_continuations < MAX_STOP_HOOK_CONTINUATIONS_PER_TURN

/-- **The condition.** The middleware around a call only injects messages before it or
ends the turn, the middleware at the end of the turn does not send it back, and no stop
hook continues a turn that has called the model. -/
def KeepsContext (m : Machine) (env : Env) : Prop :=
  m.outcome = none →
    match m.state with
    | .BeforeLlmCall _ => Answers (run_phase .StepStart env.drivers m.state) (Passes m.state)
    | .AfterLlm _ _ => Answers (run_phase .AfterLlm env.drivers m.state) (Passes m.state)
    | .ProcessingToolCalls _ _ _ =>
        Answers (run_phase .ProcessingToolCalls env.drivers m.state) (Passes m.state)
    | .Complete =>
        Answers (run_phase .TurnEnd env.drivers m.state) fun s =>
          s.context = none ∧ (s = .Complete → ContinuesTurn m env → m.trail = [])
    | .CallLlm _ _ | .WaitingForEvent _ _ | .Stopped _ _ _ | .Cancelled => True

/-! ## 3. Following, step by step -/

theorem Injects.refl (context : ConversationContext) : Injects context context :=
  ⟨⟨[], (List.append_nil _).symm⟩, rfl⟩

theorem injects_inject_message (context : ConversationContext) (content : String) :
    Injects context (context.inject_message content) :=
  ⟨⟨[content], rfl⟩, rfl⟩

/-- Injected messages come after the results. -/
theorem Follows.inject {context next next' : ConversationContext} {outcome : LlmOutcome}
    (h : Follows context outcome next) (hinject : Injects next next') :
    Follows context outcome next' := by
  obtain ⟨response, results, injected, houtcome, hmessages, hids, hresults⟩ := h
  obtain ⟨⟨more, hmore⟩, -⟩ := hinject
  refine ⟨response, results, injected ++ more, houtcome, ?_, hids, hresults⟩
  rw [hmore, hmessages, List.map_append, List.append_assoc, List.cons_append, List.append_assoc]

theorem MayFollow.inject {entry : TrailEntry} {next next' : ConversationContext}
    (h : MayFollow entry next) (hinject : Injects next next') : MayFollow entry next' := by
  rcases entry with ⟨context, outcome⟩ | _
  · exact Follows.inject h hinject
  · trivial

/-- The results of the pending calls, after the response that made them. -/
theorem Follows.of_results {cfg : Config} {env : Env} {context next : ConversationContext}
    {response : LlmResponse} {results : List ToolResult}
    (hmessages : next.messages = context.messages ++ [response_message response])
    (hids : results.map ToolResult.call_id = response.tool_calls.map MiddlewareToolCall.id)
    (hcalls : response.tool_calls ≠ []) :
    Follows context (.Response response)
      { next with messages := next.messages ++
          [(result_message cfg env results).to_chat_message] } := by
  have htraffic := traffic_to_chat_message (result_message cfg env results) none none none
  have hresult : (result_message cfg env results).to_chat_message.tool_result_ids =
      response.tool_calls.map MiddlewareToolCall.id := by
    have heq := congrArg Traffic.results htraffic
    rw [← hids, ← (result_message_traffic cfg env results).2.1]
    exact heq
  refine ⟨response, [(result_message cfg env results).to_chat_message], [], rfl, ?_, ?_, ?_⟩
  · rw [hmessages, List.append_assoc]
    rfl
  · rw [List.flatMap_cons, List.flatMap_nil, List.append_nil, hresult]
  · intro result hmem
    rw [List.mem_singleton.1 hmem]
    refine ⟨congrArg Traffic.role htraffic, ?_⟩
    rw [hresult]
    intro hnil
    exact hcalls (List.map_eq_nil_iff.1 hnil)

/-! ## 4. The invariant -/

/-- What a state owes to the last entry of the trail. -/
def Carries (trail : List TrailEntry) : ExecutionState → Prop
  | .BeforeLlmCall context | .CallLlm context _ | .WaitingForEvent context _ =>
      ∀ entry ∈ trail.getLast?, MayFollow entry context
  | .AfterLlm response context =>
      ∃ called, trail.getLast? = some (.Called called (.Response response)) ∧
        context.messages = called.messages
  | .ProcessingToolCalls remaining_calls results context =>
      ∃ called response, trail.getLast? = some (.Called called (.Response response)) ∧
        context.messages = called.messages ++ [response_message response] ∧
        results.map ToolResult.call_id ++ remaining_calls.map MiddlewareToolCall.id =
          response.tool_calls.map MiddlewareToolCall.id ∧
        response.tool_calls ≠ []
  | .Complete | .Stopped _ _ _ | .Cancelled => True

structure Threaded (m : Machine) : Prop where
  chain : m.trail.IsChain Extends
  carries : m.outcome = none → Carries m.trail m.state
  /-- before the first call no step has been counted -/
  opening : m.trail = [] → ∀ context, m.state.context = some context →
    context.stats.steps = m.initial_context.stats.steps

/-- The context a turn can go on from. -/
def resumable (m : Machine) : Option ConversationContext :=
  match m.state.context with
  | some context => some context
  | none => if m.trail.isEmpty then some m.initial_context else none

/-- No step is lost between two machines of a run. -/
def Grows (m m' : Machine) : Prop :=
  ∀ next, resumable m' = some next →
    ∃ context, resumable m = some context ∧ context.stats.steps ≤ next.stats.steps

theorem Grows.trans (m₁ m₂ m₃ : Machine) (h₁₂ : Grows m₁ m₂) (h₂₃ : Grows m₂ m₃) :
    Grows m₁ m₃ := by
  intro next hnext
  obtain ⟨context, hcontext, hle⟩ := h₂₃ next hnext
  obtain ⟨first, hfirst, hle'⟩ := h₁₂ context hcontext
  exact ⟨first, hfirst, hle'.trans hle⟩

theorem resumable_of_context {m : Machine} {context : ConversationContext}
    (h : m.state.context = some context) : resumable m = some context := by
  rw [resumable, h]

/-- One step of the loop. -/
def Advances (m m' : Machine) : Prop := Threaded m' ∧ Grows m m'

/-- A machine that returns where it stands. -/
theorem Advances.of_return {m m' : Machine} (h : Threaded m) (hstate : m'.state = m.state)
    (htrail : m'.trail = m.trail) (hinit : m'.initial_context = m.initial_context)
    (hout : m'.outcome ≠ none) : Advances m m' := by
  refine ⟨⟨?_, fun hnone => absurd hnone hout, ?_⟩, ?_⟩
  · rw [htrail]
    exact h.chain
  · rw [htrail, hstate, hinit]
    exact h.opening
  · intro next hnext
    have hsame : resumable m' = resumable m := by rw [resumable, resumable, hstate, htrail, hinit]
    exact ⟨next, hsame ▸ hnext, le_refl _⟩

/-- A step to a state without a context. -/
theorem Advances.of_bare {m m' : Machine} (h : Threaded m) (hstate : m'.state.context = none)
    (htrail : m'.trail = m.trail) (hinit : m'.initial_context = m.initial_context)
    (hcarries : Carries m.trail m'.state) : Advances m m' := by
  refine ⟨⟨?_, ?_, ?_⟩, ?_⟩
  · rw [htrail]
    exact h.chain
  · intro _
    rw [htrail]
    exact hcarries
  · intro _ context hcontext
    rw [hstate] at hcontext
    cases hcontext
  · intro next hnext
    rw [resumable, hstate, htrail, hinit] at hnext
    dsimp only at hnext
    split at hnext
    · next hempty =>
        rw [Option.some.injEq] at hnext
        rw [← hnext]
        -- nothing was called yet: the context at hand has the steps of the first one
        rcases hcontext : m.state.context with _ | context
        · refine ⟨m.initial_context, ?_, le_refl _⟩
          rw [resumable, hcontext]
          exact if_pos hempty
        · refine ⟨context, resumable_of_context hcontext, ?_⟩
          exact (h.opening (List.isEmpty_iff.1 hempty) context hcontext).le
    · cases hnext

/-- A step from one context to another. -/
theorem Advances.of_context {m m' : Machine} (h : Threaded m) {context next : ConversationContext}
    (hcontext : m.state.context = some context) (hnext : m'.state.context = some next)
    (htrail : m'.trail = m.trail) (hinit : m'.initial_context = m.initial_context)
    (hsteps : context.stats.steps ≤ next.stats.steps)
    (hopening : m.trail = [] → next.stats.steps = context.stats.steps)
    (hcarries : Carries m.trail m'.state) : Advances m m' := by
  refine ⟨⟨?_, ?_, ?_⟩, ?_⟩
  · rw [htrail]
    exact h.chain
  · intro _
    rw [htrail]
    exact hcarries
  · intro hnil context' hcontext'
    rw [hnext, Option.some.injEq] at hcontext'
    rw [htrail] at hnil
    rw [← hcontext', hopening hnil, hinit, h.opening hnil context hcontext]
  · intro next' hresume
    rw [resumable_of_context hnext, Option.some.injEq] at hresume
    rw [← hresume]
    exact ⟨context, resumable_of_context hcontext, hsteps⟩

/-- A step to the same context. -/
theorem Advances.of_same_context {m m' : Machine} (h : Threaded m) {context : ConversationContext}
    (hcontext : m.state.context = some context) (hnext : m'.state.context = some context)
    (htrail : m'.trail = m.trail) (hinit : m'.initial_context = m.initial_context)
    (hcarries : Carries m.trail m'.state) : Advances m m' :=
  .of_context h hcontext hnext htrail hinit (le_refl _) (fun _ => rfl) hcarries

/-- What the chain and the state need when the trail grows by one entry. -/
theorem Threaded.chain_snoc {m : Machine} (h : Threaded m) {entry : TrailEntry}
    (hlast : ∀ last ∈ m.trail.getLast?, Extends last entry) :
    (m.trail ++ [entry]).IsChain Extends := by
  rw [List.isChain_append]
  refine ⟨h.chain, List.isChain_singleton entry, ?_⟩
  intro last hmem y hy
  rw [List.head?_cons, Option.mem_some_iff] at hy
  rw [← hy]
  exact hlast last hmem

/-- A step that adds an entry to the trail. -/
theorem Advances.of_record {m m' : Machine} (h : Threaded m) {entry : TrailEntry}
    (hlast : ∀ last ∈ m.trail.getLast?, Extends last entry) (htrail : m'.trail = m.trail ++ [entry])
    (hcarries : m'.outcome = none → Carries (m.trail ++ [entry]) m'.state)
    (hsteps : ∀ next, m'.state.context = some next →
      ∃ context, m.state.context = some context ∧ context.stats.steps ≤ next.stats.steps) :
    Advances m m' := by
  have hne : m'.trail ≠ [] := by
    rw [htrail]
    exact List.append_ne_nil_of_right_ne_nil _ (List.cons_ne_nil _ _)
  refine ⟨⟨?_, ?_, fun hnil => absurd hnil hne⟩, ?_⟩
  · rw [htrail]
    exact h.chain_snoc hlast
  · rw [htrail]
    exact hcarries
  · intro next hnext
    rw [resumable] at hnext
    split at hnext
    · next context hcontext =>
        rw [Option.some.injEq] at hnext
        obtain ⟨first, hfirst, hle⟩ := hsteps context hcontext
        rw [← hnext]
        exact ⟨first, resumable_of_context hfirst, hle⟩
    · rw [if_neg (by rw [List.isEmpty_iff]; exact hne)] at hnext
      cases hnext

/-! ## 5. The middleware around a call -/

theorem Carries.pass {trail : List TrailEntry} {s s' : ExecutionState} (h : Carries trail s)
    (hpass : Passes s s') : Carries trail s' := by
  rcases s' with next | ⟨next, tools⟩ | ⟨response, next⟩ | ⟨remaining_calls, results, next⟩ |
    ⟨next, wait⟩ | _ | ⟨message, stop_type, context⟩ | _
  · obtain ⟨context, rfl, hinject⟩ := hpass
    exact fun entry hentry => (h entry hentry).inject hinject
  · obtain ⟨context, rfl, hinject⟩ := hpass
    exact fun entry hentry => (h entry hentry).inject hinject
  · obtain ⟨context, rfl, hmessages, -⟩ := hpass
    obtain ⟨called, hlast, heq⟩ := h
    exact ⟨called, hlast, hmessages.trans heq⟩
  · obtain ⟨hprocessing, hids, context, hcontext, hmessages, -⟩ := hpass
    -- only pending calls can be passed on as pending calls
    rcases s with _ | _ | _ | ⟨calls, done, context'⟩ | _ | _ | _ | _ <;>
      cases hprocessing
    obtain ⟨called, response, hlast, heq, hpending, hcalls⟩ := h
    rw [ExecutionState.context, Option.some.injEq] at hcontext
    rw [← hcontext] at hmessages
    exact ⟨called, response, hlast, hmessages.trans heq, hids.trans hpending, hcalls⟩
  · obtain ⟨context, rfl, hinject⟩ := hpass
    exact fun entry hentry => (h entry hentry).inject hinject
  · trivial
  · trivial
  · trivial

theorem Passes.steps {s s' : ExecutionState} (hpass : Passes s s') {next : ConversationContext}
    (hnext : s'.context = some next) :
    ∃ context, s.context = some context ∧ next.stats.steps = context.stats.steps := by
  rcases s' with next' | ⟨next', tools⟩ | ⟨response, next'⟩ | ⟨remaining_calls, results, next'⟩ |
    ⟨next', wait⟩ | _ | ⟨message, stop_type, _ | next'⟩ | _ <;>
    cases hnext
  · obtain ⟨context, rfl, -, hsteps⟩ := hpass
    exact ⟨context, rfl, hsteps⟩
  · obtain ⟨context, rfl, -, hsteps⟩ := hpass
    exact ⟨context, rfl, hsteps⟩
  · obtain ⟨context, rfl, -, hsteps⟩ := hpass
    exact ⟨context, rfl, hsteps⟩
  · obtain ⟨-, -, context, hcontext, -, hsteps⟩ := hpass
    exact ⟨context, hcontext, hsteps⟩
  · obtain ⟨context, rfl, -, hsteps⟩ := hpass
    exact ⟨context, rfl, hsteps⟩
  · exact hpass

section

variable {m : Machine} {cfg : Config} {env : Env}

theorem advances_pass (h : Threaded m) (hout : m.outcome = none) {s : ExecutionState}
    (hpass : Passes m.state s) : Advances m (m.goto s) := by
  have hcarries : Carries m.trail s := (h.carries hout).pass hpass
  rcases hnext : s.context with _ | next
  · exact .of_bare h hnext rfl rfl hcarries
  · obtain ⟨context, hcontext, hsteps⟩ := hpass.steps hnext
    exact .of_context h hcontext hnext rfl rfl hsteps.ge (fun _ => hsteps) hcarries

theorem advances_with_middleware (h : Threaded m) {phase : MiddlewarePhase}
    {continuation : ExecutionState → Machine}
    (hnext : ∀ s, run_phase phase env.drivers m.state = .ok s → Advances m (continuation s)) :
    Advances m (with_middleware env m phase continuation) := by
  rw [with_middleware]
  split
  · exact .of_return h rfl rfl rfl (Option.some_ne_none _)
  · next s hrun => exact hnext s hrun

/-! ## 6. The transitions -/

theorem advances_before_llm_call (h : Threaded m) (hout : m.outcome = none)
    {context : ConversationContext} (hpass : Passes m.state (.BeforeLlmCall context)) :
    Advances m (transition_before_llm_call env m context) := by
  rw [transition_before_llm_call]
  split
  · exact .of_bare h rfl rfl rfl trivial
  · split
    · exact .of_return h rfl rfl rfl (Option.some_ne_none _)
    · exact advances_pass h hout hpass

theorem advances_call_llm (h : Threaded m) (hout : m.outcome = none)
    {context : ConversationContext} {tools : List String} (hstate : m.state = .CallLlm context tools) :
    Advances m (transition_call_llm env m context) := by
  have hcontext : m.state.context = some context := by
    rw [hstate]
    rfl
  have hlast : ∀ last ∈ m.trail.getLast?, Extends last (.Called context env.llm) := by
    have hcarries := h.carries hout
    rw [hstate] at hcarries
    exact hcarries
  rw [transition_call_llm]
  split
  · exact .of_bare h rfl rfl rfl trivial
  · dsimp only
    split
    · exact .of_record h hlast rfl (fun _ => trivial) (fun next hnext => by cases hnext)
    · refine .of_record h hlast rfl (fun hnone => by cases hnone) ?_
      exact fun next hnext => ⟨next, hnext, le_refl _⟩
    · next response hllm =>
        refine .of_record h hlast rfl (fun _ => ⟨context, ?_, rfl⟩) ?_
        · rw [List.getLast?_concat, hllm]
        · intro next hnext
          rw [← Option.some.inj hnext]
          exact ⟨context, hcontext, le_refl _⟩

/-- The pre-turn snapshot touches the history only. -/
theorem ensure_pre_turn_snapshot_ready_frame (cfg : Config) (env : Env) (m : Machine) :
    (ensure_pre_turn_snapshot_ready cfg env m).state = m.state ∧
      (ensure_pre_turn_snapshot_ready cfg env m).trail = m.trail ∧
      (ensure_pre_turn_snapshot_ready cfg env m).initial_context = m.initial_context := by
  rw [ensure_pre_turn_snapshot_ready]
  split <;> exact ⟨rfl, rfl, rfl⟩

theorem steps_le_updated_stats (stats : AgentStats) (usage : Option Usage) :
    stats.steps ≤ (updated_stats stats usage).steps := by
  rcases usage with _ | u
  · exact le_refl _
  · exact Nat.le_succ _

/-- Where the machine goes after a response: to a state without a context, or on with
the context that ends in the response. -/
theorem state_after_llm_context (response : LlmResponse) (next : ConversationContext) :
    (state_after_llm response next = .Complete) ∨
      (∃ message stop_type, state_after_llm response next = .Stopped message stop_type (some next)) ∨
      (response.tool_calls ≠ [] ∧
        state_after_llm response next = .ProcessingToolCalls response.tool_calls [] next) := by
  rw [state_after_llm]
  split
  · exact .inl rfl
  · exact .inr (.inl ⟨_, _, rfl⟩)
  · exact .inr (.inl ⟨_, _, rfl⟩)
  all_goals
    by_cases hempty : response.tool_calls.isEmpty = true
    · rw [if_pos hempty]
      exact .inl rfl
    · rw [if_neg hempty]
      rw [List.isEmpty_iff] at hempty
      exact .inr (.inr ⟨hempty, rfl⟩)

theorem advances_after_llm (h : Threaded m) (hout : m.outcome = none) {response : LlmResponse}
    {context : ConversationContext} (hpass : Passes m.state (.AfterLlm response context)) :
    Advances m (transition_after_llm cfg env m response context) := by
  obtain ⟨hframe, hframe', hframe''⟩ := ensure_pre_turn_snapshot_ready_frame cfg env m
  obtain ⟨called, hlast, hmessages⟩ := (h.carries hout).pass hpass
  obtain ⟨first, hfirst, hsteps⟩ := hpass.steps rfl
  have hne : m.trail ≠ [] := by
    intro hnil
    rw [hnil] at hlast
    cases hlast
  rw [transition_after_llm]
  split
  · exact .of_bare h rfl rfl rfl trivial
  · dsimp only
    split
    · exact .of_return h hframe hframe' hframe'' (Option.some_ne_none _)
    · have hle : first.stats.steps ≤ (context_after_llm cfg env response context).stats.steps := by
        rw [← hsteps]
        exact steps_le_updated_stats context.stats response.usage
      rcases state_after_llm_context response (context_after_llm cfg env response context) with
        hnext | ⟨message, stop_type, hnext⟩ | ⟨hcalls, hnext⟩
      · rw [hnext]
        exact .of_bare h rfl hframe' hframe'' trivial
      · rw [hnext]
        exact .of_context h hfirst rfl hframe' hframe'' hle (fun hnil => absurd hnil hne) trivial
      · rw [hnext]
        refine .of_context h hfirst rfl hframe' hframe'' hle (fun hnil => absurd hnil hne) ?_
        refine ⟨called, response, hlast, ?_, rfl, hcalls⟩
        rw [← hmessages]
        rfl

theorem advances_store_all_tool_results (h : Threaded m) {first context : ConversationContext}
    (hfirst : m.state.context = some first) (hsteps : context.stats.steps = first.stats.steps)
    {called : ConversationContext} {response : LlmResponse}
    (hlast : m.trail.getLast? = some (.Called called (.Response response)))
    (hmessages : context.messages = called.messages ++ [response_message response])
    {results : List ToolResult}
    (hids : results.map ToolResult.call_id = response.tool_calls.map MiddlewareToolCall.id)
    (hcalls : response.tool_calls ≠ []) (cancelled : Bool) :
    Advances m (store_all_tool_results cfg env m results context cancelled) := by
  rw [store_all_tool_results]
  rcases hside : record_all_side_effects env results with error | ⟨adjusted, waits⟩
  · exact .of_return h rfl rfl rfl (Option.some_ne_none _)
  · dsimp only
    rw [← record_all_side_effects_call_ids hside] at hids
    have hfollows : ∀ entry ∈ m.trail.getLast?, MayFollow entry
        { context with messages := context.messages ++
            [(result_message cfg env adjusted).to_chat_message] } := by
      intro entry hentry
      rw [hlast, Option.mem_some_iff] at hentry
      rw [← hentry]
      exact Follows.of_results hmessages hids hcalls
    split
    · exact .of_bare h rfl rfl rfl trivial
    · split
      · exact .of_context h hfirst rfl rfl rfl hsteps.ge (fun _ => hsteps) hfollows
      · exact .of_context h hfirst rfl rfl rfl hsteps.ge (fun _ => hsteps) hfollows

theorem advances_processing_tool_calls (h : Threaded m) (hout : m.outcome = none)
    {remaining_calls : List MiddlewareToolCall} {results : List ToolResult}
    {context : ConversationContext}
    (hpass : Passes m.state (.ProcessingToolCalls remaining_calls results context)) :
    Advances m (transition_processing_tool_calls cfg env m remaining_calls results context) := by
  obtain ⟨called, response, hlast, hmessages, hids, hcalls⟩ := (h.carries hout).pass hpass
  obtain ⟨first, hfirst, hsteps⟩ := hpass.steps rfl
  rw [transition_processing_tool_calls]
  split
  · next hempty =>
      rw [List.isEmpty_iff] at hempty
      rw [hempty, List.map_nil, List.append_nil] at hids
      exact advances_store_all_tool_results h hfirst hsteps hlast hmessages hids hcalls _
  · refine advances_store_all_tool_results h hfirst hsteps hlast hmessages ?_ hcalls _
    rw [List.map_append, map_run_tool_call_id]
    exact hids

theorem advances_waiting_for_event (h : Threaded m) (hout : m.outcome = none)
    {context : ConversationContext} {wait : WaitCondition}
    (hstate : m.state = .WaitingForEvent context wait) :
    Advances m (transition_waiting_for_event cfg env m context) := by
  have hcontext : m.state.context = some context := by
    rw [hstate]
    rfl
  have hcarries : ∀ entry ∈ m.trail.getLast?, MayFollow entry context := by
    have := h.carries hout
    rw [hstate] at this
    exact this
  rw [transition_waiting_for_event]
  split
  · exact .of_bare h rfl rfl rfl trivial
  · split
    · exact .of_bare h rfl rfl rfl trivial
    · exact .of_same_context h hcontext rfl rfl rfl trivial
    · exact .of_same_context h hcontext rfl rfl rfl hcarries
    · next message _ =>
        refine .of_context h hcontext rfl rfl rfl (le_refl _) (fun _ => rfl) ?_
        exact fun entry hentry =>
          (hcarries entry hentry).inject (injects_inject_message context message)

/-- The stop hook goes back to the first context: nothing may have been called. -/
theorem advances_complete_turn (h : Threaded m) (hstate : m.state = .Complete)
    (hcontinue : ContinuesTurn m env → m.trail = []) : Advances m (complete_turn cfg env m) := by
  rw [complete_turn]
  split
  · exact .of_return h rfl rfl rfl (Option.some_ne_none _)
  · next stop_hook hhook =>
      split
      · next hmore =>
          have hnil : m.trail = [] := hcontinue ⟨stop_hook, hhook, hmore.1, hmore.2⟩
          have hresume : resumable m = some m.initial_context := by
            rw [resumable, hstate, hnil]
            rfl
          rw [hstate]
          refine ⟨⟨h.chain, ?_, ?_⟩, ?_⟩
          · intro _ entry hentry
            change entry ∈ m.trail.getLast? at hentry
            rw [hnil] at hentry
            cases hentry
          · intro _ context hcontext
            rw [← Option.some.inj hcontext]
            rfl
          · intro next hnext
            refine ⟨m.initial_context, hresume, ?_⟩
            rw [← Option.some.inj hnext]
            exact le_refl _
      · split
        · exact .of_return h rfl rfl rfl (Option.some_ne_none _)
        · exact .of_return h rfl rfl rfl (Option.some_ne_none _)

/-- A compaction goes on from the same step, with an entry of its own in the trail. -/
theorem run_ai_compaction_advances (h : Threaded m) :
    (∀ s, (run_ai_compaction cfg env m).2 = .ok s →
      Advances m ((run_ai_compaction cfg env m).1.goto s)) ∧
    (∀ error, (run_ai_compaction cfg env m).2 = .error error → ∀ m' : Machine,
      m'.state = (run_ai_compaction cfg env m).1.state →
      m'.trail = (run_ai_compaction cfg env m).1.trail →
      m'.initial_context = (run_ai_compaction cfg env m).1.initial_context →
      m'.outcome ≠ none → Advances m m') := by
  have hlast : ∀ last ∈ m.trail.getLast?, Extends last .Compacted := fun _ _ => trivial
  -- a compaction whose outcome cannot be used has left its entry
  have hfailed : ∀ m' : Machine, m'.state = m.state → m'.trail = m.trail ++ [.Compacted] →
      m'.outcome ≠ none → Advances m m' := by
    intro m' hstate htrail hout
    refine .of_record h hlast htrail (fun hnone => absurd hnone hout) ?_
    intro next hnext
    rw [hstate] at hnext
    exact ⟨next, hnext, le_refl _⟩
  rw [run_ai_compaction]
  split
  · refine ⟨fun s hs => (by cases hs), ?_⟩
    intro _ _ m' hstate htrail hinit hout
    exact .of_return h hstate htrail hinit hout
  · refine ⟨?_, fun _ herror => by cases herror⟩
    intro s hs
    cases hs
    rcases hcontext : m.state.context with _ | context
    · exact .of_bare h rfl rfl rfl trivial
    · exact .of_same_context h hcontext rfl rfl rfl trivial
  · dsimp only
    split
    · refine ⟨fun s hs => (by cases hs), ?_⟩
      intro _ _ m' hstate htrail _ hout
      exact hfailed m' hstate htrail hout
    · refine ⟨fun s hs => (by cases hs), ?_⟩
      intro _ _ m' hstate htrail _ hout
      exact hfailed m' hstate htrail hout
    · next _ context hcontext _ =>
        refine ⟨?_, fun _ herror => by cases herror⟩
        intro s hs
        cases hs
        refine .of_record h hlast rfl (fun _ => ?_) ?_
        · intro entry hentry
          rw [List.getLast?_concat, Option.mem_some_iff] at hentry
          rw [← hentry]
          trivial
        · intro next hnext
          rw [← Option.some.inj hnext]
          exact ⟨context, hcontext, le_refl _⟩

theorem advances_stop_turn (h : Threaded m) (message : String) (stop_type : StopType)
    (context : Option ConversationContext) :
    Advances m (stop_turn cfg env m message stop_type context) := by
  obtain ⟨hok, herror⟩ := @run_ai_compaction_advances m cfg env h
  rw [stop_turn]
  dsimp only
  split
  · split
    · next m1 new_state heq =>
        rw [heq] at hok
        exact hok new_state rfl
    · next m1 error heq =>
        rw [heq] at herror
        exact herror error rfl _ rfl rfl rfl (Option.some_ne_none _)
  · exact .of_return h rfl rfl rfl (Option.some_ne_none _)

/-- **One iteration under the condition.** -/
theorem advances_iterate (h : Threaded m) (hC : KeepsContext m env) :
    Advances m (iterate cfg m env) := by
  rw [iterate]
  by_cases hover : m.outcome.isSome = true
  · rw [if_pos hover]
    exact ⟨h, fun next hnext => ⟨next, hnext, le_refl _⟩⟩
  · rw [if_neg hover]
    have hout : m.outcome = none := by
      rw [← Option.not_isSome_iff_eq_none]
      exact hover
    have hphase := hC hout
    split
    · exact .of_return h rfl rfl rfl (Option.some_ne_none _)
    · rcases hs : m.state with context | ⟨context, tools⟩ | ⟨response, context⟩ |
        ⟨remaining_calls, results, context⟩ | ⟨context, wait⟩ | _ | ⟨message, stop_type, context⟩ | _
      · rw [hs] at hphase
        refine advances_with_middleware h fun s hrun => ?_
        have hpass : Passes m.state s := hs ▸ Answers.of_ok hphase (hs ▸ hrun)
        split
        · exact advances_before_llm_call h hout hpass
        · exact advances_pass h hout hpass
      · exact advances_call_llm h hout hs
      · rw [hs] at hphase
        refine advances_with_middleware h fun s hrun => ?_
        have hpass : Passes m.state s := hs ▸ Answers.of_ok hphase (hs ▸ hrun)
        split
        · exact advances_after_llm h hout hpass
        · exact advances_pass h hout hpass
      · rw [hs] at hphase
        refine advances_with_middleware h fun s hrun => ?_
        have hpass : Passes m.state s := hs ▸ Answers.of_ok hphase (hs ▸ hrun)
        split
        · exact advances_processing_tool_calls h hout hpass
        · exact advances_pass h hout hpass
      · exact advances_waiting_for_event h hout hs
      · rw [hs] at hphase
        refine advances_with_middleware h fun s hrun => ?_
        obtain ⟨hnone, hcontinue⟩ := Answers.of_ok hphase (hs ▸ hrun)
        split
        · exact advances_complete_turn h hs (hcontinue rfl)
        · refine .of_bare h hnone rfl rfl ?_
          rcases s with _ | _ | _ | _ | _ | _ | ⟨_, _, _ | _⟩ | _ <;> trivial
      · exact advances_stop_turn h message stop_type context
      · exact .of_return h rfl rfl rfl (Option.some_ne_none _)

end

/-! ## 7. The review at the end of a turn

`DedupCheckMiddleware` is the one middleware that sends a completed turn back, and it
never meets the condition: the context it captured was the one given to
`on_after_llm`, from before the response. -/

/-- `DedupCheckMiddleware`, with the context it captured last and the review of the
turn's changes: `none` when it is disabled or done, or found nothing. -/
def dedup_check (last_context : Option ConversationContext) (review : Option String) :
    MiddlewareDriver
  | .TurnEnd, .Complete =>
      match last_context, review with
      | some context, some summary => .ok (.BeforeLlmCall (context.inject_message summary))
      | _, _ => .ok .Complete
  | _, state => .ok state

/-- **A review drops the response it reviews**: going back from the context of
`on_after_llm`, the next call does not follow the last one. -/
theorem review_forgets_response {trail : List TrailEntry} {response : LlmResponse}
    {context : ConversationContext} (h : Carries trail (.AfterLlm response context))
    (summary : String) :
    ∃ next, run_phase .TurnEnd [dedup_check (some context) (some summary)] .Complete =
        .ok (.BeforeLlmCall next) ∧
      ¬ Carries trail (.BeforeLlmCall next) := by
  refine ⟨context.inject_message summary, rfl, ?_⟩
  intro hcarries
  obtain ⟨called, hlast, hmessages⟩ := h
  have hfollows : Follows called (.Response response) (context.inject_message summary) :=
    hcarries (.Called called (.Response response)) hlast
  obtain ⟨response', results, injected, -, heq, -, -⟩ := hfollows
  change context.messages ++ [injected_message summary] = _ at heq
  rw [hmessages] at heq
  have hhead := List.append_cancel_left heq
  rw [List.cons.injEq] at hhead
  -- the injected message is the user's, the response the assistant's
  have hrole : ChatRole.User = ChatRole.Assistant := congrArg ChatMessage.role hhead.1
  cases hrole

/-! ## 8. Every run -/

theorem threaded_start {cfg : Config} {history : List AgentMessage}
    {snapshot : Option (String × Option String)} {drivers : List MiddlewareDriver}
    (h : Answers (run_phase .TurnStart drivers
        (.BeforeLlmCall (start cfg history snapshot drivers).initial_context))
      (Passes (.BeforeLlmCall (start cfg history snapshot drivers).initial_context))) :
    Threaded (start cfg history snapshot drivers) := by
  have hinit : (start cfg history snapshot drivers).initial_context =
      starting_context cfg history ((cfg.llm_config.map Prod.fst).getD "")
        ((cfg.llm_config.map Prod.snd).getD "") := by
    rw [start]
    dsimp only
    split
    · rfl
    · split <;> rfl
  rw [hinit] at h
  rw [start]
  dsimp only
  split
  · refine ⟨List.isChain_nil, fun hnone => (by cases hnone), ?_⟩
    intro _ context hcontext
    rw [← Option.some.inj hcontext]
    rfl
  · split
    · refine ⟨List.isChain_nil, fun hnone => (by cases hnone), ?_⟩
      intro _ context hcontext
      rw [← Option.some.inj hcontext]
      rfl
    · next s hrun =>
        have hpass := Answers.of_ok h hrun
        have hcarries : Carries [] (.BeforeLlmCall (starting_context cfg history
            ((cfg.llm_config.map Prod.fst).getD "") ((cfg.llm_config.map Prod.snd).getD ""))) :=
          fun entry hentry => by cases hentry
        refine ⟨List.isChain_nil, fun _ => hcarries.pass hpass, ?_⟩
        intro _ context hcontext
        obtain ⟨first, hfirst, hsteps⟩ := hpass.steps hcontext
        rw [hsteps, ← Option.some.inj hfirst]
        rfl

/-- **The context only grows.** In every run that meets the condition, the messages of
each model call are those of the call before it, its response and its tool results, and
then injected messages, unless a compaction came between; and the step count of the
contexts never decreases. -/
theorem context_only_grows (cfg : Config) (history : List AgentMessage)
    (snapshot : Option (String × Option String)) (drivers : List MiddlewareDriver)
    (envs : List Env)
    (hstart : Answers (run_phase .TurnStart drivers
        (.BeforeLlmCall (start cfg history snapshot drivers).initial_context))
      (Passes (.BeforeLlmCall (start cfg history snapshot drivers).initial_context)))
    (hkeeps : Along (iterate cfg) KeepsContext (start cfg history snapshot drivers) envs) :
    (run (iterate cfg) (start cfg history snapshot drivers) envs).trail.IsChain Extends ∧
      (contexts cfg (start cfg history snapshot drivers) envs).Pairwise fun context next =>
        context.stats.steps ≤ next.stats.steps := by
  have hthreaded := threaded_start hstart
  have hstep : ∀ m env, Threaded m → KeepsContext m env → Threaded (iterate cfg m env) :=
    fun m env h hC => (advances_iterate h hC).1
  constructor
  · exact (run_invariant hkeeps hstep hthreaded).chain
  · have hgrows : (trace (iterate cfg) (start cfg history snapshot drivers) envs).Pairwise Grows :=
      pairwise_trace Grows.trans
        (along_of_invariant hkeeps hstep (fun m env h hC => (advances_iterate h hC).2) hthreaded)
    rw [contexts, List.pairwise_filterMap]
    refine hgrows.imp ?_
    intro m m' hm context hcontext next hnext
    obtain ⟨first, hfirst, hle⟩ := hm next (resumable_of_context hnext)
    rw [resumable_of_context hcontext, Option.some.injEq] at hfirst
    rw [hfirst]
    exact hle

/-- A response that calls one tool and is counted as a step. -/
def counted_call : LlmResponse := { calls_shell with usage := some ⟨10, 5, 0, 0, 0⟩ }

/-- The model calls a tool and answers; then the stop hook asks for another step. -/
def stop_hook_turn : List Env :=
  [quiet_env .Cancelled, quiet_env (.Response counted_call), quiet_env .Cancelled,
   quiet_env .Cancelled, quiet_env .Cancelled, quiet_env (.Response ends_turn),
   quiet_env .Cancelled,
   { quiet_env .Cancelled with stop_hook := .ok ⟨true, some "run the tests", none, []⟩ },
   quiet_env .Cancelled, quiet_env (.Response ends_turn)]

theorem Follows.length_lt {context next : ConversationContext} {outcome : LlmOutcome}
    (h : Follows context outcome next) : context.messages.length < next.messages.length := by
  obtain ⟨response, results, injected, -, hmessages, -, -⟩ := h
  rw [hmessages, List.length_append, List.length_cons]
  omega

/-- The third call gets the context the turn began with: the work of the turn is gone
from it, and so are the counted steps. -/
theorem stop_hook_forgets_turn :
    ¬ (run (iterate plain_config) (start plain_config [] none []) stop_hook_turn).trail.IsChain
        Extends ∧
      ¬ (contexts plain_config (start plain_config [] none []) stop_hook_turn).Pairwise
        fun context next => context.stats.steps ≤ next.stats.steps := by
  constructor
  · intro h
    have hthird : Follows _ _ _ := List.isChain_iff_getElem.1 h 1 (by decide)
    exact absurd hthird.length_lt (by decide)
  · decide

theorem keepsContext_of_no_drivers {m : Machine} {env : Env} (hdrivers : env.drivers = [])
    (hhook : ¬ ContinuesTurn m env) : KeepsContext m env := by
  intro _
  rw [hdrivers]
  rcases hs : m.state with context | _ | ⟨response, context⟩ | ⟨calls, results, context⟩ | _ | _ | _ | _
  · exact ⟨context, rfl, Injects.refl context⟩
  · trivial
  · exact ⟨context, rfl, rfl, rfl⟩
  · exact ⟨rfl, rfl, context, rfl, rfl, rfl⟩
  · trivial
  · exact ⟨rfl, fun _ h => absurd h hhook⟩
  · trivial
  · trivial

theorem tool_turn_context_grows :
    (run (iterate plain_config) (start plain_config [] none []) tool_turn).trail.length = 2 ∧
      (run (iterate plain_config) (start plain_config [] none []) tool_turn).trail.IsChain
        Extends := by
  have hquiet : ∀ env ∈ tool_turn, env.drivers = [] ∧
      env.stop_hook = .ok ⟨false, none, none, []⟩ := by
    simp [tool_turn, quiet_env]
  refine ⟨rfl, (context_only_grows plain_config [] none [] tool_turn ?_ ?_).1⟩
  · exact ⟨_, rfl, Injects.refl _⟩
  · refine along_of_forall fun m env henv => ?_
    refine keepsContext_of_no_drivers (hquiet env henv).1 ?_
    rintro ⟨stop_hook, hhook, hcontinue, -⟩
    rw [(hquiet env henv).2, Except.ok.injEq] at hhook
    rw [← hhook] at hcontinue
    cases hcontinue

end Querymt.Agent
