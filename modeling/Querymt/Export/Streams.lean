/-
`Export/Streams.lean` -- the event stream of a session, and its export.

A session is a list of prompts, each answered by one run of the agent loop
(`Agent/Machine`). The file collects the events the runs emit, adds the tool events
the machine leaves out, and proves that every such stream keeps to the phases of
`Export/Turns`: a request is closed before anything is stored or run for it. With
that, the condition of `Export/Turns` decides the export of every session.

The tool calls of one response run in parallel, so the tool events of an iteration
come in any order and number. Events that neither side looks at may stand anywhere.

The order is that of emission. `emit_event` persists each event in a task of its own, and
the journal may number two of them the other way round; that is not part of this.
-/
import Querymt.Agent.Answers
import Querymt.Export.Turns

set_option autoImplicit false

namespace Querymt.Export

open Querymt.Agent

/-! ## 1. Streams -/

/-- The event of the state machine, as the exporter sees it. -/
def export_kind : Agent.AgentEventKind → AgentEventKind
  | .LlmRequestStart _ => .LlmRequestStart
  | .LlmRequestEnd usage _ finish_reason _ _ _ _ _ => .LlmRequestEnd usage finish_reason
  | .AssistantMessageStored content thinking _ => .AssistantMessageStored content thinking
  | .UserMessageStored content => .UserMessageStored content
  | .CompactionStart => .Other
  | .CompactionEnd _ => .Other
  | .MiddlewareStopped _ _ _ _ => .Other

/-- The events of `execute_tool_call`. -/
inductive ToolEvent where
  | Start (tool_call_id tool_name arguments : String)
  | End (tool_call_id tool_name : String) (is_error : Bool) (result : String)

def ToolEvent.kind : ToolEvent → AgentEventKind
  | .Start tool_call_id tool_name arguments => .ToolCallStart tool_call_id tool_name arguments
  | .End tool_call_id tool_name is_error result =>
      .ToolCallEnd tool_call_id tool_name is_error result

/-- One iteration of the loop, with the events its tools emit if it runs some. -/
structure Iteration where
  env : Env
  tool_events : List ToolEvent := []

def iteration_events (cfg : Config) (m : Machine) (i : Iteration) : List AgentEventKind :=
  (if m.outcome.isNone && m.state.is_processing then i.tool_events.map ToolEvent.kind else []) ++
    ((iterate cfg m i.env).events.drop m.events.length).map export_kind

/-- The events of the loop. -/
def loop_events (cfg : Config) (m : Machine) : List Iteration → List AgentEventKind
  | [] => []
  | i :: iterations =>
      iteration_events cfg m i ++ loop_events cfg (iterate cfg m i.env) iterations

/-- A prompt and the run that answers it; `message_stored` is false when storing the
prompt fails and the loop is not entered. -/
structure PromptRun where
  cfg : Config
  history : List AgentMessage
  pre_turn_snapshot_task : Option (String × Option String)
  drivers : List MiddlewareDriver
  display_content : String
  message_stored : Bool
  iterations : List Iteration

/-- `execute_prompt`: the prompt is announced and stored, then the loop runs. -/
def PromptRun.events (r : PromptRun) : List AgentEventKind :=
  .PromptReceived r.display_content ::
    if r.message_stored then
      .UserMessageStored r.display_content ::
        loop_events r.cfg (start r.cfg r.history r.pre_turn_snapshot_task r.drivers) r.iterations
    else []

/-- The events a turn or the conversation can depend on. -/
def AgentEventKind.shown : AgentEventKind → Bool
  | .ProviderChanged _ _ | .MiddlewareInjected _ | .ToolsAvailable _ | .DelegationCompleted _ _
  | .Other => false
  | _ => true

/-- The stream of a session: the events of its runs, with others anywhere between. -/
def StreamOf (runs : List PromptRun) (events : List AgentEvent) : Prop :=
  (events.map AgentEvent.kind).filter AgentEventKind.shown =
    (runs.flatMap PromptRun.events).filter AgentEventKind.shown

/-- The state holds a response or its tool calls. -/
def has_response : ExecutionState → Bool
  | .AfterLlm _ _ => true
  | .ProcessingToolCalls _ _ _ => true
  | _ => false

/-- A middleware hands on a response or tool calls only where it was given some. Every
middleware of the repository does; none builds such a state. -/
def MakesNothingUp (drivers : List MiddlewareDriver) : Prop :=
  ∀ driver ∈ drivers, ∀ phase s s', driver phase s = .ok s' →
    has_response s' = true → has_response s = true

/-- No middleware of the run makes up a response. -/
def PromptRun.Honest (r : PromptRun) : Prop :=
  MakesNothingUp r.drivers ∧ ∀ i ∈ r.iterations, MakesNothingUp i.env.drivers

/-! ## 2. Phases -/

theorem Phase.after_append (phase : Phase) (a b : List AgentEventKind) :
    phase.after (a ++ b) = (phase.after a).bind fun phase => phase.after b := by
  induction a generalizing phase with
  | nil => rfl
  | cons e a ih =>
      rw [List.cons_append, Phase.after, Phase.after]
      cases phase.advance e with
      | none => rfl
      | some phase' => exact ih phase'

/-- Events that are not shown do not move the phase. -/
theorem Phase.after_filter (phase : Phase) (events : List AgentEventKind) :
    phase.after (events.filter AgentEventKind.shown) = phase.after events := by
  induction events generalizing phase with
  | nil => rfl
  | cons e events ih =>
      by_cases hshown : e.shown = true
      · rw [List.filter_cons_of_pos hshown, Phase.after, Phase.after]
        cases phase.advance e with
        | none => rfl
        | some phase' => exact ih phase'
      · have hadv : phase.advance e = some phase := by
          cases e <;> first | rfl | exact absurd rfl hshown
        rw [List.filter_cons_of_neg hshown, ih, Phase.after, hadv]
        rfl

theorem Phase.after_tool_events (tool_events : List ToolEvent) :
    Phase.Closed.after (tool_events.map ToolEvent.kind) = some .Closed := by
  induction tool_events with
  | nil => rfl
  | cons e tool_events ih => cases e <;> exact ih

/-- What the prompt of a run does to the phase. -/
theorem Phase.advance_prompt (phase : Phase) (content : String) :
    ∃ phase', phase.advance (.PromptReceived content) = some phase' ∧
      phase.advance (.UserMessageStored content) = some phase' := by
  by_cases hopen : phase = .Open
  · exact ⟨.Failed, if_pos hopen, if_pos hopen⟩
  · exact ⟨phase, if_neg hopen, if_neg hopen⟩

/-! ## 3. One iteration -/

/-- From `m` to `m'` events are added that can come in this phase, and a response is
held only past a completed request. -/
def Proceeds (phase : Phase) (m m' : Machine) : Prop :=
  ∃ new phase', m'.events = m.events ++ new ∧ phase.after (new.map export_kind) = some phase' ∧
    (m'.outcome = none → has_response m'.state = true → phase' = .Closed)

theorem Proceeds.of_no_response {phase : Phase} {m m' : Machine} (hevents : m'.events = m.events)
    (hstate : m'.outcome = none → has_response m'.state = false) : Proceeds phase m m' := by
  refine ⟨[], phase, by simp [hevents], rfl, ?_⟩
  intro hout hresponse
  rw [hstate hout] at hresponse
  cases hresponse

theorem Proceeds.of_closed {m m' : Machine} (hevents : m'.events = m.events) :
    Proceeds .Closed m m' :=
  ⟨[], .Closed, by simp [hevents], rfl, fun _ _ => rfl⟩

/-- The events of a step that holds no response. -/
theorem Proceeds.of_events {phase : Phase} {m m' : Machine} (phase' : Phase)
    (new : List Agent.AgentEventKind) (hevents : m'.events = m.events ++ new)
    (hafter : phase.after (new.map export_kind) = some phase')
    (hstate : m'.outcome = none → has_response m'.state = false) : Proceeds phase m m' := by
  refine ⟨new, phase', hevents, hafter, ?_⟩
  intro hout hresponse
  rw [hstate hout] at hresponse
  cases hresponse

section

variable {cfg : Config} {env : Env} {m : Machine} {phase : Phase}

/-- A pipeline of such middleware makes up nothing. -/
theorem run_phase_makes_nothing_up {drivers : List MiddlewareDriver} (h : MakesNothingUp drivers)
    {p : MiddlewarePhase} {s s' : ExecutionState} (heq : run_phase p drivers s = .ok s')
    (hs : has_response s = false) : has_response s' = false := by
  refine run_phase_keeps (I := fun s => has_response s = false) ?_ hs heq
  intro driver hdriver s s' hs hok
  by_contra hcon
  rw [Bool.not_eq_false] at hcon
  rw [h driver hdriver p s s' hok hcon] at hs
  cases hs

/-- A middleware phase from a state without a response. -/
theorem proceeds_with_middleware (hdrivers : MakesNothingUp env.drivers) (p : MiddlewarePhase)
    (hstate : has_response m.state = false) {continuation : ExecutionState → Machine}
    (h : ∀ s, has_response s = false → Proceeds phase m (continuation s)) :
    Proceeds phase m (with_middleware env m p continuation) := by
  unfold with_middleware
  split
  · exact Proceeds.of_no_response rfl fun hout => by cases hout
  · next s heq => exact h s (run_phase_makes_nothing_up hdrivers heq hstate)

/-- A middleware phase past a completed request. -/
theorem proceeds_closed_with_middleware (p : MiddlewarePhase)
    {continuation : ExecutionState → Machine} (h : ∀ s, Proceeds .Closed m (continuation s)) :
    Proceeds .Closed m (with_middleware env m p continuation) := by
  unfold with_middleware
  split
  · exact Proceeds.of_closed rfl
  · next s _ => exact h s

theorem proceeds_goto {s : ExecutionState} (hs : has_response s = false) :
    Proceeds phase m (m.goto s) :=
  Proceeds.of_no_response rfl fun _ => hs

theorem proceeds_before_llm_call (context : ConversationContext) :
    Proceeds phase m (transition_before_llm_call env m context) := by
  unfold transition_before_llm_call
  split
  · exact proceeds_goto rfl
  · split
    · exact Proceeds.of_no_response rfl fun hout => by cases hout
    · exact proceeds_goto rfl

/-- A request is opened, and closed if there is a response. -/
theorem proceeds_call_llm (context : ConversationContext) :
    Proceeds phase m (transition_call_llm env m context) := by
  unfold transition_call_llm
  split
  · exact proceeds_goto rfl
  · dsimp only
    split
    · exact Proceeds.of_events .Open [.LlmRequestStart context.messages.length] rfl rfl fun _ => rfl
    · exact Proceeds.of_events .Open [.LlmRequestStart context.messages.length] rfl rfl
        fun hout => by cases hout
    · exact ⟨_, .Closed, List.append_assoc m.events _ _, rfl, fun _ _ => rfl⟩

theorem ensure_pre_turn_snapshot_ready_events :
    (ensure_pre_turn_snapshot_ready cfg env m).events = m.events := by
  unfold ensure_pre_turn_snapshot_ready
  split <;> rfl

theorem proceeds_after_llm (response : LlmResponse) (context : ConversationContext) :
    Proceeds .Closed m (transition_after_llm cfg env m response context) := by
  unfold transition_after_llm
  split
  · exact Proceeds.of_closed rfl
  · dsimp only
    split
    · exact Proceeds.of_closed (by simp [Machine.fail, ensure_pre_turn_snapshot_ready_events])
    · refine ⟨[.AssistantMessageStored response.content response.thinking
        (assistant_message cfg env response context).id], .Closed, ?_, rfl, fun _ _ => rfl⟩
      simp [Machine.goto, Machine.emit_event, Machine.add_message,
        ensure_pre_turn_snapshot_ready_events]

theorem proceeds_processing_tool_calls (remaining_calls : List MiddlewareToolCall)
    (results : List ToolResult) (context : ConversationContext) :
    Proceeds .Closed m
      (transition_processing_tool_calls cfg env m remaining_calls results context) := by
  have hstore : ∀ results cancelled,
      (store_all_tool_results cfg env m results context cancelled).events = m.events := by
    intro results cancelled
    unfold store_all_tool_results
    split
    · rfl
    · dsimp only
      split
      · rfl
      · split <;> rfl
  unfold transition_processing_tool_calls
  split
  · exact Proceeds.of_closed (hstore _ _)
  · exact Proceeds.of_closed (hstore _ _)

theorem proceeds_waiting_for_event (context : ConversationContext) :
    Proceeds phase m (transition_waiting_for_event cfg env m context) := by
  unfold transition_waiting_for_event
  split
  · exact proceeds_goto rfl
  · split
    · exact proceeds_goto rfl
    · exact proceeds_goto rfl
    · exact proceeds_goto rfl
    · next message _ =>
        obtain ⟨phase', -, hadv⟩ := phase.advance_prompt message
        refine Proceeds.of_events phase' [.UserMessageStored message] rfl ?_ fun _ => rfl
        rw [List.map_singleton, export_kind, Phase.after, hadv]
        rfl

theorem proceeds_complete_turn :
    Proceeds phase m (complete_turn cfg env m) := by
  unfold complete_turn
  split
  · exact Proceeds.of_no_response rfl fun hout => by cases hout
  · split
    · exact Proceeds.of_no_response rfl fun _ => rfl
    · split
      · exact Proceeds.of_no_response rfl fun hout => by cases hout
      · exact Proceeds.of_no_response rfl fun hout => by cases hout

/-- A compaction and a stop emit nothing that is shown. -/
theorem proceeds_stop_turn (message : String) (stop_type : StopType)
    (context : Option ConversationContext) :
    Proceeds phase m (stop_turn cfg env m message stop_type context) := by
  have hcompaction : ∃ new, (run_ai_compaction cfg env m).1.events = m.events ++ new ∧
      (∀ phase : Phase, phase.after (new.map export_kind) = some phase) ∧
      ∀ s, (run_ai_compaction cfg env m).2 = .ok s → has_response s = false := by
    unfold run_ai_compaction
    split
    · refine ⟨[], by simp, fun _ => rfl, ?_⟩
      intro s hs
      cases hs
    · refine ⟨[], by simp, fun _ => rfl, ?_⟩
      intro s hs
      cases hs
      rfl
    · next summary additional_contexts original_token_count reloaded _ =>
        refine ⟨[.CompactionStart, .CompactionEnd (with_contexts summary additional_contexts)],
          ?_, fun _ => rfl, ?_⟩
        · dsimp only
          split <;>
            simp [Machine.record, Machine.emit_event, Machine.add_message]
        · intro s hs
          dsimp only at hs
          split at hs
          · cases hs
          · cases hs
          · cases hs
            rfl
  obtain ⟨new, hevents, hafter, hok⟩ := hcompaction
  unfold stop_turn
  dsimp only
  split
  · split
    · next m1 new_state hrun =>
        rw [hrun] at hevents hok
        exact Proceeds.of_events phase new hevents (hafter phase) fun _ => hok new_state rfl
    · next m1 error hrun =>
        rw [hrun] at hevents
        refine Proceeds.of_events phase (new ++ [.MiddlewareStopped stop_type message
          ((context.map ConversationContext.stats).getD {}).steps
          ((context.map ConversationContext.stats).getD {}).turns]) ?_ ?_ fun hout => by cases hout
        · have hm1 : m1.events = m.events ++ new := hevents
          simp only [Machine.return_ok, Machine.emit_event, hm1, List.append_assoc]
        · rw [List.map_append, Phase.after_append, hafter]
          rfl
  · exact Proceeds.of_events phase [.MiddlewareStopped stop_type message _ _] rfl rfl
      fun hout => by cases hout

/-- **One iteration** of the loop keeps to the phases. -/
theorem proceeds_iterate (hdrivers : MakesNothingUp env.drivers)
    (hphase : m.outcome = none → has_response m.state = true → phase = .Closed) :
    Proceeds phase m (iterate cfg m env) := by
  unfold iterate
  split
  · next hout =>
      refine Proceeds.of_no_response rfl fun hnone => ?_
      rw [hnone] at hout
      cases hout
  · next hout =>
      have hnone : m.outcome = none := by simpa using hout
      split
      · exact Proceeds.of_no_response rfl fun hout => by cases hout
      · split
        · next context hstate =>
            refine proceeds_with_middleware hdrivers .StepStart (by rw [hstate]; rfl) ?_
            intro s hs
            split
            · exact proceeds_before_llm_call _
            · exact proceeds_goto hs
        · exact proceeds_call_llm _
        · next response context hstate =>
            rw [hphase hnone (by rw [hstate]; rfl)]
            refine proceeds_closed_with_middleware .AfterLlm ?_
            intro s
            split
            · exact proceeds_after_llm _ _
            · exact Proceeds.of_closed rfl
        · next remaining_calls results context hstate =>
            rw [hphase hnone (by rw [hstate]; rfl)]
            refine proceeds_closed_with_middleware .ProcessingToolCalls ?_
            intro s
            split
            · exact proceeds_processing_tool_calls _ _ _
            · exact Proceeds.of_closed rfl
        · exact proceeds_waiting_for_event _
        · next hstate =>
            refine proceeds_with_middleware hdrivers .TurnEnd (by rw [hstate]; rfl) ?_
            intro s hs
            split
            · exact proceeds_complete_turn
            · exact proceeds_goto hs
        · exact proceeds_stop_turn _ _ _
        · exact Proceeds.of_no_response rfl fun hout => by cases hout

end

/-! ## 4. Runs and sessions -/

/-- The tool events of an iteration come past a completed request. -/
theorem after_iteration_events {cfg : Config} {m : Machine} {phase : Phase} (i : Iteration)
    (hdrivers : MakesNothingUp i.env.drivers)
    (hphase : m.outcome = none → has_response m.state = true → phase = .Closed) :
    ∃ phase', phase.after (iteration_events cfg m i) = some phase' ∧
      ((iterate cfg m i.env).outcome = none → has_response (iterate cfg m i.env).state = true →
        phase' = .Closed) := by
  have hproceeds : Proceeds phase m (iterate cfg m i.env) := proceeds_iterate hdrivers hphase
  obtain ⟨new, phase', hevents, hafter, hclosed⟩ := hproceeds
  refine ⟨phase', ?_, hclosed⟩
  unfold iteration_events
  rw [hevents, List.drop_left, Phase.after_append]
  split
  · next hprocessing =>
      rw [Bool.and_eq_true, Option.isNone_iff_eq_none] at hprocessing
      have hresponse : has_response m.state = true := by
        cases hstate : m.state <;> rw [hstate] at hprocessing <;>
          first | rfl | exact absurd hprocessing.2 (by simp [ExecutionState.is_processing])
      rw [hphase hprocessing.1 hresponse] at hafter ⊢
      rw [Phase.after_tool_events]
      exact hafter
  · exact hafter

theorem after_loop_events {cfg : Config} {m : Machine} {phase : Phase}
    (iterations : List Iteration)
    (hdrivers : ∀ i ∈ iterations, MakesNothingUp i.env.drivers)
    (hphase : m.outcome = none → has_response m.state = true → phase = .Closed) :
    ∃ phase', phase.after (loop_events cfg m iterations) = some phase' := by
  induction iterations generalizing m phase with
  | nil => exact ⟨phase, rfl⟩
  | cons i iterations ih =>
      obtain ⟨mid, hafter, hmid⟩ := after_iteration_events i (hdrivers i (by simp)) hphase
      obtain ⟨phase', hrest⟩ := ih (fun j hj => hdrivers j (by simp [hj])) hmid
      refine ⟨phase', ?_⟩
      rw [loop_events, Phase.after_append, hafter]
      exact hrest

/-- A run starts without a response. -/
theorem has_response_start {cfg : Config} {history : List AgentMessage}
    {task : Option (String × Option String)} {drivers : List MiddlewareDriver}
    (hdrivers : MakesNothingUp drivers) :
    has_response (start cfg history task drivers).state = false := by
  unfold start
  dsimp only
  split
  · rfl
  · split
    · rfl
    · next s heq => exact run_phase_makes_nothing_up hdrivers heq rfl

theorem after_run_events (phase : Phase) (r : PromptRun) (hhonest : r.Honest) :
    ∃ phase', phase.after r.events = some phase' := by
  unfold PromptRun.events
  obtain ⟨mid, hprompt, -⟩ := phase.advance_prompt r.display_content
  rw [Phase.after, hprompt, Option.bind_some]
  split
  · obtain ⟨mid', -, hstored⟩ := mid.advance_prompt r.display_content
    rw [Phase.after, hstored, Option.bind_some]
    apply after_loop_events r.iterations hhonest.2
    intro _ hresponse
    rw [has_response_start hhonest.1] at hresponse
    cases hresponse
  · exact ⟨mid, rfl⟩

/-- **A session's stream keeps to the phases.** -/
theorem emits_of_streamOf {runs : List PromptRun} {events : List AgentEvent}
    (hhonest : ∀ r ∈ runs, r.Honest) (hstream : StreamOf runs events) :
    Phase.Idle.Emits (events.map AgentEvent.kind) := by
  have hruns : ∀ phase : Phase, ∃ phase', phase.after (runs.flatMap PromptRun.events) =
      some phase' := by
    clear hstream
    induction runs with
    | nil => exact fun phase => ⟨phase, rfl⟩
    | cons r runs ih =>
        intro phase
        obtain ⟨mid, hmid⟩ := after_run_events phase r (hhonest r (by simp))
        obtain ⟨phase', hrest⟩ := ih (fun r hr => hhonest r (by simp [hr])) mid
        refine ⟨phase', ?_⟩
        rw [List.flatMap_cons, Phase.after_append, hmid]
        exact hrest
  obtain ⟨phase', hphase'⟩ := hruns .Idle
  unfold Phase.Emits
  rw [← Phase.after_filter, hstream, Phase.after_filter, hphase']
  rfl

/-- **The exported turns of a session are its conversation exactly when the session
said nothing**: no text or thinking was stored, no tool was called, and no other
prompt followed a request that did not complete. -/
theorem exported_turns_are_conversation_iff (runs : List PromptRun) (events : List AgentEvent)
    (hhonest : ∀ r ∈ runs, r.Honest) (hstream : StreamOf runs events) :
    ExportsConversation events ↔ Hollow (events.map AgentEvent.kind) :=
  exportsConversation_iff_hollow events (emits_of_streamOf hhonest hstream)

/-! ## 5. Two sessions -/

/-- One prompt, answered at once. -/
def greeting : PromptRun where
  cfg := plain_config
  history := []
  pre_turn_snapshot_task := none
  drivers := []
  display_content := "hello"
  message_stored := true
  iterations :=
    [quiet_env .Cancelled, quiet_env (.Response ends_turn), quiet_env .Cancelled,
      quiet_env .Cancelled].map fun env => { env := env }

def greeting_events : List AgentEvent :=
  greeting.events.map fun kind => ⟨0, kind⟩

/-- The answer is missing from the exported turn. -/
theorem greeting_exported_without_answer :
    greeting.Honest ∧ StreamOf [greeting] greeting_events ∧
      ¬ ExportsConversation greeting_events := by
  refine ⟨⟨?_, ?_⟩, rfl, ?_⟩
  · intro driver hdriver
    cases hdriver
  · intro i hi driver hdriver
    fin_cases hi <;> cases hdriver
  · decide

/-- A request that fails, and the same prompt again, with an empty answer. -/
def retried : List PromptRun :=
  [{ greeting with
      iterations := [quiet_env .Cancelled, quiet_env (.Failed "overloaded")].map
        fun env => { env := env } },
   { greeting with
      iterations := [quiet_env .Cancelled, quiet_env (.Response { ends_turn with content := "" }),
        quiet_env .Cancelled, quiet_env .Cancelled].map fun env => { env := env } }]

def retried_events : List AgentEvent :=
  (retried.flatMap PromptRun.events).map fun kind => ⟨0, kind⟩

theorem retried_exported :
    (∀ r ∈ retried, r.Honest) ∧ ExportsConversation retried_events := by
  have hhonest : ∀ r ∈ retried, r.Honest := by
    intro r hr
    fin_cases hr
    all_goals
      refine ⟨fun driver hdriver => (by cases hdriver), ?_⟩
      intro i hi driver hdriver
      fin_cases hi <;> cases hdriver
  exact ⟨hhonest, (exported_turns_are_conversation_iff retried retried_events hhonest rfl).2
    (by decide)⟩

end Querymt.Export
