/-
`Agent/Moves.lean` -- what one iteration of the loop can do.

The laws about a whole turn (how often it calls the model, when it compacts) all ask
the same three things of an iteration: which entry it adds to the trail, whether it
ends the run, and which state it leaves, with the step count of that state. `Moves`
answers them once, with the guards of `iterate`, and `iterate_moves` says that it
leaves nothing out; no later proof takes an iteration apart again.
-/
import Querymt.Agent.Context

set_option autoImplicit false

open Runs

namespace Querymt.Agent

/-! ## 1. The moves -/

/-- The middleware phase an iteration runs first. -/
def ExecutionState.phase : ExecutionState → Option MiddlewarePhase
  | .BeforeLlmCall _ => some .StepStart
  | .AfterLlm _ _ => some .AfterLlm
  | .ProcessingToolCalls _ _ _ => some .ProcessingToolCalls
  | .Complete => some .TurnEnd
  | .CallLlm _ _ | .WaitingForEvent _ _ | .Stopped _ _ _ | .Cancelled => none

/-- The entries an iteration adds to the trail, and the state it leaves; `none` when it
ends the run. -/
inductive Moves (cfg : Config) (env : Env) (m : Machine) :
    List TrailEntry → Option ExecutionState → Prop where
  | ended : Moves cfg env m [] none
  | cancelled : Moves cfg env m [] (some .Cancelled)
  /-- a middleware answers with another kind of state -/
  | passed {phase : MiddlewarePhase} {s : ExecutionState} (hphase : m.state.phase = some phase)
      (hrun : run_phase phase env.drivers m.state = .ok s) (hother : s.phase ≠ some phase) :
      Moves cfg env m [] (some s)
  | asks {first context : ConversationContext} {tools : List String}
      (hstate : m.state = .BeforeLlmCall first)
      (hrun : run_phase .StepStart env.drivers m.state = .ok (.BeforeLlmCall context)) :
      Moves cfg env m [] (some (.CallLlm context tools))
  | called {context : ConversationContext} {tools : List String} {response : LlmResponse}
      (hstate : m.state = .CallLlm context tools) (hllm : env.llm = .Response response)
      (hlive : env.cancelled_at_top = false ∧ env.cancelled = false) :
      Moves cfg env m [.Called context env.llm] (some (.AfterLlm response context))
  | call_failed {context : ConversationContext} {tools : List String}
      {next : Option ExecutionState} (hstate : m.state = .CallLlm context tools)
      (hnext : next = none ∨ next = some .Cancelled)
      (hlive : env.cancelled_at_top = false ∧ env.cancelled = false) :
      Moves cfg env m [.Called context env.llm] next
  | answered {first response : LlmResponse} {before context : ConversationContext}
      (hstate : m.state = .AfterLlm first before)
      (hrun : run_phase .AfterLlm env.drivers m.state = .ok (.AfterLlm response context)) :
      Moves cfg env m []
        (some (state_after_llm response (context_after_llm cfg env response context)))
  | stored {calls : List MiddlewareToolCall} {results : List ToolResult}
      {context next : ConversationContext} {s : ExecutionState}
      (hstate : m.state.is_processing = true)
      (hrun : run_phase .ProcessingToolCalls env.drivers m.state =
        .ok (.ProcessingToolCalls calls results context))
      (hstats : next.stats = context.stats)
      (hs : s = .BeforeLlmCall next ∨ ∃ wait, s = .WaitingForEvent next wait) :
      Moves cfg env m [] (some s)
  | resumed {context next : ConversationContext} {wait : WaitCondition}
      (hstate : m.state = .WaitingForEvent context wait) (hstats : next.stats = context.stats) :
      Moves cfg env m [] (some (.BeforeLlmCall next))
  | closed {context : ConversationContext} {wait : WaitCondition}
      (hstate : m.state = .WaitingForEvent context wait) :
      Moves cfg env m []
        (some (.Stopped "Event stream closed while waiting" .Other (some context)))
  /-- the stop hook starts again from the context the turn began with -/
  | continued {next : ConversationContext} (hstate : m.state = .Complete)
      (hhook : ContinuesTurn m env) (hstats : next.stats = m.initial_context.stats) :
      Moves cfg env m [] (some (.BeforeLlmCall next))
  | blocked {message text : String} {context : Option ConversationContext}
      {block_reason : Option String} {contexts : List String}
      (hstate : m.state = .Stopped message .ContextThreshold context)
      (hauto : cfg.compaction_auto = true)
      (hblocked : env.compaction = .Blocked block_reason contexts) :
      Moves cfg env m [] (some (.Stopped text .ContextThreshold context))
  | compacted {message : String} {context next : ConversationContext}
      (hstate : m.state = .Stopped message .ContextThreshold (some context))
      (hauto : cfg.compaction_auto = true) (hsteps : next.stats.steps = context.stats.steps) :
      Moves cfg env m [.Compacted] (some (.BeforeLlmCall next))
  | compaction_lost {message : String} {context : Option ConversationContext}
      (hstate : m.state = .Stopped message .ContextThreshold context)
      (hauto : cfg.compaction_auto = true) :
      Moves cfg env m [.Compacted] none

/-- An iteration that has moved from `m` to `m'`. -/
structure Moved (cfg : Config) (env : Env) (m m' : Machine) (entries : List TrailEntry)
    (next : Option ExecutionState) : Prop where
  moves : Moves cfg env m entries next
  trail : m'.trail = m.trail ++ entries
  initial : m'.initial_context = m.initial_context
  outcome : m'.outcome.isSome = next.isNone
  state : ∀ s ∈ next, m'.state = s

/-! ## 2. Every transition moves -/

section

variable {cfg : Config} {env : Env} {m : Machine}

/-- A move after which the run goes on. -/
theorem Moved.of_running {m' : Machine} {entries : List TrailEntry}
    (h : Moves cfg env m entries (some m'.state)) (htrail : m'.trail = m.trail ++ entries)
    (hinitial : m'.initial_context = m.initial_context) (hout : m'.outcome = none) :
    Moved cfg env m m' entries (some m'.state) := by
  refine ⟨h, htrail, hinitial, ?_, ?_⟩
  · rw [hout]
    rfl
  · intro s hs
    exact Option.some.inj hs

/-- A move that only sets the state. -/
theorem Moved.of_goto (hout : m.outcome = none) {s : ExecutionState}
    (h : Moves cfg env m [] (some s)) : Moved cfg env m (m.goto s) [] (some s) :=
  .of_running h (List.append_nil _).symm rfl hout

/-- A move that ends the run without an entry. -/
theorem Moved.of_ended {m' : Machine} (htrail : m'.trail = m.trail)
    (hinitial : m'.initial_context = m.initial_context) (hout : m'.outcome ≠ none) :
    Moved cfg env m m' [] none := by
  refine ⟨.ended, by rw [htrail, List.append_nil], hinitial, ?_, ?_⟩
  · exact Option.isSome_iff_ne_none.2 hout
  · exact fun s hs => by cases hs

theorem moved_before_llm_call (hout : m.outcome = none) {first context : ConversationContext}
    (hstate : m.state = .BeforeLlmCall first)
    (hrun : run_phase .StepStart env.drivers m.state = .ok (.BeforeLlmCall context)) :
    ∃ entries next, Moved cfg env m (transition_before_llm_call env m context) entries next := by
  rw [transition_before_llm_call]
  split
  · exact ⟨_, _, .of_goto hout .cancelled⟩
  · split
    · exact ⟨_, _, .of_ended rfl rfl (Option.some_ne_none _)⟩
    · exact ⟨_, _, .of_goto hout (.asks hstate hrun)⟩

theorem moved_call_llm (hout : m.outcome = none) {context : ConversationContext}
    {tools : List String} (hstate : m.state = .CallLlm context tools)
    (htop : ¬ env.cancelled_at_top = true) :
    ∃ entries next, Moved cfg env m (transition_call_llm env m context) entries next := by
  rw [transition_call_llm]
  split
  · exact ⟨_, _, .of_goto hout .cancelled⟩
  · next hcancelled =>
      have hlive : env.cancelled_at_top = false ∧ env.cancelled = false :=
        ⟨Bool.eq_false_iff.2 htop, Bool.eq_false_iff.2 hcancelled⟩
      dsimp only
      split
      · exact ⟨_, _, .of_running (.call_failed hstate (.inr rfl) hlive) rfl rfl hout⟩
      · refine ⟨_, none, .call_failed hstate (.inl rfl) hlive, rfl, rfl, rfl, ?_⟩
        exact fun s hs => by cases hs
      · next response hllm =>
          exact ⟨_, _, .of_running (.called hstate hllm hlive) rfl rfl hout⟩

theorem moved_after_llm (hout : m.outcome = none) {first response : LlmResponse}
    {before context : ConversationContext} (hstate : m.state = .AfterLlm first before)
    (hrun : run_phase .AfterLlm env.drivers m.state = .ok (.AfterLlm response context)) :
    ∃ entries next, Moved cfg env m (transition_after_llm cfg env m response context)
      entries next := by
  -- the snapshot message touches the history only
  obtain ⟨-, htrail, hinitial⟩ := ensure_pre_turn_snapshot_ready_frame cfg env m
  have hsnapshot : (ensure_pre_turn_snapshot_ready cfg env m).outcome = m.outcome := by
    rw [ensure_pre_turn_snapshot_ready]
    split <;> rfl
  rw [transition_after_llm]
  split
  · exact ⟨_, _, .of_goto hout .cancelled⟩
  · dsimp only
    split
    · exact ⟨_, _, .of_ended htrail hinitial (Option.some_ne_none _)⟩
    · refine ⟨_, _, .of_running (.answered hstate hrun) ?_ hinitial (hsnapshot.trans hout)⟩
      rw [List.append_nil]
      exact htrail

theorem moved_store_all_tool_results (hout : m.outcome = none)
    {calls : List MiddlewareToolCall} {results : List ToolResult} {context : ConversationContext}
    (hstate : m.state.is_processing = true)
    (hrun : run_phase .ProcessingToolCalls env.drivers m.state =
      .ok (.ProcessingToolCalls calls results context))
    (stored : List ToolResult) (cancelled : Bool) :
    ∃ entries next, Moved cfg env m (store_all_tool_results cfg env m stored context cancelled)
      entries next := by
  have hnil := (List.append_nil m.trail).symm
  rw [store_all_tool_results]
  split
  · exact ⟨_, _, .of_ended rfl rfl (Option.some_ne_none _)⟩
  · dsimp only
    split
    · exact ⟨_, _, .of_running .cancelled hnil rfl hout⟩
    · split
      · next wait _ =>
          refine ⟨_, _, .of_running (.stored hstate hrun ?_ (.inr ⟨wait, rfl⟩)) hnil rfl hout⟩
          rfl
      · refine ⟨_, _, .of_running (.stored hstate hrun ?_ (.inl rfl)) hnil rfl hout⟩
        rfl

theorem moved_waiting_for_event (hout : m.outcome = none) {context : ConversationContext}
    {wait : WaitCondition} (hstate : m.state = .WaitingForEvent context wait) :
    ∃ entries next, Moved cfg env m (transition_waiting_for_event cfg env m context)
      entries next := by
  rw [transition_waiting_for_event]
  split
  · exact ⟨_, _, .of_goto hout .cancelled⟩
  · split
    · exact ⟨_, _, .of_goto hout .cancelled⟩
    · exact ⟨_, _, .of_goto hout (.closed hstate)⟩
    · exact ⟨_, _, .of_goto hout (.resumed hstate rfl)⟩
    · next message _ =>
        have hresumed : Moves cfg env m []
            (some (.BeforeLlmCall (context.inject_message message))) := .resumed hstate rfl
        exact ⟨_, _, .of_running hresumed (List.append_nil _).symm rfl hout⟩

theorem moved_complete_turn (hout : m.outcome = none) (hstate : m.state = .Complete) :
    ∃ entries next, Moved cfg env m (complete_turn cfg env m) entries next := by
  rw [complete_turn]
  split
  · exact ⟨_, _, .of_ended rfl rfl (Option.some_ne_none _)⟩
  · next stop_hook hhook =>
      dsimp only
      split
      · next hmore =>
          -- `Complete` has no context to go back to
          have hnone : m.state.context = none := by
            rw [hstate]
            rfl
          rw [hnone]
          refine ⟨_, _, .of_running (.continued hstate ⟨stop_hook, hhook, hmore.1, hmore.2⟩ ?_)
            (List.append_nil _).symm rfl hout⟩
          rfl
      · split
        · exact ⟨_, _, .of_ended rfl rfl (Option.some_ne_none _)⟩
        · exact ⟨_, _, .of_ended rfl rfl (Option.some_ne_none _)⟩

theorem moved_stop_turn (hout : m.outcome = none) {message : String} {stop_type : StopType}
    {context : Option ConversationContext} (hstate : m.state = .Stopped message stop_type context) :
    ∃ entries next, Moved cfg env m (stop_turn cfg env m message stop_type context)
      entries next := by
  have hcontext : m.state.context = context := by
    rw [hstate]
    rfl
  rw [stop_turn]
  dsimp only
  -- the branch decides by the stop type and the setting, whoever stopped the turn
  by_cases hauto : stop_type = .ContextThreshold ∧ cfg.compaction_auto = true
  · rw [if_pos hauto]
    obtain ⟨rfl, hauto⟩ := hauto
    rw [run_ai_compaction]
    rcases hcompaction : env.compaction with error | ⟨block_reason, contexts⟩ |
      ⟨summary, contexts, count, reloaded⟩
    · exact ⟨_, _, .of_ended rfl rfl (Option.some_ne_none _)⟩
    · refine ⟨_, _, .of_goto hout ?_⟩
      rw [hcontext]
      exact .blocked hstate hauto hcompaction
    · -- the messages are stored; reading them back decides
      dsimp only
      rcases reloaded with error | tokens
      · refine ⟨_, _, .compaction_lost hstate hauto, rfl, rfl, rfl, ?_⟩
        exact fun s hs => by cases hs
      · rw [hcontext]
        rcases context with _ | context
        · refine ⟨_, _, .compaction_lost hstate hauto, rfl, rfl, rfl, ?_⟩
          exact fun s hs => by cases hs
        · refine ⟨_, _, .of_running (.compacted hstate hauto ?_) rfl rfl hout⟩
          rfl
  · rw [if_neg hauto]
    exact ⟨_, _, .of_ended rfl rfl (Option.some_ne_none _)⟩

theorem moved_with_middleware (phase : MiddlewarePhase)
    {continuation : ExecutionState → Machine}
    (h : ∀ s, run_phase phase env.drivers m.state = .ok s →
      ∃ entries next, Moved cfg env m (continuation s) entries next) :
    ∃ entries next, Moved cfg env m (with_middleware env m phase continuation) entries next := by
  rw [with_middleware]
  split
  · exact ⟨_, _, .of_ended rfl rfl (Option.some_ne_none _)⟩
  · next s hrun => exact h s hrun

/-- **What one iteration can do.** -/
theorem iterate_moves (hout : m.outcome = none) :
    ∃ entries next, Moved cfg env m (iterate cfg m env) entries next := by
  have hover : ¬ m.outcome.isSome = true := by
    rw [hout]
    exact Bool.false_ne_true
  rw [iterate, if_neg hover]
  by_cases htop : env.cancelled_at_top = true
  · rw [if_pos htop]
    exact ⟨_, _, .of_ended rfl rfl (Option.some_ne_none _)⟩
  · rw [if_neg htop]
    -- one case for each state; a phase that answers with its own kind of state goes on to the
    -- transition, every other answer is `passed`
    rcases hs : m.state with context | ⟨context, tools⟩ | ⟨response, context⟩ |
      ⟨calls, results, context⟩ | ⟨context, wait⟩ | _ | ⟨message, stop_type, context⟩ | _
    · refine moved_with_middleware .StepStart fun s hrun => ?_
      rcases s with next | _ | _ | _ | _ | _ | _ | _
      · exact moved_before_llm_call hout hs hrun
      all_goals exact ⟨_, _, .of_goto hout
        (.passed (by rw [hs]; rfl) hrun (by simp [ExecutionState.phase]))⟩
    · exact moved_call_llm hout hs htop
    · refine moved_with_middleware .AfterLlm fun s hrun => ?_
      rcases s with _ | _ | ⟨response', next⟩ | _ | _ | _ | _ | _
      pick_goal 3
      · exact moved_after_llm hout hs hrun
      all_goals exact ⟨_, _, .of_goto hout
        (.passed (by rw [hs]; rfl) hrun (by simp [ExecutionState.phase]))⟩
    · refine moved_with_middleware .ProcessingToolCalls fun s hrun => ?_
      have hprocessing : m.state.is_processing = true := by
        rw [hs]
        rfl
      rcases s with _ | _ | _ | ⟨remaining_calls, results', next⟩ | _ | _ | _ | _
      pick_goal 4
      · dsimp only
        rw [transition_processing_tool_calls]
        split
        · exact moved_store_all_tool_results hout hprocessing hrun _ _
        · exact moved_store_all_tool_results hout hprocessing hrun _ _
      all_goals exact ⟨_, _, .of_goto hout
        (.passed (by rw [hs]; rfl) hrun (by simp [ExecutionState.phase]))⟩
    · exact moved_waiting_for_event hout hs
    · refine moved_with_middleware .TurnEnd fun s hrun => ?_
      rcases s with _ | _ | _ | _ | _ | _ | _ | _
      pick_goal 6
      · exact moved_complete_turn hout hs
      all_goals exact ⟨_, _, .of_goto hout
        (.passed (by rw [hs]; rfl) hrun (by simp [ExecutionState.phase]))⟩
    · exact moved_stop_turn hout hs
    · exact ⟨_, _, .of_ended rfl rfl (Option.some_ne_none _)⟩

end

/-! ## 3. Moves out of the last states -/

section

variable {cfg : Config} {env : Env} {m : Machine} {entries : List TrailEntry}
  {next : Option ExecutionState}

theorem Moves.of_cancelled (h : Moves cfg env m entries next) (hstate : m.state = .Cancelled) :
    next = none ∨ next = some .Cancelled := by
  cases h with
  | ended => exact .inl rfl
  | cancelled => exact .inr rfl
  | call_failed hcall hnext _ => exact hnext
  | _ => simp_all [ExecutionState.phase, ExecutionState.is_processing]

/-- A stopped turn ends, unless a compaction is blocked or succeeds. -/
theorem Moves.of_stopped (h : Moves cfg env m entries next) {message : String}
    {stop_type : StopType} {context : Option ConversationContext}
    (hstate : m.state = .Stopped message stop_type context) :
    next = none ∨ next = some .Cancelled ∨
      (∃ reason contexts, env.compaction = .Blocked reason contexts) ∨
      (entries = [.Compacted] ∧ ∃ context', next = some (.BeforeLlmCall context')) := by
  cases h with
  | ended => exact .inl rfl
  | cancelled => exact .inr (.inl rfl)
  | call_failed hcall hnext _ =>
      rw [hstate] at hcall
      cases hcall
  | blocked _ _ hblocked => exact .inr (.inr (.inl ⟨_, _, hblocked⟩))
  | compacted _ _ _ => exact .inr (.inr (.inr ⟨rfl, _, rfl⟩))
  | compaction_lost _ _ => exact .inl rfl
  | _ => simp_all [ExecutionState.phase, ExecutionState.is_processing]

end

/-- A run that is over stays as it is. -/
theorem iterate_of_over {cfg : Config} {env : Env} {m : Machine} (h : m.outcome.isSome = true) :
    iterate cfg m env = m := by
  rw [iterate, if_pos h]

end Querymt.Agent
