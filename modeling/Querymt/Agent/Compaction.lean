/-
`Agent/Compaction.lean` -- compaction inside a turn.

Mirrors the `Stopped` branch of `execute_cycle_state_machine`, the middleware that
leads into it (`ContextMiddleware`), and `run_ai_compaction` with every call in it that
can fail (`maintenance.rs`). `Agent/Machine.lean` has the compaction as one step whose
writes succeed; section 4 opens that step up and section 5 says that the two agree.

# Two ways to go wrong

The branch decides by the stop type alone. A hook that blocks a compaction answers with
the same stop type again, and a summary above the threshold is stopped by the same
middleware again: either way the next iteration compacts once more, and nothing
between the two has asked the model. And the request and the summary are two writes,
while the effective history is cut at the request: between them lies a history that
shows nothing but the request.
-/
import Querymt.Agent.Moves

set_option autoImplicit false

open Runs

namespace Querymt.Agent

/-! ## 1. Attempts and calls -/

/-- A turn that has been stopped for its context size. -/
def ExecutionState.at_threshold : ExecutionState → Bool
  | .Stopped _ .ContextThreshold _ => true
  | _ => false

def ExecutionState.is_call : ExecutionState → Bool
  | .CallLlm _ _ => true
  | _ => false

def CompactionOutcome.is_blocked : CompactionOutcome → Bool
  | .Blocked _ _ => true
  | _ => false

/-- Does the iteration call `run_ai_compaction`? -/
def attempts (cfg : Config) (m : Machine) (env : Env) : Bool :=
  m.outcome.isNone && !env.cancelled_at_top && m.state.at_threshold && cfg.compaction_auto

/-- Does the iteration call the model for the conversation? -/
def calls_llm (m : Machine) (env : Env) : Bool :=
  m.outcome.isNone && !env.cancelled_at_top && m.state.is_call && !env.cancelled

inductive CycleAction where
  | Attempted
  | Called
  deriving DecidableEq

/-- The compactions attempted and the calls made in a run, in order. -/
def actions (cfg : Config) : Machine → List Env → List CycleAction
  | _, [] => []
  | m, env :: envs =>
      -- an iteration does one of the two at most: they ask for different states
      (if attempts cfg m env then [.Attempted] else if calls_llm m env then [.Called] else []) ++
        actions cfg (iterate cfg m env) envs

/-- After an attempt there is a call, before there is another attempt. -/
def CallBetween (a b : CycleAction) : Prop := a = .Attempted → b = .Called

instance : DecidableRel CallBetween := fun a b =>
  inferInstanceAs (Decidable (a = .Attempted → b = .Called))

def Machine.is_stopped (m : Machine) : Bool :=
  match m.outcome with
  | some (.ok (.Stopped _)) => true
  | _ => false

/-- **Compaction makes progress**: there is a call between any two attempts, and an
attempt that a hook blocks ends the run with `Stopped`. -/
def MakesProgress (cfg : Config) (m : Machine) (envs : List Env) : Prop :=
  (actions cfg m envs).IsChain CallBetween ∧
    Along (iterate cfg) (fun m env => attempts cfg m env = true →
      env.compaction.is_blocked = true → (iterate cfg m env).is_stopped = true) m envs

instance (cfg : Config) (m : Machine) (envs : List Env) : Decidable (MakesProgress cfg m envs) :=
  inferInstanceAs (Decidable (_ ∧ _))

/-- **The condition.** No hook blocks an attempt, and after a compaction no middleware
stops the turn for its context size before the model has been called. -/
def CompactsOnce (cfg : Config) (m : Machine) (env : Env) : Prop :=
  m.outcome = none →
    (attempts cfg m env = true → env.compaction.is_blocked = false) ∧
    (m.trail.getLast? = some .Compacted → ∀ phase ∈ m.state.phase,
      Answers (run_phase phase env.drivers m.state) fun s => s.at_threshold = false)

/-! ## 2. Between a compaction and the next call -/

/-- No attempt comes next: the run is over or about to be, or the last thing it did was
a compaction, and nothing has stopped it since. -/
def Resting (m : Machine) : Prop :=
  m.outcome.isSome = true ∨ m.state = .Cancelled ∨
    (m.trail.getLast? = some .Compacted ∧ m.state.at_threshold = false)

section

variable {cfg : Config} {m : Machine} {env : Env}

theorem Resting.not_attempts (h : Resting m) : attempts cfg m env = false := by
  rw [attempts]
  rcases h with hover | hcancelled | ⟨-, hstate⟩
  · rw [Option.isNone_eq_false_iff.2 hover]
    rfl
  · rw [hcancelled]
    simp [ExecutionState.at_threshold]
  · rw [hstate]
    simp

theorem at_threshold_of_attempts (h : attempts cfg m env = true) :
    m.outcome = none ∧
      ∃ message context, m.state = .Stopped message .ContextThreshold context := by
  rw [attempts] at h
  simp only [Bool.and_eq_true, Option.isNone_iff_eq_none] at h
  refine ⟨h.1.1.1, ?_⟩
  have hthreshold := h.1.2
  rcases hs : m.state with _ | _ | _ | _ | _ | _ | ⟨message, stop_type, context⟩ | _ <;>
    rw [hs] at hthreshold <;> try cases hthreshold
  cases stop_type <;> first | exact ⟨message, context, rfl⟩ | cases hthreshold

/-- A response does not stop the turn for its context size. -/
theorem state_after_llm_not_at_threshold (response : LlmResponse) (next : ConversationContext) :
    (state_after_llm response next).at_threshold = false := by
  rw [state_after_llm]
  split <;> first | rfl | (split <;> rfl)

/-- **After an attempt** that was not blocked, the machine rests. -/
theorem resting_of_attempts (hattempts : attempts cfg m env = true)
    (hclear : env.compaction.is_blocked = false) : Resting (iterate cfg m env) := by
  obtain ⟨hout, message, context, hstopped⟩ := at_threshold_of_attempts hattempts
  obtain ⟨entries, next, hmoves, htrail, -, houtcome, hstate⟩ := iterate_moves hout
  rcases hmoves.of_stopped hstopped with rfl | rfl | ⟨reason, contexts, hblocked⟩ |
    ⟨rfl, context', rfl⟩
  · exact .inl houtcome
  · exact .inr (.inl (hstate _ rfl))
  · rw [hblocked] at hclear
    cases hclear
  · refine .inr (.inr ⟨?_, ?_⟩)
    · rw [htrail, List.getLast?_concat]
    · rw [hstate _ rfl]
      rfl

/-- **While it rests** the machine goes on resting, until it calls the model. -/
theorem Resting.step (h : Resting m) (hC : CompactsOnce cfg m env)
    (hcall : calls_llm m env = false) : Resting (iterate cfg m env) := by
  by_cases hover : m.outcome.isSome = true
  · rw [iterate_of_over hover]
    exact h
  have hout : m.outcome = none := Option.not_isSome_iff_eq_none.1 hover
  obtain ⟨entries, next, hmoves, htrail, -, houtcome, hstate⟩ := iterate_moves hout
  rcases h with hover' | hcancelled | ⟨hlast, hrest⟩
  · exact absurd hover' hover
  · rcases hmoves.of_cancelled hcancelled with rfl | rfl
    · exact .inl houtcome
    · exact .inr (.inl (hstate _ rfl))
  · -- an iteration without an entry leaves the compaction the last one
    have hrests : entries = [] → ∀ s, next = some s → s.at_threshold = false →
        Resting (iterate cfg m env) := by
      intro hnil s hs hquiet
      refine .inr (.inr ⟨?_, ?_⟩)
      · rw [htrail, hnil, List.append_nil]
        exact hlast
      · rw [hstate s hs]
        exact hquiet
    have hlive : ∀ context tools, m.state = .CallLlm context tools →
        ¬ (env.cancelled_at_top = false ∧ env.cancelled = false) := by
      rintro context tools hs ⟨htop, hcancelled⟩
      rw [calls_llm, hout, hs, htop, hcancelled] at hcall
      cases hcall
    cases hmoves with
    | ended => exact .inl houtcome
    | cancelled => exact .inr (.inl (hstate _ rfl))
    | passed hphase hrun _ =>
        -- the one move that could stop the turn again: the condition rules it out
        exact hrests rfl _ rfl (((hC hout).2 hlast _ hphase).of_ok hrun)
    | asks _ _ => exact hrests rfl _ rfl rfl
    | called hs _ hlive' => exact absurd hlive' (hlive _ _ hs)
    | call_failed hs _ hlive' => exact absurd hlive' (hlive _ _ hs)
    | answered _ _ => exact hrests rfl _ rfl (state_after_llm_not_at_threshold _ _)
    | stored _ _ _ hs =>
        refine hrests rfl _ rfl ?_
        rcases hs with rfl | ⟨wait, rfl⟩ <;> rfl
    | resumed _ _ => exact hrests rfl _ rfl rfl
    | closed _ => exact hrests rfl _ rfl rfl
    | continued _ _ _ => exact hrests rfl _ rfl rfl
    | blocked hs _ _ => rw [hs] at hrest; cases hrest
    | compacted hs _ _ => rw [hs] at hrest; cases hrest
    | compaction_lost hs _ => rw [hs] at hrest; cases hrest

end

/-! ## 3. The middleware that asks for a compaction -/

/-- `ContextMiddleware`: its settings, and what it computes from a context. The share
of the limit at which it stops is computed in floating point. -/
structure ContextMiddleware where
  auto_compact : Bool
  compact_at_percent : ℕ
  get_max_tokens : ConversationContext → ℕ
  compact_threshold : ℕ → ℕ
  /-- the warning that is due, once for each session -/
  should_warn : ConversationContext → Option String

/-- `ContextMiddleware::on_step_start`. -/
def ContextMiddleware.driver (c : ContextMiddleware) : MiddlewareDriver
  | .StepStart, .BeforeLlmCall context =>
      let max_tokens := c.get_max_tokens context
      let current_tokens := context.stats.context_tokens
      -- an unknown limit switches the check off
      if max_tokens = 0 then .ok (.BeforeLlmCall context)
      else if c.auto_compact ∧ c.compact_threshold max_tokens ≤ current_tokens then
        .ok (.Stopped
          ("Context token threshold (" ++ toString current_tokens ++ " / " ++ toString max_tokens ++
            " tokens, " ++ toString c.compact_at_percent ++ "%) reached, requesting compaction")
          .ContextThreshold (some context))
      else
        match c.should_warn context with
        | some warning => .ok (.BeforeLlmCall (context.inject_message warning))
        | none => .ok (.BeforeLlmCall context)
  | _, state => .ok state

/-- **Which summaries are too large**: alone in its pipeline, this middleware meets the
condition at a call's start exactly when the context is below its threshold. -/
theorem ContextMiddleware.answers_iff (c : ContextMiddleware) (context : ConversationContext) :
    Answers (run_phase .StepStart [c.driver] (.BeforeLlmCall context))
        (fun s => s.at_threshold = false) ↔
      (c.get_max_tokens context ≠ 0 → c.auto_compact = true →
        context.stats.context_tokens < c.compact_threshold (c.get_max_tokens context)) := by
  rw [run_phase, ContextMiddleware.driver]
  by_cases hmax : c.get_max_tokens context = 0
  · rw [if_pos hmax]
    exact ⟨fun _ h => absurd hmax h, fun _ => rfl⟩
  · rw [if_neg hmax]
    by_cases hover : c.auto_compact = true ∧
        c.compact_threshold (c.get_max_tokens context) ≤ context.stats.context_tokens
    · rw [if_pos hover]
      refine ⟨fun h => (by cases h), fun h => ?_⟩
      exact absurd (h hmax hover.1) (Nat.not_lt.2 hover.2)
    · rw [if_neg hover]
      refine ⟨fun _ _ hauto => Nat.lt_of_not_le fun hle => hover ⟨hauto, hle⟩, fun _ => ?_⟩
      rcases c.should_warn context with _ | warning <;> rfl

/-! ## 4. Every run -/

/-- The first action of a run that rests is a call. -/
theorem actions_of_resting {cfg : Config} {m : Machine} {envs : List Env} (h : Resting m)
    (hC : Along (iterate cfg) (CompactsOnce cfg) m envs) :
    ∀ a ∈ (actions cfg m envs).head?, a = .Called := by
  induction envs generalizing m with
  | nil => exact fun a ha => by cases ha
  | cons env envs ih =>
      rw [actions, h.not_attempts, if_neg Bool.false_ne_true]
      by_cases hcall : calls_llm m env = true
      · rw [if_pos hcall]
        intro a ha
        exact (Option.some.inj ha).symm
      · rw [if_neg hcall, List.nil_append]
        exact ih (h.step hC.1 (Bool.eq_false_iff.2 hcall)) hC.2

theorem actions_isChain {cfg : Config} {m : Machine} {envs : List Env}
    (hC : Along (iterate cfg) (CompactsOnce cfg) m envs) :
    (actions cfg m envs).IsChain CallBetween := by
  induction envs generalizing m with
  | nil => exact List.isChain_nil
  | cons env envs ih =>
      rw [actions]
      by_cases hattempts : attempts cfg m env = true
      · rw [if_pos hattempts, List.singleton_append, List.isChain_cons]
        refine ⟨?_, ih hC.2⟩
        have hclear := (hC.1 (at_threshold_of_attempts hattempts).1).1 hattempts
        intro b hb _
        exact actions_of_resting (resting_of_attempts hattempts hclear) hC.2 b hb
      · rw [if_neg hattempts]
        by_cases hcall : calls_llm m env = true
        · rw [if_pos hcall, List.singleton_append, List.isChain_cons]
          exact ⟨fun b _ hb => (by cases hb), ih hC.2⟩
        · rw [if_neg hcall, List.nil_append]
          exact ih hC.2

/-- **Compaction makes progress** in every run that meets the condition. -/
theorem compaction_makes_progress (cfg : Config) (history : List AgentMessage)
    (snapshot : Option (String × Option String)) (drivers : List MiddlewareDriver)
    (envs : List Env)
    (hC : Along (iterate cfg) (CompactsOnce cfg) (start cfg history snapshot drivers) envs) :
    MakesProgress cfg (start cfg history snapshot drivers) envs := by
  refine ⟨actions_isChain hC, ?_⟩
  -- the second half holds because the condition leaves no blocked attempt
  refine hC.imp ?_
  intro m env _ hmC hattempts hblocked
  have hclear := (hmC (at_threshold_of_attempts hattempts).1).1 hattempts
  rw [hblocked] at hclear
  cases hclear

/-- Compaction at twelve tokens. -/
def compacting_config : Config := { plain_config with compaction_auto := true }

def at_twelve : ContextMiddleware where
  auto_compact := true
  compact_at_percent := 85
  get_max_tokens := fun _ => 15
  compact_threshold := fun _ => 12
  should_warn := fun _ => none

def watched_env (llm : LlmOutcome) (compaction : CompactionOutcome) : Env :=
  { quiet_env llm with drivers := [at_twelve.driver], compaction := compaction }

/-- A call that fills the context, and then two compactions with the outcome given. -/
def compacts_twice (compaction : CompactionOutcome) : List Env :=
  [watched_env .Cancelled compaction, watched_env (.Response counted_call) compaction,
   watched_env .Cancelled compaction, watched_env .Cancelled compaction,
   watched_env .Cancelled compaction, watched_env .Cancelled compaction,
   watched_env .Cancelled compaction, watched_env .Cancelled compaction]

/-- A hook that blocks the compaction is asked again, and a summary above the threshold
is summarised again. -/
theorem compaction_repeats :
    ¬ MakesProgress compacting_config (start compacting_config [] none [])
        (compacts_twice (.Blocked none [])) ∧
      ¬ MakesProgress compacting_config (start compacting_config [] none [])
        (compacts_twice (.Summarised "summary" [] 15 (.ok 20))) := by
  constructor <;> decide

/-- A summary of five tokens leaves room for the next call. -/
theorem small_summary_makes_progress :
    actions compacting_config (start compacting_config [] none [])
        (compacts_twice (.Summarised "summary" [] 15 (.ok 5))) = [.Called, .Attempted, .Called] ∧
      MakesProgress compacting_config (start compacting_config [] none [])
        (compacts_twice (.Summarised "summary" [] 15 (.ok 5))) := by
  refine ⟨rfl, compaction_makes_progress compacting_config [] none [] _ ?_⟩
  -- the first six iterations come before the compaction is in the trail
  refine ⟨?_, ?_, ?_, ?_, ?_, ?_, ?_, ?_, trivial⟩
  iterate 6 exact fun _ => ⟨fun _ => rfl, fun hlast => by cases hlast⟩
  · refine fun _ => ⟨fun _ => rfl, fun _ phase hphase => ?_⟩
    cases hphase
    rfl
  · exact fun _ => ⟨fun _ => rfl, fun _ phase hphase => by cases hphase⟩

/-! ## 5. The steps of a compaction -/

structure PreCompactionHook where
  should_block : Bool
  block_reason : Option String
  additional_contexts : List String

structure CompactionResult where
  summary : String
  original_token_count : ℕ

/-- What the calls made by `run_ai_compaction` return, each of which can fail. -/
structure CompactionCalls where
  get_history : Except String Unit
  run_pre_compaction : Except String PreCompactionHook
  provider : Except String Unit
  process : List AgentMessage → Except String CompactionResult
  /-- the additional contexts -/
  run_post_compaction : CompactionResult → Except String (List String)
  store_request : Except String Unit
  store_summary : Except String Unit
  get_new_history : Except String Unit
  estimate_messages_tokens : List AgentMessage → ℕ

/-- The first half, up to the messages to be stored. -/
inductive SummaryOutcome where
  | Failed (error : String)
  | Blocked (block_reason : Option String) (additional_contexts : List String)
  | Ready (summary : String) (additional_contexts : List String) (original_token_count : ℕ)

namespace Compaction

def summarise (cfg : Config) (calls : CompactionCalls) (history : List AgentMessage) :
    SummaryOutcome :=
  match calls.get_history with
  | .error e => .Failed ("Failed to get agent history: " ++ e)
  | .ok () =>
    match calls.run_pre_compaction with
    | .error e => .Failed e
    | .ok pre_hook =>
      if pre_hook.should_block then .Blocked pre_hook.block_reason pre_hook.additional_contexts
      else
        match calls.provider with
        | .error e => .Failed ("Failed to get LLM provider: " ++ e)
        | .ok () =>
          if cfg.llm_config.isNone then .Failed "No LLM config for session"
          else
            match calls.process (filter_to_effective_history history) with
            | .error e => .Failed ("Compaction failed: " ++ e)
            | .ok result =>
              match calls.run_post_compaction result with
              | .error e => .Failed e
              | .ok contexts => .Ready result.summary contexts result.original_token_count

/-- `SessionStore::add_message`, on the messages of the session as `get_history` reads
them: one transaction, a unique id, and the order of `created_at`. -/
def add_message (write : Except String Unit) (history : List AgentMessage)
    (message : AgentMessage) : Except String (List AgentMessage) :=
  match write with
  | .error e => .error e
  | .ok () =>
      -- `messages.public_id` is unique over all sessions; the ids of the others are not seen here
      if message.id ∈ history.map AgentMessage.id then
        .error "UNIQUE constraint failed: messages.public_id"
      else
        -- a message of the same second comes after those stored before it
        .ok (history.orderedInsert (fun a b => a.created_at < b.created_at) message)

/-- `run_ai_compaction`: the stored messages after it, and what it returns. -/
def run_ai_compaction (cfg : Config) (env : Env) (calls : CompactionCalls)
    (history : List AgentMessage) (current_state : ExecutionState) :
    List AgentMessage × Except String ExecutionState :=
  match summarise cfg calls history with
  | .Failed error => (history, .error error)
  | .Blocked block_reason additional_contexts =>
      (history, .ok (.Stopped
        (with_contexts (block_reason.getD "compaction blocked by hook") additional_contexts)
        .ContextThreshold current_state.context))
  | .Ready summary additional_contexts original_token_count =>
      let text := with_contexts summary additional_contexts
      let (request_msg, summary_msg) := create_compaction_messages cfg env text original_token_count
      match add_message calls.store_request history request_msg with
      | .error e => (history, .error ("Failed to store compaction request: " ++ e))
      | .ok history1 =>
          match add_message calls.store_summary history1 summary_msg with
          -- the request is committed and stays
          | .error e => (history1, .error ("Failed to store compaction summary: " ++ e))
          | .ok history2 =>
              match calls.get_new_history, current_state.context with
              | .error e, _ => (history2, .error ("Failed to get new history: " ++ e))
              | .ok (), none => (history2, .error "No context available for compaction")
              | .ok (), some context =>
                  let filtered_messages := filter_to_effective_history history2
                  (history2, .ok (.BeforeLlmCall
                    { context with
                      messages := filtered_messages.map fun message =>
                        message.to_chat_message_with_target none none cfg.max_prompt_bytes
                      stats := { context.stats with
                        context_tokens := calls.estimate_messages_tokens filtered_messages } }))

/-- The history after the two messages of a compaction. -/
def with_compaction (history : List AgentMessage) (messages : AgentMessage × AgentMessage) :
    List AgentMessage :=
  (history.orderedInsert (fun a b => a.created_at < b.created_at) messages.1).orderedInsert
    (fun a b => a.created_at < b.created_at) messages.2

/-- The calls of a compaction as the machine sees them. -/
def outcome (cfg : Config) (env : Env) (calls : CompactionCalls) (history : List AgentMessage) :
    CompactionOutcome :=
  match summarise cfg calls history with
  | .Failed error => .Failed error
  | .Blocked block_reason additional_contexts => .Blocked block_reason additional_contexts
  | .Ready summary additional_contexts original_token_count =>
      let messages := create_compaction_messages cfg env (with_contexts summary additional_contexts)
        original_token_count
      .Summarised summary additional_contexts original_token_count
        (match calls.get_new_history with
          | .error e => .error ("Failed to get new history: " ++ e)
          | .ok () => .ok (calls.estimate_messages_tokens
              (filter_to_effective_history (with_compaction history messages))))

theorem add_message_of_new {history : List AgentMessage} {message : AgentMessage}
    (hnew : message.id ∉ history.map AgentMessage.id) :
    add_message (.ok ()) history message =
      .ok (history.orderedInsert (fun a b => a.created_at < b.created_at) message) :=
  if_neg hnew

theorem add_message_of_clash {history : List AgentMessage} {message : AgentMessage}
    (hclash : message.id ∈ history.map AgentMessage.id) :
    add_message (.ok ()) history message =
      .error "UNIQUE constraint failed: messages.public_id" :=
  if_pos hclash

/-- **The machine's compaction is this one** when both writes succeed and the ids are new:
it stores what is read back here, and goes on to the same state. -/
theorem run_ai_compaction_eq {cfg : Config} {env : Env} {calls : CompactionCalls} {m : Machine}
    (hcompaction : env.compaction = outcome cfg env calls (get_history m.history))
    (hrequest : calls.store_request = .ok ()) (hsummary : calls.store_summary = .ok ())
    (hids : env.uuid 0 ∉ m.history.map AgentMessage.id ∧
      env.uuid 1 ∉ m.history.map AgentMessage.id ∧ env.uuid 0 ≠ env.uuid 1) :
    (run_ai_compaction cfg env calls (get_history m.history) m.state).1 =
        get_history (Agent.run_ai_compaction cfg env m).1.history ∧
      (run_ai_compaction cfg env calls (get_history m.history) m.state).2 =
        (Agent.run_ai_compaction cfg env m).2 := by
  obtain ⟨hid0, hid1, hne⟩ := hids
  have hread : ∀ {id}, id ∉ m.history.map AgentMessage.id →
      id ∉ (get_history m.history).map AgentMessage.id := by
    intro id hid hmem
    obtain ⟨message, hmessage, rfl⟩ := List.mem_map.1 hmem
    exact hid (List.mem_map_of_mem ((List.mem_insertionSort _).1 hmessage))
  rw [Agent.run_ai_compaction, run_ai_compaction, hcompaction, outcome]
  rcases hsummarise : summarise cfg calls (get_history m.history) with error |
    ⟨reason, contexts⟩ | ⟨summary, contexts, count⟩
  · exact ⟨rfl, rfl⟩
  · exact ⟨rfl, rfl⟩
  · have hstored : add_message calls.store_request (get_history m.history)
        (create_compaction_messages cfg env (with_contexts summary contexts) count).1 =
          .ok (get_history (m.history ++
            [(create_compaction_messages cfg env (with_contexts summary contexts) count).1])) := by
      rw [hrequest, get_history_concat]
      exact add_message_of_new (hread hid0)
    have hstored' : add_message calls.store_summary (get_history (m.history ++
          [(create_compaction_messages cfg env (with_contexts summary contexts) count).1]))
        (create_compaction_messages cfg env (with_contexts summary contexts) count).2 =
          .ok (get_history (m.history ++
            [(create_compaction_messages cfg env (with_contexts summary contexts) count).1] ++
            [(create_compaction_messages cfg env (with_contexts summary contexts) count).2])) := by
      rw [hsummary, get_history_concat (m.history ++ _)]
      refine add_message_of_new fun hmem => ?_
      obtain ⟨message, hmessage, heq⟩ := List.mem_map.1 hmem
      rcases List.mem_append.1 ((List.mem_insertionSort _).1 hmessage) with h | h
      · exact hid1 (List.mem_map.2 ⟨message, h, heq⟩)
      · rw [List.mem_singleton.1 h] at heq
        exact hne heq
    have hwith : with_compaction (get_history m.history)
        (create_compaction_messages cfg env (with_contexts summary contexts) count) =
          get_history (m.history ++
            [(create_compaction_messages cfg env (with_contexts summary contexts) count).1] ++
            [(create_compaction_messages cfg env (with_contexts summary contexts) count).2]) := by
      rw [get_history_concat, get_history_concat, with_compaction]
    dsimp only
    rw [hstored]
    dsimp only
    rw [hstored', hwith]
    rcases calls.get_new_history with e | ⟨⟩
    · exact ⟨rfl, rfl⟩
    · rcases m.state.context with _ | context <;> exact ⟨rfl, rfl⟩

/-! ## 6. A failed compaction -/

/-- **A failed compaction loses nothing**: when it returns an error or is blocked, the
effective history is the one from before. -/
def LosesNothing (cfg : Config) (env : Env) (calls : CompactionCalls)
    (history : List AgentMessage) (state : ExecutionState) : Prop :=
  ((∃ error, (run_ai_compaction cfg env calls history state).2 = .error error) ∨
    ∃ reason contexts, summarise cfg calls history = .Blocked reason contexts) →
  filter_to_effective_history (run_ai_compaction cfg env calls history state).1 =
    filter_to_effective_history history

/-- The messages that are read back after one stored at the time `now`. -/
def later (now : ℤ) (history : List AgentMessage) : List AgentMessage :=
  history.dropWhile fun m => decide (¬ now < m.created_at)

def earlier (now : ℤ) (history : List AgentMessage) : List AgentMessage :=
  history.takeWhile fun m => decide (¬ now < m.created_at)

/-- The request is stored and a later step fails: writing the summary, reading the
history back, or finding a context; and no request of a later time hides it. -/
structure Interrupted (cfg : Config) (env : Env) (calls : CompactionCalls)
    (history : List AgentMessage) (state : ExecutionState) : Prop where
  ready : ∃ summary contexts count, summarise cfg calls history = .Ready summary contexts count
  stored : calls.store_request = .ok () ∧ env.uuid 0 ∉ history.map AgentMessage.id
  fails : calls.store_summary ≠ .ok () ∨ env.uuid 1 ∈ env.uuid 0 :: history.map AgentMessage.id ∨
    calls.get_new_history ≠ .ok () ∨ state.context = none
  last : ∀ m ∈ later env.now history, m.has_compaction_request = false

theorem earlier_append_later (now : ℤ) (history : List AgentMessage) :
    earlier now history ++ later now history = history :=
  List.takeWhile_append_dropWhile

/-- Where a message of the time `now` is read back. -/
theorem insert_eq (now : ℤ) (history : List AgentMessage) {message : AgentMessage}
    (hnow : message.created_at = now) :
    history.orderedInsert (fun a b => a.created_at < b.created_at) message =
      earlier now history ++ message :: later now history := by
  rw [List.orderedInsert_eq_take_drop, hnow]
  rfl

/-- A second message of the same time comes right after the first. -/
theorem insert_second_eq (now : ℤ) (history : List AgentMessage) {first second : AgentMessage}
    (hfirst : first.created_at = now) (hsecond : second.created_at = now) :
    (earlier now history ++ first :: later now history).orderedInsert
        (fun a b => a.created_at < b.created_at) second =
      earlier now history ++ first :: second :: later now history := by
  induction history with
  | nil => simp [earlier, later, hfirst, hsecond]
  | cons m history ih =>
      by_cases hm : now < m.created_at
      · simp [earlier, later, hfirst, hsecond, hm]
      · have hearlier : earlier now (m :: history) = m :: earlier now history := by
          simp [earlier, Int.not_lt.1 hm]
        have hlater : later now (m :: history) = later now history := by
          simp [later, Int.not_lt.1 hm]
        rw [hearlier, hlater, List.cons_append, List.orderedInsert_cons, hsecond, if_neg hm, ih]
        rfl

/-! The effective history starts at the last request. -/

/-- Messages before a later request make no difference. -/
theorem from_last_compaction_of_later (pre : List AgentMessage) {post : List AgentMessage}
    (hpost : ∃ m ∈ post, m.has_compaction_request = true) :
    from_last_compaction (pre ++ post) = from_last_compaction post ∧
      (from_last_compaction post).isSome = true := by
  have hsome : (from_last_compaction post).isSome = true := by
    induction post with
    | nil =>
        obtain ⟨m, hm, -⟩ := hpost
        cases hm
    | cons m post ih =>
        rw [from_last_compaction]
        rcases hlast : from_last_compaction post with _ | suffix
        · obtain ⟨m', hm', hrequest⟩ := hpost
          rcases List.mem_cons.1 hm' with rfl | hm'
          · rw [if_pos hrequest]
            rfl
          · have := ih ⟨m', hm', hrequest⟩
            rw [hlast] at this
            cases this
        · rfl
  refine ⟨?_, hsome⟩
  obtain ⟨suffix, hsuffix⟩ := Option.isSome_iff_exists.1 hsome
  induction pre with
  | nil => rfl
  | cons m pre ih => rw [List.cons_append, from_last_compaction, ih, hsuffix]

theorem ids_merge_right (h : List AgentMessage) :
    ∀ m ∈ merge_right h, m.id ∈ h.map AgentMessage.id := by
  induction h with
  | nil => exact fun m hm => by cases hm
  | cons m h ih =>
      have hhead : m.id ∈ (m :: h).map AgentMessage.id := List.mem_cons_self
      intro m' hm'
      rw [merge_right] at hm'
      rcases hmerged : merge_right h with _ | ⟨next, merged⟩
      · rw [hmerged, List.mem_singleton] at hm'
        rw [hm']
        exact hhead
      · rw [hmerged] at hm' ih
        dsimp only at hm'
        split at hm'
        · rcases List.mem_cons.1 hm' with rfl | hm'
          · exact hhead
          · exact List.mem_cons_of_mem _ (ih m' (List.mem_cons_of_mem next hm'))
        · rcases List.mem_cons.1 hm' with rfl | hm'
          · exact hhead
          · exact List.mem_cons_of_mem _ (ih m' hm')

theorem from_last_compaction_suffix {h suffix : List AgentMessage}
    (heq : from_last_compaction h = some suffix) : suffix <:+ h := by
  induction h with
  | nil => cases heq
  | cons m h ih =>
      rw [from_last_compaction] at heq
      rcases hlast : from_last_compaction h with _ | rest
      · rw [hlast] at heq
        dsimp only at heq
        split at heq
        · rw [← Option.some.inj heq]
        · cases heq
      · rw [hlast] at heq
        exact (ih (hlast.trans heq)).trans (List.suffix_cons m h)

/-- The effective history has no ids of its own. -/
theorem ids_effective_history (h : List AgentMessage) :
    ∀ m ∈ filter_to_effective_history h, m.id ∈ h.map AgentMessage.id := by
  intro m hm
  rw [filter_to_effective_history, merge_eq_merge_right] at hm
  have hmem := ids_merge_right _ m hm
  have hsub : ((from_last_compaction h).getD h).Sublist h := by
    rcases hlast : from_last_compaction h with _ | suffix
    · exact List.Sublist.refl h
    · exact (from_last_compaction_suffix hlast).sublist
  exact ((List.filter_sublist.trans hsub).map AgentMessage.id).subset hmem

/-- A request that is the last one is part of the effective history. -/
theorem request_mem_effective_history (pre : List AgentMessage) {post : List AgentMessage}
    {request : AgentMessage} (hrequest : request.has_compaction_request = true)
    (hcontent : request.has_content = true) (hresult : request.is_user_tool_result = false)
    (hpost : ∀ m ∈ post, m.has_compaction_request = false) :
    request ∈ filter_to_effective_history (pre ++ request :: post) := by
  rw [filter_to_effective_history, merge_eq_merge_right, from_last_compaction_of_last hrequest hpost,
    Option.getD_some, List.filter_cons_of_pos hcontent, merge_right_cons_of_not hresult]
  exact List.mem_cons_self

theorem effective_history_of_later {pre pre' post : List AgentMessage}
    (hpost : ∃ m ∈ post, m.has_compaction_request = true) :
    filter_to_effective_history (pre ++ post) = filter_to_effective_history (pre' ++ post) := by
  obtain ⟨hlast, hsome⟩ := from_last_compaction_of_later pre hpost
  obtain ⟨hlast', -⟩ := from_last_compaction_of_later pre' hpost
  obtain ⟨suffix, hsuffix⟩ := Option.isSome_iff_exists.1 hsome
  rw [filter_to_effective_history, filter_to_effective_history, hlast, hlast', hsuffix]
  rfl

section

variable {cfg : Config} {env : Env} {calls : CompactionCalls} {history : List AgentMessage}
  {state : ExecutionState}

/-- What is stored once the request has been written: the request, or the request and
the summary, between the earlier and the later messages. -/
theorem run_ai_compaction_stored (state : ExecutionState) {summary : String}
    {contexts : List String} {count : ℕ}
    (hready : summarise cfg calls history = .Ready summary contexts count)
    (hstored : calls.store_request = .ok () ∧ env.uuid 0 ∉ history.map AgentMessage.id) :
    ∃ between : List AgentMessage,
      (∀ m ∈ between, m.has_compaction_request = false) ∧
      (run_ai_compaction cfg env calls history state).1 =
        (earlier env.now history ++ (create_compaction_messages cfg env
          (with_contexts summary contexts) count).1 :: between) ++ later env.now history ∧
      ((∃ error, (run_ai_compaction cfg env calls history state).2 = .error error) ↔
        calls.store_summary ≠ .ok () ∨ env.uuid 1 ∈ env.uuid 0 :: history.map AgentMessage.id ∨
          calls.get_new_history ≠ .ok () ∨ state.context = none) := by
  have hwritten : add_message calls.store_request history
      (create_compaction_messages cfg env (with_contexts summary contexts) count).1 =
        .ok (earlier env.now history ++ (create_compaction_messages cfg env
          (with_contexts summary contexts) count).1 :: later env.now history) := by
    rw [hstored.1, add_message_of_new hstored.2, insert_eq env.now history rfl]
  have hids : env.uuid 1 ∈ (earlier env.now history ++ (create_compaction_messages cfg env
        (with_contexts summary contexts) count).1 :: later env.now history).map AgentMessage.id ↔
      env.uuid 1 ∈ env.uuid 0 :: history.map AgentMessage.id := by
    conv_rhs => rw [← earlier_append_later env.now history]
    simp only [List.map_append, List.map_cons, List.mem_append, List.mem_cons]
    exact or_left_comm
  rw [run_ai_compaction, hready]
  dsimp only
  rw [hwritten]
  dsimp only
  rcases hsummary : calls.store_summary with error | ⟨⟩
  · refine ⟨[], fun m hm => (by cases hm), ?_, ?_⟩
    · rw [add_message, List.append_assoc]
      rfl
    · exact ⟨fun _ => .inl (fun h => by cases h), fun _ => ⟨_, rfl⟩⟩
  · by_cases hclash : env.uuid 1 ∈ env.uuid 0 :: history.map AgentMessage.id
    · rw [add_message_of_clash (hids.2 hclash)]
      refine ⟨[], fun m hm => (by cases hm), ?_, ?_⟩
      · rw [List.append_assoc]
        rfl
      · exact ⟨fun _ => .inr (.inl hclash), fun _ => ⟨_, rfl⟩⟩
    · rw [add_message_of_new (fun h => hclash (hids.1 h)),
        insert_second_eq env.now history rfl rfl]
      -- both are written; reading back or the context may still fail, with both in place
      refine ⟨[(create_compaction_messages cfg env (with_contexts summary contexts) count).2],
        ?_, ?_, ?_⟩
      · intro m hm
        rw [List.mem_singleton.1 hm]
        rfl
      · rw [List.append_assoc]
        rcases calls.get_new_history with error | ⟨⟩ <;> rcases state.context with _ | context <;>
          rfl
      · rcases calls.get_new_history with error | ⟨⟩
        · exact ⟨fun _ => .inr (.inr (.inl fun h => by cases h)), fun _ => ⟨_, rfl⟩⟩
        · rcases state.context with _ | context
          · exact ⟨fun _ => .inr (.inr (.inr rfl)), fun _ => ⟨_, rfl⟩⟩
          · constructor
            · rintro ⟨error, h⟩
              cases h
            · rintro (h | h | h | h)
              · exact absurd rfl h
              · exact absurd h hclash
              · exact absurd rfl h
              · cases h

/-- Before the request is written nothing is stored. -/
theorem run_ai_compaction_unstored
    (h : ¬ ((∃ summary contexts count,
        summarise cfg calls history = .Ready summary contexts count) ∧
      calls.store_request = .ok () ∧ env.uuid 0 ∉ history.map AgentMessage.id)) :
    (run_ai_compaction cfg env calls history state).1 = history := by
  rw [run_ai_compaction]
  rcases hready : summarise cfg calls history with error | ⟨reason, contexts⟩ |
    ⟨summary, contexts, count⟩
  · rfl
  · rfl
  · dsimp only
    rcases hwrite : calls.store_request with error | ⟨⟩
    · rfl
    · by_cases hclash : env.uuid 0 ∈ history.map AgentMessage.id
      · have hrefused : add_message (.ok ()) history (create_compaction_messages cfg env
            (with_contexts summary contexts) count).1 = _ := add_message_of_clash hclash
        rw [hrefused]
      · exact absurd ⟨⟨_, _, _, hready⟩, hwrite, hclash⟩ h

end

/-- **When a failed compaction loses nothing**: exactly when it is not interrupted
between the write of the request and its end. -/
theorem failed_compaction_loses_nothing_iff (cfg : Config) (env : Env) (calls : CompactionCalls)
    (history : List AgentMessage) (state : ExecutionState) :
    LosesNothing cfg env calls history state ↔ ¬ Interrupted cfg env calls history state := by
  constructor
  · rintro hlaw ⟨⟨summary, contexts, count, hready⟩, hstored, hfails, hlast⟩
    obtain ⟨between, hbetween, hhistory, herror⟩ :=
      run_ai_compaction_stored state hready hstored
    have heffective := hlaw (.inl (herror.2 hfails))
    -- the request is in the new effective history, and its id is new
    have hrequest : (create_compaction_messages cfg env (with_contexts summary contexts) count).1 ∈
        filter_to_effective_history (run_ai_compaction cfg env calls history state).1 := by
      rw [hhistory, List.append_assoc, List.cons_append]
      refine request_mem_effective_history _ rfl rfl rfl ?_
      intro m hm
      exact (List.mem_append.1 hm).elim (hbetween m) (hlast m)
    rw [heffective] at hrequest
    exact hstored.2 (ids_effective_history history _ hrequest)
  · intro hwhole hfailed
    by_cases hstored : (∃ summary contexts count,
        summarise cfg calls history = .Ready summary contexts count) ∧
      calls.store_request = .ok () ∧ env.uuid 0 ∉ history.map AgentMessage.id
    · obtain ⟨⟨summary, contexts, count, hready⟩, hwritten⟩ := hstored
      obtain ⟨between, -, hhistory, herror⟩ :=
        run_ai_compaction_stored state hready hwritten
      have hfails : ∃ error, (run_ai_compaction cfg env calls history state).2 = .error error := by
        rcases hfailed with h | ⟨reason, contexts', hblocked⟩
        · exact h
        · rw [hready] at hblocked
          cases hblocked
      have hlater : ∃ m ∈ later env.now history, m.has_compaction_request = true := by
        by_contra hnone
        refine hwhole ⟨⟨summary, contexts, count, hready⟩, hwritten, herror.1 hfails, ?_⟩
        intro m hm
        rw [← Bool.not_eq_true]
        exact fun h => hnone ⟨m, hm, h⟩
      rw [hhistory]
      conv_rhs => rw [← earlier_append_later env.now history]
      exact effective_history_of_later hlater
    · rw [run_ai_compaction_unstored hstored]

/-- Every call returns, but the summary cannot be written. -/
def summary_not_written : CompactionCalls where
  get_history := .ok ()
  run_pre_compaction := .ok ⟨false, none, []⟩
  provider := .ok ()
  process := fun _ => .ok ⟨"summary", 15⟩
  run_post_compaction := fun _ => .ok []
  store_request := .ok ()
  store_summary := .error "database is locked"
  get_new_history := .ok ()
  estimate_messages_tokens := fun _ => 5

/-- What the user asked for. -/
def first_prompt : AgentMessage where
  id := "prompt"
  session_id := "session"
  role := .User
  parts := [.Text "Fix the build."]
  created_at := 0
  parent_message_id := none
  source_provider := none
  source_model := none

/-- The next turn sees the request, and not the prompt. -/
theorem summary_write_failure_hides_prompt :
    ¬ LosesNothing plain_config (quiet_env .Cancelled) summary_not_written [first_prompt]
      (.Stopped "Context token threshold reached" .ContextThreshold
        (some (start plain_config [first_prompt] none []).initial_context)) := by
  intro hlaw
  have heffective := hlaw (.inl ⟨_, rfl⟩)
  have hids : ["message"] = ["prompt"] := congrArg (List.map AgentMessage.id) heffective
  exact absurd hids (by decide)

end Compaction

end Querymt.Agent
