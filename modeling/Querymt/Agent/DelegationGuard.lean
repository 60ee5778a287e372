/-
`Agent/DelegationGuard.lean` -- does the guard stop a duplicate delegation?

Mirrors `middleware/delegation_guard.rs`. The guard runs between a response and its
storage: `execute_cycle_state_machine` calls the middleware in the state `AfterLlm`, and
`transition_after_llm` stores the assistant message afterwards. The guard does not read
the response it is handed. It loads the history and looks "for delegation tool calls in
the last assistant message", which is the message before the response. The file says
when the guard refuses a response with a duplicate call, and that in an orderly run,
where every stored call has its result behind it, it refuses nothing at all.

`serde_json` and the hash of `RapidHash::new` are parameters.
-/
import Querymt.Agent.Answers
import Querymt.Delegation.Orchestrator

set_option autoImplicit false

open Runs
open Querymt.Delegations (DelegationStatus)

namespace Querymt.Agent

/-! ## 1. The guard -/

/-- What the guard uses of other crates: a JSON text, the string under a key of an
object, and the hash of an objective. -/
structure Platform where
  Value : Type
  from_str : String → Option Value
  get_str : Value → String → Option String
  rapid_hash : String → UInt64

/-- A stored delegation, as far as the guard reads it; times are nanoseconds. -/
structure Delegation where
  public_id : String
  target_agent_id : String
  objective : String
  objective_hash : UInt64
  status : DelegationStatus
  retry_count : ℕ
  completed_at : Option ℤ
  deriving DecidableEq

/-- The store of a session, and whether the two queries of the guard succeed. -/
structure SessionStore where
  history : List AgentMessage
  delegations : List Delegation
  get_history_ok : Bool
  list_delegations_ok : Bool

structure DelegationGuardMiddleware where
  max_retries : ℕ := 3
  duplicate_window_secs : ℤ := 5

/-- `{:?}` of a status. -/
def status_debug : DelegationStatus → String
  | .Requested => "Requested"
  | .Running => "Running"
  | .Complete => "Complete"
  | .Failed => "Failed"
  | .Cancelled => "Cancelled"

/-- `Duration::whole_seconds` of the time since a completion. -/
def elapsed_seconds (now completed : ℤ) : ℤ := (now - completed).tdiv 1000000000

namespace DelegationGuardMiddleware

variable (guard : DelegationGuardMiddleware)

/-- The warning that a delegation with the same target and objective gives rise to. -/
def warning (now : ℤ) (target_agent_id : String) (del : Delegation) : Option String :=
  match del.status with
  | .Running | .Requested =>
      some ("⚠️ DUPLICATE DELEGATION BLOCKED\n\nA delegation with the same objective to '" ++
        target_agent_id ++ "' is already in progress.\nDelegation ID: " ++ del.public_id ++
        "\nStatus: " ++ status_debug del.status ++
        "\n\nPlease wait for the current delegation to complete before retrying.")
  | .Failed =>
      if guard.max_retries ≤ del.retry_count then
        some ("⚠️ MAX RETRIES EXCEEDED\n\nThis delegation has failed " ++
          toString del.retry_count ++ " times (limit: " ++ toString guard.max_retries ++
          ").\nPrevious delegation ID: " ++ del.public_id ++
          "\n\nThe task appears to be stuck. Please:\n" ++
          "1. Review why previous attempts failed (check error messages)\n" ++
          "2. Modify your approach or break down the task differently\n" ++
          "3. Consider delegating to a different agent\n" ++
          "4. Try a different strategy entirely")
      else
        match del.completed_at with
        | some completed =>
            if elapsed_seconds now completed < guard.duplicate_window_secs then
              some ("⚠️ RETRY TOO SOON\n\nPrevious delegation failed " ++
                toString (elapsed_seconds now completed) ++
                " seconds ago.\nPlease wait at least " ++ toString guard.duplicate_window_secs ++
                " seconds before retrying.\n\n" ++
                "Suggestion: Analyze the failure before immediately retrying.")
            else none
        | none => none
  | .Complete | .Cancelled => none

/-- `check_delegation_allowed`: the first warning of a delegation with this hash and
target. -/
def check_delegation_allowed (now : ℤ) (store : SessionStore) (objective_hash : UInt64)
    (target_agent_id : String) : Option String :=
  if store.list_delegations_ok then
    store.delegations.findSome? fun del =>
      if del.objective_hash = objective_hash ∧ del.target_agent_id = target_agent_id then
        guard.warning now target_agent_id del
      else none
  else none

end DelegationGuardMiddleware

/-- The target and the objective of a `delegate` call; what is missing is empty. -/
def delegate_args (P : Platform) (name arguments : String) : Option (String × String) :=
  if name = "delegate" then
    (P.from_str arguments).map fun args =>
      ((P.get_str args "target_agent_id").getD "", (P.get_str args "objective").getD "")
  else none

namespace DelegationGuardMiddleware

variable (P : Platform) (guard : DelegationGuardMiddleware) (store : SessionStore) (now : ℤ)

/-- The warning for one part of the last message. -/
def check_part : MessagePart → Option String
  | .ToolUse tool_call =>
      match delegate_args P tool_call.function.name tool_call.function.arguments with
      | some (target_agent_id, objective) =>
          if target_agent_id ≠ "" ∧ objective ≠ "" then
            guard.check_delegation_allowed now store (P.rapid_hash objective) target_agent_id
          else none
      | none => none
  | _ => none

/-- The warning for the last stored message, if that is an assistant message. -/
def check_history : Option String :=
  if store.get_history_ok then
    match store.history.getLast? with
    | some last_msg =>
        if last_msg.role = .Assistant then last_msg.parts.findSome? (guard.check_part P store now)
        else none
    | none => none
  else none

/-- `on_after_llm`. The warning itself is put into a context that is dropped. -/
def on_after_llm : ExecutionState → ExecutionState
  | .AfterLlm response context =>
      match guard.check_history P store now with
      | some _ => .Stopped "Delegation blocked by guard" .DelegationBlocked (some context)
      | none => .AfterLlm response context
  | state => state

/-- The guard in the pipeline: it has no other hook. -/
def driver : MiddlewareDriver := fun phase state =>
  match phase with
  | .AfterLlm => .ok (guard.on_after_llm P store now state)
  | _ => .ok state

end DelegationGuardMiddleware

/-! ## 2. The law and its condition -/

/-- The response calls `delegate` with the target and the objective of a delegation that
is requested or running. -/
def Duplicates (P : Platform) (store : SessionStore) (response : LlmResponse) : Prop :=
  ∃ call ∈ response.tool_calls, ∃ del ∈ store.delegations,
    delegate_args P call.function.name call.function.arguments =
      some (del.target_agent_id, del.objective) ∧
    (del.status = .Requested ∨ del.status = .Running)

/-- The guard's answer is not `AfterLlm`, and an iteration with the guard as its
middleware leaves no call to process. -/
def Refused (P : Platform) (guard : DelegationGuardMiddleware) (store : SessionStore) (now : ℤ)
    (response : LlmResponse) (context : ConversationContext) : Prop :=
  (∀ response' context', guard.on_after_llm P store now (.AfterLlm response context) ≠
      .AfterLlm response' context') ∧
    ∀ cfg env (m : Machine), m.state = .AfterLlm response context →
      env.drivers = [guard.driver P store now] → (iterate cfg m env).state.pending_ids = []

/-- **The law.** A response with a duplicate delegation is refused. -/
def RefusesDuplicates (P : Platform) (guard : DelegationGuardMiddleware) (store : SessionStore)
    (now : ℤ) (response : LlmResponse) (context : ConversationContext) : Prop :=
  Duplicates P store response → Refused P guard store now response context

/-- A delegation that blocks the next one of its kind: in progress, failed too often, or
failed just now. -/
def DelegationGuardMiddleware.Blocks (guard : DelegationGuardMiddleware) (now : ℤ)
    (del : Delegation) : Prop :=
  del.status = .Requested ∨ del.status = .Running ∨
    del.status = .Failed ∧ (guard.max_retries ≤ del.retry_count ∨
      ∃ completed ∈ del.completed_at, elapsed_seconds now completed < guard.duplicate_window_secs)

/-- **The condition**, on the store before the response: both queries succeed, and the
last stored message is an assistant message with a `delegate` call of its own, with
target and objective, of which a stored delegation blocks the repetition. -/
def LastMessageBlocked (P : Platform) (guard : DelegationGuardMiddleware) (store : SessionStore)
    (now : ℤ) : Prop :=
  store.get_history_ok = true ∧ store.list_delegations_ok = true ∧
    ∃ last_msg ∈ store.history.getLast?, last_msg.role = .Assistant ∧
      ∃ tool_call, .ToolUse tool_call ∈ last_msg.parts ∧ ∃ target_agent_id objective,
        delegate_args P tool_call.function.name tool_call.function.arguments =
          some (target_agent_id, objective) ∧ target_agent_id ≠ "" ∧ objective ≠ "" ∧
        ∃ del ∈ store.delegations, del.objective_hash = P.rapid_hash objective ∧
          del.target_agent_id = target_agent_id ∧ guard.Blocks now del

/-! ## 3. What the guard blocks -/

section

variable {P : Platform} {guard : DelegationGuardMiddleware} {store : SessionStore} {now : ℤ}

theorem warning_isSome {target_agent_id : String} {del : Delegation} :
    (guard.warning now target_agent_id del).isSome = true ↔ guard.Blocks now del := by
  unfold DelegationGuardMiddleware.warning DelegationGuardMiddleware.Blocks
  cases hstatus : del.status with
  | Requested => simp
  | Running => simp
  | Complete => simp
  | Cancelled => simp
  | Failed =>
      by_cases hretries : guard.max_retries ≤ del.retry_count
      · simp [hretries]
      · cases hcompleted : del.completed_at with
        | none => simp [hretries]
        | some completed =>
            by_cases hsoon : elapsed_seconds now completed < guard.duplicate_window_secs
            · simp [hretries, hsoon]
            · simp [hretries, hsoon]

theorem check_delegation_allowed_isSome {objective_hash : UInt64} {target_agent_id : String} :
    (guard.check_delegation_allowed now store objective_hash target_agent_id).isSome = true ↔
      store.list_delegations_ok = true ∧ ∃ del ∈ store.delegations,
        del.objective_hash = objective_hash ∧ del.target_agent_id = target_agent_id ∧
          guard.Blocks now del := by
  unfold DelegationGuardMiddleware.check_delegation_allowed
  cases store.list_delegations_ok with
  | false => simp
  | true =>
      simp only [if_true, List.findSome?_isSome_iff, true_and]
      constructor
      · rintro ⟨del, hdel, hsome⟩
        split at hsome
        · next hsame => exact ⟨del, hdel, hsame.1, hsame.2, warning_isSome.1 hsome⟩
        · cases hsome
      · rintro ⟨del, hdel, hhash, htarget, hblocks⟩
        refine ⟨del, hdel, ?_⟩
        rw [if_pos ⟨hhash, htarget⟩]
        exact warning_isSome.2 hblocks

/-- The guard blocks exactly under the condition. -/
theorem check_history_isSome :
    (guard.check_history P store now).isSome = true ↔ LastMessageBlocked P guard store now := by
  unfold DelegationGuardMiddleware.check_history LastMessageBlocked
  cases hget : store.get_history_ok with
  | false => simp
  | true =>
      cases hlast : store.history.getLast? with
      | none => simp
      | some last_msg =>
          simp only [if_true, true_and, Option.mem_def, Option.some.injEq, exists_eq_left']
          by_cases hrole : last_msg.role = .Assistant
          · simp only [hrole, if_true, List.findSome?_isSome_iff, true_and]
            constructor
            · rintro ⟨part, hpart, hsome⟩
              cases part with
              | ToolUse tool_call =>
                  unfold DelegationGuardMiddleware.check_part at hsome
                  dsimp only at hsome
                  split at hsome
                  · next target_agent_id objective hargs =>
                      split at hsome
                      · next hfilled =>
                          obtain ⟨hlist, hdel⟩ := check_delegation_allowed_isSome.1 hsome
                          exact ⟨hlist, tool_call, hpart, target_agent_id, objective, hargs,
                            hfilled.1, hfilled.2, hdel⟩
                      · cases hsome
                  · cases hsome
              | _ => cases hsome
            · rintro ⟨hlist, tool_call, hpart, target_agent_id, objective, hargs, htarget,
                hobjective, hdel⟩
              refine ⟨.ToolUse tool_call, hpart, ?_⟩
              unfold DelegationGuardMiddleware.check_part
              simp only [hargs]
              rw [if_pos ⟨htarget, hobjective⟩]
              exact check_delegation_allowed_isSome.2 ⟨hlist, hdel⟩
          · simp [hrole]

/-- A response that is let through is handed on as it is. -/
theorem on_after_llm_of_not_blocked (h : ¬ LastMessageBlocked P guard store now)
    (state : ExecutionState) : guard.on_after_llm P store now state = state := by
  have hnone : guard.check_history P store now = none := by
    rw [← Option.not_isSome_iff_eq_none, check_history_isSome]
    exact h
  cases state with
  | AfterLlm response context => simp only [DelegationGuardMiddleware.on_after_llm, hnone]
  | _ => rfl

theorem on_after_llm_of_blocked (h : LastMessageBlocked P guard store now)
    (response : LlmResponse) (context : ConversationContext) :
    guard.on_after_llm P store now (.AfterLlm response context) =
      .Stopped "Delegation blocked by guard" .DelegationBlocked (some context) := by
  obtain ⟨text, hsome⟩ := Option.isSome_iff_exists.1 (check_history_isSome.2 h)
  simp only [DelegationGuardMiddleware.on_after_llm, hsome]

/-- A refused response is not stored, and none of its calls runs. -/
theorem refused_of_blocked (h : LastMessageBlocked P guard store now) (response : LlmResponse)
    (context : ConversationContext) : Refused P guard store now response context := by
  have hstopped := on_after_llm_of_blocked h response context
  refine ⟨fun response' context' heq => ?_, fun cfg env m hstate hdrivers => ?_⟩
  · rw [hstopped] at heq
    cases heq
  · unfold iterate
    split
    · rw [hstate]
      rfl
    · split
      · show m.state.pending_ids = []
        rw [hstate]
        rfl
      · rw [hstate]
        have hrun : run_phase .AfterLlm env.drivers m.state =
            .ok (.Stopped "Delegation blocked by guard" .DelegationBlocked (some context)) := by
          rw [hdrivers, hstate]
          simp only [run_phase, DelegationGuardMiddleware.driver, hstopped]
          rfl
        simp only [with_middleware, hrun]
        rfl

/-- **When the guard refuses a duplicate delegation**: if and only if the message stored
before the response would be blocked. -/
theorem refuses_duplicates_iff (P : Platform) (guard : DelegationGuardMiddleware)
    (store : SessionStore) (now : ℤ) (response : LlmResponse) (context : ConversationContext) :
    RefusesDuplicates P guard store now response context ↔
      (Duplicates P store response → LastMessageBlocked P guard store now) := by
  constructor
  · intro h hdup
    by_contra hpass
    exact (h hdup).1 response context (on_after_llm_of_not_blocked hpass _)
  · intro h hdup
    exact refused_of_blocked (h hdup) response context

end

/-! ## 4. A duplicate that is executed -/

/-- The arguments of a call that delegates the task `task` to the agent `agent`. -/
def task_for_agent : String :=
  "\x7b\"target_agent_id\":\"agent\",\"objective\":\"task\"\x7d"

/-- JSON, as far as that text is concerned. -/
def task_platform : Platform where
  Value := List (String × String)
  from_str := fun text =>
    if text = task_for_agent then some [("target_agent_id", "agent"), ("objective", "task")]
    else none
  get_str := fun args key => args.lookup key
  rapid_hash := fun _ => 0

/-- The delegation of that task runs; only the user's prompt is stored. -/
def task_running : SessionStore where
  history :=
    [{ id := "prompt"
       session_id := "session"
       role := .User
       parts := [.Text "go on"]
       created_at := 0
       parent_message_id := none
       source_provider := none
       source_model := none }]
  delegations :=
    [{ public_id := "del-1"
       target_agent_id := "agent"
       objective := "task"
       objective_hash := task_platform.rapid_hash "task"
       status := .Running
       retry_count := 0
       completed_at := none }]
  get_history_ok := true
  list_delegations_ok := true

/-- The model delegates the same task once more. -/
def delegates_again : LlmResponse :=
  { calls_shell with tool_calls := [⟨"call-2", ⟨"delegate", task_for_agent⟩⟩] }

/-- An iteration with the guard as the middleware. -/
def guarded_env (llm : LlmOutcome) : Env :=
  { quiet_env llm with
    drivers := [DelegationGuardMiddleware.driver task_platform {} task_running 0] }

/-- The turn up to the response. -/
def delegating_turn : List Env :=
  [guarded_env .Cancelled, guarded_env (.Response delegates_again)]

/-- The guard lets the second call through, and the next iteration goes on to run it. -/
theorem duplicate_let_through :
    let m := run (iterate plain_config) (start plain_config task_running.history none [])
      delegating_turn
    let context := starting_context plain_config task_running.history "provider" "model"
    m.state = .AfterLlm delegates_again context ∧
      ¬ RefusesDuplicates task_platform {} task_running 0 delegates_again context ∧
      (iterate plain_config m (guarded_env .Cancelled)).state.pending_ids = ["call-2"] := by
  refine ⟨rfl, ?_, rfl⟩
  intro h
  have hdup : Duplicates task_platform task_running delegates_again :=
    ⟨⟨"call-2", ⟨"delegate", task_for_agent⟩⟩, List.mem_singleton_self _,
      ⟨"del-1", "agent", "task", 0, .Running, 0, none⟩, List.mem_singleton_self _, by decide,
      Or.inr rfl⟩
  exact (h hdup).1 _ _ rfl

/-! ## 5. Orderly runs -/

/-- In a history whose calls are answered, the last message calls nothing. -/
theorem Paired.last_calls_nothing {h : List AgentMessage} (hh : Paired h) :
    ∀ last ∈ h.getLast?, last.tool_use_ids = [] := by
  induction hh with
  | nil => simp
  | @plain m rest huses _ _ ih =>
      intro last hlast
      rw [List.getLast?_cons] at hlast
      cases hrest : rest.getLast? with
      | none =>
          rw [hrest] at hlast
          cases hlast
          exact huses
      | some x =>
          rw [hrest] at hlast
          cases hlast
          exact ih _ hrest
  | @exchange a rs rest _ _ _ hrs _ hperm _ ih =>
      intro last hlast
      rw [← List.cons_append, List.getLast?_append] at hlast
      cases hrest : rest.getLast? with
      | some x =>
          rw [hrest] at hlast
          cases hlast
          exact ih _ hrest
      | none =>
          rw [hrest, Option.none_or, List.getLast?_cons] at hlast
          cases hresults : rs.getLast? with
          | some x =>
              rw [hresults] at hlast
              cases hlast
              exact (hrs _ (List.mem_of_getLast? hresults)).2.1
          | none =>
              -- no results, so the message has no calls
              rw [hresults] at hlast
              cases hlast
              rw [List.getLast?_eq_none_iff.1 hresults] at hperm
              simpa using hperm

/-- What a blocked message calls is a call. -/
theorem not_blocked_of_last_calls_nothing {P : Platform} {guard : DelegationGuardMiddleware}
    {store : SessionStore} {now : ℤ}
    (h : ∀ last ∈ store.history.getLast?, last.tool_use_ids = []) :
    ¬ LastMessageBlocked P guard store now := by
  rintro ⟨-, -, last, hlast, -, tool_call, hpart, -⟩
  have hcall : tool_call.id ∈ last.tool_use_ids :=
    List.mem_filterMap.2 ⟨.ToolUse tool_call, hpart, rfl⟩
  rw [h last hlast] at hcall
  cases hcall

/-- **The guard lets everything pass**, in every run in which calls are answered and the
clock does not step back: when it is asked, the call it looks for is not stored yet, and
the calls before it have their results behind them. -/
theorem guard_lets_everything_pass (cfg : Config) (base : List AgentMessage)
    (snapshot : Option (String × Option String)) (drivers : List MiddlewareDriver)
    (envs : List Env) (hbase : Paired (get_history base))
    (hstart : (start cfg base snapshot drivers).state.is_processing = false)
    (hkeeps : Along (iterate cfg) KeepsCalls (start cfg base snapshot drivers) envs)
    (htime : Along (iterate cfg) KeepsTime (start cfg base snapshot drivers) envs) :
    Along (iterate cfg) (fun m _ => m.outcome = none → m.state.is_processing = false →
      ∀ P guard delegations get_history_ok list_delegations_ok now,
        DelegationGuardMiddleware.on_after_llm P guard
          ⟨get_history m.history, delegations, get_history_ok, list_delegations_ok⟩ now m.state =
            m.state)
      (start cfg base snapshot drivers) envs := by
  refine along_of_invariant (I := fun m => Balanced base m ∧ Chronological base m)
    (hkeeps.and htime) (fun m env h hC => ⟨balanced_iterate h.1 hC.1, h.2.step hC.2⟩) ?_
    ⟨balanced_start cfg base snapshot drivers hstart,
      chronological_start cfg base snapshot drivers⟩
  rintro m env ⟨⟨base', new, heq, hlen, hpaired, hsettled⟩, hchronological⟩ - hout hstate
  intro P guard delegations get_history_ok list_delegations_ok now
  apply on_after_llm_of_not_blocked
  apply not_blocked_of_last_calls_nothing
  have hhistory : Paired (get_history m.history) := by
    rw [heq, get_history_of_chronological hchronological heq hlen]
    exact (hpaired hbase).append (hsettled.paired hout hstate)
  exact hhistory.last_calls_nothing

end Querymt.Agent
