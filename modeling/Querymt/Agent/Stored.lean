/-
`Agent/Stored.lean` -- what an iteration writes to the history.

Every message that the loop stores has the time of its iteration, and nothing is deleted.
When a later turn reads the history back, three kinds of messages count as turns of the
user: the prompts, the reports that end a wait for delegations, and the requests of
compactions. Which of them an iteration stores is decided by the state it starts in and
by what it learns (`turn_event`); `iterate_writes` proves that the history has exactly
these.
-/
import Querymt.Agent.Machine

set_option autoImplicit false

open Runs

namespace Querymt.Agent

/-! ## 1. Turns -/

/-- A message of the user that is shown to the model and is no tool result. -/
def AgentMessage.is_turn (m : AgentMessage) : Bool :=
  decide (m.role = .User) && m.tool_result_ids.isEmpty && m.has_content

/-- What a session does that later turns count. -/
inductive SessionEvent where
  | Prompted
  /-- a wait for delegations ended, and its report went into the history -/
  | Resumed
  | Compacted
  deriving DecidableEq

/-- The event of an iteration. -/
def turn_event (cfg : Config) (m : Machine) (env : Env) : Option SessionEvent :=
  if m.outcome.isSome || env.cancelled_at_top then none
  else
    match m.state with
    | .WaitingForEvent _ _ =>
        match env.cancelled, env.wait with
        | false, .Resumed _ => some .Resumed
        | _, _ => none
    | .Stopped _ .ContextThreshold _ =>
        match cfg.compaction_auto, env.compaction with
        -- also when reading the new history back fails
        | true, .Summarised _ _ _ _ => some .Compacted
        | _, _ => none
    | _ => none

/-- The events of a run, each with the time of its iteration. -/
def turn_log (cfg : Config) : Machine → List Env → List (SessionEvent × ℤ)
  | _, [] => []
  | m, env :: envs =>
      ((turn_event cfg m env).map fun event => (event, env.now)).toList ++
        turn_log cfg (iterate cfg m env) envs

/-- What counting and reading back need of a message. -/
structure Stamp where
  created_at : ℤ
  is_turn : Bool
  is_request : Bool

def AgentMessage.stamp (m : AgentMessage) : Stamp where
  created_at := m.created_at
  is_turn := m.is_turn
  is_request := m.has_compaction_request

/-- The stamp of the message that an event stores. -/
def event_stamp (event : SessionEvent × ℤ) : Stamp where
  created_at := event.2
  is_turn := true
  is_request := decide (event.1 = .Compacted)

/-- From `m` to `m'` messages of the time `now` are added, and `event` is the one turn
among them; pruning marks do not matter. -/
def Writes (now : ℤ) (event : Option SessionEvent) (m m' : Machine) : Prop :=
  ∃ more : List Stamp,
    m'.history.map AgentMessage.stamp = m.history.map AgentMessage.stamp ++ more ∧
    (∀ s ∈ more, s.created_at = now ∧ (s.is_request = true → s.is_turn = true)) ∧
    more.filter Stamp.is_turn = (event.map fun event => event_stamp (event, now)).toList

/-! ## 2. The messages of a turn -/

theorem assistant_message_traffic (cfg : Config) (env : Env) (response : LlmResponse)
    (context : ConversationContext) :
    (assistant_message cfg env response context).tool_use_ids =
        response.tool_calls.map MiddlewareToolCall.id ∧
      (assistant_message cfg env response context).tool_result_ids = [] ∧
      (assistant_message cfg env response context).has_compaction_request = false := by
  -- the reasoning and the text in front of the calls carry no traffic
  have hfront : ∃ front : List MessagePart,
      (assistant_message cfg env response context).parts = front ++
        response.tool_calls.map (fun call =>
          .ToolUse ⟨call.id, "function", ⟨call.function.name, call.function.arguments⟩⟩) ∧
      ∀ p ∈ front, p.tool_use_id = none ∧ p.tool_result_id = none ∧
        p.is_compaction_request = false := by
    refine ⟨_, rfl, ?_⟩
    intro p hp
    rcases List.mem_append.1 hp with hp | hp
    · split at hp
      · split at hp
        · cases hp
        · rw [List.mem_singleton.1 hp]
          exact ⟨rfl, rfl, rfl⟩
      · cases hp
    · split at hp
      · cases hp
      · rw [List.mem_singleton.1 hp]
        exact ⟨rfl, rfl, rfl⟩
  obtain ⟨front, hparts, hplain⟩ := hfront
  refine ⟨?_, ?_, ?_⟩
  · have hnone : front.filterMap MessagePart.tool_use_id = [] :=
      List.filterMap_eq_nil_iff.2 fun p hp => (hplain p hp).1
    rw [AgentMessage.tool_use_ids, hparts, List.filterMap_append, hnone, List.nil_append,
      List.filterMap_map]
    exact congrFun List.filterMap_eq_map response.tool_calls
  · have hnone : front.filterMap MessagePart.tool_result_id = [] :=
      List.filterMap_eq_nil_iff.2 fun p hp => (hplain p hp).2.1
    rw [AgentMessage.tool_result_ids, hparts, List.filterMap_append, hnone, List.nil_append,
      List.filterMap_map, List.filterMap_eq_nil_iff]
    intro call _
    rfl
  · rw [AgentMessage.has_compaction_request, hparts, List.any_append, Bool.or_eq_false_iff,
      List.any_map]
    refine ⟨List.any_eq_false.2 fun p hp => by rw [(hplain p hp).2.2]; decide, ?_⟩
    exact List.any_eq_false.2 fun call _ => by simp [MessagePart.is_compaction_request]

theorem result_message_traffic (cfg : Config) (env : Env) (results : List ToolResult) :
    (result_message cfg env results).tool_use_ids = [] ∧
      (result_message cfg env results).tool_result_ids = results.map ToolResult.call_id ∧
      (result_message cfg env results).has_compaction_request = false := by
  have hsnap : ∀ p ∈ results.filterMap fun result => result.snapshot_part.map fun part =>
      MessagePart.Snapshot part.root_hash part.changed_paths,
      p.tool_use_id = none ∧ p.tool_result_id = none ∧ p.is_compaction_request = false := by
    intro p hp
    obtain ⟨result, -, hpart⟩ := List.mem_filterMap.1 hp
    obtain ⟨part, -, rfl⟩ := Option.map_eq_some_iff.1 hpart
    exact ⟨rfl, rfl, rfl⟩
  refine ⟨?_, ?_, ?_⟩
  · rw [AgentMessage.tool_use_ids, result_message, List.filterMap_append, List.append_eq_nil_iff]
    refine ⟨?_, List.filterMap_eq_nil_iff.2 fun p hp => (hsnap p hp).1⟩
    rw [List.filterMap_map, List.filterMap_eq_nil_iff]
    intro result _
    rfl
  · have hnone : (results.filterMap fun result => result.snapshot_part.map fun part =>
        MessagePart.Snapshot part.root_hash part.changed_paths).filterMap
          MessagePart.tool_result_id = [] :=
      List.filterMap_eq_nil_iff.2 fun p hp => (hsnap p hp).2.1
    rw [AgentMessage.tool_result_ids, result_message, List.filterMap_append, hnone,
      List.append_nil, List.filterMap_map]
    exact congrFun List.filterMap_eq_map results
  · rw [AgentMessage.has_compaction_request, result_message, List.any_append,
      Bool.or_eq_false_iff, List.any_map]
    refine ⟨List.any_eq_false.2 fun result _ => by
      simp [result_part, MessagePart.is_compaction_request], ?_⟩
    exact List.any_eq_false.2 fun p hp => by rw [(hsnap p hp).2.2]; decide

/-- The message of the results is no turn: it has a result, or it has nothing. -/
theorem result_message_not_turn (cfg : Config) (env : Env) (results : List ToolResult) :
    (result_message cfg env results).is_turn = false := by
  obtain ⟨-, hresults, -⟩ := result_message_traffic cfg env results
  rw [AgentMessage.is_turn, hresults]
  rcases results with _ | ⟨result, results⟩
  · rfl
  · rfl

/-- Pruning marks results; who answers what stays as it is. -/
theorem pruned_traffic (call_ids : List String) (now : ℤ) (x : AgentMessage) :
    let x' := { x with parts := x.parts.map (mark_compacted call_ids now) }
    x'.tool_use_ids = x.tool_use_ids ∧ x'.tool_result_ids = x.tool_result_ids ∧
      x'.has_compaction_request = x.has_compaction_request ∧ x'.has_content = x.has_content := by
  have hpart : ∀ p : MessagePart, (mark_compacted call_ids now p).tool_use_id = p.tool_use_id ∧
      (mark_compacted call_ids now p).tool_result_id = p.tool_result_id ∧
      (mark_compacted call_ids now p).is_compaction_request = p.is_compaction_request ∧
      (mark_compacted call_ids now p).is_turn_snapshot = p.is_turn_snapshot := by
    intro p
    cases p <;> exact ⟨rfl, rfl, rfl, rfl⟩
  refine ⟨?_, ?_, ?_, ?_⟩
  · change (x.parts.map (mark_compacted call_ids now)).filterMap MessagePart.tool_use_id = _
    rw [List.filterMap_map]
    exact List.filterMap_congr fun p _ => (hpart p).1
  · change (x.parts.map (mark_compacted call_ids now)).filterMap MessagePart.tool_result_id = _
    rw [List.filterMap_map]
    exact List.filterMap_congr fun p _ => (hpart p).2.1
  · change (x.parts.map (mark_compacted call_ids now)).any MessagePart.is_compaction_request = _
    rw [List.any_map]
    congr 1
    funext p
    exact (hpart p).2.2.1
  · change (x.parts.map (mark_compacted call_ids now)).any (fun p => !p.is_turn_snapshot) = _
    rw [List.any_map]
    congr 1
    funext p
    exact congrArg (!·) (hpart p).2.2.2

theorem stamp_pruned (call_ids : List String) (now : ℤ) (x : AgentMessage) :
    AgentMessage.stamp { x with parts := x.parts.map (mark_compacted call_ids now) } = x.stamp := by
  obtain ⟨-, hresults, hrequest, hcontent⟩ := pruned_traffic call_ids now x
  dsimp only [AgentMessage.stamp, AgentMessage.is_turn]
  rw [hresults, hrequest, hcontent]

/-! ## 3. One iteration -/

section

variable {now : ℤ} {m m' : Machine}

theorem Writes.of_same (h : m'.history = m.history) : Writes now none m m' := by
  refine ⟨[], ?_, fun s hs => (by cases hs), rfl⟩
  rw [h, List.append_nil]

/-- Messages that are no turns. -/
theorem Writes.of_quiet {l : List AgentMessage} (h : m'.history = m.history ++ l)
    (hquiet : ∀ x ∈ l, x.created_at = now ∧ x.is_turn = false ∧
      x.has_compaction_request = false) : Writes now none m m' := by
  refine ⟨l.map AgentMessage.stamp, by rw [h, List.map_append], ?_, ?_⟩
  · intro s hs
    obtain ⟨x, hx, rfl⟩ := List.mem_map.1 hs
    obtain ⟨htime, -, hrequest⟩ := hquiet x hx
    exact ⟨htime, fun h => absurd (h.symm.trans hrequest) (by decide)⟩
  · rw [Option.map_none, Option.toList_none, List.filter_eq_nil_iff]
    intro s hs
    obtain ⟨x, hx, rfl⟩ := List.mem_map.1 hs
    rw [AgentMessage.stamp, (hquiet x hx).2.1]
    exact Bool.false_ne_true

/-- The pre-turn snapshot is a message of its own, or nothing. -/
theorem ensure_pre_turn_snapshot_ready_history (cfg : Config) (env : Env) (m : Machine) :
    ∃ more, (ensure_pre_turn_snapshot_ready cfg env m).history = m.history ++ more ∧
      ∀ x ∈ more, x.created_at = env.now ∧ x.is_turn = false ∧
        x.has_compaction_request = false := by
  rw [ensure_pre_turn_snapshot_ready]
  split
  · refine ⟨_, rfl, ?_⟩
    intro x hx
    rw [List.mem_singleton.1 hx]
    exact ⟨rfl, rfl, rfl⟩
  · exact ⟨[], (List.append_nil _).symm, fun _ hx => by cases hx⟩

variable {cfg : Config} {env : Env}

theorem writes_before_llm_call (context : ConversationContext) :
    Writes env.now none m (transition_before_llm_call env m context) := by
  rw [transition_before_llm_call]
  split
  · exact .of_same rfl
  · split <;> exact .of_same rfl

theorem writes_call_llm (context : ConversationContext) :
    Writes env.now none m (transition_call_llm env m context) := by
  rw [transition_call_llm]
  split
  · exact .of_same rfl
  · dsimp only
    split <;> exact .of_same rfl

theorem writes_after_llm (response : LlmResponse) (context : ConversationContext) :
    Writes env.now none m (transition_after_llm cfg env m response context) := by
  obtain ⟨more, hhistory, hquiet⟩ := ensure_pre_turn_snapshot_ready_history cfg env m
  rw [transition_after_llm]
  split
  · exact .of_same rfl
  · dsimp only
    split
    · exact .of_quiet hhistory hquiet
    · refine .of_quiet (l := more ++ [assistant_message cfg env response context]) ?_ ?_
      · change (ensure_pre_turn_snapshot_ready cfg env m).history ++ [_] = _
        rw [hhistory, List.append_assoc]
      · intro x hx
        rcases List.mem_append.1 hx with hx | hx
        · exact hquiet x hx
        · rw [List.mem_singleton.1 hx]
          exact ⟨rfl, rfl, (assistant_message_traffic cfg env response context).2.2⟩

theorem writes_store_all_tool_results (results : List ToolResult) (context : ConversationContext)
    (cancelled : Bool) :
    Writes env.now none m (store_all_tool_results cfg env m results context cancelled) := by
  rw [store_all_tool_results]
  split
  · exact .of_same rfl
  · next adjusted_results _ _ =>
      have hquiet : ∀ x ∈ [result_message cfg env adjusted_results],
          x.created_at = env.now ∧ x.is_turn = false ∧ x.has_compaction_request = false := by
        intro x hx
        rw [List.mem_singleton.1 hx]
        exact ⟨rfl, result_message_not_turn cfg env adjusted_results,
          (result_message_traffic cfg env adjusted_results).2.2⟩
      dsimp only
      split
      · exact .of_quiet rfl hquiet
      · split <;> exact .of_quiet rfl hquiet

theorem writes_processing_tool_calls (remaining_calls : List MiddlewareToolCall)
    (results : List ToolResult) (context : ConversationContext) :
    Writes env.now none m
      (transition_processing_tool_calls cfg env m remaining_calls results context) := by
  rw [transition_processing_tool_calls]
  split <;> exact writes_store_all_tool_results _ context _

theorem writes_waiting_for_event (context : ConversationContext) :
    Writes env.now (match env.cancelled, env.wait with
        | false, .Resumed _ => some .Resumed
        | _, _ => none) m
      (transition_waiting_for_event cfg env m context) := by
  rw [transition_waiting_for_event]
  rcases env.cancelled with _ | _
  · rw [if_neg Bool.false_ne_true]
    rcases env.wait with _ | _ | _ | message
    · exact .of_same rfl
    · exact .of_same rfl
    · exact .of_same rfl
    · refine ⟨[event_stamp (.Resumed, env.now)], ?_, ?_, rfl⟩
      · exact List.map_append
      · intro s hs
        rw [List.mem_singleton.1 hs]
        exact ⟨rfl, fun _ => rfl⟩
  · exact .of_same rfl

theorem writes_complete_turn : Writes env.now none m (complete_turn cfg env m) := by
  rw [complete_turn]
  split
  · exact .of_same rfl
  · split
    · exact .of_same rfl
    · split
      · -- pruning rewrites parts, and no stamp
        refine ⟨[], ?_, fun s hs => (by cases hs), rfl⟩
        rw [List.append_nil]
        change (m.history.map _).map AgentMessage.stamp = _
        rw [List.map_map]
        exact List.map_congr_left fun x _ => stamp_pruned env.pruned env.now x
      · exact .of_same rfl

/-- The request is a turn, and the summary is none. -/
theorem writes_ai_compaction :
    Writes env.now (match env.compaction with
        | .Summarised _ _ _ _ => some .Compacted
        | _ => none) m
      (run_ai_compaction cfg env m).1 := by
  rw [run_ai_compaction]
  rcases env.compaction with error | ⟨block_reason, contexts⟩ |
    ⟨summary, contexts, count, reloaded⟩
  · exact .of_same rfl
  · exact .of_same rfl
  · refine ⟨[event_stamp (.Compacted, env.now), ⟨env.now, false, false⟩], ?_, ?_, rfl⟩
    · have hhistory : ∀ first second : AgentMessage,
          (m.history ++ [first] ++ [second]).map AgentMessage.stamp =
            m.history.map AgentMessage.stamp ++ [first.stamp, second.stamp] := by
        intro first second
        rw [List.append_assoc, List.map_append]
        rfl
      dsimp only
      split <;> exact hhistory _ _
    · intro s hs
      rcases List.mem_cons.1 hs with rfl | hs
      · exact ⟨rfl, fun _ => rfl⟩
      · rw [List.mem_singleton.1 hs]
        exact ⟨rfl, fun h => by cases h⟩

theorem writes_stop_turn (message : String) (stop_type : StopType)
    (context : Option ConversationContext) :
    Writes env.now (match stop_type with
        | .ContextThreshold =>
            match cfg.compaction_auto, env.compaction with
            | true, .Summarised _ _ _ _ => some .Compacted
            | _, _ => none
        | _ => none) m
      (stop_turn cfg env m message stop_type context) := by
  rw [stop_turn]
  dsimp only
  by_cases hauto : stop_type = .ContextThreshold ∧ cfg.compaction_auto = true
  · rw [if_pos hauto]
    obtain ⟨rfl, hauto⟩ := hauto
    have hwrites := @writes_ai_compaction m cfg env
    rw [hauto]
    rcases hcompaction : run_ai_compaction cfg env m with ⟨m1, error | new_state⟩
    · rw [hcompaction] at hwrites
      rcases hkind : env.compaction with _ | _ | _ <;> rw [hkind] at hwrites <;> exact hwrites
    · rw [hcompaction] at hwrites
      rcases hkind : env.compaction with _ | _ | _ <;> rw [hkind] at hwrites <;> exact hwrites
  · rw [if_neg hauto]
    rcases stop_type <;> try exact .of_same rfl
    rcases hoff : cfg.compaction_auto with _ | _
    · exact .of_same rfl
    · exact absurd ⟨rfl, hoff⟩ hauto

theorem writes_with_middleware (phase : MiddlewarePhase) {continuation : ExecutionState → Machine}
    (h : ∀ s, Writes env.now none m (continuation s)) :
    Writes env.now none m (with_middleware env m phase continuation) := by
  rw [with_middleware]
  split
  · exact .of_same rfl
  · exact h _

/-- **What an iteration stores** is what its event says. -/
theorem iterate_writes (cfg : Config) (m : Machine) (env : Env) :
    Writes env.now (turn_event cfg m env) m (iterate cfg m env) := by
  rw [iterate, turn_event]
  rcases hout : m.outcome.isSome with _ | _
  · rcases htop : env.cancelled_at_top with _ | _
    · simp only [Bool.false_or, Bool.false_eq_true, if_false]
      rcases m.state with _ | ⟨context, tools⟩ | _ | _ | ⟨context, wait⟩ | _ |
        ⟨message, stop_type, context⟩ | _
      · refine writes_with_middleware .StepStart fun s => ?_
        split
        · exact writes_before_llm_call _
        · exact .of_same rfl
      · exact writes_call_llm context
      · refine writes_with_middleware .AfterLlm fun s => ?_
        split
        · exact writes_after_llm _ _
        · exact .of_same rfl
      · refine writes_with_middleware .ProcessingToolCalls fun s => ?_
        split
        · exact writes_processing_tool_calls _ _ _
        · exact .of_same rfl
      · exact writes_waiting_for_event context
      · refine writes_with_middleware .TurnEnd fun s => ?_
        split
        · exact writes_complete_turn
        · exact .of_same rfl
      · have hwrites := @writes_stop_turn m cfg env message stop_type context
        rcases stop_type <;> exact hwrites
      · exact .of_same rfl
    · exact .of_same rfl
  · exact .of_same rfl

end

/-! ## 4. Every run -/

/-- **What a run stores**: its log, and messages that are no turns. -/
theorem run_writes (cfg : Config) (m : Machine) (envs : List Env) :
    ∃ more : List Stamp,
      (run (iterate cfg) m envs).history.map AgentMessage.stamp =
        m.history.map AgentMessage.stamp ++ more ∧
      (∀ s ∈ more, s.is_request = true → s.is_turn = true) ∧
      more.filter Stamp.is_turn = (turn_log cfg m envs).map event_stamp := by
  induction envs generalizing m with
  | nil => exact ⟨[], (List.append_nil _).symm, fun s hs => (by cases hs), rfl⟩
  | cons env envs ih =>
      obtain ⟨first, hfirst, hstamps, hevent⟩ := iterate_writes cfg m env
      obtain ⟨rest, hrest, hturns, hlog⟩ := ih (iterate cfg m env)
      refine ⟨first ++ rest, ?_, ?_, ?_⟩
      · rw [run_cons, hrest, hfirst, List.append_assoc]
      · intro s hs
        rcases List.mem_append.1 hs with hs | hs
        · exact (hstamps s hs).2
        · exact hturns s hs
      · rw [List.filter_append, hevent, hlog, turn_log, List.map_append]
        rcases turn_event cfg m env with _ | event <;> rfl

/-- The clock of an iteration is not behind a message that is already stored. -/
def KeepsTime (m : Machine) (env : Env) : Prop :=
  m.outcome = none → ∀ message ∈ m.history, message.created_at ≤ env.now

instance (m : Machine) (env : Env) : Decidable (KeepsTime m env) :=
  inferInstanceAs (Decidable (m.outcome = none → ∀ message ∈ m.history,
    message.created_at ≤ env.now))

/-- Behind the first messages, those of the run come in the order of their times. -/
def Chronological (base : List AgentMessage) (m : Machine) : Prop :=
  ∃ times : List ℤ,
    m.history.map AgentMessage.created_at = base.map AgentMessage.created_at ++ times ∧
    (∀ a ∈ base, ∀ t ∈ times, a.created_at ≤ t) ∧ times.Pairwise (· ≤ ·)

theorem Chronological.step {base : List AgentMessage} {m : Machine} (h : Chronological base m)
    {cfg : Config} {env : Env} (hkeeps : KeepsTime m env) :
    Chronological base (iterate cfg m env) := by
  by_cases hover : m.outcome.isSome = true
  · rw [iterate, if_pos hover]
    exact h
  obtain ⟨times, htimes, hbase, hordered⟩ := h
  obtain ⟨more, hmore, hstamps, -⟩ := iterate_writes cfg m env
  have hclock := hkeeps (Option.not_isSome_iff_eq_none.1 hover)
  have hnow : ∀ t ∈ more.map Stamp.created_at, t = env.now := by
    intro t ht
    obtain ⟨s, hs, rfl⟩ := List.mem_map.1 ht
    exact (hstamps s hs).1
  have hcreated : (iterate cfg m env).history.map AgentMessage.created_at =
      m.history.map AgentMessage.created_at ++ more.map Stamp.created_at := by
    have hmap := congrArg (List.map Stamp.created_at) hmore
    rwa [List.map_append, List.map_map, List.map_map] at hmap
  -- the clock is not behind anything that is stored
  have hpast : ∀ t ∈ base.map AgentMessage.created_at ++ times, t ≤ env.now := by
    intro t ht
    rw [← htimes] at ht
    obtain ⟨message, hmessage, rfl⟩ := List.mem_map.1 ht
    exact hclock message hmessage
  refine ⟨times ++ more.map Stamp.created_at, ?_, ?_, ?_⟩
  · rw [hcreated, htimes, List.append_assoc]
  · intro a ha t ht
    rcases List.mem_append.1 ht with ht | ht
    · exact hbase a ha t ht
    · rw [hnow t ht]
      exact hpast _ (List.mem_append_left _ (List.mem_map_of_mem ha))
  · rw [List.pairwise_append]
    refine ⟨hordered, ?_, ?_⟩
    · exact List.pairwise_of_forall_mem_list fun a ha b hb => by rw [hnow a ha, hnow b hb]
    · intro t ht u hu
      rw [hnow u hu]
      exact hpast t (List.mem_append_right _ ht)

/-- **Reading a run back**: with a clock that does not step back, the messages of the
run come behind those it started from, in the order in which it stored them. -/
theorem get_history_of_chronological {base base' new : List AgentMessage} {m : Machine}
    (h : Chronological base m) (hhistory : m.history = base' ++ new)
    (hlength : base'.length = base.length) :
    get_history (base' ++ new) = get_history base' ++ new := by
  obtain ⟨times, htimes, hbase, hordered⟩ := h
  rw [hhistory, List.map_append] at htimes
  have hcount : (base'.map AgentMessage.created_at).length =
      (base.map AgentMessage.created_at).length := by
    rw [List.length_map, List.length_map, hlength]
  obtain ⟨hfirst, hsecond⟩ := List.append_inj htimes hcount
  refine get_history_append ?_ ?_
  · intro a ha b hb
    have hmem : a.created_at ∈ base.map AgentMessage.created_at :=
      hfirst ▸ List.mem_map_of_mem ha
    obtain ⟨c, hc, heq⟩ := List.mem_map.1 hmem
    rw [← heq]
    exact hbase c hc _ (hsecond ▸ List.mem_map_of_mem hb)
  · rw [← hsecond, List.pairwise_map] at hordered
    exact hordered

end Querymt.Agent
