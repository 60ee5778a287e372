/-
`Agent/Answers.lean` -- is every stored tool call answered?

`transition_after_llm` stores the assistant message with its tool calls; the results
are stored one iteration later, by `transition_processing_tool_calls`, which takes
care to do so also when the turn was cancelled. Between the two lie the exits that
miss it: a finish reason other than `ToolCalls` ends the turn with the calls already
stored, the cancellation check at the top of the loop returns before the results are
stored, and a middleware may replace the state. The file proves that these are all:
a run that takes none of them leaves every call answered exactly once.

The next turn reads the messages back by their times. The results are read behind their
calls only if the clock, in whole seconds, does not step back during the run.
-/
import Querymt.Agent.Stored

set_option autoImplicit false

open Runs

namespace Querymt.Agent

/-! ## 1. The condition -/

/-- The calls of a response get to be processed, and have distinct ids. -/
def LlmResponse.Answerable (response : LlmResponse) : Prop :=
  response.tool_calls = [] ∨
    ((response.tool_calls.map MiddlewareToolCall.id).Nodup ∧ response.finish_reason ≠ some .Stop ∧
      response.finish_reason ≠ some .Length ∧ response.finish_reason ≠ some .ContentFilter)

/-- What a pipeline of middleware answers, unless it fails. -/
def Answers (answer : Except String ExecutionState) (P : ExecutionState → Prop) : Prop :=
  match answer with
  | .ok state => P state
  | .error _ => True

theorem Answers.of_ok {answer : Except String ExecutionState} {P : ExecutionState → Prop}
    (h : Answers answer P) {s : ExecutionState} (hok : answer = .ok s) : P s := by
  rw [hok] at h
  exact h

/-- The state that `transition_after_llm` is called with. -/
def AnswerableState (cancelled : Bool) : ExecutionState → Prop
  | .AfterLlm response _ => cancelled = false → response.Answerable
  | state => state.is_processing = false

/-- What the middleware of an iteration makes of the calls that are pending. -/
def MiddlewareKeepsCalls (env : Env) (state : ExecutionState) : Prop :=
  match state with
  | .BeforeLlmCall _ =>
      Answers (run_phase .StepStart env.drivers state) fun s => s.is_processing = false
  | .AfterLlm _ _ =>
      Answers (run_phase .AfterLlm env.drivers state) (AnswerableState env.cancelled)
  | .ProcessingToolCalls _ _ _ =>
      Answers (run_phase .ProcessingToolCalls env.drivers state) fun s =>
        s.is_processing = true ∧ s.pending_ids = state.pending_ids
  | .Complete =>
      Answers (run_phase .TurnEnd env.drivers state) fun s => s.is_processing = false
  | .CallLlm _ _ | .WaitingForEvent _ _ | .Stopped _ _ _ | .Cancelled => True

/-- **The condition.** Pending tool calls are not cut off by a cancellation at the top
of the loop or by a middleware; no middleware makes up tool calls; and a response is
stored only if its calls get processed and have distinct ids. -/
def KeepsCalls (m : Machine) (env : Env) : Prop :=
  m.outcome = none →
    (m.state.is_processing = true → env.cancelled_at_top = false) ∧
      MiddlewareKeepsCalls env m.state

instance (response : LlmResponse) : Decidable response.Answerable :=
  inferInstanceAs (Decidable (response.tool_calls = [] ∨
    ((response.tool_calls.map MiddlewareToolCall.id).Nodup ∧ response.finish_reason ≠ some .Stop ∧
      response.finish_reason ≠ some .Length ∧ response.finish_reason ≠ some .ContentFilter)))

instance (answer : Except String ExecutionState) (P : ExecutionState → Prop) [DecidablePred P] :
    Decidable (Answers answer P) :=
  match answer with
  | .ok state => inferInstanceAs (Decidable (P state))
  | .error _ => inferInstanceAs (Decidable True)

instance (cancelled : Bool) : DecidablePred (AnswerableState cancelled)
  | .AfterLlm response _ => inferInstanceAs (Decidable (cancelled = false → response.Answerable))
  | .ProcessingToolCalls _ _ _ => inferInstanceAs (Decidable (true = false))
  | .BeforeLlmCall _ | .CallLlm _ _ | .WaitingForEvent _ _ | .Complete | .Stopped _ _ _
  | .Cancelled => inferInstanceAs (Decidable (false = false))

instance (env : Env) (state : ExecutionState) : Decidable (MiddlewareKeepsCalls env state) :=
  match state with
  | .BeforeLlmCall context =>
      inferInstanceAs (Decidable (Answers (run_phase .StepStart env.drivers
        (.BeforeLlmCall context)) fun s => s.is_processing = false))
  | .AfterLlm response context =>
      inferInstanceAs (Decidable (Answers (run_phase .AfterLlm env.drivers
        (.AfterLlm response context)) (AnswerableState env.cancelled)))
  | .ProcessingToolCalls calls results context =>
      inferInstanceAs (Decidable (Answers (run_phase .ProcessingToolCalls env.drivers
        (.ProcessingToolCalls calls results context)) fun s => s.is_processing = true ∧
          s.pending_ids = (ExecutionState.ProcessingToolCalls calls results context).pending_ids))
  | .Complete =>
      inferInstanceAs (Decidable (Answers (run_phase .TurnEnd env.drivers .Complete)
        fun s => s.is_processing = false))
  | .CallLlm _ _ | .WaitingForEvent _ _ | .Stopped _ _ _ | .Cancelled =>
      inferInstanceAs (Decidable True)

instance (m : Machine) (env : Env) : Decidable (KeepsCalls m env) :=
  inferInstanceAs (Decidable (m.outcome = none →
    (m.state.is_processing = true → env.cancelled_at_top = false) ∧
      MiddlewareKeepsCalls env m.state))

/-! ## 2. The results of a call -/

/-- A tool future answers its own call. -/
theorem run_tool_call_id (env : Env) (call : MiddlewareToolCall) :
    (run_tool env call).call_id = call.id := by
  rw [run_tool]
  split <;> rfl

theorem map_run_tool_call_id (env : Env) (calls : List MiddlewareToolCall) :
    (calls.map (run_tool env)).map ToolResult.call_id = calls.map MiddlewareToolCall.id := by
  rw [List.map_map]
  exact List.map_congr_left fun call _ => run_tool_call_id env call

theorem record_tool_side_effects_call_id {env : Env} {result adjusted : ToolResult}
    {wait : Option WaitCondition}
    (h : record_tool_side_effects env result = .ok (adjusted, wait)) :
    adjusted.call_id = result.call_id := by
  rw [record_tool_side_effects] at h
  split at h
  · split at h
    · cases h
    · cases h
      rfl
    · cases h
      rfl
  · cases h
    rfl

/-- The side effects rewrite results but answer the same calls. -/
theorem record_all_side_effects_call_ids {env : Env} {results adjusted : List ToolResult}
    {waits : List WaitCondition} (h : record_all_side_effects env results = .ok (adjusted, waits)) :
    adjusted.map ToolResult.call_id = results.map ToolResult.call_id := by
  -- on the results; the first hook that fails ends the loop with an error
  induction results generalizing adjusted waits with
  | nil =>
      cases h
      rfl
  | cons result results ih =>
      rw [record_all_side_effects] at h
      rcases hone : record_tool_side_effects env result with e | ⟨first, wait⟩
      · rw [hone] at h
        cases h
      · rw [hone] at h
        dsimp only at h
        rcases hrest : record_all_side_effects env results with e | ⟨rest, waits'⟩
        · rw [hrest] at h
          cases h
        · rw [hrest] at h
          cases h
          rw [List.map_cons, List.map_cons, ih hrest, record_tool_side_effects_call_id hone]

/-! ## 3. The invariant -/

/-- The last stored message is an assistant message whose calls wait for results. -/
def OpenExchange (new : List AgentMessage) (ids : List String) : Prop :=
  ∃ done a, new = done ++ [a] ∧ Paired done ∧ a.role = .Assistant ∧ a.tool_result_ids = [] ∧
    a.has_compaction_request = false ∧ a.tool_use_ids = ids ∧ ids.Nodup

/-- The result message closes the exchange. -/
theorem OpenExchange.close {new : List AgentMessage} {ids : List String}
    (h : OpenExchange new ids) {r : AgentMessage} (hrole : r.role = .User)
    (huses : r.tool_use_ids = []) (hrequest : r.has_compaction_request = false)
    (hresults : r.tool_result_ids = ids) : Paired (new ++ [r]) := by
  -- the last stored message has the calls, the new one the results
  obtain ⟨done, a, rfl, hdone, harole, haresults, harequest, hauses, hnodup⟩ := h
  rw [List.append_assoc]
  refine hdone.append ?_
  refine @Paired.exchange a [r] [] harole haresults harequest ?_ ?_ ?_ Paired.nil
  · intro x hx
    rw [List.mem_singleton.1 hx]
    exact ⟨hrole, huses, hrequest⟩
  · rw [hauses]
    exact hnodup
  · rw [List.flatMap_cons, List.flatMap_nil, List.append_nil, hresults, hauses]

/-- What the messages stored by the run owe, by the state of the machine. A run that
fails owes nothing. -/
def Settled (m : Machine) (new : List AgentMessage) : Prop :=
  match m.outcome with
  | some (.error _) => True
  | some (.ok _) => Paired new
  | none => if m.state.is_processing then OpenExchange new m.state.pending_ids else Paired new

/-- The history is the one the run started from (up to pruning marks), and what the
run stored. -/
def Balanced (base : List AgentMessage) (m : Machine) : Prop :=
  ∃ base' new, m.history = base' ++ new ∧ base'.length = base.length ∧
    (Paired (get_history base) → Paired (get_history base')) ∧ Settled m new

theorem Settled.of_error {m : Machine} {error : String} (h : m.outcome = some (.error error))
    (new : List AgentMessage) : Settled m new := by
  rw [Settled, h]
  trivial

theorem Settled.of_paired {m : Machine} {new : List AgentMessage} (hnew : Paired new)
    (h : m.outcome = none → m.state.is_processing = false) : Settled m new := by
  rw [Settled]
  rcases hout : m.outcome with _ | (error | outcome)
  · dsimp only
    rw [h hout, if_neg (by decide)]
    exact hnew
  · trivial
  · exact hnew

theorem Settled.paired {m : Machine} {new : List AgentMessage} (h : Settled m new)
    (hout : m.outcome = none) (hstate : m.state.is_processing = false) : Paired new := by
  rw [Settled, hout] at h
  dsimp only at h
  rw [hstate, if_neg (by decide)] at h
  exact h

theorem Settled.open {m : Machine} {new : List AgentMessage} (h : Settled m new)
    (hout : m.outcome = none) (hstate : m.state.is_processing = true) :
    OpenExchange new m.state.pending_ids := by
  rw [Settled, hout] at h
  dsimp only at h
  rw [hstate, if_pos rfl] at h
  exact h

/-- The step of a machine that does not process calls: it stores messages without
traffic, and is not processing afterwards. -/
theorem Balanced.of_plain {base : List AgentMessage} {m m' : Machine} (h : Balanced base m)
    (hout : m.outcome = none) (hstate : m.state.is_processing = false)
    {l : List AgentMessage} (hhistory : m'.history = m.history ++ l)
    (hplain : ∀ x ∈ l, x.tool_use_ids = [] ∧ x.tool_result_ids = [])
    (hafter : m'.outcome = none → m'.state.is_processing = false) : Balanced base m' := by
  obtain ⟨base', new, heq, hlen, hbase, hsettled⟩ := h
  have hpaired : Paired (new ++ l) := by
    refine (hsettled.paired hout hstate).append ?_
    have := Paired.plain_append hplain Paired.nil
    rwa [List.append_nil] at this
  refine ⟨base', new ++ l, ?_, hlen, hbase, Settled.of_paired hpaired hafter⟩
  rw [hhistory, heq, List.append_assoc]

/-- A step that stores nothing. -/
theorem Balanced.of_silent {base : List AgentMessage} {m m' : Machine} (h : Balanced base m)
    (hout : m.outcome = none) (hstate : m.state.is_processing = false)
    (hhistory : m'.history = m.history)
    (hafter : m'.outcome = none → m'.state.is_processing = false) : Balanced base m' :=
  h.of_plain hout hstate (l := []) (by rw [hhistory, List.append_nil])
    (fun _ hx => by cases hx) hafter

/-- A step that fails, whatever it stored before. -/
theorem Balanced.of_error {base : List AgentMessage} {m m' : Machine} (h : Balanced base m)
    {l : List AgentMessage} (hhistory : m'.history = m.history ++ l) {error : String}
    (herror : m'.outcome = some (.error error)) : Balanced base m' := by
  obtain ⟨base', new, heq, hlen, hbase, -⟩ := h
  refine ⟨base', new ++ l, ?_, hlen, hbase, Settled.of_error herror _⟩
  rw [hhistory, heq, List.append_assoc]

/-! ## 4. One iteration -/

section

variable {base : List AgentMessage} {m : Machine} {cfg : Config} {env : Env}

theorem balanced_before_llm_call (h : Balanced base m) (hout : m.outcome = none)
    (hstate : m.state.is_processing = false) (context : ConversationContext) :
    Balanced base (transition_before_llm_call env m context) := by
  rw [transition_before_llm_call]
  split
  · exact h.of_silent hout hstate rfl fun _ => rfl
  · split
    · exact h.of_silent hout hstate rfl fun hnone => by cases hnone
    · exact h.of_silent hout hstate rfl fun _ => rfl

theorem balanced_call_llm (h : Balanced base m) (hout : m.outcome = none)
    (hstate : m.state.is_processing = false) (context : ConversationContext) :
    Balanced base (transition_call_llm env m context) := by
  rw [transition_call_llm]
  split
  · exact h.of_silent hout hstate rfl fun _ => rfl
  · dsimp only
    split
    · exact h.of_silent hout hstate rfl fun _ => rfl
    · exact h.of_silent hout hstate rfl fun hnone => by cases hnone
    · exact h.of_silent hout hstate rfl fun _ => rfl

/-- The pre-turn snapshot is a message without traffic, or nothing. -/
theorem ensure_pre_turn_snapshot_ready_spec (cfg : Config) (env : Env) (m : Machine) :
    ∃ more, (ensure_pre_turn_snapshot_ready cfg env m).history = m.history ++ more ∧
      (∀ x ∈ more, x.tool_use_ids = [] ∧ x.tool_result_ids = []) ∧
      (ensure_pre_turn_snapshot_ready cfg env m).outcome = m.outcome := by
  rw [ensure_pre_turn_snapshot_ready]
  split
  · refine ⟨_, rfl, ?_, rfl⟩
    intro x hx
    rw [List.mem_singleton.1 hx]
    exact ⟨rfl, rfl⟩
  · exact ⟨[], (List.append_nil _).symm, fun _ hx => (by cases hx), rfl⟩

/-- Where the machine goes after a response whose calls can be answered. -/
theorem state_after_llm_of_answerable {response : LlmResponse} (h : response.Answerable)
    (context : ConversationContext) :
    (response.tool_calls = [] ∧ (state_after_llm response context).is_processing = false) ∨
      ((response.tool_calls.map MiddlewareToolCall.id).Nodup ∧
        state_after_llm response context = .ProcessingToolCalls response.tool_calls [] context) := by
  by_cases hnil : response.tool_calls = []
  · left
    refine ⟨hnil, ?_⟩
    rw [state_after_llm, hnil]
    split <;> rfl
  · right
    obtain ⟨hnodup, hstop, hlength, hfilter⟩ := h.resolve_left hnil
    refine ⟨hnodup, ?_⟩
    have hempty : ¬ response.tool_calls.isEmpty = true := by
      rw [List.isEmpty_iff]
      exact hnil
    rw [state_after_llm]
    split
    · next hfinish => exact absurd hfinish hstop
    · next hfinish => exact absurd hfinish hlength
    · next hfinish => exact absurd hfinish hfilter
    all_goals rw [if_neg hempty]

theorem balanced_after_llm (h : Balanced base m) (hout : m.outcome = none)
    (hstate : m.state.is_processing = false) {response : LlmResponse}
    (hresponse : env.cancelled = false → response.Answerable) (context : ConversationContext) :
    Balanced base (transition_after_llm cfg env m response context) := by
  obtain ⟨more, hhistory, hplain, houtcome⟩ := ensure_pre_turn_snapshot_ready_spec cfg env m
  obtain ⟨huses, hresults, hrequest⟩ := assistant_message_traffic cfg env response context
  rw [transition_after_llm]
  by_cases hcancelled : env.cancelled = true
  · rw [if_pos hcancelled]
    exact h.of_silent hout hstate rfl fun _ => rfl
  · rw [if_neg hcancelled]
    have hanswerable := hresponse (by simpa using hcancelled)
    dsimp only
    split
    · exact h.of_error hhistory rfl
    · rcases state_after_llm_of_answerable hanswerable
        (context_after_llm cfg env response context) with ⟨hnil, hnext⟩ | ⟨hnodup, hnext⟩
      · -- no calls: one more message without traffic
        refine h.of_plain hout hstate
          (l := more ++ [assistant_message cfg env response context]) ?_ ?_ fun _ => hnext
        · change (ensure_pre_turn_snapshot_ready cfg env m).history ++ [_] = _
          rw [hhistory, List.append_assoc]
        · intro x hx
          rcases List.mem_append.1 hx with hx | hx
          · exact hplain x hx
          · rw [List.mem_singleton.1 hx, huses, hnil]
            exact ⟨rfl, hresults⟩
      · -- the calls are stored and wait for their results
        obtain ⟨base', new, heq, hlen, hbase, hsettled⟩ := h
        refine ⟨base', new ++ more ++ [assistant_message cfg env response context], ?_, hlen,
          hbase, ?_⟩
        · change (ensure_pre_turn_snapshot_ready cfg env m).history ++ [_] = _
          rw [hhistory, heq, List.append_assoc, List.append_assoc, List.append_assoc]
        · have hdone : Paired (new ++ more) := by
            refine (hsettled.paired hout hstate).append ?_
            have := Paired.plain_append hplain Paired.nil
            rwa [List.append_nil] at this
          have hopen : OpenExchange (new ++ more ++ [assistant_message cfg env response context])
              (response.tool_calls.map MiddlewareToolCall.id) :=
            ⟨new ++ more, _, rfl, hdone, rfl, hresults, hrequest, huses, hnodup⟩
          have hgoing : (ensure_pre_turn_snapshot_ready cfg env m).outcome = none := by
            rw [houtcome, hout]
          rw [Settled]
          change (match (ensure_pre_turn_snapshot_ready cfg env m).outcome with
            | some (.error _) => True
            | some (.ok _) => Paired _
            | none => if (state_after_llm response _).is_processing then OpenExchange _
                (state_after_llm response _).pending_ids else Paired _)
          rw [hgoing, hnext]
          exact hopen

/-- Storing the results of the pending calls closes the exchange. -/
theorem balanced_store_all_tool_results (h : Balanced base m) (hout : m.outcome = none)
    (hstate : m.state.is_processing = true) {results : List ToolResult}
    (hids : results.map ToolResult.call_id = m.state.pending_ids)
    (context : ConversationContext) (cancelled : Bool) :
    Balanced base (store_all_tool_results cfg env m results context cancelled) := by
  rw [store_all_tool_results]
  rcases hside : record_all_side_effects env results with error | ⟨adjusted, waits⟩
  · exact h.of_error (l := []) (List.append_nil _).symm rfl
  · dsimp only
    obtain ⟨huses, hresults, hrequest⟩ := result_message_traffic cfg env adjusted
    rw [record_all_side_effects_call_ids hside, hids] at hresults
    obtain ⟨base', new, heq, hlen, hbase, hsettled⟩ := h
    have hpaired : Paired (new ++ [result_message cfg env adjusted]) :=
      (hsettled.open hout hstate).close rfl huses hrequest hresults
    have hhistory : m.history ++ [result_message cfg env adjusted] =
        base' ++ (new ++ [result_message cfg env adjusted]) := by
      rw [heq, List.append_assoc]
    split
    · exact ⟨base', _, hhistory, hlen, hbase, Settled.of_paired hpaired fun _ => rfl⟩
    · split
      · exact ⟨base', _, hhistory, hlen, hbase, Settled.of_paired hpaired fun _ => rfl⟩
      · exact ⟨base', _, hhistory, hlen, hbase, Settled.of_paired hpaired fun _ => rfl⟩

theorem balanced_processing_tool_calls (h : Balanced base m) (hout : m.outcome = none)
    (hstate : m.state.is_processing = true) {remaining_calls : List MiddlewareToolCall}
    {results : List ToolResult} (context : ConversationContext)
    (hids : results.map ToolResult.call_id ++ remaining_calls.map MiddlewareToolCall.id =
      m.state.pending_ids) :
    Balanced base (transition_processing_tool_calls cfg env m remaining_calls results context) := by
  rw [transition_processing_tool_calls]
  split
  · next hempty =>
      rw [List.isEmpty_iff] at hempty
      rw [hempty, List.map_nil, List.append_nil] at hids
      exact balanced_store_all_tool_results h hout hstate hids context _
  · refine balanced_store_all_tool_results h hout hstate ?_ context _
    rw [List.map_append, map_run_tool_call_id]
    exact hids

theorem balanced_waiting_for_event (h : Balanced base m) (hout : m.outcome = none)
    (hstate : m.state.is_processing = false) (context : ConversationContext) :
    Balanced base (transition_waiting_for_event cfg env m context) := by
  rw [transition_waiting_for_event]
  split
  · exact h.of_silent hout hstate rfl fun _ => rfl
  · split
    · exact h.of_silent hout hstate rfl fun _ => rfl
    · exact h.of_silent hout hstate rfl fun _ => rfl
    · exact h.of_silent hout hstate rfl fun _ => rfl
    · refine h.of_plain hout hstate rfl ?_ fun _ => rfl
      intro x hx
      rw [List.mem_singleton.1 hx]
      exact ⟨rfl, rfl⟩

theorem Paired.pruned {h : List AgentMessage} (hh : Paired h) (call_ids : List String) (now : ℤ) :
    Paired (h.map fun x => { x with parts := x.parts.map (mark_compacted call_ids now) }) := by
  induction hh with
  | nil => exact Paired.nil
  | @plain x h huses hresults _ ih =>
      obtain ⟨hu, hr, -⟩ := pruned_traffic call_ids now x
      exact Paired.plain (hu.trans huses) (hr.trans hresults) ih
  | @exchange a rs h hrole hresults hreq hrs hnodup hperm _ ih =>
      obtain ⟨hu, hr, hq, -⟩ := pruned_traffic call_ids now a
      rw [List.map_cons, List.map_append]
      refine Paired.exchange hrole (hr.trans hresults) (hq.trans hreq) ?_ ?_ ?_ ih
      · intro r hmem
        obtain ⟨x, hx, rfl⟩ := List.mem_map.1 hmem
        obtain ⟨hu', -, hq', -⟩ := pruned_traffic call_ids now x
        exact ⟨(hrs x hx).1, hu'.trans (hrs x hx).2.1, hq'.trans (hrs x hx).2.2⟩
      · rw [hu]
        exact hnodup
      · rw [List.flatMap_map, hu]
        have hsame : ∀ x ∈ rs, AgentMessage.tool_result_ids
            { x with parts := x.parts.map (mark_compacted call_ids now) } = x.tool_result_ids :=
          fun x _ => (pruned_traffic call_ids now x).2.1
        rw [List.flatMap_congr hsame]
        exact hperm

theorem balanced_complete_turn (h : Balanced base m) (hout : m.outcome = none)
    (hstate : m.state.is_processing = false) : Balanced base (complete_turn cfg env m) := by
  rw [complete_turn]
  split
  · exact h.of_silent hout hstate rfl fun hnone => by cases hnone
  · split
    · exact h.of_silent hout hstate rfl fun _ => rfl
    · split
      · -- pruning rewrites the whole history, also the part from before the run
        obtain ⟨base', new, heq, hlen, hbase, hsettled⟩ := h
        refine ⟨base'.map fun x => { x with parts := x.parts.map (mark_compacted env.pruned
          env.now) }, _, ?_, ?_, ?_, Settled.of_paired ((hsettled.paired hout hstate).pruned
          env.pruned env.now) fun hnone => by cases hnone⟩
        · change m.history.map _ = _
          rw [heq, List.map_append]
        · rw [List.length_map, hlen]
        · intro hb
          rw [get_history_map (f := fun x =>
            { x with parts := x.parts.map (mark_compacted env.pruned env.now) }) fun _ => rfl]
          exact (hbase hb).pruned env.pruned env.now
      · exact h.of_silent hout hstate rfl fun hnone => by cases hnone

theorem compaction_messages_plain (cfg : Config) (env : Env) (summary : String) (count : ℕ) :
    ∀ x ∈ [(create_compaction_messages cfg env summary count).1,
      (create_compaction_messages cfg env summary count).2],
      x.tool_use_ids = [] ∧ x.tool_result_ids = [] := by
  intro x hx
  rcases List.mem_cons.1 hx with rfl | hx
  · exact ⟨rfl, rfl⟩
  · rw [List.mem_singleton.1 hx]
    exact ⟨rfl, rfl⟩

/-- `run_ai_compaction` stores messages without traffic, and its state processes no
calls. -/
theorem run_ai_compaction_spec (cfg : Config) (env : Env) (m : Machine) :
    ∃ more, (run_ai_compaction cfg env m).1.history = m.history ++ more ∧
      (∀ x ∈ more, x.tool_use_ids = [] ∧ x.tool_result_ids = []) ∧
      (run_ai_compaction cfg env m).1.outcome = m.outcome ∧
      ∀ s, (run_ai_compaction cfg env m).2 = .ok s → s.is_processing = false := by
  rw [run_ai_compaction]
  split
  · exact ⟨[], (List.append_nil _).symm, fun _ hx => (by cases hx), rfl, fun s hs => by cases hs⟩
  · refine ⟨[], (List.append_nil _).symm, fun _ hx => (by cases hx), rfl, ?_⟩
    intro s hs
    cases hs
    rfl
  · next summary contexts count reloaded _ =>
      dsimp only
      refine ⟨_, ?_, compaction_messages_plain cfg env (with_contexts summary contexts) count,
        ?_, ?_⟩
      · split <;> exact List.append_assoc _ _ _
      · split <;> rfl
      · intro s hs
        split at hs
        · cases hs
        · cases hs
        · cases hs
          rfl

theorem balanced_stop_turn (h : Balanced base m) (hout : m.outcome = none)
    (hstate : m.state.is_processing = false) (message : String) (stop_type : StopType)
    (context : Option ConversationContext) :
    Balanced base (stop_turn cfg env m message stop_type context) := by
  obtain ⟨more, hhistory, hplain, houtcome, hnext⟩ := run_ai_compaction_spec cfg env m
  rw [stop_turn]
  dsimp only
  split
  · split
    · next m1 new_state heq =>
        rw [heq] at hhistory hnext houtcome
        exact h.of_plain hout hstate hhistory hplain fun _ => hnext new_state rfl
    · next m1 error heq =>
        rw [heq] at hhistory
        exact h.of_plain hout hstate hhistory hplain fun hnone => by cases hnone
  · exact h.of_silent hout hstate rfl fun hnone => by cases hnone

/-- A middleware phase fails, or goes on from the state it answers. -/
theorem balanced_with_middleware (h : Balanced base m) {phase : MiddlewarePhase}
    {continuation : ExecutionState → Machine}
    (hnext : ∀ s, run_phase phase env.drivers m.state = .ok s → Balanced base (continuation s)) :
    Balanced base (with_middleware env m phase continuation) := by
  rw [with_middleware]
  split
  · exact h.of_error (l := []) (List.append_nil _).symm rfl
  · next s hrun => exact hnext s hrun

/-- **One iteration under the condition keeps the invariant.** -/
theorem balanced_iterate (h : Balanced base m) (hC : KeepsCalls m env) :
    Balanced base (iterate cfg m env) := by
  rw [iterate]
  by_cases hover : m.outcome.isSome = true
  · rw [if_pos hover]
    exact h
  · rw [if_neg hover]
    have hout : m.outcome = none := by
      rw [← Option.not_isSome_iff_eq_none]
      exact hover
    obtain ⟨htop, hphase⟩ := hC hout
    by_cases hcancelled : env.cancelled_at_top = true
    · -- the loop returns here: no call may be pending
      rw [if_pos hcancelled]
      have hstate : m.state.is_processing = false := by
        by_contra hne
        rw [htop (by simpa using hne)] at hcancelled
        cases hcancelled
      exact h.of_silent hout hstate rfl fun hnone => by cases hnone
    · rw [if_neg hcancelled]
      -- the exchange is open in `ProcessingToolCalls` and nowhere else
      rcases hs : m.state with context | ⟨context, tools⟩ | ⟨response, context⟩ |
        ⟨remaining_calls, results, context⟩ | ⟨context, wait⟩ | _ | ⟨message, stop_type, context⟩ | _
      · have hstate : m.state.is_processing = false := by rw [hs]; rfl
        rw [hs] at hphase
        refine balanced_with_middleware h fun s hrun => ?_
        have hs' : s.is_processing = false := Answers.of_ok hphase (by rw [← hs]; exact hrun)
        split
        · exact balanced_before_llm_call h hout hstate _
        · exact h.of_silent hout hstate rfl fun _ => hs'
      · exact balanced_call_llm h hout (by rw [hs]; rfl) context
      · have hstate : m.state.is_processing = false := by rw [hs]; rfl
        rw [hs] at hphase
        refine balanced_with_middleware h fun s hrun => ?_
        have hs' : AnswerableState env.cancelled s := Answers.of_ok hphase (by rw [← hs]; exact hrun)
        split
        · exact balanced_after_llm h hout hstate hs' _
        · refine h.of_silent hout hstate rfl fun _ => ?_
          change s.is_processing = false
          rcases s with _ | _ | _ | _ | _ | _ | _ | _ <;> first | exact hs' | rfl
      · have hstate : m.state.is_processing = true := by rw [hs]; rfl
        rw [hs] at hphase
        refine balanced_with_middleware h fun s hrun => ?_
        obtain ⟨hs', hids⟩ := Answers.of_ok hphase (by rw [← hs]; exact hrun)
        split
        · exact balanced_processing_tool_calls h hout hstate _ (by rw [hs]; exact hids)
        · -- the calls are still pending, so this is not another state
          next hother =>
            rcases s with _ | _ | _ | ⟨calls, results', context'⟩ | _ | _ | _ | _ <;>
              first
              | exact absurd rfl (hother calls results' context')
              | cases hs'
      · exact balanced_waiting_for_event h hout (by rw [hs]; rfl) context
      · have hstate : m.state.is_processing = false := by rw [hs]; rfl
        rw [hs] at hphase
        refine balanced_with_middleware h fun s hrun => ?_
        have hs' : s.is_processing = false := Answers.of_ok hphase (by rw [← hs]; exact hrun)
        split
        · exact balanced_complete_turn h hout hstate
        · exact h.of_silent hout hstate rfl fun _ => hs'
      · exact balanced_stop_turn h hout (by rw [hs]; rfl) message stop_type context
      · exact h.of_silent hout (by rw [hs]; rfl) rfl fun hnone => by cases hnone

end

/-! ## 5. Every run -/

theorem start_history (cfg : Config) (base : List AgentMessage)
    (snapshot : Option (String × Option String)) (drivers : List MiddlewareDriver) :
    (start cfg base snapshot drivers).history = base := by
  rw [start]
  dsimp only
  split
  · rfl
  · split <;> rfl

theorem balanced_start (cfg : Config) (base : List AgentMessage)
    (snapshot : Option (String × Option String)) (drivers : List MiddlewareDriver)
    (h : (start cfg base snapshot drivers).state.is_processing = false) :
    Balanced base (start cfg base snapshot drivers) := by
  refine ⟨base, [], ?_, rfl, id, Settled.of_paired Paired.nil fun _ => h⟩
  rw [start_history, List.append_nil]

theorem chronological_start (cfg : Config) (base : List AgentMessage)
    (snapshot : Option (String × Option String)) (drivers : List MiddlewareDriver) :
    Chronological base (start cfg base snapshot drivers) := by
  refine ⟨[], ?_, fun _ _ _ ht => (by cases ht), List.Pairwise.nil⟩
  rw [start_history, List.append_nil]

/-- What the model is shown of a paired history has its calls answered. -/
theorem answered_reload_history (next : Config) {history : List AgentMessage}
    (h : Paired (get_history history)) :
    Answered ((reload_history next history).map ChatMessage.traffic) := by
  rw [reload_history]
  split
  · -- the conversion for the provider changes texts, not who calls and who answers
    have hsame : (ChatMessage.traffic ∘ fun message : AgentMessage =>
        message.to_chat_message_with_target (next.llm_config.map Prod.fst)
          (next.llm_config.map Prod.snd) next.max_prompt_bytes) = AgentMessage.traffic := by
      funext message
      exact traffic_to_chat_message message _ _ _
    rw [List.map_map, hsame]
    exact h.effective_history.answered
  · trivial

/-- **Tool calls are answered.** In every run of the state machine that meets the
condition and returns `Ok` (completed, cancelled or stopped), every tool call of
every assistant message it stored is answered exactly once before the next assistant
message; and when the clock does not step back during the run, the history reloaded for
the next turn has all its calls answered if the history before the run was paired. -/
theorem tool_calls_answered (cfg : Config) (base : List AgentMessage)
    (snapshot : Option (String × Option String)) (drivers : List MiddlewareDriver)
    (envs : List Env)
    (hstart : (start cfg base snapshot drivers).state.is_processing = false)
    (hkeeps : Along (iterate cfg) KeepsCalls (start cfg base snapshot drivers) envs)
    (outcome : CycleOutcome)
    (hok : (run (iterate cfg) (start cfg base snapshot drivers) envs).outcome =
      some (.ok outcome)) :
    Answered (((run (iterate cfg) (start cfg base snapshot drivers) envs).history.drop
      base.length).map AgentMessage.traffic) ∧
    (Along (iterate cfg) KeepsTime (start cfg base snapshot drivers) envs →
      Paired (get_history base) → ∀ next : Config, Answered ((reload_history next
        (run (iterate cfg) (start cfg base snapshot drivers) envs).history).map
          ChatMessage.traffic)) := by
  obtain ⟨base', new, heq, hlen, hbase, hsettled⟩ :=
    run_invariant hkeeps (fun m env h hC => balanced_iterate h hC)
      (balanced_start cfg base snapshot drivers hstart)
  -- a run that returns `Ok` has no exchange open
  rw [Settled, hok] at hsettled
  have hnew : Paired new := hsettled
  constructor
  · rw [heq, ← hlen, List.drop_left]
    exact hnew.answered
  · intro htime hb next
    have hchronological := run_invariant htime (fun m env h hC => h.step hC)
      (chronological_start cfg base snapshot drivers)
    refine answered_reload_history next ?_
    rw [heq, get_history_of_chronological hchronological heq hlen]
    exact (hbase hb).append hnew

/-- A session without middleware. -/
def plain_config : Config where
  session_id := "session"
  llm_config := some ("provider", "model")
  get_history := .ok ()
  max_prompt_bytes := none
  session_mode := .Build
  compaction_auto := false
  pruning_enabled := false

/-- An iteration in which nothing is cancelled and every tool returns. -/
def quiet_env (llm : LlmOutcome) : Env where
  cancelled_at_top := false
  cancelled := false
  cancelled_after_tools := false
  drivers := []
  tools := .ok ["shell"]
  llm := llm
  llm_requests := 1
  record_progress := .ok ()
  tool := fun call => .Returned [.Text "done"] false call.function.arguments none
  delegation := fun _ => .Requested none none
  wait := .Unchanged
  stop_hook := .ok ⟨false, none, none, []⟩
  pruned := []
  compaction := .Failed "not run"
  summary_requests := 0
  uuid := fun _ => "message"
  now := 0

/-- A response that calls one tool. -/
def calls_shell : LlmResponse where
  content := ""
  thinking := none
  thinking_signature := none
  tool_calls := [⟨"call-1", ⟨"shell", "ls"⟩⟩]
  usage := none
  finish_reason := some .ToolCalls
  message_id := none

/-- A response that ends the turn. -/
def ends_turn : LlmResponse :=
  { calls_shell with content := "done", tool_calls := [], finish_reason := some .Stop }

/-- The turn is cancelled after the response was stored and before its tool runs. -/
def cut_off : List Env :=
  [quiet_env .Cancelled, quiet_env (.Response calls_shell), quiet_env .Cancelled,
   { quiet_env .Cancelled with cancelled_at_top := true }]

/-- The call stays in the history without a result. -/
theorem cancellation_cuts_off_tool_call :
    (run (iterate plain_config) (start plain_config [] none []) cut_off).outcome =
        some (.ok .Cancelled) ∧
      ¬ Answered ((run (iterate plain_config) (start plain_config [] none []) cut_off).history.map
        AgentMessage.traffic) :=
  ⟨rfl, by decide⟩

/-- A turn with one tool call, to its end. -/
def tool_turn : List Env :=
  [quiet_env .Cancelled, quiet_env (.Response calls_shell), quiet_env .Cancelled,
   quiet_env .Cancelled, quiet_env .Cancelled, quiet_env (.Response ends_turn),
   quiet_env .Cancelled, quiet_env .Cancelled]

theorem tool_turn_answered :
    (run (iterate plain_config) (start plain_config [] none []) tool_turn).outcome =
        some (.ok .Completed) ∧
      Answered (((run (iterate plain_config) (start plain_config [] none []) tool_turn).history.drop
        ([] : List AgentMessage).length).map AgentMessage.traffic) ∧
      Answered ((reload_history plain_config (run (iterate plain_config)
        (start plain_config [] none []) tool_turn).history).map ChatMessage.traffic) := by
  obtain ⟨hstored, hreloaded⟩ :=
    tool_calls_answered plain_config [] none [] tool_turn rfl (by decide) .Completed rfl
  exact ⟨rfl, hstored, hreloaded (by decide) Paired.nil plain_config⟩

end Querymt.Agent
