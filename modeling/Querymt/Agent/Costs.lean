/-
`Agent/Costs.lean` -- what the cumulative cost of a turn is computed from.

The totals are computed twice: by `transition_call_llm` for the event of a response, from
the statistics before it, and by `transition_after_llm`, which counts the response, with
`AgentStats::update_costs`, which bills output and reasoning tokens together. The first
adds the reasoning tokens of the response twice and leaves out those of the requests before
it, so both agree only while nothing was reasoned (`costs_agree_iff`).

Prices are floating point and not modelled; the totals are what they are applied to. Totals
are `u64` and never near its bound; the sum of `calculate_context_tokens` is taken in `u32`.
-/
import Querymt.Agent.Moves

set_option autoImplicit false

open Runs

namespace Querymt.Agent

/-! ## 1. Totals -/

/-- The totals that `update_costs` bills: input, and output with reasoning. -/
def AgentStats.billed (s : AgentStats) : ℕ × ℕ :=
  (s.total_input_tokens, s.total_output_tokens + s.reasoning_tokens)

/-- The exact sum of `calculate_context_tokens`. -/
def Usage.total (u : Usage) : ℕ :=
  u.input_tokens + u.output_tokens + u.reasoning_tokens + u.cache_read + u.cache_write

/-- The usage a model call reported. -/
def TrailEntry.usage : TrailEntry → Option Usage
  | .Called _ (.Response response) => response.usage
  | _ => none

/-- The usages of the requests so far. -/
def usages (trail : List TrailEntry) : List Usage := trail.filterMap TrailEntry.usage

/-- What the requests used: every request once, and every token once. -/
def used (us : List Usage) : ℕ × ℕ :=
  ((us.map Usage.input_tokens).sum, (us.map fun u => u.output_tokens + u.reasoning_tokens).sum)

def reasoned (us : List Usage) : ℕ := (us.map Usage.reasoning_tokens).sum

/-! ## 2. The law and the condition -/

/-- The iteration that gets a response with this usage. -/
structure CallReports (m : Machine) (env : Env) (context : ConversationContext)
    (response : LlmResponse) (u : Usage) : Prop where
  running : m.outcome = none
  state : ∃ tools, m.state = .CallLlm context tools
  live : env.cancelled_at_top = false ∧ env.cancelled = false
  llm : env.llm = .Response response
  usage : response.usage = some u

/-- **The cost accounting agrees with itself**: the totals of the event are those of the
statistics that count the response, and those of all requests so far, and no sum overflows. -/
def CallAgrees (cfg : Config) (m : Machine) (env : Env) : Prop :=
  ∀ context response u, CallReports m env context response u →
    ∃ events tool_calls finish_reason input output context_tokens steps turns,
      (iterate cfg m env).events = events ++ [.LlmRequestEnd (some u) tool_calls finish_reason
        input output context_tokens steps turns] ∧
      (input, output) = (updated_stats context.stats (some u)).billed ∧
      (input, output) = used (usages (iterate cfg m env).trail) ∧
      u.total < 2 ^ 32

/-- The statistics that a state carries on; those of a response count it already. -/
def ExecutionState.accounts : ExecutionState → Option AgentStats
  | .BeforeLlmCall context | .CallLlm context _ | .ProcessingToolCalls _ _ context
  | .WaitingForEvent context _ => some context.stats
  | .AfterLlm response context => some (updated_stats context.stats response.usage)
  | .Stopped _ .ContextThreshold (some context) => some context.stats
  | .Stopped _ _ _ | .Complete | .Cancelled => none

/-- The totals of the statistics, reasoning apart. -/
def AgentStats.counted (s : AgentStats) : ℕ × ℕ × ℕ :=
  (s.total_input_tokens, s.total_output_tokens, s.reasoning_tokens)

/-- What is carried on was carried before. -/
def CarriesAccounts (s s' : ExecutionState) : Prop :=
  ∀ a' ∈ s'.accounts, ∃ a ∈ s.accounts, a'.counted = a.counted

/-- **The condition on an iteration**: its middleware keeps the statistics, and counts a
response it takes away; and the stop hook does not go back to those of the start. -/
def KeepsAccounts (m : Machine) (env : Env) : Prop :=
  (∀ phase, m.state.phase = some phase →
    Answers (run_phase phase env.drivers m.state) (CarriesAccounts m.state)) ∧
  (m.state = .Complete → ¬ ContinuesTurn m env)

/-! ## 3. What an iteration carries on -/

theorem usages_append (trail entries : List TrailEntry) :
    usages (trail ++ entries) = usages trail ++ usages entries := List.filterMap_append

/-- The three totals of the requests. -/
def summed (us : List Usage) : ℕ × ℕ × ℕ :=
  ((us.map Usage.input_tokens).sum, (us.map Usage.output_tokens).sum, reasoned us)

/-- **The invariant**: the statistics that are carried on count every request. -/
def Accounted (m : Machine) : Prop :=
  m.outcome = none → ∀ a ∈ m.state.accounts, a.counted = summed (usages m.trail)

section

variable {cfg : Config} {m : Machine} {env : Env}

theorem counted_updated_stats {a : AgentStats} {us : List Usage} (h : a.counted = summed us)
    (usage : Option Usage) :
    (updated_stats a usage).counted = summed (us ++ usage.toList) := by
  rcases usage with _ | u
  · rw [Option.toList_none, List.append_nil]
    exact h
  · rw [AgentStats.counted, summed, Prod.mk.injEq, Prod.mk.injEq, reasoned] at h
    obtain ⟨hinput, houtput, hreasoning⟩ := h
    rw [Option.toList_some, summed, reasoned, List.map_append, List.map_append, List.map_append,
      List.sum_append, List.sum_append, List.sum_append, ← hinput, ← houtput, ← hreasoning]
    rfl

/-- A compaction keeps all totals but that of the context. -/
theorem counted_of_compacted (hout : m.outcome = none) {message : String} {stop_type : StopType}
    {context : ConversationContext} (hstate : m.state = .Stopped message stop_type (some context))
    {next : ConversationContext} (hnext : (iterate cfg m env).state = .BeforeLlmCall next) :
    next.stats.counted = context.stats.counted := by
  have hcontext : m.state.context = some context := by
    rw [hstate]
    rfl
  have hstays : ∀ {m' : Machine}, m'.state = m.state → m'.state ≠ .BeforeLlmCall next := by
    intro m' heq hbefore
    rw [heq, hstate] at hbefore
    cases hbefore
  rw [iterate, if_neg (by rw [hout]; exact Bool.false_ne_true)] at hnext
  split at hnext
  · exact absurd hnext (hstays rfl)
  · rw [hstate] at hnext
    dsimp only at hnext
    rw [stop_turn] at hnext
    dsimp only at hnext
    split at hnext
    · rw [run_ai_compaction] at hnext
      rcases hcompaction : env.compaction with error | ⟨reason, contexts⟩ |
        ⟨summary, contexts, count, reloaded⟩ <;> rw [hcompaction] at hnext
      · exact absurd hnext (hstays rfl)
      · cases hnext
      · rcases reloaded with error | tokens
        · exact absurd hnext (hstays rfl)
        · rw [hcontext] at hnext
          cases hnext
          rfl
    · exact absurd hnext (hstays rfl)

/-- What a machine has counted after an iteration, from the state it leaves. -/
theorem Accounted.of_moved {entries : List TrailEntry} {next : Option ExecutionState}
    (hmoved : Moved cfg env m (iterate cfg m env) entries next)
    (hnext : ∀ s ∈ next, ∀ a ∈ s.accounts,
      a.counted = summed (usages m.trail ++ usages entries)) :
    Accounted (iterate cfg m env) := by
  intro hout a ha
  have hsome := hmoved.outcome
  rw [hout] at hsome
  rcases next with _ | s
  · cases hsome
  · rw [hmoved.state s rfl] at ha
    rw [hmoved.trail, usages_append]
    exact hnext s rfl a ha

/-- **One iteration keeps the accounts.** -/
theorem Accounted.step (h : Accounted m) (hkeeps : KeepsAccounts m env) :
    Accounted (iterate cfg m env) := by
  by_cases hover : m.outcome.isSome = true
  · rw [iterate_of_over hover]
    exact h
  have hout : m.outcome = none := Option.not_isSome_iff_eq_none.1 hover
  obtain ⟨entries, next, hmoved⟩ := @iterate_moves cfg env m hout
  have hnil : usages m.trail ++ usages [] = usages m.trail := List.append_nil _
  -- what a phase answers carries the statistics of the state before it
  have hphases : ∀ phase s, m.state.phase = some phase →
      run_phase phase env.drivers m.state = .ok s →
      ∀ a ∈ s.accounts, a.counted = summed (usages m.trail) := by
    intro phase s hphase hrun a ha
    obtain ⟨before, hbefore, heq⟩ := Answers.of_ok (hkeeps.1 phase hphase) hrun a ha
    rw [heq]
    exact h hout before hbefore
  refine .of_moved hmoved ?_
  have hmoves := hmoved.moves
  have hstate' := hmoved.state
  cases hmoves with
  | ended => exact fun s hs => by cases hs
  | cancelled =>
      intro s hs a ha
      cases hs
      cases ha
  | passed hphase hrun _ =>
      intro s hs a ha
      cases hs
      rw [hnil]
      exact hphases _ _ hphase hrun a ha
  | asks hstate hrun =>
      intro s hs a ha
      cases hs
      rw [hnil]
      exact hphases _ _ (by rw [hstate]; rfl) hrun a ha
  -- the response is counted as soon as it is there
  | @called context tools response hstate hllm _ =>
      intro s hs a ha
      cases hs
      cases ha
      have hentry : usages [.Called context env.llm] = response.usage.toList := by
        rw [hllm]
        rcases husage : response.usage with _ | u <;>
          simp [usages, TrailEntry.usage, husage]
      rw [hentry]
      exact counted_updated_stats (h hout context.stats (by rw [hstate]; rfl)) _
  | call_failed hstate hnext _ =>
      intro s hs a ha
      rcases hnext with rfl | rfl
      · cases hs
      · cases hs
        cases ha
  | @answered first response before context hstate hrun =>
      intro s hs a ha
      cases hs
      rw [hnil]
      have hcounted := hphases _ _ (by rw [hstate]; rfl) hrun _ rfl
      rcases state_after_llm_context response (context_after_llm cfg env response context) with
        hc | ⟨message, stop_type, hc⟩ | ⟨-, hc⟩ <;> rw [hc] at ha
      · cases ha
      · cases stop_type <;> first | (cases ha; exact hcounted) | cases ha
      · cases ha
        exact hcounted
  | @stored calls results context next s hstate hrun hstats hs =>
      intro s' hs' a ha
      cases hs'
      rw [hnil]
      have hphase : m.state.phase = some .ProcessingToolCalls := by
        rcases hm : m.state with _ | _ | _ | _ | _ | _ | _ | _ <;> rw [hm] at hstate <;>
          first | rfl | cases hstate
      have hcounted := hphases _ _ hphase hrun _ rfl
      rw [← hstats] at hcounted
      rcases hs with rfl | ⟨wait, rfl⟩
      · cases ha
        exact hcounted
      · cases ha
        exact hcounted
  | @resumed context next wait hstate hstats =>
      intro s hs a ha
      cases hs
      cases ha
      rw [hnil, hstats]
      exact h hout _ (by rw [hstate]; rfl)
  | closed _ =>
      intro s hs a ha
      cases hs
      cases ha
  -- the statistics of the start would count nothing
  | continued hstate hhook _ => exact absurd hhook (hkeeps.2 hstate)
  | @blocked message text context reason contexts hstate _ _ =>
      intro s hs a ha
      cases hs
      rw [hnil]
      refine h hout a ?_
      rw [hstate]
      rcases context with _ | context
      · cases ha
      · exact ha
  | @compacted message context next hstate _ _ =>
      intro s hs a ha
      cases hs
      cases ha
      rw [counted_of_compacted hout hstate (hstate' _ rfl)]
      rw [h hout context.stats (by rw [hstate]; rfl), show usages [.Compacted] = [] from rfl,
        List.append_nil]
  | compaction_lost _ _ => exact fun s hs => by cases hs

/-! ## 4. One call -/

/-- **What a reported call emits**, and what it adds to the trail. -/
theorem CallReports.iterate {context : ConversationContext} {response : LlmResponse} {u : Usage}
    (h : CallReports m env context response u) :
    (∃ events tool_calls finish_reason context_tokens steps turns,
      (iterate cfg m env).events = events ++ [.LlmRequestEnd (some u) tool_calls finish_reason
        (context.stats.total_input_tokens + u.input_tokens)
        (context.stats.total_output_tokens + u.reasoning_tokens +
          (u.output_tokens + u.reasoning_tokens)) context_tokens steps turns]) ∧
      usages (iterate cfg m env).trail = usages m.trail ++ [u] := by
  obtain ⟨hout, ⟨tools, hstate⟩, ⟨htop, hlive⟩, hllm, husage⟩ := h
  have hcall : Agent.iterate cfg m env = transition_call_llm env m context := by
    rw [Agent.iterate, hout, htop, hstate]
    rfl
  rw [hcall, transition_call_llm, hlive, if_neg Bool.false_ne_true, hllm]
  dsimp only
  rw [husage]
  refine ⟨⟨_, _, _, _, _, _, rfl⟩, ?_⟩
  change usages (m.trail ++ [.Called context (.Response response)]) = _
  rw [usages_append]
  congr 1
  rw [usages, List.filterMap_cons, TrailEntry.usage, husage]
  rfl

/-- Every usage in the trail was reported by a call. -/
theorem mem_usages_iterate {u : Usage} (h : u ∈ usages (iterate cfg m env).trail) :
    u ∈ usages m.trail ∨ ∃ context response, CallReports m env context response u := by
  by_cases hover : m.outcome.isSome = true
  · rw [iterate_of_over hover] at h
    exact .inl h
  have hout : m.outcome = none := Option.not_isSome_iff_eq_none.1 hover
  obtain ⟨entries, next, hmoved⟩ := @iterate_moves cfg env m hout
  rw [hmoved.trail, usages_append] at h
  rcases List.mem_append.1 h with hold | hnew
  · exact .inl hold
  · -- only the entry of a call has a usage
    have hcalled : ∀ context tools, m.state = .CallLlm context tools →
        env.cancelled_at_top = false ∧ env.cancelled = false →
        u ∈ usages [.Called context env.llm] →
        ∃ context response, CallReports m env context response u := by
      intro context tools hstate hlive hmem
      rcases hllm : env.llm with _ | error | response <;> rw [hllm] at hmem
      · cases hmem
      · cases hmem
      · refine ⟨context, response, hout, ⟨tools, hstate⟩, hlive, hllm, ?_⟩
        obtain ⟨entry, hentry, husage⟩ := List.mem_filterMap.1 hmem
        rw [List.mem_singleton.1 hentry] at husage
        exact husage
    right
    have hmoves := hmoved.moves
    cases hmoves with
    | called hstate _ hlive => exact hcalled _ _ hstate hlive hnew
    | call_failed hstate _ hlive => exact hcalled _ _ hstate hlive hnew
    | _ => cases hnew

/-- Statistics that count the requests bill what they used. -/
theorem billed_of_counted {stats : AgentStats} {us : List Usage} (h : stats.counted = summed us) :
    stats.billed = used us := by
  rw [AgentStats.counted, summed, Prod.mk.injEq, Prod.mk.injEq] at h
  obtain ⟨hinput, houtput, hreasoning⟩ := h
  rw [AgentStats.billed, used, List.sum_map_add, hinput, houtput, hreasoning, reasoned]

/-- What a call has to meet: nothing was reasoned that the event would miscount. -/
def CallPlain (m : Machine) (env : Env) : Prop :=
  ∀ context response u, CallReports m env context response u →
    reasoned (usages m.trail) = u.reasoning_tokens ∧ u.total < 2 ^ 32

/-- **A call agrees exactly when the earlier requests reasoned as much as it does.** -/
theorem callAgrees_iff (hm : Accounted m) : CallAgrees cfg m env ↔ CallPlain m env := by
  refine forall_congr' fun context => forall_congr' fun response => forall_congr' fun u =>
    forall_congr' fun hreports => ?_
  obtain ⟨⟨events, tool_calls, finish_reason, context_tokens, steps, turns, hevents⟩, husages⟩ :=
    @CallReports.iterate cfg m env context response u hreports
  obtain ⟨tools, hstate⟩ := hreports.state
  have hcounted := hm hreports.running context.stats (by rw [hstate]; rfl)
  have hbilled := billed_of_counted (counted_updated_stats hcounted (some u))
  rw [Option.toList_some, ← husages] at hbilled
  have hreasoned : context.stats.reasoning_tokens = reasoned (usages m.trail) :=
    (Prod.mk.inj (Prod.mk.inj hcounted).2).2
  rw [← hreasoned, ← hbilled, hevents]
  constructor
  · rintro ⟨events', _, _, input, output, _, _, _, heq, hsame, -, htotal⟩
    have hevent := List.singleton_inj.1 (List.append_inj_right' heq rfl)
    injection hevent with _ _ _ hinput houtput
    have houtput' : output = context.stats.total_output_tokens + u.output_tokens +
        (context.stats.reasoning_tokens + u.reasoning_tokens) := (Prod.mk.inj hsame).2
    exact ⟨by omega, htotal⟩
  · rintro ⟨hequal, htotal⟩
    have hsame : (context.stats.total_input_tokens + u.input_tokens,
        context.stats.total_output_tokens + u.reasoning_tokens +
          (u.output_tokens + u.reasoning_tokens)) =
        (updated_stats context.stats (some u)).billed := by
      refine Prod.ext rfl ?_
      change _ = context.stats.total_output_tokens + u.output_tokens +
        (context.stats.reasoning_tokens + u.reasoning_tokens)
      omega
    exact ⟨_, _, _, _, _, _, _, _, rfl, hsame, hsame, htotal⟩

end

/-! ## 5. Every run -/

/-- A usage that the accounting gets right from the first request on. -/
def Usage.is_plain (u : Usage) : Prop := u.reasoning_tokens = 0 ∧ u.total < 2 ^ 32

theorem reasoned_eq_zero {us : List Usage} (h : ∀ u ∈ us, u.is_plain) : reasoned us = 0 := by
  rw [reasoned, List.sum_eq_zero_iff]
  intro n hn
  obtain ⟨u, hu, rfl⟩ := List.mem_map.1 hn
  exact (h u hu).1

theorem usages_subset_run (cfg : Config) (m : Machine) (envs : List Env) :
    usages m.trail ⊆ usages (run (iterate cfg) m envs).trail := by
  induction envs generalizing m with
  | nil => exact List.Subset.refl _
  | cons env envs ih =>
      refine List.Subset.trans ?_ (ih (iterate cfg m env))
      by_cases hover : m.outcome.isSome = true
      · rw [iterate_of_over hover]
        exact List.Subset.refl _
      · obtain ⟨entries, next, hmoved⟩ :=
          @iterate_moves cfg env m (Option.not_isSome_iff_eq_none.1 hover)
        rw [hmoved.trail, usages_append]
        exact List.subset_append_left _ _

/-- A run in which nothing was reasoned so far has plain calls exactly when all its usages are
plain. -/
theorem along_callPlain_iff (cfg : Config) {m : Machine} (envs : List Env)
    (hm : ∀ u ∈ usages m.trail, u.is_plain) :
    Along (iterate cfg) CallPlain m envs ↔
      ∀ u ∈ usages (run (iterate cfg) m envs).trail, u.is_plain := by
  induction envs generalizing m with
  | nil => exact ⟨fun _ => hm, fun _ => trivial⟩
  | cons env envs ih =>
      have hzero := reasoned_eq_zero hm
      rw [along_cons, run_cons]
      constructor
      · rintro ⟨hplain, hrest⟩
        refine (ih ?_).1 hrest
        intro u hu
        rcases mem_usages_iterate hu with hold | ⟨context, response, hreports⟩
        · exact hm u hold
        · obtain ⟨hequal, htotal⟩ := hplain context response u hreports
          exact ⟨hequal.symm.trans hzero, htotal⟩
      · intro hall
        have hnext : ∀ u ∈ usages (iterate cfg m env).trail, u.is_plain :=
          fun u hu => hall u (usages_subset_run cfg _ envs hu)
        refine ⟨?_, (ih hnext).2 hall⟩
        intro context response u hreports
        obtain ⟨hreasoning, htotal⟩ := hnext u (by
          rw [(@CallReports.iterate cfg _ _ _ _ _ hreports).2]
          exact List.mem_append_right _ List.mem_cons_self)
        exact ⟨hzero.trans hreasoning.symm, htotal⟩

theorem accounted_start {cfg : Config} {history : List AgentMessage}
    {snapshot : Option (String × Option String)} {drivers : List MiddlewareDriver}
    (hstart : Answers (run_phase .TurnStart drivers
        (.BeforeLlmCall (start cfg history snapshot drivers).initial_context))
      (fun s => ∀ a ∈ s.accounts, a.counted = (0, 0, 0))) :
    (start cfg history snapshot drivers).trail = [] ∧
      Accounted (start cfg history snapshot drivers) := by
  revert hstart
  rw [start]
  dsimp only
  split
  · exact fun _ => ⟨rfl, fun hout => by cases hout⟩
  · split
    · exact fun _ => ⟨rfl, fun hout => by cases hout⟩
    · next s hrun =>
        intro hstart
        exact ⟨rfl, fun _ a ha => Answers.of_ok hstart hrun a ha⟩

/-- **In a run that keeps its accounts, every call agrees exactly when no request reports
reasoning tokens** or a usage too large for its sum. -/
theorem costs_agree_iff (cfg : Config) (history : List AgentMessage)
    (snapshot : Option (String × Option String)) (drivers : List MiddlewareDriver)
    (envs : List Env)
    (hstart : Answers (run_phase .TurnStart drivers
        (.BeforeLlmCall (start cfg history snapshot drivers).initial_context))
      (fun s => ∀ a ∈ s.accounts, a.counted = (0, 0, 0)))
    (hkeeps : Along (iterate cfg) KeepsAccounts (start cfg history snapshot drivers) envs) :
    Along (iterate cfg) (CallAgrees cfg) (start cfg history snapshot drivers) envs ↔
      ∀ u ∈ usages (run (iterate cfg) (start cfg history snapshot drivers) envs).trail,
        u.is_plain := by
  obtain ⟨htrail, haccounted⟩ := accounted_start hstart
  have hinvariant : Along (iterate cfg) (fun m _ => Accounted m)
      (start cfg history snapshot drivers) envs :=
    along_of_invariant hkeeps (fun _ _ hm hk => hm.step hk) (fun _ _ hm _ => hm) haccounted
  rw [hinvariant.congr fun m env hm => callAgrees_iff hm]
  refine along_callPlain_iff cfg envs ?_
  rw [htrail]
  exact fun u hu => absurd hu List.not_mem_nil

/-- A turn of one request with this usage. -/
def reported_request (u : Usage) : List Env :=
  [quiet_env .Cancelled, quiet_env (.Response { ends_turn with usage := some u })]

theorem reported_request_keeps (u : Usage) : Along (iterate plain_config) KeepsAccounts
    (start plain_config [] none []) (reported_request u) := by
  refine ⟨⟨?_, ?_⟩, ⟨?_, ?_⟩, trivial⟩
  · intro phase hphase
    cases hphase
    exact fun a ha => ⟨a, ha, rfl⟩
  · exact fun hstate => by cases hstate
  · exact fun _ hphase => by cases hphase
  · exact fun hstate => by cases hstate

theorem not_callAgrees_of_not_plain {u : Usage} (h : ¬ u.is_plain) :
    ¬ Along (iterate plain_config) (CallAgrees plain_config) (start plain_config [] none [])
      (reported_request u) := by
  rintro ⟨-, hcall, -⟩
  rw [callAgrees_iff fun _ a ha => by cases ha; rfl] at hcall
  obtain ⟨hreasoning, htotal⟩ := hcall _ _ u ⟨rfl, ⟨_, rfl⟩, ⟨rfl, rfl⟩, rfl, rfl⟩
  exact h ⟨hreasoning.symm, htotal⟩

/-- Three reasoning tokens are priced as six, and a usage of `2 ^ 32` tokens does not fit. -/
theorem cost_totals_disagree :
    ¬ Along (iterate plain_config) (CallAgrees plain_config) (start plain_config [] none [])
        (reported_request ⟨10, 5, 3, 0, 0⟩) ∧
      ¬ Along (iterate plain_config) (CallAgrees plain_config) (start plain_config [] none [])
        (reported_request ⟨2 ^ 32 - 1, 1, 0, 0, 0⟩) :=
  ⟨not_callAgrees_of_not_plain (by rintro ⟨h, -⟩; cases h),
    not_callAgrees_of_not_plain (by rintro ⟨-, h⟩; exact absurd h (by decide))⟩

/-- A request without reasoning is priced as it is counted. -/
theorem plain_request_agrees :
    Along (iterate plain_config) (CallAgrees plain_config) (start plain_config [] none [])
      (reported_request ⟨10, 5, 0, 0, 0⟩) := by
  refine (costs_agree_iff plain_config [] none [] _ (fun a ha => ?_)
    (reported_request_keeps _)).2 ?_
  · cases ha
    rfl
  · intro u hu
    rw [List.mem_singleton.1 (show u ∈ [(⟨10, 5, 0, 0, 0⟩ : Usage)] from hu)]
    exact ⟨rfl, by decide⟩

end Querymt.Agent
