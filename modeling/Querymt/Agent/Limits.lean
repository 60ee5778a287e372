/-
`Agent/Limits.lean` -- the limits of a turn, and the step limit.

Mirrors `LimitsMiddleware` (`middleware/limits.rs`). The limits are checked at the
start of a step, against the statistics the context carries; the price limit is
floating point and stands as what it answers for a context. The turn limit has
`Agent/TurnLimit.lean` to itself.

The step count is advanced by a response that reports its usage, in the context that
response leaves. A response without usage, the retries of a call, the summary of a
compaction, the context a stop hook goes back to and the one a review at the end of the
turn goes back to are not counted; everywhere else the count is at least the number of
calls made, which is the invariant of section 4.
-/
import Querymt.Agent.Compaction

set_option autoImplicit false

open Runs

namespace Querymt.Agent

/-! ## 1. The middleware -/

structure LimitsMiddleware where
  max_steps : Option ℕ
  max_turns : Option ℕ
  /-- the message of the price limit, for a context whose cost is above it -/
  price_exceeded : ConversationContext → Option String

/-- `LimitsMiddleware::on_step_start`. -/
def LimitsMiddleware.driver (l : LimitsMiddleware) : MiddlewareDriver
  | .StepStart, .BeforeLlmCall context =>
      match l.max_steps.filter fun max_steps => max_steps ≤ context.stats.steps with
      | some max_steps =>
          .ok (.Stopped ("Max steps (" ++ toString max_steps ++ ") reached") .StepLimit
            (some context))
      | none =>
          -- `turns` counts the prompt that is being answered
          match l.max_turns.filter fun max_turns => max_turns ≤ context.stats.turns with
          | some max_turns =>
              .ok (.Stopped ("Turn limit (" ++ toString max_turns ++ ") reached") .TurnLimit
                (some context))
          | none =>
              match l.price_exceeded context with
              | some message => .ok (.Stopped message .PriceLimit (some context))
              | none => .ok (.BeforeLlmCall context)
  | _, state => .ok state

/-! ## 2. Calls made and calls counted -/

def TrailEntry.is_called : TrailEntry → Bool
  | .Called _ _ => true
  | .Compacted => false

/-- The requests that an iteration sends to the provider: those of a call, with its
retries, and those for the summary of a compaction. -/
def requests (cfg : Config) (m : Machine) (env : Env) : ℕ :=
  if calls_llm m env then env.llm_requests
  else if attempts cfg m env then env.summary_requests
  else 0

/-- **The model calls** of a run. -/
def model_calls (cfg : Config) : Machine → List Env → ℕ := tally (iterate cfg) (requests cfg)

/-- The times that a run has gone through `CallLlm`. -/
def calls (trail : List TrailEntry) : ℕ := trail.countP TrailEntry.is_called

/-- The steps that a state will have counted when the next call is due; `none` for a
state that carries no count on. -/
def ExecutionState.counted : ExecutionState → Option ℕ
  | .BeforeLlmCall context => some context.stats.steps
  | .CallLlm context _ => some context.stats.steps
  | .AfterLlm response context => some (updated_stats context.stats response.usage).steps
  | .ProcessingToolCalls _ _ context => some context.stats.steps
  | .WaitingForEvent context _ => some context.stats.steps
  -- the one stop that a turn may come back from
  | .Stopped _ .ContextThreshold (some context) => some context.stats.steps
  | .Stopped _ _ _ | .Complete | .Cancelled => none

/-- A middleware that does not make the call itself, and does not lower the count. -/
def KeepsCount (s s' : ExecutionState) : Prop :=
  s'.is_call = false ∧ ∀ k' ∈ s'.counted, ∃ k ∈ s.counted, k ≤ k'

/-- A middleware that, asked before a call, lets the turn go on to it or ends the
turn, and does not lower the count. -/
def StepSafe (driver : MiddlewareDriver) : Prop :=
  ∀ context s, driver .StepStart (.BeforeLlmCall context) = .ok s →
    KeepsCount (.BeforeLlmCall context) s ∧
      (s.phase = some .StepStart ∨ MiddlewarePhase.is_terminal .StepStart s = true)

/-- **The condition.** The limit is asked before every call, and no other middleware
goes around it or lowers the count; no call is retried, and every response reports its
usage; no compaction asks for a summary; the end of the turn does not go back to a context
that has missed a call, and no stop hook continues a turn that has called the model. -/
def CountsSteps (l : LimitsMiddleware) (cfg : Config) (m : Machine) (env : Env) : Prop :=
  m.outcome = none →
    match m.state with
    | .BeforeLlmCall _ =>
        ∃ before after, env.drivers = before ++ l.driver :: after ∧
          ∀ driver ∈ before ++ after, StepSafe driver
    | .CallLlm _ _ =>
        env.llm_requests ≤ 1 ∧
        ∀ response, env.llm = .Response response → response.usage.isSome = true
    | .AfterLlm _ _ => Answers (run_phase .AfterLlm env.drivers m.state) (KeepsCount m.state)
    | .ProcessingToolCalls _ _ _ =>
        Answers (run_phase .ProcessingToolCalls env.drivers m.state) (KeepsCount m.state)
    | .Complete =>
        Answers (run_phase .TurnEnd env.drivers m.state) (fun s =>
          s.is_call = false ∧ ∀ k ∈ s.counted, calls m.trail ≤ k) ∧
        (ContinuesTurn m env → calls m.trail = 0)
    | .Stopped _ _ _ => attempts cfg m env = true → env.summary_requests = 0
    | .WaitingForEvent _ _ | .Cancelled => True

/-! ## 3. The pipeline before a call -/

theorem KeepsCount.trans {s s' s'' : ExecutionState} (h : KeepsCount s s')
    (h' : KeepsCount s' s'') : KeepsCount s s'' := by
  refine ⟨h'.1, fun k'' hk'' => ?_⟩
  obtain ⟨k', hk', hle'⟩ := h'.2 k'' hk''
  obtain ⟨k, hk, hle⟩ := h.2 k' hk'
  exact ⟨k, hk, hle.trans hle'⟩

theorem KeepsCount.le {s : ExecutionState} {context next : ConversationContext}
    (h : KeepsCount (.BeforeLlmCall context) s) (hs : s = .BeforeLlmCall next) :
    context.stats.steps ≤ next.stats.steps := by
  rw [hs] at h
  obtain ⟨k, hk, hle⟩ := h.2 next.stats.steps rfl
  rw [Option.some.inj hk]
  exact hle

theorem keepsCount_refl (context : ConversationContext) :
    KeepsCount (.BeforeLlmCall context) (.BeforeLlmCall context) :=
  ⟨rfl, fun k hk => ⟨k, hk, le_refl k⟩⟩

section

variable {l : LimitsMiddleware}

theorem LimitsMiddleware.stepSafe (l : LimitsMiddleware) : StepSafe l.driver := by
  intro context s hs
  have hstopped : ∀ message stop_type, stop_type ≠ .ContextThreshold →
      KeepsCount (.BeforeLlmCall context) (.Stopped message stop_type (some context)) ∧
        ((ExecutionState.Stopped message stop_type (some context)).phase = some .StepStart ∨
          MiddlewarePhase.is_terminal .StepStart
            (.Stopped message stop_type (some context)) = true) := by
    intro message stop_type hne
    refine ⟨⟨rfl, fun k hk => ?_⟩, .inr rfl⟩
    -- a stop that ends the turn carries no count on
    cases stop_type <;> first | exact absurd rfl hne | cases hk
  rw [LimitsMiddleware.driver] at hs
  split at hs
  · cases hs
    exact hstopped _ _ (by decide)
  · split at hs
    · cases hs
      exact hstopped _ _ (by decide)
    · split at hs
      · cases hs
        exact hstopped _ _ (by decide)
      · cases hs
        exact ⟨keepsCount_refl context, .inl rfl⟩

/-- A state that goes on to the call. -/
theorem before_llm_call_of_phase {s : ExecutionState} (h : s.phase = some .StepStart) :
    ∃ context, s = .BeforeLlmCall context := by
  cases s <;> first | exact ⟨_, rfl⟩ | cases h

theorem run_phase_stepSafe {drivers : List MiddlewareDriver}
    (hdrivers : ∀ driver ∈ drivers, StepSafe driver) {context : ConversationContext}
    {s : ExecutionState} (hrun : run_phase .StepStart drivers (.BeforeLlmCall context) = .ok s) :
    KeepsCount (.BeforeLlmCall context) s ∧
      (s.phase = some .StepStart ∨ MiddlewarePhase.is_terminal .StepStart s = true) := by
  -- on the pipeline: the context is what the drivers so far have left
  induction drivers generalizing context with
  | nil =>
      rw [run_phase, Except.ok.injEq] at hrun
      rw [← hrun]
      exact ⟨keepsCount_refl context, .inl rfl⟩
  | cons driver drivers ih =>
      rw [run_phase] at hrun
      rcases hd : driver .StepStart (.BeforeLlmCall context) with e | mid
      · rw [hd] at hrun
        cases hrun
      · rw [hd] at hrun
        dsimp only at hrun
        obtain ⟨hkeeps, hmid⟩ := hdrivers driver List.mem_cons_self context mid hd
        by_cases hterminal : MiddlewarePhase.is_terminal .StepStart mid = true
        · rw [if_pos hterminal, Except.ok.injEq] at hrun
          rw [← hrun]
          exact ⟨hkeeps, .inr hterminal⟩
        · rw [if_neg hterminal] at hrun
          obtain ⟨next, rfl⟩ := before_llm_call_of_phase (hmid.resolve_right hterminal)
          obtain ⟨hrest, hlast⟩ :=
            ih (fun d hd' => hdrivers d (List.mem_cons_of_mem driver hd')) hrun
          exact ⟨hkeeps.trans hrest, hlast⟩

/-- **The limit is in the pipeline**: a turn that goes on to the call has counted fewer
steps than the limit. -/
theorem steps_lt_of_run_phase {n : ℕ} (hmax : l.max_steps = some n)
    {before after : List MiddlewareDriver} (hbefore : ∀ driver ∈ before, StepSafe driver)
    {context next : ConversationContext}
    (hrun : run_phase .StepStart (before ++ l.driver :: after) (.BeforeLlmCall context) =
      .ok (.BeforeLlmCall next)) :
    context.stats.steps < n := by
  -- on the drivers in front of the limit, which may only raise the count it sees
  induction before generalizing context with
  | nil =>
      by_contra hover
      have hstop : l.driver .StepStart (.BeforeLlmCall context) =
          .ok (.Stopped ("Max steps (" ++ toString n ++ ") reached") .StepLimit
            (some context)) := by
        rw [LimitsMiddleware.driver, hmax, Option.filter_some_pos (by simpa using hover)]
      rw [List.nil_append, run_phase, hstop] at hrun
      cases hrun
  | cons driver before ih =>
      rw [List.cons_append, run_phase] at hrun
      rcases hd : driver .StepStart (.BeforeLlmCall context) with e | mid
      · rw [hd] at hrun
        cases hrun
      · rw [hd] at hrun
        dsimp only at hrun
        obtain ⟨hkeeps, hmid⟩ := hbefore driver List.mem_cons_self context mid hd
        by_cases hterminal : MiddlewarePhase.is_terminal .StepStart mid = true
        · rw [if_pos hterminal, Except.ok.injEq] at hrun
          rw [hrun] at hterminal
          cases hterminal
        · rw [if_neg hterminal] at hrun
          obtain ⟨context', hcontext'⟩ := before_llm_call_of_phase (hmid.resolve_right hterminal)
          rw [hcontext'] at hrun
          have hlt := ih (fun d hd' => hbefore d (List.mem_cons_of_mem driver hd')) hrun
          exact (hkeeps.le hcontext').trans_lt hlt

end

/-! ## 4. Every run -/

/-- **The invariant.** No more calls than the limit, no more than the state has counted,
and one fewer than the limit when a call is next. -/
structure WithinLimit (n : ℕ) (m : Machine) : Prop where
  calls : calls m.trail ≤ n
  counted : m.outcome = none → ∀ k ∈ m.state.counted, Agent.calls m.trail ≤ k
  next : m.outcome = none → m.state.is_call = true → Agent.calls m.trail < n

section

variable {l : LimitsMiddleware} {n : ℕ} {cfg : Config} {m : Machine} {env : Env}

/-- The state has counted the calls of the machine, and makes another only below the limit. -/
def HasCounted (n : ℕ) (m : Machine) (s : ExecutionState) : Prop :=
  (∀ k ∈ s.counted, Agent.calls m.trail ≤ k) ∧ (s.is_call = true → Agent.calls m.trail < n)

/-- An iteration without a call keeps the invariant when what it leaves has counted
every call. -/
theorem WithinLimit.of_moved (h : WithinLimit n m) {entries : List TrailEntry}
    {next : Option ExecutionState} (hmoved : Moved cfg env m (iterate cfg m env) entries next)
    (hentries : Agent.calls entries = 0)
    (hnext : ∀ s ∈ next, HasCounted n m s) : WithinLimit n (iterate cfg m env) := by
  have hcalls : Agent.calls (iterate cfg m env).trail = Agent.calls m.trail := by
    rw [hmoved.trail, Agent.calls, List.countP_append]
    exact congrArg (Agent.calls m.trail + ·) hentries
  have hstate : (iterate cfg m env).outcome = none →
      ∃ s ∈ next, (iterate cfg m env).state = s := by
    intro hout
    have hsome := hmoved.outcome
    rw [hout] at hsome
    rcases next with _ | s
    · cases hsome
    · exact ⟨s, rfl, hmoved.state s rfl⟩
  refine ⟨hcalls.trans_le h.calls, ?_, ?_⟩
  · intro hout k hk
    obtain ⟨s, hs, heq⟩ := hstate hout
    rw [heq] at hk
    rw [hcalls]
    exact (hnext s hs).1 k hk
  · intro hout hcall
    obtain ⟨s, hs, heq⟩ := hstate hout
    rw [heq] at hcall
    rw [hcalls]
    exact (hnext s hs).2 hcall

/-- The same, for an iteration that goes on to a state. -/
theorem WithinLimit.of_moved_to (h : WithinLimit n m) {entries : List TrailEntry}
    {s : ExecutionState} (hmoved : Moved cfg env m (iterate cfg m env) entries (some s))
    (hentries : Agent.calls entries = 0) (hs : HasCounted n m s) :
    WithinLimit n (iterate cfg m env) := by
  refine h.of_moved hmoved hentries fun s' hs' => ?_
  rw [← Option.some.inj hs']
  exact hs

/-- What a phase answers has counted what the state before it had. -/
theorem counted_of_keepsCount (h : WithinLimit n m) (hout : m.outcome = none)
    {s : ExecutionState} (hkeeps : KeepsCount m.state s) : HasCounted n m s := by
  constructor
  · intro k' hk'
    obtain ⟨k, hk, hle⟩ := hkeeps.2 k' hk'
    exact (h.counted hout k hk).trans hle
  · intro hcall
    rw [hkeeps.1] at hcall
    cases hcall

/-- The count of a context is the count of the states that carry it on. -/
theorem counted_of_steps {k : ℕ} {s : ExecutionState} (hs : s.is_call = false)
    (hk : ∀ k' ∈ s.counted, k' = k) (hle : Agent.calls m.trail ≤ k) : HasCounted n m s := by
  constructor
  · intro k' hk'
    rw [hk k' hk']
    exact hle
  · intro hcall
    rw [hs] at hcall
    cases hcall

/-- A state without a count owes none. -/
theorem hasCounted_of_uncounted {s : ExecutionState} (hs : s.is_call = false)
    (hk : s.counted = none) : HasCounted n m s := by
  refine counted_of_steps hs (fun k hmem => ?_) (Nat.le_refl _)
  rw [hk] at hmem
  cases hmem

/-- A response carries its own count on, or none. -/
theorem state_after_llm_counted (response : LlmResponse) (next : ConversationContext) :
    (state_after_llm response next).is_call = false ∧
      ∀ k ∈ (state_after_llm response next).counted, k = next.stats.steps := by
  rcases state_after_llm_context response next with h | ⟨message, stop_type, h⟩ | ⟨-, h⟩
  · rw [h]
    exact ⟨rfl, fun k hk => by cases hk⟩
  · rw [h]
    refine ⟨rfl, fun k hk => ?_⟩
    cases stop_type <;> first | exact (Option.some.inj hk).symm | cases hk
  · rw [h]
    exact ⟨rfl, fun k hk => (Option.some.inj hk).symm⟩

/-- A call is counted by the response it gets. -/
theorem WithinLimit.of_call (h : WithinLimit n m) (hout : m.outcome = none)
    {context : ConversationContext} {tools : List String}
    (hstate : m.state = .CallLlm context tools) {next : Option ExecutionState}
    (hmoved : Moved cfg env m (iterate cfg m env) [.Called context env.llm] next)
    (hnext : ∀ s ∈ next, s.is_call = false ∧ ∀ k ∈ s.counted, k = context.stats.steps + 1) :
    WithinLimit n (iterate cfg m env) := by
  have hcalls : Agent.calls (iterate cfg m env).trail = Agent.calls m.trail + 1 := by
    rw [hmoved.trail, Agent.calls, List.countP_append]
    rfl
  have hlt : Agent.calls m.trail < n := h.next hout (by rw [hstate]; rfl)
  have hcounted : Agent.calls m.trail ≤ context.stats.steps :=
    h.counted hout context.stats.steps (by rw [hstate]; rfl)
  have hs : (iterate cfg m env).outcome = none →
      (iterate cfg m env).state.is_call = false ∧
        ∀ k ∈ (iterate cfg m env).state.counted, k = context.stats.steps + 1 := by
    intro hout'
    have hsome := hmoved.outcome
    rw [hout'] at hsome
    rcases next with _ | s
    · cases hsome
    · rw [hmoved.state s rfl]
      exact hnext s rfl
  refine ⟨?_, ?_, ?_⟩
  · rw [hcalls]
    exact hlt
  · intro hout' k hk
    rw [(hs hout').2 k hk, hcalls]
    exact Nat.succ_le_succ hcounted
  · intro hout' hcall
    rw [(hs hout').1] at hcall
    cases hcall

/-- What a phase answers with another kind of state, under the condition. -/
theorem WithinLimit.passed (h : WithinLimit n m) (hC : CountsSteps l cfg m env)
    (hout : m.outcome = none) {phase : MiddlewarePhase} {s : ExecutionState}
    (hphase : m.state.phase = some phase) (hrun : run_phase phase env.drivers m.state = .ok s) :
    HasCounted n m s := by
  have hcondition := hC hout
  rcases hs : m.state with context | _ | _ | _ | _ | _ | _ | _ <;> rw [hs] at hphase hcondition <;>
    cases hphase
  · obtain ⟨before, after, hdrivers, hsafe⟩ := hcondition
    rw [hs, hdrivers] at hrun
    refine counted_of_keepsCount h hout ?_
    rw [hs]
    refine (run_phase_stepSafe ?_ hrun).1
    intro driver hdriver
    rcases List.mem_append.1 hdriver with hb | ha
    · exact hsafe driver (List.mem_append_left _ hb)
    · rcases List.mem_cons.1 ha with rfl | ha
      · exact l.stepSafe
      · exact hsafe driver (List.mem_append_right _ ha)
  · exact counted_of_keepsCount h hout (hs ▸ Answers.of_ok hcondition (hs ▸ hrun))
  · exact counted_of_keepsCount h hout (hs ▸ Answers.of_ok hcondition (hs ▸ hrun))
  · obtain ⟨hcall, hcounted⟩ := Answers.of_ok hcondition.1 (hs ▸ hrun)
    refine ⟨hcounted, fun h => ?_⟩
    rw [hcall] at h
    cases h

/-- **One iteration under the condition.** -/
theorem WithinLimit.step (h : WithinLimit n m) (hmax : l.max_steps = some n)
    (hC : CountsSteps l cfg m env) : WithinLimit n (iterate cfg m env) := by
  by_cases hover : m.outcome.isSome = true
  · rw [iterate_of_over hover]
    exact h
  have hout : m.outcome = none := Option.not_isSome_iff_eq_none.1 hover
  have hcondition := hC hout
  obtain ⟨entries, next, hmoved⟩ := @iterate_moves cfg env m hout
  have hmoves := hmoved.moves
  -- what a state with a count has counted
  have hcount : ∀ k, m.state.counted = some k → Agent.calls m.trail ≤ k :=
    fun k hk => h.counted hout k hk
  cases hmoves with
  | ended => exact h.of_moved hmoved rfl fun s hs => by cases hs
  | cancelled => exact h.of_moved_to hmoved rfl (hasCounted_of_uncounted rfl rfl)
  | passed hphase hrun _ => exact h.of_moved_to hmoved rfl (h.passed hC hout hphase hrun)
  -- the limit has let the call pass, so it is below the limit
  | @asks first context tools hstate hrun =>
      refine h.of_moved_to hmoved rfl ?_
      obtain ⟨hcounted, -⟩ := h.passed hC hout (by rw [hstate]; rfl) hrun
      refine ⟨fun k hk => hcounted k hk, fun _ => ?_⟩
      rw [hstate] at hcondition hrun
      obtain ⟨before, after, hdrivers, hsafe⟩ := hcondition
      rw [hdrivers] at hrun
      have hlt := steps_lt_of_run_phase hmax
        (fun d hd => hsafe d (List.mem_append_left _ hd)) hrun
      exact (hcount first.stats.steps (by rw [hstate]; rfl)).trans_lt hlt
  -- the response reports its usage, so it advances the count
  | @called context tools response hstate hllm _ =>
      refine h.of_call hout hstate hmoved fun s hs => ?_
      rw [← Option.some.inj hs]
      rw [hstate] at hcondition
      obtain ⟨usage, husage⟩ := Option.isSome_iff_exists.1 (hcondition.2 response hllm)
      refine ⟨rfl, fun k hk => ?_⟩
      rw [← Option.some.inj hk, husage]
      rfl
  | call_failed hstate hnext _ =>
      refine h.of_call hout hstate hmoved fun s hs => ?_
      rcases hnext with rfl | rfl
      · cases hs
      · rw [← Option.some.inj hs]
        exact ⟨rfl, fun k hk => by cases hk⟩
  | @answered first response before context hstate hrun =>
      refine h.of_moved_to hmoved rfl ?_
      obtain ⟨hcounted, -⟩ := h.passed hC hout (by rw [hstate]; rfl) hrun
      obtain ⟨hcall, hk⟩ := state_after_llm_counted response
        (context_after_llm cfg env response context)
      exact counted_of_steps hcall hk (hcounted _ rfl)
  | @stored calls results context next s hstate hrun hstats hs =>
      refine h.of_moved_to hmoved rfl ?_
      have hphase : m.state.phase = some .ProcessingToolCalls := by
        rcases hm : m.state with _ | _ | _ | _ | _ | _ | _ | _ <;> rw [hm] at hstate <;>
          first | rfl | cases hstate
      obtain ⟨hcounted, -⟩ := h.passed hC hout hphase hrun
      have hle : Agent.calls m.trail ≤ next.stats.steps := by
        rw [hstats]
        exact hcounted _ rfl
      rcases hs with rfl | ⟨wait, rfl⟩
      · exact counted_of_steps rfl (fun k hk => (Option.some.inj hk).symm) hle
      · exact counted_of_steps rfl (fun k hk => (Option.some.inj hk).symm) hle
  | @resumed context next wait hstate hstats =>
      refine h.of_moved_to hmoved rfl ?_
      refine counted_of_steps rfl (fun k hk => (Option.some.inj hk).symm) ?_
      rw [hstats]
      exact hcount _ (by rw [hstate]; rfl)
  | closed _ => exact h.of_moved_to hmoved rfl (hasCounted_of_uncounted rfl rfl)
  -- the hook goes back to the initial context, whose count is 0
  | @continued next hstate hhook hstats =>
      refine h.of_moved_to hmoved rfl ?_
      refine counted_of_steps rfl (fun k hk => (Option.some.inj hk).symm) ?_
      rw [hstate] at hcondition
      rw [hcondition.2 hhook]
      exact Nat.zero_le _
  | @blocked message text context reason contexts hstate _ _ =>
      refine h.of_moved_to hmoved rfl ?_
      rcases context with _ | context
      · exact hasCounted_of_uncounted rfl rfl
      · refine counted_of_steps rfl (fun k hk => (Option.some.inj hk).symm) ?_
        exact hcount _ (by rw [hstate]; rfl)
  | @compacted message context next hstate _ hsteps =>
      refine h.of_moved_to hmoved rfl ?_
      refine counted_of_steps rfl (fun k hk => (Option.some.inj hk).symm) ?_
      rw [hsteps]
      exact hcount _ (by rw [hstate]; rfl)
  | compaction_lost _ _ => exact h.of_moved hmoved rfl fun s hs => by cases hs

/-- An iteration that calls the model. -/
theorem trail_of_calls_llm (cfg : Config) (h : calls_llm m env = true) :
    ∃ context, (iterate cfg m env).trail = m.trail ++ [.Called context env.llm] := by
  rw [calls_llm] at h
  simp only [Bool.and_eq_true, Option.isNone_iff_eq_none, Bool.not_eq_true'] at h
  obtain ⟨⟨⟨hout, htop⟩, hcall⟩, hlive⟩ := h
  rcases hstate : m.state with _ | ⟨context, tools⟩ | _ | _ | _ | _ | _ | _ <;>
    rw [hstate] at hcall <;> try cases hcall
  refine ⟨context, ?_⟩
  simp only [iterate, hout, htop, hstate, transition_call_llm, hlive]
  rcases env.llm with _ | error | response <;> rfl

theorem calls_le_iterate (cfg : Config) (m : Machine) (env : Env) :
    calls m.trail ≤ calls (iterate cfg m env).trail := by
  by_cases hover : m.outcome.isSome = true
  · rw [iterate_of_over hover]
  · obtain ⟨entries, next, hmoved⟩ :=
      @iterate_moves cfg env m (Option.not_isSome_iff_eq_none.1 hover)
    rw [hmoved.trail, calls, calls, List.countP_append]
    exact Nat.le_add_right _ _

/-- **A request is a call**: an iteration under the condition sends no more requests than
it adds calls. -/
theorem requests_le (hC : CountsSteps l cfg m env) :
    requests cfg m env + calls m.trail ≤ calls (iterate cfg m env).trail := by
  rw [requests]
  by_cases hcall : calls_llm m env = true
  · rw [if_pos hcall]
    obtain ⟨context, htrail⟩ := trail_of_calls_llm cfg hcall
    have hone : env.llm_requests ≤ 1 := by
      rw [calls_llm] at hcall
      simp only [Bool.and_eq_true, Option.isNone_iff_eq_none] at hcall
      have hcondition := hC hcall.1.1.1
      rcases hstate : m.state with _ | ⟨context, tools⟩ | _ | _ | _ | _ | _ | _ <;>
        rw [hstate] at hcall hcondition <;> first | exact hcondition.1 | cases hcall.1.2
    have hcalls : calls (m.trail ++ [.Called context env.llm]) = calls m.trail + 1 := by
      rw [calls, List.countP_append]
      rfl
    rw [htrail, hcalls]
    omega
  · rw [if_neg hcall]
    have hnone : (if attempts cfg m env then env.summary_requests else 0) = 0 := by
      by_cases hattempts : attempts cfg m env = true
      · rw [if_pos hattempts]
        obtain ⟨hout, message, context, hstate⟩ := at_threshold_of_attempts hattempts
        have hcondition := hC hout
        rw [hstate] at hcondition
        exact hcondition hattempts
      · exact if_neg hattempts
    rw [hnone, Nat.zero_add]
    exact calls_le_iterate cfg m env

end

theorem trail_start (cfg : Config) (history : List AgentMessage)
    (snapshot : Option (String × Option String)) (drivers : List MiddlewareDriver) :
    (start cfg history snapshot drivers).trail = [] := by
  rw [start]
  dsimp only
  split
  · rfl
  · split <;> rfl

theorem withinLimit_start {cfg : Config} {history : List AgentMessage}
    {snapshot : Option (String × Option String)} {drivers : List MiddlewareDriver} (n : ℕ)
    (hstart : Answers (run_phase .TurnStart drivers
        (.BeforeLlmCall (start cfg history snapshot drivers).initial_context))
      (fun s => s.is_call = false)) :
    WithinLimit n (start cfg history snapshot drivers) := by
  have htrail := trail_start cfg history snapshot drivers
  have hcall : (start cfg history snapshot drivers).state.is_call = false := by
    revert hstart
    rw [start]
    dsimp only
    split
    · exact fun _ => rfl
    · split
      · exact fun _ => rfl
      · next s hrun => exact fun hstart => Answers.of_ok hstart hrun
  refine ⟨?_, ?_, ?_⟩
  · rw [htrail]
    exact Nat.zero_le n
  · intro _ k _
    rw [htrail]
    exact Nat.zero_le k
  · intro _ h
    rw [hcall] at h
    cases h

/-- **The step limit bounds the loop**: a run whose iterations all meet the condition
makes at most `n` model calls. -/
theorem calls_le_max_steps (l : LimitsMiddleware) (n : ℕ) (hmax : l.max_steps = some n)
    (cfg : Config) (history : List AgentMessage) (snapshot : Option (String × Option String))
    (drivers : List MiddlewareDriver) (envs : List Env)
    (hstart : Answers (run_phase .TurnStart drivers
        (.BeforeLlmCall (start cfg history snapshot drivers).initial_context))
      (fun s => s.is_call = false))
    (hC : Along (iterate cfg) (CountsSteps l cfg) (start cfg history snapshot drivers) envs) :
    model_calls cfg (start cfg history snapshot drivers) envs ≤ n := by
  have halong : Along (iterate cfg) (fun m env => CountsSteps l cfg m env ∧ WithinLimit n m)
      (start cfg history snapshot drivers) envs :=
    along_of_invariant hC (fun _ _ h hm => h.step hmax hm) (fun _ _ h hm => ⟨hm, h⟩)
      (withinLimit_start n hstart)
  -- the calls that are left are a stock
  have hstock := tally_le_stock (w := requests cfg) (fun m => n - calls m.trail) halong ?_
  · rwa [trail_start, calls, List.countP_nil, Nat.sub_zero] at hstock
  · rintro m env ⟨hm, h⟩
    have hrequests := requests_le hm
    have hlimit := (h.step hmax hm).calls
    omega

def one_step : LimitsMiddleware where
  max_steps := some 1
  max_turns := none
  price_exceeded := fun _ => none

def limited_env (llm : LlmOutcome) : Env := { quiet_env llm with drivers := [one_step.driver] }

/-- Two calls of a tool by a model that reports no usage. -/
def unreported_turn : List Env :=
  [limited_env .Cancelled, limited_env (.Response calls_shell), limited_env .Cancelled,
   limited_env .Cancelled, limited_env .Cancelled, limited_env (.Response calls_shell)]

/-- A counted answer, and a stop hook that asks for another step. -/
def hooked_turn : List Env :=
  [limited_env .Cancelled,
   limited_env (.Response { ends_turn with usage := some ⟨10, 5, 0, 0, 0⟩ }),
   limited_env .Cancelled,
   { limited_env .Cancelled with stop_hook := .ok ⟨true, some "run the tests", none, []⟩ },
   limited_env .Cancelled, limited_env (.Response ends_turn)]

/-- A call that is sent twice, for a rate limit. -/
def retried_turn : List Env :=
  [limited_env .Cancelled, { limited_env (.Response counted_call) with llm_requests := 2 }]

/-- A counted call that fills the context, and the summary of the compaction after it. -/
def summarised_turn : List Env :=
  (compacts_twice (.Summarised "summary" [] 15 (.ok 5))).map fun env =>
    { env with drivers := [at_twelve.driver, one_step.driver], summary_requests := 1 }

/-- Each makes a second call under a limit of one. -/
theorem step_limit_missed :
    ¬ model_calls plain_config (start plain_config [] none []) unreported_turn ≤ 1 ∧
      ¬ model_calls plain_config (start plain_config [] none []) hooked_turn ≤ 1 ∧
      ¬ model_calls plain_config (start plain_config [] none []) retried_turn ≤ 1 ∧
      ¬ model_calls compacting_config (start compacting_config [] none []) summarised_turn ≤ 1 := by
  refine ⟨?_, ?_, ?_, ?_⟩ <;> decide

/-- The same two calls, reported: the second is refused. -/
def reported_turn : List Env :=
  [limited_env .Cancelled, limited_env (.Response counted_call), limited_env .Cancelled,
   limited_env .Cancelled, limited_env .Cancelled, limited_env (.Response counted_call)]

theorem reported_turn_limited :
    (run (iterate plain_config) (start plain_config [] none []) reported_turn).outcome =
        some (.ok (.Stopped .MaxTurnRequests)) ∧
      model_calls plain_config (start plain_config [] none []) reported_turn ≤ 1 := by
  refine ⟨rfl, calls_le_max_steps one_step 1 rfl plain_config [] none [] reported_turn rfl ?_⟩
  have hbefore : ∀ llm, ∃ before after,
      (limited_env llm).drivers = before ++ one_step.driver :: after ∧
        ∀ driver ∈ before ++ after, StepSafe driver :=
    fun _ => ⟨[], [], rfl, fun _ hd => by cases hd⟩
  refine ⟨fun _ => hbefore _, fun _ => ⟨le_refl 1, fun response hllm => ?_⟩, fun _ => ?_,
    fun _ => ?_, fun _ => hbefore _, fun _ hattempts => (by cases hattempts), trivial⟩
  · cases hllm
    rfl
  · exact ⟨rfl, fun k hk => ⟨k, hk, le_refl k⟩⟩
  · exact ⟨rfl, fun k hk => ⟨k, hk, le_refl k⟩⟩

end Querymt.Agent
