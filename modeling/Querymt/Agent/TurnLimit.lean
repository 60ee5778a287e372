/-
`Agent/TurnLimit.lean` -- the prompts of a session, and the turn limit.

The turn count is taken once, at the start of a turn, from the effective history, which
already has the prompt of the turn in it (`execute_cycle_state_machine`). A session keeps a
log of what its turns count next to its history: the prompts, the waits that were
resumed and the compactions, each with the time of its message. Section 3 proves that
every history shows what its log says, in the order of the times; section 5 what the
limit makes of that.
-/
import Querymt.Agent.Limits

set_option autoImplicit false

open Runs

namespace Querymt.Agent

/-! ## 1. The prompts of a session -/

/-- A prompt: what `execute_prompt_detached` stores for it, what the loop learns in its
turn, and the patch message of the snapshot after it. -/
structure UserPrompt where
  message_id : String
  render_prompt_for_llm : Option ℕ → String
  created_at : ℤ
  /-- does reading the history succeed at the start of its turn? -/
  get_history : Except String Unit
  pre_turn_snapshot_task : Option (String × Option String)
  turn_start : List MiddlewareDriver
  envs : List Env
  /-- for a snapshot that was still pending after the turn, and for the patch -/
  late_env : Env
  patch : Option (String × String × List String)

def prompt_message (cfg : Config) (p : UserPrompt) : AgentMessage where
  id := p.message_id
  session_id := cfg.session_id
  role := .User
  parts := [.Prompt p.render_prompt_for_llm]
  created_at := p.created_at
  parent_message_id := none
  source_provider := none
  source_model := none

def patch_message (cfg : Config) (env : Env) (patch : String × String × List String) :
    AgentMessage where
  id := env.uuid 1
  session_id := cfg.session_id
  role := .Assistant
  parts := [.TurnSnapshotPatch patch.1 patch.2.1 patch.2.2]
  created_at := env.now
  parent_message_id := none
  source_provider := none
  source_model := none

def turn_config (cfg : Config) (p : UserPrompt) : Config :=
  { cfg with get_history := p.get_history }

/-- The machine at the start of the turn of a prompt. -/
def turn_begin (cfg : Config) (history : List AgentMessage) (p : UserPrompt) : Machine :=
  start (turn_config cfg p) (history ++ [prompt_message cfg p]) p.pre_turn_snapshot_task
    p.turn_start

/-- The turn of a prompt. -/
def prompt_turn (cfg : Config) (history : List AgentMessage) (p : UserPrompt) : Machine :=
  run (iterate (turn_config cfg p)) (turn_begin cfg history p) p.envs

/-- What the session does in the turn of a prompt, after the prompt. -/
def prompt_log (cfg : Config) (history : List AgentMessage) (p : UserPrompt) :
    List (SessionEvent × ℤ) :=
  turn_log (turn_config cfg p) (turn_begin cfg history p) p.envs

/-- A session: its messages in the order in which they were stored, and its log. -/
structure Session where
  history : List AgentMessage
  log : List (SessionEvent × ℤ)

namespace Session

def new : Session := ⟨[], []⟩

/-- The prompts so far. -/
def prompts (s : Session) : ℕ := s.log.countP fun e => decide (e.1 = .Prompted)

end Session

/-- The session after a prompt. -/
def after_prompt (cfg : Config) (s : Session) (p : UserPrompt) : Session :=
  -- a snapshot that the turn never waited for is stored after it
  let m := ensure_pre_turn_snapshot_ready cfg p.late_env (prompt_turn cfg s.history p)
  { history := m.history ++ (p.patch.map (patch_message cfg p.late_env)).toList
    log := s.log ++ (.Prompted, p.created_at) :: prompt_log cfg s.history p }

/-- The turn called the model. -/
def Machine.reaches_call (m : Machine) : Bool := decide (0 < calls m.trail)

def AgentEventKind.is_turn_limit : AgentEventKind → Bool
  | .MiddlewareStopped .TurnLimit _ _ _ => true
  | _ => false

/-- The turn was stopped for the turn limit, without a call. -/
def Machine.turn_limited (m : Machine) : Bool :=
  decide (m.outcome = some (.ok (.Stopped .MaxTurnRequests)))
    && m.events.any AgentEventKind.is_turn_limit && !m.reaches_call

/-- **The turn limit is exact** for a prompt: it reaches a model call when it is among the
first `n` of its session, and is stopped for the turn limit when it is not. -/
def TurnExact (cfg : Config) (n : ℕ) (s : Session) (p : UserPrompt) : Prop :=
  ((prompt_turn cfg s.history p).reaches_call = true ↔ s.prompts < n) ∧
    (n ≤ s.prompts → (prompt_turn cfg s.history p).turn_limited = true)

instance (cfg : Config) (n : ℕ) (s : Session) (p : UserPrompt) : Decidable (TurnExact cfg n s p) :=
  inferInstanceAs (Decidable ((_ ↔ _) ∧ (_ → _)))

/-! ## 2. What a log shows -/

/-- The turns of a log: in the order of their times, those after the last compaction, and
that compaction itself, whose request is a message of the user. -/
def turns_shown (log : List (SessionEvent × ℤ)) : ℕ :=
  let ordered := log.insertionSort fun a b => a.2 ≤ b.2
  (ordered.rtakeWhile fun e => decide (e.1 ≠ .Compacted)).length +
    if ordered.any fun e => decide (e.1 = .Compacted) then 1 else 0

/-- The turns that a prompt finds, its own among them; a history that cannot be read
shows none. -/
def turns_found (s : Session) (p : UserPrompt) : ℕ :=
  match p.get_history with
  | .ok () => turns_shown (s.log ++ [(.Prompted, p.created_at)])
  | .error _ => 0

/-- **The condition.** The log shows fewer turns than the limit exactly when fewer prompts
than the limit came before. -/
def TurnsVisible (n : ℕ) (s : Session) (p : UserPrompt) : Prop :=
  turns_found s p < n ↔ s.prompts < n

instance (n : ℕ) (s : Session) (p : UserPrompt) : Decidable (TurnsVisible n s p) :=
  inferInstanceAs (Decidable (_ ↔ _))

/-- A turn that reads its history, resumes from no wait and compacts nothing. -/
def OnlyPrompts (cfg : Config) (s : Session) (p : UserPrompt) : Prop :=
  p.get_history = .ok () ∧ prompt_log cfg s.history p = []

/-- A middleware that lets a step begin. -/
def LetsBegin (driver : MiddlewareDriver) : Prop :=
  ∀ context, ∃ next, driver .StepStart (.BeforeLlmCall context) = .ok (.BeforeLlmCall next) ∧
    next.stats = context.stats

/-- A turn in which nothing but the turn limit decides whether the model is called: its
first two iterations are not cancelled, the tools are there, and no other middleware
and no other limit stops it. -/
structure Undisturbed (l : LimitsMiddleware) (cfg : Config) (history : List AgentMessage)
    (p : UserPrompt) : Prop where
  llm_config : cfg.llm_config.isSome = true
  turn_start : ∃ context, run_phase .TurnStart p.turn_start
      (.BeforeLlmCall (turn_begin cfg history p).initial_context) = .ok (.BeforeLlmCall context) ∧
    context.stats = (turn_begin cfg history p).initial_context.stats
  steps : ∀ max_steps ∈ l.max_steps, 0 < max_steps
  price : ∀ context, context.stats = { turns := context.stats.turns } →
    l.price_exceeded context = none
  iterations : ∃ first second rest, p.envs = first :: second :: rest ∧
    first.cancelled_at_top = false ∧ first.cancelled = false ∧ (∃ tools, first.tools = .ok tools) ∧
    second.cancelled_at_top = false ∧ second.cancelled = false ∧
    ∃ before after, first.drivers = before ++ l.driver :: after ∧
      ∀ driver ∈ before ++ after, LetsBegin driver

/-! ## 3. The history and its log -/

/-- A message of the user without results. -/
def AgentMessage.is_user_text (m : AgentMessage) : Bool :=
  decide (m.role = .User) && m.tool_result_ids.isEmpty

/-- The user messages without results that the model is shown. -/
def user_turns (history : List AgentMessage) : ℕ :=
  (filter_to_effective_history (get_history history)).countP AgentMessage.is_user_text

theorem not_user_text_of_result {m : AgentMessage} (h : m.is_user_tool_result = true) :
    m.is_user_text = false := by
  rcases hids : m.tool_result_ids with _ | ⟨id, ids⟩
  · rw [is_user_tool_result_of_no_results hids] at h
    cases h
  · rw [AgentMessage.is_user_text, hids]
    exact Bool.and_false _

/-- Merging merges results only. -/
theorem countP_merge_right (h : List AgentMessage) :
    (merge_right h).countP AgentMessage.is_user_text = h.countP AgentMessage.is_user_text := by
  induction h with
  | nil => rfl
  | cons m rest ih =>
      rw [merge_right, List.countP_cons, ← ih]
      rcases merge_right rest with _ | ⟨next, merged⟩
      · rw [List.countP_cons]
      · dsimp only
        by_cases hmerge : (m.is_user_tool_result && next.is_user_tool_result) = true
        · rw [if_pos hmerge, List.countP_cons, List.countP_cons]
          rw [Bool.and_eq_true] at hmerge
          rw [not_user_text_of_result (is_user_tool_result_extend next hmerge.1),
            not_user_text_of_result hmerge.1, not_user_text_of_result hmerge.2]
          rfl
        · rw [if_neg hmerge, List.countP_cons]

theorem user_turns_eq (history : List AgentMessage) :
    user_turns history = ((from_last_compaction (get_history history)).getD
      (get_history history)).countP AgentMessage.is_turn := by
  rw [user_turns, filter_to_effective_history, merge_eq_merge_right, countP_merge_right,
    List.countP_filter]
  rfl

/-- What comes after the last element that a predicate lets not pass. -/
theorem rtakeWhile_append_cons {α : Type} {p : α → Bool} {before after : List α} {a : α}
    (ha : p a = false) (hafter : ∀ b ∈ after, p b = true) :
    (before ++ a :: after).rtakeWhile p = after := by
  have hreverse : ∀ b ∈ after.reverse, p b = true := fun b hb => hafter b (List.mem_reverse.1 hb)
  have hstop : ¬ p a = true := Bool.eq_false_iff.1 ha
  rw [List.rtakeWhile, List.reverse_append, List.reverse_cons, List.append_assoc,
    List.takeWhile_append_of_pos hreverse, List.singleton_append, List.takeWhile_cons_of_neg hstop,
    List.append_nil, List.reverse_reverse]

theorem exists_last_request {h : List AgentMessage}
    (hany : ∃ m ∈ h, m.has_compaction_request = true) :
    ∃ pre request post, h = pre ++ request :: post ∧ request.has_compaction_request = true ∧
      ∀ m ∈ post, m.has_compaction_request = false := by
  induction h with
  | nil =>
      obtain ⟨m, hm, -⟩ := hany
      cases hm
  | cons m rest ih =>
      by_cases hrest : ∃ m ∈ rest, m.has_compaction_request = true
      · obtain ⟨pre, request, post, rfl, hrequest, hpost⟩ := ih hrest
        exact ⟨m :: pre, request, post, rfl, hrequest, hpost⟩
      · obtain ⟨m', hm', hrequest⟩ := hany
        rcases List.mem_cons.1 hm' with rfl | hm'
        · refine ⟨[], m', rest, rfl, hrequest, fun m hm => ?_⟩
          exact Bool.eq_false_iff.2 fun h => hrest ⟨m, hm, h⟩
        · exact absurd ⟨m', hm', hrequest⟩ hrest

/-- The log has the turns of the history, in the order in which they were stored, and the
request of a compaction is one of them. -/
structure Session.Logged (s : Session) : Prop where
  turns : (s.history.map AgentMessage.stamp).filter Stamp.is_turn = s.log.map event_stamp
  requests : ∀ t ∈ s.history.map AgentMessage.stamp, t.is_request = true → t.is_turn = true

section

variable {s : Session}

/-- Reading back puts the log in the same order as the messages. -/
theorem Session.Logged.read (h : s.Logged) :
    ((get_history s.history).filter AgentMessage.is_turn).map AgentMessage.stamp =
      (s.log.insertionSort fun a b => a.2 ≤ b.2).map event_stamp := by
  have hturns : (s.history.filter AgentMessage.is_turn).map AgentMessage.stamp =
      s.log.map event_stamp := by
    rw [← h.turns, List.filter_map]
    rfl
  calc ((get_history s.history).filter AgentMessage.is_turn).map AgentMessage.stamp
      = (get_history (s.history.filter AgentMessage.is_turn)).map AgentMessage.stamp := by
        rw [get_history_filter]
    _ = ((s.history.filter AgentMessage.is_turn).map AgentMessage.stamp).insertionSort
          (fun a b => a.created_at ≤ b.created_at) :=
        List.map_insertionSort _ _ AgentMessage.stamp _ fun _ _ _ _ => Iff.rfl
    _ = (s.log.map event_stamp).insertionSort (fun a b => a.created_at ≤ b.created_at) := by
        rw [hturns]
    _ = (s.log.insertionSort fun a b => a.2 ≤ b.2).map event_stamp :=
        (List.map_insertionSort _ _ event_stamp _ fun _ _ _ _ => Iff.rfl).symm

theorem is_request_event_stamp (e : SessionEvent × ℤ) :
    (event_stamp e).is_request = decide (e.1 = .Compacted) := rfl

/-- **The history shows what the log says.** -/
theorem Session.Logged.user_turns (h : s.Logged) : user_turns s.history = turns_shown s.log := by
  have hread := h.read
  rw [user_turns_eq, turns_shown]
  generalize s.log.insertionSort (fun a b => a.2 ≤ b.2) = ordered at hread ⊢
  by_cases hany : ∃ m ∈ get_history s.history, m.has_compaction_request = true
  · -- both are cut at the last request
    obtain ⟨pre, request, post, heq, hrequest, hpost⟩ := exists_last_request hany
    have hturn : request.is_turn = true := by
      refine h.requests request.stamp (List.mem_map_of_mem ?_) hrequest
      refine (List.mem_insertionSort _).1 (?_ : request ∈ get_history s.history)
      rw [heq]
      exact List.mem_append_right _ List.mem_cons_self
    rw [heq, List.filter_append, List.filter_cons_of_pos hturn, List.map_append, List.map_cons]
      at hread
    obtain ⟨before, rest, rfl, -, hrest⟩ := List.map_eq_append_iff.1 hread.symm
    obtain ⟨e, after, rfl, he, hafter⟩ := List.map_eq_cons_iff.1 hrest
    have hcompacted : e.1 = .Compacted := by
      have := congrArg Stamp.is_request he
      rw [is_request_event_stamp] at this
      exact of_decide_eq_true (this.trans hrequest)
    have hlater : ∀ e' ∈ after, decide (e'.1 ≠ .Compacted) = true := by
      intro e' he'
      have hmem : event_stamp e' ∈ after.map event_stamp := List.mem_map_of_mem he'
      rw [hafter] at hmem
      obtain ⟨m, hm, hstamp⟩ := List.mem_map.1 hmem
      have hnone := hpost m (List.mem_filter.1 hm).1
      rw [decide_eq_true_eq]
      intro heq'
      have hsame := congrArg Stamp.is_request hstamp
      rw [is_request_event_stamp, heq'] at hsame
      exact absurd (hnone.symm.trans hsame) (by decide)
    have hany' : ((before ++ e :: after).any fun e => decide (e.1 = .Compacted)) = true :=
      List.any_eq_true.2 ⟨e, List.mem_append_right _ List.mem_cons_self, decide_eq_true hcompacted⟩
    rw [heq, from_last_compaction_of_last hrequest hpost, Option.getD_some,
      List.countP_cons_of_pos hturn, rtakeWhile_append_cons (by simp [hcompacted]) hlater,
      if_pos hany', List.countP_eq_length_filter, ← List.length_map (f := AgentMessage.stamp),
      ← hafter, List.length_map]
  · have hnone : ∀ m ∈ get_history s.history, m.has_compaction_request = false :=
      fun m hm => Bool.eq_false_iff.2 fun h => hany ⟨m, hm, h⟩
    have hlog : ∀ e ∈ ordered, e.1 ≠ .Compacted := by
      intro e he heq
      have hmem : event_stamp e ∈ ordered.map event_stamp := List.mem_map_of_mem he
      rw [← hread] at hmem
      obtain ⟨m, hm, hstamp⟩ := List.mem_map.1 hmem
      have hsame := congrArg Stamp.is_request hstamp
      rw [is_request_event_stamp, heq] at hsame
      exact absurd ((hnone m (List.mem_filter.1 hm).1).symm.trans hsame) (by decide)
    have hwhole : (ordered.rtakeWhile fun e => decide (e.1 ≠ .Compacted)) = ordered :=
      List.rtakeWhile_eq_self_iff.2 fun e he => decide_eq_true (hlog e he)
    have hany' : ¬ (ordered.any fun e => decide (e.1 = .Compacted)) = true := by
      rw [List.any_eq_true]
      rintro ⟨e, he, heq⟩
      exact hlog e he (of_decide_eq_true heq)
    rw [from_last_compaction_none hnone, Option.getD_none, hwhole, if_neg hany', Nat.add_zero,
      List.countP_eq_length_filter, ← List.length_map (f := AgentMessage.stamp), hread,
      List.length_map]

theorem Session.Logged.append {history history' : List AgentMessage}
    {log : List (SessionEvent × ℤ)} (h : (⟨history, log⟩ : Session).Logged)
    (entries : List (SessionEvent × ℤ)) {more : List Stamp}
    (hhistory : history'.map AgentMessage.stamp = history.map AgentMessage.stamp ++ more)
    (hrequests : ∀ t ∈ more, t.is_request = true → t.is_turn = true)
    (hturns : more.filter Stamp.is_turn = entries.map event_stamp) :
    (⟨history', log ++ entries⟩ : Session).Logged := by
  refine ⟨?_, ?_⟩
  · change (history'.map AgentMessage.stamp).filter Stamp.is_turn = (log ++ entries).map event_stamp
    have hold : (history.map AgentMessage.stamp).filter Stamp.is_turn = log.map event_stamp :=
      h.turns
    rw [hhistory, List.filter_append, hold, hturns, List.map_append]
  · intro t ht
    have ht' : t ∈ history'.map AgentMessage.stamp := ht
    rw [hhistory] at ht'
    rcases List.mem_append.1 ht' with ht' | ht'
    · exact h.requests t ht'
    · exact hrequests t ht'

/-- Messages that are no turns leave the log as it is. -/
theorem Session.Logged.append_quiet {history more : List AgentMessage}
    {log : List (SessionEvent × ℤ)} (h : (⟨history, log⟩ : Session).Logged)
    (hquiet : ∀ x ∈ more, x.is_turn = false ∧ x.has_compaction_request = false) :
    (⟨history ++ more, log⟩ : Session).Logged := by
  have hturns : (more.map AgentMessage.stamp).filter Stamp.is_turn = [] := by
    rw [List.filter_eq_nil_iff]
    intro t ht
    obtain ⟨x, hx, rfl⟩ := List.mem_map.1 ht
    rw [AgentMessage.stamp, (hquiet x hx).1]
    exact Bool.false_ne_true
  have hlog := h.append [] List.map_append ?_ hturns
  · rwa [List.append_nil] at hlog
  · intro t ht hrequest
    obtain ⟨x, hx, rfl⟩ := List.mem_map.1 ht
    exact absurd (hrequest.symm.trans (hquiet x hx).2) (by decide)

/-- The log with the prompt of a turn. -/
theorem Session.Logged.prompted (h : s.Logged) (cfg : Config) (p : UserPrompt) :
    (⟨s.history ++ [prompt_message cfg p], s.log ++ [(.Prompted, p.created_at)]⟩ :
      Session).Logged := by
  refine h.append [(.Prompted, p.created_at)] List.map_append ?_ rfl
  intro t ht
  rw [List.mem_singleton.1 ht]
  exact fun _ => rfl

/-- **A prompt keeps the log.** -/
theorem Session.Logged.step (h : s.Logged) (cfg : Config) (p : UserPrompt) :
    (after_prompt cfg s p).Logged := by
  obtain ⟨more, hhistory, hrequests, hturns⟩ :=
    run_writes (turn_config cfg p) (turn_begin cfg s.history p) p.envs
  rw [turn_begin, start_history, ← turn_begin, ← prompt_turn] at hhistory
  obtain ⟨late, hlate, hquiet⟩ :=
    ensure_pre_turn_snapshot_ready_history cfg p.late_env (prompt_turn cfg s.history p)
  have hturn := (h.prompted cfg p).append _ hhistory hrequests hturns
  rw [after_prompt, hlate, List.append_assoc, ← List.singleton_append, ← List.append_assoc s.log]
  refine hturn.append_quiet fun x hx => ?_
  rcases List.mem_append.1 hx with hx | hx
  · exact (hquiet x hx).2
  · obtain ⟨patch, -, rfl⟩ := Option.map_eq_some_iff.1 (Option.mem_toList.1 hx)
    exact ⟨rfl, rfl⟩

end

/-! ## 4. The first step of a turn -/

/-- The count of the loop is the count of the stored messages. -/
theorem has_tool_result_iff (m : ChatMessage) : m.has_tool_result = !m.tool_result_ids.isEmpty := by
  rw [ChatMessage.has_tool_result, ChatMessage.tool_result_ids]
  induction m.content with
  | nil => rfl
  | cons b blocks ih =>
      rw [List.any_cons, List.filterMap_cons, ih]
      cases b <;> rfl

/-- The turns that the loop counts at the start of a turn. -/
theorem count_turns_reload_history (cfg : Config) (history : List AgentMessage) :
    count_turns (reload_history cfg history) =
      match cfg.get_history with
      | .ok () => user_turns history
      | .error _ => 0 := by
  rw [reload_history]
  rcases cfg.get_history with error | ⟨⟩
  · rfl
  · rw [count_turns, user_turns, List.countP_map]
    refine List.countP_congr fun m _ => ?_
    -- neither the role nor the results of a message depend on the provider it is rendered for
    have htraffic := traffic_to_chat_message m (cfg.llm_config.map Prod.fst)
      (cfg.llm_config.map Prod.snd) cfg.max_prompt_bytes
    have hrole := congrArg Traffic.role htraffic
    have hresults := congrArg Traffic.results htraffic
    dsimp only [ChatMessage.traffic, AgentMessage.traffic] at hrole hresults
    rw [Function.comp_apply, has_tool_result_iff, Bool.not_not, hrole, hresults]
    rfl

theorem initial_context_start (cfg : Config) (history : List AgentMessage)
    (snapshot : Option (String × Option String)) (drivers : List MiddlewareDriver) :
    (start cfg history snapshot drivers).initial_context =
      starting_context cfg history ((cfg.llm_config.map Prod.fst).getD "")
        ((cfg.llm_config.map Prod.snd).getD "") := by
  rw [start]
  dsimp only
  split
  · rfl
  · split <;> rfl

/-- The machine before its first iteration. -/
theorem start_of_turn_start {cfg : Config} {history : List AgentMessage}
    {snapshot : Option (String × Option String)} {drivers : List MiddlewareDriver}
    {s : ExecutionState} (hconfig : cfg.llm_config.isSome = true)
    (hrun : run_phase .TurnStart drivers
      (.BeforeLlmCall (start cfg history snapshot drivers).initial_context) = .ok s) :
    (start cfg history snapshot drivers).outcome = none ∧
      (start cfg history snapshot drivers).state = s ∧
      (start cfg history snapshot drivers).trail = [] ∧
      (start cfg history snapshot drivers).events = [] := by
  have hsome : ¬ cfg.llm_config.isNone = true := by
    rw [Option.isNone_iff_eq_none]
    exact Option.isSome_iff_ne_none.1 hconfig
  rw [initial_context_start] at hrun
  rw [start]
  dsimp only
  rw [if_neg hsome, hrun]
  exact ⟨rfl, rfl, rfl, rfl⟩

/-- **A turn starts from the turns that its log shows.** -/
theorem initial_context_turn_begin (cfg : Config) {s : Session} (h : s.Logged) (p : UserPrompt) :
    (turn_begin cfg s.history p).initial_context.stats = { turns := turns_found s p } := by
  have hcount := count_turns_reload_history (turn_config cfg p)
    (s.history ++ [prompt_message cfg p])
  rw [(h.prompted cfg p).user_turns] at hcount
  rw [turn_begin, initial_context_start, starting_context, hcount]
  rfl

theorem run_phase_letsBegin {drivers : List MiddlewareDriver}
    (hdrivers : ∀ driver ∈ drivers, LetsBegin driver) (context : ConversationContext) :
    ∃ next, run_phase .StepStart drivers (.BeforeLlmCall context) = .ok (.BeforeLlmCall next) ∧
      next.stats = context.stats := by
  induction drivers generalizing context with
  | nil => exact ⟨context, rfl, rfl⟩
  | cons driver drivers ih =>
      obtain ⟨mid, hmid, hstats⟩ := hdrivers driver List.mem_cons_self context
      obtain ⟨next, hnext, hstats'⟩ :=
        ih (fun d hd => hdrivers d (List.mem_cons_of_mem driver hd)) mid
      refine ⟨next, ?_, hstats'.trans hstats⟩
      rw [run_phase, hmid]
      exact hnext

/-- The middleware before the limit hand it the statistics they got. -/
theorem run_phase_before {before : List MiddlewareDriver} (rest : List MiddlewareDriver)
    (hbefore : ∀ driver ∈ before, LetsBegin driver) (context : ConversationContext) :
    ∃ next : ConversationContext, next.stats = context.stats ∧
      run_phase .StepStart (before ++ rest) (.BeforeLlmCall context) =
        run_phase .StepStart rest (.BeforeLlmCall next) := by
  induction before generalizing context with
  | nil => exact ⟨context, rfl, rfl⟩
  | cons driver before ih =>
      obtain ⟨mid, hmid, hstats⟩ := hbefore driver List.mem_cons_self context
      obtain ⟨next, hstats', hnext⟩ :=
        ih (fun d hd => hbefore d (List.mem_cons_of_mem driver hd)) mid
      refine ⟨next, hstats'.trans hstats, ?_⟩
      rw [List.cons_append, run_phase, hmid]
      exact hnext

theorem LimitsMiddleware.driver_of_fresh {l : LimitsMiddleware} {n : ℕ}
    (hmax : l.max_turns = some n) (hsteps : ∀ max_steps ∈ l.max_steps, 0 < max_steps)
    {context : ConversationContext} (hfresh : context.stats = { turns := context.stats.turns })
    (hprice : l.price_exceeded context = none) :
    l.driver .StepStart (.BeforeLlmCall context) =
      if n ≤ context.stats.turns then
        .ok (.Stopped ("Turn limit (" ++ toString n ++ ") reached") .TurnLimit (some context))
      else .ok (.BeforeLlmCall context) := by
  have hzero : context.stats.steps = 0 := by rw [hfresh]
  have hnone : (l.max_steps.filter fun max_steps => max_steps ≤ context.stats.steps) = none := by
    rw [Option.filter_eq_none_iff]
    intro k hk hle
    have hpos := hsteps k hk
    rw [hzero, decide_eq_true_eq] at hle
    omega
  rw [LimitsMiddleware.driver, hnone, hmax]
  dsimp only
  by_cases hover : n ≤ context.stats.turns
  · rw [if_pos hover, Option.filter_some_pos (by simpa using hover)]
  · rw [if_neg hover, Option.filter_some_neg (by simpa using hover)]
    dsimp only
    rw [hprice]

theorem calls_le_run (cfg : Config) (m : Machine) (envs : List Env) :
    calls m.trail ≤ calls (run (iterate cfg) m envs).trail := by
  induction envs generalizing m with
  | nil => exact le_refl _
  | cons env envs ih => exact (calls_le_iterate cfg m env).trans (ih (iterate cfg m env))

theorem run_of_over {cfg : Config} {m : Machine} (hover : m.outcome.isSome = true)
    (envs : List Env) : run (iterate cfg) m envs = m := by
  induction envs with
  | nil => rfl
  | cons env envs ih =>
      rw [run_cons, iterate_of_over hover]
      exact ih

section

variable {cfg : Config} {m : Machine} {env : Env} {context : ConversationContext}

/-- The first iteration, when the middleware stop the turn. -/
theorem iterate_stopped {message : String} {stop_type : StopType}
    {context' : Option ConversationContext} (hout : m.outcome = none)
    (hstate : m.state = .BeforeLlmCall context) (htop : env.cancelled_at_top = false)
    (hrun : run_phase .StepStart env.drivers (.BeforeLlmCall context) =
      .ok (.Stopped message stop_type context')) :
    iterate cfg m env = m.goto (.Stopped message stop_type context') := by
  simp only [iterate, hout, htop, hstate, with_middleware, hrun]
  rfl

/-- The first iteration, when they let it begin. -/
theorem iterate_begins {next : ConversationContext} {tools : List String}
    (hout : m.outcome = none) (hstate : m.state = .BeforeLlmCall context)
    (htop : env.cancelled_at_top = false) (hlive : env.cancelled = false)
    (htools : env.tools = .ok tools)
    (hrun : run_phase .StepStart env.drivers (.BeforeLlmCall context) =
      .ok (.BeforeLlmCall next)) :
    iterate cfg m env = m.goto (.CallLlm next tools) := by
  simp only [iterate, hout, htop, hstate, with_middleware, hrun, transition_before_llm_call, hlive,
    htools]
  rfl

/-- A turn that is stopped for the turn limit is over after the next iteration. -/
theorem turn_limited_of_stopped {message : String} {context : Option ConversationContext}
    (hout : m.outcome = none) (htrail : m.trail = [])
    (hstate : m.state = .Stopped message .TurnLimit context)
    (htop : env.cancelled_at_top = false) (envs : List Env) :
    (run (iterate cfg) (iterate cfg m env) envs).turn_limited = true := by
  have hstep : iterate cfg m env =
      (m.emit_event (.MiddlewareStopped .TurnLimit message
        ((context.map ConversationContext.stats).getD {}).steps
        ((context.map ConversationContext.stats).getD {}).turns)).return_ok
        (.Stopped .MaxTurnRequests) := by
    simp only [iterate, hout, htop, hstate]
    rfl
  have hover : (iterate cfg m env).outcome.isSome = true := by
    rw [hstep]
    rfl
  rw [run_of_over hover, hstep, Machine.turn_limited]
  simp [Machine.return_ok, Machine.emit_event, Machine.reaches_call, htrail, calls,
    AgentEventKind.is_turn_limit]

/-- A turn that has come to the call makes it in the next iteration. -/
theorem reaches_call_of_call {tools : List String} (hout : m.outcome = none)
    (hstate : m.state = .CallLlm context tools) (htop : env.cancelled_at_top = false)
    (hlive : env.cancelled = false) (envs : List Env) :
    (run (iterate cfg) (iterate cfg m env) envs).reaches_call = true := by
  have hcall : calls_llm m env = true := by
    rw [calls_llm, hout, htop, hstate, hlive]
    rfl
  obtain ⟨context', hcalled⟩ := trail_of_calls_llm cfg hcall
  have hpos : 0 < calls (iterate cfg m env).trail := by
    rw [hcalled, calls, List.countP_append]
    exact Nat.succ_pos _
  exact decide_eq_true (hpos.trans_le (calls_le_run cfg _ envs))

end

/-- **What the limit does to an undisturbed turn**: it is stopped without a call when
its log shows `n` turns, and calls the model when it shows fewer. -/
theorem prompt_turn_of_undisturbed {l : LimitsMiddleware} {n : ℕ} (hmax : l.max_turns = some n)
    {cfg : Config} {s : Session} (hlogged : s.Logged) {p : UserPrompt}
    (h : Undisturbed l cfg s.history p) :
    ((prompt_turn cfg s.history p).reaches_call = true ↔ turns_found s p < n) ∧
      (n ≤ turns_found s p → (prompt_turn cfg s.history p).turn_limited = true) := by
  obtain ⟨context, hstart, hstats⟩ := h.turn_start
  obtain ⟨first, second, rest, henvs, htop, hlive, ⟨tools, htools⟩, htop', hlive', before, after,
    hdrivers, hpass⟩ := h.iterations
  rw [initial_context_turn_begin cfg hlogged] at hstats
  obtain ⟨hout, hstate, htrail, -⟩ :=
    @start_of_turn_start (turn_config cfg p) _ _ _ _ h.llm_config hstart
  rw [← turn_begin] at hout hstate htrail
  -- what the limit is asked about
  obtain ⟨asked, hasked, hphase⟩ := run_phase_before (l.driver :: after)
    (fun d hd => hpass d (List.mem_append_left _ hd)) context
  have hfresh : asked.stats = { turns := asked.stats.turns } := by rw [hasked, hstats]
  have hturns : asked.stats.turns = turns_found s p := by
    rw [hasked, hstats]
  have hdriver := LimitsMiddleware.driver_of_fresh hmax h.steps hfresh (h.price asked hfresh)
  rw [run_phase, hdriver, hturns] at hphase
  have hrunning : ¬ (turn_begin cfg s.history p).outcome.isSome = true := by
    rw [hout]
    exact Bool.false_ne_true
  rw [prompt_turn, henvs, run_cons, run_cons]
  by_cases hover : n ≤ turns_found s p
  · rw [if_pos hover, ← hdrivers] at hphase
    rw [iterate_stopped hout hstate htop hphase]
    have hlimited := @turn_limited_of_stopped (turn_config cfg p) ((turn_begin cfg s.history p).goto
      (.Stopped ("Turn limit (" ++ toString n ++ ") reached") .TurnLimit (some asked))) second
      _ _ hout htrail rfl htop' rest
    refine ⟨?_, fun _ => hlimited⟩
    rw [Machine.turn_limited, Bool.and_eq_true, Bool.not_eq_true'] at hlimited
    rw [hlimited.2]
    exact ⟨fun h => (by cases h), fun h => absurd hover (Nat.not_le.2 h)⟩
  · rw [if_neg hover] at hphase
    obtain ⟨next, hnext, -⟩ := run_phase_letsBegin
      (fun d hd => hpass d (List.mem_append_right _ hd)) asked
    have hbegins : run_phase .StepStart first.drivers (.BeforeLlmCall context) =
        .ok (.BeforeLlmCall next) := by
      rw [hdrivers, hphase]
      exact hnext
    rw [iterate_begins hout hstate htop hlive htools hbegins]
    have hreaches := @reaches_call_of_call (turn_config cfg p)
      ((turn_begin cfg s.history p).goto (.CallLlm next tools)) second _ _ hout rfl htop' hlive'
      rest
    exact ⟨⟨fun _ => Nat.lt_of_not_le hover, fun _ => hreaches⟩, fun h => absurd h hover⟩

/-! ## 5. Every session -/

theorem logged_new : Session.new.Logged := ⟨rfl, fun _ ht => by cases ht⟩

theorem prompts_after_prompt {cfg : Config} {s : Session} {p : UserPrompt}
    (h : OnlyPrompts cfg s p) :
    (after_prompt cfg s p).log = s.log ++ [(.Prompted, p.created_at)] := by
  rw [after_prompt, h.2]

/-- A log of prompts shows them all. -/
theorem turns_shown_of_prompts {log : List (SessionEvent × ℤ)}
    (h : ∀ e ∈ log, e.1 = .Prompted) : turns_shown log = log.length := by
  have hordered : ∀ e ∈ log.insertionSort fun a b => a.2 ≤ b.2, e.1 = .Prompted :=
    fun e he => h e ((List.mem_insertionSort _).1 he)
  rw [turns_shown]
  have hnone : ¬ ((log.insertionSort fun a b => a.2 ≤ b.2).any
      fun e => decide (e.1 = .Compacted)) = true := by
    rw [List.any_eq_true]
    rintro ⟨e, he, heq⟩
    rw [hordered e he] at heq
    cases heq
  have hwhole : ((log.insertionSort fun a b => a.2 ≤ b.2).rtakeWhile
      fun e => decide (e.1 ≠ .Compacted)) = log.insertionSort fun a b => a.2 ≤ b.2 := by
    refine List.rtakeWhile_eq_self_iff.2 fun e he => ?_
    rw [hordered e he]
    rfl
  rw [hwhole, if_neg hnone, Nat.add_zero, List.length_insertionSort]

/-- In a session of nothing but prompts each finds one turn more than prompts came before:
the limit is missed by the prompt whose number it is. -/
theorem turnsVisible_of_onlyPrompts (cfg : Config) (n : ℕ) {s : Session}
    (hlog : ∀ e ∈ s.log, e.1 = .Prompted) (hbelow : s.prompts < n) {prompts : List UserPrompt}
    (h : Along (after_prompt cfg) (OnlyPrompts cfg) s prompts) :
    Along (after_prompt cfg) (TurnsVisible n) s prompts ↔ s.prompts + prompts.length < n := by
  have hprompts : ∀ {s : Session}, (∀ e ∈ s.log, e.1 = .Prompted) → s.prompts = s.log.length := by
    intro s hlog
    exact List.countP_eq_length.2 fun e he => decide_eq_true (hlog e he)
  -- on the prompts; the limit is not reached yet
  induction prompts generalizing s with
  | nil => exact ⟨fun _ => hbelow, fun _ => trivial⟩
  | cons p prompts ih =>
      obtain ⟨hp, hrest⟩ := h
      have hnext : ∀ e ∈ (after_prompt cfg s p).log, e.1 = .Prompted := by
        intro e he
        rw [prompts_after_prompt hp] at he
        rcases List.mem_append.1 he with he | he
        · exact hlog e he
        · rw [List.mem_singleton.1 he]
      have hcount : (after_prompt cfg s p).prompts = s.prompts + 1 := by
        rw [hprompts hnext, hprompts hlog, prompts_after_prompt hp, List.length_append,
          List.length_singleton]
      have hfound : turns_found s p = s.prompts + 1 := by
        rw [turns_found, hp.1]
        dsimp only
        rw [← prompts_after_prompt hp, turns_shown_of_prompts hnext, ← hprompts hnext, hcount]
      rw [along_cons, TurnsVisible, hfound, List.length_cons]
      by_cases hlt : s.prompts + 1 < n
      · have hih := ih hnext (by rwa [hcount]) hrest
        rw [hcount] at hih
        constructor
        · rintro ⟨-, h⟩
          have := hih.1 h
          omega
        · intro h
          exact ⟨⟨fun _ => hbelow, fun _ => hlt⟩, hih.2 (by omega)⟩
      · constructor
        · exact fun h => absurd (h.1.2 hbelow) hlt
        · intro h
          omega

/-- **When the turn limit is exact**: over any sequence of undisturbed prompts, exactly
when at every prompt the log shows fewer than `n` turns as long as fewer than `n` prompts
came before, and `n` of them afterwards. Where the session has nothing but prompts, that
is when there are fewer than `n` of them. -/
theorem turn_limit_exact_iff (l : LimitsMiddleware) (n : ℕ) (hmax : l.max_turns = some n)
    (cfg : Config) (prompts : List UserPrompt)
    (h : Along (after_prompt cfg) (fun s p => Undisturbed l cfg s.history p) .new prompts) :
    (Along (after_prompt cfg) (TurnExact cfg n) .new prompts ↔
      Along (after_prompt cfg) (TurnsVisible n) .new prompts) ∧
    (0 < n → Along (after_prompt cfg) (OnlyPrompts cfg) .new prompts →
      (Along (after_prompt cfg) (TurnExact cfg n) .new prompts ↔ prompts.length < n)) := by
  have hexact : Along (after_prompt cfg) (TurnExact cfg n) .new prompts ↔
      Along (after_prompt cfg) (TurnsVisible n) .new prompts := by
    have halong : Along (after_prompt cfg)
        (fun s p => s.Logged ∧ Undisturbed l cfg s.history p) .new prompts :=
      along_of_invariant h (fun s p hs _ => hs.step cfg p) (fun s p hs hp => ⟨hs, hp⟩) logged_new
    refine halong.congr fun s p hsp => ?_
    obtain ⟨hlogged, hp⟩ := hsp
    obtain ⟨hreaches, hlimited⟩ := prompt_turn_of_undisturbed hmax hlogged hp
    rw [TurnExact, TurnsVisible, hreaches]
    refine ⟨fun hexact => hexact.1, fun hvisible => ⟨hvisible, fun hlate => ?_⟩⟩
    refine hlimited (Nat.le_of_not_lt fun hlt => ?_)
    exact absurd (hvisible.1 hlt) (Nat.not_lt.2 hlate)
  refine ⟨hexact, fun hpos honly => ?_⟩
  have hvisible :=
    turnsVisible_of_onlyPrompts cfg n (s := .new) (fun _ he => by cases he) hpos honly
  rw [hexact, hvisible]
  change 0 + prompts.length < n ↔ _
  rw [Nat.zero_add]

def max_turns (n : ℕ) : LimitsMiddleware where
  max_steps := none
  max_turns := some n
  price_exceeded := fun _ => none

/-- A prompt that the model answers, or would. -/
def answered_prompt (n : ℕ) : UserPrompt where
  message_id := "prompt"
  render_prompt_for_llm := fun _ => "Fix the build."
  created_at := 0
  get_history := .ok ()
  pre_turn_snapshot_task := none
  turn_start := []
  envs :=
    [{ quiet_env .Cancelled with drivers := [(max_turns n).driver] },
     quiet_env (.Response ends_turn), quiet_env .Cancelled, quiet_env .Cancelled]
  late_env := quiet_env .Cancelled
  patch := none

/-- With a limit of one turn, the first prompt is stopped. -/
theorem first_turn_stopped :
    ¬ Along (after_prompt plain_config) (TurnExact plain_config 1) .new [answered_prompt 1] := by
  decide

/-- With a limit of two, it is answered. -/
theorem first_turn_of_two :
    (prompt_turn plain_config [] (answered_prompt 2)).outcome = some (.ok .Completed) ∧
      Along (after_prompt plain_config) (TurnExact plain_config 2) .new [answered_prompt 2] := by
  have hundisturbed : Along (after_prompt plain_config)
      (fun s p => Undisturbed (max_turns 2) plain_config s.history p) .new [answered_prompt 2] := by
    refine ⟨⟨rfl, ⟨_, rfl, rfl⟩, fun k hk => (by cases hk), fun _ _ => rfl, ?_⟩, trivial⟩
    exact ⟨_, _, _, rfl, rfl, rfl, ⟨_, rfl⟩, rfl, rfl, [], [], rfl, fun _ hd => by cases hd⟩
  obtain ⟨-, hprompts⟩ :=
    turn_limit_exact_iff (max_turns 2) 2 rfl plain_config [answered_prompt 2] hundisturbed
  exact ⟨rfl, (hprompts (by decide) ⟨⟨rfl, rfl⟩, trivial⟩).2 (by decide)⟩

end Querymt.Agent
