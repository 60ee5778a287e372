/-
`Export/Turns.lean` -- turns from an event stream (`export/turns.rs`).

The exporter takes a turn to be the span from an `LlmRequestStart` to the next
`LlmRequestEnd`, and collects the assistant's text, its thinking and the tool calls
from that span. The agent loop closes the span before it stores the message and
before it runs a tool. The file defines what an exported turn should hold, the span
from one request to the next, and proves of every stream the loop can emit exactly
when the exporter finds it.

Costs are floating point and only copied; they are left out.
-/
import Querymt.Agent.Machine

set_option autoImplicit false

namespace Querymt.Export

open Querymt.Agent (Usage FinishReason)

/-! ## 1. Events and turns -/

/-- The events the exporter looks at; `Other` is every event it passes over. -/
inductive AgentEventKind where
  | ProviderChanged (provider model : String)
  | MiddlewareInjected (message : String)
  | ToolsAvailable (tools : List String)
  | PromptReceived (content : String)
  | UserMessageStored (content : String)
  | LlmRequestStart
  | LlmRequestEnd (usage : Option Usage) (finish_reason : Option FinishReason)
  | AssistantMessageStored (content : String) (thinking : Option String)
  | ToolCallStart (tool_call_id tool_name arguments : String)
  | ToolCallEnd (tool_call_id tool_name : String) (is_error : Bool) (result : String)
  | DelegationCompleted (delegation_id : String) (result : Option String)
  | Other

structure AgentEvent where
  timestamp : ℤ
  kind : AgentEventKind

structure TurnToolCall where
  id : String
  name : String
  arguments : String
  deriving DecidableEq

structure TurnToolResult where
  call_id : String
  name : String
  content : String
  is_error : Bool
  deriving DecidableEq

structure TurnDelegation where
  delegation_id : String
  result : Option String

structure Turn where
  user_content : Option String
  assistant_content : String
  thinking : Option String
  tool_calls : List TurnToolCall
  tool_results : List TurnToolResult
  delegations : List TurnDelegation
  model : Option String
  provider : Option String
  usage : Option Usage
  finish_reason : Option FinishReason
  timestamp : ℤ

structure SessionMeta where
  system_prompts : List String := []
  initial_model : Option String := none
  initial_provider : Option String := none
  tool_definitions : Option (List String) := none

namespace AgentEventKind

def is_llm_request_start : AgentEventKind → Bool
  | .LlmRequestStart => true
  | _ => false

def is_llm_request_end : AgentEventKind → Bool
  | .LlmRequestEnd _ _ => true
  | _ => false

end AgentEventKind

/-! ## 2. The exporter -/

/-- What `extract_turn` collects from a span. -/
structure Collected where
  assistant_content : String := ""
  thinking : Option String := none
  tool_calls : List TurnToolCall := []
  tool_results : List TurnToolResult := []
  delegations : List TurnDelegation := []

/-- One iteration of the loop of `extract_turn`. -/
def Collected.add (c : Collected) : AgentEventKind → Collected
  | .AssistantMessageStored content think =>
      { c with
        assistant_content :=
          if content.isEmpty then c.assistant_content else c.assistant_content ++ content
        thinking := think.orElse fun _ => c.thinking }
  | .ToolCallStart tool_call_id tool_name arguments =>
      { c with tool_calls := c.tool_calls ++ [⟨tool_call_id, tool_name, arguments⟩] }
  | .ToolCallEnd tool_call_id tool_name is_error result =>
      { c with tool_results := c.tool_results ++ [⟨tool_call_id, tool_name, result, is_error⟩] }
  | .DelegationCompleted delegation_id result =>
      { c with delegations := c.delegations ++ [⟨delegation_id, result⟩] }
  | _ => c

def collect (span : List AgentEventKind) : Collected := span.foldl Collected.add {}

/-- `extract_turn`; the span ends in `end_event`. -/
def extract_turn (span : List AgentEvent) (end_event : AgentEvent)
    (user_content model provider : Option String) : Turn :=
  let c := collect (span.map AgentEvent.kind)
  let (usage, finish_reason) :=
    match end_event.kind with
    | .LlmRequestEnd usage finish_reason => (usage, finish_reason)
    | _ => (none, none)
  { user_content := user_content
    assistant_content := c.assistant_content
    thinking := c.thinking
    tool_calls := c.tool_calls
    tool_results := c.tool_results
    delegations := c.delegations
    model := model
    provider := provider
    usage := usage
    finish_reason := finish_reason
    timestamp := end_event.timestamp }

/-- `find_llm_request_end`, among the events after the start. -/
def find_llm_request_end (rest : List AgentEvent) : Option ℕ :=
  rest.findIdx? fun event => event.kind.is_llm_request_end

/-- The state of the loop of `materialize_turns`; `skip` events lie before the index
the loop goes on from. -/
structure Tracking where
  turns : List Turn := []
  session_meta : SessionMeta := {}
  current_model : Option String := none
  current_provider : Option String := none
  pending_user_content : Option String := none
  skip : ℕ := 0

/-- One event of the loop, with the events after it. -/
def Tracking.see (t : Tracking) (event : AgentEvent) (rest : List AgentEvent) : Tracking :=
  match event.kind with
  | .ProviderChanged provider model =>
      { t with
        session_meta :=
          if t.session_meta.initial_model.isNone then
            { t.session_meta with initial_model := some model, initial_provider := some provider }
          else t.session_meta
        current_model := some model
        current_provider := some provider }
  | .MiddlewareInjected message =>
      { t with session_meta :=
          { t.session_meta with system_prompts := t.session_meta.system_prompts ++ [message] } }
  | .ToolsAvailable tools =>
      if t.session_meta.tool_definitions.isNone then
        { t with session_meta := { t.session_meta with tool_definitions := some tools } }
      else t
  | .PromptReceived content | .UserMessageStored content =>
      { t with pending_user_content := some content }
  | .LlmRequestStart =>
      match find_llm_request_end rest with
      | none => t
      | some offset =>
          { t with
            turns := t.turns ++ [extract_turn (event :: rest.take (offset + 1))
              (rest.getD offset event) t.pending_user_content t.current_model t.current_provider]
            pending_user_content := none
            skip := offset + 1 }
  | _ => t

def Tracking.loop (t : Tracking) : List AgentEvent → Tracking
  | [] => t
  | event :: rest =>
      if 0 < t.skip then Tracking.loop { t with skip := t.skip - 1 } rest
      else Tracking.loop (t.see event rest) rest

/-- `materialize_turns`. -/
def materialize_turns (events : List AgentEvent) : List Turn × SessionMeta :=
  let t := Tracking.loop {} events
  (t.turns, t.session_meta)

/-! ## 3. The conversation -/

/-- What a turn says of the conversation. -/
structure Exchange where
  user_content : Option String
  assistant_content : String
  thinking : Option String
  tool_calls : List TurnToolCall
  tool_results : List TurnToolResult
  deriving DecidableEq

def Turn.exchange (t : Turn) : Exchange :=
  ⟨t.user_content, t.assistant_content, t.thinking, t.tool_calls, t.tool_results⟩

/-- The exchange a span shows. -/
def exchange (user_content : Option String) (span : List AgentEventKind) : Exchange :=
  let c := collect span
  ⟨user_content, c.assistant_content, c.thinking, c.tool_calls, c.tool_results⟩

/-- The user content an event brings. -/
def AgentEventKind.user_content : AgentEventKind → Option String
  | .PromptReceived content => some content
  | .UserMessageStored content => some content
  | _ => none

/-- **The conversation of a stream**: one exchange for each completed request, from what
was stored and run before the next request, with the user content that came since the
last completed one (`user`). -/
def conversation (user : Option String) : List AgentEventKind → List Exchange
  | [] => []
  | e :: rest =>
      if e.is_llm_request_start then
        let span := rest.takeWhile fun e => !e.is_llm_request_start
        if span.any AgentEventKind.is_llm_request_end then
          exchange user span :: conversation none rest
        else conversation user rest
      else conversation (e.user_content.orElse fun _ => user) rest

/-- **The law**: the exported turns are the conversation. -/
def ExportsConversation (events : List AgentEvent) : Prop :=
  (materialize_turns events).1.map Turn.exchange = conversation none (events.map AgentEvent.kind)

/-! ## 4. The condition -/

/-- The event adds nothing to a turn. -/
def AgentEventKind.says_nothing : AgentEventKind → Bool
  | .AssistantMessageStored content thinking => content.isEmpty && thinking.isNone
  | .ToolCallStart _ _ _ => false
  | .ToolCallEnd _ _ _ _ => false
  | _ => true

/-- When a request completes, the pending user content is the one that was pending when
the first request that has not completed since was started (`started`). -/
def PromptsKept (started : Option (Option String)) (user : Option String) :
    List AgentEventKind → Prop
  | [] => True
  | e :: rest =>
      if e.is_llm_request_start then
        PromptsKept (some (started.getD user)) user rest
      else if e.is_llm_request_end then
        started.getD user = user ∧ PromptsKept none none rest
      else PromptsKept started (e.user_content.orElse fun _ => user) rest

/-- **The condition**: no message with text or thinking is stored, no tool is called,
and no other prompt comes between a request that failed and the next one that
completes. -/
def Hollow (events : List AgentEventKind) : Prop :=
  (∀ e ∈ events, e.says_nothing = true) ∧ PromptsKept none none events

instance (events : List AgentEvent) : Decidable (ExportsConversation events) :=
  inferInstanceAs (Decidable ((materialize_turns events).1.map Turn.exchange =
    conversation none (events.map AgentEvent.kind)))

instance PromptsKept.decidable (started : Option (Option String)) (user : Option String) :
    ∀ events : List AgentEventKind, Decidable (PromptsKept started user events)
  | [] => inferInstanceAs (Decidable True)
  | e :: rest =>
      have := PromptsKept.decidable (some (started.getD user)) user rest
      have := PromptsKept.decidable none none rest
      have := PromptsKept.decidable started (e.user_content.orElse fun _ => user) rest
      inferInstanceAs (Decidable (if e.is_llm_request_start then
          PromptsKept (some (started.getD user)) user rest
        else if e.is_llm_request_end then
          started.getD user = user ∧ PromptsKept none none rest
        else PromptsKept started (e.user_content.orElse fun _ => user) rest))

instance (events : List AgentEventKind) : Decidable (Hollow events) :=
  inferInstanceAs (Decidable
    ((∀ e ∈ events, e.says_nothing = true) ∧ PromptsKept none none events))

/-! ## 5. Streams

What the agent loop can emit: a request is open from its start to its end or to the
next prompt, and messages are stored and tools run only after a completed one. -/

/-- Where a stream stands: before any request, in a request, past a request that did
not complete, past a completed one. -/
inductive Phase where
  | Idle
  | Open
  | Failed
  | Closed
  deriving DecidableEq

/-- The phase after an event; `none` for an event that cannot come here. -/
def Phase.advance (phase : Phase) : AgentEventKind → Option Phase
  | .LlmRequestStart => some .Open
  | .LlmRequestEnd _ _ => if phase = .Open then some .Closed else none
  | .AssistantMessageStored _ _ | .ToolCallStart _ _ _ | .ToolCallEnd _ _ _ _ =>
      if phase = .Closed then some .Closed else none
  | .PromptReceived _ | .UserMessageStored _ =>
      if phase = .Open then some .Failed else some phase
  | .ProviderChanged _ _ | .MiddlewareInjected _ | .ToolsAvailable _ | .DelegationCompleted _ _
  | .Other => some phase

/-- The phase after a stream, if it can be emitted. -/
def Phase.after : Phase → List AgentEventKind → Option Phase
  | phase, [] => some phase
  | phase, e :: rest => (phase.advance e).bind fun phase => phase.after rest

/-- The stream can be emitted from this phase. -/
def Phase.Emits (phase : Phase) (events : List AgentEventKind) : Prop :=
  (phase.after events).isSome = true

theorem Phase.emits_cons {phase : Phase} {e : AgentEventKind} {rest : List AgentEventKind} :
    phase.Emits (e :: rest) ↔ ∃ phase', phase.advance e = some phase' ∧ phase'.Emits rest := by
  unfold Phase.Emits
  rw [Phase.after]
  cases phase.advance e <;> simp

/-! ## 6. What a span collects -/

/-- Nothing of the conversation was collected. -/
def Collected.Empty (c : Collected) : Prop :=
  c.assistant_content = "" ∧ c.thinking = none ∧ c.tool_calls = [] ∧ c.tool_results = []

theorem Collected.empty_add (c : Collected) (e : AgentEventKind) :
    (c.add e).Empty ↔ c.Empty ∧ e.says_nothing = true := by
  cases e with
  | AssistantMessageStored content thinking =>
      have htext : (if content.isEmpty then c.assistant_content
          else c.assistant_content ++ content) = "" ↔
          c.assistant_content = "" ∧ content.isEmpty = true := by
        split
        · next hempty => simp [hempty]
        · next hempty =>
            rw [String.append_eq_empty_iff]
            simp [String.isEmpty_iff]
      have hthink : (thinking.orElse fun _ => c.thinking) = none ↔
          c.thinking = none ∧ thinking.isNone = true := by
        cases thinking <;> simp
      simp only [Collected.add, Collected.Empty, AgentEventKind.says_nothing, Bool.and_eq_true,
        htext, hthink]
      tauto
  | _ => simp [Collected.add, Collected.Empty, AgentEventKind.says_nothing]

theorem Collected.empty_foldl (c : Collected) (span : List AgentEventKind) :
    (span.foldl Collected.add c).Empty ↔ c.Empty ∧ ∀ e ∈ span, e.says_nothing = true := by
  induction span generalizing c with
  | nil => simp
  | cons e span ih =>
      rw [List.foldl_cons, ih, Collected.empty_add]
      simp [and_assoc]

theorem collect_empty_iff (span : List AgentEventKind) :
    (collect span).Empty ↔ ∀ e ∈ span, e.says_nothing = true := by
  unfold collect
  rw [Collected.empty_foldl]
  simp [Collected.Empty]

/-- A span that says nothing shows an exchange with the user content only. -/
theorem exchange_eq_iff {u u' : Option String} {span span' : List AgentEventKind}
    (h : ∀ e ∈ span, e.says_nothing = true) :
    exchange u span = exchange u' span' ↔ u = u' ∧ ∀ e ∈ span', e.says_nothing = true := by
  obtain ⟨htext, hthink, hcalls, hresults⟩ := (collect_empty_iff span).2 h
  rw [← collect_empty_iff span']
  simp only [exchange, Exchange.mk.injEq, htext, hthink, hcalls, hresults, Collected.Empty]
  simp only [eq_comm]

/-- What does not say anything can be cut off the front of a span. -/
theorem exchange_append (user : Option String) {pre : List AgentEventKind}
    (h : ∀ e ∈ pre, e.says_nothing = true) (span : List AgentEventKind) :
    exchange user (pre ++ span) = exchange user span := by
  -- the four fields after an event depend on the four fields before it
  have hcongr : ∀ (span : List AgentEventKind) (c c' : Collected),
      c.assistant_content = c'.assistant_content → c.thinking = c'.thinking →
      c.tool_calls = c'.tool_calls → c.tool_results = c'.tool_results →
      let d := span.foldl Collected.add c
      let d' := span.foldl Collected.add c'
      d.assistant_content = d'.assistant_content ∧ d.thinking = d'.thinking ∧
        d.tool_calls = d'.tool_calls ∧ d.tool_results = d'.tool_results := by
    intro span
    induction span with
    | nil => exact fun c c' h1 h2 h3 h4 => ⟨h1, h2, h3, h4⟩
    | cons e span ih =>
        intro c c' h1 h2 h3 h4
        rw [List.foldl_cons, List.foldl_cons]
        apply ih
        all_goals cases e <;> simp [Collected.add, h1, h2, h3, h4]
  obtain ⟨htext, hthink, hcalls, hresults⟩ := (collect_empty_iff pre).2 h
  obtain ⟨h1, h2, h3, h4⟩ := hcongr span (collect pre) {} htext hthink hcalls hresults
  unfold exchange collect
  rw [List.foldl_append, Exchange.mk.injEq]
  exact ⟨rfl, h1, h2, h3, h4⟩

/-! ## 7. The exporter, seen from the conversation -/

/-- The exchanges of the exported turns, from an index `skip` events ahead. -/
def exported (user : Option String) : ℕ → List AgentEventKind → List Exchange
  | _, [] => []
  | skip + 1, _ :: rest => exported user skip rest
  | 0, e :: rest =>
      if e.is_llm_request_start then
        match rest.findIdx? AgentEventKind.is_llm_request_end with
        | none => exported user 0 rest
        | some offset =>
            exchange user (e :: rest.take (offset + 1)) :: exported none (offset + 1) rest
      else exported (e.user_content.orElse fun _ => user) 0 rest

theorem exported_start (user : Option String) (rest : List AgentEventKind) :
    exported user 0 (.LlmRequestStart :: rest) =
      match rest.findIdx? AgentEventKind.is_llm_request_end with
      | none => exported user 0 rest
      | some offset =>
          exchange user (.LlmRequestStart :: rest.take (offset + 1)) ::
            exported none (offset + 1) rest := by
  have hstart : AgentEventKind.LlmRequestStart.is_llm_request_start = true := rfl
  rw [exported, if_pos hstart]

theorem exchange_extract_turn (span : List AgentEvent) (end_event : AgentEvent)
    (user model provider : Option String) :
    (extract_turn span end_event user model provider).exchange =
      exchange user (span.map AgentEvent.kind) := rfl

/-- An event that starts no request leaves the turns and the index alone. -/
theorem see_of_not_start (t : Tracking) (event : AgentEvent) (rest : List AgentEvent)
    (h : event.kind.is_llm_request_start = false) :
    (t.see event rest).turns = t.turns ∧ (t.see event rest).skip = t.skip ∧
      (t.see event rest).pending_user_content =
        event.kind.user_content.orElse fun _ => t.pending_user_content := by
  unfold Tracking.see
  cases hkind : event.kind with
  | LlmRequestStart =>
      rw [hkind] at h
      cases h
  | ToolsAvailable tools =>
      dsimp only
      split <;> exact ⟨rfl, rfl, rfl⟩
  | _ => exact ⟨rfl, rfl, rfl⟩

theorem exchanges_loop (t : Tracking) (events : List AgentEvent) :
    (t.loop events).turns.map Turn.exchange = t.turns.map Turn.exchange ++
      exported t.pending_user_content t.skip (events.map AgentEvent.kind) := by
  induction events generalizing t with
  | nil => simp [Tracking.loop, exported]
  | cons event rest ih =>
      rw [Tracking.loop, List.map_cons]
      cases hskip : t.skip with
      | succ skip =>
          rw [if_pos (by omega), ih]
          simp [exported]
      | zero =>
          rw [if_neg (by omega), ih]
          by_cases hstart : event.kind.is_llm_request_start = true
          · have hkind : event.kind = .LlmRequestStart := by
              cases h : event.kind <;> rw [h] at hstart <;> first | rfl | cases hstart
            have hfind : find_llm_request_end rest =
                (rest.map AgentEvent.kind).findIdx? AgentEventKind.is_llm_request_end := by
              unfold find_llm_request_end
              rw [List.findIdx?_map]
              rfl
            rw [hkind, exported_start, ← hfind]
            unfold Tracking.see
            rw [hkind]
            cases hend : find_llm_request_end rest with
            | none => simp [hskip]
            | some offset => simp [exchange_extract_turn, hkind]
          · rw [Bool.not_eq_true] at hstart
            obtain ⟨hturns, hsame, hpending⟩ := see_of_not_start t event rest hstart
            rw [hturns, hsame, hpending, hskip, exported, if_neg (by simp [hstart])]

/-- **What is exported**, as exchanges. -/
theorem exchanges_materialize_turns (events : List AgentEvent) :
    (materialize_turns events).1.map Turn.exchange =
      exported none 0 (events.map AgentEvent.kind) := by
  unfold materialize_turns
  rw [exchanges_loop]
  rfl

theorem exported_skip (user : Option String) (pre post : List AgentEventKind) :
    exported user pre.length (pre ++ post) = exported user 0 post := by
  induction pre with
  | nil => rfl
  | cons e pre ih => exact ih

/-! ## 8. Open requests -/

/-- The user content pending after some events. -/
def prompted (user : Option String) (events : List AgentEventKind) : Option String :=
  events.foldl (fun user e => e.user_content.orElse fun _ => user) user

section

variable {mid post : List AgentEventKind} {e_end : AgentEventKind}

/-- Without a completed request nothing is exported, nothing was said and no prompt is
checked. -/
theorem exported_without_end (user : Option String)
    (h : ∀ e ∈ mid, e.is_llm_request_end = false) : exported user 0 mid = [] := by
  induction mid generalizing user with
  | nil => rfl
  | cons e mid ih =>
      have hrest : ∀ e ∈ mid, e.is_llm_request_end = false := fun e he => h e (by simp [he])
      rw [exported]
      split
      · rw [List.findIdx?_eq_none_iff.2 hrest]
        exact ih _ hrest
      · exact ih _ hrest

theorem conversation_without_end (user : Option String)
    (h : ∀ e ∈ mid, e.is_llm_request_end = false) : conversation user mid = [] := by
  induction mid generalizing user with
  | nil => rfl
  | cons e mid ih =>
      have hrest : ∀ e ∈ mid, e.is_llm_request_end = false := fun e he => h e (by simp [he])
      rw [conversation]
      split
      · have hany : (mid.takeWhile fun e => !e.is_llm_request_start).any
            AgentEventKind.is_llm_request_end = false := by
          rw [List.any_eq_false]
          intro e he
          simpa using hrest e (List.takeWhile_subset _ he)
        simp only [hany, Bool.false_eq_true, if_false]
        exact ih _ hrest
      · exact ih _ hrest

theorem promptsKept_without_end (started : Option (Option String)) (user : Option String)
    (h : ∀ e ∈ mid, e.is_llm_request_end = false) : PromptsKept started user mid := by
  induction mid generalizing started user with
  | nil => trivial
  | cons e mid ih =>
      have hrest : ∀ e ∈ mid, e.is_llm_request_end = false := fun e he => h e (by simp [he])
      rw [PromptsKept]
      split
      · exact ih _ _ hrest
      · rw [if_neg (by simp [h e])]
        exact ih _ _ hrest

/-- An event that does not complete the open request says nothing, and the request
stays open or has failed. -/
theorem advance_unfinished {phase phase' : Phase} {e : AgentEventKind}
    (hphase : phase = .Open ∨ phase = .Failed) (hadv : phase.advance e = some phase')
    (hend : e.is_llm_request_end = false) :
    e.says_nothing = true ∧ (phase' = .Open ∨ phase' = .Failed) := by
  have hclosed : phase ≠ .Closed := by
    rcases hphase with rfl | rfl <;> simp
  cases e with
  | LlmRequestStart =>
      cases hadv
      exact ⟨rfl, Or.inl rfl⟩
  | LlmRequestEnd usage finish_reason => cases hend
  | AssistantMessageStored content thinking => simp [Phase.advance, hclosed] at hadv
  | ToolCallStart tool_call_id tool_name arguments => simp [Phase.advance, hclosed] at hadv
  | ToolCallEnd tool_call_id tool_name is_error result => simp [Phase.advance, hclosed] at hadv
  | PromptReceived content =>
      rcases hphase with rfl | rfl <;> cases hadv <;> exact ⟨rfl, Or.inr rfl⟩
  | UserMessageStored content =>
      rcases hphase with rfl | rfl <;> cases hadv <;> exact ⟨rfl, Or.inr rfl⟩
  | _ =>
      cases hadv
      exact ⟨rfl, hphase⟩

/-- Nothing is said while a request is open or after it failed. -/
theorem says_nothing_of_emits {phase : Phase} (hphase : phase = .Open ∨ phase = .Failed)
    (hemits : phase.Emits (mid ++ post)) (h : ∀ e ∈ mid, e.is_llm_request_end = false) :
    ∀ e ∈ mid, e.says_nothing = true := by
  induction mid generalizing phase with
  | nil => simp
  | cons e mid ih =>
      obtain ⟨phase', hadv, hrest⟩ := Phase.emits_cons.1 hemits
      have hstep := advance_unfinished hphase hadv (h e (by simp))
      intro e' he'
      rcases List.mem_cons.1 he' with rfl | he'
      · exact hstep.1
      · exact ih hstep.2 hrest (fun e he => h e (by simp [he])) e' he'

/-- The check of the prompts, over the events up to the end of a request. -/
theorem promptsKept_append (started user : Option String)
    (h : ∀ e ∈ mid, e.is_llm_request_end = false) (hend : e_end.is_llm_request_end = true) :
    PromptsKept (some started) user (mid ++ e_end :: post) ↔
      started = prompted user mid ∧ PromptsKept none none post := by
  induction mid generalizing user with
  | nil =>
      have hstart : e_end.is_llm_request_start = false := by
        cases e_end <;> first | rfl | cases hend
      rw [List.nil_append, PromptsKept, if_neg (by simp [hstart]), if_pos hend]
      rfl
  | cons e mid ih =>
      have hrest : ∀ e ∈ mid, e.is_llm_request_end = false := fun e he => h e (by simp [he])
      rw [List.cons_append, PromptsKept]
      split
      · next hstart =>
          have huser : e.user_content = none := by
            cases e <;> first | rfl | cases hstart
          rw [Option.getD_some, ih _ hrest]
          simp [prompted, huser]
      · rw [if_neg (by simp [h e]), ih _ hrest]
        rfl

/-- Events before a request only bring prompts. -/
theorem conversation_append (user : Option String)
    (h : ∀ e ∈ mid, e.is_llm_request_start = false) :
    conversation user (mid ++ post) = conversation (prompted user mid) post := by
  induction mid generalizing user with
  | nil => rfl
  | cons e mid ih =>
      rw [List.cons_append, conversation, if_neg (by simp [h e])]
      exact ih _ fun e he => h e (by simp [he])

/-- A request that failed cannot complete any more. -/
theorem not_emits_failed (h : ∀ e ∈ mid, e.is_llm_request_start = false)
    (hends : ∀ e ∈ mid, e.is_llm_request_end = false) (hend : e_end.is_llm_request_end = true) :
    ¬ Phase.Failed.Emits (mid ++ e_end :: post) := by
  induction mid with
  | nil =>
      intro hemits
      obtain ⟨phase', hadv, -⟩ := Phase.emits_cons.1 hemits
      cases e_end with
      | LlmRequestEnd usage finish_reason => cases hadv
      | _ => cases hend
  | cons e mid ih =>
      intro hemits
      obtain ⟨phase', hadv, hrest⟩ := Phase.emits_cons.1 hemits
      have hphase : phase' = .Failed := by
        have hstart := h e (by simp)
        have hnot := hends e (by simp)
        cases e with
        | LlmRequestStart => cases hstart
        | LlmRequestEnd usage finish_reason => cases hnot
        | AssistantMessageStored content thinking => cases hadv
        | ToolCallStart tool_call_id tool_name arguments => cases hadv
        | ToolCallEnd tool_call_id tool_name is_error result => cases hadv
        | _ => cases hadv; rfl
      rw [hphase] at hrest
      exact ih (fun e he => h e (by simp [he])) (fun e he => hends e (by simp [he])) hrest

/-- No prompt comes between the start and the end of one request. -/
theorem prompted_of_open (user : Option String)
    (h : ∀ e ∈ mid, e.is_llm_request_start = false)
    (hends : ∀ e ∈ mid, e.is_llm_request_end = false) (hend : e_end.is_llm_request_end = true)
    (hemits : Phase.Open.Emits (mid ++ e_end :: post)) : prompted user mid = user := by
  induction mid generalizing user with
  | nil => rfl
  | cons e mid ih =>
      obtain ⟨phase', hadv, hrest⟩ := Phase.emits_cons.1 hemits
      have hstarts : ∀ e ∈ mid, e.is_llm_request_start = false := fun e he => h e (by simp [he])
      have hends' : ∀ e ∈ mid, e.is_llm_request_end = false := fun e he => hends e (by simp [he])
      have hstep : e.user_content = none ∧ phase' = .Open := by
        have hstart := h e (by simp)
        have hnot := hends e (by simp)
        cases e with
        | LlmRequestStart => cases hstart
        | LlmRequestEnd usage finish_reason => cases hnot
        | PromptReceived content =>
            cases hadv
            exact absurd hrest (not_emits_failed hstarts hends' hend)
        | UserMessageStored content =>
            cases hadv
            exact absurd hrest (not_emits_failed hstarts hends' hend)
        | AssistantMessageStored content thinking => cases hadv
        | ToolCallStart tool_call_id tool_name arguments => cases hadv
        | ToolCallEnd tool_call_id tool_name is_error result => cases hadv
        | _ =>
            cases hadv
            exact ⟨rfl, rfl⟩
      rw [hstep.2] at hrest
      have hfold : prompted user (e :: mid) = prompted user mid := by
        simp [prompted, hstep.1]
      rw [hfold]
      exact ih user hstarts hends' hrest

/-- The conversation at the start of a request, when what follows a later start is
known. -/
theorem conversation_start (user : Option String)
    (hlater : (∃ e ∈ mid, e.is_llm_request_start = true) →
      conversation user (mid ++ e_end :: post) = exchange (prompted user mid)
        (post.takeWhile fun e => !e.is_llm_request_start) :: conversation none post)
    (hemits : Phase.Open.Emits (mid ++ e_end :: post))
    (hends : ∀ e ∈ mid, e.is_llm_request_end = false) (hend : e_end.is_llm_request_end = true) :
    conversation user (.LlmRequestStart :: (mid ++ e_end :: post)) = exchange (prompted user mid)
      (post.takeWhile fun e => !e.is_llm_request_start) :: conversation none post := by
  have hstart : AgentEventKind.LlmRequestStart.is_llm_request_start = true := rfl
  have hend_start : e_end.is_llm_request_start = false := by
    cases e_end <;> first | rfl | cases hend
  rw [conversation, if_pos hstart]
  dsimp only
  by_cases hmid : ∃ e ∈ mid, e.is_llm_request_start = true
  · -- another request is started before one completes: this one failed
    have hspan : ((mid ++ e_end :: post).takeWhile fun e => !e.is_llm_request_start).any
        AgentEventKind.is_llm_request_end = false := by
      obtain ⟨e, he, hstart'⟩ := hmid
      rw [List.takeWhile_append, if_neg, List.any_eq_false]
      · intro e he
        simpa using hends e (List.takeWhile_subset _ he)
      · intro hlen
        have hall := List.takeWhile_eq_self_iff.1
          ((List.takeWhile_sublist fun e : AgentEventKind => !e.is_llm_request_start).eq_of_length
            hlen)
        have := hall e he
        simp [hstart'] at this
    rw [if_neg (by simp [hspan])]
    exact hlater hmid
  · have hno : ∀ e ∈ mid, e.is_llm_request_start = false := by
      intro e he
      by_contra hcon
      exact hmid ⟨e, he, by simpa using hcon⟩
    have hspan : ((mid ++ e_end :: post).takeWhile fun e => !e.is_llm_request_start) =
        mid ++ e_end :: post.takeWhile fun e => !e.is_llm_request_start := by
      rw [List.takeWhile_append_of_pos (by simpa using hno),
        List.takeWhile_cons_of_pos (by simp [hend_start])]
    have hsay : ∀ e ∈ mid, e.says_nothing = true :=
      says_nothing_of_emits (Or.inl rfl) hemits hends
    have hquiet : ∀ e ∈ mid ++ [e_end], e.says_nothing = true := by
      intro e he
      rcases List.mem_append.1 he with he | he
      · exact hsay e he
      · rw [List.mem_singleton.1 he]
        cases e_end <;> first | rfl | cases hend
    have hnone : e_end.user_content = none := by
      cases e_end <;> first | rfl | cases hend
    rw [hspan, if_pos (by simp [hend]), prompted_of_open user hno hends hend hemits]
    have hexchange := exchange_append user hquiet (post.takeWhile fun e => !e.is_llm_request_start)
    rw [List.append_assoc, List.singleton_append] at hexchange
    rw [hexchange, conversation_append none hno, prompted_of_open none hno hends hend hemits,
      conversation, if_neg (by simp [hend_start]), hnone]
    rfl

/-- The conversation while a request is open or has failed, up to the end of the next
one that completes. -/
theorem conversation_unfinished (user : Option String) {phase : Phase}
    (hphase : phase = .Open ∨ phase = .Failed) (hemits : phase.Emits (mid ++ e_end :: post))
    (hends : ∀ e ∈ mid, e.is_llm_request_end = false) (hend : e_end.is_llm_request_end = true)
    (hstart : ∃ e ∈ mid, e.is_llm_request_start = true) :
    conversation user (mid ++ e_end :: post) = exchange (prompted user mid)
      (post.takeWhile fun e => !e.is_llm_request_start) :: conversation none post := by
  induction mid generalizing user phase with
  | nil =>
      obtain ⟨e, he, -⟩ := hstart
      cases he
  | cons e mid ih =>
      obtain ⟨phase', hadv, hrest⟩ := Phase.emits_cons.1 hemits
      have hends' : ∀ e ∈ mid, e.is_llm_request_end = false := fun e he => hends e (by simp [he])
      obtain ⟨-, hphase'⟩ := advance_unfinished hphase hadv (hends e (by simp))
      rw [List.cons_append]
      by_cases hhead : e.is_llm_request_start = true
      · have hkind : e = .LlmRequestStart := by
          cases e <;> first | rfl | cases hhead
        subst hkind
        cases hadv
        exact conversation_start user (fun hmid => ih user hphase' hrest hends' hmid) hrest hends'
          hend
      · have hlater : ∃ e ∈ mid, e.is_llm_request_start = true := by
          obtain ⟨e', he', hstart'⟩ := hstart
          rcases List.mem_cons.1 he' with rfl | he'
          · exact absurd hstart' hhead
          · exact ⟨e', he', hstart'⟩
        rw [conversation, if_neg hhead]
        exact ih _ hphase' hrest hends' hlater

end

/-- The stream up to the end of a request. -/
theorem split_at_end {rest : List AgentEventKind} {offset : ℕ}
    (h : rest.findIdx? AgentEventKind.is_llm_request_end = some offset) :
    ∃ mid e_end post, rest = mid ++ e_end :: post ∧ mid.length = offset ∧
      e_end.is_llm_request_end = true ∧ ∀ e ∈ mid, e.is_llm_request_end = false := by
  induction rest generalizing offset with
  | nil => cases h
  | cons e rest ih =>
      rw [List.findIdx?_cons] at h
      split at h
      · next hend =>
          cases h
          exact ⟨[], e, rest, rfl, rfl, hend, by simp⟩
      · next hend =>
          obtain ⟨offset', hfind, rfl⟩ := Option.map_eq_some_iff.1 h
          obtain ⟨mid, e_end, post, rfl, hlen, hend', hends⟩ := ih hfind
          refine ⟨e :: mid, e_end, post, rfl, by simp [hlen], hend', ?_⟩
          intro e' he'
          rcases List.mem_cons.1 he' with rfl | he'
          · simpa using hend
          · exact hends e' he'

/-- Past the end of a request no request is open. -/
theorem closed_of_open {mid post : List AgentEventKind} {e_end : AgentEventKind} {phase : Phase}
    (hphase : phase = .Open ∨ phase = .Failed) (hemits : phase.Emits (mid ++ e_end :: post))
    (hends : ∀ e ∈ mid, e.is_llm_request_end = false) (hend : e_end.is_llm_request_end = true) :
    Phase.Closed.Emits post := by
  induction mid generalizing phase with
  | nil =>
      obtain ⟨phase', hadv, hrest⟩ := Phase.emits_cons.1 hemits
      cases e_end with
      | LlmRequestEnd usage finish_reason =>
          rcases hphase with rfl | rfl
          · cases hadv
            exact hrest
          · cases hadv
      | _ => cases hend
  | cons e mid ih =>
      obtain ⟨phase', hadv, hrest⟩ := Phase.emits_cons.1 hemits
      obtain ⟨-, hphase'⟩ := advance_unfinished hphase hadv (hends e (by simp))
      exact ih hphase' hrest fun e he => hends e (by simp [he])

/-! ## 9. When the export is the conversation -/

/-- Where no request is open, an event that starts none ends none and opens none. -/
theorem advance_without_start {phase phase' : Phase} (hphase : phase = .Idle ∨ phase = .Closed)
    {e : AgentEventKind} (hadv : phase.advance e = some phase')
    (hstart : ¬ e.is_llm_request_start = true) :
    e.is_llm_request_end = false ∧ (phase' = .Idle ∨ phase' = .Closed) := by
  cases e with
  | LlmRequestStart => exact absurd rfl hstart
  | LlmRequestEnd usage finish_reason => rcases hphase with rfl | rfl <;> cases hadv
  | _ => rcases hphase with rfl | rfl <;> cases hadv <;> exact ⟨rfl, by simp⟩

/-- A request between its start and its end says nothing. -/
theorem request_says_nothing {mid : List AgentEventKind} {e_end : AgentEventKind}
    (hsay : ∀ e ∈ mid, e.says_nothing = true) (hend : e_end.is_llm_request_end = true) :
    ∀ e ∈ AgentEventKind.LlmRequestStart :: (mid ++ [e_end]), e.says_nothing = true := by
  intro e he
  rw [List.mem_cons, List.mem_append, List.mem_singleton] at he
  rcases he with rfl | he | rfl
  · rfl
  · exact hsay e he
  · cases e <;> first | rfl | cases hend

/-- What a stream says from a request on, it says before the next one and from there on. -/
theorem says_nothing_from_start_iff {mid post : List AgentEventKind} {e_end : AgentEventKind}
    (hspan : ∀ e ∈ AgentEventKind.LlmRequestStart :: (mid ++ [e_end]), e.says_nothing = true) :
    (∀ e ∈ AgentEventKind.LlmRequestStart :: (mid ++ e_end :: post), e.says_nothing = true) ↔
      (∀ e ∈ post.takeWhile fun e => !e.is_llm_request_start, e.says_nothing = true) ∧
        ∀ e ∈ post.dropWhile fun e => !e.is_llm_request_start, e.says_nothing = true := by
  rw [← List.forall_mem_append, List.takeWhile_append_dropWhile, List.append_cons,
    ← List.cons_append, List.forall_mem_append]
  exact ⟨fun h => h.2, fun h => ⟨hspan, h⟩⟩

/-- The two readings of a request that never ends: neither has an exchange. -/
theorem exported_eq_conversation_of_unfinished (user : Option String)
    {rest : List AgentEventKind} (hrest : Phase.Open.Emits rest)
    (hends : ∀ e ∈ rest, e.is_llm_request_end = false) :
    (exported user 0 rest = conversation user (.LlmRequestStart :: rest)) ∧
      (∀ e ∈ AgentEventKind.LlmRequestStart :: rest, e.says_nothing = true) ∧
      PromptsKept (some user) user rest := by
  have hrest' : Phase.Open.Emits (rest ++ []) := by simpa using hrest
  have hsay := says_nothing_of_emits (Or.inl rfl) hrest' hends
  have hall : ∀ e ∈ AgentEventKind.LlmRequestStart :: rest, e.is_llm_request_end = false :=
    List.forall_mem_cons.2 ⟨rfl, hends⟩
  refine ⟨?_, List.forall_mem_cons.2 ⟨rfl, hsay⟩, promptsKept_without_end _ _ hends⟩
  rw [exported_without_end user hends, conversation_without_end user hall]

/-- A request that ends is one exchange, and the export goes on behind its end. -/
theorem exported_request (user : Option String) {mid post : List AgentEventKind}
    {e_end : AgentEventKind}
    (hfind : (mid ++ e_end :: post).findIdx? AgentEventKind.is_llm_request_end = some mid.length) :
    exported user 0 (.LlmRequestStart :: (mid ++ e_end :: post)) =
      exchange user (.LlmRequestStart :: (mid ++ [e_end])) :: exported none 0 post := by
  have htake : (mid ++ e_end :: post).take (mid.length + 1) = mid ++ [e_end] := by
    rw [List.append_cons, List.take_left']
    simp
  have hskip : exported none (mid.length + 1) (mid ++ e_end :: post) = exported none 0 post := by
    have hlength := exported_skip none (mid ++ [e_end]) post
    rw [List.length_append, List.length_singleton] at hlength
    rw [List.append_cons]
    exact hlength
  rw [exported_start, hfind]
  dsimp only
  rw [htake, hskip]

/-- The two readings of a stream, from a place where no request is open. -/
theorem exported_eq_conversation_iff {phase : Phase} (hphase : phase = .Idle ∨ phase = .Closed)
    (user : Option String) (events : List AgentEventKind) (hemits : phase.Emits events) :
    exported user 0 events = conversation user events ↔
      (∀ e ∈ events.dropWhile fun e => !e.is_llm_request_start, e.says_nothing = true) ∧
        PromptsKept none user events := by
  -- an exchange takes a whole request off the stream, so the induction is on its length
  induction hn : events.length using Nat.strong_induction_on generalizing phase user events with
  | _ n ih =>
      cases events with
      | nil => simp [exported, conversation, PromptsKept]
      | cons e rest =>
          obtain ⟨phase', hadv, hrest⟩ := Phase.emits_cons.1 hemits
          rw [List.length_cons] at hn
          by_cases hstart : e.is_llm_request_start = true
          · have hkind : e = .LlmRequestStart := by
              cases e <;> first | rfl | cases hstart
            subst hkind
            cases hadv
            rw [PromptsKept, if_pos hstart, List.dropWhile_cons_of_neg (by simp [hstart]),
              Option.getD_none]
            cases hfind : rest.findIdx? AgentEventKind.is_llm_request_end with
            | none =>
                have hends := List.findIdx?_eq_none_iff.1 hfind
                obtain ⟨hexport, hsay, hkept⟩ :=
                  exported_eq_conversation_of_unfinished user hrest hends
                rw [exported_start, hfind]
                exact ⟨fun _ => ⟨hsay, hkept⟩, fun _ => hexport⟩
            | some offset =>
                obtain ⟨mid, e_end, post, rfl, rfl, hend, hends⟩ := split_at_end hfind
                have hclosed : Phase.Closed.Emits post := closed_of_open (Or.inl rfl) hrest hends hend
                -- the request says nothing, its exchange what comes before the next one
                have hspan := request_says_nothing
                  (says_nothing_of_emits (Or.inl rfl) hrest hends) hend
                rw [exported_request user hfind, conversation_start user
                  (conversation_unfinished user (Or.inl rfl) hrest hends hend) hrest hends hend,
                  List.cons.injEq, exchange_eq_iff hspan, promptsKept_append user user hends hend,
                  ih post.length (by simp at hn; omega) (Or.inr rfl) none post hclosed rfl,
                  says_nothing_from_start_iff hspan]
                tauto
          · obtain ⟨hnot, hphase'⟩ := advance_without_start hphase hadv hstart
            rw [exported, if_neg hstart, conversation, if_neg hstart, PromptsKept, if_neg hstart,
              if_neg (by simp [hnot]), List.dropWhile_cons_of_pos (by simpa using hstart)]
            exact ih rest.length (by omega) hphase' _ rest hrest rfl

/-- Before the first request there is nothing to say. -/
theorem says_nothing_before_start {events : List AgentEventKind} (hemits : Phase.Idle.Emits events) :
    ∀ e ∈ events.takeWhile fun e => !e.is_llm_request_start, e.says_nothing = true := by
  induction events with
  | nil => simp
  | cons e rest ih =>
      by_cases hstart : e.is_llm_request_start = true
      · simp [hstart]
      · obtain ⟨phase', hadv, hrest⟩ := Phase.emits_cons.1 hemits
        have hstep : e.says_nothing = true ∧ phase' = .Idle := by
          cases e with
          | LlmRequestStart => exact absurd rfl hstart
          | LlmRequestEnd usage finish_reason => cases hadv
          | AssistantMessageStored content thinking => cases hadv
          | ToolCallStart tool_call_id tool_name arguments => cases hadv
          | ToolCallEnd tool_call_id tool_name is_error result => cases hadv
          | _ =>
              cases hadv
              exact ⟨rfl, rfl⟩
        rw [hstep.2] at hrest
        rw [List.takeWhile_cons_of_pos (by simpa using hstart)]
        intro e' he'
        rcases List.mem_cons.1 he' with rfl | he'
        · exact hstep.1
        · exact ih hrest e' he'

/-- **The export of an emitted stream is the conversation exactly when nothing was
said in it**, and no prompt came after a failed request. -/
theorem exportsConversation_iff_hollow (events : List AgentEvent)
    (hemits : Phase.Idle.Emits (events.map AgentEvent.kind)) :
    ExportsConversation events ↔ Hollow (events.map AgentEvent.kind) := by
  unfold ExportsConversation Hollow
  rw [exchanges_materialize_turns, exported_eq_conversation_iff (Or.inl rfl) none _ hemits]
  have hsplit : (∀ e ∈ events.map AgentEvent.kind, e.says_nothing = true) ↔
      ∀ e ∈ (events.map AgentEvent.kind).dropWhile fun e => !e.is_llm_request_start,
        e.says_nothing = true := by
    rw [← List.takeWhile_append_dropWhile (p := fun e : AgentEventKind => !e.is_llm_request_start)
      (l := events.map AgentEvent.kind), List.forall_mem_append,
      List.takeWhile_append_dropWhile]
    exact ⟨fun h => h.2, fun h => ⟨says_nothing_before_start hemits, h⟩⟩
  rw [hsplit]

end Querymt.Export
