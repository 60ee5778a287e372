/-
`Export/Sft.lean` -- training examples from the turns of a session (`export/sft.rs`).

`write_session_sft` appends the messages of turn after turn to a conversation, and for each
turn without tool calls, and for the last one, it writes what a window over the conversation
shows. The window counts messages (`apply_context_window`). A tool message of an example is
answered by a call in it exactly if no window starts among the results of a turn
(`examples_well_formed_iff`).

Replacing home directories is a parameter; so is the JSON of a line.
-/
import Querymt.Export.Turns

set_option autoImplicit false

namespace Querymt.Sft

open Querymt.Export (Turn TurnToolCall TurnToolResult)

/-! ## 1. Messages and options -/

structure SftFunctionCall where
  name : String
  arguments : String
  deriving DecidableEq

structure SftToolCall where
  id : String
  type : String
  function : SftFunctionCall
  deriving DecidableEq

structure SftMessage where
  role : String
  content : String
  tool_calls : Option (List SftToolCall)
  tool_call_id : Option String
  name : Option String
  deriving DecidableEq

structure ShareGptMessage where
  from_ : String
  value : String
  deriving DecidableEq

inductive SftFormat where
  | OpenAiChat
  | ShareGpt
  deriving DecidableEq

/-- The options that `write_session_sft` reads. -/
structure SftExportOptions where
  format : SftFormat
  scrub_paths : Bool
  path_replacement : String
  max_context_messages : Option ℕ
  include_thinking : Bool
  include_tool_results : Bool

/-- What is written as a line. -/
inductive SftLine where
  | OpenAiChat (messages : List SftMessage)
  | ShareGpt (conversations : List ShareGptMessage)
  deriving DecidableEq

/-- Tool calls are folded into the value. -/
def share_gpt_message (m : SftMessage) : ShareGptMessage where
  from_ :=
    if m.role = "user" then "human" else if m.role = "assistant" then "gpt" else m.role
  value :=
    match m.tool_calls with
    | none => m.content
    | some calls =>
        calls.foldl (fun value tc =>
          value ++ "\n<tool_call>\n\x7b\"name\": \"" ++ tc.function.name ++ "\", \"arguments\": " ++
            tc.function.arguments ++ "\x7d\n</tool_call>") m.content

def write_example (format : SftFormat) (messages : List SftMessage) : SftLine :=
  match format with
  | .OpenAiChat => .OpenAiChat messages
  | .ShareGpt => .ShareGpt (messages.map share_gpt_message)

/-! ## 2. The conversation and its window -/

section

variable (scrub_paths : String → String → String) (options : SftExportOptions)

def scrubbed (text : String) : String :=
  if options.scrub_paths then scrub_paths text options.path_replacement else text

def system_message (sys : String) : SftMessage :=
  ⟨"system", scrubbed scrub_paths options sys, none, none, none⟩

def user_message (user : String) : SftMessage :=
  ⟨"user", scrubbed scrub_paths options user, none, none, none⟩

def assistant_message (turn : Turn) : SftMessage :=
  let assistant_content :=
    match turn.thinking with
    | some thinking =>
        if options.include_thinking then
          "<thinking>\n" ++ thinking ++ "\n</thinking>\n" ++ turn.assistant_content
        else turn.assistant_content
    | none => turn.assistant_content
  let tool_calls :=
    if turn.tool_calls = [] then none
    else some (turn.tool_calls.map fun tc =>
      ⟨tc.id, "function", ⟨tc.name, scrubbed scrub_paths options tc.arguments⟩⟩)
  ⟨"assistant", scrubbed scrub_paths options assistant_content, tool_calls, none, none⟩

def tool_message (tr : TurnToolResult) : SftMessage :=
  let content :=
    if options.include_tool_results then scrubbed scrub_paths options tr.content
    else "[tool result omitted]"
  ⟨"tool", content, none, some tr.call_id, some tr.name⟩

/-- The assistant's message and its tool results. -/
def answer_messages (turn : Turn) : List SftMessage :=
  assistant_message scrub_paths options turn ::
    turn.tool_results.map (tool_message scrub_paths options)

/-- What a turn adds to the conversation. -/
def turn_messages (turn : Turn) : List SftMessage :=
  turn.user_content.toList.map (user_message scrub_paths options) ++
    answer_messages scrub_paths options turn

end

def apply_context_window (messages : List SftMessage) (max : Option ℕ) : List SftMessage :=
  match max with
  | none => messages
  | some max =>
      if messages.length ≤ max then messages
      else
        match messages with
        | first :: rest =>
            if first.role = "system" then first :: rest.drop (rest.length - max)
            else messages.drop (messages.length - max)
        | [] => []

section

variable (scrub_paths : String → String → String) (options : SftExportOptions)

/-- The loop over the turns, with the conversation so far. -/
def examples_from : List SftMessage → List Turn → List (List SftMessage)
  | _, [] => []
  | conversation, turn :: turns =>
      let conversation := conversation ++ turn_messages scrub_paths options turn
      let is_final_response := turn.tool_calls.isEmpty
      let is_last_turn := turns.isEmpty
      if is_final_response || is_last_turn then
        apply_context_window conversation options.max_context_messages ::
          examples_from conversation turns
      else examples_from conversation turns

def write_session_sft (turns : List Turn) (system_prompt : Option String) : List SftLine :=
  if turns.isEmpty then []
  else
    (examples_from scrub_paths options
      (system_prompt.toList.map (system_message scrub_paths options)) turns).map
      (write_example options.format)

end

/-! ## 3. What an example should be -/

/-- Turns whose tool results answer their own tool calls. -/
structure Answering where
  turns : List Turn
  answers : ∀ turn ∈ turns, ∀ tr ∈ turn.tool_results, ∃ tc ∈ turn.tool_calls, tc.id = tr.call_id

/-- The turns that an example is written for, each with the turns before it. -/
def emitted_for : List Turn → List Turn → List (List Turn × Turn)
  | _, [] => []
  | before, turn :: turns =>
      if turn.tool_calls.isEmpty || turns.isEmpty then
        (before, turn) :: emitted_for (before ++ [turn]) turns
      else emitted_for (before ++ [turn]) turns

/-- An assistant message with a call of this id. -/
def Calls (m : SftMessage) (id : String) : Prop :=
  m.role = "assistant" ∧ ∃ calls, m.tool_calls = some calls ∧ ∃ tc ∈ calls, tc.id = id

/-- Every tool message comes after a call that it answers. -/
def Answered (messages : List SftMessage) : Prop :=
  ∀ before m after, messages = before ++ m :: after → m.role = "tool" →
    ∃ id, m.tool_call_id = some id ∧ ∃ caller ∈ before, Calls caller id

section

variable (scrub_paths : String → String → String) (options : SftExportOptions)

/-- **A well-formed example**: the system message, then an end of the conversation so far that
fits, in which every tool message is answered and whose end is the turn's. -/
def WellFormed (system_prompt : Option String) (emitted : List Turn × Turn)
    (messages : List SftMessage) : Prop :=
  (∃ rest,
    messages = system_prompt.toList.map (system_message scrub_paths options) ++ rest ∧
    rest <:+ (emitted.1 ++ [emitted.2]).flatMap (turn_messages scrub_paths options) ∧
    ∀ max, options.max_context_messages = some max → rest.length ≤ max) ∧
  Answered messages ∧
  answer_messages scrub_paths options emitted.2 <:+ messages

end

/-- The messages of turns, by whether they are tool results. -/
def places (turns : List Turn) : List Bool :=
  turns.flatMap fun turn =>
    turn.user_content.toList.map (fun _ => false) ++
      false :: turn.tool_results.map fun _ => true

/-- **The condition**: everything so far fits in the window, or the window starts with a message
that is not a tool result. -/
def Fits (max_context_messages : Option ℕ) (turns : List Turn) : Prop :=
  ∀ max, max_context_messages = some max →
    (places turns).length ≤ max ∨ (places turns)[(places turns).length - max]? = some false

/-! ## 4. The window over the conversation -/

/-- The messages that a window shows of a conversation without its system message. -/
def shown (max : Option ℕ) (conversation : List SftMessage) : List SftMessage :=
  match max with
  | none => conversation
  | some max => conversation.drop (conversation.length - max)

theorem shown_suffix (max : Option ℕ) (conversation : List SftMessage) :
    shown max conversation <:+ conversation := by
  cases max with
  | none => exact List.suffix_rfl
  | some max => exact List.drop_suffix _ _

section

variable {scrub_paths : String → String → String} {options : SftExportOptions}

/-- What a turn adds has no system message. -/
theorem role_ne_system {turns : List Turn} {m : SftMessage}
    (hm : m ∈ turns.flatMap (turn_messages scrub_paths options)) : m.role ≠ "system" := by
  obtain ⟨turn, -, hm⟩ := List.mem_flatMap.1 hm
  rw [turn_messages, List.mem_append, answer_messages, List.mem_cons] at hm
  rcases hm with hm | rfl | hm
  · obtain ⟨user, -, rfl⟩ := List.mem_map.1 hm
    exact (by decide : "user" ≠ "system")
  · exact (by decide : "assistant" ≠ "system")
  · obtain ⟨tr, -, rfl⟩ := List.mem_map.1 hm
    exact (by decide : "tool" ≠ "system")

theorem system_role {system_prompt : Option String} {m : SftMessage}
    (hm : m ∈ system_prompt.toList.map (system_message scrub_paths options)) :
    m.role = "system" := by
  obtain ⟨sys, -, rfl⟩ := List.mem_map.1 hm
  rfl

/-- The system message stays, and the window is over the rest. -/
theorem window_eq (system_prompt : Option String) (turns : List Turn) (max : Option ℕ) :
    apply_context_window
        (system_prompt.toList.map (system_message scrub_paths options) ++
          turns.flatMap (turn_messages scrub_paths options)) max =
      system_prompt.toList.map (system_message scrub_paths options) ++
        shown max (turns.flatMap (turn_messages scrub_paths options)) := by
  have hroles : ∀ m ∈ turns.flatMap (turn_messages scrub_paths options), m.role ≠ "system" :=
    fun m hm => role_ne_system hm
  generalize turns.flatMap (turn_messages scrub_paths options) = conversation at hroles
  cases max with
  | none => rfl
  | some max =>
      cases system_prompt with
      | some sys =>
          rw [Option.toList_some, List.map_singleton, List.singleton_append, apply_context_window]
          by_cases hfits : (system_message scrub_paths options sys :: conversation).length ≤ max
          · rw [List.length_cons] at hfits
            have hzero : conversation.length - max = 0 := by omega
            rw [if_pos (by rw [List.length_cons]; omega), shown, hzero, List.drop_zero]
            rfl
          · have hsystem : (system_message scrub_paths options sys).role = "system" := rfl
            rw [if_neg hfits, if_pos hsystem, shown]
            rfl
      | none =>
          rw [Option.toList_none, List.map_nil, List.nil_append, List.nil_append]
          unfold apply_context_window
          dsimp only
          by_cases hfits : conversation.length ≤ max
          · have hzero : conversation.length - max = 0 := by omega
            rw [if_pos hfits, shown, hzero, List.drop_zero]
          · rw [if_neg hfits]
            cases conversation with
            | nil => exact absurd (Nat.zero_le _) hfits
            | cons first rest =>
                have hfirst := hroles first List.mem_cons_self
                dsimp only
                rw [if_neg hfirst, shown]

/-- The loop writes, for each turn it emits for, the window over the conversation so far. -/
theorem examples_from_eq (system_prompt : Option String) (before turns : List Turn) :
    examples_from scrub_paths options
        (system_prompt.toList.map (system_message scrub_paths options) ++
          before.flatMap (turn_messages scrub_paths options)) turns =
      (emitted_for before turns).map fun e =>
        system_prompt.toList.map (system_message scrub_paths options) ++
          shown options.max_context_messages
            ((e.1 ++ [e.2]).flatMap (turn_messages scrub_paths options)) := by
  induction turns generalizing before with
  | nil => rfl
  | cons turn turns ih =>
      have hmore := ih (before ++ [turn])
      rw [List.flatMap_append, List.flatMap_singleton, ← List.append_assoc] at hmore
      rw [examples_from, emitted_for, hmore]
      by_cases hemit : (turn.tool_calls.isEmpty || turns.isEmpty) = true
      · have hwindow := @window_eq scrub_paths options system_prompt (before ++ [turn])
          options.max_context_messages
        rw [List.flatMap_append, List.flatMap_singleton, ← List.append_assoc] at hwindow
        rw [if_pos hemit, if_pos hemit, List.map_cons, hwindow, List.flatMap_append,
          List.flatMap_singleton]
      · rw [if_neg hemit, if_neg hemit]

end

/-! ## 5. Tool messages and their calls -/

/-- A call, then nothing but tool messages up to the one that answers it. -/
def Grouped (messages : List SftMessage) : Prop :=
  ∀ before m after, messages = before ++ m :: after → m.role = "tool" →
    ∃ id, m.tool_call_id = some id ∧ ∃ front caller middle,
      before = front ++ caller :: middle ∧ Calls caller id ∧ ∀ x ∈ middle, x.role = "tool"

theorem Grouped.append {l l' : List SftMessage} (h : Grouped l) (h' : Grouped l') :
    Grouped (l ++ l') := by
  intro before m after heq htool
  have hright : ∀ before', before = l ++ before' → l' = before' ++ m :: after →
      ∃ id, m.tool_call_id = some id ∧ ∃ front caller middle,
        before = front ++ caller :: middle ∧ Calls caller id ∧ ∀ x ∈ middle, x.role = "tool" := by
    intro before' hbefore hl'
    obtain ⟨id, hid, front, caller, middle, rfl, hcalls, hmiddle⟩ := h' before' m after hl' htool
    exact ⟨id, hid, l ++ front, caller, middle, by rw [hbefore, List.append_assoc], hcalls, hmiddle⟩
  rcases List.append_eq_append_iff.1 heq with ⟨before', hbefore, hl'⟩ | ⟨rest, hl, hrest⟩
  · exact hright before' hbefore hl'
  · cases rest with
    | nil =>
        apply hright []
        · rw [hl, List.append_nil, List.append_nil]
        · rw [List.nil_append]
          exact hrest.symm
    | cons x rest =>
        obtain ⟨rfl, -⟩ := List.cons.inj hrest
        exact h before m rest hl htool

/-- Nothing that is grouped starts with a tool message. -/
theorem Grouped.head_ne_tool {m : SftMessage} {l : List SftMessage} (h : Grouped (m :: l)) :
    m.role ≠ "tool" := by
  intro htool
  obtain ⟨-, -, front, caller, middle, heq, -⟩ := h [] m l rfl htool
  simp at heq

section

variable {scrub_paths : String → String → String} {options : SftExportOptions}

theorem grouped_turn {turn : Turn}
    (h : ∀ tr ∈ turn.tool_results, ∃ tc ∈ turn.tool_calls, tc.id = tr.call_id) :
    Grouped (turn_messages scrub_paths options turn) := by
  apply Grouped.append
  · intro before m after heq htool
    have hm : m ∈ turn.user_content.toList.map (user_message scrub_paths options) :=
      heq ▸ List.mem_append_right _ List.mem_cons_self
    obtain ⟨user, -, rfl⟩ := List.mem_map.1 hm
    exact absurd htool (by decide : "user" ≠ "tool")
  · intro before m after heq htool
    cases before with
    | nil =>
        obtain ⟨rfl, -⟩ := List.cons.inj heq
        exact absurd htool (by decide : "assistant" ≠ "tool")
    | cons caller middle =>
        obtain ⟨rfl, hresults⟩ := List.cons.inj heq
        have hm : m ∈ turn.tool_results.map (tool_message scrub_paths options) :=
          hresults ▸ List.mem_append_right _ List.mem_cons_self
        obtain ⟨tr, htr, rfl⟩ := List.mem_map.1 hm
        obtain ⟨tc, htc, hid⟩ := h tr htr
        refine ⟨tr.call_id, rfl, [], _, middle, rfl, ⟨rfl, ?_⟩, ?_⟩
        · -- there is a call, so the message has its calls
          have hne : turn.tool_calls ≠ [] := List.ne_nil_of_mem htc
          refine ⟨_, if_neg hne, _, List.mem_map_of_mem htc, hid⟩
        · intro x hx
          have hx : x ∈ turn.tool_results.map (tool_message scrub_paths options) :=
            hresults ▸ List.mem_append_left _ hx
          obtain ⟨tr', -, rfl⟩ := List.mem_map.1 hx
          rfl

theorem grouped_turns {turns : List Turn}
    (h : ∀ turn ∈ turns, ∀ tr ∈ turn.tool_results, ∃ tc ∈ turn.tool_calls, tc.id = tr.call_id) :
    Grouped (turns.flatMap (turn_messages scrub_paths options)) := by
  induction turns with
  | nil =>
      intro before m after heq
      simp at heq
  | cons turn turns ih =>
      rw [List.flatMap_cons]
      apply Grouped.append (grouped_turn (h turn List.mem_cons_self))
      exact ih fun turn hturn => h turn (List.mem_cons_of_mem _ hturn)

/-- **An end of what is grouped** is answered, after the system message, if and only if it does
not start with a tool message. -/
theorem answered_iff {system_prompt : Option String} {front rest : List SftMessage}
    (h : Grouped (front ++ rest)) :
    Answered (system_prompt.toList.map (system_message scrub_paths options) ++ rest) ↔
      ∀ first back, rest = first :: back → first.role ≠ "tool" := by
  constructor
  · rintro hanswered first back rfl htool
    obtain ⟨-, -, caller, hcaller, hassistant, -⟩ := hanswered _ first back rfl htool
    rw [system_role hcaller] at hassistant
    exact absurd hassistant (by decide)
  · intro hfirst before m after heq htool
    obtain ⟨before', hbefore, hrest⟩ : ∃ before',
        before = system_prompt.toList.map (system_message scrub_paths options) ++ before' ∧
          rest = before' ++ m :: after := by
      rcases List.append_eq_append_iff.1 heq with h | ⟨more, hsystem, hmore⟩
      · exact h
      · cases more with
        | nil => exact ⟨[], by rw [hsystem, List.append_nil, List.append_nil], hmore.symm⟩
        | cons x more =>
            -- the system message is no tool message
            obtain ⟨rfl, -⟩ := List.cons.inj hmore
            have hm : m ∈ system_prompt.toList.map (system_message scrub_paths options) :=
              hsystem ▸ List.mem_append_right _ List.mem_cons_self
            rw [system_role hm] at htool
            exact absurd htool (by decide)
    obtain ⟨id, hid, pre, caller, middle, hsplit, hcalls, hmiddle⟩ :=
      h (front ++ before') m after (by rw [hrest, List.append_assoc]) htool
    refine ⟨id, hid, caller, ?_, hcalls⟩
    rw [hbefore]
    apply List.mem_append_right
    rcases List.append_eq_append_iff.1 hsplit with ⟨more, hpre, hmore⟩ | ⟨more, hfront, hmore⟩
    · rw [hmore]
      exact List.mem_append_right _ List.mem_cons_self
    · cases more with
      | nil =>
          rw [List.nil_append] at hmore
          rw [← hmore]
          exact List.mem_cons_self
      | cons x more =>
          -- otherwise the rest starts among the tool messages after the call
          exfalso
          have hmiddle' : middle = more ++ before' := (List.cons.inj hmore).2
          cases before' with
          | nil => exact hfirst m after hrest htool
          | cons y before' =>
              apply hfirst y (before' ++ m :: after) hrest
              apply hmiddle
              rw [hmiddle']
              exact List.mem_append_right _ List.mem_cons_self

/-! ## 6. When an example is well formed -/

theorem places_eq (turns : List Turn) :
    (turns.flatMap (turn_messages scrub_paths options)).map (fun m => decide (m.role = "tool")) =
      places turns := by
  rw [places, List.map_flatMap]
  apply List.flatMap_congr
  intro turn _
  rw [turn_messages, answer_messages, List.map_append, List.map_cons, List.map_map, List.map_map]
  rfl

/-- **One example.** -/
theorem well_formed_iff (system_prompt : Option String) {before : List Turn} {turn : Turn}
    (h : ∀ t ∈ before ++ [turn], ∀ tr ∈ t.tool_results, ∃ tc ∈ t.tool_calls, tc.id = tr.call_id) :
    WellFormed scrub_paths options system_prompt (before, turn)
        (system_prompt.toList.map (system_message scrub_paths options) ++
          shown options.max_context_messages
            ((before ++ [turn]).flatMap (turn_messages scrub_paths options))) ↔
      Fits options.max_context_messages (before ++ [turn]) := by
  have hgrouped := @grouped_turns scrub_paths options _ h
  have hplaces := @places_eq scrub_paths options (before ++ [turn])
  have hend : answer_messages scrub_paths options turn <:+
      (before ++ [turn]).flatMap (turn_messages scrub_paths options) := by
    rw [List.flatMap_append, List.flatMap_singleton, turn_messages, ← List.append_assoc]
    exact List.suffix_append _ _
  rw [Fits, ← hplaces, List.length_map]
  unfold WellFormed
  dsimp only
  generalize (before ++ [turn]).flatMap (turn_messages scrub_paths options) = conversation at *
  -- a window over everything
  have hwhole : (system_prompt.toList.map (system_message scrub_paths options) ++ conversation =
      system_prompt.toList.map (system_message scrub_paths options) ++ conversation) ∧
      Answered (system_prompt.toList.map (system_message scrub_paths options) ++ conversation) ∧
      answer_messages scrub_paths options turn <:+
        system_prompt.toList.map (system_message scrub_paths options) ++ conversation := by
    refine ⟨rfl, ?_, hend.trans (List.suffix_append _ _)⟩
    apply (@answered_iff scrub_paths options system_prompt [] conversation hgrouped).2
    rintro first back rfl
    exact hgrouped.head_ne_tool
  cases hmax : options.max_context_messages with
  | none =>
      refine ⟨fun _ max hmax => (nomatch hmax), fun _ => ?_⟩
      exact ⟨⟨conversation, rfl, List.suffix_rfl, fun max hmax => (nomatch hmax)⟩, hwhole.2⟩
  | some max =>
      have hsplit := List.take_append_drop (conversation.length - max) conversation
      have hanswered := @answered_iff scrub_paths options system_prompt
        (conversation.take (conversation.length - max))
        (conversation.drop (conversation.length - max)) (by rwa [hsplit])
      simp only [shown, Option.some.injEq, forall_eq']
      by_cases hfits : conversation.length ≤ max
      · have hzero : conversation.length - max = 0 := by omega
        rw [hzero, List.drop_zero]
        exact ⟨fun _ => .inl hfits, fun _ => ⟨⟨conversation, rfl, List.suffix_rfl, hfits⟩, hwhole.2⟩⟩
      · have hlength : (conversation.drop (conversation.length - max)).length = max := by
          rw [List.length_drop]
          omega
        have hfirst : ∀ first back, conversation.drop (conversation.length - max) = first :: back →
            (conversation.map fun m => decide (m.role = "tool"))[conversation.length - max]? =
              some (decide (first.role = "tool")) := by
          intro first back heq
          have hat := congrArg (fun l => l[0]?) heq
          simp only [List.getElem?_drop, Nat.add_zero, List.getElem?_cons_zero] at hat
          rw [List.getElem?_map, hat]
          rfl
        constructor
        · rintro ⟨-, hans, hsuffix⟩
          right
          cases hrest : conversation.drop (conversation.length - max) with
          | nil =>
              -- the assistant's message is not the system message
              rw [hrest, List.append_nil] at hsuffix
              have hrole := system_role (hsuffix.subset List.mem_cons_self)
              exact absurd hrole (by exact (by decide : "assistant" ≠ "system"))
          | cons first back =>
              rw [hfirst first back hrest]
              exact congrArg some (decide_eq_false (hanswered.1 hans first back hrest))
        · rintro (hle | hplace)
          · exact absurd hle hfits
          · have hnot : ∀ first back, conversation.drop (conversation.length - max) =
                first :: back → first.role ≠ "tool" := by
              intro first back heq
              rw [hfirst first back heq] at hplace
              exact of_decide_eq_false (Option.some.inj hplace)
            refine ⟨⟨_, rfl, List.drop_suffix _ _, by rw [hlength]⟩, hanswered.2 hnot, ?_⟩
            apply List.IsSuffix.trans _ (List.suffix_append _ _)
            have hdrop := List.drop_suffix (conversation.length - max) conversation
            by_cases hshort : (answer_messages scrub_paths options turn).length ≤
                (conversation.drop (conversation.length - max)).length
            · exact List.suffix_of_suffix_length_le hend hdrop hshort
            · -- otherwise the window starts among the turn's results
              exfalso
              have hinside := List.suffix_of_suffix_length_le hdrop hend (by omega)
              rcases List.suffix_cons_iff.1 hinside with heq | hresults
              · rw [heq] at hshort
                exact hshort (Nat.le_refl _)
              · cases hrest : conversation.drop (conversation.length - max) with
                | nil =>
                    rw [hrest] at hlength
                    have hout : conversation.length ≤ conversation.length - max :=
                      List.drop_eq_nil_iff.1 hrest
                    rw [List.getElem?_eq_none (by rw [List.length_map]; exact hout)] at hplace
                    cases hplace
                | cons first back =>
                    rw [hrest] at hresults
                    obtain ⟨tr, -, htr⟩ := List.mem_map.1 (hresults.subset List.mem_cons_self)
                    apply hnot first back hrest
                    rw [← htr]
                    rfl

theorem emitted_for_prefix {before turns : List Turn} {e : List Turn × Turn}
    (he : e ∈ emitted_for before turns) : e.1 ++ [e.2] <+: before ++ turns := by
  induction turns generalizing before with
  | nil => cases he
  | cons turn turns ih =>
      have hmore : e ∈ emitted_for (before ++ [turn]) turns →
          e.1 ++ [e.2] <+: before ++ turn :: turns := by
        intro he
        have hpre := ih he
        rwa [List.append_assoc, List.singleton_append] at hpre
      rw [emitted_for] at he
      split at he
      · rcases List.mem_cons.1 he with rfl | he
        · refine ⟨turns, ?_⟩
          rw [List.append_assoc, List.singleton_append]
        · exact hmore he
      · exact hmore he

end

/-- **The examples, exactly**: what is written for a session are its examples, in the chosen
format, one for each turn without tool calls and one for the last turn; and all of them are well
formed if and only if no window starts among the tool results of a turn, nor shows nothing. -/
theorem examples_well_formed_iff (scrub_paths : String → String → String)
    (options : SftExportOptions) (system_prompt : Option String) (session : Answering) :
    ∃ examples : List (List SftMessage),
      write_session_sft scrub_paths options session.turns system_prompt =
        examples.map (write_example options.format) ∧
      (List.Forall₂ (WellFormed scrub_paths options system_prompt)
          (emitted_for [] session.turns) examples ↔
        ∀ e ∈ emitted_for [] session.turns, Fits options.max_context_messages (e.1 ++ [e.2])) := by
  refine ⟨examples_from scrub_paths options
    (system_prompt.toList.map (system_message scrub_paths options)) session.turns, ?_, ?_⟩
  · rw [write_session_sft]
    split
    · next hempty =>
        rw [List.isEmpty_iff.1 hempty]
        rfl
    · rfl
  · have hexamples := @examples_from_eq scrub_paths options system_prompt [] session.turns
    rw [List.flatMap_nil, List.append_nil] at hexamples
    rw [hexamples, List.forall₂_map_right_iff, List.forall₂_same]
    apply forall₂_congr
    intro e he
    apply well_formed_iff
    intro turn hturn
    apply session.answers
    have hpre := emitted_for_prefix he
    rw [List.nil_append] at hpre
    exact hpre.subset hturn

/-- One call with its result, and the answer, in a window of two messages. -/
def sample_options : SftExportOptions where
  format := .OpenAiChat
  scrub_paths := false
  path_replacement := "/workspace"
  max_context_messages := some 2
  include_thinking := false
  include_tool_results := true

def sample_session : Answering where
  turns :=
    [⟨some "list", "", none, [⟨"c1", "ls", "\x7b\x7d"⟩], [⟨"c1", "ls", "a.txt", false⟩], [], none, none,
      none, none, 0⟩,
      ⟨none, "One file.", none, [], [], [], none, none, none, none, 1⟩]
  answers := by
    intro turn hturn tr htr
    simp only [List.mem_cons, List.not_mem_nil, or_false] at hturn
    rcases hturn with rfl | rfl
    · exact ⟨_, List.mem_cons_self, by rw [List.mem_singleton.1 htr]⟩
    · cases htr

/-- The window shows the result without its call. -/
theorem result_without_call :
    write_session_sft (fun text _ => text) sample_options sample_session.turns none =
        [.OpenAiChat [⟨"tool", "a.txt", none, some "c1", some "ls"⟩,
          ⟨"assistant", "One file.", none, none, none⟩]] ∧
      ¬Answered [⟨"tool", "a.txt", none, some "c1", some "ls"⟩,
          ⟨"assistant", "One file.", none, none, none⟩] := by
  refine ⟨by decide, fun h => ?_⟩
  obtain ⟨-, -, caller, hcaller, -⟩ := h [] _ _ rfl rfl
  cases hcaller

end Querymt.Sft
