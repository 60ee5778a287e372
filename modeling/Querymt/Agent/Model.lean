/-
`Agent/Model.lean` -- the messages of a session.

Mirrors `model.rs` (`MessagePart`, `AgentMessage` and its conversion to the message
a provider receives) and the chat types of the `querymt` crate it converts to.

Two readings stand in for code of other crates. The blocks of a `Prompt` part occur
only through `render_prompt_for_llm`, so the part carries that rendering. The JSON
value of a tool call's arguments stays the text it is parsed from; a text that does
not parse is the empty object there.
-/
import Mathlib

set_option autoImplicit false

namespace Querymt.Agent

/-! ## 1. Chat messages -/

inductive ChatRole where
  | User
  | Assistant
  deriving DecidableEq

inductive FinishReason where
  | Stop
  | Length
  | ContentFilter
  | ToolCalls
  | Error
  | Other
  | Unknown
  deriving DecidableEq

inductive Content where
  | Text (text : String)
  | Image (mime_type : String) (data : List UInt8)
  | ImageUrl (url : String)
  | Pdf (data : List UInt8)
  | Audio (mime_type : String) (data : List UInt8)
  | Thinking (text : String) (signature : Option String)
  | ToolUse (id name arguments : String)
  | ToolResult (id : String) (name : Option String) (is_error : Bool) (content : List Content)
  | ResourceLink (uri : String) (name description mime_type : Option String)

def Content.is_tool_result : Content → Bool
  | .ToolResult _ _ _ _ => true
  | _ => false

/-- The id of a tool call in the content of a message. -/
def Content.tool_use_id : Content → Option String
  | .ToolUse id _ _ => some id
  | _ => none

/-- The id of the call that a block of content answers. -/
def Content.tool_result_id : Content → Option String
  | .ToolResult id _ _ _ => some id
  | _ => none

/-- A message as a provider receives it; the cache hint is not modelled. -/
structure ChatMessage where
  role : ChatRole
  content : List Content

def ChatMessage.has_tool_result (m : ChatMessage) : Bool := m.content.any Content.is_tool_result

def ChatMessage.tool_use_ids (m : ChatMessage) : List String :=
  m.content.filterMap Content.tool_use_id

def ChatMessage.tool_result_ids (m : ChatMessage) : List String :=
  m.content.filterMap Content.tool_result_id

/-! ## 2. Stored messages (`model.rs`) -/

structure FunctionCall where
  name : String
  arguments : String
  deriving DecidableEq

/-- `querymt::ToolCall`. -/
structure ToolCall where
  id : String
  call_type : String
  function : FunctionCall
  deriving DecidableEq

structure DiffPaths where
  added : List String := []
  modified : List String := []
  removed : List String := []
  deriving DecidableEq

def DiffPaths.is_empty (d : DiffPaths) : Bool :=
  d.added.isEmpty && d.modified.isEmpty && d.removed.isEmpty

/-- `DiffPaths::summary`. -/
def DiffPaths.summary (d : DiffPaths) : String :=
  let parts :=
    (if d.added.isEmpty then [] else ["+" ++ toString d.added.length ++ " files"]) ++
    (if d.removed.isEmpty then [] else ["-" ++ toString d.removed.length ++ " files"]) ++
    (if d.modified.isEmpty then [] else [toString d.modified.length ++ " modified"])
  if parts.isEmpty then "No changes" else String.intercalate ", " parts

inductive MessagePart where
  | Text (content : String)
  | Prompt (render_prompt_for_llm : Option ℕ → String)
  | Reasoning (content : String) (signature : Option String) (time_ms : Option ℕ)
  | StepStart (step_id description : String)
  | StepFinish (step_id : String) (success : Bool)
  | ToolUse (call : ToolCall)
  | ToolResult (call_id : String) (content : List Content) (is_error : Bool)
      (tool_name tool_arguments : Option String) (compacted_at : Option ℤ)
  | Patch (id : String) (files : List String) (diff : String)
  | Snapshot (root_hash : ℕ) (changed_paths : DiffPaths)
  | Compaction (summary : String) (original_token_count : ℕ)
  | CompactionRequest (original_token_count : ℕ)
  | TurnSnapshotStart (turn_id snapshot_id : String)
  | TurnSnapshotPatch (turn_id snapshot_id : String) (changed_paths : List String)

namespace MessagePart

def tool_use_id : MessagePart → Option String
  | .ToolUse call => some call.id
  | _ => none

def tool_result_id : MessagePart → Option String
  | .ToolResult call_id _ _ _ _ _ => some call_id
  | _ => none

def is_tool_result : MessagePart → Bool
  | .ToolResult _ _ _ _ _ _ => true
  | _ => false

def is_compaction_request : MessagePart → Bool
  | .CompactionRequest _ => true
  | _ => false

/-- The parts that serve undo and redo only. -/
def is_turn_snapshot : MessagePart → Bool
  | .TurnSnapshotStart _ _ => true
  | .TurnSnapshotPatch _ _ _ => true
  | _ => false

/-- One iteration of the loop of `to_chat_message_with_target`. -/
def to_content (preserve_provider_metadata : Bool) (max_prompt_bytes : Option ℕ) :
    MessagePart → List Content
  | .Text content => [.Text content]
  | .Prompt render_prompt_for_llm => [.Text (render_prompt_for_llm max_prompt_bytes)]
  | .Reasoning content signature _ =>
      [.Thinking content (if preserve_provider_metadata then signature else none)]
  | .ToolUse call => [.ToolUse call.id call.function.name call.function.arguments]
  | .ToolResult call_id content is_error tool_name _ compacted_at =>
      [.ToolResult call_id tool_name is_error
        (if compacted_at.isSome then [.Text "[Old tool result content cleared]"] else content)]
  | .Snapshot _ changed_paths =>
      if changed_paths.is_empty then []
      else [.Text ("\n[System: File changes: " ++ changed_paths.summary ++ "]")]
  | .Compaction summary _ => [.Text summary]
  | .CompactionRequest _ => [.Text "Summarize our conversation so far."]
  | .StepStart _ _ | .StepFinish _ _ | .Patch _ _ _ | .TurnSnapshotStart _ _
  | .TurnSnapshotPatch _ _ _ => []

end MessagePart

structure AgentMessage where
  id : String
  session_id : String
  role : ChatRole
  parts : List MessagePart
  created_at : ℤ
  parent_message_id : Option String
  source_provider : Option String
  source_model : Option String

namespace AgentMessage

variable (m : AgentMessage)

def tool_use_ids : List String := m.parts.filterMap MessagePart.tool_use_id

def tool_result_ids : List String := m.parts.filterMap MessagePart.tool_result_id

def has_compaction_request : Bool := m.parts.any MessagePart.is_compaction_request

/-- `to_chat_message_with_target`. The stable sort of the last step, by a key with two
values, puts the tool results first and keeps both groups in order. -/
def to_chat_message_with_target (target_provider target_model : Option String)
    (max_prompt_bytes : Option ℕ) : ChatMessage :=
  let preserve_provider_metadata : Bool :=
    match target_provider, target_model, m.source_provider, m.source_model with
    | some tp, some tm, some sp, some sm => tp == sp && tm == sm
    | _, _, _, _ => true
  let blocks := m.parts.flatMap (MessagePart.to_content preserve_provider_metadata max_prompt_bytes)
  { role := m.role
    content :=
      if m.role = .User ∧ blocks.any Content.is_tool_result then
        blocks.filter Content.is_tool_result ++ blocks.filter fun b => !b.is_tool_result
      else blocks }

/-- `to_chat_message`. -/
def to_chat_message : ChatMessage := m.to_chat_message_with_target none none none

end AgentMessage

/-! ## 3. Tool traffic

What matters for the pairing of tool calls with their results: who speaks, which
calls are made and which calls are answered. The conversion keeps all three. -/

structure Traffic where
  role : ChatRole
  uses : List String
  results : List String
  deriving DecidableEq

def AgentMessage.traffic (m : AgentMessage) : Traffic :=
  ⟨m.role, m.tool_use_ids, m.tool_result_ids⟩

def ChatMessage.traffic (m : ChatMessage) : Traffic :=
  ⟨m.role, m.tool_use_ids, m.tool_result_ids⟩

/-- A part converts to at most one tool call, its own. -/
theorem filterMap_tool_use_to_content (preserve : Bool) (max : Option ℕ) (p : MessagePart) :
    (p.to_content preserve max).filterMap Content.tool_use_id = p.tool_use_id.toList := by
  cases p with
  | Snapshot root_hash changed_paths =>
      rw [MessagePart.to_content]
      split <;> rfl
  | _ => rfl

theorem filterMap_tool_result_to_content (preserve : Bool) (max : Option ℕ) (p : MessagePart) :
    (p.to_content preserve max).filterMap Content.tool_result_id = p.tool_result_id.toList := by
  cases p with
  | Snapshot root_hash changed_paths =>
      rw [MessagePart.to_content]
      split <;> rfl
  | _ => rfl

/-- Reading one kind of id off the content, part by part. -/
theorem filterMap_flatMap_to_content {f : Content → Option String}
    {g : MessagePart → Option String} {preserve : Bool} {max : Option ℕ}
    (h : ∀ p : MessagePart, (p.to_content preserve max).filterMap f = (g p).toList)
    (parts : List MessagePart) :
    (parts.flatMap (MessagePart.to_content preserve max)).filterMap f = parts.filterMap g := by
  induction parts with
  | nil => rfl
  | cons p parts ih =>
      rw [List.flatMap_cons, List.filterMap_append, ih, h p, List.filterMap_cons]
      cases g p <;> rfl

/-- Moving the tool results to the front changes neither list of ids. -/
theorem filterMap_results_first {f : Content → Option String} {keep : Bool}
    (h : ∀ b : Content, b.is_tool_result = keep → f b = none) (blocks : List Content) :
    (blocks.filter Content.is_tool_result ++
      blocks.filter fun b => !b.is_tool_result).filterMap f = blocks.filterMap f := by
  have hnone : ∀ l : List Content, (∀ b ∈ l, f b = none) → l.filterMap f = [] := by
    intro l hl
    rw [List.filterMap_eq_nil_iff]
    exact hl
  have hskip : ∀ p : Content → Bool, (∀ b, p b = false → f b = none) →
      (blocks.filter p).filterMap f = blocks.filterMap f := by
    intro p hp
    rw [List.filterMap_filter]
    congr 1
    funext b
    cases hb : p b with
    | true => rfl
    | false => exact (hp b hb).symm
  rw [List.filterMap_append]
  cases keep with
  | true =>
      rw [hnone (blocks.filter Content.is_tool_result), List.nil_append, hskip]
      · intro b hb
        exact h b (by simpa using hb)
      · intro b hb
        exact h b (List.mem_filter.1 hb).2
  | false =>
      rw [hnone (blocks.filter fun b => !b.is_tool_result), List.append_nil, hskip]
      · intro b hb
        exact h b hb
      · intro b hb
        exact h b (by simpa using (List.mem_filter.1 hb).2)

theorem tool_use_id_of_tool_result (b : Content) (h : b.is_tool_result = true) :
    b.tool_use_id = none := by
  cases b <;> first | rfl | cases h

theorem tool_result_id_of_not_tool_result (b : Content) (h : b.is_tool_result = false) :
    b.tool_result_id = none := by
  cases b <;> first | rfl | cases h

/-- **The conversion keeps the tool traffic of a message.** -/
theorem traffic_to_chat_message (m : AgentMessage) (target_provider target_model : Option String)
    (max_prompt_bytes : Option ℕ) :
    (m.to_chat_message_with_target target_provider target_model max_prompt_bytes).traffic =
      m.traffic := by
  unfold AgentMessage.to_chat_message_with_target
  generalize hpreserve : (match target_provider, target_model, m.source_provider, m.source_model with
    | some tp, some tm, some sp, some sm => tp == sp && tm == sm
    | _, _, _, _ => true : Bool) = preserve
  have huses := filterMap_flatMap_to_content
    (filterMap_tool_use_to_content preserve max_prompt_bytes) m.parts
  have hresults := filterMap_flatMap_to_content
    (filterMap_tool_result_to_content preserve max_prompt_bytes) m.parts
  dsimp only [ChatMessage.traffic, ChatMessage.tool_use_ids, ChatMessage.tool_result_ids,
    AgentMessage.traffic, AgentMessage.tool_use_ids, AgentMessage.tool_result_ids]
  split
  · rw [filterMap_results_first tool_use_id_of_tool_result,
      filterMap_results_first tool_result_id_of_not_tool_result, huses, hresults]
  · rw [huses, hresults]

/-! ## 4. Answered calls -/

/-- **Every tool call of every assistant message is answered by exactly one result**,
in a message after it and before the next assistant message. -/
def Answered : List Traffic → Prop
  | [] => True
  | m :: rest =>
      (m.role = .Assistant → ∀ id ∈ m.uses,
        ((rest.takeWhile fun t => decide (t.role ≠ .Assistant)).flatMap Traffic.results).count id
          = 1) ∧
      Answered rest

instance Answered.decidable : ∀ h : List Traffic, Decidable (Answered h)
  | [] => inferInstanceAs (Decidable True)
  | m :: rest =>
      have := Answered.decidable rest
      inferInstanceAs (Decidable ((m.role = .Assistant → ∀ id ∈ m.uses,
        ((rest.takeWhile fun t => decide (t.role ≠ .Assistant)).flatMap Traffic.results).count id
          = 1) ∧ Answered rest))

end Querymt.Agent
