/-
`Provider/OpenAIMessages.lean` -- the messages of a request to OpenAI.

Mirrors `convert_chat_message_to_openai` (`providers/openai/src/api.rs`), by which every
message of a conversation becomes one or more messages of the API. What a message becomes
is decided by the kinds of its blocks: one with results becomes a tool message for each and
a text, one with calls a message with these, one with images a list of parts, any other a
text. Each way keeps the blocks of some kinds and passes over the rest.

The conversation loses nothing exactly when each message has only blocks that its way keeps
(`keeps_iff`, `loses_nothing_iff`). An image given by its bytes is kept in no way.
-/
import Mathlib

set_option autoImplicit false

namespace Querymt.OpenAI

/-! ## 1. Messages -/

inductive ChatRole where
  | User
  | Assistant
  deriving DecidableEq

/-- A block of a message; the arguments of a call are a value of JSON. -/
inductive Content (Value : Type) where
  | Text (text : String)
  | Image (mime_type : String) (data : List UInt8)
  | ImageUrl (url : String)
  | Pdf (data : List UInt8)
  | Audio (mime_type : String) (data : List UInt8)
  | Thinking (text : String) (signature : Option String)
  | ToolUse (id name : String) (arguments : Value)
  | ToolResult (id : String) (name : Option String) (is_error : Bool)
      (content : List (Content Value))
  | ResourceLink (uri : String) (name description mime_type : Option String)

structure ChatMessage (Value : Type) where
  role : ChatRole
  content : List (Content Value)

variable {Value : Type}

namespace Content

def as_text : Content Value → Option String
  | Text text => some text
  | _ => none

def is_tool_use : Content Value → Bool
  | ToolUse _ _ _ => true
  | _ => false

def is_tool_result : Content Value → Bool
  | ToolResult _ _ _ _ => true
  | _ => false

def is_image : Content Value → Bool
  | Image _ _ => true
  | ImageUrl _ => true
  | _ => false

def as_thinking : Content Value → Option String
  | Thinking text _ => some text
  | _ => none

end Content

namespace ChatMessage

variable (msg : ChatMessage Value)

def texts : List String := msg.content.filterMap Content.as_text

/-- `ChatMessage::text`. -/
def text : String := "".intercalate msg.texts

/-- `ChatMessage::thinking`: the first block of that kind. -/
def thinking : Option String := msg.content.findSome? Content.as_thinking

end ChatMessage

structure OpenAIFunctionPayload where
  name : String
  arguments : String
  deriving DecidableEq

structure OpenAIFunctionCall where
  id : String
  content_type : String
  function : OpenAIFunctionPayload
  deriving DecidableEq

structure ImageUrlContent where
  url : String
  deriving DecidableEq

structure MessageContent where
  message_type : Option String
  text : Option String
  image_url : Option ImageUrlContent
  tool_call_id : Option String
  tool_output : Option String
  deriving DecidableEq

structure OpenAIChatMessage where
  role : String
  content : Option (List MessageContent ⊕ String)
  tool_calls : Option (List OpenAIFunctionCall)
  tool_call_id : Option String
  reasoning_content : Option String
  deriving DecidableEq

/-! ## 2. The conversion -/

def role_text : ChatRole → String
  | .User => "user"
  | .Assistant => "assistant"

def extract_reasoning_content (msg : ChatMessage Value) : Option String := msg.thinking

/-- The tool message of a result: the texts of its content. -/
def tool_message : Content Value → Option OpenAIChatMessage
  | .ToolResult id _ _ content =>
      some
        { role := "tool"
          content := some (.inr ("\n".intercalate (content.filterMap Content.as_text)))
          tool_calls := none
          tool_call_id := some id
          reasoning_content := none }
  | _ => none

/-- The part of a block in a message with images. -/
def message_part : Content Value → Option MessageContent
  | .Text text => some ⟨some "text", some text, none, none, none⟩
  | .ImageUrl url => some ⟨some "image_url", none, some ⟨url⟩, none, none⟩
  | _ => none

section

variable (to_string : Value → String) (msg : ChatMessage Value)

def function_call : Content Value → Option OpenAIFunctionCall
  | .ToolUse id name arguments => some ⟨id, "function", ⟨name, to_string arguments⟩⟩
  | _ => none

/-- A message of the same role without calls. -/
def plain_message (content : List MessageContent ⊕ String) : OpenAIChatMessage where
  role := role_text msg.role
  content := some content
  tool_calls := none
  tool_call_id := none
  reasoning_content := extract_reasoning_content msg

/-- What a message with tool results becomes. -/
def tool_result_messages : List OpenAIChatMessage :=
  let non_tool_content := msg.content.filter fun b => !b.is_tool_result
  let text := "\n".intercalate (non_tool_content.filterMap Content.as_text)
  msg.content.filterMap tool_message ++
    if non_tool_content.isEmpty ∨ text = "" then [] else [plain_message msg (.inr text)]

/-- What a message with tool calls becomes. -/
def tool_use_message : OpenAIChatMessage :=
  let tool_calls := msg.content.filterMap (function_call to_string)
  { role := role_text msg.role
    content := if msg.text = "" then none else some (.inr msg.text)
    tool_calls := if tool_calls.isEmpty then none else some tool_calls
    tool_call_id := none
    reasoning_content := extract_reasoning_content msg }

/-- What is pushed for a message. -/
def converted : List OpenAIChatMessage :=
  if msg.content.any Content.is_tool_result then tool_result_messages msg
  else if msg.content.any Content.is_tool_use then [tool_use_message to_string msg]
  else if msg.content.any Content.is_image then
    [plain_message msg (.inl (msg.content.filterMap message_part))]
  else [plain_message msg (.inr msg.text)]

def convert_chat_message_to_openai (out : List OpenAIChatMessage) : List OpenAIChatMessage :=
  out ++ converted to_string msg

end

/-- The messages of a request, before those of the system: the loop of `openai_chat_request`. -/
def openai_msgs (to_string : Value → String) (messages : List (ChatMessage Value)) :
    List OpenAIChatMessage :=
  messages.foldl (fun out msg => convert_chat_message_to_openai to_string msg out) []

/-! ## 3. The law and the condition -/

/-- A block of text or an image. -/
def Content.is_shown (b : Content Value) : Bool := b.as_text.isSome || b.is_image

/-- A part of a message represents a block. -/
def Shows : Content Value → MessageContent → Prop
  | .Text text, part => part.text = some text
  | .ImageUrl url, part => part.image_url = some ⟨url⟩
  | .Image _ _, part => part.image_url.isSome
  | _, _ => False

/-- A message represents blocks: part by part, or as a text made of theirs; no content is the
empty text. -/
def Represents (blocks : List (Content Value)) (m : OpenAIChatMessage) : Prop :=
  match m.content with
  | some (.inl parts) => List.Forall₂ Shows blocks parts
  | some (.inr text) =>
      (∀ b ∈ blocks, b.as_text.isSome) ∧
        ∃ separator : String, text = separator.intercalate (blocks.filterMap Content.as_text)
  | none =>
      (∀ b ∈ blocks, b.as_text.isSome) ∧
        ∃ separator : String, "" = separator.intercalate (blocks.filterMap Content.as_text)

/-- The id of a result. -/
def Content.tool_result_id : Content Value → Option String
  | .ToolResult id _ _ _ => some id
  | _ => none

/-- **Nothing of a message is lost** in what is pushed for it. -/
structure Keeps (to_string : Value → String) (msg : ChatMessage Value)
    (pushed : List OpenAIChatMessage) : Prop where
  tool_calls : pushed.flatMap (fun m => m.tool_calls.getD []) =
    msg.content.filterMap (function_call to_string)
  tool_results : (pushed.filter fun m => m.role = "tool").map OpenAIChatMessage.tool_call_id =
    (msg.content.filterMap Content.tool_result_id).map some
  shown : msg.content.filter Content.is_shown ≠ [] →
    ∃ m, pushed.filter (fun m => m.role = role_text msg.role) = [m] ∧
      Represents (msg.content.filter Content.is_shown) m

/-- The blocks that a message must not have, by the way it takes. -/
def Convertible (msg : ChatMessage Value) : Prop :=
  if msg.content.any Content.is_tool_result then
    (∀ b ∈ msg.content, b.is_tool_use = false ∧ b.is_image = false) ∧ msg.texts ≠ [""]
  else if msg.content.any Content.is_tool_use then ∀ b ∈ msg.content, b.is_image = false
  else ∀ mime_type data, .Image mime_type data ∉ msg.content

/-- **A conversation loses nothing**: what is pushed for each message keeps its blocks, and it
stands in the order of the messages. -/
def LosesNothing (to_string : Value → String) (messages : List (ChatMessage Value)) : Prop :=
  openai_msgs to_string messages = messages.flatMap (converted to_string) ∧
    ∀ msg ∈ messages, Keeps to_string msg (converted to_string msg)

/-! ## 4. Texts -/

section

variable {msg : ChatMessage Value} {to_string : Value → String}

theorem filterMap_filter {α β : Type} {f : α → Option β} {p : α → Bool}
    (h : ∀ a, (f a).isSome → p a = true) (l : List α) : (l.filter p).filterMap f = l.filterMap f := by
  rw [List.filterMap_filter]
  apply List.filterMap_congr
  intro a _
  cases hp : p a with
  | true => rfl
  | false =>
      cases hf : f a with
      | none => rfl
      | some b =>
          rw [h a (by rw [hf]; rfl)] at hp
          cases hp

theorem shown_texts (msg : ChatMessage Value) :
    (msg.content.filter Content.is_shown).filterMap Content.as_text = msg.texts :=
  filterMap_filter (fun b hb => by rw [Content.is_shown, hb, Bool.true_or]) msg.content

theorem non_tool_texts (msg : ChatMessage Value) :
    (msg.content.filter fun b => !b.is_tool_result).filterMap Content.as_text = msg.texts := by
  apply filterMap_filter
  intro b hb
  cases b <;> first | rfl | cases hb

/-- Joined by a newline, only no text or one empty text is empty. -/
theorem joined_eq_empty {texts : List String} :
    "\n".intercalate texts = "" ↔ texts = [] ∨ texts = [""] := by
  rcases texts with _ | ⟨t, _ | ⟨t', texts⟩⟩
  · simp
  · simp
  · rw [String.intercalate_cons_cons]
    constructor
    · intro h
      have hlist := congrArg String.toList h
      simp at hlist
    · rintro (h | h) <;> cases h

/-- All that is shown is text, if there is no image. -/
theorem shown_is_text_iff :
    (∀ b ∈ msg.content.filter Content.is_shown, b.as_text.isSome) ↔
      ∀ b ∈ msg.content, b.is_image = false := by
  constructor
  · intro h b hb
    cases himage : b.is_image with
    | false => rfl
    | true =>
        have htext := h b (List.mem_filter.2 ⟨hb, by rw [Content.is_shown, himage, Bool.or_true]⟩)
        cases b <;> simp [Content.as_text, Content.is_image] at htext himage
  · intro h b hb
    obtain ⟨hmem, hshown⟩ := List.mem_filter.1 hb
    rwa [Content.is_shown, h b hmem, Bool.or_false] at hshown

theorem shown_ne_nil_of_image {b : Content Value} (hb : b ∈ msg.content)
    (himage : b.is_image = true) : msg.content.filter Content.is_shown ≠ [] :=
  List.ne_nil_of_mem
    (List.mem_filter.2 ⟨hb, by rw [Content.is_shown, himage, Bool.or_true]⟩)

theorem role_text_ne_tool (role : ChatRole) : role_text role ≠ "tool" := by
  cases role <;> decide

/-! ## 5. A message with results -/

theorem tool_message_role {m : OpenAIChatMessage} (h : m ∈ msg.content.filterMap tool_message) :
    m.role = "tool" ∧ m.tool_calls = none := by
  obtain ⟨b, -, hb⟩ := List.mem_filterMap.1 h
  cases b <;> cases hb
  exact ⟨rfl, rfl⟩

theorem tool_message_ids (content : List (Content Value)) :
    (content.filterMap tool_message).map OpenAIChatMessage.tool_call_id =
      (content.filterMap Content.tool_result_id).map some := by
  rw [List.map_filterMap, List.map_filterMap]
  apply List.filterMap_congr
  intro b _
  cases b <;> rfl

theorem filter_role_tool_messages {role : String} (h : role = "tool") :
    (msg.content.filterMap tool_message).filter (fun m => m.role = role) =
      msg.content.filterMap tool_message := by
  apply List.filter_eq_self.2
  intro m hm
  rw [(tool_message_role hm).1, h]
  exact decide_eq_true rfl

theorem filter_role_tool_messages_nil {role : String} (h : role ≠ "tool") :
    (msg.content.filterMap tool_message).filter (fun m => m.role = role) = [] := by
  apply List.filter_eq_nil_iff.2
  intro m hm hrole
  rw [(tool_message_role hm).1] at hrole
  exact h (of_decide_eq_true hrole).symm

/-- The messages of the role are the one with the texts, unless there is no text to send. -/
theorem rest_eq (msg : ChatMessage Value) :
    tool_result_messages msg = msg.content.filterMap tool_message ++
      if msg.texts = [] ∨ msg.texts = [""] then []
      else [plain_message msg (.inr ("\n".intercalate msg.texts))] := by
  rw [tool_result_messages, non_tool_texts]
  by_cases htexts : msg.texts = [] ∨ msg.texts = [""]
  · rw [if_pos htexts, if_pos (.inr (joined_eq_empty.2 htexts))]
  · rw [if_neg htexts, if_neg]
    rintro (hempty | hempty)
    · -- without other blocks there are no texts
      rw [← non_tool_texts, List.isEmpty_iff.1 hempty, List.filterMap_nil] at htexts
      exact htexts (.inl rfl)
    · exact htexts (joined_eq_empty.1 hempty)

theorem no_tool_use_iff (to_string : Value → String) :
    msg.content.filterMap (function_call to_string) = [] ↔
      ∀ b ∈ msg.content, b.is_tool_use = false := by
  rw [List.filterMap_eq_nil_iff]
  apply forall₂_congr
  intro b _
  cases b <;> simp [function_call, Content.is_tool_use]

theorem tool_result_messages_calls (msg : ChatMessage Value) :
    (tool_result_messages msg).flatMap (fun m => m.tool_calls.getD []) = [] := by
  rw [rest_eq, List.flatMap_append, List.append_eq_nil_iff]
  constructor
  · apply List.flatMap_eq_nil_iff.2
    intro m hm
    rw [(tool_message_role hm).2]
    rfl
  · split <;> rfl

theorem tool_results_kept (msg : ChatMessage Value) :
    ((tool_result_messages msg).filter fun m => m.role = "tool").map
        OpenAIChatMessage.tool_call_id =
      (msg.content.filterMap Content.tool_result_id).map some := by
  rw [rest_eq, List.filter_append, filter_role_tool_messages rfl]
  have hrest : (if msg.texts = [] ∨ msg.texts = [""] then []
      else [plain_message msg (.inr ("\n".intercalate msg.texts))]).filter
      (fun m => m.role = "tool") = [] := by
    split
    · rfl
    · simp [plain_message, role_text_ne_tool]
  rw [hrest, List.append_nil, tool_message_ids]

/-- A message with results keeps its blocks if the others are texts, and not one empty text. -/
theorem keeps_tool_results_iff :
    Keeps to_string msg (tool_result_messages msg) ↔
      (∀ b ∈ msg.content, b.is_tool_use = false ∧ b.is_image = false) ∧ msg.texts ≠ [""] := by
  have hrole : (tool_result_messages msg).filter (fun m => m.role = role_text msg.role) =
      if msg.texts = [] ∨ msg.texts = [""] then []
      else [plain_message msg (.inr ("\n".intercalate msg.texts))] := by
    rw [rest_eq, List.filter_append, filter_role_tool_messages_nil (role_text_ne_tool _)]
    split
    · rfl
    · simp [plain_message]
  constructor
  · intro h
    have huse := (no_tool_use_iff to_string).1
      (h.tool_calls.symm.trans (tool_result_messages_calls msg))
    have hshown := h.shown
    rw [hrole] at hshown
    have hempty : msg.texts ≠ [""] := by
      intro hempty
      have hne : msg.content.filter Content.is_shown ≠ [] := by
        intro hnil
        rw [← shown_texts, hnil] at hempty
        cases hempty
      obtain ⟨m, hm, -⟩ := hshown hne
      rw [if_pos (.inr hempty)] at hm
      cases hm
    refine ⟨fun b hb => ⟨huse b hb, ?_⟩, hempty⟩
    by_contra himage
    obtain ⟨m, hm, hrepresents⟩ :=
      hshown (shown_ne_nil_of_image hb (by simpa using himage))
    -- the one message has a text, which represents no image
    by_cases htexts : msg.texts = [] ∨ msg.texts = [""]
    · rw [if_pos htexts] at hm
      cases hm
    · rw [if_neg htexts] at hm
      rw [← (List.cons.inj hm).1] at hrepresents
      exact himage (shown_is_text_iff.1 hrepresents.1 b hb)
  · rintro ⟨hblocks, hempty⟩
    refine ⟨?_, tool_results_kept msg, ?_⟩
    · rw [tool_result_messages_calls, (no_tool_use_iff to_string).2 fun b hb => (hblocks b hb).1]
    · intro hshown
      have htext := shown_is_text_iff.2 fun b hb => (hblocks b hb).2
      have hnonempty : ¬(msg.texts = [] ∨ msg.texts = [""]) := by
        rintro (hnil | hone)
        · apply hshown
          rw [← shown_texts, List.filterMap_eq_nil_iff] at hnil
          apply List.eq_nil_iff_forall_not_mem.2
          intro b hb
          have hsome := htext b hb
          rw [hnil b hb] at hsome
          cases hsome
        · exact hempty hone
      rw [hrole, if_neg hnonempty]
      refine ⟨_, rfl, htext, "\n", ?_⟩
      rw [shown_texts]

/-! ## 6. A message with calls, images or text -/

/-- Without results no result is kept, and none is there. -/
theorem no_result_ids (h : msg.content.any Content.is_tool_result = false) :
    msg.content.filterMap Content.tool_result_id = [] := by
  apply List.filterMap_eq_nil_iff.2
  intro b hb
  have hnot := List.any_eq_false.1 h b hb
  cases b <;> first | rfl | exact absurd rfl hnot

/-- A single message of the same role keeps what it represents. -/
theorem keeps_single_iff {m : OpenAIChatMessage} (hrole : m.role = role_text msg.role)
    (hresults : msg.content.any Content.is_tool_result = false)
    (hcalls : m.tool_calls.getD [] = msg.content.filterMap (function_call to_string)) :
    Keeps to_string msg [m] ↔ (msg.content.filter Content.is_shown ≠ [] →
      Represents (msg.content.filter Content.is_shown) m) := by
  have hsame : [m].filter (fun m => m.role = role_text msg.role) = [m] := by
    simp [hrole]
  have htool : [m].filter (fun m => m.role = "tool") = [] := by
    simp [hrole, role_text_ne_tool]
  constructor
  · intro h hshown
    obtain ⟨m', hm, hrepresents⟩ := h.shown hshown
    rw [hsame] at hm
    rwa [(List.cons.inj hm).1]
  · intro h
    refine ⟨?_, ?_, fun hshown => ⟨m, hsame, h hshown⟩⟩
    · rw [List.flatMap_singleton, hcalls]
    · rw [htool, no_result_ids hresults]
      rfl

/-- A text represents a message without images. -/
theorem represents_text_iff {m : OpenAIChatMessage}
    (hm : m.content = some (.inr msg.text) ∨ m.content = none ∧ msg.text = "") :
    (msg.content.filter Content.is_shown ≠ [] →
      Represents (msg.content.filter Content.is_shown) m) ↔
      ∀ b ∈ msg.content, b.is_image = false := by
  have hrepresents : Represents (msg.content.filter Content.is_shown) m ↔
      ∀ b ∈ msg.content, b.is_image = false := by
    rw [← shown_is_text_iff]
    rcases hm with hm | ⟨hm, hempty⟩
    · unfold Represents
      rw [hm, shown_texts]
      exact and_iff_left ⟨"", rfl⟩
    · unfold Represents
      rw [hm, shown_texts]
      exact and_iff_left ⟨"", hempty.symm⟩
  rw [hrepresents]
  constructor
  · intro h b hb
    by_contra himage
    have htrue : b.is_image = true := by simpa using himage
    exact himage (h (shown_ne_nil_of_image hb htrue) b hb)
  · exact fun h _ => h

theorem length_parts_le (content : List (Content Value)) :
    (content.filterMap message_part).length ≤ (content.filter Content.is_shown).length := by
  induction content with
  | nil => exact Nat.le_refl 0
  | cons b content ih =>
      have hpart : (message_part b).isSome → b.is_shown = true := by
        intro h
        cases b <;> first | rfl | cases h
      rw [List.filterMap_cons, List.filter_cons]
      cases hb : message_part b with
      | none =>
          dsimp only
          split
          · rw [List.length_cons]
            omega
          · exact ih
      | some part =>
          rw [hpart (by rw [hb]; rfl), if_pos rfl, List.length_cons, List.length_cons]
          omega

/-- The parts represent the blocks, if there is no image by its bytes. -/
theorem shows_parts_iff (content : List (Content Value)) :
    List.Forall₂ Shows (content.filter Content.is_shown) (content.filterMap message_part) ↔
      ∀ mime_type data, .Image mime_type data ∉ content := by
  induction content with
  | nil => exact ⟨fun _ _ _ => List.not_mem_nil, fun _ => .nil⟩
  | cons b content ih =>
      have hskip (hb : ∀ mime_type data, Content.Image mime_type data ≠ b) :
          (∀ mime_type data, .Image mime_type data ∉ b :: content) ↔
            ∀ mime_type data, .Image mime_type data ∉ content := by
        simp [hb]
      cases b with
      | Text text =>
          rw [hskip (by intro _ _ h; cases h), ← ih]
          exact List.forall₂_cons.trans (and_iff_right rfl)
      | ImageUrl url =>
          rw [hskip (by intro _ _ h; cases h), ← ih]
          exact List.forall₂_cons.trans (and_iff_right rfl)
      | Image mime_type data =>
          -- a block more than parts
          have hlength := length_parts_le content
          constructor
          · intro h
            have heq : ((content.filter Content.is_shown).length + 1) =
                (content.filterMap message_part).length := h.length_eq
            omega
          · exact fun h => absurd List.mem_cons_self (h mime_type data)
      | Pdf data => rw [hskip (by intro _ _ h; cases h), ← ih]; rfl
      | Audio mime_type data => rw [hskip (by intro _ _ h; cases h), ← ih]; rfl
      | Thinking text signature => rw [hskip (by intro _ _ h; cases h), ← ih]; rfl
      | ToolUse id name arguments => rw [hskip (by intro _ _ h; cases h), ← ih]; rfl
      | ToolResult id name is_error result =>
          rw [hskip (by intro _ _ h; cases h), ← ih]; rfl
      | ResourceLink uri name description mime_type =>
          rw [hskip (by intro _ _ h; cases h), ← ih]; rfl

end

/-! ## 7. Exactly when -/

section

variable (to_string : Value → String)

/-- A message keeps its blocks exactly when its way is one for them. -/
theorem keeps_iff (msg : ChatMessage Value) :
    Keeps to_string msg (converted to_string msg) ↔ Convertible msg := by
  rw [converted, Convertible]
  by_cases hresults : msg.content.any Content.is_tool_result = true
  · rw [if_pos hresults, if_pos hresults]
    exact keeps_tool_results_iff
  · rw [if_neg hresults, if_neg hresults]
    have hresults : msg.content.any Content.is_tool_result = false := by simpa using hresults
    by_cases huse : msg.content.any Content.is_tool_use = true
    · have hcalls : (tool_use_message to_string msg).tool_calls.getD [] =
          msg.content.filterMap (function_call to_string) := by
        rw [tool_use_message]
        by_cases hempty : (msg.content.filterMap (function_call to_string)).isEmpty = true
        · rw [if_pos hempty, List.isEmpty_iff.1 hempty]
          rfl
        · rw [if_neg hempty]
          rfl
      rw [if_pos huse, if_pos huse, keeps_single_iff rfl hresults hcalls, represents_text_iff]
      by_cases htext : msg.text = ""
      · exact .inr ⟨if_pos htext, htext⟩
      · exact .inl (if_neg htext)
    · rw [if_neg huse, if_neg huse]
      have hcalls : msg.content.filterMap (function_call to_string) = [] := by
        apply (no_tool_use_iff to_string).2
        intro b hb
        have hnot := List.any_eq_false.1 (by simpa using huse) b hb
        simpa using hnot
      have hplain (content : List MessageContent ⊕ String) :
          Keeps to_string msg [plain_message msg content] ↔ _ :=
        keeps_single_iff rfl hresults hcalls.symm
      by_cases himages : msg.content.any Content.is_image = true
      · obtain ⟨b, hb, himage⟩ := List.any_eq_true.1 himages
        rw [if_pos himages, hplain, ← shows_parts_iff]
        exact ⟨fun h => h (shown_ne_nil_of_image hb himage), fun h _ => h⟩
      · have hnone : ∀ b ∈ msg.content, b.is_image = false := by
          intro b hb
          have hnot := List.any_eq_false.1 (by simpa using himages) b hb
          simpa using hnot
        rw [if_neg himages, hplain, represents_text_iff (.inl rfl)]
        refine ⟨fun _ mime_type data hmem => ?_, fun _ => hnone⟩
        exact absurd (hnone _ hmem) (by simp [Content.is_image])

theorem openai_msgs_eq (messages : List (ChatMessage Value)) :
    openai_msgs to_string messages = messages.flatMap (converted to_string) := by
  have hfold : ∀ out : List OpenAIChatMessage,
      messages.foldl (fun out msg => convert_chat_message_to_openai to_string msg out) out =
        out ++ messages.flatMap (converted to_string) := by
    induction messages with
    | nil => exact fun out => (List.append_nil out).symm
    | cons msg messages ih =>
        intro out
        rw [List.foldl_cons, ih, convert_chat_message_to_openai, List.append_assoc,
          List.flatMap_cons]
  exact hfold []

/-- **Conversion loses nothing** exactly when every message has only blocks that its way
keeps. -/
theorem loses_nothing_iff (messages : List (ChatMessage Value)) :
    LosesNothing to_string messages ↔ ∀ msg ∈ messages, Convertible msg := by
  rw [LosesNothing, and_iff_right (openai_msgs_eq to_string messages)]
  exact forall₂_congr fun msg _ => keeps_iff to_string msg

end

/-- A result, and an image beside it. -/
def image_with_result : ChatMessage String :=
  ⟨.User, [.ToolResult "c1" (some "screenshot") false [.Text "taken"],
    .ImageUrl "https://example.com/shot.png"]⟩

/-- The image is in none of the messages. -/
theorem image_with_result_lost :
    openai_msgs (fun arguments => arguments) [image_with_result] =
        [⟨"tool", some (.inr "taken"), none, some "c1", none⟩] ∧
      ¬LosesNothing (fun arguments => arguments) [image_with_result] := by
  refine ⟨by decide, fun h => ?_⟩
  have hkept := (keeps_iff _ _).1 (h.2 image_with_result List.mem_cons_self)
  have hresults : image_with_result.content.any Content.is_tool_result = true := rfl
  rw [Convertible, if_pos hresults] at hkept
  have himage := (hkept.1 (.ImageUrl "https://example.com/shot.png")
    (List.mem_cons_of_mem _ List.mem_cons_self)).2
  cases himage

end Querymt.OpenAI
