/-
`Provider/MediaMarkers.lean` -- the markers for images in a request to llama.cpp.

Two walks over the same messages have to agree. `messages_to_json` (`llama-cpp/src/messages.rs`)
writes a marker for each image, and `extract_media` (`multimodal.rs`) collects the images; the
k-th marker of the prompt is then shown as the k-th image. A tool result leaves its message ahead
of the message that it stands in, and so do the markers of its images.

The markers stand for the attachments in order exactly when no image of a message comes before a
result with images (`lines_up_iff`).
-/
import Querymt.Provider.OpenAIMessages

set_option autoImplicit false

open Querymt.OpenAI (ChatRole Content ChatMessage joined_eq_empty)

namespace Querymt.MediaMarkers

/-! ## 1. The code -/

structure JsonToolCall where
  id : String
  call_type : String
  name : String
  arguments : String

/-- A message of the request; its content is a string, or null. -/
structure JsonMessage (Text : Type) where
  role : String
  content : Option Text
  reasoning_content : Option String
  tool_calls : Option (List JsonToolCall)
  tool_call_id : Option String
  name : Option String

def JsonMessage.map {Text Text' : Type} (f : Text → Text') (message : JsonMessage Text) :
    JsonMessage Text' where
  role := message.role
  content := message.content.map f
  reasoning_content := message.reasoning_content
  tool_calls := message.tool_calls
  tool_call_id := message.tool_call_id
  name := message.name

section

variable {Text : Type}

def plain_json (role : String) (content : Text) : JsonMessage Text :=
  ⟨role, some content, none, none, none, none⟩

def tool_json (id : String) (name : Option String) (content : Text) : JsonMessage Text :=
  ⟨"tool", some content, none, none, some id, some (name.getD "")⟩

/-- The message for the texts, markers and calls of a message, if it is to have one. -/
def own_json (role thinking : String) (tool_calls_array : List JsonToolCall) (text : Text)
    (is_empty : Bool) : List (JsonMessage Text) :=
  let reasoning_content := if thinking = "" then none else some thinking
  if tool_calls_array ≠ [] then
    [⟨"assistant", if is_empty then none else some text, reasoning_content, some tool_calls_array,
      none, none⟩]
  else if is_empty = false ∨ thinking ≠ "" then
    [⟨role, some text, reasoning_content, none, none, none⟩]
  else []

end

section

variable {Value : Type}

/-- An image by its bytes; one by its address is not supported. -/
def is_inline_image : Content Value → Bool
  | .Image _ _ => true
  | _ => false

def thinking_text (msg : ChatMessage Value) : String :=
  "\n".intercalate (msg.content.filterMap Content.as_thinking)

def role_name : ChatRole → String
  | .User => "user"
  | .Assistant => "assistant"

variable (to_text : Value → String)

def json_tool_call (id name : String) (arguments : Value) : JsonToolCall :=
  ⟨id, "function", name, to_text arguments⟩

/-- The state of the loop over the blocks of a message. -/
structure Scan where
  tool_calls_array : List JsonToolCall
  image_count : ℕ
  text_parts : List String
  pending_markers : ℕ
  json_messages : List (JsonMessage String)
  media_count : ℕ

def scan_block (marker : String) (s : Scan) : Content Value → Scan
  | .Text text =>
      { s with
        text_parts := s.text_parts ++ List.replicate s.pending_markers marker ++ [text]
        pending_markers := 0 }
  | .Image _ _ =>
      { s with image_count := s.image_count + 1, pending_markers := s.pending_markers + 1 }
  | .ToolUse id name arguments =>
      { s with tool_calls_array := s.tool_calls_array ++ [json_tool_call to_text id name arguments] }
  | .ToolResult id name _ content =>
      let output_text := "\n".intercalate (content.filterMap Content.as_text)
      let nested_images := (content.filter is_inline_image).length
      { s with
        json_messages := s.json_messages ++ [tool_json id name output_text] ++
          List.replicate nested_images (plain_json "user" marker)
        media_count := s.media_count + nested_images }
  | _ => s

/-- The loop over the messages. -/
def convert_message (marker : String) (out : List (JsonMessage String) × ℕ)
    (msg : ChatMessage Value) : List (JsonMessage String) × ℕ :=
  let s := msg.content.foldl (scan_block to_text marker) ⟨[], 0, [], 0, out.1, out.2⟩
  let text := "\n".intercalate (s.text_parts ++ List.replicate s.pending_markers marker)
  (s.json_messages ++
      own_json (role_name msg.role) (thinking_text msg) s.tool_calls_array text (decide (text = "")),
    s.media_count + s.image_count)

def system_json (system : List String) : List (JsonMessage String) :=
  if system = [] then [] else [plain_json "system" ("\n\n".intercalate system)]

/-- The messages before they are printed, with `media_count`. -/
def messages_to_json (system : List String) (messages : List (ChatMessage Value))
    (media_marker : Option String) : List (JsonMessage String) × ℕ :=
  messages.foldl (convert_message to_text (media_marker.getD "")) (system_json system, 0)

structure MediaAttachment where
  data : List UInt8
  mime : String
  is_audio : Bool

def image_media : Content Value → List MediaAttachment
  | .Image mime_type data => [⟨data, mime_type, false⟩]
  | _ => []

/-- The images of the content of a tool result. -/
def nested_media : Content Value → List MediaAttachment
  | .ToolResult _ _ _ content => content.flatMap image_media
  | _ => []

def block_media (block : Content Value) : List MediaAttachment :=
  image_media block ++ nested_media block

def extract_media (messages : List (ChatMessage Value)) : List MediaAttachment :=
  messages.flatMap fun msg => msg.content.flatMap block_media

/-! ## 2. What each marker stands for -/

/-- An attachment with its place among the attachments. -/
abbrev Placed := MediaAttachment × ℕ

/-- A part of the content of a rendered message. -/
inductive Part where
  | Text (text : String)
  | Marker (image : Placed)

def Part.render (marker : String) : Part → String
  | Text text => text
  | Marker _ => marker

def Part.image : Part → Option Placed
  | Text _ => none
  | Marker image => some image

def render_parts (marker : String) (parts : List Part) : String :=
  "\n".intercalate (parts.map (Part.render marker))

/-- The loop over the blocks, when each marker keeps the image that it is written for. -/
structure Marking where
  tool_calls_array : List JsonToolCall
  parts : List Part
  pending : List Placed
  json_messages : List (JsonMessage (List Part))
  next : ℕ

def mark_block (s : Marking) (block : Content Value) : Marking :=
  match block with
  | .Text text =>
      { s with parts := s.parts ++ s.pending.map .Marker ++ [.Text text], pending := [] }
  | .Image _ _ =>
      { s with
        pending := s.pending ++ (image_media block).zipIdx s.next
        next := s.next + (image_media block).length }
  | .ToolUse id name arguments =>
      { s with tool_calls_array := s.tool_calls_array ++ [json_tool_call to_text id name arguments] }
  | .ToolResult id name _ content =>
      { s with
        json_messages := s.json_messages ++
          [tool_json id name [.Text ("\n".intercalate (content.filterMap Content.as_text))]] ++
          ((nested_media block).zipIdx s.next).map fun image => plain_json "user" [.Marker image]
        next := s.next + (nested_media block).length }
  | _ => s

def mark_message (marker : String) (out : List (JsonMessage (List Part)) × ℕ)
    (msg : ChatMessage Value) : List (JsonMessage (List Part)) × ℕ :=
  let s := msg.content.foldl (mark_block to_text) ⟨[], [], [], out.1, out.2⟩
  let parts := s.parts ++ s.pending.map .Marker
  (s.json_messages ++
      own_json (role_name msg.role) (thinking_text msg) s.tool_calls_array parts
        (decide (render_parts marker parts = "")),
    s.next)

def marked_messages (system : List String) (messages : List (ChatMessage Value))
    (media_marker : Option String) : List (JsonMessage (List Part)) × ℕ :=
  messages.foldl (mark_message to_text (media_marker.getD ""))
    ((system_json system).map (JsonMessage.map fun text => [.Text text]), 0)

/-- The images of the markers in the content of the messages, in order. -/
def images_of (json : List (JsonMessage (List Part))) : List Placed :=
  json.flatMap fun message => (message.content.getD []).filterMap Part.image

/-- The images that the markers stand for; an empty text marks nothing. -/
def markers (system : List String) (messages : List (ChatMessage Value))
    (media_marker : Option String) : List Placed :=
  if media_marker.getD "" = "" then []
  else images_of (marked_messages to_text system messages media_marker).1

/-- **The markers line up with the media**. -/
structure LinesUp (system : List String) (messages : List (ChatMessage Value))
    (media_marker : Option String) : Prop where
  counted : (markers to_text system messages media_marker).length =
    (messages_to_json to_text system messages media_marker).2
  extracted : (messages_to_json to_text system messages media_marker).2 =
    (extract_media messages).length
  in_order : ∀ k, k < (markers to_text system messages media_marker).length →
    (markers to_text system messages media_marker)[k]? =
      ((extract_media messages)[k]?).map fun attachment => (attachment, k)

/-- No image of the message comes before a result with images. -/
def Straight (msg : ChatMessage Value) : Prop :=
  msg.content.Pairwise fun block later =>
    is_inline_image block = true → nested_media later = []

end

/-! ## 3. The two loops over the blocks -/

section

variable {Value : Type} {to_text : Value → String} {marker : String}

theorem nested_media_length (id : String) (name : Option String) (is_error : Bool)
    (content : List (Content Value)) :
    (nested_media (.ToolResult id name is_error content)).length =
      (content.filter is_inline_image).length := by
  rw [nested_media]
  induction content with
  | nil => rfl
  | cons block content ih =>
      rw [List.flatMap_cons, List.length_append, ih, List.filter_cons]
      cases block <;> simp [image_media, is_inline_image, Nat.add_comm 1]

/-- Both loops at the same block: one has texts where the other has parts. -/
structure Renders (marker : String) (s : Scan) (m : Marking) : Prop where
  tool_calls : s.tool_calls_array = m.tool_calls_array
  parts : s.text_parts = m.parts.map (Part.render marker)
  pending : s.pending_markers = m.pending.length
  json : s.json_messages = m.json_messages.map (JsonMessage.map (render_parts marker))
  count : s.media_count + s.image_count = m.next

theorem render_single (part : Part) : render_parts marker [part] = part.render marker :=
  String.intercalate_singleton

theorem render_pending (pending : List Placed) :
    (pending.map Part.Marker).map (Part.render marker) =
      List.replicate pending.length marker := by
  rw [List.map_map]
  exact List.map_const'

theorem Renders.block {s : Scan} {m : Marking} (h : Renders marker s m) (block : Content Value) :
    Renders marker (scan_block to_text marker s block) (mark_block to_text m block) := by
  cases block with
  | Text text =>
      refine ⟨h.tool_calls, ?_, rfl, h.json, h.count⟩
      simp only [scan_block, mark_block, List.map_append, render_pending, h.parts, h.pending]
      rfl
  | Image mime_type data =>
      refine ⟨h.tool_calls, h.parts, ?_, h.json, ?_⟩
      · simp [scan_block, mark_block, image_media, h.pending]
      · have hcount := h.count
        simp only [scan_block, mark_block, image_media, List.length_singleton]
        omega
  | ToolUse id name arguments =>
      refine ⟨?_, h.parts, h.pending, h.json, h.count⟩
      simp only [scan_block, mark_block, h.tool_calls]
  | ToolResult id name is_error content =>
      refine ⟨h.tool_calls, h.parts, h.pending, ?_, ?_⟩
      · simp only [scan_block, mark_block, List.map_append, h.json, List.map_map]
        have hmarkers : ((nested_media (.ToolResult id name is_error content)).zipIdx m.next).map
            (JsonMessage.map (render_parts marker) ∘ fun image => plain_json "user" [.Marker image]) =
            List.replicate (content.filter is_inline_image).length (plain_json "user" marker) := by
          rw [← nested_media_length id name is_error, ← List.length_zipIdx (i := m.next)]
          refine (List.map_congr_left fun image _ => ?_).trans List.map_const'
          exact congrArg (plain_json "user") (render_single (.Marker image))
        rw [hmarkers]
        simp [tool_json, JsonMessage.map, render_single, Part.render]
      · have hcount := h.count
        simp only [scan_block, mark_block, nested_media_length]
        omega
  | ImageUrl url => exact h
  | Pdf data => exact h
  | Audio mime_type data => exact h
  | Thinking text signature => exact h
  | ResourceLink uri name description mime_type => exact h

theorem Renders.blocks {s : Scan} {m : Marking} (h : Renders marker s m)
    (blocks : List (Content Value)) :
    Renders marker (blocks.foldl (scan_block to_text marker) s)
      (blocks.foldl (mark_block to_text) m) := by
  induction blocks generalizing s m with
  | nil => exact h
  | cons block blocks ih => exact ih (h.block block)

theorem own_json_map {Text Text' : Type} (f : Text → Text') (role thinking : String)
    (tool_calls_array : List JsonToolCall) (text : Text) (is_empty : Bool) :
    (own_json role thinking tool_calls_array text is_empty).map (JsonMessage.map f) =
      own_json role thinking tool_calls_array (f text) is_empty := by
  unfold own_json
  dsimp only
  split_ifs <;> rfl

/-- What the code writes is what is left of the marked messages when they are rendered. -/
theorem convert_mark (msg : ChatMessage Value) (out : List (JsonMessage (List Part)) × ℕ) :
    convert_message to_text marker (out.1.map (JsonMessage.map (render_parts marker)), out.2) msg =
      ((mark_message to_text marker out msg).1.map (JsonMessage.map (render_parts marker)),
        (mark_message to_text marker out msg).2) := by
  have hstart : Renders marker
      ⟨[], 0, [], 0, out.1.map (JsonMessage.map (render_parts marker)), out.2⟩
      ⟨[], [], [], out.1, out.2⟩ := ⟨rfl, rfl, rfl, rfl, rfl⟩
  have h := @Renders.blocks _ to_text _ _ _ hstart msg.content
  unfold convert_message mark_message
  dsimp only at h ⊢
  rw [List.map_append, own_json_map, h.json, h.tool_calls, h.count, h.parts, h.pending,
    ← render_pending, ← List.map_append]
  rfl

theorem messages_to_json_eq (system : List String) (messages : List (ChatMessage Value))
    (media_marker : Option String) :
    messages_to_json to_text system messages media_marker =
      ((marked_messages to_text system messages media_marker).1.map
          (JsonMessage.map (render_parts (media_marker.getD ""))),
        (marked_messages to_text system messages media_marker).2) := by
  unfold messages_to_json marked_messages
  have hstart : (system_json system, 0) =
      (((system_json system).map (JsonMessage.map fun text => [Part.Text text])).map
        (JsonMessage.map (render_parts (media_marker.getD ""))), 0) := by
    unfold system_json
    split_ifs
    · rfl
    · simp [plain_json, JsonMessage.map, render_single, Part.render]
  rw [hstart]
  generalize hout : ((system_json system).map (JsonMessage.map fun text => [Part.Text text]),
    0) = out
  have hfst := congrArg Prod.fst hout
  have hsnd := congrArg Prod.snd hout
  dsimp only at hfst hsnd
  rw [hfst, hsnd]
  clear hstart hout hfst hsnd
  induction messages generalizing out with
  | nil => rfl
  | cons msg messages ih => rw [List.foldl_cons, List.foldl_cons, convert_mark, ih]

end

/-! ## 4. Where the markers end up -/

section

variable {Value : Type}

/-- The images in results among the blocks, from a place on. -/
def nested_placed : ℕ → List (Content Value) → List Placed
  | _, [] => []
  | n, block :: blocks =>
      (nested_media block).zipIdx n ++ nested_placed (n + (block_media block).length) blocks

/-- The other images among the blocks. -/
def own_placed : ℕ → List (Content Value) → List Placed
  | _, [] => []
  | n, block :: blocks =>
      (image_media block).zipIdx n ++ own_placed (n + (block_media block).length) blocks

/-- The order in which the markers of all messages are rendered. -/
def rendered_order : ℕ → List (ChatMessage Value) → List Placed
  | _, [] => []
  | n, msg :: messages =>
      nested_placed n msg.content ++ own_placed n msg.content ++
        rendered_order (n + (msg.content.flatMap block_media).length) messages

theorem block_media_of_image {block : Content Value} (h : is_inline_image block = true) :
    nested_media block = [] ∧ ∃ image, image_media block = [image] := by
  cases block with
  | Image mime_type data => exact ⟨rfl, _, rfl⟩
  | _ => cases h

theorem image_media_of_not {block : Content Value} (h : is_inline_image block = false) :
    image_media block = [] := by
  cases block with
  | Image mime_type data => cases h
  | _ => rfl

theorem placed_length (n : ℕ) (blocks : List (Content Value)) :
    (nested_placed n blocks ++ own_placed n blocks).length =
      (blocks.flatMap block_media).length := by
  induction blocks generalizing n with
  | nil => rfl
  | cons block blocks ih =>
      have hrest := ih (n + (block_media block).length)
      simp only [List.length_append] at hrest
      simp only [nested_placed, own_placed, List.flatMap_cons, List.length_append,
        List.length_zipIdx, ← hrest]
      rw [block_media, List.length_append]
      omega

theorem le_of_mem_nested {n : ℕ} {blocks : List (Content Value)} {image : Placed}
    (h : image ∈ nested_placed n blocks) : n ≤ image.2 := by
  induction blocks generalizing n with
  | nil => exact absurd h List.not_mem_nil
  | cons block blocks ih =>
      obtain h | h := List.mem_append.1 h
      · exact List.le_snd_of_mem_zipIdx h
      · have hle := ih h
        omega

theorem nested_eq_nil_iff (n : ℕ) (blocks : List (Content Value)) :
    nested_placed n blocks = [] ↔ ∀ block ∈ blocks, nested_media block = [] := by
  induction blocks generalizing n with
  | nil => simp [nested_placed]
  | cons block blocks ih =>
      rw [nested_placed, List.append_eq_nil_iff, ih, List.forall_mem_cons, List.zipIdx_eq_nil_iff]

/-- When no block is a result with images, all images are the message's own. -/
theorem own_eq_zipIdx {n : ℕ} {blocks : List (Content Value)}
    (h : ∀ block ∈ blocks, nested_media block = []) :
    own_placed n blocks = (blocks.flatMap block_media).zipIdx n := by
  induction blocks generalizing n with
  | nil => rfl
  | cons block blocks ih =>
      obtain ⟨hblock, hrest⟩ := List.forall_mem_cons.1 h
      rw [own_placed, ih hrest, List.flatMap_cons, List.zipIdx_append, block_media, hblock,
        List.append_nil]

/-- **One message**: its markers are in order exactly when no image comes before a result with
images. -/
theorem placed_eq_zipIdx_iff (n : ℕ) (blocks : List (Content Value)) :
    nested_placed n blocks ++ own_placed n blocks = (blocks.flatMap block_media).zipIdx n ↔
      blocks.Pairwise fun block later => is_inline_image block = true → nested_media later = [] := by
  induction blocks generalizing n with
  | nil => exact iff_of_true rfl .nil
  | cons block blocks ih =>
      rw [List.pairwise_cons, nested_placed, own_placed, List.flatMap_cons, List.zipIdx_append]
      by_cases himage : is_inline_image block = true
      · -- the image is numbered `n`, and every image in a later result has a greater number
        obtain ⟨hnested, image, hown⟩ := block_media_of_image himage
        rw [block_media, hnested, hown]
        simp only [List.zipIdx_nil, List.nil_append, List.append_nil, List.length_singleton,
          List.zipIdx_singleton, himage, true_implies, List.singleton_append]
        constructor
        · intro h
          have hnil : nested_placed (n + 1) blocks = [] := by
            cases hplaced : nested_placed (n + 1) blocks with
            | nil => rfl
            | cons first rest =>
                rw [hplaced, List.cons_append] at h
                have hle := le_of_mem_nested (hplaced ▸ List.mem_cons_self)
                have hfirst := (List.cons.inj h).1
                rw [hfirst] at hle
                exact absurd hle (Nat.not_succ_le_self n)
          have hall := (nested_eq_nil_iff _ _).1 hnil
          exact ⟨hall, List.pairwise_of_forall_mem_list fun _ _ later hlater _ => hall later hlater⟩
        · rintro ⟨hall, -⟩
          rw [(nested_eq_nil_iff _ _).2 hall, own_eq_zipIdx hall, List.nil_append]
      · have hown := image_media_of_not (Bool.eq_false_of_not_eq_true himage)
        rw [block_media, hown, List.nil_append, List.zipIdx_nil, List.nil_append, List.append_assoc,
          List.append_cancel_left_eq, ih]
        simp [himage]

theorem straight_of_no_media {messages : List (ChatMessage Value)}
    (h : extract_media messages = []) : ∀ msg ∈ messages, Straight msg := by
  intro msg hmsg
  refine List.pairwise_of_forall_mem_list fun _ _ later hlater _ => ?_
  have hblock := List.flatMap_eq_nil_iff.1 (List.flatMap_eq_nil_iff.1 h msg hmsg) later hlater
  exact (List.append_eq_nil_iff.1 hblock).2

/-- **All messages**: each has its own range of places. -/
theorem rendered_order_iff (n : ℕ) (messages : List (ChatMessage Value)) :
    rendered_order n messages = (extract_media messages).zipIdx n ↔
      ∀ msg ∈ messages, Straight msg := by
  induction messages generalizing n with
  | nil => simp [rendered_order, extract_media]
  | cons msg messages ih =>
      have hlength : (nested_placed n msg.content ++ own_placed n msg.content).length =
          ((msg.content.flatMap block_media).zipIdx n).length := by
        rw [placed_length, List.length_zipIdx]
      rw [rendered_order, extract_media, List.flatMap_cons, List.zipIdx_append,
        List.forall_mem_cons, ← ih, Straight, ← placed_eq_zipIdx_iff n]
      exact ⟨fun h => List.append_inj h hlength, fun h => congrArg₂ _ h.1 h.2⟩

end

section

variable {Value : Type} {to_text : Value → String} {marker : String}

@[simp] theorem images_of_append (json json' : List (JsonMessage (List Part))) :
    images_of (json ++ json') = images_of json ++ images_of json' := List.flatMap_append

theorem images_of_tool (id : String) (name : Option String) (text : String) :
    images_of [tool_json id name [.Text text]] = [] := rfl

theorem images_of_users (images : List Placed) :
    images_of (images.map fun image => plain_json "user" [.Marker image]) = images := by
  unfold images_of
  rw [List.flatMap_map]
  exact List.flatMap_singleton' images

theorem images_of_pending (pending : List Placed) :
    (pending.map Part.Marker).filterMap Part.image = pending := by
  rw [List.filterMap_map]
  exact List.filterMap_some

/-- What a block adds: the images in a result at once, an image of its own in the end. -/
theorem mark_block_images (m : Marking) (block : Content Value) :
    images_of (mark_block to_text m block).json_messages =
        images_of m.json_messages ++ (nested_media block).zipIdx m.next ∧
      ((mark_block to_text m block).parts.filterMap Part.image ++
          (mark_block to_text m block).pending =
        m.parts.filterMap Part.image ++ m.pending ++ (image_media block).zipIdx m.next) ∧
      (mark_block to_text m block).next = m.next + (block_media block).length := by
  cases block with
  | Text text =>
      have hpending := images_of_pending m.pending
      simp only [List.filterMap_map] at hpending
      simp [mark_block, nested_media, image_media, block_media, hpending, Part.image]
  | Image mime_type data => simp [mark_block, nested_media, image_media, block_media]
  | ToolResult id name is_error content =>
      simp only [mark_block, images_of_append, images_of_tool, images_of_users, List.append_nil]
      simp [image_media, block_media]
  | _ => simp [mark_block, nested_media, image_media, block_media]

theorem mark_blocks_images (m : Marking) (blocks : List (Content Value)) :
    images_of (blocks.foldl (mark_block to_text) m).json_messages =
        images_of m.json_messages ++ nested_placed m.next blocks ∧
      ((blocks.foldl (mark_block to_text) m).parts.filterMap Part.image ++
          (blocks.foldl (mark_block to_text) m).pending =
        m.parts.filterMap Part.image ++ m.pending ++ own_placed m.next blocks) ∧
      (blocks.foldl (mark_block to_text) m).next =
        m.next + (blocks.flatMap block_media).length := by
  induction blocks generalizing m with
  | nil => simp [nested_placed, own_placed]
  | cons block blocks ih =>
      obtain ⟨hjson, hparts, hnext⟩ := ih (mark_block to_text m block)
      obtain ⟨hjson', hparts', hnext'⟩ := @mark_block_images _ to_text m block
      rw [List.foldl_cons, hjson, hparts, hnext, hjson', hparts', hnext', nested_placed, own_placed,
        List.flatMap_cons, List.length_append]
      exact ⟨List.append_assoc _ _ _, List.append_assoc _ _ _, Nat.add_assoc _ _ _⟩

/-- A marker that is not empty is not lost with an empty text. -/
theorem images_of_empty (hmarker : marker ≠ "") {parts : List Part}
    (h : render_parts marker parts = "") : parts.filterMap Part.image = [] := by
  have hempty : ∀ part ∈ parts, part.render marker = "" := by
    intro part hpart
    have hmem := List.mem_map_of_mem (f := Part.render marker) hpart
    obtain hnone | hone := joined_eq_empty.1 h
    · rw [hnone] at hmem
      exact absurd hmem List.not_mem_nil
    · rw [hone] at hmem
      exact List.mem_singleton.1 hmem
  rw [List.filterMap_eq_nil_iff]
  intro part hpart
  cases part with
  | Text text => rfl
  | Marker image => exact absurd (hempty _ hpart) hmarker

theorem images_of_own (hmarker : marker ≠ "") (role thinking : String)
    (tool_calls_array : List JsonToolCall) (parts : List Part) :
    images_of (own_json role thinking tool_calls_array parts
      (decide (render_parts marker parts = ""))) = parts.filterMap Part.image := by
  unfold own_json
  by_cases hempty : render_parts marker parts = ""
  · rw [images_of_empty hmarker hempty]
    dsimp only
    split_ifs <;> simp_all [images_of, images_of_empty hmarker hempty]
  · dsimp only
    split_ifs <;> simp_all [images_of]

theorem mark_message_images (hmarker : marker ≠ "")
    (out : List (JsonMessage (List Part)) × ℕ) (msg : ChatMessage Value) :
    images_of (mark_message to_text marker out msg).1 =
        images_of out.1 ++ (nested_placed out.2 msg.content ++ own_placed out.2 msg.content) := by
  obtain ⟨hjson, hparts, -⟩ := @mark_blocks_images _ to_text ⟨[], [], [], out.1, out.2⟩ msg.content
  unfold mark_message
  dsimp only at hjson hparts ⊢
  rw [images_of_append, images_of_own hmarker, List.filterMap_append, images_of_pending, hjson,
    hparts, List.append_assoc]
  rfl

theorem mark_message_next (out : List (JsonMessage (List Part)) × ℕ) (msg : ChatMessage Value) :
    (mark_message to_text marker out msg).2 =
      out.2 + (msg.content.flatMap block_media).length :=
  (mark_blocks_images ⟨[], [], [], out.1, out.2⟩ msg.content).2.2

/-- **The order of the markers** in the rendered messages. -/
theorem marked_images (hmarker : marker ≠ "") (messages : List (ChatMessage Value))
    (out : List (JsonMessage (List Part)) × ℕ) :
    images_of (messages.foldl (mark_message to_text marker) out).1 =
      images_of out.1 ++ rendered_order out.2 messages := by
  induction messages generalizing out with
  | nil => simp [rendered_order]
  | cons msg messages ih =>
      rw [List.foldl_cons, ih, mark_message_images hmarker, mark_message_next, rendered_order]
      simp only [List.append_assoc]

theorem marked_next (messages : List (ChatMessage Value))
    (out : List (JsonMessage (List Part)) × ℕ) :
    (messages.foldl (mark_message to_text marker) out).2 =
      out.2 + (extract_media messages).length := by
  induction messages generalizing out with
  | nil => rfl
  | cons msg messages ih =>
      rw [List.foldl_cons, ih, mark_message_next, extract_media, extract_media, List.flatMap_cons,
        List.length_append, Nat.add_assoc]

end

/-! ## 5. The markers line up -/

section

variable {Value : Type} (to_text : Value → String) (system : List String)
  (messages : List (ChatMessage Value)) (media_marker : Option String)

/-- The count is right, whatever the order. -/
theorem media_count_eq : (messages_to_json to_text system messages media_marker).2 =
    (extract_media messages).length := by
  rw [messages_to_json_eq, marked_messages, marked_next, Nat.zero_add]

theorem markers_eq (hmarker : media_marker.getD "" ≠ "") :
    markers to_text system messages media_marker = rendered_order 0 messages := by
  rw [markers, if_neg hmarker, marked_messages, marked_images hmarker]
  have hsystem : images_of ((system_json system).map
      (JsonMessage.map fun text => [Part.Text text])) = [] := by
    unfold system_json
    split_ifs <;> rfl
  rw [hsystem, List.nil_append]

/-- **The markers line up with the media** if and only if no message has an image before a result
with images, and the marker is not empty when there are images. -/
theorem lines_up_iff : LinesUp to_text system messages media_marker ↔
    (∀ msg ∈ messages, Straight msg) ∧
      (extract_media messages = [] ∨ media_marker.getD "" ≠ "") := by
  by_cases hmarker : media_marker.getD "" = ""
  · have hnone : markers to_text system messages media_marker = [] := if_pos hmarker
    constructor
    · intro h
      have hlength := h.counted.trans h.extracted
      rw [hnone] at hlength
      have hempty := List.length_eq_zero_iff.1 hlength.symm
      exact ⟨straight_of_no_media hempty, .inl hempty⟩
    · rintro ⟨-, hempty | hnot⟩
      · refine ⟨?_, media_count_eq _ _ _ _, ?_⟩
        · rw [hnone, media_count_eq, hempty]
          rfl
        · rw [hnone]
          exact fun k hk => absurd hk (Nat.not_lt_zero k)
      · exact absurd hmarker hnot
  · have hall := markers_eq to_text system messages media_marker hmarker
    rw [← rendered_order_iff 0, ← hall]
    constructor
    · intro h
      refine ⟨List.ext_getElem? fun k => ?_, .inr hmarker⟩
      have hlength := h.counted.trans h.extracted
      by_cases hk : k < (markers to_text system messages media_marker).length
      · rw [h.in_order k hk, List.getElem?_zipIdx, Nat.zero_add]
      · rw [List.getElem?_eq_none (Nat.le_of_not_lt hk), List.getElem?_eq_none]
        rw [List.length_zipIdx, ← hlength]
        exact Nat.le_of_not_lt hk
    · rintro ⟨h, -⟩
      refine ⟨?_, media_count_eq _ _ _ _, fun k _ => ?_⟩
      · rw [h, media_count_eq, List.length_zipIdx]
      · rw [h, List.getElem?_zipIdx, Nat.zero_add]

end

/-- A picture of the user, and then a result with a picture of the tool. -/
def mixed_message : ChatMessage String where
  role := .User
  content :=
    [.Image "image/png" [1], .Text "Compare it with this one",
      .ToolResult "call_1" (some "photos_recent") false [.Image "image/png" [2]]]

/-- The first marker stands for the second picture. -/
theorem mixed_message_swapped : ¬ LinesUp id [] [mixed_message] (some "<__media__>") := by
  intro h
  have hmarkers : markers id [] [mixed_message] (some "<__media__>") =
      [(⟨[2], "image/png", false⟩, 1), (⟨[1], "image/png", false⟩, 0)] :=
    markers_eq _ _ _ _ (by decide)
  have hfirst := h.in_order 0 (by rw [hmarkers]; decide)
  rw [hmarkers] at hfirst
  have hplace := congrArg (Option.map Prod.snd) hfirst
  exact absurd hplace (by decide)

end Querymt.MediaMarkers
