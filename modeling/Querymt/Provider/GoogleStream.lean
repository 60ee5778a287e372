/-
`Provider/GoogleStream.lean` -- the objects of a streamed answer of Gemini.

Mirrors `GoogleStreamParser::parse_chunk` and `extract_complete_json_objects`
(`providers/google/src/lib.rs`). An answer is one JSON array that arrives in pieces; the
parser keeps what it has not read in a buffer and counts by hand the bytes that it has read.

# One element a call

The reader of the objects stops at the comma behind the first one, so a call gives the
chunks of one element at most, however many have arrived (`left`). What is still in the
buffer when the pieces end is lost.

# What is not counted

Whitespace behind the bracket is skipped and not counted, and so is whitespace behind a
comma that was read in an earlier call: the end of the element that follows stays in the
buffer. `Fits` says that neither happens.

The JSON reader of the library is arbitrary, as far as `JsonReader` does not fix it.
-/
import Querymt.Agent.Streaming
import Querymt.Library.Encodings
import Querymt.Library.Strings
import Querymt.Provider.HttpStream

set_option autoImplicit false

open Encodings Strings Faults

namespace Querymt.Google

open Querymt.Agent (StreamChunk Usage FinishReason LLMError ToolCall FunctionCall)
open Querymt.Http (ChatStreamParser feed)

/-! ## 1. What an element of the stream says -/

/-- The arguments are given by their JSON text. -/
structure GoogleFunctionCall where
  name : String
  args : String
  deriving DecidableEq

structure GoogleResponsePart where
  text : Option String
  function_call : Option GoogleFunctionCall
  thought : Bool
  thought_signature : Option String
  deriving DecidableEq

structure GoogleResponseContent where
  parts : List GoogleResponsePart
  function_call : Option GoogleFunctionCall
  function_calls : Option (List GoogleFunctionCall)
  deriving DecidableEq

/-- The index of a candidate is read by nothing. -/
structure GoogleCandidate where
  content : GoogleResponseContent
  finish_reason : Option String
  deriving DecidableEq

structure GoogleChatResponse where
  candidates : List GoogleCandidate
  usage : Option Usage
  deriving DecidableEq

/-- A call that is complete: its start and its end. -/
def tool_use (index : ℕ) (id : String) (fc : GoogleFunctionCall) : List StreamChunk :=
  [.ToolUseStart index id fc.name, .ToolUseComplete index ⟨id, "function", ⟨fc.name, fc.args⟩⟩]

def GoogleResponsePart.id (part : GoogleResponsePart) (fc : GoogleFunctionCall) : String :=
  match part.thought_signature with
  | some sig => "call_" ++ fc.name ++ ":" ++ sig
  | none => "call_" ++ fc.name

/-- The body of the loop over the parts. -/
def part_chunks (index : ℕ) (part : GoogleResponsePart) : List StreamChunk :=
  (match part.text with
    | some text => if text = "" then [] else if part.thought then [.Thinking text] else [.Text text]
    | none => []) ++
  (match part.function_call with
    | some fc => tool_use index (part.id fc) fc
    | none => [])

def read_finish_reason (content : GoogleResponseContent) (finish_reason : String) : FinishReason :=
  if (content.function_calls.getD []).isEmpty then
    match finish_reason with
    | "STOP" => .Stop
    | "MAX_TOKENS" => .Length
    | "SAFETY" | "IMAGE_SAFETY" | "IMAGE_PROHIBITED_CONTENT" | "BLOCKLIST" | "SPII"
    | "PROHIBITED_CONTENT" => .ContentFilter
    | "OTHER" | "IMAGE_OTHER" => .Other
    | "MALFORMED_FUNCTION_CALL" => .Error
    | _ => .Unknown
  else .ToolCalls

/-- Only the first candidate is read. -/
def extract_google_stream_chunks (response : GoogleChatResponse) : List StreamChunk :=
  match response.candidates with
  | [] => []
  | candidate :: _ =>
      (candidate.content.parts.zipIdx.flatMap fun p => part_chunks p.2 p.1) ++
        (candidate.content.function_call.toList.flatMap fun fc =>
          tool_use 0 ("call_" ++ fc.name) fc) ++
        ((candidate.content.function_calls.getD []).zipIdx.flatMap fun p =>
          tool_use p.2 ("call_" ++ p.1.name) p.1) ++
        response.usage.toList.map .Usage ++
        candidate.finish_reason.toList.map fun reason =>
          .Done (read_finish_reason candidate.content reason)

/-- The first candidate, which is the one that is read, carries a finish reason. -/
def GoogleChatResponse.finishes (response : GoogleChatResponse) : Bool :=
  (response.candidates.head?.bind fun candidate => candidate.finish_reason).isSome

def is_done (chunk : StreamChunk) : Bool := chunk.finish_reason.isSome

/-! ## 2. The parser -/

/-- The whitespace of JSON. -/
def is_json_space (c : Char) : Bool := c = ' ' ∨ c = '\n' ∨ c = '\r' ∨ c = '\t'

/-- The whitespace of JSON and nothing else. -/
def Blank (s : Str) : Prop := ∀ c ∈ s, is_json_space c = true

/-- `StreamDeserializer::next` over a text: the object that it gives and the text behind it;
`none` when it gives an error or nothing. -/
structure JsonReader where
  next : Str → Option (GoogleChatResponse × Str)
  skips : ∀ w s, Blank w → next (w ++ s) = next s
  at_end : next [] = none
  at_comma : ∀ s, next (',' :: s) = none
  at_close : ∀ s, next (']' :: s) = none

/-- `str::trim_start`. -/
def trim_start (s : Str) : Str := s.dropWhile is_whitespace

section

variable (reader : JsonReader)

/-- The objects that the deserializer gives before it gives an error, and its
`byte_offset` behind the last of them; an object has at least one character. -/
def read_stream : ℕ → Str → List GoogleChatResponse × ℕ
  | 0, _ => ([], 0)
  | fuel + 1, text =>
      match reader.next text with
      | none => ([], 0)
      | some (response, rest) =>
          (response :: (read_stream fuel rest).1,
            byte_len text - byte_len rest + (read_stream fuel rest).2)

def try_parse_json_objects (original_buffer : Str) (initial_offset : ℕ) (text : Str) :
    Except (Fault LLMError) (List StreamChunk × ℕ) :=
  let responses := read_stream reader text.length text
  let total_consumed := initial_offset + responses.2
  let result_chunks := responses.1.flatMap extract_google_stream_chunks
  if total_consumed < byte_len original_buffer then
    match str_slice original_buffer total_consumed (byte_len original_buffer) with
    | .error e => .error e
    | .ok remaining =>
        match trim_start remaining with
        | ']' :: after =>
            .ok (result_chunks, total_consumed + (byte_len remaining - byte_len (']' :: after)) + 1)
        | _ => .ok (result_chunks, total_consumed)
  else .ok (result_chunks, total_consumed)

/-- Without the whitespace and the bracket that are before it, and how many bytes these have;
whitespace alone is not counted. -/
def strip_bracket (buffer : Str) : Str × ℕ :=
  match trim_start buffer with
  | '[' :: stripped => (stripped, byte_len buffer - byte_len ('[' :: stripped) + 1)
  | trimmed => (trimmed, 0)

def extract_complete_json_objects (buffer : Str) :
    Except (Fault LLMError) (List StreamChunk × ℕ) :=
  match trim_start (strip_bracket buffer).1 with
  | ',' :: stripped =>
      let bytes_consumed := (strip_bracket buffer).2 + 1
      -- the pointers are compared: the text is the end of the buffer
      try_parse_json_objects reader buffer
        (bytes_consumed + (byte_len buffer - byte_len (trim_start stripped) - bytes_consumed))
        (trim_start stripped)
  -- what was trimmed here has not been added to the count
  | working_text => try_parse_json_objects reader buffer (strip_bracket buffer).2 working_text

/-- `drain` panics outside of the buffer and within a character. -/
def parse_text (buffer : Str) : Except (Fault LLMError) (List StreamChunk) × Str :=
  match extract_complete_json_objects reader buffer with
  | .error e => (.error e, buffer)
  | .ok (extracted_chunks, bytes_consumed) =>
      match split_at bytes_consumed buffer with
      | none => (.error .Panic, buffer)
      | some (_, rest) => (.ok extracted_chunks, if extracted_chunks.any is_done then [] else rest)

/-- `GoogleStreamParser`; `utf8_error` is the text of an `Utf8Error`. -/
def chat_stream_impl (utf8_error : List UInt8 → String) :
    ChatStreamParser Str StreamChunk (Fault LLMError) where
  parse_chunk buffer chunk :=
    match from_utf8 chunk with
    | none => (.error (.Error (.GenericError (utf8_error chunk))), buffer)
    | some text => parse_text reader (buffer ++ text.toList)
  -- `ChatStreamParser::finish` is the default of the trait
  finish buffer := (.ok [], buffer)

end

/-! ## 3. An array and its pieces -/

/-- An element of an array as text: its whitespace, its object and what that says. -/
structure Item (reader : JsonReader) where
  before : Str
  text : Str
  after : Str
  response : GoogleChatResponse
  before_blank : Blank before
  after_blank : Blank after
  opens : ∃ s, text = '\x7b' :: s
  whole : ∀ rest, reader.next (text ++ rest) = some (response, rest)
  /-- An object whose end is missing is not read. -/
  part : ∀ s, s <+: text → s ≠ text → reader.next s = none

/-- Elements, each with the bracket or the comma before it, and what closes the array. -/
def items_text {reader : JsonReader} (close : Str) : Char → List (Item reader) → Str
  | opener, i :: items =>
      opener :: (i.before ++ (i.text ++ (i.after ++ items_text close ',' items)))
  | _, [] => close

/-- An array as text; `gap` is the whitespace in an empty one. -/
structure JsonArray (reader : JsonReader) where
  lead : Str
  items : List (Item reader)
  gap : Str
  tail : Str
  lead_blank : Blank lead
  gap_blank : Blank gap
  tail_blank : Blank tail

namespace JsonArray

variable {reader : JsonReader} (a : JsonArray reader)

def text : Str :=
  match a.items with
  | [] => a.lead ++ '[' :: (a.gap ++ ']' :: a.tail)
  | items => a.lead ++ items_text (']' :: a.tail) '[' items

end JsonArray

namespace Item

variable {reader : JsonReader} (i : Item reader)

def chunks : List StreamChunk := extract_google_stream_chunks i.response

/-- The count of characters up to the element's bracket or comma, when `pos` are before it. -/
def mark (_i : Item reader) (pos : ℕ) : ℕ := pos + 1

def start (pos : ℕ) : ℕ := i.mark pos + i.before.length

def stop (pos : ℕ) : ℕ := i.start pos + i.text.length

def next (pos : ℕ) : ℕ := i.stop pos + i.after.length

end Item

section

variable {reader : JsonReader}

/-- The elements up to and including the first one with a finish reason. -/
def up_to_finish : List (Item reader) → List (Item reader)
  | [] => []
  | i :: items => if i.response.finishes then [i] else i :: up_to_finish items

/-- How many characters have arrived with each piece. -/
def arrivals : ℕ → List Str → List ℕ
  | _, [] => []
  | n, piece :: pieces => (n + piece.length) :: arrivals (n + piece.length) pieces

/-- The elements that are not taken when a call with each piece takes the next one, if it has
arrived. -/
def left : ℕ → List (Item reader) → List ℕ → List (Item reader)
  | _, items, [] => items
  | _, [], _ :: _ => []
  | pos, i :: items, n :: ns =>
      if i.stop pos ≤ n then left (i.next pos) items ns else left pos (i :: items) ns

/-- The whitespace behind a comma is there in the call that reads the comma, and nothing but
the last piece comes with or after an element that finishes, unless it is the last. -/
def Fits : ℕ → List (Item reader) → List ℕ → Prop
  | _, _, [] => True
  | _, [], _ :: _ => True
  | pos, i :: items, n :: ns =>
      (i.mark pos ≤ n → i.start pos ≤ n) ∧
        if i.stop pos ≤ n then
          (i.response.finishes → items = [] ∨ ns = []) ∧ Fits (i.next pos) items ns
        else Fits pos (i :: items) ns

/-- The chunks of all calls and of `finish`. -/
def streamed (reader : JsonReader) (utf8_error : List UInt8 → String) (pieces : List Str) :
    Except (Fault LLMError) (List StreamChunk) :=
  match feed (chat_stream_impl reader utf8_error) []
      (pieces.map fun piece => as_bytes (String.ofList piece)) with
  | (chunks, none, buffer) =>
      ((chat_stream_impl reader utf8_error).finish buffer).1.map fun last => chunks ++ last
  | (_, some e, _) => .error e

end

/-! ## 4. Whitespace and offsets -/

theorem is_whitespace_of_json {c : Char} (h : is_json_space c = true) : is_whitespace c = true := by
  have hc : c = ' ' ∨ c = '\n' ∨ c = '\r' ∨ c = '\t' := of_decide_eq_true h
  rcases hc with rfl | rfl | rfl | rfl <;> decide

theorem Blank.append {v w : Str} (hv : Blank v) (hw : Blank w) : Blank (v ++ w) :=
  fun c hc => (List.mem_append.1 hc).elim (hv c) (hw c)

theorem Blank.of_append_left {v w : Str} (h : Blank (v ++ w)) : Blank v :=
  fun c hc => h c (List.mem_append_left _ hc)

theorem trim_start_append {w : Str} (hw : Blank w) (s : Str) :
    trim_start (w ++ s) = trim_start s := by
  unfold trim_start
  induction w with
  | nil => rfl
  | cons c w ih =>
      have hc : is_whitespace c = true := is_whitespace_of_json (hw c List.mem_cons_self)
      rw [List.cons_append, List.dropWhile_cons_of_pos hc]
      exact ih fun d hd => hw d (List.mem_cons_of_mem _ hd)

theorem trim_start_blank {w : Str} (hw : Blank w) : trim_start w = [] := by
  have h := trim_start_append hw []
  rwa [List.append_nil] at h

theorem trim_start_cons {c : Char} (hc : is_whitespace c = false) (s : Str) :
    trim_start (c :: s) = c :: s :=
  List.dropWhile_cons_of_neg (by rw [hc]; exact Bool.false_ne_true)

/-- What is kept of a text when its closing bracket is read. -/
def closed (s : Str) : Str :=
  match trim_start s with
  | ']' :: after => after
  | _ => s

theorem suffix_trim_start (s : Str) : ∃ w, s = w ++ trim_start s :=
  ⟨s.takeWhile is_whitespace, (List.takeWhile_append_dropWhile).symm⟩

theorem closed_of_ne {s : Str} (h : ∀ after, trim_start s ≠ ']' :: after) : closed s = s := by
  unfold closed
  split
  · next after heq => exact absurd heq (h after)
  · rfl

/-! ## 5. One call -/

section

variable {reader : JsonReader} {utf8_error : List UInt8 → String}

/-- The offset is right when the objects that were read end where the kept text begins. -/
theorem try_parse_eq {front s text : Str} {initial : ℕ} {rs : List GoogleChatResponse} {n : ℕ}
    (hread : read_stream reader text.length text = (rs, n)) (hn : initial + n = byte_len front) :
    ∃ consumed, try_parse_json_objects reader (front ++ s) initial text =
        .ok (rs.flatMap extract_google_stream_chunks, consumed) ∧
      ∃ cut, split_at consumed (front ++ s) = some (cut, closed s) := by
  unfold try_parse_json_objects
  rw [hread]
  dsimp only
  rw [hn]
  have hwhole : split_at (byte_len front) (front ++ s) = some (front, s) :=
    split_at_eq_some.2 ⟨rfl, rfl⟩
  by_cases hs : s = []
  · subst hs
    rw [if_neg (by rw [List.append_nil]; omega)]
    exact ⟨_, rfl, front, hwhole⟩
  · have hpos : byte_len s ≠ 0 := fun h => hs (byte_len_eq_zero.1 h)
    have hslice : @str_slice LLMError (front ++ s) (byte_len front) (byte_len (front ++ s)) = .ok s :=
      str_slice_eq_ok.2 ⟨front, [], by rw [List.append_nil], rfl, rfl⟩
    rw [if_pos (by rw [byte_len_append]; omega), hslice]
    dsimp only
    obtain ⟨w, hw⟩ := suffix_trim_start s
    split
    · next after heq =>
        -- the whitespace before the bracket is counted here
        rw [heq] at hw
        refine ⟨_, rfl, front ++ (w ++ [']']), ?_⟩
        have hclosed : closed s = after := by
          unfold closed
          rw [heq]
          rfl
        apply split_at_eq_some.2
        refine ⟨by rw [hclosed, hw]; simp, ?_⟩
        rw [hw]
        simp only [byte_len_append, byte_len_cons, byte_len_nil]
        have hsize : Char.utf8Size ']' = 1 := rfl
        omega
    · next hne => exact ⟨_, rfl, front, by rw [closed_of_ne fun after => hne after]; exact hwhole⟩


theorem read_stream_none {text : Str} (h : reader.next text = none) (fuel : ℕ) :
    read_stream reader fuel text = ([], 0) := by
  cases fuel with
  | zero => rfl
  | succ fuel =>
      rw [read_stream, h]

theorem read_stream_item (i : Item reader) {rest : Str} (hrest : reader.next rest = none) :
    read_stream reader (i.text ++ rest).length (i.text ++ rest) =
      ([i.response], byte_len i.text) := by
  obtain ⟨s, hs⟩ := i.opens
  have hfuel : (i.text ++ rest).length = (s ++ rest).length + 1 := by rw [hs]; rfl
  rw [hfuel, read_stream, i.whole rest]
  dsimp only
  rw [read_stream_none hrest, byte_len_append, Nat.add_sub_cancel, Nat.add_zero]

/-- What is read before an object: nothing, the comma or the bracket. -/
def Opening (o : Str) : Prop :=
  (o = [] ∨ ∃ v, o = v ++ ['['] ∧ Blank v) ∨ ∃ v w, o = v ++ ',' :: w ∧ Blank v ∧ Blank w

/-- A text that is the beginning of an object, or nothing. -/
def Ready (t : Str) : Prop := t = [] ∨ ∃ s, t = '\x7b' :: s

theorem Ready.trim_start {t : Str} (h : Ready t) : trim_start t = t := by
  obtain rfl | ⟨s, rfl⟩ := h
  · rfl
  · exact trim_start_cons (by decide) s

theorem Ready.ne_cons {t s : Str} {c : Char} (h : Ready t) (hc : c ≠ '\x7b') : t ≠ c :: s := by
  obtain rfl | ⟨s', rfl⟩ := h
  · exact (List.cons_ne_nil c s).symm
  · exact fun heq => hc (List.cons.inj heq).1.symm

theorem strip_bracket_eq {v : Str} (hv : Blank v) (t : Str) :
    strip_bracket (v ++ '[' :: t) = (t, byte_len (v ++ ['['])) := by
  have htrim : trim_start (v ++ '[' :: t) = '[' :: t :=
    (trim_start_append hv _).trans (trim_start_cons (by decide) t)
  have hcount : byte_len (v ++ '[' :: t) - byte_len ('[' :: t) + 1 = byte_len (v ++ ['[']) := by
    have hsize : Char.utf8Size '[' = 1 := rfl
    simp only [byte_len_append, byte_len_cons, byte_len_nil]
    omega
  unfold strip_bracket
  rw [htrim]
  exact congrArg (Prod.mk t) hcount

theorem strip_bracket_of_ne {s : Str} (h : ∀ t, trim_start s ≠ '[' :: t) :
    strip_bracket s = (trim_start s, 0) := by
  unfold strip_bracket
  split
  · next t heq => exact absurd heq (h t)
  · rfl

/-- Without a comma, what is trimmed before the object goes uncounted. -/
theorem extract_of_ne {s : Str} (hcomma : ∀ t, trim_start (strip_bracket s).1 ≠ ',' :: t) :
    extract_complete_json_objects reader s =
      try_parse_json_objects reader s (strip_bracket s).2 (trim_start (strip_bracket s).1) := by
  unfold extract_complete_json_objects
  split
  · next t heq => exact absurd heq (hcomma t)
  · rfl

theorem extract_bracket {v t : Str} (hv : Blank v) (hcomma : ∀ s, trim_start t ≠ ',' :: s) :
    extract_complete_json_objects reader (v ++ ['['] ++ t) =
      try_parse_json_objects reader (v ++ ['['] ++ t) (byte_len (v ++ ['['])) (trim_start t) := by
  have hstrip : strip_bracket (v ++ ['['] ++ t) = (t, byte_len (v ++ ['['])) := by
    rw [List.append_assoc]
    exact strip_bracket_eq hv t
  rw [extract_of_ne (by rw [hstrip]; exact hcomma), hstrip]

theorem extract_plain {t : Str} (hopen : ∀ s, trim_start t ≠ '[' :: s)
    (hcomma : ∀ s, trim_start t ≠ ',' :: s) :
    extract_complete_json_objects reader t = try_parse_json_objects reader t 0 (trim_start t) := by
  have htwice : trim_start (trim_start t) = trim_start t := List.dropWhile_idempotent _ _
  have hstrip := strip_bracket_of_ne hopen
  rw [extract_of_ne (by rw [hstrip, htwice]; exact hcomma), hstrip, htwice]

/-- With a comma, all that is trimmed is counted. -/
theorem extract_comma {v w t : Str} (hv : Blank v) (hw : Blank w) (ht : trim_start t = t) :
    extract_complete_json_objects reader (v ++ ',' :: w ++ t) =
      try_parse_json_objects reader (v ++ ',' :: w ++ t) (byte_len (v ++ ',' :: w)) t := by
  have hcomma : trim_start (',' :: (w ++ t)) = ',' :: (w ++ t) := trim_start_cons (by decide) _
  have htrim : trim_start (v ++ ',' :: w ++ t) = ',' :: (w ++ t) := by
    rw [List.append_assoc, trim_start_append hv]
    exact hcomma
  have hstrip : strip_bracket (v ++ ',' :: w ++ t) = (',' :: (w ++ t), 0) := by
    rw [strip_bracket_of_ne, htrim]
    intro s heq
    rw [htrim] at heq
    exact absurd (List.cons.inj heq).1 (by decide)
  have hrest : trim_start (w ++ t) = t := (trim_start_append hw t).trans ht
  have hsize : Char.utf8Size ',' = 1 := rfl
  have hcount : 0 + 1 + (byte_len (v ++ ',' :: w ++ t) - byte_len t - (0 + 1)) =
      byte_len (v ++ ',' :: w) := by
    simp only [byte_len_append, byte_len_cons]
    omega
  unfold extract_complete_json_objects
  rw [hstrip, hcomma]
  change try_parse_json_objects reader _
    (0 + 1 + (_ - byte_len (trim_start (w ++ t)) - (0 + 1))) (trim_start (w ++ t)) = _
  rw [hrest, hcount]

theorem extract_opening {o t : Str} (ho : Opening o) (ht : Ready t) :
    extract_complete_json_objects reader (o ++ t) =
      try_parse_json_objects reader (o ++ t) (byte_len o) t := by
  have hne : ∀ c, c ≠ '\x7b' → ∀ s, trim_start t ≠ c :: s := by
    intro c hc s
    rw [ht.trim_start]
    exact ht.ne_cons hc
  obtain (rfl | ⟨v, rfl, hv⟩) | ⟨v, w, rfl, hv, hw⟩ := ho
  · have h := @extract_plain reader t (hne '[' (by decide)) (hne ',' (by decide))
    rwa [ht.trim_start] at h
  · have h := @extract_bracket reader v t hv (hne ',' (by decide))
    rwa [ht.trim_start] at h
  · exact extract_comma hv hw ht.trim_start

theorem parse_text_eq {front s text : Str} {initial n : ℕ} {rs : List GoogleChatResponse}
    (hextract : extract_complete_json_objects reader (front ++ s) =
      try_parse_json_objects reader (front ++ s) initial text)
    (hread : read_stream reader text.length text = (rs, n)) (hn : initial + n = byte_len front) :
    parse_text reader (front ++ s) =
      (.ok (rs.flatMap extract_google_stream_chunks),
        if (rs.flatMap extract_google_stream_chunks).any is_done then [] else closed s) := by
  obtain ⟨consumed, htry, cut, hcut⟩ := @try_parse_eq reader front s text initial rs n hread hn
  unfold parse_text
  rw [hextract, htry]
  dsimp only
  rw [hcut]

/-- A call that finds no object keeps what may become one. -/
theorem parse_part {o t : Str} (ho : Opening o) (ht : Ready t) (hnone : reader.next t = none) :
    parse_text reader (o ++ t) = (.ok [], t) := by
  have hclosed : closed t = t :=
    closed_of_ne fun after => by rw [ht.trim_start]; exact ht.ne_cons (by decide)
  have h := parse_text_eq (extract_opening ho ht) (read_stream_none hnone _) (Nat.add_zero _)
  rw [h, hclosed]
  rfl

theorem any_tool_use (index : ℕ) (id : String) (fc : GoogleFunctionCall) :
    (tool_use index id fc).any is_done = false := rfl

theorem any_part_chunks (index : ℕ) (part : GoogleResponsePart) :
    (part_chunks index part).any is_done = false := by
  unfold part_chunks
  rw [List.any_append, Bool.or_eq_false_iff]
  constructor
  · split
    · split_ifs <;> rfl
    · rfl
  · split
    · exact any_tool_use _ _ _
    · rfl

theorem any_is_done (response : GoogleChatResponse) :
    (extract_google_stream_chunks response).any is_done = response.finishes := by
  unfold extract_google_stream_chunks GoogleChatResponse.finishes
  rcases response with ⟨_ | ⟨⟨content, finish_reason⟩, others⟩, usage⟩
  · rfl
  · have hnone : ∀ {α : Type} (l : List α) (f : α → List StreamChunk),
        (∀ x, (f x).any is_done = false) → (l.flatMap f).any is_done = false := by
      intro α l f hf
      rw [List.any_flatMap, List.any_eq_false]
      intro x _
      rw [hf x]
      exact Bool.false_ne_true
    dsimp only
    simp only [List.any_append]
    rw [hnone _ _ fun p => any_part_chunks _ _, hnone _ _ fun p => any_tool_use _ _ _,
      hnone _ _ fun p => any_tool_use _ _ _]
    cases usage <;> cases finish_reason <;> rfl

/-- A call that finds an object takes it, and nothing behind it. -/
theorem parse_item {o rest : Str} (i : Item reader) (ho : Opening o)
    (hrest : reader.next rest = none) :
    parse_text reader (o ++ (i.text ++ rest)) =
      (.ok i.chunks, if i.response.finishes then [] else closed rest) := by
  obtain ⟨s, hs⟩ := i.opens
  have hready : Ready (i.text ++ rest) := .inr ⟨s ++ rest, by rw [hs]; rfl⟩
  have hextract := @extract_opening reader o (i.text ++ rest) ho hready
  rw [← List.append_assoc] at hextract ⊢
  have h := parse_text_eq hextract (read_stream_item i hrest) (byte_len_append o i.text).symm
  have hchunks : [i.response].flatMap extract_google_stream_chunks = i.chunks := List.flatMap_singleton ..
  rw [h, hchunks, Item.chunks, any_is_done]

/-! ## 6. A run -/

/-- Whitespace and closing brackets. -/
def Quiet (s : Str) : Prop := ∀ c ∈ s, is_json_space c = true ∨ c = ']'

theorem Blank.quiet {w : Str} (hw : Blank w) : Quiet w := fun c hc => .inl (hw c hc)

theorem quiet_close {gap tail : Str} (hgap : Blank gap) (htail : Blank tail) :
    Quiet (gap ++ ']' :: tail) := by
  intro c hc
  obtain hc | rfl | hc := (List.mem_append.1 hc).imp_right List.mem_cons.1
  · exact .inl (hgap c hc)
  · exact .inr rfl
  · exact .inl (htail c hc)

/-- A quiet text is blank up to its first bracket. -/
theorem Quiet.cases {s : Str} (h : Quiet s) :
    Blank s ∨ ∃ w t, s = w ++ ']' :: t ∧ Blank w ∧ Quiet t := by
  induction s with
  | nil => exact .inl fun c hc => absurd hc List.not_mem_nil
  | cons c s ih =>
      have hs : Quiet s := fun d hd => h d (List.mem_cons_of_mem _ hd)
      obtain hc | rfl := h c List.mem_cons_self
      · have hcons : ∀ {w : Str}, Blank w → Blank (c :: w) := fun hw d hd =>
          (List.mem_cons.1 hd).elim (fun hdc => hdc ▸ hc) (hw d)
        obtain hblank | ⟨w, t, rfl, hw, ht⟩ := ih hs
        · exact .inl (hcons hblank)
        · exact .inr ⟨c :: w, t, rfl, hcons hw, ht⟩
      · exact .inr ⟨[], s, rfl, fun d hd => absurd hd List.not_mem_nil, hs⟩

theorem Quiet.next {s : Str} (h : Quiet s) : reader.next s = none := by
  obtain hs | ⟨w, t, rfl, hw, -⟩ := h.cases
  · have hskip := reader.skips s [] hs
    rw [List.append_nil] at hskip
    exact hskip.trans reader.at_end
  · exact (reader.skips w _ hw).trans (reader.at_close t)

theorem Quiet.trim_start {s : Str} (h : Quiet s) :
    (trim_start s = [] ∧ closed s = s) ∨ ∃ t, trim_start s = ']' :: t ∧ closed s = t ∧ Quiet t := by
  obtain hs | ⟨w, t, rfl, hw, ht⟩ := h.cases
  · have htrim := trim_start_blank hs
    exact .inl ⟨htrim, closed_of_ne fun after => by rw [htrim]; exact (List.cons_ne_nil _ _).symm⟩
  · have htrim : Google.trim_start (w ++ ']' :: t) = ']' :: t :=
      (trim_start_append hw _).trans (trim_start_cons (by decide) t)
    refine .inr ⟨t, htrim, ?_, ht⟩
    unfold closed
    rw [htrim]
    rfl

theorem Quiet.closed {s : Str} (h : Quiet s) : ∀ u, Quiet (s ++ u) → Quiet (closed s ++ u) := by
  intro u hu
  obtain ⟨-, hs⟩ | ⟨t, -, hs, ht⟩ := h.trim_start
  · rwa [hs]
  · rw [hs]
    intro c hc
    exact (List.mem_append.1 hc).elim (ht c) fun hc => hu c (List.mem_append_right _ hc)

theorem Quiet.ne_cons {s t : Str} {c : Char} (h : Quiet s) (hc : c ≠ ']') :
    Google.trim_start s ≠ c :: t := by
  obtain ⟨hs, -⟩ | ⟨t', hs, -⟩ := h.trim_start
  · rw [hs]
    exact (List.cons_ne_nil _ _).symm
  · rw [hs]
    exact fun heq => hc (List.cons.inj heq).1.symm

theorem Quiet.next_trim {s : Str} (h : Quiet s) : reader.next (Google.trim_start s) = none := by
  obtain ⟨hs, -⟩ | ⟨t, hs, -⟩ := h.trim_start
  · rw [hs]
    exact reader.at_end
  · rw [hs]
    exact reader.at_close t

/-- A quiet text gives nothing, also behind the bracket that opens the array. -/
theorem parse_quiet {s : Str} (h : Quiet s) : parse_text reader s = (.ok [], closed s) :=
  @parse_text_eq reader [] s _ 0 0 []
    (extract_plain (fun _ => h.ne_cons (by decide)) fun _ => h.ne_cons (by decide))
    (read_stream_none h.next_trim _) rfl

theorem parse_opened_quiet {v s : Str} (hv : Blank v) (h : Quiet s) :
    parse_text reader (v ++ ['['] ++ s) = (.ok [], closed s) :=
  parse_text_eq (extract_bracket hv fun _ => h.ne_cons (by decide))
    (read_stream_none h.next_trim _) (Nat.add_zero _)

end

/-! ## 7. All calls -/

section

variable {reader : JsonReader} {utf8_error : List UInt8 → String}

/-- The calls for the pieces, from a buffer on. -/
def calls (reader : JsonReader) (utf8_error : List UInt8 → String) (buffer : Str)
    (pieces : List Str) : List StreamChunk × Option (Fault LLMError) × Str :=
  feed (chat_stream_impl reader utf8_error) buffer
    (pieces.map fun piece => as_bytes (String.ofList piece))

theorem calls_cons {buffer piece buffer' : Str} {chunks : List StreamChunk}
    (h : parse_text reader (buffer ++ piece) = (.ok chunks, buffer')) (pieces : List Str) :
    calls reader utf8_error buffer (piece :: pieces) =
      (chunks ++ (calls reader utf8_error buffer' pieces).1,
        (calls reader utf8_error buffer' pieces).2) := by
  unfold calls
  rw [List.map_cons]
  refine Http.feed_cons_ok ?_
  change (match from_utf8 (as_bytes (String.ofList piece)) with
    | none => _
    | some text => parse_text reader (buffer ++ text.toList)) = _
  rw [from_utf8_as_bytes]
  dsimp only
  rw [String.toList_ofList, h]

/-- The calls give these chunks and none of them fails. -/
def Gives (reader : JsonReader) (utf8_error : List UInt8 → String) (buffer : Str)
    (pieces : List Str) (chunks : List StreamChunk) : Prop :=
  (calls reader utf8_error buffer pieces).1 = chunks ∧
    (calls reader utf8_error buffer pieces).2.1 = none

theorem gives_nil (buffer : Str) : Gives reader utf8_error buffer [] [] := ⟨rfl, rfl⟩

theorem Gives.cons {buffer piece buffer' : Str} {chunks more : List StreamChunk}
    {pieces : List Str} (h : Gives reader utf8_error buffer' pieces more)
    (hcall : parse_text reader (buffer ++ piece) = (.ok chunks, buffer')) :
    Gives reader utf8_error buffer (piece :: pieces) (chunks ++ more) := by
  unfold Gives
  rw [calls_cons hcall]
  exact ⟨congrArg (chunks ++ ·) h.1, h.2⟩

theorem gives_quiet {pieces : List Str} :
    ∀ {buffer : Str}, Quiet (buffer ++ pieces.flatten) →
      Gives reader utf8_error buffer pieces [] := by
  induction pieces with
  | nil => exact fun _ => gives_nil _
  | cons piece pieces ih =>
      intro buffer h
      rw [List.flatten_cons, ← List.append_assoc] at h
      have hcall : Quiet (buffer ++ piece) := fun c hc => h c (List.mem_append_left _ hc)
      exact (ih (hcall.closed _ h)).cons (parse_quiet hcall)

/-- Of two ways to cut a text, the shorter front lies in the longer. -/
theorem front_of_length_le {a b c d : Str} (h : a ++ b = c ++ d) (hle : a.length ≤ c.length) :
    ∃ m, c = a ++ m ∧ b = m ++ d := by
  obtain ⟨m, ha, hb⟩ | ⟨m, ha, hb⟩ := List.append_eq_append_iff.1 h
  · exact ⟨m, ha, hb⟩
  · have hm : m = [] := by
      rw [ha, List.length_append] at hle
      exact List.length_eq_zero_iff.1 (by omega)
    subst hm
    exact ⟨[], by simpa using ha.symm, by simpa using hb.symm⟩

/-- Where the parser stands: before the bracket or the comma of an element, within the
object of an element, or behind the last. `n` characters have arrived, and the bracket or the
comma has `pos` of them before it. -/
inductive Stage (close : Str) : ℕ → ℕ → List (Item reader) → Str → Str → Prop where
  | waiting {n pos : ℕ} {i : Item reader} {items : List (Item reader)} {buffer unread v : Str}
      {opener : Char} (hv : Blank v)
      (hopener : opener = ',' ∨ opener = '[' ∧ i.before = [])
      (htext : buffer ++ unread = v ++ items_text close opener (i :: items))
      (hcount : pos + buffer.length = n + v.length) :
      Stage close n pos (i :: items) buffer unread
  | within {n pos : ℕ} {i : Item reader} {items : List (Item reader)} {buffer unread : Str}
      (htext : buffer ++ unread = i.text ++ (i.after ++ items_text close ',' items))
      (hcount : n = i.start pos + buffer.length) (hlt : buffer.length < i.text.length) :
      Stage close n pos (i :: items) buffer unread
  | behind {n pos : ℕ} {buffer unread : Str} (h : Quiet (buffer ++ unread)) :
      Stage close n pos [] buffer unread

/-- What the calls and the elements that are left have to give together. -/
def Accounted (utf8_error : List UInt8 → String) (n pos : ℕ) (items : List (Item reader))
    (buffer : Str) (pieces : List Str) : Prop :=
  ∃ chunks, Gives reader utf8_error buffer pieces chunks ∧
    chunks ++ (left pos (up_to_finish items) (arrivals n pieces)).flatMap Item.chunks =
      (up_to_finish items).flatMap Item.chunks

theorem left_nil (pos : ℕ) (ns : List ℕ) : left pos ([] : List (Item reader)) ns = [] := by
  cases ns <;> rfl

/-- A call that takes nothing. -/
theorem Accounted.cons {n pos : ℕ} {i : Item reader} {items : List (Item reader)}
    {buffer piece buffer' : Str} {pieces : List Str}
    (h : Accounted utf8_error (n + piece.length) pos (i :: items) buffer' pieces)
    (hcall : parse_text reader (buffer ++ piece) = (.ok [], buffer'))
    (hstop : n + piece.length < i.stop pos) :
    Accounted utf8_error n pos (i :: items) buffer (piece :: pieces) := by
  obtain ⟨chunks, hgives, heq⟩ := h
  refine ⟨chunks, hgives.cons hcall, ?_⟩
  have hleft : left pos (up_to_finish (i :: items)) (arrivals n (piece :: pieces)) =
      left pos (up_to_finish (i :: items)) (arrivals (n + piece.length) pieces) := by
    rw [arrivals, up_to_finish]
    split_ifs <;> rw [left, if_neg (by omega)]
  rw [hleft, heq]

/-- A call that takes an element. -/
theorem Accounted.take {n pos : ℕ} {i : Item reader} {items : List (Item reader)}
    {buffer piece buffer' : Str} {pieces : List Str}
    (hstop : i.stop pos ≤ n + piece.length)
    (hcall : parse_text reader (buffer ++ piece) = (.ok i.chunks, buffer'))
    (hlast : i.response.finishes = true → Gives reader utf8_error buffer' pieces [])
    (hmore : i.response.finishes = false →
      Accounted utf8_error (n + piece.length) (i.next pos) items buffer' pieces) :
    Accounted utf8_error n pos (i :: items) buffer (piece :: pieces) := by
  by_cases hfinish : i.response.finishes = true
  · refine ⟨_, (hlast hfinish).cons hcall, ?_⟩
    rw [up_to_finish, if_pos hfinish, arrivals, left, if_pos hstop, left_nil]
    simp
  · obtain ⟨chunks, hgives, heq⟩ := hmore (Bool.eq_false_iff.2 hfinish)
    refine ⟨_, hgives.cons hcall, ?_⟩
    rw [up_to_finish, if_neg hfinish, arrivals, left, if_pos hstop, List.flatMap_cons, ← heq,
      List.append_assoc]

/-- The beginning of a gap between two elements: it stops in the whitespace or behind it. -/
theorem gap_cases {v rest u s : Str} {c : Char} (hv : Blank v) (h : rest ++ u = v ++ c :: s) :
    Blank rest ∨ ∃ m, rest = v ++ c :: m := by
  by_cases hle : rest.length ≤ v.length
  · obtain ⟨m, rfl, -⟩ := front_of_length_le h hle
    exact .inl hv.of_append_left
  · obtain ⟨m, rfl, hm⟩ := front_of_length_le h.symm (by omega)
    cases m with
    | nil =>
        rw [List.append_nil] at hle
        omega
    | cons d m =>
        obtain ⟨rfl, -⟩ := List.cons.inj hm
        exact .inr ⟨m, rfl⟩

theorem next_gap {v rest u s : Str} {c : Char} (hv : Blank v) (hc : c = ',' ∨ c = ']')
    (h : rest ++ u = v ++ c :: s) : reader.next rest = none := by
  obtain hrest | ⟨m, rfl⟩ := gap_cases hv h
  · exact hrest.quiet.next
  · rw [reader.skips v _ hv]
    obtain rfl | rfl := hc
    · exact reader.at_comma m
    · exact reader.at_close m

theorem closed_blank {w : Str} (hw : Blank w) : closed w = w :=
  closed_of_ne fun after => by
    rw [trim_start_blank hw]
    exact (List.cons_ne_nil _ _).symm

theorem closed_gap {v rest u s : Str} (hv : Blank v) (h : rest ++ u = v ++ ',' :: s) :
    closed rest = rest := by
  obtain hrest | ⟨m, rfl⟩ := gap_cases hv h
  · exact closed_blank hrest
  · apply closed_of_ne
    intro after
    rw [trim_start_append hv, trim_start_cons (by decide)]
    exact fun heq => absurd (List.cons.inj heq).1 (by decide)

theorem items_text_cons (tail : Str) (items : List (Item reader)) :
    ∃ c s, items_text (']' :: tail) ',' items = c :: s ∧ (c = ',' ∨ c = ']') := by
  cases items with
  | nil => exact ⟨']', tail, rfl, .inr rfl⟩
  | cons i items => exact ⟨',', _, rfl, .inl rfl⟩

/-- A call that has read what is before an object. `t` is what the buffer holds behind it, and
the hypothesis `ih` is about the later calls. -/
theorem accounted_reached {n pos : ℕ} {i : Item reader} {items : List (Item reader)}
    {buffer piece tail o t : Str} {pieces : List Str} (htail : Blank tail) (ho : Opening o)
    (hbuffer : buffer ++ piece = o ++ t)
    (htext : t ++ pieces.flatten = i.text ++ (i.after ++ items_text (']' :: tail) ',' items))
    (hcount : n + piece.length = i.start pos + t.length)
    (hfits : Fits pos (i :: items) (arrivals n (piece :: pieces)))
    (ih : ∀ {pos : ℕ} {items : List (Item reader)} {buffer : Str},
      Stage (']' :: tail) (n + piece.length) pos items buffer pieces.flatten →
      Fits pos items (arrivals (n + piece.length) pieces) →
      Accounted utf8_error (n + piece.length) pos items buffer pieces) :
    Accounted utf8_error n pos (i :: items) buffer (piece :: pieces) := by
  rw [arrivals, Fits] at hfits
  obtain ⟨-, hfits⟩ := hfits
  have hlen : i.stop pos = i.start pos + i.text.length := rfl
  by_cases hstop : i.stop pos ≤ n + piece.length
  · rw [if_pos hstop] at hfits
    obtain ⟨hfinish, hfits⟩ := hfits
    obtain ⟨rest, rfl, hrest⟩ := front_of_length_le htext.symm (by omega)
    obtain ⟨c, s, hcons, hc⟩ := items_text_cons tail items
    have hgap : rest ++ pieces.flatten = i.after ++ c :: s := by rw [← hcons, hrest]
    have hcall := parse_item i ho (next_gap i.after_blank hc hgap)
    rw [← hbuffer] at hcall
    have hquiet : items = [] → Quiet (rest ++ pieces.flatten) := by
      rintro rfl
      rw [← hrest]
      exact quiet_close i.after_blank htail
    refine Accounted.take hstop hcall ?_ ?_
    · intro hdone
      rw [if_pos hdone]
      obtain hitems | hpieces := hfinish hdone
      · exact gives_quiet fun c hc => hquiet hitems c (List.mem_append_right _ hc)
      · cases pieces with
        | nil => exact gives_nil []
        | cons piece pieces => exact absurd hpieces (List.cons_ne_nil _ _)
    · intro hdone
      rw [if_neg (Bool.eq_false_iff.1 hdone)]
      refine ih ?_ hfits
      cases items with
      | nil =>
          have hq := hquiet rfl
          exact .behind (Quiet.closed (fun c hc => hq c (List.mem_append_left _ hc)) _ hq)
      | cons j items =>
          rw [closed_gap i.after_blank hrest.symm]
          refine .waiting i.after_blank (.inl rfl) hrest.symm ?_
          have hnext : i.next pos = i.stop pos + i.after.length := rfl
          rw [List.length_append] at hcount
          omega
  · rw [if_neg hstop] at hfits
    obtain ⟨m, hm, -⟩ := front_of_length_le htext (by omega)
    have hready : Ready t := by
      obtain ⟨s, hs⟩ := i.opens
      cases t with
      | nil => exact .inl rfl
      | cons d t =>
          rw [hs] at hm
          exact .inr ⟨t, by rw [(List.cons.inj hm).1]⟩
    have hnone : reader.next t = none := by
      refine i.part t ⟨m, hm.symm⟩ ?_
      rintro rfl
      omega
    have hcall := parse_part ho hready hnone
    rw [← hbuffer] at hcall
    exact (ih (.within htext hcount (by omega)) hfits).cons hcall (by omega)

/-- What one call after another gives, from any stage: the induction is on the pieces. -/
theorem accounted {tail : Str} (htail : Blank tail) {pieces : List Str} :
    ∀ {n pos : ℕ} {items : List (Item reader)} {buffer : Str},
      Stage (']' :: tail) n pos items buffer pieces.flatten →
      Fits pos items (arrivals n pieces) → Accounted utf8_error n pos items buffer pieces := by
  induction pieces with
  | nil => exact fun _ _ => ⟨[], gives_nil _, rfl⟩
  | cons piece pieces ih =>
      intro n pos items buffer hstage hfits
      cases hstage with
      | behind h => exact ⟨[], gives_quiet h, by rw [up_to_finish, left_nil]; rfl⟩
      | within htext hcount hlt =>
          rw [List.flatten_cons, ← List.append_assoc] at htext
          refine accounted_reached htail (.inl (.inl rfl)) (List.nil_append _).symm htext ?_ hfits ih
          rw [List.length_append]
          omega
      | @waiting i items _ _ v opener hv hopener htext hcount =>
          rw [List.flatten_cons, ← List.append_assoc] at htext
          have hmark : i.mark pos = pos + 1 := rfl
          have hstart : i.start pos = i.mark pos + i.before.length := rfl
          have hstop : i.stop pos = i.start pos + i.text.length := rfl
          have hlen : (buffer ++ piece).length = buffer.length + piece.length :=
            List.length_append
          by_cases hreach : i.mark pos ≤ n + piece.length
          · have hblank := (by rw [arrivals, Fits] at hfits; exact hfits.1 hreach :
              i.start pos ≤ n + piece.length)
            have hsplit : (buffer ++ piece) ++ pieces.flatten = (v ++ opener :: i.before) ++
                (i.text ++ (i.after ++ items_text (']' :: tail) ',' items)) := by
              rw [htext, items_text, List.append_assoc, List.cons_append]
            have hfront : (v ++ opener :: i.before).length = v.length + (i.before.length + 1) := by
              rw [List.length_append, List.length_cons]
            obtain ⟨t, ht, hrest⟩ := front_of_length_le hsplit.symm (by omega)
            refine accounted_reached htail ?_ ht hrest.symm ?_ hfits ih
            · obtain rfl | ⟨rfl, hbefore⟩ := hopener
              · exact .inr ⟨v, i.before, rfl, hv, i.before_blank⟩
              · exact .inl (.inr ⟨v, by rw [hbefore], hv⟩)
            · rw [ht, List.length_append] at hlen
              omega
          · -- the bracket or the comma has not arrived
            have hshort : ¬ i.stop pos ≤ n + piece.length := by omega
            obtain ⟨m, hm, -⟩ := front_of_length_le htext (by omega)
            have hblank : Blank (buffer ++ piece) := by
              rw [hm] at hv
              exact hv.of_append_left
            have hcall : parse_text reader (buffer ++ piece) = (.ok [], buffer ++ piece) := by
              rw [parse_quiet hblank.quiet, closed_blank hblank]
            rw [arrivals, Fits, if_neg hshort] at hfits
            refine (ih (.waiting hv hopener htext ?_) hfits.2).cons hcall (by omega)
            omega

/-- An empty array. -/
theorem gives_empty {lead q : Str} (hlead : Blank lead) (hq : Quiet q) {pieces : List Str} :
    ∀ {buffer : Str}, buffer ++ pieces.flatten = lead ++ '[' :: q →
      Gives reader utf8_error buffer pieces [] := by
  induction pieces with
  | nil => exact fun _ => gives_nil _
  | cons piece pieces ih =>
      intro buffer h
      rw [List.flatten_cons, ← List.append_assoc] at h
      obtain hblank | ⟨s, hs⟩ := gap_cases hlead h
      · have hcall := @parse_quiet reader _ hblank.quiet
        rw [closed_blank hblank] at hcall
        exact (ih h).cons hcall
      · rw [hs, List.append_assoc, List.cons_append] at h
        have hrest : s ++ pieces.flatten = q := (List.cons.inj (List.append_cancel_left h)).2
        have hquiet : Quiet s := fun c hc => hq c (hrest ▸ List.mem_append_left _ hc)
        have hcall := @parse_opened_quiet reader lead s hlead hquiet
        rw [List.append_assoc, List.singleton_append, ← hs] at hcall
        exact (gives_quiet (hquiet.closed _ (hrest ▸ hq))).cons hcall

end

theorem streamed_of_gives {reader : JsonReader} {utf8_error : List UInt8 → String}
    {pieces : List Str} {chunks : List StreamChunk} (h : Gives reader utf8_error [] pieces chunks) :
    streamed reader utf8_error pieces = .ok chunks := by
  obtain ⟨h₁, h₂⟩ := h
  unfold streamed
  change (match calls reader utf8_error [] pieces with
    | (chunks, none, buffer) => _
    | (_, some e, _) => _) = _
  rcases hcalls : calls reader utf8_error [] pieces with ⟨given, error, buffer⟩
  rw [hcalls] at h₁ h₂
  dsimp only at h₁ h₂
  subst h₁ h₂
  exact congrArg Except.ok (List.append_nil _)

/-- As long as whitespace and finish reasons are where the count of the bytes allows, the
chunks are those of the elements exactly when no element with a chunk is left. -/
theorem streamed_iff (reader : JsonReader) (utf8_error : List UInt8 → String)
    (a : JsonArray reader) (pieces : List Str) (hpieces : pieces.flatten = a.text)
    (hgap : ∀ i ∈ a.items.head?, i.before = [])
    (hfits : Fits a.lead.length a.items (arrivals 0 pieces)) :
    streamed reader utf8_error pieces = .ok ((up_to_finish a.items).flatMap Item.chunks) ↔
      ∀ i ∈ left a.lead.length (up_to_finish a.items) (arrivals 0 pieces), i.chunks = [] := by
  have haccounted : Accounted utf8_error 0 a.lead.length a.items [] pieces := by
    obtain ⟨lead, items, gap, tail, hlead, hblank, htail⟩ := a
    cases items with
    | nil =>
        refine ⟨[], gives_empty hlead (quiet_close hblank htail) hpieces, ?_⟩
        rw [up_to_finish, left_nil]
        rfl
    | cons i items =>
        have hcount : lead.length + 0 = 0 + lead.length := Nat.add_comm _ _
        exact accounted htail (.waiting hlead (.inr ⟨rfl, hgap i rfl⟩) hpieces hcount) hfits
  obtain ⟨chunks, hgives, heq⟩ := haccounted
  rw [streamed_of_gives hgives, ← List.flatMap_eq_nil_iff]
  constructor
  · intro h
    rw [← Except.ok.inj h] at heq
    exact List.append_right_eq_self.1 heq
  · intro h
    rw [h, List.append_nil] at heq
    rw [heq]

/-! ### A reader that knows one object -/

def sample_object : Str :=
  '\x7b' :: ("\"candidates\":[\x7b\"content\":\x7b\"parts\":[\x7b\"text\":\"a\"\x7d]\x7d," ++
    "\"index\":0\x7d]\x7d").toList

def sample_response : GoogleChatResponse :=
  ⟨[⟨⟨[⟨some "a", none, false, none⟩], none, none⟩, none⟩], none⟩

def sample_next (s : Str) : Option (GoogleChatResponse × Str) :=
  if sample_object <+: s.dropWhile is_json_space then
    some (sample_response, (s.dropWhile is_json_space).drop sample_object.length)
  else none

theorem sample_next_eq {c : Char} (hc : is_json_space c = false) (s : Str) :
    sample_next (c :: s) =
      if sample_object <+: c :: s then some (sample_response, (c :: s).drop sample_object.length)
      else none := by
  unfold sample_next
  rw [List.dropWhile_cons_of_neg (by rw [hc]; exact Bool.false_ne_true)]

theorem sample_next_of_ne {c : Char} (hc : is_json_space c = false) (hne : c ≠ '\x7b') (s : Str) :
    sample_next (c :: s) = none := by
  rw [sample_next_eq hc, if_neg]
  intro h
  exact hne (List.cons_prefix_cons.1 h).1.symm

def sample_reader : JsonReader where
  next := sample_next
  skips w s hw := by
    unfold sample_next
    rw [List.dropWhile_append_of_pos hw]
  at_end := rfl
  at_comma := sample_next_of_ne (by decide) (by decide)
  at_close := sample_next_of_ne (by decide) (by decide)

def sample_item : Item sample_reader where
  before := []
  text := sample_object
  after := []
  response := sample_response
  before_blank := fun _ hc => absurd hc List.not_mem_nil
  after_blank := fun _ hc => absurd hc List.not_mem_nil
  opens := ⟨_, rfl⟩
  whole rest := by
    change sample_next (sample_object ++ rest) = _
    have h : sample_object ++ rest = '\x7b' :: (sample_object.tail ++ rest) := rfl
    rw [h, sample_next_eq (by decide), ← h, if_pos (List.prefix_append _ _), List.drop_left]
  part s hs hne := by
    change sample_next s = none
    cases s with
    | nil => rfl
    | cons c s =>
        have hc : c = '\x7b' := (List.cons_prefix_cons.1 hs).1
        subst hc
        rw [sample_next_eq (by decide), if_neg]
        exact fun h => hne (hs.eq_of_length_le h.length_le)

def sample_array (items : List (Item sample_reader)) : JsonArray sample_reader where
  lead := []
  items := items
  gap := []
  tail := []
  lead_blank := fun _ hc => absurd hc List.not_mem_nil
  gap_blank := fun _ hc => absurd hc List.not_mem_nil
  tail_blank := fun _ hc => absurd hc List.not_mem_nil

/-- The second element, with whitespace around it. -/
def spaced_item : Item sample_reader :=
  { sample_item with
    before := "\n  ".toList
    after := "\n".toList
    before_blank := List.all_eq_true.1 (by decide +kernel)
    after_blank := List.all_eq_true.1 (by decide +kernel) }

/-- Three pieces: each object is cut. -/
def sample_pieces : List Str :=
  let text := (sample_array [sample_item, spaced_item]).text
  [text.take 20, (text.drop 20).take 60, (text.drop 20).drop 60]

theorem streamed_iff_sample :
    streamed sample_reader (fun _ => "invalid utf-8") sample_pieces =
        .ok ((up_to_finish [sample_item, spaced_item]).flatMap Item.chunks) ↔
      ∀ i ∈ left 0 (up_to_finish [sample_item, spaced_item]) (arrivals 0 sample_pieces),
        i.chunks = [] := by
  apply streamed_iff sample_reader _ (sample_array [sample_item, spaced_item])
  · decide +kernel
  · intro i hi
    cases hi
    rfl
  · refine ⟨by decide +kernel, ?_⟩
    rw [if_neg (by decide +kernel)]
    refine ⟨by decide +kernel, ?_⟩
    rw [if_pos (by decide +kernel)]
    refine ⟨fun hfinishes => absurd hfinishes (by decide +kernel), by decide +kernel, ?_⟩
    rw [if_pos (by decide +kernel)]
    exact ⟨fun _ => .inl rfl, trivial⟩

/-- An array that arrives at once loses all elements but the first. -/
theorem second_element_lost :
    (streamed sample_reader (fun _ => "invalid utf-8")
        [(sample_array [sample_item, sample_item]).text]).toOption = some [.Text "a"] ∧
      (up_to_finish [sample_item, sample_item]).flatMap Item.chunks = [.Text "a", .Text "a"] := by
  decide +kernel

end Querymt.Google
