/-
`Provider/GoogleResponse.lean` -- an answer of Gemini that comes as a whole.

Mirrors `tool_calls` and `finish_reason` of `GoogleChatResponse` (`providers/google/src/lib.rs`)
and compares them with the chunks of the same response in a stream. A response has three ways
to encode function calls. The whole response reads one of them, the first that is there; the
stream reads all of them, and its finish reason looks at one (`agree_iff`).
-/
import Querymt.Provider.GoogleStream

set_option autoImplicit false

open Faults

namespace Querymt.Google

open Querymt.Agent (StreamChunk FinishReason ToolCall)

/-! ## 1. The whole response -/

/-- A call of the older format, which is not in a part. -/
def content_call (f : GoogleFunctionCall) : ToolCall :=
  ⟨"call_" ++ f.name, "function", ⟨f.name, f.args⟩⟩

def part_function_calls (parts : List GoogleResponsePart) : List ToolCall :=
  parts.filterMap fun part =>
    part.function_call.map fun f => ⟨part.id f, "function", ⟨f.name, f.args⟩⟩

/-- The calls that are read of a candidate. -/
def GoogleCandidate.tool_calls (c : GoogleCandidate) : Option (List ToolCall) :=
  let part_calls := part_function_calls c.content.parts
  if part_calls ≠ [] then some part_calls
  else match c.content.function_calls with
    | some fc => some (fc.map content_call)
    | none => c.content.function_call.map fun f => [content_call f]

namespace GoogleChatResponse

def tool_calls (r : GoogleChatResponse) : Option (List ToolCall) :=
  r.candidates.head?.bind GoogleCandidate.tool_calls

/-- The match of `finish_reason`. -/
def match_reason : Option String → Option FinishReason
  | some "STOP" => some .Stop
  | some "MAX_TOKENS" => some .Length
  | some "SAFETY" | some "IMAGE_SAFETY" | some "IMAGE_PROHIBITED_CONTENT" | some "BLOCKLIST"
  | some "SPII" | some "PROHIBITED_CONTENT" => some .ContentFilter
  | some "OTHER" | some "IMAGE_OTHER" => some .Other
  | some "MALFORMED_FUNCTION_CALL" => some .Error
  | some "FINISH_REASON_UNSPECIFIED" => some .Unknown
  | _ => none

/-- Without a candidate the `unwrap` panics. -/
def finish_reason {ε : Type} (r : GoogleChatResponse) : Except (Fault ε) (Option FinishReason) :=
  if r.tool_calls.isSome then .ok (some .ToolCalls)
  else match r.candidates.head? with
    | some c => .ok (match_reason c.finish_reason)
    | none => .error .Panic

end GoogleChatResponse

/-! ## 2. The law and the condition -/

/-- **The streamed and the whole response agree** on the calls, and these have ids. -/
structure Agree (r : GoogleChatResponse) : Prop where
  calls : (extract_google_stream_chunks r).filterMap StreamChunk.tool_call = r.tool_calls.getD []
  finish : ∀ reason, StreamChunk.Done reason ∈ extract_google_stream_chunks r →
    @GoogleChatResponse.finish_reason Empty r = .ok (some reason)
  returns : ∃ reason, @GoogleChatResponse.finish_reason Empty r = .ok reason
  ids : ((r.tool_calls.getD []).map ToolCall.id).Nodup

/-- The reasons that both name. -/
def known_reasons : List String :=
  ["STOP", "MAX_TOKENS", "SAFETY", "IMAGE_SAFETY", "IMAGE_PROHIBITED_CONTENT", "BLOCKLIST", "SPII",
    "PROHIBITED_CONTENT", "OTHER", "IMAGE_OTHER", "MALFORMED_FUNCTION_CALL",
    "FINISH_REASON_UNSPECIFIED"]

/-- What tells a call of a part from others: the name of its function and its signature. -/
def GoogleResponsePart.label (part : GoogleResponsePart) (f : GoogleFunctionCall) : String :=
  match part.thought_signature with
  | some sig => f.name ++ ":" ++ sig
  | none => f.name

/-- The calls of the parts, by what tells them from others. -/
def part_labels (parts : List GoogleResponsePart) : List String :=
  parts.filterMap fun part => part.function_call.map part.label

/-- **The condition** on the first candidate. -/
structure CallsFit (c : GoogleCandidate) : Prop where
  /-- A single call of the older format has nothing beside it. -/
  single : c.content.function_call = none ∨
    part_labels c.content.parts = [] ∧ c.content.function_calls = none
  /-- The calls are in the parts, or in the array of the older format. -/
  parts_or_array : part_labels c.content.parts = [] ∨ c.content.function_calls.getD [] = []
  /-- A finish reason comes with calls in that array, or with no calls at all. -/
  reason : ∀ reason, c.finish_reason = some reason → c.content.function_calls.getD [] = [] →
    part_labels c.content.parts = [] ∧ c.content.function_call = none ∧
      c.content.function_calls = none ∧ reason ∈ known_reasons
  /-- No function is called twice with one signature, or without. -/
  labels : (part_labels c.content.parts).Nodup
  names : ((c.content.function_calls.getD []).map GoogleFunctionCall.name).Nodup

/-! ## 3. The calls of a stream -/

section

variable {c : GoogleCandidate} {rest : List GoogleCandidate} {r : GoogleChatResponse}

theorem calls_of_part (index : ℕ) (part : GoogleResponsePart) :
    (part_chunks index part).filterMap StreamChunk.tool_call =
      (part.function_call.map fun f =>
        (⟨part.id f, "function", ⟨f.name, f.args⟩⟩ : ToolCall)).toList := by
  unfold part_chunks
  rw [List.filterMap_append]
  -- a text is no call
  cases part.text with
  | none => cases part.function_call <;> rfl
  | some text =>
      dsimp only
      split_ifs <;> (cases part.function_call <;> rfl)

theorem calls_of_parts (parts : List GoogleResponsePart) (n : ℕ) :
    ((parts.zipIdx n).flatMap fun p => part_chunks p.2 p.1).filterMap StreamChunk.tool_call =
      part_function_calls parts := by
  induction parts generalizing n with
  | nil => rfl
  | cons part parts ih =>
      rw [List.zipIdx_cons, List.flatMap_cons, List.filterMap_append, calls_of_part, ih,
        part_function_calls, part_function_calls, List.filterMap_cons]
      cases part.function_call with
      | none => rfl
      | some f => rfl

theorem calls_of_array (fcs : List GoogleFunctionCall) (n : ℕ) :
    ((fcs.zipIdx n).flatMap fun p => tool_use p.2 ("call_" ++ p.1.name) p.1).filterMap
      StreamChunk.tool_call = fcs.map content_call := by
  induction fcs generalizing n with
  | nil => rfl
  | cons f fcs ih =>
      rw [List.zipIdx_cons, List.flatMap_cons, List.filterMap_append, ih, List.map_cons]
      rfl

/-- The calls in a stream: all that are there. -/
theorem stream_calls (h : r.candidates = c :: rest) :
    (extract_google_stream_chunks r).filterMap StreamChunk.tool_call =
      part_function_calls c.content.parts ++
        ((c.content.function_call.toList.map content_call) ++
          (c.content.function_calls.getD []).map content_call) := by
  unfold extract_google_stream_chunks
  rw [h]
  dsimp only
  have hsingle : (c.content.function_call.toList.flatMap fun fc =>
      tool_use 0 ("call_" ++ fc.name) fc).filterMap StreamChunk.tool_call =
        c.content.function_call.toList.map content_call := by
    cases c.content.function_call with
    | none => rfl
    | some f => rfl
  have husage : (r.usage.toList.map StreamChunk.Usage).filterMap StreamChunk.tool_call = [] := by
    cases r.usage with
    | none => rfl
    | some u => rfl
  have hdone : (c.finish_reason.toList.map fun reason =>
      StreamChunk.Done (read_finish_reason c.content reason)).filterMap StreamChunk.tool_call =
        [] := by
    cases c.finish_reason with
    | none => rfl
    | some reason => rfl
  rw [List.filterMap_append, List.filterMap_append, List.filterMap_append, List.filterMap_append,
    calls_of_parts, calls_of_array, hsingle, husage, hdone, List.append_nil, List.append_nil,
    List.append_assoc]

theorem done_not_mem_part (index : ℕ) (part : GoogleResponsePart) (reason : FinishReason) :
    StreamChunk.Done reason ∉ part_chunks index part := by
  unfold part_chunks tool_use
  intro hmem
  obtain hmem | hmem := List.mem_append.1 hmem
  · split at hmem
    · split_ifs at hmem <;> simp at hmem
    · simp at hmem
  · split at hmem <;> simp at hmem

/-- The end in a stream: the finish reason of the candidate, as it is read there. -/
theorem done_mem_iff (h : r.candidates = c :: rest) (reason : FinishReason) :
    StreamChunk.Done reason ∈ extract_google_stream_chunks r ↔
      ∃ s, c.finish_reason = some s ∧ read_finish_reason c.content s = reason := by
  unfold extract_google_stream_chunks
  rw [h]
  dsimp only
  rw [List.mem_append, List.mem_append, List.mem_append, List.mem_append]
  constructor
  · rintro ((((hmem | hmem) | hmem) | hmem) | hmem)
    · obtain ⟨p, -, hmem⟩ := List.mem_flatMap.1 hmem
      exact absurd hmem (done_not_mem_part _ _ _)
    · obtain ⟨f, -, hmem⟩ := List.mem_flatMap.1 hmem
      simp [tool_use] at hmem
    · obtain ⟨p, -, hmem⟩ := List.mem_flatMap.1 hmem
      simp [tool_use] at hmem
    · obtain ⟨u, -, hu⟩ := List.mem_map.1 hmem
      cases hu
    · obtain ⟨s, hs, heq⟩ := List.mem_map.1 hmem
      exact ⟨s, Option.mem_toList.1 hs, StreamChunk.Done.inj heq⟩
  · rintro ⟨s, hs, rfl⟩
    exact .inr (List.mem_map.2 ⟨s, Option.mem_toList.2 hs, rfl⟩)

/-! ## 4. The calls that are read of a whole response -/

theorem tool_calls_of_parts (h : part_function_calls c.content.parts ≠ []) :
    c.tool_calls = some (part_function_calls c.content.parts) := if_pos h

theorem tool_calls_of_array {fc : List GoogleFunctionCall}
    (h : part_function_calls c.content.parts = []) (hfc : c.content.function_calls = some fc) :
    c.tool_calls = some (fc.map content_call) := by
  unfold GoogleCandidate.tool_calls
  rw [if_neg (not_not.2 h), hfc]

theorem tool_calls_of_single (h : part_function_calls c.content.parts = [])
    (hfc : c.content.function_calls = none) :
    c.tool_calls = c.content.function_call.map fun f => [content_call f] := by
  unfold GoogleCandidate.tool_calls
  rw [if_neg (not_not.2 h), hfc]

/-! ### Ids -/

theorem id_eq_label (part : GoogleResponsePart) (f : GoogleFunctionCall) :
    part.id f = "call_" ++ part.label f := by
  unfold GoogleResponsePart.id GoogleResponsePart.label
  cases part.thought_signature with
  | none => rfl
  | some sig =>
      dsimp only
      rw [String.append_assoc, String.append_assoc, String.append_assoc]

theorem ids_of_parts (parts : List GoogleResponsePart) :
    (part_function_calls parts).map ToolCall.id = (part_labels parts).map ("call_" ++ ·) := by
  unfold part_function_calls part_labels
  rw [List.map_filterMap, List.map_filterMap]
  apply List.filterMap_congr
  intro part _
  cases part.function_call with
  | none => rfl
  | some f => exact congrArg some (id_eq_label part f)

theorem call_prefix_injective : Function.Injective fun s : String => "call_" ++ s :=
  fun _ _ h => (String.append_right_inj "call_").1 h

theorem part_calls_eq_nil (parts : List GoogleResponsePart) :
    part_function_calls parts = [] ↔ part_labels parts = [] := by
  rw [← List.map_eq_nil_iff, ids_of_parts, List.map_eq_nil_iff]

theorem ids_of_array (fcs : List GoogleFunctionCall) :
    (fcs.map content_call).map ToolCall.id =
      (fcs.map GoogleFunctionCall.name).map ("call_" ++ ·) := by
  rw [List.map_map, List.map_map]
  rfl

/-! ### Finish reasons -/

open GoogleChatResponse (match_reason)

/-- What both name they read alike. -/
theorem match_known {s : String} (h : s ∈ known_reasons) {content : GoogleResponseContent}
    (hnone : content.function_calls.getD [] = []) :
    match_reason (some s) = some (read_finish_reason content s) := by
  unfold read_finish_reason
  rw [hnone, if_pos List.isEmpty_nil]
  simp only [known_reasons, List.mem_cons, List.not_mem_nil, or_false] at h
  rcases h with rfl | rfl | rfl | rfl | rfl | rfl | rfl | rfl | rfl | rfl | rfl | rfl <;> rfl

theorem known_of_match {s : String} {reason : FinishReason}
    (h : match_reason (some s) = some reason) : s ∈ known_reasons := by
  by_contra hs
  simp only [known_reasons, List.mem_cons, List.not_mem_nil, or_false, not_or] at hs
  unfold match_reason at h
  split at h <;> simp_all

theorem read_ne_tool_calls {content : GoogleResponseContent} {s : String}
    (hnone : content.function_calls.getD [] = []) :
    read_finish_reason content s ≠ .ToolCalls := by
  unfold read_finish_reason
  rw [hnone, if_pos List.isEmpty_nil]
  split <;> exact fun h => by cases h

theorem read_of_array {content : GoogleResponseContent} {s : String}
    (hne : content.function_calls.getD [] ≠ []) : read_finish_reason content s = .ToolCalls :=
  if_neg fun h => hne (List.isEmpty_iff.1 h)

/-! ## 5. Both together -/

theorem finish_reason_of_calls {calls : List ToolCall} (h : r.tool_calls = some calls) :
    @GoogleChatResponse.finish_reason Empty r = .ok (some .ToolCalls) := by
  unfold GoogleChatResponse.finish_reason
  rw [h]
  exact if_pos rfl

theorem finish_reason_of_none (hr : r.candidates = c :: rest) (h : c.tool_calls = none) :
    @GoogleChatResponse.finish_reason Empty r = .ok (match_reason c.finish_reason) := by
  unfold GoogleChatResponse.finish_reason GoogleChatResponse.tool_calls
  rw [hr, List.head?_cons, Option.bind_some, h]
  exact if_neg Bool.false_ne_true

theorem tool_calls_cons (hr : r.candidates = c :: rest) : r.tool_calls = c.tool_calls := by
  unfold GoogleChatResponse.tool_calls
  rw [hr]
  rfl

/-- No call of any kind is read exactly if there is none, not even an empty array. -/
theorem tool_calls_eq_none : c.tool_calls = none ↔ part_labels c.content.parts = [] ∧
    c.content.function_call = none ∧ c.content.function_calls = none := by
  rw [← part_calls_eq_nil]
  by_cases hparts : part_function_calls c.content.parts = []
  · cases hfc : c.content.function_calls with
    | some fc =>
        rw [tool_calls_of_array hparts hfc]
        exact iff_of_false (Option.some_ne_none _) fun h => Option.some_ne_none _ h.2.2
    | none =>
        rw [tool_calls_of_single hparts hfc, Option.map_eq_none_iff]
        exact ⟨fun h => ⟨hparts, h, rfl⟩, fun h => h.2.1⟩
  · rw [tool_calls_of_parts hparts]
    exact iff_of_false (Option.some_ne_none _) fun h => hparts h.1

theorem callsFit_of_agree (hr : r.candidates = c :: rest) (h : Agree r) : CallsFit c := by
  have hcalls := h.calls
  have hids := h.ids
  rw [stream_calls hr, tool_calls_cons hr] at hcalls
  rw [tool_calls_cons hr] at hids
  -- the two encodings that the whole response may pass over
  have hsingle : c.content.function_call = none ∨
      part_labels c.content.parts = [] ∧ c.content.function_calls = none := by
    rw [← part_calls_eq_nil]
    by_cases hparts : part_function_calls c.content.parts = []
    · cases hfc : c.content.function_calls with
      | none => exact .inr ⟨hparts, rfl⟩
      | some fc =>
          rw [tool_calls_of_array hparts hfc, hparts, hfc] at hcalls
          have hlen := congrArg List.length hcalls
          simp only [List.nil_append, List.length_append, List.length_map, Option.getD_some] at hlen
          exact .inl (Option.toList_eq_nil_iff.1 (List.length_eq_zero_iff.1 (by omega)))
    · rw [tool_calls_of_parts hparts] at hcalls
      have hlen := congrArg List.length hcalls
      simp only [List.length_append, List.length_map, Option.getD_some] at hlen
      exact .inl (Option.toList_eq_nil_iff.1 (List.length_eq_zero_iff.1 (by omega)))
  have harray : part_labels c.content.parts = [] ∨ c.content.function_calls.getD [] = [] := by
    rw [← part_calls_eq_nil]
    by_cases hparts : part_function_calls c.content.parts = []
    · exact .inl hparts
    · rw [tool_calls_of_parts hparts] at hcalls
      have hlen := congrArg List.length hcalls
      simp only [List.length_append, List.length_map, Option.getD_some] at hlen
      exact .inr (List.length_eq_zero_iff.1 (by omega))
  refine ⟨hsingle, harray, fun s hs hnone => ?_, ?_, ?_⟩
  · -- the stream does not say that there are calls, and so there are none
    have hfinish := h.finish _ ((done_mem_iff hr _).2 ⟨s, hs, rfl⟩)
    cases hcase : c.tool_calls with
    | some calls =>
        rw [finish_reason_of_calls ((tool_calls_cons hr).trans hcase), Except.ok.injEq,
          Option.some.injEq] at hfinish
        exact absurd hfinish.symm (read_ne_tool_calls hnone)
    | none =>
        rw [finish_reason_of_none hr hcase, Except.ok.injEq, hs] at hfinish
        obtain ⟨hparts, hfc, hfcs⟩ := tool_calls_eq_none.1 hcase
        exact ⟨hparts, hfc, hfcs, known_of_match hfinish⟩
  · by_cases hparts : part_function_calls c.content.parts = []
    · rw [(part_calls_eq_nil _).1 hparts]
      exact List.nodup_nil
    · rw [tool_calls_of_parts hparts, Option.getD_some, ids_of_parts,
        List.nodup_map_iff call_prefix_injective] at hids
      exact hids
  · cases hfc : c.content.function_calls with
    | none => exact List.nodup_nil
    | some fc =>
        rw [hfc] at harray
        rcases harray with hparts | hempty
        · rw [tool_calls_of_array ((part_calls_eq_nil _).2 hparts) hfc, Option.getD_some,
            ids_of_array, List.nodup_map_iff call_prefix_injective] at hids
          exact hids
        · rw [hempty]
          exact List.nodup_nil

theorem agree_of_callsFit (hr : r.candidates = c :: rest) (h : CallsFit c) : Agree r := by
  have hparts_calls := part_calls_eq_nil c.content.parts
  refine ⟨?_, fun reason hdone => ?_, ?_, ?_⟩
  · -- one encoding has the calls
    rw [stream_calls hr, tool_calls_cons hr]
    by_cases hparts : part_function_calls c.content.parts = []
    · cases hfc : c.content.function_calls with
      | some fc =>
          have hsingle := h.single.resolve_right fun hboth => by
            rw [hboth.2] at hfc
            cases hfc
          rw [tool_calls_of_array hparts hfc, hparts, hsingle]
          rfl
      | none =>
          rw [tool_calls_of_single hparts hfc, hparts]
          cases c.content.function_call <;> rfl
    · have hsingle := h.single.resolve_right fun hboth => hparts (hparts_calls.2 hboth.1)
      have harray := h.parts_or_array.resolve_left fun hnil => hparts (hparts_calls.2 hnil)
      rw [tool_calls_of_parts hparts, hsingle, harray]
      exact List.append_nil _
  · obtain ⟨s, hs, rfl⟩ := (done_mem_iff hr reason).1 hdone
    by_cases hnone : c.content.function_calls.getD [] = []
    · obtain ⟨hparts, hfc, hfcs, hknown⟩ := h.reason s hs hnone
      rw [finish_reason_of_none hr (tool_calls_eq_none.2 ⟨hparts, hfc, hfcs⟩), hs,
        match_known hknown hnone]
    · have hcalls : c.tool_calls ≠ none := fun hcase => by
        rw [(tool_calls_eq_none.1 hcase).2.2] at hnone
        exact hnone rfl
      obtain ⟨calls, hcase⟩ := Option.ne_none_iff_exists'.1 hcalls
      rw [read_of_array hnone, finish_reason_of_calls ((tool_calls_cons hr).trans hcase)]
  · cases hcase : c.tool_calls with
    | some calls => exact ⟨_, finish_reason_of_calls ((tool_calls_cons hr).trans hcase)⟩
    | none => exact ⟨_, finish_reason_of_none hr hcase⟩
  · rw [tool_calls_cons hr]
    by_cases hparts : part_function_calls c.content.parts = []
    · cases hfc : c.content.function_calls with
      | some fc =>
          have hnames := h.names
          rw [hfc, Option.getD_some] at hnames
          rw [tool_calls_of_array hparts hfc, Option.getD_some, ids_of_array]
          exact hnames.map call_prefix_injective
      | none =>
          rw [tool_calls_of_single hparts hfc]
          cases c.content.function_call with
          | none => exact List.nodup_nil
          | some f => exact List.nodup_singleton _
    · rw [tool_calls_of_parts hparts, Option.getD_some, ids_of_parts]
      exact h.labels.map call_prefix_injective

end

/-- **The streamed and the whole response agree** if and only if there is a candidate, and its
calls are encoded in one way, are told from each other by their names and signatures, and come
with a finish reason only in the array of the older format. -/
theorem responses_agree_iff (r : GoogleChatResponse) :
    Agree r ↔ ∃ c, r.candidates.head? = some c ∧ CallsFit c := by
  cases hr : r.candidates with
  | nil =>
      refine iff_of_false (fun h => ?_) (fun ⟨c, hc, _⟩ => by cases hc)
      obtain ⟨reason, hreason⟩ := h.returns
      unfold GoogleChatResponse.finish_reason GoogleChatResponse.tool_calls at hreason
      rw [hr] at hreason
      cases hreason
  | cons c rest =>
      constructor
      · intro h
        exact ⟨c, rfl, callsFit_of_agree hr h⟩
      · rintro ⟨c', hc', h⟩
        obtain rfl := Option.some.inj hc'
        exact agree_of_callsFit hr h

/-- A call in a part, as Gemini sends it, at the end of a response. -/
def call_in_part : GoogleChatResponse where
  candidates :=
    [{ content :=
        { parts := [⟨none, some ⟨"ls", "\x7b\x7d"⟩, false, none⟩]
          function_call := none
          function_calls := none }
       finish_reason := some "STOP" }]
  usage := none

/-- The stream ends with `Stop`, the whole response with `ToolCalls`. -/
theorem call_in_part_stops : ¬ Agree call_in_part := by
  intro h
  have hdone : StreamChunk.Done .Stop ∈ extract_google_stream_chunks call_in_part := by decide
  have hfinish := h.finish .Stop hdone
  cases hfinish

end Querymt.Google
