/-
`Agent/StreamAttempts.lean` -- what the streamed response holds.

The law of `Agent/Streaming.lean`: the response of a request is gathered from the last
attempt alone, and it is what the events have shown since the last recovery. The invariant
`Collects` relates the accumulators, the buffers and the events to the chunks read so far;
a chunk adds to it, a flush, a reconnect and the retries of a request keep it, and what a
recovery leaves is where the next attempt may start from (`Fresh`).
-/
import Querymt.Agent.Streaming

set_option autoImplicit false

open Gathering

namespace Querymt.Agent

/-! ## 1. Texts and usage, one more at a time -/

theorem shown_append (f : StreamEvent → Option String) {more : List StreamEvent}
    (hmore : ∀ e ∈ more, e.is_recovery = false) (events : List StreamEvent) :
    shown f (events ++ more) = shown f events ++ joined f more := by
  rw [shown, since_append hmore, joined_append]
  rfl

theorem maximum_concat (us : List Usage) (u : Usage) :
    maximum (us ++ [u]) =
      some (match maximum us with
        | some prev => prev.merge_max u
        | none => u) := by
  have hne : (us ++ [u]).isEmpty = false := by simp
  rw [maximum, hne, if_neg Bool.false_ne_true]
  rcases us with _ | ⟨v, us⟩
  · -- the largest of one value is that value
    simp [maximum, greatest]
  · rw [maximum]
    simp only [List.map_append, List.map_cons, List.map_nil, greatest_concat]
    rfl

/-! ## 2. What a state has collected -/

/-- All events so far about a message are about this one. -/
def OwnEvents (message_id : String) (s : StreamState) : Prop :=
  ∀ e ∈ s.events, ∀ id ∈ e.message_id, id = message_id

/-- **The invariant**: the accumulators hold what the chunks of the attempt hold, and of the
texts the buffers hold what has not been shown. -/
structure Collects (message_id : String) (chunks : List StreamChunk) (s : StreamState) : Prop where
  text : s.text = joined StreamChunk.text chunks
  text_shown : shown StreamEvent.content_delta s.events ++ s.text_buffer =
    joined StreamChunk.text chunks
  thinking : s.thinking = joined StreamChunk.thinking chunks
  thinking_shown : shown StreamEvent.thinking_delta s.events ++ s.thinking_buffer =
    joined StreamChunk.thinking chunks
  tool_call_ids : ∀ id, id ∈ s.tool_call_ids ↔
    id ∈ (chunks.filterMap StreamChunk.tool_call).map ToolCall.id
  tool_calls : s.stream_tool_calls =
    firsts ToolCall.id (chunks.filterMap StreamChunk.tool_call)
  usage : s.usage = maximum (chunks.filterMap StreamChunk.usage)
  own : OwnEvents message_id s

/-- An event that shows no text and takes none back. -/
structure Quiet (message_id : String) (e : StreamEvent) : Prop where
  recovery : e.is_recovery = false
  content : e.content_delta = none
  thinking : e.thinking_delta = none
  own : ∀ id ∈ e.message_id, id = message_id

section

variable {message_id : String} {chunks : List StreamChunk} {s : StreamState}

theorem batch_no_recovery : ∀ e ∈ s.batch message_id, e.is_recovery = false := by
  intro e he
  rcases List.mem_append.1 he with he | he <;> split at he
  · cases he
  · rw [List.mem_singleton.1 he]
    rfl
  · cases he
  · rw [List.mem_singleton.1 he]
    rfl

theorem own_batch : ∀ e ∈ s.batch message_id, ∀ id ∈ e.message_id, id = message_id := by
  intro e he id hid
  rcases List.mem_append.1 he with he | he <;> split at he
  · cases he
  · rw [List.mem_singleton.1 he] at hid
    exact (Option.some.inj hid).symm
  · cases he
  · rw [List.mem_singleton.1 he] at hid
    exact (Option.some.inj hid).symm

theorem joined_batch_text : joined StreamEvent.content_delta (s.batch message_id) = s.text_buffer := by
  rw [StreamState.batch, joined_append]
  have hthinking : joined StreamEvent.content_delta (if s.thinking_buffer.isEmpty then []
      else [.AssistantThinkingDelta s.thinking_buffer message_id]) = "" := by
    split <;> rfl
  rw [hthinking, String.append_empty]
  split
  · next h => exact (String.isEmpty_iff.1 h).symm
  · rw [joined_singleton]
    rfl

theorem joined_batch_thinking :
    joined StreamEvent.thinking_delta (s.batch message_id) = s.thinking_buffer := by
  rw [StreamState.batch, joined_append]
  have htext : joined StreamEvent.thinking_delta (if s.text_buffer.isEmpty then []
      else [.AssistantContentDelta s.text_buffer message_id]) = "" := by
    split <;> rfl
  rw [htext, String.empty_append]
  split
  · next h => exact (String.isEmpty_iff.1 h).symm
  · rw [joined_singleton]
    rfl

theorem OwnEvents.append {more : List StreamEvent} (h : OwnEvents message_id s)
    (hmore : ∀ e ∈ more, ∀ id ∈ e.message_id, id = message_id) :
    OwnEvents message_id { s with events := s.events ++ more } := by
  intro e he
  rcases List.mem_append.1 he with he | he
  · exact h e he
  · exact hmore e he

/-- A flush shows what the buffer holds. -/
theorem shown_text_flush (message_id : String) (s : StreamState) :
    shown StreamEvent.content_delta (s.flush_buffers message_id).events ++
        (s.flush_buffers message_id).text_buffer =
      shown StreamEvent.content_delta s.events ++ s.text_buffer := by
  rw [StreamState.flush_buffers]
  dsimp only
  rw [shown_append _ batch_no_recovery, joined_batch_text, String.append_empty]

theorem shown_thinking_flush (message_id : String) (s : StreamState) :
    shown StreamEvent.thinking_delta (s.flush_buffers message_id).events ++
        (s.flush_buffers message_id).thinking_buffer =
      shown StreamEvent.thinking_delta s.events ++ s.thinking_buffer := by
  rw [StreamState.flush_buffers]
  dsimp only
  rw [shown_append _ batch_no_recovery, joined_batch_thinking, String.append_empty]

theorem Collects.flush_buffers (h : Collects message_id chunks s) :
    Collects message_id chunks (s.flush_buffers message_id) where
  text := h.text
  text_shown := (shown_text_flush message_id s).trans h.text_shown
  thinking := h.thinking
  thinking_shown := (shown_thinking_flush message_id s).trans h.thinking_shown
  tool_call_ids := h.tool_call_ids
  tool_calls := h.tool_calls
  usage := h.usage
  own := h.own.append own_batch

theorem Collects.flush_if_due (h : Collects message_id chunks s) (elapsed : Bool) :
    Collects message_id chunks (s.flush_if_due message_id elapsed) := by
  rw [StreamState.flush_if_due]
  split
  · exact h.flush_buffers
  · exact h

theorem Collects.append_quiet (h : Collects message_id chunks s) {more : List StreamEvent}
    (hmore : ∀ e ∈ more, Quiet message_id e) :
    Collects message_id chunks { s with events := s.events ++ more } where
  text := h.text
  text_shown := by
    rw [← h.text_shown, shown_append _ fun e he => (hmore e he).recovery,
      joined_none _ fun e he => (hmore e he).content, String.append_empty]
  thinking := h.thinking
  thinking_shown := by
    rw [← h.thinking_shown, shown_append _ fun e he => (hmore e he).recovery,
      joined_none _ fun e he => (hmore e he).thinking, String.append_empty]
  tool_call_ids := h.tool_call_ids
  tool_calls := h.tool_calls
  usage := h.usage
  own := h.own.append fun e he => (hmore e he).own

theorem Collects.emit_event (h : Collects message_id chunks s) {e : StreamEvent}
    (he : Quiet message_id e) : Collects message_id chunks (s.emit_event e) :=
  h.append_quiet fun _ he' => List.mem_singleton.1 he' ▸ he

/-! ### One chunk -/

theorem add_tool_call_frame (s : StreamState) (tool_call : ToolCall) :
    (s.add_tool_call tool_call).text = s.text ∧
    (s.add_tool_call tool_call).thinking = s.thinking ∧
    (s.add_tool_call tool_call).usage = s.usage ∧
    (s.add_tool_call tool_call).text_buffer = s.text_buffer ∧
    (s.add_tool_call tool_call).thinking_buffer = s.thinking_buffer ∧
    (s.add_tool_call tool_call).events = s.events := by
  rw [StreamState.add_tool_call]
  split <;> exact ⟨rfl, rfl, rfl, rfl, rfl, rfl⟩

theorem handle_chunk_text (s : StreamState) (chunk : StreamChunk) :
    (s.handle_chunk message_id chunk).text = s.text ++ chunk.text.getD "" ∧
    shown StreamEvent.content_delta (s.handle_chunk message_id chunk).events ++
        (s.handle_chunk message_id chunk).text_buffer =
      shown StreamEvent.content_delta s.events ++ s.text_buffer ++ chunk.text.getD "" := by
  cases chunk with
  | Text delta => exact ⟨rfl, String.append_assoc.symm⟩
  | ToolUseComplete index tool_call =>
      obtain ⟨htext, -, -, hbuffer, -, hevents⟩ :=
        add_tool_call_frame (s.flush_buffers message_id) tool_call
      rw [StreamState.handle_chunk, htext, hbuffer, hevents, shown_text_flush]
      exact ⟨String.append_empty.symm, String.append_empty.symm⟩
  | _ => exact ⟨String.append_empty.symm, String.append_empty.symm⟩

theorem handle_chunk_thinking (s : StreamState) (chunk : StreamChunk) :
    (s.handle_chunk message_id chunk).thinking = s.thinking ++ chunk.thinking.getD "" ∧
    shown StreamEvent.thinking_delta (s.handle_chunk message_id chunk).events ++
        (s.handle_chunk message_id chunk).thinking_buffer =
      shown StreamEvent.thinking_delta s.events ++ s.thinking_buffer ++
        chunk.thinking.getD "" := by
  cases chunk with
  | Thinking delta => exact ⟨rfl, String.append_assoc.symm⟩
  | ToolUseComplete index tool_call =>
      obtain ⟨-, hthinking, -, -, hbuffer, hevents⟩ :=
        add_tool_call_frame (s.flush_buffers message_id) tool_call
      rw [StreamState.handle_chunk, hthinking, hbuffer, hevents, shown_thinking_flush]
      exact ⟨String.append_empty.symm, String.append_empty.symm⟩
  | _ => exact ⟨String.append_empty.symm, String.append_empty.symm⟩

/-- Only `Usage` adds usage. -/
theorem handle_chunk_usage (s : StreamState) (chunk : StreamChunk) :
    (s.handle_chunk message_id chunk).usage =
      match chunk.usage with
      | some u => (s.add_usage u).usage
      | none => s.usage := by
  cases chunk with
  | ToolUseComplete index tool_call =>
      exact (add_tool_call_frame (s.flush_buffers message_id) tool_call).2.2.1
  | _ => rfl

/-- Only `ToolUseComplete` adds a call; the flush before it leaves the calls as they are. -/
theorem handle_chunk_tool_calls (message_id : String) (s : StreamState) (chunk : StreamChunk) :
    ∃ s' : StreamState, s'.tool_call_ids = s.tool_call_ids ∧
      s'.stream_tool_calls = s.stream_tool_calls ∧
      match chunk.tool_call with
      | some tool_call => s.handle_chunk message_id chunk = s'.add_tool_call tool_call
      | none => s.handle_chunk message_id chunk = s' := by
  cases chunk with
  | ToolUseComplete index tool_call => exact ⟨s.flush_buffers message_id, rfl, rfl, rfl⟩
  | _ => refine ⟨_, ?_, ?_, rfl⟩ <;> rfl

theorem OwnEvents.handle_chunk (h : OwnEvents message_id s) (chunk : StreamChunk) :
    OwnEvents message_id (s.handle_chunk message_id chunk) := by
  cases chunk with
  | ToolUseComplete index tool_call =>
      have hflushed : OwnEvents message_id (s.flush_buffers message_id) := h.append own_batch
      rw [OwnEvents, StreamState.handle_chunk, (add_tool_call_frame _ tool_call).2.2.2.2.2]
      exact hflushed
  | _ => exact h

/-- The calls after one more: a call is taken when its id is new. -/
theorem add_tool_call_collects {calls : List ToolCall} {tool_call : ToolCall}
    (hids : ∀ id, id ∈ s.tool_call_ids ↔ id ∈ calls.map ToolCall.id)
    (hcalls : s.stream_tool_calls = firsts ToolCall.id calls) :
    (∀ id, id ∈ (s.add_tool_call tool_call).tool_call_ids ↔
      id ∈ (calls ++ [tool_call]).map ToolCall.id) ∧
    (s.add_tool_call tool_call).stream_tool_calls =
      firsts ToolCall.id (calls ++ [tool_call]) := by
  rw [StreamState.add_tool_call, List.map_append]
  split
  · next hseen =>
    have hmem : tool_call.id ∈ calls.map ToolCall.id := (hids _).1 (List.contains_iff_mem.1 hseen)
    rw [firsts_concat_old _ hmem]
    refine ⟨fun id => ?_, hcalls⟩
    rw [hids, List.mem_append, List.map_cons, List.map_nil, List.mem_singleton]
    exact ⟨.inl, fun h => h.elim (fun hid => hid) fun heq => heq ▸ hmem⟩
  · next hseen =>
    have hmem : tool_call.id ∉ calls.map ToolCall.id := fun h =>
      hseen (List.contains_iff_mem.2 ((hids _).2 h))
    rw [firsts_concat_new _ hmem, ← hcalls]
    refine ⟨fun id => ?_, rfl⟩
    rw [List.mem_cons, hids, List.mem_append, List.map_cons, List.map_nil, List.mem_singleton,
      or_comm]

theorem Collects.handle_chunk (h : Collects message_id chunks s) (chunk : StreamChunk) :
    Collects message_id (chunks ++ [chunk]) (s.handle_chunk message_id chunk) := by
  have hcalls : (∀ id, id ∈ (s.handle_chunk message_id chunk).tool_call_ids ↔
        id ∈ ((chunks ++ [chunk]).filterMap StreamChunk.tool_call).map ToolCall.id) ∧
      (s.handle_chunk message_id chunk).stream_tool_calls =
        firsts ToolCall.id ((chunks ++ [chunk]).filterMap StreamChunk.tool_call) := by
    obtain ⟨s', hids, hsame, hs'⟩ := handle_chunk_tool_calls message_id s chunk
    rcases hcall : chunk.tool_call with _ | tool_call <;> rw [hcall] at hs'
    · rw [List.filterMap_append, List.filterMap_cons_none hcall, List.filterMap_nil,
        List.append_nil, hs', hids, hsame]
      exact ⟨h.tool_call_ids, h.tool_calls⟩
    · rw [List.filterMap_append, List.filterMap_cons_some hcall, List.filterMap_nil, hs']
      exact add_tool_call_collects (hids ▸ h.tool_call_ids) (hsame ▸ h.tool_calls)
  exact {
    text := by
      rw [(handle_chunk_text s chunk).1, joined_append, joined_singleton, h.text]
    text_shown := by
      rw [(handle_chunk_text s chunk).2, joined_append, joined_singleton, h.text_shown]
    thinking := by
      rw [(handle_chunk_thinking s chunk).1, joined_append, joined_singleton, h.thinking]
    thinking_shown := by
      rw [(handle_chunk_thinking s chunk).2, joined_append, joined_singleton, h.thinking_shown]
    tool_call_ids := hcalls.1
    tool_calls := hcalls.2
    usage := by
      rw [handle_chunk_usage, List.filterMap_append]
      rcases husage : chunk.usage with _ | u
      · rw [List.filterMap_cons_none husage, List.filterMap_nil, List.append_nil]
        exact h.usage
      · rw [List.filterMap_cons_some husage, List.filterMap_nil, maximum_concat, ← h.usage]
        rfl
    own := h.own.handle_chunk chunk }

end

/-! ## 3. One stream -/

/-- What an attempt may start from: nothing is shown. -/
structure Fresh (message_id : String) (s : StreamState) : Prop where
  text : shown StreamEvent.content_delta s.events = ""
  thinking : shown StreamEvent.thinking_delta s.events = ""
  own : OwnEvents message_id s

section

variable {config : RateLimitConfig} {message_id : String} {stream_attempt : ℕ}
variable {chunks : List StreamChunk} {s : StreamState}

theorem Fresh.reset (h : Fresh message_id s) : Collects message_id [] s.reset where
  text := rfl
  text_shown := by
    rw [StreamState.reset, h.text]
    rfl
  thinking := rfl
  thinking_shown := by
    rw [StreamState.reset, h.thinking]
    rfl
  tool_call_ids := fun _ => Iff.rfl
  tool_calls := rfl
  usage := rfl
  own := h.own

/-- The event of a recovery takes back all that is shown. -/
theorem Collects.recovering (h : Collects message_id chunks s) (message : String)
    (attempt max_attempts : ℕ) :
    Fresh message_id (s.emit_event (.StreamRecovering message attempt max_attempts message_id)) where
  text := by
    rw [shown, StreamState.emit_event, since_concat_mark rfl]
    rfl
  thinking := by
    rw [shown, StreamState.emit_event, since_concat_mark rfl]
    rfl
  own := h.own.append fun e he id hid => by
    rw [List.mem_singleton.1 he] at hid
    exact (Option.some.inj hid).symm

/-- What is known of the state after an item, by how the loop goes on. -/
def AfterError (config : RateLimitConfig) (message_id : String) (stream_attempt : ℕ)
    (chunks : List StreamChunk) : StreamState × Flow → Prop
  | (s, .Continue) => Collects message_id chunks s
  | (s, .Retry) => stream_attempt ≤ config.max_stream_retries ∧ Fresh message_id s
  | (_, .Fail) => True
  | (_, .Drain) => False

theorem after_stream_error (config : RateLimitConfig) (stream_attempt : ℕ)
    (h : Collects message_id chunks s) (e : LLMError) :
    AfterError config message_id stream_attempt chunks
      (on_stream_error config message_id stream_attempt e s) := by
  unfold on_stream_error
  split
  · exact h.flush_buffers.emit_event ⟨rfl, rfl, rfl, fun id hid => (Option.some.inj hid).symm⟩
  · exact h.emit_event ⟨rfl, rfl, rfl, fun id hid => (Option.some.inj hid).symm⟩
  · split
    · next hretry =>
      exact ⟨of_decide_eq_true (Bool.and_eq_true_iff.1 hretry).2,
        h.flush_buffers.recovering _ _ _⟩
    · trivial

theorem drain_collects (polls : List Poll) {s' : StreamState} (h : Collects message_id chunks s)
    (hdrain : drain polls s = (s', .Finished)) :
    Collects message_id (chunks ++ trailing_usage polls) s' := by
  induction polls generalizing chunks s with
  | nil =>
      rw [drain, Prod.mk.injEq] at hdrain
      have hnone : trailing_usage [] = [] := rfl
      rw [← hdrain.1, hnone, List.append_nil]
      exact h
  | cons poll polls ih =>
      cases poll with
      | Cancelled => cases hdrain
      | Item item elapsed =>
          unfold drain at hdrain
          split at hdrain
          · next u =>
            have hnext := ih (h.handle_chunk (.Usage u)) hdrain
            rw [List.append_assoc] at hnext
            exact hnext
          · next hother =>
            rw [Prod.mk.injEq] at hdrain
            have hnone : trailing_usage (.Item item elapsed :: polls) = [] := by
              unfold trailing_usage
              split
              · next heq =>
                rw [List.cons.injEq, Poll.Item.injEq] at heq
                exact absurd heq.1.1 (hother _)
              · rfl
            rw [← hdrain.1, hnone, List.append_nil]
            exact h

theorem drain_not_retry (polls : List Poll) {s s' : StreamState} :
    drain polls s ≠ (s', .Retry) := by
  induction polls generalizing s with
  | nil => exact fun h => by cases h
  | cons poll polls ih =>
      cases poll with
      | Cancelled => exact fun h => by cases h
      | Item item elapsed =>
          unfold drain
          split
          · exact ih
          · exact fun h => by cases h

/-- What is known when the consume loop is left. -/
def AfterStream (config : RateLimitConfig) (message_id : String) (stream_attempt : ℕ)
    (chunks : List StreamChunk) : StreamState × Consumed → Prop
  | (s, .Finished) => Collects message_id chunks s
  | (s, .Retry) => stream_attempt ≤ config.max_stream_retries ∧ Fresh message_id s
  | _ => True

/-- **Reading a stream**: it ends with the chunks read, or with nothing shown. -/
theorem consume_collects (config : RateLimitConfig) (stream_attempt : ℕ) (polls : List Poll)
    (h : Collects message_id chunks s) :
    AfterStream config message_id stream_attempt (chunks ++ read_chunks polls)
      (consume config message_id stream_attempt polls s) := by
  induction polls generalizing chunks s with
  | nil =>
      rw [read_chunks, List.append_nil]
      exact h
  | cons poll polls ih =>
      cases poll with
      | Cancelled => trivial
      | Item item elapsed =>
          rw [consume]
          unfold on_item
          rcases item with e | chunk
          · have hafter := after_stream_error config stream_attempt h e
            rw [read_chunks]
            dsimp only
            rcases herror : on_stream_error config message_id stream_attempt e s with ⟨s', flow⟩
            rw [herror] at hafter
            cases flow with
            | Continue => exact ih hafter
            | Drain => exact hafter.elim
            | Retry => exact hafter
            | Fail => trivial
          · have hchunk := h.handle_chunk chunk
            rw [read_chunks]
            dsimp only
            rw [List.append_cons]
            split
            · -- the loop behind `Done`
              dsimp only
              rcases hdrain : drain polls (s.handle_chunk message_id chunk) with ⟨s', consumed⟩
              cases consumed with
              | Finished => exact drain_collects polls hchunk hdrain
              | Retry => exact absurd hdrain (drain_not_retry polls)
              | Failed => trivial
              | Cancelled => trivial
            · exact ih (hchunk.flush_if_due elapsed)

end

/-! ## 4. All attempts -/

section

variable (config : RateLimitConfig) (message_id : String)

/-- The retries of a request show nothing. -/
theorem quiet_request_with_retry {α : Type} (attempt : ℕ) (calls : List (Call α)) :
    ∀ e ∈ (request_with_retry config attempt calls).1, Quiet message_id e := by
  induction calls generalizing attempt with
  | nil => exact fun e he => absurd he List.not_mem_nil
  | cons call calls ih =>
      have hnothing : ∀ e ∈ ([] : List StreamEvent), Quiet message_id e := fun e he =>
        absurd he List.not_mem_nil
      have hlimited : ∀ message wait_secs started_at n m,
          Quiet message_id (.RateLimited message wait_secs started_at n m) := fun _ _ _ _ _ =>
        ⟨rfl, rfl, rfl, fun id hid => by cases hid⟩
      unfold request_with_retry
      dsimp only
      split
      · exact hnothing
      · split
        · exact hnothing
        · split
          · split
            · exact hnothing
            · split
              · intro e he
                rw [List.mem_singleton.1 he]
                exact hlimited _ _ _ _ _
              · intro e he
                rcases List.mem_cons.1 he with rfl | he
                · exact hlimited _ _ _ _ _
                · rcases List.mem_cons.1 he with rfl | he
                  · exact ⟨rfl, rfl, rfl, fun id hid => by cases hid⟩
                  · exact ih _ e he
          · split
            · split
              · exact hnothing
              · exact ih _
            · exact hnothing

/-- A request is answered within `max_retries` requests, or with the first. -/
theorem request_with_retry_answers {α : Type} (attempt : ℕ) {calls : List (Call α)}
    (hcalls : calls ≠ []) (henough : config.max_retries ≤ attempt + calls.length) :
    (request_with_retry config attempt calls).2 ≠ .Pending := by
  induction calls generalizing attempt with
  | nil => exact absurd rfl hcalls
  | cons call calls ih =>
      -- a request is repeated only while there are retries left
      have hrest : attempt + 1 < config.max_retries →
          (request_with_retry config (attempt + 1) calls).2 ≠ .Pending := by
        intro hleft
        rw [List.length_cons] at henough
        apply ih (attempt + 1)
        · intro hnil
          rw [hnil, List.length_nil] at henough
          omega
        · omega
      unfold request_with_retry
      dsimp only
      split
      · exact fun h => by cases h
      · split
        · exact fun h => by cases h
        · split
          · split
            · exact fun h => by cases h
            · next hleft =>
              split
              · exact fun h => by cases h
              · exact hrest (Nat.lt_of_not_le hleft)
          · split
            · next hleft =>
              split
              · exact fun h => by cases h
              · exact hrest (of_decide_eq_true (Bool.and_eq_true_iff.1 hleft).2)
            · exact fun h => by cases h

variable {config message_id} {chunks : List StreamChunk} {s : StreamState}

/-- After the final flush nothing is left in the buffers. -/
theorem Collects.exact (h : Collects message_id chunks s) :
    Exact chunks (s.flush_buffers message_id).events
      ((s.flush_buffers message_id).response message_id) := by
  have hflushed := h.flush_buffers
  have hthinking : ((s.flush_buffers message_id).response message_id).thinking.getD "" =
      s.thinking := by
    rw [StreamState.response]
    dsimp only
    split
    · next hempty => exact (String.isEmpty_iff.1 hempty).symm
    · rfl
  exact {
    content := h.text
    content_shown := by
      have hshown := hflushed.text_shown
      rw [← hflushed.text] at hshown
      exact hshown.symm.trans String.append_empty
    thinking := hthinking.trans h.thinking
    thinking_shown := by
      have hshown := hflushed.thinking_shown
      rw [← hflushed.thinking] at hshown
      exact hthinking.trans (hshown.symm.trans String.append_empty)
    tool_calls := congrArg (List.map ToolCall.to_middleware) h.tool_calls
    usage := h.usage
    message_id := fun e he id hid => congrArg some (hflushed.own e he id hid).symm }

/-- What an attempt can come to. -/
inductive AttemptStep (config : RateLimitConfig) (message_id : String) (cancelled : Bool) (n : ℕ)
    (calls : List (Call (List Poll))) (attempts : List (List (Call (List Poll))))
    (r : Requested) : Prop where
  | unanswered (hcalls : (create_stream_with_retry config calls).2 = .Pending)
      (hcount : r.stream_attempts = n + 1) (houtcome : r.outcome = none)
  | ended {outcome : LlmOutcome} (hcount : r.stream_attempts = n + 1)
      (houtcome : r.outcome = some outcome) (hno : ∀ response, outcome ≠ .Response response)
  | finished {polls : List Poll} {s : StreamState}
      (hstream : (create_stream_with_retry config calls).2 = .Ok polls)
      (hread : Collects message_id (read_chunks polls) s)
      (heq : r = finish_stream message_id cancelled (n + 1) s)
  | retried {s : StreamState} (hleft : n + 1 ≤ config.max_stream_retries)
      (hfresh : Fresh message_id s)
      (heq : r = stream_loop config message_id cancelled (n + 1) attempts s)

theorem stream_loop_cases (cancelled : Bool) (n : ℕ) (calls : List (Call (List Poll)))
    (attempts : List (List (Call (List Poll)))) (hfresh : Fresh message_id s) :
    AttemptStep config message_id cancelled n calls attempts
      (stream_loop config message_id cancelled n (calls :: attempts) s) := by
  have hquiet : ∀ e ∈ (create_stream_with_retry config calls).1, Quiet message_id e :=
    quiet_request_with_retry config message_id 0 calls
  unfold stream_loop
  rcases hcreated : create_stream_with_retry config calls with ⟨events, answer⟩
  rw [hcreated] at hquiet
  dsimp only
  cases answer with
  | Pending => exact .unanswered (by rw [hcreated]) rfl rfl
  | Err error => exact .ended rfl rfl fun response h => by cases h
  | Ok polls =>
      have hread := consume_collects config (n + 1) polls (hfresh.reset.append_quiet hquiet)
      rw [List.nil_append] at hread
      dsimp only
      rcases hconsume : consume config message_id (n + 1) polls
        { s.reset with events := s.reset.events ++ events } with ⟨s', consumed⟩
      rw [hconsume] at hread
      cases consumed with
      | Finished => exact .finished (by rw [hcreated]) hread rfl
      | Retry => exact .retried hread.1 hread.2 rfl
      | Failed => exact .ended rfl rfl fun response h => by cases h
      | Cancelled => exact .ended rfl rfl fun response h => by cases h

/-- **All attempts**: the response is that of the last one, and there are no more than the
retries allow. -/
theorem stream_loop_exact (cancelled : Bool) (attempts : List (List (Call (List Poll))))
    {n : ℕ} (hfresh : Fresh message_id s) (hn : n ≤ config.max_stream_retries) :
    (stream_loop config message_id cancelled n attempts s).stream_attempts ≤
        config.max_stream_retries + 1 ∧
    ∀ response, (stream_loop config message_id cancelled n attempts s).outcome =
        some (.Response response) →
      ∃ k calls polls, (stream_loop config message_id cancelled n attempts s).stream_attempts =
          n + k + 1 ∧ attempts[k]? = some calls ∧
        (create_stream_with_retry config calls).2 = .Ok polls ∧
        Exact (read_chunks polls)
          (stream_loop config message_id cancelled n attempts s).events response := by
  induction attempts generalizing n s with
  | nil => exact ⟨Nat.le_succ_of_le hn, fun response h => by cases h⟩
  | cons calls attempts ih =>
      cases stream_loop_cases cancelled n calls attempts hfresh with
      | unanswered _ hcount houtcome =>
          rw [hcount, houtcome]
          exact ⟨Nat.succ_le_succ hn, fun response h => by cases h⟩
      | ended hcount houtcome hno =>
          rw [hcount, houtcome]
          exact ⟨Nat.succ_le_succ hn, fun response h => absurd (Option.some.inj h) (hno response)⟩
      | @finished polls s' hstream hread heq =>
          rw [heq]
          refine ⟨Nat.succ_le_succ hn, fun response hresponse => ?_⟩
          unfold finish_stream at hresponse
          dsimp only at hresponse
          split at hresponse
          · cases hresponse
          · rw [Option.some.injEq, LlmOutcome.Response.injEq] at hresponse
            rw [← hresponse]
            exact ⟨0, calls, polls, rfl, rfl, hstream, hread.exact⟩
      | retried hleft hfresh' heq =>
          -- the guard of the retry is what bounds the attempts
          obtain ⟨hbound, hlast⟩ := ih hfresh' hleft
          rw [heq]
          refine ⟨hbound, fun response hresponse => ?_⟩
          obtain ⟨k, calls', polls, hcount, hattempt, hstream, hexact⟩ := hlast response hresponse
          exact ⟨k + 1, calls', polls, by rw [hcount]; omega, hattempt, hstream, hexact⟩

/-- Enough streams give an outcome: one more than the retries, each with as many requests as
its creation may take. -/
theorem stream_loop_returns (cancelled : Bool) {attempts : List (List (Call (List Poll)))} {n : ℕ}
    (hfresh : Fresh message_id s) (hattempts : attempts ≠ [])
    (henough : config.max_stream_retries + 1 ≤ n + attempts.length)
    (hcalls : ∀ calls ∈ attempts, calls ≠ [] ∧ config.max_retries ≤ calls.length) :
    (stream_loop config message_id cancelled n attempts s).outcome ≠ none := by
  induction attempts generalizing n s with
  | nil => exact absurd rfl hattempts
  | cons calls attempts ih =>
      cases stream_loop_cases cancelled n calls attempts hfresh with
      | unanswered hpending _ _ =>
          obtain ⟨hne, hlength⟩ := hcalls calls List.mem_cons_self
          exact absurd hpending (request_with_retry_answers config 0 hne (by omega))
      | ended _ houtcome _ =>
          rw [houtcome]
          exact Option.some_ne_none _
      | finished _ _ heq =>
          rw [heq]
          exact Option.some_ne_none _
      | retried hleft hfresh' heq =>
          rw [heq]
          rw [List.length_cons] at henough
          apply ih hfresh'
          · intro hnil
            rw [hnil, List.length_nil] at henough
            omega
          · omega
          · exact fun calls hmem => hcalls calls (List.mem_cons_of_mem _ hmem)

end

/-! ## 5. Exact accumulation -/

/-- The calls of the response: those of the chunks in their order, and each id once. -/
theorem Exact.each_id_once {chunks : List StreamChunk} {events : List StreamEvent}
    {response : LlmResponse} (h : Exact chunks events response) :
    response.tool_calls.Sublist
      ((chunks.filterMap StreamChunk.tool_call).map ToolCall.to_middleware) ∧
    (response.tool_calls.map MiddlewareToolCall.id).Nodup ∧
    ∀ id, id ∈ response.tool_calls.map MiddlewareToolCall.id ↔
      id ∈ (chunks.filterMap StreamChunk.tool_call).map ToolCall.id := by
  have hids : response.tool_calls.map MiddlewareToolCall.id =
      (firsts ToolCall.id (chunks.filterMap StreamChunk.tool_call)).map ToolCall.id := by
    rw [h.tool_calls, List.map_map]
    rfl
  rw [hids]
  refine ⟨?_, nodup_keys_firsts _ _, mem_keys_firsts _ _⟩
  rw [h.tool_calls]
  exact (sublist_firsts _ _).map _

/-- No usage of the chunks is above that of the response. -/
theorem Exact.absorbs_usage {chunks : List StreamChunk} {events : List StreamEvent}
    {response : LlmResponse} (h : Exact chunks events response) :
    ∀ u ∈ chunks.filterMap StreamChunk.usage, ∃ total, response.usage = some total ∧
      u.merge_max total = total := by
  intro u hu
  have hle : ∀ f : Usage → ℕ, f u ≤ greatest ((chunks.filterMap StreamChunk.usage).map f) :=
    fun f => greatest_le_iff.1 (le_refl _) (f u) (List.mem_map_of_mem hu)
  rw [h.usage, maximum, if_neg (by rw [List.isEmpty_iff]; exact List.ne_nil_of_mem hu)]
  refine ⟨_, rfl, ?_⟩
  simp only [Usage.merge_max, max_eq_right (hle _)]

/-- The machine goes on with the response of the stream. -/
theorem after_streamed_call {config : RateLimitConfig} {message_id : String} {tools : List String}
    {provider : Provider} {env : Env} {response : LlmResponse} (m : Machine)
    (context : ConversationContext) (hlive : env.cancelled = false)
    (hllm : (request_llm config message_id tools provider).outcome = some env.llm)
    (hresponse : (request_llm config message_id tools provider).outcome =
      some (.Response response)) :
    (transition_call_llm env m context).state = .AfterLlm response context := by
  rw [hresponse, Option.some.injEq] at hllm
  rw [transition_call_llm, if_neg (by rw [hlive]; exact Bool.false_ne_true), ← hllm]
  rfl

/-- A stream in which nothing but usage follows a `Done`. -/
def Orderly (polls : List Poll) : Prop :=
  ∀ before after finish_reason elapsed,
    polls = before ++ .Item (.ok (.Done finish_reason)) elapsed :: after →
    ∀ poll ∈ after, ∃ u elapsed, poll = .Item (.ok (.Usage u)) elapsed

theorem Orderly.tail {poll : Poll} {polls : List Poll} (h : Orderly (poll :: polls)) :
    Orderly polls := fun before after finish_reason elapsed heq =>
  h (poll :: before) after finish_reason elapsed (by rw [heq]; rfl)

theorem trailing_usage_eq {polls : List Poll}
    (h : ∀ poll ∈ polls, ∃ u elapsed, poll = .Item (.ok (.Usage u)) elapsed) :
    trailing_usage polls = all_chunks polls := by
  induction polls with
  | nil => rfl
  | cons poll polls ih =>
      obtain ⟨u, elapsed, rfl⟩ := h poll List.mem_cons_self
      rw [trailing_usage, ih fun poll hpoll => h poll (List.mem_cons_of_mem _ hpoll)]
      rfl

/-- Of such a stream every chunk is read. -/
theorem read_chunks_of_orderly {polls : List Poll} (horderly : Orderly polls)
    (hlive : Poll.Cancelled ∉ polls) : read_chunks polls = all_chunks polls := by
  induction polls with
  | nil => rfl
  | cons poll polls ih =>
      have hrest := ih horderly.tail fun h => hlive (List.mem_cons_of_mem _ h)
      cases poll with
      | Cancelled => exact absurd List.mem_cons_self hlive
      | Item item elapsed =>
          rcases item with e | chunk
          · rw [read_chunks, hrest]
            rfl
          · have hbehind : (if chunk.finish_reason.isSome then trailing_usage polls
                else read_chunks polls) = all_chunks polls := by
              split
              · next hdone =>
                cases chunk with
                | Done finish_reason =>
                    exact trailing_usage_eq (horderly [] polls finish_reason elapsed rfl)
                | _ => cases hdone
              · exact hrest
            rw [read_chunks, hbehind]
            rfl

/-- **Streaming is exact**: there are at most `max_stream_retries + 1` attempts, and the
response holds what the chunks read in the last one hold. -/
theorem streamed_response_exact (config : RateLimitConfig) (message_id : String)
    (tools : List String) (provider : Provider) (htools : tools ≠ [])
    (hstreaming : provider.supports_streaming = .ok true) :
    (request_llm config message_id tools provider).stream_attempts ≤
        config.max_stream_retries + 1 ∧
    ∀ response, (request_llm config message_id tools provider).outcome =
        some (.Response response) →
      ∃ polls, AttemptStream config provider.attempts
          (request_llm config message_id tools provider).stream_attempts polls ∧
        Exact (read_chunks polls) (request_llm config message_id tools provider).events
          response := by
  have hrequest : request_llm config message_id tools provider =
      request_stream config message_id provider.cancelled provider.attempts := by
    rw [request_llm, if_neg (by rwa [List.isEmpty_iff]), hstreaming]
  rw [hrequest]
  have hfresh : Fresh message_id {} := ⟨rfl, rfl, fun e he => absurd he List.not_mem_nil⟩
  obtain ⟨hbound, hexact⟩ := @stream_loop_exact config message_id {} provider.cancelled
    provider.attempts 0 hfresh (Nat.zero_le _)
  refine ⟨hbound, fun response hresponse => ?_⟩
  obtain ⟨k, calls, polls, hcount, hattempt, hstream, hresult⟩ := hexact response hresponse
  rw [request_stream, hcount, Nat.zero_add]
  exact ⟨polls, ⟨calls, Nat.succ_pos k, hattempt, hstream⟩, hresult⟩

def granted (polls : List Poll) : List (Call (List Poll)) := [⟨false, .ok polls, 0, false⟩]

def one_retry : RateLimitConfig := ⟨3, 1, fun _ => 60⟩

def second_stream : List Poll :=
  [.Item (.ok (.Text "b")) false, .Item (.ok (.Done .Stop)) false]

/-- A stream that breaks after its text was sent, and the one that follows it. -/
def broken_stream_provider : Provider where
  supports_streaming := .ok true
  answers := []
  attempts :=
    [granted [.Item (.ok (.Text "a")) true,
        .Item (.error (.Transport .ConnectionReset "reset")) false],
      granted second_stream]
  cancelled := false

theorem second_attempt_exact :
    (request_llm one_retry "m" ["read"] broken_stream_provider).stream_attempts = 2 ∧
    ∃ response, (request_llm one_retry "m" ["read"] broken_stream_provider).outcome =
        some (.Response response) ∧ response.content = "b" ∧
      ∃ polls, AttemptStream one_retry broken_stream_provider.attempts 2 polls ∧
        Exact (read_chunks polls)
          (request_llm one_retry "m" ["read"] broken_stream_provider).events response := by
  obtain ⟨-, hexact⟩ := streamed_response_exact one_retry "m" ["read"] broken_stream_provider
    (List.cons_ne_nil _ _) rfl
  exact ⟨rfl, _, rfl, rfl, hexact _ rfl⟩

/-- A choice is finished, and another one still sends text. -/
def second_choice : List Poll :=
  [.Item (.ok (.Text "a")) false, .Item (.ok (.Done .Stop)) false,
    .Item (.ok (.Text "b")) false]

def two_choices_provider : Provider where
  supports_streaming := .ok true
  answers := []
  attempts := [granted second_choice]
  cancelled := false

/-- The text behind `Done` is in the stream and not in the response. -/
theorem chunk_after_done_dropped :
    (request_llm one_retry "m" ["read"] two_choices_provider).stream_attempts = 1 ∧
    AttemptStream one_retry two_choices_provider.attempts 1 second_choice ∧
    ∃ response, (request_llm one_retry "m" ["read"] two_choices_provider).outcome =
        some (.Response response) ∧
      ¬ Exact (all_chunks second_choice)
        (request_llm one_retry "m" ["read"] two_choices_provider).events response := by
  refine ⟨rfl, ⟨_, Nat.one_pos, rfl, rfl⟩, _, rfl, fun h => ?_⟩
  have hcontent : "a" = joined StreamChunk.text (all_chunks second_choice) := h.content
  exact absurd hcontent (by decide)

end Querymt.Agent
