/-
`Remote/RelayDelivery.lean` -- what the relay of a provider stream sends, and how it ends.

`ProviderHost.lean` has the relay task with whatever the upstream and the router do. Here
the upstream is a list of items, chunks and errors, that the task reads from the front,
and every send succeeds; what is sent is kept in order.

# The end of the stream and the end of a batch

With a batch pending the task waits for the next item 25 ms at most, and `unwrap_or_default`
makes the timeout a `None`, as the end of the stream is. So the end is believed only when
no batch is pending: after a `None` that flushed a batch the upstream is asked once more,
and it says once more that it has ended. That the task ends there takes it that a finished
upstream may be asked again; by then all of it has been sent.

# The law and its gap

Every item up to the first `Done` or the first error is sent, once and in order, whatever
the timeouts and the heartbeats (`relay_delivers_stream`). The last message is terminal
unless the upstream ends without a `Done`: that exit marks the stream as completed and
sends nothing (`closes_consumer_iff`).
-/
import Querymt.Library.Tables
import Querymt.Remote.ProviderHost

set_option autoImplicit false

open Runs Tables

namespace Querymt.Remote

/-! ## 1. The task with its upstream -/

/-- The task, the items it has not read, and the messages it has sent. -/
structure Relay where
  task : RelayTask
  upstream : List (Except String StreamChunk)
  sent : List StreamRelayMessage

def Relay.new (reconnect_grace_secs : ℕ) (upstream : List (Except String StreamChunk)) : Relay :=
  ⟨.new reconnect_grace_secs, upstream, []⟩

inductive RelayEvent where
  | Elapse (ms : ℕ)
  /-- the stream is cancelled from outside -/
  | Cancel
  /-- the branch of the cancelled token -/
  | Cancelled
  | Heartbeat (lease_expired : Bool) (status : Option (ProviderStreamPhase × ℕ × ℕ × ℕ))
  /-- the upstream gives its next item, or says that it has ended -/
  | Next
  /-- the time for a batch is over -/
  | BatchTimeout
  /-- the router has the first buffered message -/
  | Delivered
  deriving DecidableEq

/-- The stream is cancelled, from outside or because its lease has expired. -/
def RelayEvent.is_cancellation : RelayEvent → Bool
  | .Cancel | .Cancelled => true
  | .Heartbeat lease_expired _ => lease_expired
  | _ => false

namespace Relay

variable (r : Relay)

/-- The task waits for the upstream. -/
def reads : Bool := decide (r.task.pc = .Select) && !r.task.upstream_done

def next : Relay :=
  if r.reads then
    match r.upstream with
    | [] => { r with task := r.task.step .NoChunk }
    | .ok chunk :: rest => { r with task := r.task.step (.Chunk chunk), upstream := rest }
    | .error error :: rest => { r with task := r.task.step (.UpstreamError error), upstream := rest }
  else r

/-- Without a batch there is no timeout. -/
def batch_timeout : Relay :=
  if r.reads && !r.task.pending_batch.isEmpty then { r with task := r.task.step .NoChunk } else r

def delivered : Relay :=
  match r.task.pc, r.task.buffered with
  | .Send, front :: _ => { r with task := r.task.step .Answered, sent := r.sent ++ [front] }
  | _, _ => r

def step : RelayEvent → Relay
  | .Elapse ms => { r with task := r.task.step (.Elapse ms) }
  | .Cancel => { r with task := r.task.step .Cancel }
  | .Cancelled => { r with task := r.task.step .Cancelled }
  | .Heartbeat lease_expired status =>
      { r with task := r.task.step (.Heartbeat lease_expired status) }
  | .Next => r.next
  | .BatchTimeout => r.batch_timeout
  | .Delivered => r.delivered

end Relay

/-! ## 2. The laws -/

/-- The chunks of a message, or its provider error. -/
def StreamRelayMessage.items : StreamRelayMessage → List (Except String StreamChunk)
  | .Chunk chunk => [.ok chunk]
  | .ChunkBatch chunks => chunks.map .ok
  | .ProviderError error => [.error error]
  | _ => []

/-- The item after which the upstream is not read any more. -/
def ends_stream : Except String StreamChunk → Bool
  | .ok chunk => chunk.is_done
  | .error _ => true

/-- The upstream answers and the router answers, `n` times. -/
def rounds (n : ℕ) : List RelayEvent := (List.replicate n [.Delivered, .Next]).flatten

/-- **What is sent**: the items of the upstream up to and including the first `Done` or the
first error. -/
structure DeliversStream (upstream : List (Except String StreamChunk)) (r : Relay) : Prop where
  in_order : r.sent.flatMap StreamRelayMessage.items <+: through ends_stream upstream
  complete : r.task.pc = .Ended →
    r.sent.flatMap StreamRelayMessage.items = through ends_stream upstream
  batches : ∀ chunks, .ChunkBatch chunks ∈ r.sent → 2 ≤ chunks.length ∧ chunks.length ≤ 16
  ends : ∃ n, (run Relay.step r (rounds n)).task.pc = .Ended

/-- **The consumer is closed**: when the task has ended, the last message is terminal. -/
def ClosesConsumer (r : Relay) : Prop :=
  r.task.pc = .Ended → ∃ message, r.sent.getLast? = some message ∧
    relay_message_is_terminal message = true

/-- The upstream is found at its end, with no batch pending. -/
def Relay.finds_end (r : Relay) : RelayEvent → Bool
  | .Next => r.reads && r.upstream.isEmpty && r.task.pending_batch.isEmpty
  | _ => false

/-- **The condition**: the upstream is not found at its end. -/
def Concludes (r : Relay) (event : RelayEvent) : Prop := r.finds_end event = false

instance (r : Relay) (event : RelayEvent) : Decidable (Concludes r event) :=
  inferInstanceAs (Decidable (r.finds_end event = false))

/-! ## 3. What a step can do -/

/-- The part of the task that the laws are about. -/
@[ext] structure Held where
  pc : RelayPc
  buffered : List StreamRelayMessage
  pending_batch : List StreamChunk
  upstream_done : Bool
  disconnected_since : Option ℕ

def RelayTask.held (s : RelayTask) : Held :=
  ⟨s.pc, s.buffered, s.pending_batch, s.upstream_done, s.disconnected_since⟩

/-- At the end of the send loop, or in it: a connected task waits for the router while
something is buffered, then for the upstream, until that is done. -/
def Held.after (buffered : List StreamRelayMessage) (pending_batch : List StreamChunk)
    (upstream_done : Bool) : Held where
  pc := if buffered.isEmpty then if upstream_done then .Ended else .Select else .Send
  buffered := buffered
  pending_batch := pending_batch
  upstream_done := upstream_done
  disconnected_since := none

namespace RelayTask

variable {s : RelayTask}

/-- The send loop of a connected task. Nothing is pending when the upstream is done. -/
theorem held_send_loop (hconnected : s.disconnected_since = none)
    (hflushed : s.upstream_done = true → s.pending_batch = []) :
    s.send_loop.held = .after s.buffered s.pending_batch s.upstream_done := by
  rw [send_loop, hconnected, Option.isSome_none, if_neg Bool.false_ne_true, relay_front]
  by_cases hbuffered : s.buffered.isEmpty
  · by_cases hdone : s.upstream_done
    · have hpending := hflushed hdone
      simp [Held.after, held, hbuffered, hdone, hpending, hconnected]
    · simp [Held.after, held, hbuffered, hdone, hconnected]
  · simp [Held.after, held, hbuffered, hconnected]

/-- The first buffered message goes out: after a terminal one the task ends. -/
theorem held_send_answered (hconnected : s.disconnected_since = none)
    (hflushed : s.upstream_done = true → s.pending_batch = []) (front : StreamRelayMessage)
    (rest : List StreamRelayMessage) :
    (s.send_answered front rest).held =
      if relay_message_is_terminal front then ⟨.Ended, rest, s.pending_batch, s.upstream_done, none⟩
      else .after rest s.pending_batch s.upstream_done := by
  obtain ⟨hbuffered, hpending, hdone⟩ := pop_front_spec s front rest
  have hstill : (s.pop_front front rest).disconnected_since = none := by
    unfold pop_front
    dsimp only
    split <;> try split
    all_goals exact hconnected
  rw [send_answered]
  by_cases hterminal : relay_message_is_terminal front
  · have hkeep : keep_stream_message_buffered front = true := by
      revert hterminal
      cases front <;> simp [relay_message_is_terminal, keep_stream_message_buffered]
    simp [held, hkeep, hterminal, hbuffered, hpending, hdone, hstill]
  · rw [if_neg (by simp [hterminal]), if_neg hterminal, held_send_loop hstill, hbuffered, hpending,
      hdone]
    rw [hdone, hpending]
    exact hflushed

end RelayTask

/-- The event is one that the task waits for: the upstream's answer or the router's. -/
def Relay.advances (r : Relay) : RelayEvent → Bool
  | .Next => r.reads
  | .Delivered => decide (r.task.pc = .Send)
  | _ => false

/-- **Inversion of a step**: what it does to what the task holds, to the upstream and to
what was sent. -/
inductive Move (r : Relay) (event : RelayEvent) (r' : Relay) : Prop
  | rests (idle : r.advances event = false) (held : r'.task.held = r.task.held)
      (upstream : r'.upstream = r.upstream) (sent : r'.sent = r.sent)
  | beats (phase : ProviderStreamPhase) (elapsed_ms idle_ms chunk_count : ℕ)
      (idle : r.advances event = false) (reads : r.reads = true)
      (held : r'.task.held = .after [.Heartbeat phase elapsed_ms idle_ms chunk_count]
        r.task.pending_batch false)
      (upstream : r'.upstream = r.upstream) (sent : r'.sent = r.sent)
  | cancels (message : String) (cancellation : event.is_cancellation = true)
      (idle : r.advances event = false) (reads : r.reads = true)
      (held : r'.task.held =
        .after (batch_message r.task.pending_batch ++ [.TransportFailed message]) [] true)
      (upstream : r'.upstream = r.upstream) (sent : r'.sent = r.sent)
  | collects (chunk : StreamChunk) (rest : List (Except String StreamChunk))
      (reads : r.reads = true) (chunks : r.upstream = .ok chunk :: rest)
      (more : chunk.is_done = false) (room : r.task.pending_batch.length + 1 < MAX_BATCH_SIZE)
      (held : r'.task.held = .after [] (r.task.pending_batch ++ [chunk]) false)
      (upstream : r'.upstream = rest) (sent : r'.sent = r.sent)
  | flushes (chunk : StreamChunk) (rest : List (Except String StreamChunk))
      (reads : r.reads = true) (chunks : r.upstream = .ok chunk :: rest)
      (held : r'.task.held =
        .after (batch_message (r.task.pending_batch ++ [chunk])) [] chunk.is_done)
      (upstream : r'.upstream = rest) (sent : r'.sent = r.sent)
  | fails (error : String) (rest : List (Except String StreamChunk))
      (reads : r.reads = true) (chunks : r.upstream = .error error :: rest)
      (held : r'.task.held =
        .after (batch_message r.task.pending_batch ++ [.ProviderError error]) [] true)
      (upstream : r'.upstream = rest) (sent : r'.sent = r.sent)
  | times_out (reads : r.reads = true) (pending : r.task.pending_batch ≠ [])
      (held : r'.task.held = .after (batch_message r.task.pending_batch) [] false)
      (upstream : r'.upstream = r.upstream) (sent : r'.sent = r.sent)
  | finds_end (reads : r.reads = true) (finds : r.finds_end event = true)
      (held : r'.task.held = .after [] [] true)
      (upstream : r'.upstream = r.upstream) (sent : r'.sent = r.sent)
  | sends (front : StreamRelayMessage) (rest : List StreamRelayMessage)
      (pc : r.task.pc = .Send) (buffered : r.task.buffered = front :: rest)
      (held : r'.task.held =
        if relay_message_is_terminal front then
          ⟨.Ended, rest, r.task.pending_batch, r.task.upstream_done, none⟩
        else .after rest r.task.pending_batch r.task.upstream_done)
      (upstream : r'.upstream = r.upstream) (sent : r'.sent = r.sent ++ [front])

/-- **A connected task**, between two steps. -/
structure Relay.Calm (r : Relay) : Prop where
  inv : r.task.Inv
  rests : r.task.held = .after r.task.buffered r.task.pending_batch r.task.upstream_done ∨
    r.task.pc = .Ended ∧ r.task.disconnected_since = none

namespace Relay

variable {r r' : Relay} {event : RelayEvent}

theorem Calm.connected (h : r.Calm) : r.task.disconnected_since = none := by
  rcases h.rests with hrests | hended
  · exact congrArg Held.disconnected_since hrests
  · exact hended.2

/-- Where a connected task waits. -/
theorem Calm.waits (h : r.Calm) :
    (r.task.pc = .Select ∧ r.task.buffered = [] ∧ r.task.upstream_done = false) ∨
      r.task.pc = .Send ∨ r.task.pc = .Ended := by
  rcases h.rests with hrests | hended
  · have hpc : r.task.pc = if r.task.buffered.isEmpty then
        if r.task.upstream_done then .Ended else .Select else .Send := congrArg Held.pc hrests
    by_cases hbuffered : r.task.buffered.isEmpty
    · rw [if_pos hbuffered] at hpc
      by_cases hdone : r.task.upstream_done
      · rw [if_pos hdone] at hpc
        exact .inr (.inr hpc)
      · rw [if_neg hdone] at hpc
        exact .inl ⟨hpc, List.isEmpty_iff.1 hbuffered, Bool.not_eq_true _ ▸ hdone⟩
    · rw [if_neg hbuffered] at hpc
      exact .inr (.inl hpc)
  · exact .inr (.inr hended.1)

theorem Calm.of_select (h : r.Calm) (hpc : r.task.pc = .Select) :
    r.task.buffered = [] ∧ r.task.upstream_done = false := by
  rcases h.waits with hselect | hsend | hended
  · exact hselect.2
  · rw [hpc] at hsend
    cases hsend
  · rw [hpc] at hended
    cases hended

theorem Calm.of_send (h : r.Calm) (hpc : r.task.pc = .Send) : r.task.buffered ≠ [] := by
  intro hbuffered
  rcases h.rests with hrests | hended
  · have hwaits : r.task.pc = if r.task.buffered.isEmpty then
        if r.task.upstream_done then .Ended else .Select else .Send := congrArg Held.pc hrests
    rw [hpc, hbuffered, List.isEmpty_nil, if_pos rfl] at hwaits
    split at hwaits <;> cases hwaits
  · rw [hpc] at hended
    cases hended.1

theorem Calm.reads (h : r.Calm) (hpc : r.task.pc = .Select) : r.reads = true := by
  rw [Relay.reads, hpc, (h.of_select hpc).2]
  rfl

theorem of_finds_end (h : r.finds_end event = true) :
    r.reads = true ∧ r.upstream = [] ∧ r.task.pending_batch = [] := by
  cases event with
  | Next =>
      rw [finds_end, Bool.and_eq_true, Bool.and_eq_true, List.isEmpty_iff, List.isEmpty_iff] at h
      exact ⟨h.1.1, h.1.2, h.2⟩
  | _ => cases h

theorem pc_of_reads (h : r.reads = true) : r.task.pc = .Select := by
  rw [Relay.reads, Bool.and_eq_true, decide_eq_true_eq] at h
  exact h.1

theorem Calm.tail (h : r.Calm) (hpc : r.task.pc ≠ .Ended) : r.task.Tail := by
  apply h.inv.tail
  rcases h.waits with hselect | hsend | hended
  · rw [RelayTask.is_leaving, hselect.1]
  · rw [RelayTask.is_leaving, hsend]
  · exact absurd hended hpc

/-- A step of the task that leaves everything the laws are about as it is. -/
theorem Move.of_held_eq {task : RelayTask} (hidle : r.advances event = false)
    (h : task.held = r.task.held) : Move r event { r with task := task } :=
  .rests hidle h rfl rfl

theorem proceed_select {s : RelayTask} (hpc : s.pc = .Select) (branch : RelayInput) :
    s.proceed branch = s.select_branch branch := by
  unfold RelayTask.proceed
  rw [hpc]

theorem moves_cancelled (h : r.Calm) : Move r .Cancelled (r.step .Cancelled) := by
  show Move r .Cancelled { r with task := r.task.proceed .Cancelled }
  by_cases hpc : r.task.pc = .Select
  · obtain ⟨hbuffered, hdone⟩ := h.of_select hpc
    rw [proceed_select hpc, RelayTask.select_branch, hdone]
    by_cases htoken : r.task.cancel_token
    · rw [if_pos (by rw [htoken]; rfl)]
      refine .cancels "provider stream cancelled" rfl rfl (h.reads hpc) ?_ rfl rfl
      have hloop := RelayTask.held_send_loop (s := ({ r.task.flush_batch with
        upstream_done := true } : RelayTask).push (.TransportFailed "provider stream cancelled"))
        h.connected fun _ => rfl
      rw [hloop]
      simp [RelayTask.push, RelayTask.flush_batch, hbuffered]
    · rw [if_neg (by simp [htoken])]
      exact Move.of_held_eq rfl rfl
  · have hstays : r.task.proceed .Cancelled = r.task := by
      unfold RelayTask.proceed
      split <;> first | rfl | contradiction
    rw [hstays]
    exact Move.of_held_eq rfl rfl

theorem moves_heartbeat (h : r.Calm) (lease_expired : Bool)
    (status : Option (ProviderStreamPhase × ℕ × ℕ × ℕ)) :
    Move r (.Heartbeat lease_expired status) (r.step (.Heartbeat lease_expired status)) := by
  show Move r _ { r with task := r.task.proceed (.Heartbeat lease_expired status) }
  by_cases hpc : r.task.pc = .Select
  · obtain ⟨hbuffered, hdone⟩ := h.of_select hpc
    have hflushed : r.task.upstream_done = true → r.task.pending_batch = [] := by
      rw [hdone]
      exact fun hcontra => absurd hcontra Bool.false_ne_true
    rw [proceed_select hpc]
    rcases lease_expired with _ | _
    · rcases status with _ | ⟨phase, elapsed_ms, idle_ms, chunk_count⟩
      · -- the stream is not in the table: nothing is pushed, and the send loop has nothing to do
        apply Move.of_held_eq rfl
        show r.task.send_loop.held = r.task.held
        rw [RelayTask.held_send_loop h.connected hflushed]
        ext1 <;> simp [Held.after, RelayTask.held, hbuffered, hdone, hpc, h.connected]
      · refine .beats phase elapsed_ms idle_ms chunk_count rfl (h.reads hpc) ?_ rfl rfl
        show (r.task.push (.Heartbeat phase elapsed_ms idle_ms chunk_count)).send_loop.held = _
        rw [RelayTask.held_send_loop (s := r.task.push _) h.connected hflushed]
        simp [RelayTask.push, hbuffered, hdone]
    · exact Move.of_held_eq rfl rfl
  · have hstays : r.task.proceed (.Heartbeat lease_expired status) = r.task := by
      unfold RelayTask.proceed
      split <;> first | rfl | contradiction
    rw [hstays]
    exact Move.of_held_eq rfl rfl

/-- A `None` of the upstream with a batch pending, a timeout or not. -/
theorem held_no_chunk (h : r.Calm) (hreads : r.reads = true)
    (hpending : r.task.pending_batch ≠ []) :
    (r.task.step .NoChunk).held = .after (batch_message r.task.pending_batch) [] false := by
  have hpc := pc_of_reads hreads
  obtain ⟨hbuffered, hdone⟩ := h.of_select hpc
  show (r.task.proceed .NoChunk).held = _
  rw [proceed_select hpc, RelayTask.select_branch, hdone, if_neg Bool.false_ne_true,
    if_neg (by rw [List.isEmpty_iff]; exact hpending)]
  have hloop := RelayTask.held_send_loop (s := r.task.flush_batch) h.connected fun _ => rfl
  rw [hloop]
  simp [RelayTask.flush_batch, hbuffered, hdone]

/-- A `None` without a batch: the upstream is done. -/
theorem held_end (h : r.Calm) (hreads : r.reads = true) (hpending : r.task.pending_batch = []) :
    (r.task.step .NoChunk).held = .after [] [] true := by
  have hpc := pc_of_reads hreads
  obtain ⟨hbuffered, hdone⟩ := h.of_select hpc
  show (r.task.proceed .NoChunk).held = _
  rw [proceed_select hpc, RelayTask.select_branch, hdone, if_neg Bool.false_ne_true,
    if_pos (by rw [hpending]; rfl), RelayTask.held_send_loop]
  · rw [hbuffered, hpending]
  · exact h.connected
  · exact fun _ => hpending

theorem moves_batch_timeout (h : r.Calm) : Move r .BatchTimeout (r.step .BatchTimeout) := by
  show Move r .BatchTimeout r.batch_timeout
  rw [batch_timeout]
  by_cases hreads : r.reads
  · by_cases hpending : r.task.pending_batch = []
    · rw [if_neg (by simp [hpending])]
      exact .rests rfl rfl rfl rfl
    · rw [if_pos (by simp [hreads, hpending])]
      exact .times_out hreads hpending (held_no_chunk h hreads hpending) rfl rfl
  · rw [if_neg (by simp [hreads])]
    exact .rests rfl rfl rfl rfl

/-- The upstream has a chunk. -/
theorem held_chunk (h : r.Calm) (hreads : r.reads = true) (chunk : StreamChunk) :
    (r.task.step (.Chunk chunk)).held =
      if chunk.is_done || decide (MAX_BATCH_SIZE ≤ r.task.pending_batch.length + 1) then
        .after (batch_message (r.task.pending_batch ++ [chunk])) [] chunk.is_done
      else .after [] (r.task.pending_batch ++ [chunk]) chunk.is_done := by
  have hpc := pc_of_reads hreads
  obtain ⟨hbuffered, hdone⟩ := h.of_select hpc
  show (r.task.proceed (.Chunk chunk)).held = _
  rw [proceed_select hpc, RelayTask.select_branch, hdone, if_neg Bool.false_ne_true]
  dsimp only
  rw [List.length_append, List.length_singleton]
  by_cases hflush : (chunk.is_done || decide (MAX_BATCH_SIZE ≤ r.task.pending_batch.length + 1)) = true
  · rw [if_pos hflush, if_pos hflush, RelayTask.held_send_loop]
    · simp [RelayTask.flush_batch, hbuffered]
    · exact h.connected
    · exact fun _ => rfl
  · rw [if_neg hflush, if_neg hflush, RelayTask.held_send_loop]
    · simp [hbuffered]
    · exact h.connected
    · intro hcontra
      change chunk.is_done = true at hcontra
      rw [hcontra] at hflush
      exact absurd rfl hflush

theorem moves_next (h : r.Calm) : Move r .Next (r.step .Next) := by
  show Move r .Next r.next
  rw [next]
  by_cases hreads : r.reads
  · have hpc := pc_of_reads hreads
    obtain ⟨hbuffered, hdone⟩ := h.of_select hpc
    rw [if_pos hreads]
    rcases hupstream : r.upstream with _ | ⟨error | chunk, rest⟩
    · dsimp only
      by_cases hpending : r.task.pending_batch = []
      · refine .finds_end hreads ?_ (held_end h hreads hpending) hupstream.symm rfl
        simp [finds_end, hreads, hupstream, hpending]
      · exact .times_out hreads hpending (held_no_chunk h hreads hpending) hupstream.symm rfl
    · dsimp only
      refine .fails error rest hreads hupstream ?_ rfl rfl
      show (r.task.proceed (.UpstreamError error)).held = _
      rw [proceed_select hpc, RelayTask.select_branch, hdone, if_neg Bool.false_ne_true,
        RelayTask.held_send_loop]
      · simp [RelayTask.push, RelayTask.flush_batch, hbuffered]
      · exact h.connected
      · exact fun _ => rfl
    · dsimp only
      have hheld := held_chunk h hreads chunk
      by_cases hflush :
          (chunk.is_done || decide (MAX_BATCH_SIZE ≤ r.task.pending_batch.length + 1)) = true
      · rw [if_pos hflush] at hheld
        exact .flushes chunk rest hreads hupstream hheld rfl rfl
      · rw [if_neg hflush] at hheld
        rw [Bool.or_eq_true, not_or, decide_eq_true_eq, Bool.not_eq_true, not_le] at hflush
        rw [hflush.1] at hheld
        exact .collects chunk rest hreads hupstream hflush.1 hflush.2 hheld rfl rfl
  · rw [if_neg hreads]
    exact .rests (Bool.eq_false_iff.2 hreads) rfl rfl rfl

theorem moves_delivered (h : r.Calm) : Move r .Delivered (r.step .Delivered) := by
  show Move r .Delivered r.delivered
  unfold delivered
  split
  · next front rest hpc hbuffered =>
      have htail := h.tail (by rw [hpc]; exact fun hcontra => by cases hcontra)
      refine .sends front rest hpc hbuffered ?_ rfl rfl
      show (r.task.proceed .Answered).held = _
      have hanswered : r.task.proceed .Answered = r.task.send_answered front rest := by
        unfold RelayTask.proceed
        rw [hpc, hbuffered]
      rw [hanswered]
      exact RelayTask.held_send_answered h.connected htail.flushed front rest
  · next hnone =>
      refine .rests ?_ rfl rfl rfl
      rw [advances, decide_eq_false_iff_not]
      intro hpc
      obtain ⟨front, rest, hbuffered⟩ := List.exists_cons_of_ne_nil (h.of_send hpc)
      exact hnone front rest hpc hbuffered

theorem moves (h : r.Calm) (event : RelayEvent) : Move r event (r.step event) := by
  cases event with
  | Elapse ms => exact .rests rfl rfl rfl rfl
  | Cancel => exact .rests rfl rfl rfl rfl
  | Cancelled => exact moves_cancelled h
  | Heartbeat lease_expired status => exact moves_heartbeat h lease_expired status
  | Next => exact moves_next h
  | BatchTimeout => exact moves_batch_timeout h
  | Delivered => exact moves_delivered h

/-- The inputs of these steps are not failures of the router, so each keeps the invariant of
the task. -/
theorem inv_step (h : r.task.Inv) (event : RelayEvent) : (r.step event).task.Inv := by
  cases event with
  | Next =>
      show r.next.task.Inv
      unfold next
      split
      · split
        · exact h.step .NoChunk trivial
        · exact h.step (.Chunk _) trivial
        · exact h.step (.UpstreamError _) trivial
      · exact h
  | BatchTimeout =>
      show r.batch_timeout.task.Inv
      unfold batch_timeout
      split
      · exact h.step .NoChunk trivial
      · exact h
  | Delivered =>
      show r.delivered.task.Inv
      unfold delivered
      split
      · exact h.step .Answered trivial
      · exact h
  | Elapse ms => exact h.step (.Elapse ms) trivial
  | Cancel => exact h.step .Cancel trivial
  | Cancelled => exact h.step .Cancelled trivial
  | Heartbeat lease_expired status => exact h.step (.Heartbeat lease_expired status) trivial

/-- What a step leaves is at the end of the send loop again, or in it. -/
theorem rests_of_held {buffered : List StreamRelayMessage} {pending_batch : List StreamChunk}
    {upstream_done : Bool} (h : r.task.held = .after buffered pending_batch upstream_done) :
    r.task.held = .after r.task.buffered r.task.pending_batch r.task.upstream_done := by
  have hbuffered : r.task.buffered = buffered := congrArg Held.buffered h
  have hpending : r.task.pending_batch = pending_batch := congrArg Held.pending_batch h
  have hdone : r.task.upstream_done = upstream_done := congrArg Held.upstream_done h
  rw [h, hbuffered, hpending, hdone]

theorem Calm.step (h : r.Calm) (event : RelayEvent) : (r.step event).Calm := by
  refine ⟨inv_step h.inv event, ?_⟩
  cases moves h event with
  | rests _ held _ _ =>
      rcases h.rests with hrests | ⟨hpc, hconnected⟩
      · rw [hrests] at held
        exact .inl (rests_of_held held)
      · right
        exact ⟨(congrArg Held.pc held).trans hpc,
          (congrArg Held.disconnected_since held).trans hconnected⟩
  | beats _ _ _ _ _ _ held _ _ => exact .inl (rests_of_held held)
  | cancels _ _ _ _ held _ _ => exact .inl (rests_of_held held)
  | collects _ _ _ _ _ _ held _ _ => exact .inl (rests_of_held held)
  | flushes _ _ _ _ held _ _ => exact .inl (rests_of_held held)
  | fails _ _ _ _ held _ _ => exact .inl (rests_of_held held)
  | times_out _ _ held _ _ => exact .inl (rests_of_held held)
  | finds_end _ _ held _ _ => exact .inl (rests_of_held held)
  | sends front _ _ _ held _ _ =>
      by_cases hterminal : relay_message_is_terminal front
      · rw [if_pos hterminal] at held
        exact .inr ⟨congrArg Held.pc held, congrArg Held.disconnected_since held⟩
      · rw [if_neg hterminal] at held
        exact .inl (rests_of_held held)

theorem calm_new (reconnect_grace_secs : ℕ) (upstream : List (Except String StreamChunk)) :
    (Relay.new reconnect_grace_secs upstream).Calm :=
  ⟨RelayTask.inv_new reconnect_grace_secs, .inl rfl⟩

end Relay

/-! ## 4. Nothing is lost, repeated or reordered -/

theorem items_batch_message (chunks : List StreamChunk) :
    (batch_message chunks).flatMap StreamRelayMessage.items = chunks.map .ok := by
  match chunks with
  | [] => rfl
  | [chunk] => rfl
  | c :: c' :: rest => simp [batch_message, StreamRelayMessage.items]

/-- Only messages that are worth keeping have items. -/
theorem items_eq_nil {message : StreamRelayMessage}
    (h : keep_stream_message_buffered message = false) : message.items = [] := by
  cases message <;> first | rfl | cases h

theorem batch_message_ne_nil (chunks : List StreamChunk) (h : chunks ≠ []) :
    ∃ m, m ∈ batch_message chunks := by
  match chunks with
  | [] => exact absurd rfl h
  | [chunk] => exact ⟨_, List.mem_cons_self⟩
  | c :: c' :: rest => exact ⟨_, List.mem_cons_self⟩

/-- A batch message of several chunks has at most as many as a batch may. -/
theorem batch_message_sizes {chunks : List StreamChunk} (h : chunks.length ≤ MAX_BATCH_SIZE)
    {batch : List StreamChunk} (hbatch : .ChunkBatch batch ∈ batch_message chunks) :
    2 ≤ batch.length ∧ batch.length ≤ 16 := by
  match chunks with
  | [] => cases hbatch
  | [chunk] => simp [batch_message] at hbatch
  | c :: c' :: rest =>
      simp only [batch_message, List.mem_singleton, StreamRelayMessage.ChunkBatch.injEq] at hbatch
      rw [hbatch]
      simp only [List.length_cons, MAX_BATCH_SIZE] at h ⊢
      omega

/-- **The invariant**: what was sent, what is buffered, what is pending and what is still to
be read make up the stream. -/
structure Relay.Conserves (upstream : List (Except String StreamChunk)) (r : Relay) : Prop where
  calm : r.Calm
  items : r.sent.flatMap StreamRelayMessage.items ++
    (r.task.buffered.flatMap StreamRelayMessage.items ++ (r.task.pending_batch.map .ok ++
      if r.task.upstream_done then [] else through ends_stream r.upstream)) =
    through ends_stream upstream
  room : r.task.pending_batch.length < MAX_BATCH_SIZE
  batches : ∀ batch, .ChunkBatch batch ∈ r.sent ++ r.task.buffered →
    2 ≤ batch.length ∧ batch.length ≤ 16
  done : r.task.pc = .Ended → r.task.upstream_done = true

namespace Relay

variable {r r' : Relay} {event : RelayEvent} {upstream : List (Except String StreamChunk)}

/-- The invariant only looks at what a step is known to do. -/
theorem Conserves.of_held (hcalm : r'.Calm) {buffered : List StreamRelayMessage}
    {pending_batch : List StreamChunk} {upstream_done : Bool}
    (held : r'.task.held = .after buffered pending_batch upstream_done)
    (hitems : r'.sent.flatMap StreamRelayMessage.items ++
      (buffered.flatMap StreamRelayMessage.items ++ (pending_batch.map .ok ++
        if upstream_done then [] else through ends_stream r'.upstream)) =
      through ends_stream upstream)
    (hroom : pending_batch.length < MAX_BATCH_SIZE)
    (hbatches : ∀ batch, .ChunkBatch batch ∈ r'.sent ++ buffered →
      2 ≤ batch.length ∧ batch.length ≤ 16) : r'.Conserves upstream := by
  have hbuffered : r'.task.buffered = buffered := congrArg Held.buffered held
  have hpending : r'.task.pending_batch = pending_batch := congrArg Held.pending_batch held
  have hdone : r'.task.upstream_done = upstream_done := congrArg Held.upstream_done held
  have hpc : r'.task.pc = (Held.after buffered pending_batch upstream_done).pc :=
    congrArg Held.pc held
  refine ⟨hcalm, ?_, ?_, ?_, ?_⟩
  · rw [hbuffered, hpending, hdone]
    exact hitems
  · rw [hpending]
    exact hroom
  · rw [hbuffered]
    exact hbatches
  · intro hended
    rw [hpc, Held.after] at hended
    rw [hdone]
    by_contra hrunning
    rw [if_neg hrunning] at hended
    split at hended <;> cases hended

/-- While the task waits for the upstream nothing is buffered. -/
theorem Conserves.reading (h : r.Conserves upstream) (hreads : r.reads = true) :
    r.sent.flatMap StreamRelayMessage.items ++ (r.task.pending_batch.map .ok ++
      through ends_stream r.upstream) = through ends_stream upstream := by
  obtain ⟨hbuffered, hdone⟩ := h.calm.of_select (pc_of_reads hreads)
  have hitems := h.items
  rw [hbuffered, hdone, List.flatMap_nil, List.nil_append, if_neg Bool.false_ne_true] at hitems
  exact hitems

/-- Nothing but what a batch becomes, and a message that is no batch, is buffered. -/
theorem Conserves.batches_flushed (h : r.Conserves upstream) (chunks : List StreamChunk)
    (hroom : chunks.length ≤ MAX_BATCH_SIZE) {last : List StreamRelayMessage}
    (hlast : ∀ batch, .ChunkBatch batch ∉ last) :
    ∀ batch, .ChunkBatch batch ∈ r.sent ++ (batch_message chunks ++ last) →
      2 ≤ batch.length ∧ batch.length ≤ 16 := by
  intro batch hbatch
  rcases List.mem_append.1 hbatch with hsent | hnew
  · exact h.batches batch (List.mem_append_left _ hsent)
  · rcases List.mem_append.1 hnew with hnew | hnew
    · exact batch_message_sizes hroom hnew
    · exact absurd hnew (hlast batch)

/-- **One step keeps the stream together**, unless it cancels it. -/
theorem Conserves.step (h : r.Conserves upstream) (event : RelayEvent)
    (huncancelled : event.is_cancellation = false) : (r.step event).Conserves upstream := by
  have hcalm := h.calm.step event
  have hroom := h.room
  cases moves h.calm event with
  | rests _ held hupstream hsent =>
      have hbuffered : (r.step event).task.buffered = r.task.buffered :=
        congrArg Held.buffered held
      have hpending : (r.step event).task.pending_batch = r.task.pending_batch :=
        congrArg Held.pending_batch held
      have hdone : (r.step event).task.upstream_done = r.task.upstream_done :=
        congrArg Held.upstream_done held
      have hpc : (r.step event).task.pc = r.task.pc := congrArg Held.pc held
      refine ⟨hcalm, ?_, ?_, ?_, ?_⟩
      · rw [hbuffered, hpending, hdone, hupstream, hsent]
        exact h.items
      · rw [hpending]
        exact hroom
      · rw [hbuffered, hsent]
        exact h.batches
      · rw [hpc, hdone]
        exact h.done
  | beats phase elapsed_ms idle_ms chunk_count _ hreads held hupstream hsent =>
      refine Conserves.of_held hcalm held ?_ hroom ?_
      · rw [hsent, hupstream, if_neg Bool.false_ne_true]
        exact h.reading hreads
      · rw [hsent]
        refine h.batches_flushed [] (Nat.zero_le _) fun batch hbatch => ?_
        cases List.mem_singleton.1 hbatch
  | cancels _ hcancellation _ _ _ _ _ =>
      rw [huncancelled] at hcancellation
      cases hcancellation
  | collects chunk rest hreads hchunks hmore hfits held hupstream hsent =>
      refine Conserves.of_held hcalm held ?_ ?_ ?_
      · have hreading := h.reading hreads
        rw [hchunks, through, ends_stream, hmore, if_neg Bool.false_ne_true] at hreading
        rw [hsent, hupstream, if_neg Bool.false_ne_true, ← hreading]
        simp
      · rw [List.length_append]
        exact hfits
      · rw [hsent, List.append_nil]
        exact fun batch hbatch => h.batches batch (List.mem_append_left _ hbatch)
  | flushes chunk rest hreads hchunks held hupstream hsent =>
      refine Conserves.of_held hcalm held ?_ (by decide) ?_
      · have hreading := h.reading hreads
        rw [hchunks, through, ends_stream] at hreading
        rw [hsent, hupstream, items_batch_message, ← hreading]
        by_cases hdone : chunk.is_done
        · simp [hdone]
        · simp [hdone]
      · rw [hsent, ← List.append_nil (batch_message _)]
        refine h.batches_flushed _ ?_ fun batch => List.not_mem_nil
        rw [List.length_append, List.length_singleton]
        exact hroom
  | fails error rest hreads hchunks held hupstream hsent =>
      refine Conserves.of_held hcalm held ?_ (by decide) ?_
      · have hreading := h.reading hreads
        rw [hchunks, through, ends_stream, if_pos rfl] at hreading
        rw [hsent, hupstream, List.flatMap_append, items_batch_message, ← hreading]
        simp [StreamRelayMessage.items]
      · rw [hsent]
        refine h.batches_flushed _ hroom.le fun batch hbatch => ?_
        cases List.mem_singleton.1 hbatch
  | times_out hreads hpending held hupstream hsent =>
      refine Conserves.of_held hcalm held ?_ (by decide) ?_
      · rw [hsent, hupstream, items_batch_message, if_neg Bool.false_ne_true, List.map_nil,
          List.nil_append]
        exact h.reading hreads
      · rw [hsent, ← List.append_nil (batch_message _)]
        exact h.batches_flushed _ hroom.le fun batch => List.not_mem_nil
  | finds_end hreads hfinds held hupstream hsent =>
      refine Conserves.of_held hcalm held ?_ (by decide) ?_
      · obtain ⟨-, hend, hpending⟩ := of_finds_end hfinds
        have hreading := h.reading hreads
        rw [hend, hpending] at hreading
        rw [hsent]
        exact hreading
      · rw [hsent, List.append_nil]
        exact fun batch hbatch => h.batches batch (List.mem_append_left _ hbatch)
  | sends front rest hpc hbuffered held hupstream hsent =>
      have hitems := h.items
      have hbatches := h.batches
      rw [hbuffered] at hitems hbatches
      have hsame : (r.step event).sent ++ rest = r.sent ++ front :: rest := by
        rw [hsent, List.append_assoc, List.singleton_append]
      have hcarried : (r.step event).sent.flatMap StreamRelayMessage.items ++
          (rest.flatMap StreamRelayMessage.items ++ (r.task.pending_batch.map .ok ++
            if r.task.upstream_done then [] else through ends_stream (r.step event).upstream)) =
          through ends_stream upstream := by
        rw [← hitems, hupstream, hsent, List.flatMap_append, List.flatMap_singleton,
          List.flatMap_cons, List.append_assoc, List.append_assoc]
      by_cases hterminal : relay_message_is_terminal front
      · rw [if_pos hterminal] at held
        have hbuffered' : (r.step event).task.buffered = rest := congrArg Held.buffered held
        have hpending : (r.step event).task.pending_batch = r.task.pending_batch :=
          congrArg Held.pending_batch held
        have hdone : (r.step event).task.upstream_done = r.task.upstream_done :=
          congrArg Held.upstream_done held
        refine ⟨hcalm, ?_, ?_, ?_, fun _ => ?_⟩
        · rw [hbuffered', hpending, hdone]
          exact hcarried
        · rw [hpending]
          exact hroom
        · rw [hbuffered', hsame]
          exact hbatches
        · -- a terminal message is buffered only after the upstream is done
          rw [hdone]
          have htail := h.calm.tail (by rw [hpc]; exact fun hcontra => by cases hcontra)
          by_contra hrunning
          have hnot := htail.no_terminal (Bool.eq_false_iff.2 hrunning) front
            (by rw [hbuffered]; exact List.mem_cons_self)
          exact absurd hterminal (Bool.eq_false_iff.1 hnot)
      · rw [if_neg hterminal] at held
        refine Conserves.of_held hcalm held hcarried hroom ?_
        rw [hsame]
        exact hbatches

theorem conserves_new (reconnect_grace_secs : ℕ) (upstream : List (Except String StreamChunk)) :
    (Relay.new reconnect_grace_secs upstream).Conserves upstream where
  calm := calm_new reconnect_grace_secs upstream
  items := rfl
  room := Nat.succ_pos 15
  batches batch hbatch := by cases hbatch
  done hended := by cases hended

/-- A connected task that has ended holds nothing back. -/
theorem Conserves.complete (h : r.Conserves upstream) (hended : r.task.pc = .Ended) :
    r.sent.flatMap StreamRelayMessage.items = through ends_stream upstream := by
  have hunsent : r.task.has_unsent = false := by
    by_contra hunsent
    have hlong := h.calm.inv.left (by rw [RelayTask.is_leaving, hended])
      (Bool.not_eq_false _ ▸ hunsent)
    rw [RelayTask.disconnected_long, h.calm.connected] at hlong
    cases hlong
  rw [RelayTask.has_unsent, Bool.or_eq_false_iff, Bool.not_eq_false', List.isEmpty_iff,
    List.any_eq_false] at hunsent
  have hbuffered : r.task.buffered.flatMap StreamRelayMessage.items = [] := by
    rw [List.flatMap_eq_nil_iff]
    intro m hm
    exact items_eq_nil (Bool.not_eq_true _ ▸ hunsent.1 m hm)
  have hitems := h.items
  rw [hbuffered, hunsent.2, h.done hended, if_pos rfl, List.map_nil, List.append_nil,
    List.append_nil, List.append_nil] at hitems
  exact hitems

/-! ## 5. The task ends -/

/-- How much the task still has to do: an item may become a pending batch, a pending batch a
message, and a message is to be sent. -/
def work (r : Relay) : ℕ :=
  if r.task.pc = .Ended then 0
  else 1 + 3 * r.upstream.length + r.task.buffered.length +
    if r.task.pending_batch = [] then 0 else 2

theorem work_le (buffered : List StreamRelayMessage) (pending_batch : List StreamChunk)
    {upstream_done : Bool} (held : r.task.held = .after buffered pending_batch upstream_done) :
    r.work ≤ 1 + 3 * r.upstream.length + buffered.length +
      if pending_batch = [] then 0 else 2 := by
  have hbuffered : r.task.buffered = buffered := congrArg Held.buffered held
  have hpending : r.task.pending_batch = pending_batch := congrArg Held.pending_batch held
  rw [work, hbuffered, hpending]
  split
  · exact Nat.zero_le _
  · exact le_rfl

theorem length_batch_message (chunks : List StreamChunk) : (batch_message chunks).length ≤ 1 := by
  match chunks with
  | [] => exact Nat.zero_le 1
  | [chunk] => exact le_rfl
  | c :: c' :: rest => exact le_rfl

/-- **An answer that the task waits for is work done.** -/
theorem work_step (h : r.Calm) (event : RelayEvent) (hadvances : r.advances event = true) :
    (r.step event).work < r.work := by
  have hgoing : r.task.pc ≠ .Ended := by
    intro hended
    cases event with
    | Next =>
        rw [advances] at hadvances
        rw [pc_of_reads hadvances] at hended
        cases hended
    | Delivered =>
        rw [advances, decide_eq_true_eq, hended] at hadvances
        cases hadvances
    | _ => cases hadvances
  have hwork : r.work = 1 + 3 * r.upstream.length + r.task.buffered.length +
      if r.task.pending_batch = [] then 0 else 2 := if_neg hgoing
  rw [hwork]
  cases moves h event with
  | rests hidle _ _ _ =>
      rw [hadvances] at hidle
      cases hidle
  | beats _ _ _ _ hidle _ _ _ _ =>
      rw [hadvances] at hidle
      cases hidle
  | cancels _ _ hidle _ _ _ _ =>
      rw [hadvances] at hidle
      cases hidle
  | collects chunk rest hreads hchunks hmore hfits held hupstream hsent =>
      have hle := work_le _ _ held
      rw [hupstream, if_neg (by simp)] at hle
      rw [hchunks]
      simp only [List.length_cons, List.length_nil] at hle ⊢
      omega
  | flushes chunk rest hreads hchunks held hupstream hsent =>
      have hle := work_le _ _ held
      have hbatch := length_batch_message (r.task.pending_batch ++ [chunk])
      rw [hupstream, if_pos rfl] at hle
      rw [hchunks]
      simp only [List.length_cons] at hle ⊢
      omega
  | fails error rest hreads hchunks held hupstream hsent =>
      have hle := work_le _ _ held
      have hbatch := length_batch_message r.task.pending_batch
      rw [hupstream, if_pos rfl, List.length_append, List.length_singleton] at hle
      rw [hchunks]
      simp only [List.length_cons] at hle ⊢
      omega
  | times_out hreads hpending held hupstream hsent =>
      have hle := work_le _ _ held
      have hbatch := length_batch_message r.task.pending_batch
      rw [hupstream, if_pos rfl] at hle
      rw [if_neg hpending]
      omega
  | finds_end hreads hfinds held hupstream hsent =>
      have hended : (r.step event).task.pc = .Ended := congrArg Held.pc held
      rw [work, if_pos hended]
      omega
  | sends front rest hpc hbuffered held hupstream hsent =>
      rw [hbuffered, List.length_cons]
      by_cases hterminal : relay_message_is_terminal front
      · rw [if_pos hterminal] at held
        have hended : (r.step event).task.pc = .Ended := congrArg Held.pc held
        rw [work, if_pos hended]
        omega
      · rw [if_neg hterminal] at held
        have hle := work_le _ _ held
        rw [hupstream] at hle
        omega

theorem delivered_of_not_send (h : r.task.pc ≠ .Send) : r.step .Delivered = r := by
  show r.delivered = r
  unfold delivered
  split
  · next hpc _ => exact absurd hpc h
  · rfl

theorem next_of_not_reads (h : r.reads = false) : r.step .Next = r := by
  show r.next = r
  rw [next, h, if_neg Bool.false_ne_true]

/-- An answer never adds work. -/
theorem work_next_le (h : r.Calm) : (r.step .Next).work ≤ r.work := by
  by_cases hreads : r.reads
  · exact (work_step h .Next hreads).le
  · rw [next_of_not_reads (Bool.eq_false_iff.2 hreads)]

/-- A round leaves less work, while there is some. -/
theorem work_round (h : r.Calm) (hgoing : r.task.pc ≠ .Ended) :
    ((r.step .Delivered).step .Next).work < r.work := by
  rcases h.waits with ⟨hselect, -, -⟩ | hsend | hended
  · rw [delivered_of_not_send (by rw [hselect]; exact fun hcontra => by cases hcontra)]
    exact work_step h .Next (h.reads hselect)
  · have hsent : (r.step .Delivered).work < r.work :=
      work_step h .Delivered (decide_eq_true hsend)
    exact lt_of_le_of_lt (work_next_le (h.step .Delivered)) hsent
  · exact absurd hended hgoing

/-- A task that has ended stays as it is. -/
theorem step_of_ended (h : r.Calm) (hended : r.task.pc = .Ended) (event : RelayEvent) :
    (r.step event).task.pc = .Ended ∧ (r.step event).sent = r.sent := by
  have hreads : r.reads = false := by
    rw [Relay.reads, hended]
    rfl
  cases moves h event with
  | rests _ held _ hsent => exact ⟨(congrArg Held.pc held).trans hended, hsent⟩
  | sends _ _ hpc _ _ _ _ =>
      rw [hended] at hpc
      cases hpc
  | beats _ _ _ _ _ hcontra _ _ _ => exact absurd hcontra (Bool.eq_false_iff.1 hreads)
  | cancels _ _ _ hcontra _ _ _ => exact absurd hcontra (Bool.eq_false_iff.1 hreads)
  | collects _ _ hcontra _ _ _ _ _ _ => exact absurd hcontra (Bool.eq_false_iff.1 hreads)
  | flushes _ _ hcontra _ _ _ _ => exact absurd hcontra (Bool.eq_false_iff.1 hreads)
  | fails _ _ hcontra _ _ _ _ => exact absurd hcontra (Bool.eq_false_iff.1 hreads)
  | times_out hcontra _ _ _ _ => exact absurd hcontra (Bool.eq_false_iff.1 hreads)
  | finds_end hcontra _ _ _ _ => exact absurd hcontra (Bool.eq_false_iff.1 hreads)

theorem run_of_ended (h : r.Calm) (hended : r.task.pc = .Ended) (schedule : List RelayEvent) :
    (run Relay.step r schedule).task.pc = .Ended ∧ (run Relay.step r schedule).sent = r.sent := by
  induction schedule generalizing r with
  | nil => exact ⟨hended, rfl⟩
  | cons event schedule ih =>
      obtain ⟨hstays, hsent⟩ := step_of_ended h hended event
      rw [run_cons, ← hsent]
      exact ih (h.step event) hstays

/-- Enough rounds end the task. -/
theorem ended_after_rounds (n : ℕ) (h : r.Calm) (hwork : r.work ≤ n) :
    (run Relay.step r (rounds n)).task.pc = .Ended := by
  induction n generalizing r with
  | zero =>
      by_contra hgoing
      change r.task.pc ≠ .Ended at hgoing
      rw [work, if_neg hgoing] at hwork
      omega
  | succ n ih =>
      by_cases hended : r.task.pc = .Ended
      · exact (run_of_ended h hended _).1
      · have hless := work_round h hended
        rw [rounds, List.replicate_succ, List.flatten_cons, run_append]
        exact ih ((h.step .Delivered).step .Next) (Nat.le_of_lt_succ (hless.trans_le hwork))

end Relay

/-- **The relay delivers the stream**, whatever the timeouts and the heartbeats, when every
send succeeds and nothing is cancelled. -/
theorem relay_delivers_stream (reconnect_grace_secs : ℕ)
    (upstream : List (Except String StreamChunk)) (schedule : List RelayEvent)
    (h : ∀ event ∈ schedule, event.is_cancellation = false) :
    DeliversStream upstream (run Relay.step (.new reconnect_grace_secs upstream) schedule) := by
  have huncancelled : Along Relay.step (fun _ event => event.is_cancellation = false)
      (.new reconnect_grace_secs upstream) schedule := along_of_forall fun _ => h
  have hconserves := run_invariant (I := Relay.Conserves upstream) huncancelled
    (fun _ event hI hC => hI.step event hC)
    (Relay.conserves_new reconnect_grace_secs upstream)
  refine ⟨⟨_, hconserves.items⟩, hconserves.complete, ?_, ?_⟩
  · intro chunks hchunks
    exact hconserves.batches chunks (List.mem_append_left _ hchunks)
  · exact ⟨_, Relay.ended_after_rounds _ hconserves.calm le_rfl⟩

/-- A batch of two chunks goes out on a timeout, between a heartbeat and the end. -/
theorem timeout_between_chunks_delivers :
    DeliversStream [.ok (.Text "a"), .ok (.Text "b"), .ok (.Done .Stop)]
      (run Relay.step (.new 30 [.ok (.Text "a"), .ok (.Text "b"), .ok (.Done .Stop)])
        [.Next, .Heartbeat false (some (.Streaming, 1, 1, 1)), .Delivered, .Next, .BatchTimeout,
          .Delivered, .Next, .Delivered]) :=
  relay_delivers_stream 30 _ _ (by decide)

/-! ## 6. The last message -/

namespace Relay

variable {r r' : Relay} {event : RelayEvent}

/-- The task is going on, and the message that will end it is not out yet. -/
structure Open (r : Relay) : Prop where
  calm : r.Calm
  going : r.task.pc ≠ .Ended
  unsent : ∀ m ∈ r.sent, relay_message_is_terminal m = false
  closing : r.task.upstream_done = true →
    ∃ m ∈ r.task.buffered, relay_message_is_terminal m = true

theorem Open.of_held (hcalm : r'.Calm) {buffered : List StreamRelayMessage}
    {pending_batch : List StreamChunk} {upstream_done : Bool}
    (held : r'.task.held = .after buffered pending_batch upstream_done)
    (hunsent : ∀ m ∈ r'.sent, relay_message_is_terminal m = false)
    (hclosing : upstream_done = true → ∃ m ∈ buffered, relay_message_is_terminal m = true) :
    r'.Open := by
  have hbuffered : r'.task.buffered = buffered := congrArg Held.buffered held
  have hdone : r'.task.upstream_done = upstream_done := congrArg Held.upstream_done held
  have hpc : r'.task.pc = (Held.after buffered pending_batch upstream_done).pc :=
    congrArg Held.pc held
  refine ⟨hcalm, ?_, hunsent, ?_⟩
  · intro hended
    rw [hpc, Held.after] at hended
    dsimp only at hended
    by_cases hempty : buffered.isEmpty
    · by_cases hupstream : upstream_done
      · obtain ⟨m, hm, -⟩ := hclosing hupstream
        rw [List.isEmpty_iff.1 hempty] at hm
        cases hm
      · rw [if_pos hempty, if_neg hupstream] at hended
        cases hended
    · rw [if_neg hempty] at hended
      cases hended
  · rw [hbuffered, hdone]
    exact hclosing

/-- **One step under the condition**: the task goes on, or its last message is terminal. -/
theorem Open.step (h : r.Open) (hconcludes : Concludes r event) :
    (r.step event).Open ∨ (r.step event).task.pc = .Ended ∧
      ∃ m, (r.step event).sent.getLast? = some m ∧ relay_message_is_terminal m = true := by
  have hcalm := h.calm.step event
  cases moves h.calm event with
  | rests _ held _ hsent =>
      have hbuffered : (r.step event).task.buffered = r.task.buffered :=
        congrArg Held.buffered held
      have hdone : (r.step event).task.upstream_done = r.task.upstream_done :=
        congrArg Held.upstream_done held
      left
      refine ⟨hcalm, ?_, ?_, ?_⟩
      · rw [show (r.step event).task.pc = r.task.pc from congrArg Held.pc held]
        exact h.going
      · rw [hsent]
        exact h.unsent
      · rw [hbuffered, hdone]
        exact h.closing
  | beats _ _ _ _ _ _ held _ hsent =>
      exact .inl (Open.of_held hcalm held (hsent ▸ h.unsent) fun hcontra => by cases hcontra)
  | cancels message _ _ _ held _ hsent =>
      refine .inl (Open.of_held hcalm held (hsent ▸ h.unsent) fun _ => ?_)
      exact ⟨.TransportFailed message, List.mem_append_right _ List.mem_cons_self, rfl⟩
  | collects _ _ _ _ _ _ held _ hsent =>
      exact .inl (Open.of_held hcalm held (hsent ▸ h.unsent) fun hcontra => by cases hcontra)
  | flushes chunk _ _ _ held _ hsent =>
      refine .inl (Open.of_held hcalm held (hsent ▸ h.unsent) fun hdone => ?_)
      -- the batch ends with the `Done` chunk
      obtain ⟨m, hm⟩ := batch_message_ne_nil (r.task.pending_batch ++ [chunk]) (by simp)
      refine ⟨m, hm, ?_⟩
      rw [RelayTask.terminal_batch_message hm, List.any_append]
      simp [hdone]
  | fails error _ _ _ held _ hsent =>
      refine .inl (Open.of_held hcalm held (hsent ▸ h.unsent) fun _ => ?_)
      exact ⟨.ProviderError error, List.mem_append_right _ List.mem_cons_self, rfl⟩
  | times_out _ _ held _ hsent =>
      exact .inl (Open.of_held hcalm held (hsent ▸ h.unsent) fun hcontra => by cases hcontra)
  | finds_end _ hfinds _ _ _ =>
      rw [Concludes, hfinds] at hconcludes
      cases hconcludes
  | sends front rest _ hbuffered held _ hsent =>
      by_cases hterminal : relay_message_is_terminal front
      · rw [if_pos hterminal] at held
        refine .inr ⟨congrArg Held.pc held, front, ?_, hterminal⟩
        rw [hsent, List.getLast?_concat]
      · rw [if_neg hterminal] at held
        refine .inl (Open.of_held hcalm held ?_ ?_)
        · intro m hm
          rw [hsent] at hm
          rcases List.mem_append.1 hm with hm | hm
          · exact h.unsent m hm
          · rw [List.mem_singleton.1 hm]
            exact Bool.eq_false_iff.2 hterminal
        · intro hdone
          obtain ⟨m, hm, hlast⟩ := h.closing hdone
          rw [hbuffered] at hm
          rcases List.mem_cons.1 hm with heq | hm
          · rw [heq] at hlast
            exact absurd hlast hterminal
          · exact ⟨m, hm, hlast⟩

theorem open_new (reconnect_grace_secs : ℕ) (upstream : List (Except String StreamChunk)) :
    (Relay.new reconnect_grace_secs upstream).Open where
  calm := calm_new reconnect_grace_secs upstream
  going hended := by cases hended
  unsent m hm := by cases hm
  closing hdone := by cases hdone

/-- The end of the upstream ends the task, and nothing terminal was sent. -/
theorem Open.finds_end (h : r.Open) (hfinds : r.finds_end event = true)
    (schedule : List RelayEvent) : ¬ ClosesConsumer (run Relay.step (r.step event) schedule) := by
  have hended : (r.step event).task.pc = .Ended ∧ (r.step event).sent = r.sent := by
    obtain ⟨hreads, hupstream, hpending⟩ := of_finds_end hfinds
    have hheld := held_end h.calm hreads hpending
    cases event with
    | Next =>
        show r.next.task.pc = .Ended ∧ r.next.sent = r.sent
        rw [next, if_pos hreads, hupstream]
        exact ⟨congrArg Held.pc hheld, rfl⟩
    | _ => cases hfinds
  intro hcloses
  obtain ⟨hstays, hsent⟩ := run_of_ended (h.calm.step event) hended.1 schedule
  obtain ⟨m, hlast, hterminal⟩ := hcloses hstays
  rw [hsent, hended.2] at hlast
  rw [h.unsent m (List.mem_of_getLast? hlast)] at hterminal
  cases hterminal

/-- After the end the upstream is not read. -/
theorem along_of_ended (h : r.Calm) (hended : r.task.pc = .Ended) (schedule : List RelayEvent) :
    Along Relay.step Concludes r schedule := by
  induction schedule generalizing r with
  | nil => trivial
  | cons event schedule ih =>
      refine ⟨?_, ih (h.step event) (step_of_ended h hended event).1⟩
      rw [Concludes, Bool.eq_false_iff]
      intro hfinds
      have hselect := pc_of_reads (of_finds_end hfinds).1
      rw [hended] at hselect
      cases hselect

theorem Open.closes_iff (h : r.Open) (schedule : List RelayEvent) :
    ClosesConsumer (run Relay.step r schedule) ↔ Along Relay.step Concludes r schedule := by
  induction schedule generalizing r with
  | nil => exact ⟨fun _ => trivial, fun _ hended => absurd hended h.going⟩
  | cons event schedule ih =>
      rw [run_cons, along_cons]
      by_cases hfinds : r.finds_end event
      · refine ⟨fun hcloses => absurd hcloses (h.finds_end hfinds schedule), ?_⟩
        rintro ⟨hconcludes, -⟩
        rw [Concludes, hfinds] at hconcludes
        cases hconcludes
      · have hconcludes : Concludes r event := Bool.eq_false_iff.2 hfinds
        rcases h.step hconcludes with hopen | ⟨hended, hlast⟩
        · rw [ih hopen]
          exact (and_iff_right hconcludes).symm
        · have hcalm := h.calm.step event
          refine ⟨fun _ => ⟨hconcludes, along_of_ended hcalm hended schedule⟩, fun _ _ => ?_⟩
          rw [(run_of_ended hcalm hended schedule).2]
          exact hlast

end Relay

/-- **The consumer is closed exactly when the upstream is not found at its end**, in every
run without a failing send. -/
theorem closes_consumer_iff (reconnect_grace_secs : ℕ)
    (upstream : List (Except String StreamChunk)) (schedule : List RelayEvent) :
    ClosesConsumer (run Relay.step (.new reconnect_grace_secs upstream) schedule) ↔
      Along Relay.step Concludes (.new reconnect_grace_secs upstream) schedule :=
  (Relay.open_new reconnect_grace_secs upstream).closes_iff schedule

/-- The upstream gives one chunk and ends: the task ends after it, and nobody is told. -/
theorem consumer_left_open :
    ¬ ClosesConsumer (run Relay.step (.new 30 [.ok (.Text "text")])
      [.Next, .Next, .Delivered, .Next]) := by
  intro hcloses
  obtain ⟨m, hlast, hterminal⟩ := hcloses (by decide)
  have hsent : (run Relay.step (.new 30 [.ok (.Text "text")])
      [.Next, .Next, .Delivered, .Next]).sent = [.Chunk (.Text "text")] := by decide
  rw [hsent] at hlast
  cases hlast
  cases hterminal

end Querymt.Remote
