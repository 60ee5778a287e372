/-
`Remote/ProviderHost.lean` -- does the relay of a provider stream give up too early?

Mirrors the task that `ProviderHostActor` spawns for a stream request
(`provider_host_actor.rs` of `querymt-remote`): the `select!` loop that collects chunks
into batches and the send loop inside it, with its reconnect probes and its two ways out.
The status table of the streams, which no decision of the task reads, is left out; a
heartbeat carries what the table says at that moment.

# What a step is

The task runs from one `.await` to the next. A step is a branch of the `select!`, the
router's answer to what was sent, or the end of a sleep; time passes between steps, and
an answer may take any time. Any send may fail, acknowledged or not.

# The exit to look at

A failed probe ends the task when the upstream is done. The flag means two things there:
the grace period has just expired, or the provider has finished long ago.
-/
import Querymt.Library.Runs
import Querymt.Remote.Protocol

set_option autoImplicit false

open Runs

namespace Querymt.Remote

/-! ## 1. The task -/

/-- What the task waits for. -/
inductive RelayPc where
  /-- a branch of the `select!` -/
  | Select
  /-- the answer to a reconnect probe -/
  | Probe
  /-- the end of the sleep after a failed probe -/
  | ProbeFailed (deadline : ℕ)
  /-- the answer to the first buffered message -/
  | Send
  /-- the end of the sleep after a failed send -/
  | SendFailed (deadline : ℕ)
  | Ended
  deriving DecidableEq

/-- The state of the task; times are in milliseconds. -/
structure RelayTask where
  reconnect_grace_secs : ℕ
  now : ℕ
  pc : RelayPc
  buffered : List StreamRelayMessage
  pending_batch : List StreamChunk
  disconnected_since : Option ℕ
  upstream_done : Bool
  cancel_token : Bool
  -- a `u32` that saturates
  unacked_batches : ℕ
  last_ack_at : ℕ
  deriving DecidableEq

def RelayTask.new (reconnect_grace_secs : ℕ) : RelayTask :=
  ⟨reconnect_grace_secs, 0, .Select, [], [], none, false, false, 0, 0⟩

def MAX_BATCH_SIZE : ℕ := 16

def ACK_WINDOW_BATCHES : ℕ := 8

def ACK_WINDOW_INTERVAL : ℕ := 40

def should_ack_relay_message (message : StreamRelayMessage) (unacked_batches last_ack_at : ℕ) :
    Bool :=
  relay_message_is_terminal message ||
    match message with
    | .Chunk _ | .ChunkBatch _ =>
        decide (ACK_WINDOW_BATCHES ≤ unacked_batches) || decide (ACK_WINDOW_INTERVAL ≤ last_ack_at)
    | .Heartbeat _ _ _ _ | .TransportDisconnected _ | .TransportReconnected _ => false
    | .ProviderError _ | .TransportFailed _ => true

inductive RelayInput where
  | Elapse (ms : ℕ)
  /-- the stream is cancelled from outside -/
  | Cancel
  /-- the branch of the cancelled token -/
  | Cancelled
  /-- the branch of the heartbeat: the lease may have expired, and the status is that of
  the table, if the stream is in it -/
  | Heartbeat (lease_expired : Bool) (status : Option (ProviderStreamPhase × ℕ × ℕ × ℕ))
  | Chunk (chunk : StreamChunk)
  | UpstreamError (error : String)
  /-- the upstream has ended, or the time for a batch is over -/
  | NoChunk
  /-- the router's answers -/
  | Answered
  | Unreachable
  /-- a sleep ends -/
  | Wake
  deriving DecidableEq

/-- The message that a batch becomes. -/
def batch_message : List StreamChunk → List StreamRelayMessage
  | [] => []
  | [chunk] => [.Chunk chunk]
  | chunks => [.ChunkBatch chunks]

namespace RelayTask

variable (s : RelayTask)

/-- In milliseconds, and one second at least. -/
def reconnect_grace : ℕ := max s.reconnect_grace_secs 1 * 1000

def flush_batch : RelayTask :=
  { s with buffered := s.buffered ++ batch_message s.pending_batch, pending_batch := [] }

def push (message : StreamRelayMessage) : RelayTask :=
  { s with buffered := s.buffered ++ [message] }

/-- The send loop at its first buffered message. When there is none the task goes back to
the `select!`, or is done. -/
def relay_front : RelayTask :=
  if s.buffered.isEmpty then
    -- the check after the send loop
    if s.upstream_done && s.pending_batch.isEmpty then { s with pc := .Ended }
    else { s with pc := .Select }
  else { s with pc := .Send }

/-- The head of the send loop. -/
def send_loop : RelayTask :=
  if s.disconnected_since.isSome then { s with pc := .Probe } else s.relay_front

/-- A branch of the `select!`, up to the send loop. -/
def select_branch : RelayInput → RelayTask
  | .Cancelled =>
      if !s.upstream_done && s.cancel_token then
        ({ s.flush_batch with upstream_done := true }.push
          (.TransportFailed "provider stream cancelled")).send_loop
      else s
  | .Heartbeat lease_expired status =>
      -- `continue`: back to the `select!` without a look at the buffer
      if lease_expired then { s with cancel_token := true }
      else
        match status with
        | none => s.send_loop
        | some (phase, elapsed_ms, idle_ms, chunk_count) =>
            (s.push (.Heartbeat phase elapsed_ms idle_ms chunk_count)).send_loop
  | .Chunk chunk =>
      if s.upstream_done then s
      else
        let pushed := { s with
          upstream_done := chunk.is_done
          pending_batch := s.pending_batch ++ [chunk] }
        if chunk.is_done || decide (MAX_BATCH_SIZE ≤ pushed.pending_batch.length) then
          pushed.flush_batch.send_loop
        else pushed.send_loop
  | .UpstreamError error =>
      if s.upstream_done then s
      else ({ s.flush_batch with upstream_done := true }.push (.ProviderError error)).send_loop
  | .NoChunk =>
      if s.upstream_done then s
      -- with a batch pending, a timeout and the end of the stream look the same
      else if s.pending_batch.isEmpty then { s with upstream_done := true }.send_loop
      else s.flush_batch.send_loop
  | _ => s

/-- The router has answered the probe: the task is connected again. -/
def probe_answered : RelayTask :=
  { s with disconnected_since := none, unacked_batches := 0, last_ack_at := s.now }.relay_front

/-- When the router was lost. -/
def since : ℕ := s.disconnected_since.getD s.now

/-- The grace period is over. -/
def grace_expired : Bool := decide (s.since + s.reconnect_grace ≤ s.now)

def probe_failed : RelayTask :=
  let waiting := { s with disconnected_since := some s.since, pc := .ProbeFailed (s.now + 250) }
  if s.grace_expired then
    { waiting with
      buffered := s.buffered ++ [.TransportFailed ("reconnect grace expired after " ++
        toString (max s.reconnect_grace_secs 1) ++ "s")]
      upstream_done := true }
  else waiting

/-- The first buffered message was sent and is taken out. -/
def pop_front (front : StreamRelayMessage) (rest : List StreamRelayMessage) : RelayTask :=
  -- the code decides this before it sends. Without an acknowledgement it does not wait for an
  -- answer, and with one the window that was over then is over now.
  let should_ack := should_ack_relay_message front s.unacked_batches (s.now - s.last_ack_at)
  match front with
  | .Chunk _ | .ChunkBatch _ =>
      if should_ack then { s with buffered := rest, unacked_batches := 0, last_ack_at := s.now }
      else { s with buffered := rest, unacked_batches := min (s.unacked_batches + 1) (2 ^ 32 - 1) }
  | _ => { s with buffered := rest, unacked_batches := 0, last_ack_at := s.now }

def send_answered (front : StreamRelayMessage) (rest : List StreamRelayMessage) : RelayTask :=
  -- `break 'outer`, whatever is still buffered behind it
  if keep_stream_message_buffered front && relay_message_is_terminal front then
    { s.pop_front front rest with pc := .Ended }
  else (s.pop_front front rest).send_loop

def send_failed : RelayTask :=
  { s with disconnected_since := some s.since, pc := .SendFailed (s.now + 250) }

/-- The task goes on, if the input is one it waits for. -/
def proceed (input : RelayInput) : RelayTask :=
  match s.pc, input with
  | .Select, branch => s.select_branch branch
  | .Probe, .Answered => s.probe_answered
  | .Probe, .Unreachable => s.probe_failed
  | .ProbeFailed deadline, .Wake =>
      if deadline ≤ s.now then
        -- `break 'outer`: set by the grace period above, or by the provider long before
        if s.upstream_done then { s with pc := .Ended } else s.send_loop
      else s
  | .Send, .Answered =>
      match s.buffered with
      | [] => s
      | front :: rest => s.send_answered front rest
  | .Send, .Unreachable => s.send_failed
  | .SendFailed deadline, .Wake => if deadline ≤ s.now then s.send_loop else s
  | _, _ => s

def step : RelayInput → RelayTask
  | .Elapse ms => { s with now := s.now + ms }
  | .Cancel => { s with cancel_token := true }
  | input => s.proceed input

/-! ## 2. The law and the condition -/

/-- A chunk or an error is not sent yet. -/
def has_unsent : Bool :=
  s.buffered.any keep_stream_message_buffered || !s.pending_batch.isEmpty

/-- The router has been lost for the whole grace period. -/
def disconnected_long : Bool :=
  s.disconnected_since.any fun since => decide (since + s.reconnect_grace ≤ s.now)

end RelayTask

/-- **Nothing is dropped early**: if the task ends with a chunk or an error unsent, some
disconnection has lasted the whole grace period. -/
def GivesUpLate (reconnect_grace_secs : ℕ) (inputs : List RelayInput) : Prop :=
  let s := run RelayTask.step (.new reconnect_grace_secs) inputs
  s.pc = .Ended → s.has_unsent = true →
    ∃ s' ∈ trace RelayTask.step (.new reconnect_grace_secs) inputs, s'.disconnected_long = true

/-- **The condition.** No reconnect probe fails after the upstream is done, with a chunk
or an error unsent, before the grace period is over. -/
def Patient (s : RelayTask) : RelayInput → Prop
  | .Unreachable => s.pc = .Probe → s.upstream_done = true → s.has_unsent = true →
      s.disconnected_long = true
  | _ => True

instance (s : RelayTask) : (input : RelayInput) → Decidable (Patient s input)
  | .Unreachable => inferInstanceAs (Decidable (s.pc = .Probe → s.upstream_done = true →
      s.has_unsent = true → s.disconnected_long = true))
  | .Elapse _ | .Cancel | .Cancelled | .Heartbeat _ _ | .Chunk _ | .UpstreamError _ | .NoChunk
  | .Answered | .Wake => isTrue trivial

namespace RelayTask

variable {s : RelayTask}

/-! ## 3. What is buffered -/

/-- The task is about to end after a failed probe, or has ended. -/
def is_leaving (s : RelayTask) : Bool :=
  match s.pc with
  | .Ended => true
  | .ProbeFailed _ => s.upstream_done
  | _ => false

/-- What is buffered while the task goes on: nothing worth keeping comes after a terminal
message, and there is none before the upstream is done. -/
structure Tail (s : RelayTask) : Prop where
  terminal_last : s.buffered.Pairwise fun m m' =>
    relay_message_is_terminal m = true → keep_stream_message_buffered m' = false
  no_terminal : s.upstream_done = false → ∀ m ∈ s.buffered, relay_message_is_terminal m = false
  flushed : s.upstream_done = true → s.pending_batch = []
  no_done : ∀ chunk ∈ s.pending_batch, chunk.is_done = false

/-- Where the task waits, and since when it is disconnected, does not matter for what is
buffered. -/
theorem Tail.congr {s' : RelayTask} (h : s.Tail) (hbuffered : s'.buffered = s.buffered)
    (hpending : s'.pending_batch = s.pending_batch) (hdone : s'.upstream_done = s.upstream_done) :
    s'.Tail := by
  constructor
  · rw [hbuffered]
    exact h.terminal_last
  · rw [hbuffered, hdone]
    exact h.no_terminal
  · rw [hpending, hdone]
    exact h.flushed
  · rw [hpending]
    exact h.no_done

/-- **The invariant.** -/
structure Inv (s : RelayTask) : Prop where
  tail : s.is_leaving = false → s.Tail
  left : s.is_leaving = true → s.has_unsent = true → s.disconnected_long = true

theorem terminal_batch_message {chunks : List StreamChunk} {m : StreamRelayMessage}
    (h : m ∈ batch_message chunks) : relay_message_is_terminal m = chunks.any StreamChunk.is_done := by
  match chunks with
  | [] => cases h
  | [chunk] =>
      rw [List.mem_singleton.1 h]
      simp [relay_message_is_terminal]
  | c :: c' :: rest =>
      rw [List.mem_singleton.1 h]
      rfl

theorem pairwise_batch_message (chunks : List StreamChunk)
    (R : StreamRelayMessage → StreamRelayMessage → Prop) : (batch_message chunks).Pairwise R := by
  match chunks with
  | [] => exact List.Pairwise.nil
  | [chunk] => exact List.pairwise_singleton R _
  | c :: c' :: rest => exact List.pairwise_singleton R _

theorem any_is_done_eq_false {chunks : List StreamChunk} (h : ∀ chunk ∈ chunks, chunk.is_done = false) :
    chunks.any StreamChunk.is_done = false := by
  rw [List.any_eq_false]
  intro chunk hchunk
  rw [h chunk hchunk]
  exact Bool.false_ne_true

/-- Messages that come after no terminal one. -/
theorem pairwise_append_of_no_terminal {old new : List StreamRelayMessage}
    (hold : ∀ m ∈ old, relay_message_is_terminal m = false)
    (hnew : new.Pairwise fun m m' =>
      relay_message_is_terminal m = true → keep_stream_message_buffered m' = false) :
    (old ++ new).Pairwise fun m m' =>
      relay_message_is_terminal m = true → keep_stream_message_buffered m' = false := by
  rw [List.pairwise_append]
  refine ⟨List.pairwise_of_forall_mem_list ?_, hnew, ?_⟩
  · intro m hm m' _ hterminal
    rw [hold m hm] at hterminal
    cases hterminal
  · intro m hm m' _ hterminal
    rw [hold m hm] at hterminal
    cases hterminal

/-! ## 4. The branches of the `select!` -/

/-- A batch is flushed before the upstream is done. -/
theorem Tail.flush_batch (h : s.Tail) (hrunning : s.upstream_done = false) : s.flush_batch.Tail where
  terminal_last :=
    pairwise_append_of_no_terminal (h.no_terminal hrunning) (pairwise_batch_message _ _)
  no_terminal _ m hm := by
    rcases List.mem_append.1 hm with hm | hm
    · exact h.no_terminal hrunning m hm
    · rw [terminal_batch_message hm]
      exact any_is_done_eq_false h.no_done
  flushed _ := rfl
  no_done chunk hchunk := by cases hchunk

/-- The last message of the stream, once everything else is flushed. -/
theorem Tail.finish (h : s.Tail) (hrunning : s.upstream_done = false)
    (hflushed : s.pending_batch = []) (messages : List StreamRelayMessage)
    (hmessages : messages.Pairwise fun m m' =>
      relay_message_is_terminal m = true → keep_stream_message_buffered m' = false) :
    Tail { s with buffered := s.buffered ++ messages, upstream_done := true } where
  terminal_last := pairwise_append_of_no_terminal (h.no_terminal hrunning) hmessages
  no_terminal hdone := by cases hdone
  flushed _ := hflushed
  no_done := h.no_done

theorem Tail.heartbeat (h : s.Tail) (phase : ProviderStreamPhase) (elapsed_ms idle_ms count : ℕ) :
    (s.push (.Heartbeat phase elapsed_ms idle_ms count)).Tail where
  terminal_last := by
    rw [push, List.pairwise_append]
    refine ⟨h.terminal_last, List.pairwise_singleton _ _, ?_⟩
    intro m _ m' hm' _
    rw [List.mem_singleton.1 hm']
    rfl
  no_terminal hrunning m hm := by
    rcases List.mem_append.1 hm with hm | hm
    · exact h.no_terminal hrunning m hm
    · rw [List.mem_singleton.1 hm]
      rfl
  flushed := h.flushed
  no_done := h.no_done

/-- A chunk that is not the last one. -/
theorem Tail.chunk (h : s.Tail) {chunk : StreamChunk} (hrunning : s.upstream_done = false)
    (hchunk : chunk.is_done = false) :
    Tail { s with upstream_done := false, pending_batch := s.pending_batch ++ [chunk] } where
  terminal_last := h.terminal_last
  no_terminal _ := h.no_terminal hrunning
  flushed hdone := by cases hdone
  no_done c hc := by
    -- only the last chunk of a stream is a `Done`, and it is flushed at once
    rcases List.mem_append.1 hc with hc | hc
    · exact h.no_done c hc
    · rw [List.mem_singleton.1 hc]
      exact hchunk

/-! ## 5. The send loop -/

theorem has_unsent_eq_false (hbuffered : ∀ m ∈ s.buffered, keep_stream_message_buffered m = false)
    (hpending : s.pending_batch = []) : s.has_unsent = false := by
  rw [has_unsent, hpending, Bool.or_eq_false_iff]
  refine ⟨List.any_eq_false.2 ?_, rfl⟩
  intro m hm
  rw [hbuffered m hm]
  exact Bool.false_ne_true

theorem Tail.relay_front (h : s.Tail) : s.relay_front.Inv := by
  rw [RelayTask.relay_front]
  split
  · next hempty =>
      split
      · next hdone =>
          refine ⟨fun hstay => (by cases hstay), fun _ hunsent => ?_⟩
          rw [Bool.and_eq_true, List.isEmpty_iff] at hdone
          rw [List.isEmpty_iff] at hempty
          have hnone : ({ s with pc := .Ended } : RelayTask).has_unsent = false := by
            refine has_unsent_eq_false ?_ hdone.2
            intro m hm
            rw [hempty] at hm
            cases hm
          rw [hnone] at hunsent
          cases hunsent
      · exact ⟨fun _ => h.congr rfl rfl rfl, fun hleaving => by cases hleaving⟩
  · exact ⟨fun _ => h.congr rfl rfl rfl, fun hleaving => by cases hleaving⟩

theorem Tail.send_loop (h : s.Tail) : s.send_loop.Inv := by
  rw [RelayTask.send_loop]
  split
  · exact ⟨fun _ => h.congr rfl rfl rfl, fun hleaving => by cases hleaving⟩
  · exact h.relay_front

theorem Inv.select_branch (h : s.Inv) (hpc : s.pc = .Select) (branch : RelayInput) :
    (s.select_branch branch).Inv := by
  have htail : s.Tail := h.tail (by rw [is_leaving, hpc])
  cases branch with
  | Cancelled =>
      rw [RelayTask.select_branch]
      split
      · next hopen =>
          rw [Bool.and_eq_true, Bool.not_eq_true'] at hopen
          exact ((htail.flush_batch hopen.1).finish hopen.1 rfl [_]
            (List.pairwise_singleton _ _)).send_loop
      · exact h
  | Heartbeat lease_expired status =>
      cases lease_expired with
      | true =>
          exact ⟨fun _ => htail.congr rfl rfl rfl,
            h.left⟩
      | false =>
          rcases status with _ | ⟨phase, elapsed_ms, idle_ms, chunk_count⟩
          · exact htail.send_loop
          · exact (htail.heartbeat phase elapsed_ms idle_ms chunk_count).send_loop
  | Chunk chunk =>
      rw [RelayTask.select_branch]
      split
      · exact h
      · next hopen =>
          rw [Bool.not_eq_true] at hopen
          cases hchunk : chunk.is_done with
          | true =>
              -- the whole batch is flushed with the last chunk
              dsimp only
              rw [Bool.true_or, if_pos rfl]
              refine Tail.send_loop ⟨?_, fun hrunning => (by cases hrunning), fun _ => rfl,
                fun c hc => by cases hc⟩
              exact pairwise_append_of_no_terminal (htail.no_terminal hopen)
                (pairwise_batch_message _ _)
          | false =>
              have hpushed := htail.chunk hopen hchunk
              dsimp only
              split
              · exact (hpushed.flush_batch rfl).send_loop
              · exact hpushed.send_loop
  | UpstreamError error =>
      rw [RelayTask.select_branch]
      split
      · exact h
      · next hopen =>
          rw [Bool.not_eq_true] at hopen
          exact ((htail.flush_batch hopen).finish hopen rfl [_]
            (List.pairwise_singleton _ _)).send_loop
  | NoChunk =>
      rw [RelayTask.select_branch]
      split
      · exact h
      · next hopen =>
          rw [Bool.not_eq_true] at hopen
          split
          · next hempty =>
              rw [List.isEmpty_iff] at hempty
              have hfinish := htail.finish hopen hempty [] List.Pairwise.nil
              rw [List.append_nil] at hfinish
              exact hfinish.send_loop
          · exact (htail.flush_batch hopen).send_loop
  | Elapse ms => exact h
  | Cancel => exact h
  | Answered => exact h
  | Unreachable => exact h
  | Wake => exact h

/-! ## 6. The answers of the router -/

theorem Inv.probe_answered (h : s.Inv) (hpc : s.pc = .Probe) : s.probe_answered.Inv := by
  have htail : s.Tail := h.tail (by rw [is_leaving, hpc])
  exact Tail.relay_front (htail.congr rfl rfl rfl)

theorem grace_expired_of_long (h : s.disconnected_long = true) : s.grace_expired = true := by
  rw [disconnected_long] at h
  rw [grace_expired, since]
  cases hsince : s.disconnected_since with
  | none =>
      rw [hsince] at h
      cases h
  | some since =>
      rw [hsince] at h
      exact h

/-- **A failed probe**: the task goes on, or the grace period is over, or nothing is
lost. -/
theorem Inv.probe_failed (h : s.Inv) (hpc : s.pc = .Probe) (hpatient : Patient s .Unreachable) :
    s.probe_failed.Inv := by
  have htail : s.Tail := h.tail (by rw [is_leaving, hpc])
  rw [RelayTask.probe_failed]
  dsimp only
  split
  · next hexpired =>
      refine ⟨fun hstay => (by cases hstay), fun _ _ => ?_⟩
      rw [grace_expired] at hexpired
      exact hexpired
  · next hexpired =>
      refine ⟨fun _ => htail.congr rfl rfl rfl, ?_⟩
      intro hdone hunsent
      -- the task will leave: the condition says that the grace period is over, but it is not
      exact absurd (grace_expired_of_long (hpatient hpc hdone hunsent)) hexpired

/-- Taking the first message out changes nothing else that matters here. -/
theorem pop_front_spec (s : RelayTask) (front : StreamRelayMessage)
    (rest : List StreamRelayMessage) :
    (s.pop_front front rest).buffered = rest ∧
      (s.pop_front front rest).pending_batch = s.pending_batch ∧
      (s.pop_front front rest).upstream_done = s.upstream_done := by
  unfold pop_front
  cases front with
  | Chunk chunk =>
      dsimp only
      split <;> exact ⟨rfl, rfl, rfl⟩
  | ChunkBatch chunks =>
      dsimp only
      split <;> exact ⟨rfl, rfl, rfl⟩
  | _ => exact ⟨rfl, rfl, rfl⟩

theorem Inv.send_answered (h : s.Inv) (hpc : s.pc = .Send) {front : StreamRelayMessage}
    {rest : List StreamRelayMessage} (hfront : s.buffered = front :: rest) :
    (s.send_answered front rest).Inv := by
  have htail : s.Tail := h.tail (by rw [is_leaving, hpc])
  obtain ⟨hbuffered, hpending, hdone⟩ := pop_front_spec s front rest
  -- nothing worth keeping is buffered behind a terminal message, so leaving loses nothing
  have hlast := htail.terminal_last
  rw [hfront, List.pairwise_cons] at hlast
  rw [RelayTask.send_answered]
  split
  · next hterminal =>
      -- the end of the stream was sent: what is left is not worth keeping
      rw [Bool.and_eq_true] at hterminal
      have hupstream : s.upstream_done = true := by
        by_contra hrunning
        have hnot := htail.no_terminal (Bool.eq_false_iff.2 hrunning) front
          (by rw [hfront]; exact List.mem_cons_self)
        rw [hterminal.2] at hnot
        cases hnot
      have hnone : ({ s.pop_front front rest with pc := .Ended } : RelayTask).has_unsent = false := by
        refine has_unsent_eq_false ?_ ?_
        · intro m hm
          dsimp only at hm
          rw [hbuffered] at hm
          exact hlast.1 m hm hterminal.2
        · dsimp only
          rw [hpending]
          exact htail.flushed hupstream
      refine ⟨fun hstay => (by cases hstay), fun _ hunsent => ?_⟩
      rw [hnone] at hunsent
      cases hunsent
  · refine Tail.send_loop ⟨?_, ?_, ?_, ?_⟩
    · rw [hbuffered]
      exact hlast.2
    · rw [hdone, hbuffered]
      intro hrunning m hm
      exact htail.no_terminal hrunning m (by rw [hfront]; exact List.mem_cons_of_mem front hm)
    · rw [hdone, hpending]
      exact htail.flushed
    · rw [hpending]
      exact htail.no_done

/-- Time only makes a disconnection longer. -/
theorem Inv.elapse (h : s.Inv) (ms : ℕ) : Inv { s with now := s.now + ms } := by
  refine ⟨fun hstay => ?_, fun hleaving hunsent => ?_⟩
  · have htail := h.tail hstay
    exact htail.congr rfl rfl rfl
  · have hlong := h.left hleaving hunsent
    rw [disconnected_long] at hlong ⊢
    cases hsince : s.disconnected_since with
    | none =>
        rw [hsince] at hlong
        cases hlong
    | some since =>
        rw [hsince, Option.any_some, decide_eq_true_eq] at hlong
        have hle : since + s.reconnect_grace ≤ s.now + ms := by omega
        exact decide_eq_true hle

theorem Inv.wake_probe (h : s.Inv) {deadline : ℕ} (hpc : s.pc = .ProbeFailed deadline) :
    (if s.upstream_done then { s with pc := .Ended } else s.send_loop).Inv := by
  have hleaving : s.is_leaving = s.upstream_done := by rw [is_leaving, hpc]
  split
  · next hdone =>
      rw [hdone] at hleaving
      exact ⟨fun hstay => (by cases hstay), fun _ hunsent => h.left hleaving hunsent⟩
  · next hrunning =>
      rw [Bool.not_eq_true] at hrunning
      rw [hrunning] at hleaving
      exact (h.tail hleaving).send_loop

theorem Inv.proceed (h : s.Inv) (input : RelayInput) (hpatient : Patient s input) :
    (s.proceed input).Inv := by
  unfold RelayTask.proceed
  split
  · next hpc => exact h.select_branch hpc _
  · next hpc => exact h.probe_answered hpc
  · next hpc => exact h.probe_failed hpc hpatient
  · next deadline hpc =>
      split
      · exact h.wake_probe hpc
      · exact h
  · next hpc =>
      split
      · exact h
      · next front rest hfront => exact h.send_answered hpc hfront
  · next hpc =>
      have htail : s.Tail := h.tail (by rw [is_leaving, hpc])
      exact ⟨fun _ => htail.congr rfl rfl rfl,
        fun hleaving => by cases hleaving⟩
  · next deadline hpc =>
      split
      · exact (h.tail (by rw [is_leaving, hpc])).send_loop
      · exact h
  · exact h

/-- **One step keeps the invariant**, where it meets the condition. -/
theorem Inv.step (h : s.Inv) (input : RelayInput) (hpatient : Patient s input) :
    (s.step input).Inv := by
  cases input with
  | Elapse ms => exact h.elapse ms
  | Cancel =>
      refine ⟨fun hstay => ?_, h.left⟩
      have htail := h.tail hstay
      exact htail.congr rfl rfl rfl
  | _ => exact h.proceed _ hpatient

theorem inv_new (reconnect_grace_secs : ℕ) : (RelayTask.new reconnect_grace_secs).Inv where
  tail _ := ⟨List.Pairwise.nil, fun _ m hm => (by cases hm), fun _ => rfl, fun c hc => by cases hc⟩
  left hleaving := by cases hleaving

end RelayTask

/-! ## 7. Every run -/

/-- **The relay drops nothing before the grace period is over**, in every run in which no
probe fails too early after the upstream is done. -/
theorem relay_gives_up_late (reconnect_grace_secs : ℕ) (inputs : List RelayInput)
    (h : Along RelayTask.step Patient (.new reconnect_grace_secs) inputs) :
    GivesUpLate reconnect_grace_secs inputs := by
  have hinv := run_invariant h (fun _ input hI hC => hI.step input hC)
    (RelayTask.inv_new reconnect_grace_secs)
  intro hended hunsent
  -- the disconnection that excuses the end is the one the task ends in
  refine ⟨_, run_mem_trace _ _, hinv.left ?_ hunsent⟩
  rw [RelayTask.is_leaving, hended]

/-- The router is lost while the provider still answers, and for a whole second: the
relay may give up. -/
theorem relay_gives_up_after_grace :
    GivesUpLate 1 [.Chunk (.Text "text"), .NoChunk, .Unreachable, .Elapse 250, .Wake, .Elapse 1000,
      .Unreachable, .Elapse 250, .Wake] :=
  relay_gives_up_late 1 _ (by decide)

/-- The router is lost when the provider has just finished: half a second later the end
of the stream is dropped, with a grace period of thirty seconds. -/
theorem end_of_stream_dropped :
    ¬ GivesUpLate 30 [.Chunk (.Text "text"), .Chunk (.Done .Stop), .Unreachable, .Elapse 250, .Wake,
      .Unreachable, .Elapse 250, .Wake] := by
  intro hlaw
  have hlong := hlaw (by decide) (by decide)
  exact absurd hlong (by decide)

end Querymt.Remote
