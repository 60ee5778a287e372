/-
`Remote/StreamRouter.lean` -- a request of the stream router.

Mirrors `RoutedRequest::deliver_or_buffer` and the handlers of `AttachStreamConsumer` and
`DetachStreamConsumer` (`provider_stream_router.rs` of `querymt-remote`), for one
registered request from its registration until it is removed. The consumers are bounded
channels; a consumer attaches by sending one of them, perhaps the same one again, and
receives or closes it whenever it likes.

# Two paths

A message goes straight into the channel of the attached consumer, or, when there is none
or the channel refuses it, into the replay buffer. A full channel leaves the consumer
attached: the next message tries the channel again, whatever is in the buffer.

The request is kept with what happened to it so far: the messages handed to it, each with
its number (`Envelope`), those sent and to whom, and those evicted with the length of the
buffer at that moment. The code reads none of it.
-/
import Querymt.Library.Channels
import Querymt.Library.Runs
import Querymt.Remote.Protocol

set_option autoImplicit false

open Runs Channels

namespace Querymt.Remote

/-! ## 1. The request -/

/-- A message and its number among those handed to the request. -/
structure Envelope where
  number : ℕ
  message : StreamRelayMessage
  deriving DecidableEq

structure RoutedRequest where
  phase : RequestPhase
  /-- the channel of the attached consumer -/
  consumer_tx : Option ℕ
  replay_buffer : List Envelope
  replay_buffer_size : ℕ
  channels : ℕ → Channel Envelope
  handed : List Envelope
  sent : List (ℕ × Envelope)
  evicted : List (Envelope × ℕ)

/-- A request that was just registered; the channels have any capacity. -/
def RoutedRequest.new (replay_buffer_size : ℕ) (capacity : ℕ → ℕ) : RoutedRequest :=
  ⟨.AwaitingStream, none, [], replay_buffer_size, fun consumer => .new (capacity consumer), [], [],
    []⟩

/-- What a message does to the phase before it is sent anywhere. -/
def RequestPhase.on_message (phase : RequestPhase) : StreamRelayMessage → RequestPhase
  | .Chunk _ | .ChunkBatch _ => if phase = .AwaitingStream then .Streaming else phase
  | .ProviderError _ | .TransportFailed _ => .Failed
  | _ => phase

namespace RoutedRequest

variable (s : RoutedRequest)

/-- The channel accepts the message. -/
def send (consumer : ℕ) (e : Envelope) : RoutedRequest :=
  { s with
    channels := Function.update s.channels consumer ((s.channels consumer).push e)
    sent := s.sent ++ [(consumer, e)] }

/-- The buffer has its full size. -/
def is_full : Bool := decide (s.replay_buffer_size ≤ s.replay_buffer.length)

/-- A full buffer loses its first message. -/
def make_room : RoutedRequest :=
  if s.is_full then
    { s with
      replay_buffer := s.replay_buffer.tail
      evicted := s.evicted ++ s.replay_buffer.head?.toList.map (·, s.replay_buffer.length) }
  else s

/-- The second half of `deliver_or_buffer`: the message goes to the buffer. -/
def buffer_message (e : Envelope) : RoutedRequest :=
  { s.make_room with
    replay_buffer := s.make_room.replay_buffer ++ [e]
    phase :=
      if relay_message_is_terminal e.message then
        (terminal_request_phase e.message).getD s.phase
      else s.phase }

/-- The number the next message gets. -/
def envelope (message : StreamRelayMessage) : Envelope := ⟨s.handed.length, message⟩

/-- The request has been handed the message, which is nowhere yet. -/
def hand (message : StreamRelayMessage) : RoutedRequest :=
  { s with phase := s.phase.on_message message, handed := s.handed ++ [s.envelope message] }

def deliver_or_buffer (message : StreamRelayMessage) : RoutedRequest :=
  let e := s.envelope message
  let handed := s.hand message
  match s.consumer_tx with
  -- `Completed` and `Failed` are set by `buffer_message` when the message is terminal
  | none => handed.buffer_message e
  | some consumer =>
      match (s.channels consumer).try_send with
      | .Ok =>
          if relay_message_is_terminal message then
            -- nothing comes after a terminal message, so the consumer is let go
            { handed.send consumer e with
              phase := (terminal_request_phase message).getD handed.phase
              consumer_tx := none }
          else handed.send consumer e
      -- the phase says disconnected, but `consumer_tx` stays: the next message tries the channel
      -- first
      | .Full => { handed with phase := .ConsumerDisconnected }.buffer_message e
      | .Closed =>
          { handed with consumer_tx := none, phase := .ConsumerDisconnected }.buffer_message e

/-- The replay loop of the attach handler, over the messages it pops. The flag says
whether the last one that was popped is terminal. -/
def replay (consumer : ℕ) : List Envelope → RoutedRequest → Bool → RoutedRequest × Bool
  -- the `while let` has run dry
  | [], s, terminal_replayed => ({ s with replay_buffer := [] }, terminal_replayed)
  | e :: rest, s, _ =>
      match (s.channels consumer).try_send with
      | .Ok => replay consumer rest (s.send consumer e) (relay_message_is_terminal e.message)
      | .Full =>
          -- `push_front` and `break`: set whatever the phase was, also when it was terminal
          ({ s with replay_buffer := e :: rest, phase := .ConsumerDisconnected },
            relay_message_is_terminal e.message)
      | .Closed =>
          ({ s with
              replay_buffer := e :: rest
              consumer_tx := none
              phase := .ConsumerDisconnected },
            relay_message_is_terminal e.message)

/-- The handler of `AttachStreamConsumer` before the replay. -/
def open_consumer (consumer : ℕ) : RoutedRequest :=
  { s with
    consumer_tx := some consumer
    phase :=
      if s.phase = .ConsumerDisconnected then
        if s.replay_buffer.isEmpty then .AwaitingStream else .Streaming
      else s.phase }

/-- `Message<AttachStreamConsumer>`. -/
def attach (consumer : ℕ) : RoutedRequest :=
  -- read before `open_consumer`, which leaves a terminal phase alone
  let terminal_state := s.phase.is_terminal
  let replayed := replay consumer s.replay_buffer (s.open_consumer consumer) false
  let emptied := replayed.1.replay_buffer.isEmpty
  { replayed.1 with
    -- this check has no counterpart where the replay fails
    phase := if emptied && !terminal_state then .Streaming else replayed.1.phase
    consumer_tx := if replayed.2 && emptied then none else replayed.1.consumer_tx }

/-- `Message<DetachStreamConsumer>`. -/
def detach : RoutedRequest :=
  { s with
    consumer_tx := none
    phase := if s.phase.is_terminal then s.phase else .ConsumerDisconnected }

end RoutedRequest

inductive RouterInput where
  | Deliver (message : StreamRelayMessage)
  | Attach (consumer : ℕ)
  | Detach
  /-- the consumer receives a message -/
  | Recv (consumer : ℕ)
  /-- the consumer closes its channel -/
  | Close (consumer : ℕ)
  deriving DecidableEq

def RoutedRequest.step (s : RoutedRequest) : RouterInput → RoutedRequest
  | .Deliver message => s.deliver_or_buffer message
  | .Attach consumer => s.attach consumer
  | .Detach => s.detach
  | .Recv consumer =>
      { s with channels := Function.update s.channels consumer (s.channels consumer).recv }
  | .Close consumer =>
      { s with channels := Function.update s.channels consumer (s.channels consumer).close }

/-- The attached consumer, if there is one and its channel has room. -/
def RoutedRequest.ready_consumer (s : RoutedRequest) : Option ℕ :=
  s.consumer_tx.filter fun consumer => decide ((s.channels consumer).try_send = .Ok)

/-! ## 2. Where the messages go -/

namespace RoutedRequest

variable {s : RoutedRequest}

/-- **What handing a message does to the traffic**: it is sent to the consumer that is
ready, or it goes to the end of the buffer, whose first message is evicted when the
buffer is full. -/
inductive Delivers (s s' : RoutedRequest) (e : Envelope) : Prop where
  | sent (consumer : ℕ) (hready : s.ready_consumer = some consumer)
      (hsent : s'.sent = s.sent ++ [(consumer, e)]) (hbuffer : s'.replay_buffer = s.replay_buffer)
      (hevicted : s'.evicted = s.evicted)
      (hchannels : s'.channels =
        Function.update s.channels consumer ((s.channels consumer).push e))
  | buffered (hready : s.ready_consumer = none) (hfull : s.is_full = false)
      (hsent : s'.sent = s.sent) (hbuffer : s'.replay_buffer = s.replay_buffer ++ [e])
      (hevicted : s'.evicted = s.evicted) (hchannels : s'.channels = s.channels)
  | evicting (hready : s.ready_consumer = none) (hfull : s.is_full = true)
      (hsent : s'.sent = s.sent) (hbuffer : s'.replay_buffer = s.replay_buffer.tail ++ [e])
      (hevicted : s'.evicted =
        s.evicted ++ s.replay_buffer.head?.toList.map (·, s.replay_buffer.length))
      (hchannels : s'.channels = s.channels)

theorem delivers_buffer_message {s₀ : RoutedRequest} {e : Envelope}
    (hready : s₀.ready_consumer = none) (hsent : s.sent = s₀.sent)
    (hbuffer : s.replay_buffer = s₀.replay_buffer)
    (hsize : s.replay_buffer_size = s₀.replay_buffer_size) (hevicted : s.evicted = s₀.evicted)
    (hchannels : s.channels = s₀.channels) : Delivers s₀ (s.buffer_message e) e := by
  -- `s` is `s₀` with another phase or consumer, which the buffer does not look at
  have hfull : s.is_full = s₀.is_full := by rw [is_full, is_full, hbuffer, hsize]
  cases hcase : s₀.is_full with
  | false =>
      refine .buffered hready hcase ?_ ?_ ?_ ?_ <;>
        simp [buffer_message, make_room, hfull, hcase, hsent, hbuffer, hevicted, hchannels]
  | true =>
      refine .evicting hready hcase ?_ ?_ ?_ ?_ <;>
        simp [buffer_message, make_room, hfull, hcase, hsent, hbuffer, hevicted, hchannels]

theorem delivers_deliver_or_buffer (s : RoutedRequest) (message : StreamRelayMessage) :
    Delivers s (s.deliver_or_buffer message) (s.envelope message) := by
  rw [deliver_or_buffer]
  split
  · next hnone => exact delivers_buffer_message (by simp [ready_consumer, hnone]) rfl rfl rfl rfl rfl
  · next consumer hsome =>
      split
      · next hok =>
          have hready : s.ready_consumer = some consumer := by simp [ready_consumer, hsome, hok]
          split
          · exact .sent consumer hready rfl rfl rfl rfl
          · exact .sent consumer hready rfl rfl rfl rfl
      · next hfull =>
          exact delivers_buffer_message (by simp [ready_consumer, hsome, hfull]) rfl rfl rfl rfl rfl
      · next hclosed =>
          exact delivers_buffer_message (by simp [ready_consumer, hsome, hclosed]) rfl rfl rfl rfl
            rfl

theorem handed_buffer_message (s : RoutedRequest) (e : Envelope) :
    (s.buffer_message e).handed = s.handed ∧
      (s.buffer_message e).replay_buffer_size = s.replay_buffer_size := by
  cases hfull : s.is_full <;> simp [buffer_message, make_room, hfull]

theorem handed_deliver_or_buffer (s : RoutedRequest) (message : StreamRelayMessage) :
    (s.deliver_or_buffer message).handed = s.handed ++ [s.envelope message] ∧
      (s.deliver_or_buffer message).replay_buffer_size = s.replay_buffer_size := by
  rw [deliver_or_buffer]
  split
  · exact handed_buffer_message _ _
  · split
    · split <;> exact ⟨rfl, rfl⟩
    · exact handed_buffer_message _ _
    · exact handed_buffer_message _ _

/-- What the channels have accepted is what was sent. -/
def Linked (s : RoutedRequest) : Prop :=
  ∀ consumer, (s.channels consumer).accepted =
    (s.sent.filter fun x => decide (x.1 = consumer)).map Prod.snd

theorem Linked.congr {s' : RoutedRequest} (h : s.Linked) (hchannels : s'.channels = s.channels)
    (hsent : s'.sent = s.sent) : s'.Linked := by
  intro consumer
  rw [hchannels, hsent]
  exact h consumer

theorem Linked.send (h : s.Linked) (consumer : ℕ) (e : Envelope) : (s.send consumer e).Linked := by
  intro other
  rw [RoutedRequest.send]
  dsimp only
  by_cases hother : other = consumer
  · subst hother
    rw [Function.update_self, Channel.accepted_push, h other, List.filter_append,
      List.filter_cons_of_pos (by simp), List.map_append]
    rfl
  · rw [Function.update_of_ne hother, h other, List.filter_append,
      List.filter_cons_of_neg (by simp [Ne.symm hother]), List.filter_nil, List.append_nil]

/-- A step of a consumer on its channel that accepts nothing. -/
theorem Linked.update (h : s.Linked) (consumer : ℕ) {ch : Channel Envelope}
    (hch : ch.accepted = (s.channels consumer).accepted) :
    Linked { s with channels := Function.update s.channels consumer ch } := by
  intro other
  dsimp only
  by_cases hother : other = consumer
  · subst hother
    rw [Function.update_self, hch]
    exact h other
  · rw [Function.update_of_ne hother]
    exact h other

/-- **What the replay does to the traffic**: a first part of the buffer is sent, in
order, and the rest stays. -/
structure Replays (s s' : RoutedRequest) (consumer : ℕ) (buffer : List Envelope) : Prop where
  moved : ∃ done, buffer = done ++ s'.replay_buffer ∧ s'.sent = s.sent ++ done.map (consumer, ·)
  handed : s'.handed = s.handed
  evicted : s'.evicted = s.evicted
  size : s'.replay_buffer_size = s.replay_buffer_size
  linked : s.Linked → s'.Linked

theorem replays_replay (consumer : ℕ) (buffer : List Envelope) (s : RoutedRequest)
    (terminal_replayed : Bool) :
    Replays s (replay consumer buffer s terminal_replayed).1 consumer buffer := by
  -- on the messages still to pop; the two refusals stop with nothing more sent
  induction buffer generalizing s terminal_replayed with
  | nil => exact ⟨⟨[], rfl, (List.append_nil _).symm⟩, rfl, rfl, rfl, fun h => h.congr rfl rfl⟩
  | cons e rest ih =>
      rw [replay]
      split
      · obtain ⟨⟨done, hbuffer, hsent⟩, hhanded, hevicted, hsize, hlinked⟩ :=
          ih (s.send consumer e) (relay_message_is_terminal e.message)
        refine ⟨⟨e :: done, ?_, ?_⟩, hhanded, hevicted, hsize,
          fun h => hlinked (h.send consumer e)⟩
        · rw [List.cons_append, ← hbuffer]
        · rw [hsent, RoutedRequest.send, List.append_assoc]
          rfl
      · exact ⟨⟨[], rfl, (List.append_nil _).symm⟩, rfl, rfl, rfl, fun h => h.congr rfl rfl⟩
      · exact ⟨⟨[], rfl, (List.append_nil _).symm⟩, rfl, rfl, rfl, fun h => h.congr rfl rfl⟩

theorem replays_attach (s : RoutedRequest) (consumer : ℕ) :
    Replays s (s.attach consumer) consumer s.replay_buffer := by
  obtain ⟨hmoved, hhanded, hevicted, hsize, hlinked⟩ :=
    replays_replay consumer s.replay_buffer (s.open_consumer consumer) false
  exact ⟨hmoved, hhanded, hevicted, hsize, fun h => (hlinked (h.congr rfl rfl)).congr rfl rfl⟩

theorem Linked.step (h : s.Linked) (input : RouterInput) : (s.step input).Linked := by
  cases input with
  | Deliver message =>
      rcases delivers_deliver_or_buffer s message with
        ⟨consumer, -, hsent, -, -, hchannels⟩ | ⟨-, -, hsent, -, -, hchannels⟩ |
          ⟨-, -, hsent, -, -, hchannels⟩
      · exact (h.send consumer (s.envelope message)).congr hchannels hsent
      · exact h.congr hchannels hsent
      · exact h.congr hchannels hsent
  | Attach consumer => exact (replays_attach s consumer).linked h
  | Detach => exact h.congr rfl rfl
  | Recv consumer => exact h.update consumer (Channel.accepted_recv _)
  | Close consumer => exact h.update consumer (Channel.accepted_close _)

theorem linked_new (replay_buffer_size : ℕ) (capacity : ℕ → ℕ) :
    (RoutedRequest.new replay_buffer_size capacity).Linked := fun _ => rfl

/-- The messages handed to the request are numbered in order. -/
def Numbered (s : RoutedRequest) : Prop := s.handed.map Envelope.number = List.range s.handed.length

theorem Numbered.step (h : s.Numbered) (input : RouterInput) : (s.step input).Numbered := by
  cases input with
  | Deliver message =>
      have hhanded := (handed_deliver_or_buffer s message).1
      rw [Numbered, RoutedRequest.step, hhanded, List.map_append, h, List.length_append,
        List.length_singleton, List.range_succ]
      rfl
  | Attach consumer =>
      rw [Numbered, RoutedRequest.step, (replays_attach s consumer).handed]
      exact h
  | Detach => exact h
  | Recv consumer => exact h
  | Close consumer => exact h

theorem Numbered.pairwise (h : s.Numbered) : s.handed.Pairwise fun e e' => e.number < e'.number := by
  rw [← List.pairwise_map, h]
  exact List.pairwise_lt_range

theorem Numbered.lt_length (h : s.Numbered) {e : Envelope} (he : e ∈ s.handed) :
    e.number < s.handed.length := by
  have hmem := List.mem_map_of_mem (f := Envelope.number) he
  rw [h, List.mem_range] at hmem
  exact hmem

theorem Numbered.nodup (h : s.Numbered) : s.handed.Nodup :=
  List.Nodup.of_map Envelope.number (by rw [h]; exact List.nodup_range)

end RoutedRequest

end Querymt.Remote
