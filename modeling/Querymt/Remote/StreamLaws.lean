/-
`Remote/StreamLaws.lean` -- are the messages of a stream kept, in order, and is its end
final?

Three laws of one routed request, over every run of deliveries, attaches, detaches,
receives and closes. No message is lost but by eviction, and none is sent twice: this
always holds. The order is kept only while no message is handed to a request whose
consumer has room and whose buffer is not empty; and the end of the stream stays its
end only while no channel refuses a message after it. Both conditions are exact.
-/
import Querymt.Remote.StreamRouter

set_option autoImplicit false

open Runs Channels

namespace Querymt.Remote

variable {s : RoutedRequest}

/-! ## 1. Every message is accounted for -/

/-- **Every message is in one place**: sent, evicted from a full buffer, or buffered; the
channels have accepted what was sent; the buffer keeps the order and its bound. -/
structure Accounted (s : RoutedRequest) : Prop where
  distinct : s.handed.Nodup
  accounted : (s.sent.map Prod.snd ++ s.evicted.map Prod.fst ++ s.replay_buffer).Perm s.handed
  linked : s.Linked
  evicted_full : ∀ x ∈ s.evicted, s.replay_buffer_size ≤ x.2
  in_order : s.replay_buffer.Sublist s.handed
  bounded : s.replay_buffer.length ≤ max s.replay_buffer_size 1

/-- The invariant: the law, and the numbers. -/
structure Kept (s : RoutedRequest) : Prop extends Accounted s where
  numbered : s.Numbered

theorem kept_new (replay_buffer_size : ℕ) (capacity : ℕ → ℕ) :
    Kept (.new replay_buffer_size capacity) where
  numbered := rfl
  distinct := List.nodup_nil
  accounted := List.Perm.refl []
  linked := RoutedRequest.linked_new replay_buffer_size capacity
  evicted_full x hx := by cases hx
  in_order := List.Sublist.refl []
  bounded := Nat.zero_le _

/-- Handing a message keeps every message in one place. -/
theorem Kept.deliver (h : Kept s) (message : StreamRelayMessage) :
    Kept (s.deliver_or_buffer message) := by
  obtain ⟨hhanded, hsize⟩ := RoutedRequest.handed_deliver_or_buffer s message
  have hnumbered := h.numbered.step (.Deliver message)
  have hlinked := h.linked.step (.Deliver message)
  have hperm := h.accounted
  have hlast : [s.envelope message].Sublist [s.envelope message] := List.Sublist.refl _
  rcases RoutedRequest.delivers_deliver_or_buffer s message with
    ⟨consumer, -, hsent, hbuffer, hevicted, -⟩ | ⟨-, hfull, hsent, hbuffer, hevicted, -⟩ |
      ⟨-, hfull, hsent, hbuffer, hevicted, -⟩
  · refine ⟨⟨hnumbered.nodup, ?_, hlinked, ?_, ?_, ?_⟩, hnumbered⟩
    · -- the new message stands between the sent and the evicted ones; move it to the end
      rw [hsent, hbuffer, hevicted, hhanded, List.map_append, List.map_singleton, List.append_assoc,
        List.append_assoc]
      rw [List.append_assoc] at hperm
      refine (List.Perm.append_left _ List.perm_append_comm).trans ?_
      rw [← List.append_assoc]
      exact hperm.append_right _
    · rw [hevicted, hsize]
      exact h.evicted_full
    · rw [hbuffer, hhanded]
      exact h.in_order.trans (List.sublist_append_left _ _)
    · rw [hbuffer, hsize]
      exact h.bounded
  · refine ⟨⟨hnumbered.nodup, ?_, hlinked, ?_, ?_, ?_⟩, hnumbered⟩
    · rw [hsent, hbuffer, hevicted, hhanded, ← List.append_assoc]
      exact hperm.append_right _
    · rw [hevicted, hsize]
      exact h.evicted_full
    · rw [hbuffer, hhanded]
      exact h.in_order.append hlast
    · have hlt : s.replay_buffer.length < s.replay_buffer_size := by
        rw [RoutedRequest.is_full, decide_eq_false_iff_not] at hfull
        omega
      rw [hbuffer, hsize, List.length_append, List.length_singleton]
      omega
  · have hle : s.replay_buffer_size ≤ s.replay_buffer.length := by
      rw [RoutedRequest.is_full, decide_eq_true_eq] at hfull
      exact hfull
    refine ⟨⟨hnumbered.nodup, ?_, hlinked, ?_, ?_, ?_⟩, hnumbered⟩
    · -- the first message of the buffer goes from the buffer to the evicted ones
      rw [hsent, hbuffer, hevicted, hhanded, ← List.append_assoc]
      refine List.Perm.append_right _ (List.Perm.trans ?_ hperm)
      rcases s.replay_buffer with _ | ⟨e, rest⟩
      · simp
      · simp
    · rw [hevicted, hsize]
      intro x hx
      rcases List.mem_append.1 hx with hx | hx
      · exact h.evicted_full x hx
      · obtain ⟨e, -, rfl⟩ := List.mem_map.1 hx
        exact hle
    · rw [hbuffer, hhanded]
      exact ((List.tail_sublist _).trans h.in_order).append hlast
    · -- with `replay_buffer_size = 0` the buffer still takes the message: hence the 1
      have hbound := h.bounded
      rw [hbuffer, hsize, List.length_append, List.length_tail, List.length_singleton]
      omega

theorem messages_of_tagged (consumer : ℕ) (done : List Envelope) :
    (done.map (consumer, ·)).map Prod.snd = done := by
  rw [List.map_map]
  exact List.map_id done

/-- The replay moves messages from the buffer to the consumer. -/
theorem Kept.attach (h : Kept s) (consumer : ℕ) : Kept (s.attach consumer) := by
  obtain ⟨⟨done, hmoved, hsent⟩, hhanded, hevicted, hsize, hlinked⟩ :=
    RoutedRequest.replays_attach s consumer
  have hrest : (s.attach consumer).replay_buffer.Sublist s.replay_buffer := by
    rw [hmoved]
    exact List.sublist_append_right _ _
  have hnumbered := h.numbered.step (.Attach consumer)
  refine ⟨⟨hnumbered.nodup, ?_, hlinked h.linked, ?_, ?_, ?_⟩, hnumbered⟩
  · have hperm := h.accounted
    -- `done` moves from the front of the buffer to the end of the sent ones
    rw [hmoved] at hperm
    rw [hsent, hevicted, hhanded, List.map_append, messages_of_tagged]
    refine List.Perm.trans ?_ hperm
    rw [List.append_assoc, List.append_assoc, List.append_assoc]
    refine List.Perm.append_left _ ?_
    rw [← List.append_assoc, ← List.append_assoc]
    exact List.perm_append_comm.append_right _
  · rw [hevicted, hsize]
    exact h.evicted_full
  · rw [hhanded]
    exact hrest.trans h.in_order
  · rw [hsize]
    exact hrest.length_le.trans h.bounded

theorem Kept.step (h : Kept s) (input : RouterInput) : Kept (s.step input) := by
  cases input with
  | Deliver message => exact h.deliver message
  | Attach consumer => exact h.attach consumer
  | Detach =>
      exact ⟨⟨h.distinct, h.accounted, h.linked.step .Detach, h.evicted_full, h.in_order,
        h.bounded⟩, h.numbered⟩
  | Recv consumer =>
      exact ⟨⟨h.distinct, h.accounted, h.linked.step (.Recv consumer), h.evicted_full, h.in_order,
        h.bounded⟩, h.numbered⟩
  | Close consumer =>
      exact ⟨⟨h.distinct, h.accounted, h.linked.step (.Close consumer), h.evicted_full, h.in_order,
        h.bounded⟩, h.numbered⟩

/-- The messages handed over by the inputs of a run. -/
def delivered (inputs : List RouterInput) : List StreamRelayMessage :=
  inputs.filterMap fun
    | .Deliver message => some message
    | _ => none

/-- **What is evicted**: nothing, or, by a message that goes into a full buffer, the first message
of the buffer. -/
def EvictsFirst (s : RoutedRequest) (input : RouterInput) : Prop :=
  (s.step input).evicted = s.evicted ∨
    ∃ first rest message, input = .Deliver message ∧ s.replay_buffer = first :: rest ∧
      s.replay_buffer_size ≤ s.replay_buffer.length ∧
      (s.step input).evicted = s.evicted ++ [(first, s.replay_buffer.length)] ∧
      (s.step input).replay_buffer = rest ++ [s.envelope message]

theorem evictsFirst (s : RoutedRequest) (input : RouterInput) : EvictsFirst s input := by
  cases input with
  | Deliver message =>
      rcases RoutedRequest.delivers_deliver_or_buffer s message with
        ⟨consumer, -, -, -, hevicted, -⟩ | ⟨-, -, -, -, hevicted, -⟩ |
          ⟨-, hfull, -, hbuffer, hevicted, -⟩
      · exact .inl hevicted
      · exact .inl hevicted
      · rw [RoutedRequest.is_full, decide_eq_true_eq] at hfull
        rcases hcase : s.replay_buffer with _ | ⟨first, rest⟩
        · -- only a buffer without any room for messages is full and empty
          refine .inl ?_
          rw [RoutedRequest.step, hevicted, hcase]
          simp
        · refine .inr ⟨first, rest, message, rfl, hcase, hcase ▸ hfull, ?_, ?_⟩
          · rw [RoutedRequest.step, hevicted, hcase]
            rfl
          · rw [RoutedRequest.step, hbuffer, hcase]
            rfl
  | Attach consumer => exact .inl (RoutedRequest.replays_attach s consumer).evicted
  | Detach => exact .inl rfl
  | Recv consumer => exact .inl rfl
  | Close consumer => exact .inl rfl

/-- The messages of a request are those that were handed over, in their order. -/
theorem handed_run (s : RoutedRequest) (inputs : List RouterInput) :
    (run RoutedRequest.step s inputs).handed.map Envelope.message =
      s.handed.map Envelope.message ++ delivered inputs := by
  induction inputs generalizing s with
  | nil => exact (List.append_nil _).symm
  | cons input inputs ih =>
      rw [run_cons, ih]
      cases input with
      | Deliver message =>
          rw [RoutedRequest.step, (RoutedRequest.handed_deliver_or_buffer s message).1,
            List.map_append, List.append_assoc]
          rfl
      | Attach consumer =>
          rw [RoutedRequest.step, (RoutedRequest.replays_attach s consumer).handed]
          rfl
      | Detach => rfl
      | Recv consumer => rfl
      | Close consumer => rfl

/-- **The router conserves messages**, in every state of every run: what was handed over, one
message after the other, is accounted for, and a message is evicted only as the first of a full
buffer. -/
theorem messages_accounted (replay_buffer_size : ℕ) (capacity : ℕ → ℕ)
    (inputs : List RouterInput) :
    (run RoutedRequest.step (.new replay_buffer_size capacity) inputs).handed.map Envelope.message =
        delivered inputs ∧
      Accounted (run RoutedRequest.step (.new replay_buffer_size capacity) inputs) ∧
      Along RoutedRequest.step EvictsFirst (.new replay_buffer_size capacity) inputs := by
  have hkept : Kept (run RoutedRequest.step (.new replay_buffer_size capacity) inputs) :=
    run_invariant (C := fun _ _ => True) (along_of_forall fun _ _ _ => trivial)
      (fun _ input h _ => h.step input) (kept_new replay_buffer_size capacity)
  refine ⟨?_, hkept.toAccounted, along_of_forall fun s input _ => evictsFirst s input⟩
  rw [handed_run]
  rfl

/-! ## 2. The order -/

/-- **In order**: what a consumer has received comes in the order of handing, and nothing
was sent past an earlier message that is still buffered. -/
structure InOrder (s : RoutedRequest) : Prop where
  received : ∀ consumer, (s.channels consumer).received.Sublist s.handed
  not_overtaken : ∀ x ∈ s.sent, ∀ e ∈ s.replay_buffer, x.2.number < e.number

/-- **The condition.** When a message is handed to the request, the buffer is empty or no
attached consumer has room. -/
def KeepsOrder (s : RoutedRequest) : RouterInput → Prop
  | .Deliver _ => s.replay_buffer = [] ∨ s.ready_consumer = none
  | _ => True

/-- The invariant: what was sent, followed by what is buffered, is in the order of
handing. -/
structure Queued (s : RoutedRequest) : Prop where
  queued : (s.sent.map Prod.snd ++ s.replay_buffer).Sublist s.handed
  linked : s.Linked
  numbered : s.Numbered

theorem queued_new (replay_buffer_size : ℕ) (capacity : ℕ → ℕ) :
    Queued (.new replay_buffer_size capacity) :=
  ⟨List.Sublist.refl [], RoutedRequest.linked_new replay_buffer_size capacity, rfl⟩

theorem Queued.in_order (h : Queued s) : InOrder s := by
  constructor
  · intro consumer
    have haccepted : (s.channels consumer).accepted.Sublist (s.sent.map Prod.snd) := by
      rw [h.linked consumer]
      exact List.filter_sublist.map Prod.snd
    exact (((s.channels consumer).received_sublist.trans haccepted).trans
      (List.sublist_append_left _ _)).trans h.queued
  · intro x hx e he
    -- the numbers grow along `handed`, so they grow along what is sent and then buffered
    have hpairwise := h.numbered.pairwise.sublist h.queued
    exact (List.pairwise_append.1 hpairwise).2.2 x.2 (List.mem_map_of_mem hx) e he

/-- Handing a message keeps the order, where it meets the condition. -/
theorem Queued.deliver (h : Queued s) {message : StreamRelayMessage}
    (hok : s.replay_buffer = [] ∨ s.ready_consumer = none) :
    Queued (s.deliver_or_buffer message) := by
  refine ⟨?_, h.linked.step (.Deliver message), h.numbered.step (.Deliver message)⟩
  have hqueued := h.queued
  have hlast : [s.envelope message].Sublist [s.envelope message] := List.Sublist.refl _
  rw [(RoutedRequest.handed_deliver_or_buffer s message).1]
  rcases RoutedRequest.delivers_deliver_or_buffer s message with
    ⟨consumer, hready, hsent, hbuffer, -, -⟩ | ⟨-, -, hsent, hbuffer, -, -⟩ |
      ⟨-, -, hsent, hbuffer, -, -⟩
  · -- sent directly, which the condition allows only with an empty buffer
    have hempty : s.replay_buffer = [] := by
      rcases hok with hempty | hnone
      · exact hempty
      · rw [hready] at hnone
        cases hnone
    rw [hempty, List.append_nil] at hqueued
    rw [hsent, hbuffer, hempty, List.append_nil, List.map_append]
    exact hqueued.append hlast
  · rw [hsent, hbuffer, ← List.append_assoc]
    exact hqueued.append hlast
  · rw [hsent, hbuffer, ← List.append_assoc]
    -- an eviction only thins the list out
    exact (((List.Sublist.refl _).append (List.tail_sublist _)).trans hqueued).append hlast

/-- The replay only moves the border between sent and buffered. -/
theorem Queued.attach (h : Queued s) (consumer : ℕ) : Queued (s.attach consumer) := by
  obtain ⟨⟨done, hmoved, hsent⟩, hhanded, -, -, hlinked⟩ :=
    RoutedRequest.replays_attach s consumer
  refine ⟨?_, hlinked h.linked, h.numbered.step (.Attach consumer)⟩
  have hqueued := h.queued
  rw [hmoved] at hqueued
  rw [hsent, hhanded, List.map_append, messages_of_tagged, List.append_assoc]
  exact hqueued

theorem Queued.step (h : Queued s) (input : RouterInput) (hok : KeepsOrder s input) :
    Queued (s.step input) := by
  cases input with
  | Deliver message => exact h.deliver hok
  | Attach consumer => exact h.attach consumer
  | Detach => exact ⟨h.queued, h.linked.step .Detach, h.numbered⟩
  | Recv consumer => exact ⟨h.queued, h.linked.step (.Recv consumer), h.numbered⟩
  | Close consumer => exact ⟨h.queued, h.linked.step (.Close consumer), h.numbered⟩

/-- **One step keeps the order exactly where it meets the condition.** -/
theorem Queued.in_order_step (h : Queued s) (input : RouterInput) :
    InOrder (s.step input) ↔ KeepsOrder s input := by
  constructor
  · intro hlaw
    cases input with
    | Deliver message =>
        rcases RoutedRequest.delivers_deliver_or_buffer s message with
          ⟨consumer, -, hsent, hbuffer, -, -⟩ | ⟨hready, -⟩ | ⟨hready, -⟩
        · refine .inl (List.eq_nil_iff_forall_not_mem.2 ?_)
          intro e he
          -- the new message has overtaken the buffered one
          have hlt : s.handed.length < e.number := by
            refine hlaw.not_overtaken (consumer, s.envelope message) ?_ e ?_
            · rw [RoutedRequest.step, hsent]
              exact List.mem_append_right _ (List.mem_singleton_self _)
            · rw [RoutedRequest.step, hbuffer]
              exact he
          have hmem : e ∈ s.handed := h.queued.subset (List.mem_append_right _ he)
          have hlt' := h.numbered.lt_length hmem
          omega
        · exact .inr hready
        · exact .inr hready
    | Attach consumer => trivial
    | Detach => trivial
    | Recv consumer => trivial
    | Close consumer => trivial
  · -- the other direction needs no case split: the invariant gives the law
    intro hok
    exact (h.step input hok).in_order

/-- **The router delivers in order after every step, exactly when no message is handed
to a request with a buffered message whose consumer has room.** -/
theorem delivers_in_order_iff (replay_buffer_size : ℕ) (capacity : ℕ → ℕ)
    (inputs : List RouterInput) :
    Along RoutedRequest.step (fun s input => InOrder (s.step input))
        (.new replay_buffer_size capacity) inputs ↔
      Along RoutedRequest.step KeepsOrder (.new replay_buffer_size capacity) inputs := by
  refine along_iff_of_invariant (fun s input h => Queued.in_order_step h input) ?_
    (queued_new replay_buffer_size capacity)
  intro s input h hlaw
  exact h.step input ((h.in_order_step input).1 hlaw)

/-- The channel holds one message. The second message finds it full and is buffered, the
third finds it empty again and is sent; when the consumer attaches once more, it gets the
second one after the third. -/
theorem message_overtaken :
    ¬ Along RoutedRequest.step (fun s input => InOrder (s.step input)) (.new 10 fun _ => 1)
        [.Attach 0, .Deliver (.Chunk (.Text "first")), .Deliver (.Chunk (.Text "second")), .Recv 0,
          .Deliver (.Chunk (.Text "third")), .Recv 0, .Attach 0, .Recv 0] ∧
    ¬ InOrder (run RoutedRequest.step (.new 10 fun _ => 1)
        [.Attach 0, .Deliver (.Chunk (.Text "first")), .Deliver (.Chunk (.Text "second")), .Recv 0,
          .Deliver (.Chunk (.Text "third")), .Recv 0, .Attach 0, .Recv 0]) := by
  constructor
  · rintro ⟨-, -, -, -, hlaw, -⟩
    have hlt := hlaw.not_overtaken (0, ⟨2, .Chunk (.Text "third")⟩) (by decide)
      ⟨1, .Chunk (.Text "second")⟩ (by decide)
    exact absurd hlt (by decide)
  · intro hlaw
    exact absurd (hlaw.received 0) (by decide)

/-! ## 3. The end -/

/-- A terminal message has been handed to the request. -/
def RoutedRequest.has_ended (s : RoutedRequest) : Bool :=
  s.handed.any fun e => relay_message_is_terminal e.message

/-- **The end stays the end**: once a terminal message was handed to the request, its
phase is `Completed` or `Failed`. -/
def StaysOver (s : RoutedRequest) : Prop := s.has_ended = true → s.phase.is_over = true

/-- **The condition.** After the end, no channel refuses a message: a message that is not
terminal finds no consumer attached or one with room, and a consumer that attaches has
room for the whole buffer. -/
def EndsCleanly (s : RoutedRequest) : RouterInput → Prop
  | .Deliver message => s.has_ended = true → relay_message_is_terminal message = false →
      s.consumer_tx = none ∨ s.ready_consumer ≠ none
  | .Attach consumer => s.has_ended = true →
      (s.channels consumer).has_room s.replay_buffer.length = true
  | _ => True

theorem phase_buffer_message_of_terminal {e : Envelope}
    (h : relay_message_is_terminal e.message = true) :
    (s.buffer_message e).phase.is_over = true := by
  obtain ⟨phase, hphase, hover⟩ := terminal_request_phase_of_terminal h
  rw [RoutedRequest.buffer_message]
  dsimp only
  rw [if_pos h, hphase]
  exact hover

theorem phase_buffer_message_of_not_terminal {e : Envelope}
    (h : relay_message_is_terminal e.message = false) : (s.buffer_message e).phase = s.phase := by
  rw [RoutedRequest.buffer_message]
  dsimp only
  rw [if_neg (by simp [h])]

/-- A terminal message ends the stream, wherever it goes. -/
theorem phase_deliver_of_terminal {message : StreamRelayMessage}
    (h : relay_message_is_terminal message = true) :
    (s.deliver_or_buffer message).phase.is_over = true := by
  rw [RoutedRequest.deliver_or_buffer]
  split
  · exact phase_buffer_message_of_terminal h
  · split
    · obtain ⟨phase, hphase, hover⟩ := terminal_request_phase_of_terminal h
      rw [if_pos h, hphase]
      exact hover
    · exact phase_buffer_message_of_terminal h
    · exact phase_buffer_message_of_terminal h

theorem is_over_on_message {phase : RequestPhase} (h : phase.is_over = true)
    (message : StreamRelayMessage) : (phase.on_message message).is_over = true := by
  have hne : phase ≠ .AwaitingStream := by
    rintro rfl
    cases h
  cases message with
  | Chunk chunk =>
      rw [RequestPhase.on_message, if_neg hne]
      exact h
  | ChunkBatch chunks =>
      rw [RequestPhase.on_message, if_neg hne]
      exact h
  | ProviderError error => rfl
  | TransportFailed error => rfl
  | _ => exact h

/-- Another message keeps the end exactly when no channel refuses it. -/
theorem phase_deliver_of_not_terminal {message : StreamRelayMessage} (hover : s.phase.is_over = true)
    (h : relay_message_is_terminal message = false) :
    (s.deliver_or_buffer message).phase.is_over = true ↔
      s.consumer_tx = none ∨ s.ready_consumer ≠ none := by
  -- the phase is written once before the send, and again where the channel refuses
  have hhand : (s.hand message).phase.is_over = true := is_over_on_message hover message
  rw [RoutedRequest.deliver_or_buffer]
  split
  · next hnone =>
      rw [phase_buffer_message_of_not_terminal h]
      exact iff_of_true hhand (.inl hnone)
  · next consumer hsome =>
      split
      · next hok =>
          rw [if_neg (by simp [h])]
          exact iff_of_true hhand (.inr (by simp [RoutedRequest.ready_consumer, hsome, hok]))
      · next hfull =>
          rw [phase_buffer_message_of_not_terminal h]
          refine iff_of_false (by simp [RequestPhase.is_over]) ?_
          simp [RoutedRequest.ready_consumer, hsome, hfull]
      · next hclosed =>
          rw [phase_buffer_message_of_not_terminal h]
          refine iff_of_false (by simp [RequestPhase.is_over]) ?_
          simp [RoutedRequest.ready_consumer, hsome, hclosed]

/-- The replay sends the whole buffer and leaves the phase alone, or is refused and
leaves `ConsumerDisconnected` and a buffer that is not empty. -/
theorem replay_phase (consumer : ℕ) (buffer : List Envelope) (s : RoutedRequest)
    (terminal_replayed : Bool) :
    let s' := (RoutedRequest.replay consumer buffer s terminal_replayed).1
    if (s.channels consumer).has_room buffer.length then
      s'.replay_buffer = [] ∧ s'.phase = s.phase
    else s'.replay_buffer ≠ [] ∧ s'.phase = .ConsumerDisconnected := by
  induction buffer generalizing s terminal_replayed with
  | nil =>
      rw [if_pos (by simp [Channel.has_room])]
      exact ⟨rfl, rfl⟩
  | cons e rest ih =>
      have hroom := (s.channels consumer).has_room_succ e rest.length
      rw [List.length_cons, RoutedRequest.replay]
      split
      · next hok =>
          have hpush : (s.send consumer e).channels consumer = (s.channels consumer).push e := by
            dsimp only [RoutedRequest.send]
            rw [Function.update_self]
          -- the rest is replayed into the channel with one message more
          have hrest := ih (s.send consumer e) (relay_message_is_terminal e.message)
          rw [hpush] at hrest
          by_cases hmore : ((s.channels consumer).push e).has_room rest.length = true
          · rw [if_pos hmore] at hrest
            rw [if_pos (hroom.2 ⟨hok, hmore⟩)]
            exact hrest
          · rw [if_neg hmore] at hrest
            rw [if_neg fun hall => hmore (hroom.1 hall).2]
            exact hrest
      · next hfull =>
          rw [if_neg fun hall => by rw [(hroom.1 hall).1] at hfull; cases hfull]
          exact ⟨List.cons_ne_nil _ _, rfl⟩
      · next hclosed =>
          rw [if_neg fun hall => by rw [(hroom.1 hall).1] at hclosed; cases hclosed]
          exact ⟨List.cons_ne_nil _ _, rfl⟩

/-- A consumer that attaches keeps the end exactly when it has room for the buffer. -/
theorem phase_attach (consumer : ℕ) (hover : s.phase.is_over = true) :
    (s.attach consumer).phase.is_over = true ↔
      (s.channels consumer).has_room s.replay_buffer.length = true := by
  have hne : s.phase ≠ .ConsumerDisconnected := by
    intro hphase
    rw [hphase] at hover
    cases hover
  have hterminal : s.phase.is_terminal = true := by
    cases hphase : s.phase <;> rw [hphase] at hover <;> first | rfl | cases hover
  have hopen : (s.open_consumer consumer).phase = s.phase := if_neg hne
  -- a terminal phase makes the last check of the handler void, so the replay decides
  have hreplay := replay_phase consumer s.replay_buffer (s.open_consumer consumer) false
  have hphase : (s.attach consumer).phase =
      (RoutedRequest.replay consumer s.replay_buffer (s.open_consumer consumer) false).1.phase := by
    rw [RoutedRequest.attach]
    dsimp only
    rw [hterminal, Bool.not_true, Bool.and_false]
    exact if_neg Bool.false_ne_true
  rw [hphase]
  have hsame : (s.open_consumer consumer).channels = s.channels := rfl
  dsimp only at hreplay
  rw [hsame, hopen] at hreplay
  by_cases hroom : (s.channels consumer).has_room s.replay_buffer.length = true
  · rw [if_pos hroom] at hreplay
    rw [hreplay.2]
    exact iff_of_true hover hroom
  · rw [if_neg hroom] at hreplay
    rw [hreplay.2]
    exact iff_of_false (by simp [RequestPhase.is_over]) hroom

theorem has_ended_deliver (s : RoutedRequest) (message : StreamRelayMessage) :
    (s.deliver_or_buffer message).has_ended =
      (s.has_ended || relay_message_is_terminal message) := by
  rw [RoutedRequest.has_ended, (RoutedRequest.handed_deliver_or_buffer s message).1, List.any_append,
    List.any_cons, List.any_nil, Bool.or_false]
  rfl

theorem has_ended_attach (s : RoutedRequest) (consumer : ℕ) :
    (s.attach consumer).has_ended = s.has_ended := by
  rw [RoutedRequest.has_ended, (RoutedRequest.replays_attach s consumer).handed]
  rfl

theorem is_over_detach (hover : s.phase.is_over = true) : s.detach.phase.is_over = true := by
  rw [RoutedRequest.detach]
  dsimp only
  cases hphase : s.phase <;> rw [hphase] at hover <;> first | rfl | cases hover

/-- **One step keeps the end exactly where it meets the condition.** -/
theorem StaysOver.step_iff (h : StaysOver s) (input : RouterInput) :
    StaysOver (s.step input) ↔ EndsCleanly s input := by
  cases input with
  | Deliver message =>
      rw [StaysOver, RoutedRequest.step, has_ended_deliver]
      cases hterminal : relay_message_is_terminal message with
      | true =>
          refine iff_of_true (fun _ => phase_deliver_of_terminal hterminal) ?_
          intro _ hnot
          rw [hterminal] at hnot
          cases hnot
      | false =>
          rw [Bool.or_false]
          constructor
          · intro hlaw hended _
            exact (phase_deliver_of_not_terminal (h hended) hterminal).1 (hlaw hended)
          · intro hok hended
            exact (phase_deliver_of_not_terminal (h hended) hterminal).2 (hok hended hterminal)
  | Attach consumer =>
      rw [StaysOver, RoutedRequest.step, has_ended_attach]
      constructor
      · intro hlaw hended
        exact (phase_attach consumer (h hended)).1 (hlaw hended)
      · intro hok hended
        exact (phase_attach consumer (h hended)).2 (hok hended)
  | Detach => exact iff_of_true (fun hended => is_over_detach (h hended)) trivial
  | Recv consumer => exact iff_of_true h trivial
  | Close consumer => exact iff_of_true h trivial

/-- **A stream that has ended stays ended after every step, exactly when no channel
refuses a message after the end.** -/
theorem stays_over_iff (replay_buffer_size : ℕ) (capacity : ℕ → ℕ) (inputs : List RouterInput) :
    Along RoutedRequest.step (fun s input => StaysOver (s.step input))
        (.new replay_buffer_size capacity) inputs ↔
      Along RoutedRequest.step EndsCleanly (.new replay_buffer_size capacity) inputs := by
  have hnew : StaysOver (.new replay_buffer_size capacity) := fun hended => by cases hended
  exact along_iff_of_invariant (fun s input h => StaysOver.step_iff h input)
    (fun s input _ hlaw => hlaw) hnew

/-- The end of the stream is buffered; the consumer that attaches has room for one of the
two messages, and the request counts as disconnected. When it attaches again, the stream
is `Streaming`. -/
theorem end_forgotten :
    ¬ StaysOver (run RoutedRequest.step (.new 10 fun _ => 1)
        [.Deliver (.Chunk (.Text "text")), .Deliver (.Chunk (.Done .Stop)), .Attach 0]) ∧
    ¬ StaysOver (run RoutedRequest.step (.new 10 fun _ => 1)
        [.Deliver (.Chunk (.Text "text")), .Deliver (.Chunk (.Done .Stop)), .Attach 0, .Recv 0,
          .Attach 0]) := by
  constructor
  · intro hlaw
    exact absurd (hlaw (by decide)) (by decide)
  · intro hlaw
    exact absurd (hlaw (by decide)) (by decide)

end Querymt.Remote
