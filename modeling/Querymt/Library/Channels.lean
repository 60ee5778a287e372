/-
`Channels.lean` -- bounded FIFO channels with one receiver.

A channel holds at most `capacity` messages. A message is refused when the channel is
closed or full, and is received in the order it was accepted in. What was received and
what is still queued are, together, everything that was ever accepted (`accepted`): the
three operations either append to that list or leave it alone.
-/
import Mathlib.Data.List.Infix

set_option autoImplicit false

namespace Channels

variable {α : Type*}

structure Channel (α : Type*) where
  capacity : ℕ
  queue : List α
  closed : Bool
  received : List α

/-- The answer to an attempt to send without waiting. -/
inductive TrySend where
  | Ok
  | Full
  | Closed
  deriving DecidableEq

namespace Channel

def new (capacity : ℕ) : Channel α := ⟨capacity, [], false, []⟩

variable (ch : Channel α)

def try_send : TrySend :=
  if ch.closed then .Closed else if ch.capacity ≤ ch.queue.length then .Full else .Ok

/-- The channel after it accepted a message. -/
def push (a : α) : Channel α := { ch with queue := ch.queue ++ [a] }

/-- The receiver takes the first message, if there is one. -/
def recv : Channel α :=
  match ch.queue with
  | [] => ch
  | a :: queue => { ch with queue := queue, received := ch.received ++ [a] }

def close : Channel α := { ch with closed := true }

/-- Everything the channel ever accepted, in order. -/
def accepted : List α := ch.received ++ ch.queue

/-- The channel would accept `n` messages one after another. -/
def has_room (n : ℕ) : Bool :=
  n = 0 || (!ch.closed && decide (ch.queue.length + n ≤ ch.capacity))

@[simp] theorem accepted_push (a : α) : (ch.push a).accepted = ch.accepted ++ [a] := by
  simp [accepted, push]

@[simp] theorem accepted_recv : ch.recv.accepted = ch.accepted := by
  rw [recv]
  split
  · rfl
  · next a queue hqueue => simp [accepted, hqueue]

@[simp] theorem accepted_close : ch.close.accepted = ch.accepted := rfl

theorem received_sublist : ch.received.Sublist ch.accepted := List.sublist_append_left _ _

theorem try_send_eq_ok : ch.try_send = .Ok ↔ ch.closed = false ∧ ch.queue.length < ch.capacity := by
  rw [try_send]
  cases ch.closed <;> simp

theorem has_room_iff (n : ℕ) :
    ch.has_room n = true ↔ n = 0 ∨ ch.closed = false ∧ ch.queue.length + n ≤ ch.capacity := by
  rw [has_room, Bool.or_eq_true, Bool.and_eq_true, decide_eq_true_iff, decide_eq_true_iff,
    Bool.not_eq_true']

/-- Room for one more message and then `n`. -/
theorem has_room_succ (a : α) (n : ℕ) :
    ch.has_room (n + 1) = true ↔ ch.try_send = .Ok ∧ (ch.push a).has_room n = true := by
  have hlen : (ch.push a).queue.length = ch.queue.length + 1 := List.length_append
  have hcapacity : (ch.push a).capacity = ch.capacity := rfl
  have hclosed : (ch.push a).closed = ch.closed := rfl
  rw [has_room_iff, has_room_iff, try_send_eq_ok, hlen, hcapacity, hclosed]
  constructor
  · rintro (h | ⟨hopen, hroom⟩)
    · omega
    · exact ⟨⟨hopen, by omega⟩, .inr ⟨hopen, by omega⟩⟩
  · rintro ⟨⟨hopen, hfree⟩, h | ⟨-, hroom⟩⟩
    · exact .inr ⟨hopen, by omega⟩
    · exact .inr ⟨hopen, by omega⟩

end Channel

end Channels
