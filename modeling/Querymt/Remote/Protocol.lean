/-
`Remote/Protocol.lean` -- the messages of a provider stream.

Mirrors `provider_protocol.rs` and `stream_router_protocol.rs` of `querymt-remote`: what a
node that runs a provider sends to the router of the node that asked for it, which of
the messages end the stream, and which are worth keeping while the router cannot be
reached.
-/
import Mathlib

set_option autoImplicit false

namespace Querymt.Remote

inductive FinishReason where
  | Stop
  | Length
  | ContentFilter
  | ToolCalls
  | Error
  | Other
  | Unknown
  deriving DecidableEq

/-- A chunk of an answer. Tool arguments and usage are carried as text. -/
inductive StreamChunk where
  | Text (text : String)
  | Thinking (text : String)
  | ThinkingSignature (signature : String)
  | ToolUseStart (index : ℕ) (id name : String)
  | ToolUseInputDelta (index : ℕ) (partial_json : String)
  | ToolUseComplete (index : ℕ) (tool_call : String)
  | Usage (usage : String)
  | Done (finish_reason : FinishReason)
  deriving DecidableEq

def StreamChunk.is_done : StreamChunk → Bool
  | .Done _ => true
  | _ => false

inductive ProviderStreamPhase where
  | OpeningUpstream
  | WaitingFirstChunk
  | Streaming
  | ReceiverDisconnected
  | GraceExpired
  | LeaseExpired
  | Cancelling
  | Completed
  | Failed
  deriving DecidableEq

inductive StreamRelayMessage where
  | Chunk (chunk : StreamChunk)
  | ChunkBatch (chunks : List StreamChunk)
  | Heartbeat (phase : ProviderStreamPhase) (elapsed_ms idle_ms chunk_count : ℕ)
  | ProviderError (error : String)
  | TransportDisconnected (reason : String)
  | TransportReconnected (buffered_chunks : ℕ)
  | TransportFailed (error : String)
  deriving DecidableEq

def keep_stream_message_buffered : StreamRelayMessage → Bool
  | .Heartbeat _ _ _ _ | .TransportDisconnected _ | .TransportReconnected _ => false
  | .Chunk _ | .ChunkBatch _ | .ProviderError _ | .TransportFailed _ => true

def relay_message_is_terminal : StreamRelayMessage → Bool
  | .Chunk chunk => chunk.is_done
  | .ChunkBatch chunks => chunks.any StreamChunk.is_done
  | .ProviderError _ | .TransportFailed _ => true
  | .Heartbeat _ _ _ _ | .TransportDisconnected _ | .TransportReconnected _ => false

inductive RequestPhase where
  | AwaitingStream
  | Streaming
  | ConsumerDisconnected
  | Completed
  | Failed
  | Cancelled
  deriving DecidableEq

def terminal_request_phase : StreamRelayMessage → Option RequestPhase
  | .Chunk chunk => if chunk.is_done then some .Completed else none
  | .ChunkBatch chunks => if chunks.any StreamChunk.is_done then some .Completed else none
  | .ProviderError _ | .TransportFailed _ => some .Failed
  | .Heartbeat _ _ _ _ | .TransportDisconnected _ | .TransportReconnected _ => none

/-- The stream has ended, well or not. -/
def RequestPhase.is_over : RequestPhase → Bool
  | .Completed | .Failed => true
  | _ => false

/-- `RoutedRequest::is_terminal`. -/
def RequestPhase.is_terminal : RequestPhase → Bool
  | .Cancelled => true
  | phase => phase.is_over

/-- A terminal message has a phase of its own, and it is one in which the stream is
over. -/
theorem terminal_request_phase_of_terminal {message : StreamRelayMessage}
    (h : relay_message_is_terminal message = true) :
    ∃ phase, terminal_request_phase message = some phase ∧ phase.is_over = true := by
  cases message with
  | Chunk chunk => exact ⟨.Completed, if_pos h, rfl⟩
  | ChunkBatch chunks => exact ⟨.Completed, if_pos h, rfl⟩
  | ProviderError error => exact ⟨.Failed, rfl, rfl⟩
  | TransportFailed error => exact ⟨.Failed, rfl, rfl⟩
  | _ => cases h

end Querymt.Remote
