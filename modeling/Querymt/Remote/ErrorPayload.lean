/-
`Remote/ErrorPayload.lean` -- errors between processes.

Mirrors `to_payload` and `from_payload` of `LLMError` (`querymt/src/error.rs`). The payload has
a variant for each error, but three errors wrap one of another library, which is not rebuilt:
they come back as an error of another kind, and with it another class (`keeps_meaning_iff`).
All other errors come back as they were, over any number of hops, and a second hop changes no
error any more (`hop_hop`).
-/
import Querymt.Agent.Streaming

set_option autoImplicit false

open Querymt.Agent (LLMError TransportErrorKind)

namespace Querymt.ErrorPayload

/-! ## 1. The code -/

inductive LLMErrorPayload where
  | GenericError (message : String)
  | ProviderError (message : String)
  | AuthError (message : String)
  | ToolConfigError (message : String)
  | PluginError (message : String)
  | InvalidRequest (message : String)
  | ResponseFormatError (message raw_response : String)
  | RateLimited (message : String) (retry_after_secs : Option ℕ)
  | HttpStatus (status_code : ℕ) (message : String) (retry_after_secs : Option ℕ)
  | HttpError (message : String)
  | Transport (kind : TransportErrorKind) (message : String)
  | Cancelled
  | RemoteStreamDisconnected (message : String)
  | RemoteStreamReconnected (message : String)
  | NotImplemented (message : String)
  | JsonError (message : String)
  | InvalidUrl (message : String)
  | IoError (message : String)
  deriving DecidableEq

def to_payload : LLMError → LLMErrorPayload
  | .GenericError message => .GenericError message
  | .ProviderError message => .ProviderError message
  | .AuthError message => .AuthError message
  | .ToolConfigError message => .ToolConfigError message
  | .PluginError message => .PluginError message
  | .InvalidRequest message => .InvalidRequest message
  | .ResponseFormatError message raw_response => .ResponseFormatError message raw_response
  | .RateLimited message retry_after_secs => .RateLimited message retry_after_secs
  | .HttpStatus status_code message retry_after_secs =>
      .HttpStatus status_code message retry_after_secs
  | .HttpError message => .HttpError message
  | .Transport kind message => .Transport kind message
  | .Cancelled => .Cancelled
  | .RemoteStreamDisconnected message => .RemoteStreamDisconnected message
  | .RemoteStreamReconnected message => .RemoteStreamReconnected message
  | .NotImplemented message => .NotImplemented message
  | .JsonError error => .JsonError error
  | .InvalidUrl error => .InvalidUrl error
  | .IoError error => .IoError error

def from_payload : LLMErrorPayload → LLMError
  | .GenericError message => .GenericError message
  | .ProviderError message => .ProviderError message
  | .AuthError message => .AuthError message
  | .ToolConfigError message => .ToolConfigError message
  | .PluginError message => .PluginError message
  | .InvalidRequest message => .InvalidRequest message
  | .ResponseFormatError message raw_response => .ResponseFormatError message raw_response
  | .RateLimited message retry_after_secs => .RateLimited message retry_after_secs
  | .HttpStatus status_code message retry_after_secs =>
      .HttpStatus status_code message retry_after_secs
  | .HttpError message => .HttpError message
  | .Transport kind message => .Transport kind message
  | .Cancelled => .Cancelled
  | .RemoteStreamDisconnected message => .RemoteStreamDisconnected message
  | .RemoteStreamReconnected message => .RemoteStreamReconnected message
  | .NotImplemented message => .NotImplemented message
  -- the errors of other libraries are not rebuilt
  | .JsonError message => .PluginError message
  | .InvalidUrl message => .HttpError message
  | .IoError message => .Transport .Other message

def retry_after_secs : LLMError → Option ℕ
  | .RateLimited _ retry_after_secs | .HttpStatus _ _ retry_after_secs => retry_after_secs
  | _ => none

/-! ## 2. The law and the condition -/

/-- An error on the other side of the boundary. -/
def hop (e : LLMError) : LLMError := from_payload (to_payload e)

/-- **An error keeps its meaning** on the other side, and its payload over any number of hops. -/
structure KeepsMeaning (e : LLMError) : Prop where
  retryable : (hop e).is_retryable = e.is_retryable
  retry_after : retry_after_secs (hop e) = retry_after_secs e
  text : (hop e).to_string = e.to_string
  payload : ∀ n, to_payload (hop^[n] e) = to_payload e

/-- **The condition**: the error is of this library. -/
def Own : LLMError → Prop
  | .JsonError _ | .InvalidUrl _ | .IoError _ => False
  | _ => True

/-! ## 3. One hop, and many -/

section

variable {e : LLMError}

/-- What is rebuilt is an error of this library. -/
theorem own_from_payload (p : LLMErrorPayload) : Own (from_payload p) := by
  cases p <;> exact trivial

/-- An error of this library is rebuilt as it was. -/
theorem hop_own (h : Own e) : hop e = e := by
  cases e with
  | JsonError error => exact absurd h not_false
  | InvalidUrl error => exact absurd h not_false
  | IoError error => exact absurd h not_false
  | _ => rfl

/-- **One hop is all that changes an error.** -/
theorem hop_hop (e : LLMError) : hop (hop e) = hop e := hop_own (own_from_payload _)

theorem iterate_hop_own (h : Own e) (n : ℕ) : hop^[n] e = e := by
  induction n with
  | zero => rfl
  | succ n ih => rw [Function.iterate_succ_apply, hop_own h, ih]

/-- The payload of an error of another library is not the one it is rebuilt from. -/
theorem own_of_payload (h : to_payload (hop e) = to_payload e) : Own e := by
  cases e with
  | JsonError error => cases h
  | InvalidUrl error => cases h
  | IoError error => cases h
  | _ => exact trivial

end

/-- **Errors keep their meaning across the boundary** if and only if they are of this library. -/
theorem keeps_meaning_iff (e : LLMError) : KeepsMeaning e ↔ Own e := by
  constructor
  · intro h
    exact own_of_payload (h.payload 1)
  · intro h
    have hhop := hop_own h
    refine ⟨?_, ?_, ?_, fun n => ?_⟩
    · rw [hhop]
    · rw [hhop]
    · rw [hhop]
    · rw [iterate_hop_own h]

/-- A malformed answer, which is not worth a retry, comes back as one that is. -/
theorem json_error_retried : ¬ KeepsMeaning (.JsonError "expected value at line 1 column 1") := by
  intro h
  exact absurd h.retryable (by decide)

end Querymt.ErrorPayload
