import LedgerClient.Delivery.Request
import LedgerClient.Delivery.Surroundings

/-!
# The course of a delivery

What a delivery did, step by step, how it ended, and the records it left behind.
-/

namespace LedgerClient

inductive Outcome where
  | accepted (payload : Bytes)
  | retryable (fault : AttemptFault)
  | rejected (code : PrecheckCode)
deriving DecidableEq

namespace Outcome

def ofResponse (r : NodeResponse) : Outcome :=
  match r.status.classify with
  | .accepted => accepted r.payload
  | .retryable => retryable (.turnedAway r.status)
  | .fatal => rejected r.status

def ofAnswer : Answer → Outcome
  | .refused cause => retryable (.transport cause)
  | .failed cause => retryable (.transport cause)
  | .timedOut => retryable (.transport .timeout)
  | .received bs =>
      match NodeResponse.codec.read bs with
      | .error cause => retryable (.malformed cause)
      | .ok r => ofResponse r

end Outcome

/-- One attempt: what was sent, what time was left then, how long it might take. -/
@[ext]
structure Attempt where
  call : Call
  left : Duration
  limit : Duration
  usedAt : Timestamp
  answer : Answer
deriving DecidableEq

namespace Attempt

def node (a : Attempt) : NodeId :=
  a.call.node

def outcome (a : Attempt) : Outcome :=
  Outcome.ofAnswer a.answer

end Attempt

inductive Step where
  | looked (cancelled : Bool)
  | expired
  /-- Waited for a node; `left` was the time to the deadline. -/
  | paused (node : NodeId) (length left : Duration) (wake : Wake)
  /-- Passed a node over because it is left alone for at least the time that is left. -/
  | skipped (node : NodeId) (backoff left : Duration)
  | attempted (attempt : Attempt)
deriving DecidableEq

namespace Step

def attempt? : Step → Option Attempt
  | attempted a => some a
  | _ => none

def showsCancelled : Step → Bool
  | looked cancelled => cancelled
  | paused _ _ _ wake => wake == .cancelled
  | _ => false

end Step

/-- Why a delivery has no end that could be reported. -/
inductive Halt where
  /-- It was still waiting for a node when it was no longer followed. -/
  | stillWaiting
  /-- A point in time or a span lies outside the range that can be written down. -/
  | outOfRange
deriving DecidableEq

inductive Ending (α : Type) where
  | answered (value : α)
  | failed (error : ClientError)
  | halted (halt : Halt)
deriving DecidableEq

@[ext]
structure Response where
  node : NodeId
  payload : Bytes
  attempts : Nat
deriving DecidableEq

@[ext]
structure Receipt where
  node : NodeId
  transactionId : TransactionId
  hash : Hash
  attempts : Nat
deriving DecidableEq

structure Run (σ α : Type) where
  ending : Ending α
  registry : Registry
  world : σ
  steps : List Step

namespace Run

variable {σ α : Type}

def attempts (run : Run σ α) : List Attempt :=
  run.steps.filterMap Step.attempt?

/-- Whether it was seen at any time that the caller has cancelled. -/
def sawCancelled (run : Run σ α) : Bool :=
  run.steps.any Step.showsCancelled

end Run

end LedgerClient
