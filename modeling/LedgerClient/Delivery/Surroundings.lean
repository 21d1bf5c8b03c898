import LedgerClient.Error
import LedgerClient.Node.Registry
import LedgerClient.Time.Instant

/-!
# What a delivery depends on

Timers, clocks, channels, chance and the caller's wish to stop are not part of this
library.  `Surroundings` says what can be asked of them: each question takes the state of
the surroundings and returns the answer with the next state.  Nothing is assumed about the
answers here; theorems that need a law of timers or clocks state it.
-/

namespace LedgerClient

@[ext]
structure Call where
  node : NodeId
  address : String
  mode : TransportMode
  method : Method
  payload : Bytes
deriving DecidableEq

inductive Answer where
  | refused (cause : TransportError)
  | failed (cause : TransportError)
  | timedOut
  | received (bs : Bytes)
deriving DecidableEq

inductive Wake where
  | elapsed
  | cancelled
deriving DecidableEq

/-- What another request does to the record of a node while this one waits. -/
structure Happening where
  node : NodeId
  event : Health.Event
deriving DecidableEq

structure Surroundings (σ : Type) where
  /-- Reads the timer by which deadlines are kept. -/
  timer : σ → Instant × σ
  /-- Reads the clock by which health is kept. -/
  clock : σ → Timestamp × σ
  isCancelled : σ → Bool × σ
  /-- Waits for a time or for the caller to cancel, whichever is first. -/
  pause : Duration → σ → Wake × List Happening × σ
  /-- Opens a channel and sends a request over it, for at most a time. -/
  exchange : Call → Duration → σ → Answer × List Happening × σ
  /-- A number that nobody else has chosen. -/
  nonce : σ → UInt32 × σ
  /-- For how many pauses in a row the wait for one node is followed. -/
  patience : Nat

namespace Registry

def meanwhile (r : Registry) (happenings : List Happening) : Registry :=
  happenings.foldl (fun r h => r.record h.node h.event) r

end Registry

end LedgerClient
