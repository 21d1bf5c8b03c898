import LedgerClient.Time.Duration

/-!
# Points in time of a timer

A timer counts nanoseconds from an origin of its own and never goes back.  Seconds are kept
in a signed number of 64 bits, so there are no points in time after the last such second.
-/

namespace LedgerClient

@[ext]
structure Instant where
  nanos : Nat
deriving DecidableEq, Inhabited

namespace Instant

/-- The first second that has no points in time. -/
def endSeconds : Nat := 1 <<< 63

def ofMillis (ms : Nat) : Instant :=
  ⟨ms * Duration.nanosPerMilli⟩

def plus? (i : Instant) (d : Duration) : Option Instant :=
  let nanos := i.nanos + d.nanos
  if nanos / Duration.nanosPerSecond < endSeconds then some ⟨nanos⟩ else none

/-- The time from `i` until `later`; nothing if `later` has passed. -/
def timeUntil (i later : Instant) : Duration :=
  Duration.ofNanos (later.nanos - i.nanos)

end Instant

end LedgerClient
