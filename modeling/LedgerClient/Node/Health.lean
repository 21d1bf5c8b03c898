import LedgerClient.Time.Clock

/-!
# Health of a node

What a client remembers of a node: how often and when it was used, how often it failed,
and the window in which it is left alone after a failure.  Each failure doubles the
length of the next window up to an upper bound; each success halves it down to a lower
bound.
-/

namespace LedgerClient

@[ext]
structure Health where
  lastUsedAt : Timestamp
  useCount : Nat
  backoffUntil : Timestamp
  currentBackoff : Duration
  minBackoff : Duration
  maxBackoff : Duration
  failureCount : Nat
deriving DecidableEq

namespace Health

def defaultMinBackoff : Duration :=
  Duration.ofMillis 250

def defaultMaxBackoff : Duration :=
  Duration.ofSeconds 8

/-- The record of a node that was never used.  The bounds may come in either order. -/
def new (a b : Duration) : Health :=
  let low := if a ≤ b then a else b
  let high := if a ≤ b then b else a
  { lastUsedAt := 0
    useCount := 0
    backoffUntil := 0
    currentBackoff := low
    minBackoff := low
    maxBackoff := high
    failureCount := 0 }

instance : Inhabited Health :=
  ⟨new defaultMinBackoff defaultMaxBackoff⟩

def isHealthy (h : Health) (now : Timestamp) : Bool :=
  h.backoffUntil ≤ now

def remainingBackoff (h : Health) (now : Timestamp) : Duration :=
  now.timeUntil h.backoffUntil

def recordFailure (h : Health) (now : Timestamp) : Health :=
  { h with
    failureCount := h.failureCount + 1
    backoffUntil := now.plusMillis h.currentBackoff.millis
    currentBackoff := min h.currentBackoff.double h.maxBackoff }

def recordSuccess (h : Health) : Health :=
  { h with currentBackoff := max h.currentBackoff.half h.minBackoff }

def markUsed (h : Health) (now : Timestamp) : Health :=
  { h with useCount := h.useCount + 1, lastUsedAt := now }

/-- Forgets everything but the bounds. -/
def reset (h : Health) : Health :=
  new h.minBackoff h.maxBackoff

inductive Event where
  | used (now : Timestamp)
  | failed (now : Timestamp)
  | succeeded
  | forgotten
deriving DecidableEq

def record (h : Health) : Event → Health
  | .used now => h.markUsed now
  | .failed now => h.recordFailure now
  | .succeeded => h.recordSuccess
  | .forgotten => h.reset

/-- The part of the record that is shown to others, with the next window in milliseconds. -/
@[ext]
structure Snapshot where
  lastUsedAt : Timestamp
  useCount : Nat
  backoffUntil : Timestamp
  currentBackoffMillis : UInt64
  failureCount : Nat
deriving DecidableEq

def Snapshot.isHealthy (s : Snapshot) (now : Timestamp) : Bool :=
  s.backoffUntil ≤ now

/-- Whole milliseconds of a span, as far as a timestamp can count them. -/
def clampedMillis (d : Duration) : UInt64 :=
  Timestamp.plusMillis 0 d.millis

def snapshot (h : Health) : Snapshot :=
  { lastUsedAt := h.lastUsedAt
    useCount := h.useCount
    backoffUntil := h.backoffUntil
    currentBackoffMillis := clampedMillis h.currentBackoff
    failureCount := h.failureCount }

end Health

end LedgerClient
