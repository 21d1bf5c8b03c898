import LedgerClient.Delivery.Surroundings

/-!
# Rehearsals

A network whose nodes answer by a script, in a time that passes only while somebody waits:
it jumps to the next event.  Time is counted in whole milliseconds, and a wait is over at the
first whole millisecond at which its time is up.  Nobody sleeps for more than thirty years at a
time, but a call may take longer.  A delivery can be rehearsed on such a network with every
delay, failure and cancellation at a known moment.
-/

namespace LedgerClient

namespace Rehearsal

/-- What a node does with a call once the delay of its reply is over. -/
inductive Reaction where
  | silence
  | failure (cause : TransportError)
  | octets (bs : Bytes)
deriving DecidableEq

structure Reply where
  /-- Moves a standing clock when the call arrives. -/
  clockAdvance : UInt64
  delay : UInt64
  /-- Whether the caller cancels after the delay. -/
  cancels : Bool
  reaction : Reaction
deriving DecidableEq

def Reply.usual : Reply :=
  { clockAdvance := 0
    delay := 0
    cancels := false
    reaction := .octets (NodeResponse.codec.encode ⟨.ok, "ok".toUTF8.data.toList⟩) }

structure Record where
  call : Call
  moment : Nat
deriving DecidableEq

structure Caller where
  /-- Whether the delivery looks at the caller at all. -/
  watched : Bool
  cancelled : Bool
  cancelsAt : Option Nat
  /-- From this moment on the caller can no longer cancel. -/
  leavesAt : Option Nat
deriving DecidableEq

namespace Caller

def absent : Caller :=
  { watched := false, cancelled := false, cancelsAt := none, leavesAt := none }

def isThere (c : Caller) (now : Nat) : Bool :=
  match c.leavesAt with
  | none => true
  | some moment => now < moment

/-- The moment at which the caller cancels of their own accord. -/
def cancelMoment? (c : Caller) : Option Nat :=
  c.cancelsAt.filter c.isThere

def hasCancelled (c : Caller) (now : Nat) : Bool :=
  c.watched &&
    (c.cancelled ||
      match c.cancelMoment? with
      | none => false
      | some moment => moment ≤ now)

def cancel (c : Caller) (now : Nat) : Caller :=
  if c.isThere now then { c with cancelled := true } else c

end Caller

structure Network where
  /-- Milliseconds since the rehearsal began. -/
  elapsed : Nat
  healthClock : Clock
  scripts : List (NodeId × Reply)
  refusals : List (NodeId × TransportError)
  calls : List Record
  caller : Caller

namespace Network

def new (clock : Clock) : Network :=
  { elapsed := 0
    healthClock := clock
    scripts := []
    refusals := []
    calls := []
    caller := .absent }

def clockReading (n : Network) : Timestamp :=
  n.healthClock.read (Duration.ofNanos (n.elapsed * Duration.nanosPerMilli))

def timerReading (n : Network) : Instant :=
  Instant.ofMillis n.elapsed

/-- Thirty years of 365 days, in milliseconds. -/
def longestSleep : Nat := 30 * 365 * 24 * 60 * 60 * 1000

/-- The moment at which somebody wakes who goes to sleep for a number of milliseconds. -/
def due (n : Network) (ms : Nat) : Nat :=
  n.elapsed + min ms longestSleep

def script (n : Network) (node : NodeId) (replies : List Reply) : Network :=
  { n with scripts := n.scripts ++ replies.map (fun r => (node, r)) }

def refuse (n : Network) (node : NodeId) (cause : Option TransportError) : Network :=
  let others := n.refusals.filter (fun r => r.1 != node)
  { n with
    refusals :=
      match cause with
      | none => others
      | some cause => (node, cause) :: others }

def sleep (n : Network) (ms : Nat) : Network :=
  { n with elapsed := n.due ms }

/-- Begins a delivery for a caller: the record of calls starts anew. -/
def beginFor (n : Network) (caller : Caller) : Network :=
  { n with calls := [], caller := caller }

def nextReply (n : Network) (node : NodeId) : Reply × Network :=
  match n.scripts.find? (fun s => s.1 == node) with
  | none => (Reply.usual, n)
  | some (_, reply) => (reply, { n with scripts := n.scripts.eraseP (fun s => s.1 == node) })

def pause (d : Duration) (n : Network) : Wake × List Happening × Network :=
  let due := n.due d.millisUp
  if n.caller.hasCancelled n.elapsed then (.cancelled, [], n)
  else
    match n.caller.cancelMoment? with
    | some moment =>
        if n.caller.watched && moment < due then
          (.cancelled, [], { n with elapsed := max n.elapsed moment })
        else (.elapsed, [], { n with elapsed := due })
    | none => (.elapsed, [], { n with elapsed := due })

/-- A reply that is due when the time of the call is up still counts. -/
def exchange (call : Call) (limit : Duration) (n : Network) :
    Answer × List Happening × Network :=
  match n.refusals.find? (fun r => r.1 == call.node) with
  | some (_, cause) => (.refused cause, [], n)
  | none =>
      let finish := n.elapsed + limit.millisUp
      let arrived : Record := ⟨call, n.elapsed⟩
      let n := { n with calls := n.calls ++ [arrived] }
      let (reply, n) := n.nextReply call.node
      let n := { n with healthClock := n.healthClock.advance (.ofMillis reply.clockAdvance) }
      let due := n.due reply.delay.toNat
      if finish < due then (.timedOut, [], { n with elapsed := finish })
      else
        let n := { n with elapsed := due }
        let n := if reply.cancels then { n with caller := n.caller.cancel due } else n
        match reply.reaction with
        | .silence => (.timedOut, [], { n with elapsed := finish })
        | .failure cause => (.failed cause, [], n)
        | .octets bs => (.received bs, [], n)

end Network

/-- A scripted network with a nonce that the rehearsal chooses. -/
def surroundings (nonce : UInt32) : Surroundings Network where
  timer n := (n.timerReading, n)
  clock n := (n.clockReading, n)
  isCancelled n := (n.caller.hasCancelled n.elapsed, n)
  pause := Network.pause
  exchange := Network.exchange
  nonce n := (nonce, n)
  patience := Duration.maxNanos

end Rehearsal

end LedgerClient
