import LedgerClient.CommandLine.Run
import LedgerClient.Network.Tcp

/-!
# Rehearsals over connections

Servers at addresses, each with octets that it will say over its next connections, and a
directory of files: enough to rehearse a whole command line.  Nothing takes time but waiting.
-/

namespace LedgerClient

namespace Rehearsal

structure Servers where
  /-- Milliseconds for which the timer had been running when the rehearsal began. -/
  uptime : Nat
  elapsed : Nat
  healthClock : Clock
  /-- What is said at an address, one connection after the other. -/
  replies : List (String × Bytes)
  received : List Bytes

namespace Servers

def new (clock : Clock) (uptime : Nat) (replies : List (String × Bytes)) : Servers :=
  { uptime := uptime
    elapsed := 0
    healthClock := clock
    replies := replies
    received := [] }

/-- What a caller is told where nobody listens. -/
def nobodyListens : String := "Connection refused (os error 111)"

/-- An address takes a connection as long as there is something left to say. -/
def dialer : Tcp.Dialer Servers where
  connect address s :=
    match s.replies.find? (fun r => r.1 == address) with
    | none => (.refused nobodyListens, s)
    | some (_, incoming) =>
        (.accepted incoming, { s with replies := s.replies.eraseP (fun r => r.1 == address) })
  deliver sent s := { s with received := s.received ++ [sent] }

def clockReading (s : Servers) : Timestamp :=
  s.healthClock.read (Duration.ofNanos (s.elapsed * Duration.nanosPerMilli))

def surroundings (nonce : UInt32) : Surroundings Servers where
  timer s := (Instant.ofMillis (s.uptime + s.elapsed), s)
  clock s := (s.clockReading, s)
  isCancelled s := (false, s)
  pause d s := (.elapsed, [], { s with elapsed := s.elapsed + d.millisUp })
  exchange call _ s :=
    let (answer, s) := Tcp.answer dialer call s
    (answer, [], s)
  nonce s := (nonce, s)
  patience := Duration.maxNanos

end Servers

structure Directory where
  files : List (String × Bytes)

namespace Directory

/-- A path of nothing but points and separators leads to a directory. -/
def leadsToDirectory (path : String) : Bool :=
  !path.isEmpty && (path.splitOn "/").all (fun p => p == ".." || p == "." || p == "")

/-- What a path leads to from inside the directory.  Points and repeated separators in front of a
name change nothing; behind the name of a file they lead nowhere. -/
def lookup (d : Directory) (path : String) : CommandLine.File :=
  if leadsToDirectory path then .unreadable
  else if path.startsWith "/" then .absent
  else
    match (path.splitOn "/").dropWhile (fun p => p == "." || p == "") with
    | [name] =>
        match d.files.find? (fun f => f.1 == name) with
        | some (_, bs) => .octets bs
        | none => .absent
    | _ => .absent

end Directory

end Rehearsal

end LedgerClient
