import LedgerClient.Node.Registry

/-!
# Reports as tables

The state of nodes in columns of fixed widths.  What is wider than its column pushes the
rest of its line to the right.
-/

namespace LedgerClient

namespace Report

def blanks (n : Nat) : String :=
  String.ofList (List.replicate n ' ')

def left (width : Nat) (s : String) : String :=
  s ++ blanks (width - s.length)

def right (width : Nat) (s : String) : String :=
  blanks (width - s.length) ++ s

def line (cells : List String) : String :=
  " ".intercalate cells ++ "\n"

def header : String :=
  line [left 10 "NODE", left 24 "ADDRESS", left 8 "HEALTHY", right 10 "BACKOFF", right 6 "USES",
    right 6 "FAILS"]

def row (s : Registry.Status) : String :=
  line [left 10 s.id.text, left 24 s.address, left 8 (if s.healthy then "yes" else "no"),
    right 8 (toString s.remainingBackoffMillis) ++ "ms", right 6 (toString s.health.useCount),
    right 6 (toString s.health.failureCount)]

def table (statuses : List Registry.Status) : String :=
  header ++ String.join (statuses.map row)

end Report

end LedgerClient
