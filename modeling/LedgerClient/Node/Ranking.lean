import LedgerClient.Node.Basic

/-!
# The order in which nodes are tried

Healthy nodes come before nodes that are left alone, among them those that were used less
often, then those that were last used longer ago, then those with the smaller id.
-/

namespace LedgerClient

namespace Ranking

/-- A node as the order sees it. -/
abbrev Entry := NodeId × Health.Snapshot

def compare (now : Timestamp) (a b : Entry) : Ordering :=
  (Ord.compare (b.2.isHealthy now) (a.2.isHealthy now)).then
    ((Ord.compare a.2.useCount b.2.useCount).then
      ((Ord.compare a.2.lastUsedAt b.2.lastUsedAt).then
        (Ord.compare a.1.number b.1.number)))

def entry (n : Node) : Entry :=
  (n.id, n.health.snapshot)

def precedes (now : Timestamp) (a b : Node) : Bool :=
  (compare now (entry a) (entry b)).isLE

/-- Sorts nodes by the order; nodes that are equal in it stay as they stand. -/
def rank (now : Timestamp) (nodes : List Node) : List Node :=
  nodes.mergeSort (precedes now)

end Ranking

end LedgerClient
