import LedgerClient.Identifier
import LedgerClient.Node.Health

/-!
# Nodes

A node is an endpoint of the network with the record of its health.
-/

namespace LedgerClient

/-- How nodes are reached: in the clear, or over a channel that is bound to their certificate. -/
inductive TransportMode where
  | plaintext
  | secure
deriving DecidableEq, Inhabited

namespace TransportMode

def name : TransportMode → String
  | plaintext => "plaintext"
  | secure => "secure"

def ofName? (s : String) : Option TransportMode :=
  if s = "plaintext" then some plaintext
  else if s = "secure" then some secure
  else none

theorem ofName?_name (m : TransportMode) : ofName? m.name = some m := by
  cases m <;> rfl

end TransportMode

@[ext]
structure Node where
  id : NodeId
  address : String
  certificateHash : Option Hash
  health : Health
deriving DecidableEq

namespace Node

def new (id : NodeId) (address : String) (minBackoff maxBackoff : Duration) : Node :=
  { id := id
    address := address
    certificateHash := none
    health := Health.new minBackoff maxBackoff }

def withCertificateHash (n : Node) (hash : Option Hash) : Node :=
  { n with certificateHash := hash }

def record (n : Node) (e : Health.Event) : Node :=
  { n with health := n.health.record e }

@[simp]
theorem id_record (n : Node) (e : Health.Event) : (n.record e).id = n.id :=
  rfl

@[simp]
theorem address_record (n : Node) (e : Health.Event) : (n.record e).address = n.address :=
  rfl

end Node

end LedgerClient
