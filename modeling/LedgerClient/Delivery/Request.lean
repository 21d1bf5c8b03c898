import LedgerClient.Transaction.Basic

/-!
# Requests

A request is what is delivered: for each of its nodes the octets that this node gets.  A
transaction has different octets for each node, a query the same for all.
-/

namespace LedgerClient

inductive Subject where
  | transaction (id : TransactionId)
  | query
deriving DecidableEq

@[ext]
structure Query where
  method : Method
  payload : Bytes
  /-- The nodes to ask; if there are none, every node may be asked. -/
  nodes : List NodeId
deriving DecidableEq

@[ext]
structure Request where
  subject : Subject
  method : Method
  nodes : List NodeId
  payloads : List Bytes
deriving DecidableEq

namespace Request

def ofTransaction (tx : Transaction) : Except TransactionError Request := do
  tx.validateForExecution
  match tx.id with
  | none => throw (.missing .transactionId)
  | some id =>
      return { subject := .transaction id
               method := tx.operation.method
               nodes := tx.nodes
               payloads := tx.payloads.map Payload.wireBytes }

def ofQuery (q : Query) (nodes : List NodeId) : Except TransactionError Request :=
  if nodes.isEmpty then .error .noNodes
  else
    .ok { subject := .query
          method := q.method
          nodes := nodes
          payloads := List.replicate nodes.length q.payload }

/-- The octets for a node; where a node stands twice, those of its first place. -/
def payloadFor? (r : Request) (node : NodeId) : Option Bytes :=
  ((r.nodes.zip r.payloads).find? (fun p => p.1 == node)).map Prod.snd

end Request

end LedgerClient
