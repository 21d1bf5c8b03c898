import LedgerClient.Digest.Blake3
import LedgerClient.Transaction.Operation

/-!
# Bodies and payloads

A body is what is signed: it names one node, so a transaction has one body for each node
that it may be sent to.  A payload is a body in octets with its signatures.
-/

namespace LedgerClient

@[ext]
structure Body where
  transactionId : TransactionId
  node : NodeId
  maxFee : Amount
  validDurationSecs : UInt64
  memo : String
  operation : Operation
deriving DecidableEq

namespace Body

def codec : Codec Body :=
  (TransactionId.codec.pair (NodeId.codec.pair (Codec.u128.pair (Codec.u64.pair
    (Codec.text.pair Operation.codec))))).iso
    (fun b => (b.transactionId, b.node, b.maxFee, b.validDurationSecs, b.memo, b.operation))
    (fun (id, node, fee, secs, memo, operation) => ⟨id, node, fee, secs, memo, operation⟩)

end Body

def Envelope.decodeBody (e : Envelope) : Except TransactionError Body :=
  match Body.codec.read e.body with
  | .ok body => .ok body
  | .error cause => .error (.malformed cause)

@[ext]
structure Payload where
  node : NodeId
  body : Bytes
  signatures : SignatureMap
deriving DecidableEq

namespace Payload

def codec : Codec Payload :=
  (NodeId.codec.pair (Codec.blob.pair SignatureMap.codec)).iso
    (fun p => (p.node, p.body, p.signatures))
    (fun (node, body, signatures) => ⟨node, body, signatures⟩)

/-- What is sent to the node: the body and its signatures, as in an envelope. -/
def wireBytes (p : Payload) : Bytes :=
  Envelope.codec.encode ⟨p.body, p.signatures⟩

/-- The hash by which the ledger refers to the transaction once the node has it. -/
def hash (p : Payload) : Hash :=
  Blake3.hash p.wireBytes

end Payload

end LedgerClient
