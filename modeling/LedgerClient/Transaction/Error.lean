import LedgerClient.Transaction.Kind
import LedgerClient.Wire.Codec

/-!
# What can be wrong with a transaction
-/

namespace LedgerClient

inductive TransactionState where
  | draft
  | frozen
  | signed
  | executing
  | completed
  | failed
deriving DecidableEq, Inhabited

namespace TransactionState

def name : TransactionState → String
  | draft => "Draft"
  | frozen => "Frozen"
  | signed => "Signed"
  | executing => "Executing"
  | completed => "Completed"
  | failed => "Failed"

/-- A transaction in such a state is never submitted again. -/
def isTerminal : TransactionState → Bool
  | completed => true
  | failed => true
  | _ => false

def index : TransactionState → UInt32
  | draft => 0
  | frozen => 1
  | signed => 2
  | executing => 3
  | completed => 4
  | failed => 5

def codec : Codec TransactionState where
  encode s := Codec.encodeAlternative s.index []
  decode := Codec.decodeSum
    ([draft, frozen, signed, executing, completed, failed].map Reader.pure)

end TransactionState

inductive Field where
  | recipient
  | amount
  | key
  | fileId
  | fileOrContract
  | topicId
  | message
  | ethereumData
  | scheduled
  | transactionId
  | validDuration
deriving DecidableEq

def Field.name : Field → String
  | .recipient => "to"
  | .amount => "amount"
  | .key => "key"
  | .fileId => "file_id"
  | .fileOrContract => "file_id or contract_id"
  | .topicId => "topic_id"
  | .message => "message"
  | .ethereumData => "ethereum_data"
  | .scheduled => "scheduled"
  | .transactionId => "transaction_id"
  | .validDuration => "valid_duration_secs"

inductive Action where
  | sign
  | chunk
  | execute
deriving DecidableEq

def Action.name : Action → String
  | .sign => "sign"
  | .chunk => "chunk"
  | .execute => "execute"

def maxMemoLength : Nat := 100

inductive TransactionError where
  | alreadyFrozen
  | notFrozen
  | notSigned
  | wrongState (action : Action) (state : TransactionState)
  | noNodes
  | missing (field : Field)
  /-- A field that is zero and must not be. -/
  | notPositive (field : Field)
  /-- Both a file and a contract are named where only one may be. -/
  | bothTargets
  | nodeTwice (node : NodeId)
  | memoTooLong (length : Nat)
  /-- Two distinct keys begin with the same octets. -/
  | sharedTag (tag : Bytes)
  | notSchedulable (kind : OperationKind)
  | zeroChunkSize
  | tooManyChunks (required max : Nat)
  | foreignNode (node : NodeId)
  | payloadCount (payloads nodes : Nat)
  | malformed (cause : DecodeError)
deriving DecidableEq

def TransactionError.message : TransactionError → String
  | .alreadyFrozen => "Transaction is already frozen"
  | .notFrozen => "Transaction is not frozen"
  | .notSigned => "Transaction is not signed"
  | .wrongState action state =>
      "Cannot " ++ action.name ++ " a transaction in state " ++ state.name
  | .noNodes => "At least one node id is required"
  | .missing field => "Missing required field: " ++ field.name
  | .notPositive field => "Invalid field " ++ field.name ++ ": must be greater than zero"
  | .bothTargets => "Invalid field file_id: file_id and contract_id are mutually exclusive"
  | .nodeTwice node => "Invalid field node_ids: " ++ node.text ++ " listed twice"
  | .memoTooLong length =>
      "Memo too long: " ++ toString length ++ " bytes (max: " ++ toString maxMemoLength ++ ")"
  | .sharedTag tag => "Duplicate signer prefix " ++ Hex.encode tag ++ " for distinct keys"
  | .notSchedulable kind => kind.name ++ " cannot be scheduled"
  | .zeroChunkSize => "Chunk size must be greater than zero"
  | .tooManyChunks required max =>
      "Content needs " ++ toString required ++ " chunks (max: " ++ toString max ++ ")"
  | .foreignNode node => "Node " ++ node.text ++ " is not a target of this transaction"
  | .payloadCount payloads nodes =>
      "Payload count " ++ toString payloads ++ " does not match node count " ++ toString nodes
  | .malformed cause => "Serialization failed: " ++ cause.message

end LedgerClient
