import LedgerClient.Signing.Signer
import LedgerClient.Transaction.Body

/-!
# Transactions

A transaction is drafted, frozen, signed and submitted.  While it is a draft its fields
can be set; freezing it writes one body for each of its nodes, and from then on only
signatures and its state change.

A transaction that was read from octets may hold anything in its fields, so the type says
nothing about how they agree; what holds of transactions that were made here is a matter of
theorems.
-/

namespace LedgerClient

@[ext]
structure Transaction where
  state : TransactionState
  id : Option TransactionId
  nodes : List NodeId
  maxFee : Option Amount
  validDurationSecs : Option UInt64
  memo : String
  operation : Operation
  payloads : List Payload
deriving DecidableEq

namespace Transaction

def defaultMaxFee : Amount := 200000000

def defaultValidDurationSecs : UInt64 := 120

def new (operation : Operation) : Transaction :=
  { state := .draft
    id := none
    nodes := []
    maxFee := none
    validDurationSecs := none
    memo := ""
    operation := operation
    payloads := [] }

def isFrozen (tx : Transaction) : Bool :=
  tx.state != .draft

def payloadFor? (tx : Transaction) (node : NodeId) : Option Payload :=
  tx.payloads.find? (fun p => p.node == node)

/-!
## Drafting
-/

def requireDraft (tx : Transaction) : Except TransactionError Unit :=
  if tx.state = .draft then .ok () else .error .alreadyFrozen

def setId (tx : Transaction) (id : TransactionId) : Except TransactionError Transaction := do
  tx.requireDraft
  return { tx with id := some id }

def setNodes (tx : Transaction) (nodes : List NodeId) : Except TransactionError Transaction := do
  tx.requireDraft
  return { tx with nodes := nodes }

def setMaxFee (tx : Transaction) (fee : Amount) : Except TransactionError Transaction := do
  tx.requireDraft
  return { tx with maxFee := some fee }

def setValidDurationSecs (tx : Transaction) (secs : UInt64) :
    Except TransactionError Transaction := do
  tx.requireDraft
  if secs = 0 then
    throw (.notPositive .validDuration)
  return { tx with validDurationSecs := some secs }

def setMemo (tx : Transaction) (memo : String) : Except TransactionError Transaction := do
  tx.requireDraft
  if maxMemoLength < memo.utf8ByteSize then
    throw (.memoTooLong memo.utf8ByteSize)
  return { tx with memo := memo }

def setOperation (tx : Transaction) (operation : Operation) :
    Except TransactionError Transaction := do
  tx.requireDraft
  return { tx with operation := operation }

/-!
## Freezing
-/

def firstRepeated? (earlier : List NodeId) : List NodeId → Option NodeId
  | [] => none
  | node :: rest =>
      if earlier.contains node then some node else firstRepeated? (node :: earlier) rest

def unsignedPayload (id : TransactionId) (fee : Amount) (secs : UInt64) (memo : String)
    (operation : Operation) (node : NodeId) : Payload :=
  let body : Body :=
    { transactionId := id
      node := node
      maxFee := fee
      validDurationSecs := secs
      memo := memo
      operation := operation }
  { node := node, body := Body.codec.encode body, signatures := .empty }

/-- Fixes all fields and writes the bodies; fee and duration get defaults if they were not set. -/
def freeze (tx : Transaction) : Except TransactionError Transaction := do
  tx.requireDraft
  if tx.nodes.isEmpty then
    throw .noNodes
  match firstRepeated? [] tx.nodes with
  | some node => throw (.nodeTwice node)
  | none =>
      match tx.id with
      | none => throw (.missing .transactionId)
      | some id =>
          tx.operation.validate
          let fee := tx.maxFee.getD defaultMaxFee
          let secs := tx.validDurationSecs.getD defaultValidDurationSecs
          return { tx with
            state := .frozen
            maxFee := some fee
            validDurationSecs := some secs
            payloads := tx.nodes.map (unsignedPayload id fee secs tx.memo tx.operation) }

/-- Sets the nodes and freezes.  The nodes stay set when freezing fails. -/
def freezeWith (tx : Transaction) (nodes : List NodeId) :
    Transaction × Except TransactionError Unit :=
  match tx.setNodes nodes with
  | .error e => (tx, .error e)
  | .ok addressed =>
      match addressed.freeze with
      | .error e => (addressed, .error e)
      | .ok frozen => (frozen, .ok ())

/-!
## Signing
-/

def requireSignable (tx : Transaction) : Except TransactionError Unit :=
  match tx.state with
  | .draft => .error .notFrozen
  | .frozen => .ok ()
  | .signed => .ok ()
  | state => .error (.wrongState .sign state)

def checkSigner (key : PublicKey) : List Payload → Except TransactionError Unit
  | [] => .ok ()
  | p :: rest =>
      match p.signatures.checkSigner key with
      | .error e => .error e
      | .ok () => checkSigner key rest

/-- Signs the payloads that the key has not signed yet, in order.  The signing function may keep a
state of its own. -/
def signPayloads {σ : Type} (key : PublicKey) (sign : Bytes → σ → Signature × σ) :
    List Payload → σ → List Payload × σ
  | [], s => ([], s)
  | p :: rest, s =>
      if p.signatures.contains key then
        let (rest, s) := signPayloads key sign rest s
        (p :: rest, s)
      else
        let (signature, s) := sign p.body s
        let signed := { p with signatures := ⟨p.signatures.pairs ++ [⟨key, signature⟩]⟩ }
        let (rest, s) := signPayloads key sign rest s
        (signed :: rest, s)

/-- Adds the signatures of a key to all payloads, or to none and without asking for any. -/
def signWith {σ : Type} (tx : Transaction) (key : PublicKey)
    (sign : Bytes → σ → Signature × σ) (s : σ) : Except TransactionError (Transaction × σ) := do
  tx.requireSignable
  checkSigner key tx.payloads
  let (payloads, s) := signPayloads key sign tx.payloads s
  return ({ tx with payloads := payloads, state := .signed }, s)

def sign (tx : Transaction) (signer : Signer) : Except TransactionError Transaction :=
  match tx.signWith signer.publicKey (fun body (_ : Unit) => (signer.sign body, ())) () with
  | .error e => .error e
  | .ok (signed, _) => .ok signed

def isSignedBy (tx : Transaction) (key : PublicKey) : Bool :=
  !tx.payloads.isEmpty && tx.payloads.all (fun p => p.signatures.contains key)

def requireSigned (tx : Transaction) : Except TransactionError Unit :=
  match tx.state with
  | .draft => .error .notSigned
  | .frozen => .error .notSigned
  | _ => if tx.payloads.any (fun p => p.signatures.isEmpty) then .error .notSigned else .ok ()

def hash (tx : Transaction) (node : NodeId) : Except TransactionError Hash := do
  tx.requireSigned
  match tx.payloadFor? node with
  | none => throw (.foreignNode node)
  | some p => return p.hash

def hashes (tx : Transaction) : Except TransactionError (List (NodeId × Hash)) := do
  tx.requireSigned
  return tx.payloads.map fun p => (p.node, p.hash)

/-!
## Scheduling
-/

def wrapAsScheduled (tx : Transaction) : Except TransactionError Envelope := do
  if !tx.operation.isSchedulable then
    throw (.notSchedulable tx.operation.kind)
  tx.requireSigned
  match tx.payloads with
  | [] => throw .notSigned
  | p :: _ => return { body := p.body, signatures := p.signatures }

/-- A draft that puts this transaction on a schedule, addressed to the same nodes. -/
def schedule (tx : Transaction) : Except TransactionError Transaction := do
  let envelope ← tx.wrapAsScheduled
  return { new (.scheduleCreate envelope none none "") with nodes := tx.nodes }

/-!
## Submission
-/

/-- Whether there is one payload per node, in order, none with two keys of the same first octets. -/
def checkPairs : List Payload → List NodeId → Except TransactionError Unit
  | p :: payloads, node :: nodes =>
      if p.node = node then
        match p.signatures.validate with
        | .error e => .error e
        | .ok () => checkPairs payloads nodes
      else .error (.foreignNode p.node)
  | _, _ => .ok ()

def checkPayloads (tx : Transaction) : Except TransactionError Unit :=
  if tx.payloads.length = tx.nodes.length then checkPairs tx.payloads tx.nodes
  else .error (.payloadCount tx.payloads.length tx.nodes.length)

def validateForExecution (tx : Transaction) : Except TransactionError Unit := do
  match tx.state with
  | .draft => throw .notFrozen
  | .frozen => throw .notSigned
  | .signed =>
      tx.checkPayloads
      tx.requireSigned
  | state => throw (.wrongState .execute state)

def beginExecution (tx : Transaction) : Transaction :=
  { tx with state := .executing }

def complete (tx : Transaction) : Transaction :=
  { tx with state := .completed }

def fail (tx : Transaction) : Transaction :=
  { tx with state := .failed }

def abortExecution (tx : Transaction) : Transaction :=
  if tx.state = .executing then { tx with state := .signed } else tx

/-!
## Wire format
-/

def codec : Codec Transaction :=
  (TransactionState.codec.pair (TransactionId.codec.option.pair (NodeId.codec.list.pair
    (Codec.u128.option.pair (Codec.u64.option.pair (Codec.text.pair
      (Operation.codec.pair Payload.codec.list))))))).iso
    (fun tx => (tx.state, tx.id, tx.nodes, tx.maxFee, tx.validDurationSecs, tx.memo,
      tx.operation, tx.payloads))
    (fun (state, id, nodes, fee, secs, memo, operation, payloads) =>
      ⟨state, id, nodes, fee, secs, memo, operation, payloads⟩)

def toBytes (tx : Transaction) : Except TransactionError Bytes :=
  if tx.state = .draft then .error .notFrozen else .ok (codec.encode tx)

def ofBytes (bs : Bytes) : Except TransactionError Transaction :=
  match codec.read bs with
  | .error cause => .error (.malformed cause)
  | .ok tx =>
      if tx.state = .draft then .error .notFrozen
      else
        match tx.checkPayloads with
        | .error e => .error e
        | .ok () => .ok tx

end Transaction

end LedgerClient
