import LedgerClient.Transaction.Basic

/-!
# Transactions that belong together

Content that is too long for one transaction is cut into pieces, and each piece becomes a
transaction with an id of its own.  The transactions are signed together and submitted in
order.
-/

namespace LedgerClient

@[ext]
structure Batch where
  transactions : List Transaction
deriving DecidableEq

namespace Batch

def size (b : Batch) : Nat :=
  b.transactions.length

def isEmpty (b : Batch) : Bool :=
  b.transactions.isEmpty

def get? (b : Batch) (index : Nat) : Option Transaction :=
  b.transactions[index]?

/-- Signs one after the other; at the first that cannot be signed it stops, and those before it stay
signed. -/
def signEach {σ : Type} (key : PublicKey) (sign : Bytes → σ → Signature × σ) :
    List Transaction → σ → List Transaction × σ × Except TransactionError Unit
  | [], s => ([], s, .ok ())
  | tx :: rest, s =>
      match tx.signWith key sign s with
      | .error e => (tx :: rest, s, .error e)
      | .ok (signed, s) =>
          let (rest, s, result) := signEach key sign rest s
          (signed :: rest, s, result)

/-- Signs all transactions, once it is known that no payload holds another key with the same first
octets. -/
def signWith {σ : Type} (b : Batch) (key : PublicKey) (sign : Bytes → σ → Signature × σ) (s : σ) :
    Batch × σ × Except TransactionError Unit :=
  match Transaction.checkSigner key (b.transactions.flatMap Transaction.payloads) with
  | .error e => (b, s, .error e)
  | .ok () =>
      let (transactions, s, result) := signEach key sign b.transactions s
      (⟨transactions⟩, s, result)

def sign (b : Batch) (signer : Signer) : Batch × Except TransactionError Unit :=
  let (b, _, result) :=
    b.signWith signer.publicKey (fun body (_ : Unit) => (signer.sign body, ())) ()
  (b, result)

def hashesOf : List Transaction → Except TransactionError (List (List (NodeId × Hash)))
  | [] => .ok []
  | tx :: rest =>
      match tx.hashes with
      | .error e => .error e
      | .ok hs =>
          match hashesOf rest with
          | .error e => .error e
          | .ok rest => .ok (hs :: rest)

def hashes (b : Batch) : Except TransactionError (List (List (NodeId × Hash))) :=
  hashesOf b.transactions

end Batch

namespace Transaction

/-- Cuts content into `count` pieces of `size` octets; the last takes what is left. -/
def pieces (size : Nat) : (count : Nat) → Bytes → List Bytes
  | 0, _ => []
  | count + 1, content => content.take size :: pieces size count (content.drop size)

/-- How many pieces there have to be; there is always one. -/
def requiredChunks (size length : Nat) : Nat :=
  max 1 ((length + size - 1) / size)

def chunkOf (tx : Transaction) (base : TransactionId) (total index : Nat) (piece : Bytes) :
    Except TransactionError Transaction :=
  let info : ChunkInfo :=
    { initialId := base, number := UInt32.ofNat (index + 1), total := UInt32.ofNat total }
  freeze
    { tx with
      state := .draft
      id := some (base.withOffset (UInt64.ofNat index))
      operation := tx.operation.withChunk piece info
      payloads := [] }

def chunksFrom (tx : Transaction) (base : TransactionId) (total : Nat) :
    (index : Nat) → List Bytes → Except TransactionError (List Transaction)
  | _, [] => .ok []
  | index, piece :: rest =>
      match tx.chunkOf base total index piece with
      | .error e => .error e
      | .ok first =>
          match chunksFrom tx base total (index + 1) rest with
          | .error e => .error e
          | .ok others => .ok (first :: others)

/-- Spreads the content of a frozen transaction over transactions with at most `size` octets each.
A transaction without such content is the only one of its batch. -/
def chunk (tx : Transaction) (size maxChunks : Nat) : Except TransactionError Batch := do
  match tx.state with
  | .draft => throw .notFrozen
  | .frozen =>
      if size = 0 then
        throw .zeroChunkSize
      match tx.operation.chunkContent? with
      | none => return ⟨[tx]⟩
      | some content =>
          let required := requiredChunks size content.length
          if maxChunks < required then
            throw (.tooManyChunks required maxChunks)
          match tx.id with
          | none => throw (.missing .transactionId)
          | some base =>
              let chunks ← tx.chunksFrom base required 0 (pieces size required content)
              return ⟨chunks⟩
  | state => throw (.wrongState .chunk state)

end Transaction

end LedgerClient
