import LedgerClient.Delivery.Engine
import LedgerClient.Transaction.Batch

/-!
# Submission of transactions

A signed transaction is executing while it is delivered.  It is completed when a node has
accepted it and failed when a node has rejected it; when neither has happened it is signed
as before and can be submitted again with the same id, by which nodes recognise it.
-/

namespace LedgerClient

structure TransactionRun (σ : Type) where
  run : Run σ Receipt
  transaction : Transaction

structure BatchRun (σ : Type) where
  ending : Ending (List Receipt)
  registry : Registry
  world : σ
  batch : Batch
  /-- What was done for each transaction whose submission began. -/
  parts : List (List Step)

namespace Engine

variable {σ : Type}

def refuseTransaction (e : Engine) (error : ClientError) (tx : Transaction) (world : σ) :
    TransactionRun σ :=
  { run := e.refuse error world, transaction := tx }

def afterFailure (tx : Transaction) (error : ClientError) : Transaction :=
  match error with
  | .deadlineExceeded .. => tx.abortExecution
  | .cancelled => tx.abortExecution
  | error => if error.isLocal then tx.abortExecution else tx.fail

def settle (id : TransactionId) (hashes : List (NodeId × Hash)) (tx : Transaction) :
    Ending Response → Ending Receipt × Transaction
  | .halted halt => (.halted halt, tx)
  | .failed error => (.failed error, afterFailure tx error)
  | .answered response =>
      match hashes.find? (fun h => h.1 == response.node) with
      | none => (.failed (.transaction (.foreignNode response.node)), tx)
      | some (_, hash) =>
          (.answered
              { node := response.node
                transactionId := id
                hash := hash
                attempts := response.attempts },
            tx.complete)

/-- Delivers the request of a transaction, which is executing meanwhile. -/
def carryOut (e : Engine) (w : Surroundings σ) (tx : Transaction) (request : Request)
    (id : TransactionId) (hashes : List (NodeId × Hash)) (deadline : Instant) (world : σ) :
    TransactionRun σ :=
  let run := e.deliver w request deadline world
  let (ending, tx) := settle id hashes tx.beginExecution run.ending
  { run :=
      { ending := ending, registry := run.registry, world := run.world, steps := run.steps }
    transaction := tx }

def submit (e : Engine) (w : Surroundings σ) (tx : Transaction) (deadline : Instant) (world : σ) :
    TransactionRun σ :=
  match Request.ofTransaction tx with
  | .error error => e.refuseTransaction (.transaction error) tx world
  | .ok request =>
      match tx.hashes with
      | .error error => e.refuseTransaction (.transaction error) tx world
      | .ok hashes =>
          match tx.id with
          | none => e.refuseTransaction (.transaction (.missing .transactionId)) tx world
          | some id =>
              match e.registry.candidates request.nodes with
              | .error error => e.refuseTransaction error tx world
              | .ok _ => e.carryOut w tx request id hashes deadline world

def firstUnready? : (index : Nat) → List Transaction → Option (Nat × TransactionError)
  | _, [] => none
  | index, tx :: rest =>
      match tx.validateForExecution with
      | .error error => some (index, error)
      | .ok () => firstUnready? (index + 1) rest

/-- Submits one transaction after the other, each with a deadline of its own, until one fails.  The
first of them has the place `index` in the batch. -/
def submitEach (w : Surroundings σ) (timeout : Duration) :
    (index : Nat) → List Transaction → (e : Engine) → (receipts : List Receipt) → σ → BatchRun σ
  | _, [], e, receipts, world =>
      { ending := .answered receipts, registry := e.registry, world := world, batch := ⟨[]⟩
        parts := [] }
  | index, tx :: rest, e, receipts, world =>
      let (now, world) := w.timer world
      match now.plus? timeout with
      | none =>
          { ending := .halted .outOfRange, registry := e.registry, world := world
            batch := ⟨tx :: rest⟩, parts := [] }
      | some deadline =>
          let done := e.submit w tx deadline world
          let run := done.run
          match run.ending with
          | .halted halt =>
              { ending := .halted halt, registry := run.registry, world := run.world
                batch := ⟨done.transaction :: rest⟩, parts := [run.steps] }
          | .failed error =>
              { ending := .failed (.chunkFailed index receipts.length error)
                registry := run.registry
                world := run.world
                batch := ⟨done.transaction :: rest⟩
                parts := [run.steps] }
          | .answered receipt =>
              let others :=
                submitEach w timeout (index + 1) rest { e with registry := run.registry }
                  (receipts ++ [receipt]) run.world
              { others with
                batch := ⟨done.transaction :: others.batch.transactions⟩
                parts := run.steps :: others.parts }

/-- Submits the transactions of a batch in order, once all of them are known to be ready. -/
def submitAll (e : Engine) (w : Surroundings σ) (b : Batch) (timeout : Duration) (world : σ) :
    BatchRun σ :=
  match firstUnready? 0 b.transactions with
  | some (index, error) =>
      { ending := .failed (.chunkFailed index 0 (.transaction error))
        registry := e.registry
        world := world
        batch := b
        parts := [] }
  | none => submitEach w timeout 0 b.transactions e [] world

end Engine

end LedgerClient
