import LedgerClient.Delivery.Submission

/-!
# Clients

A client holds a configuration, the health of the configured nodes and, if it has one, an
operator: an account that pays for transactions, with its signer.  It fills in what a draft
leaves open, signs what the operator pays for and delivers with the configured timeout.
-/

namespace LedgerClient

structure Operator where
  account : AccountId
  signer : Signer

structure Client where
  config : Config
  engine : Engine
  operator : Option Operator

namespace Client

variable {σ : Type}

def new (config : Config) : Except ClientError Client :=
  match config.validate with
  | .error e => .error (.config e)
  | .ok () =>
      match config.registry with
      | .error e => .error (.config e)
      | .ok registry =>
          match Engine.new registry config.delivery with
          | .error e => .error (.config e)
          | .ok engine => .ok { config := config, engine := engine, operator := none }

def ofConfig (config : Config) : Except ClientError Client :=
  if config.transport = .secure then .error (.config .secureTransport) else new config

def withOperator (c : Client) (account : AccountId) (signer : Signer) : Client :=
  { c with operator := some { account := account, signer := signer } }

def registry (c : Client) : Registry :=
  c.engine.registry

def withRegistry (c : Client) (registry : Registry) : Client :=
  { c with engine := { c.engine with registry := registry } }

/-!
## Freezing
-/

/-- Changes made one after the other; those before the first that fails stay made. -/
def applyEach : List (Transaction → Except TransactionError Transaction) → Transaction →
    Transaction × Except TransactionError Unit
  | [], tx => (tx, .ok ())
  | change :: rest, tx =>
      match change tx with
      | .error e => (tx, .error e)
      | .ok changed => applyEach rest changed

def fillNodes (c : Client) (tx : Transaction) : Except TransactionError Transaction :=
  if tx.nodes.isEmpty then tx.setNodes c.registry.ids else .ok tx

def fillMaxFee (c : Client) (tx : Transaction) : Except TransactionError Transaction :=
  if tx.maxFee.isNone then tx.setMaxFee c.config.maxFee else .ok tx

def fillValidDuration (c : Client) (tx : Transaction) : Except TransactionError Transaction :=
  if tx.validDurationSecs.isNone then tx.setValidDurationSecs c.config.validDurationSecs
  else .ok tx

/-- Freezes a transaction that has an id, with the client's nodes, fee and duration where it has
none. -/
def freezeIdentified (c : Client) (tx : Transaction) :
    Transaction × Except TransactionError Unit :=
  applyEach [c.fillNodes, c.fillMaxFee, c.fillValidDuration, Transaction.freeze] tx

/-- Freezes a transaction; without an id it gets one of the operator, made now. -/
def freezeWith (c : Client) (w : Surroundings σ) (tx : Transaction) (world : σ) :
    Transaction × Except TransactionError Unit × σ :=
  match tx.id with
  | some _ =>
      let (tx, result) := c.freezeIdentified tx
      (tx, result, world)
  | none =>
      match c.operator with
      | none => (tx, .error (.missing .transactionId), world)
      | some operator =>
          let (now, world) := w.clock world
          let (nonce, world) := w.nonce world
          match tx.setId (TransactionId.generate operator.account now nonce) with
          | .error e => (tx, .error e, world)
          | .ok identified =>
              let (tx, result) := c.freezeIdentified identified
              (tx, result, world)

/-!
## Signing
-/

def pays (operator : Operator) (tx : Transaction) : Bool :=
  match tx.id with
  | none => false
  | some id => id.account == operator.account

/-- Adds the operator's signatures if the operator pays and has not signed yet. -/
def signWithOperator (c : Client) (tx : Transaction) : Except TransactionError Transaction :=
  match c.operator with
  | none => .ok tx
  | some operator =>
      if pays operator tx && !tx.isSignedBy operator.signer.publicKey then
        tx.sign operator.signer
      else .ok tx

/-- Adds the operator's signatures if the operator pays for every transaction. -/
def signBatchWithOperator (c : Client) (b : Batch) : Batch × Except TransactionError Unit :=
  match c.operator with
  | none => (b, .ok ())
  | some operator =>
      if b.transactions.all (pays operator) then b.sign operator.signer else (b, .ok ())

def chunk (c : Client) (tx : Transaction) : Except TransactionError Batch :=
  tx.chunk c.config.maxChunkSize.toNat c.config.maxChunks.toNat

/-!
## Delivery
-/

def haltTransaction (c : Client) (halt : Halt) (tx : Transaction) (world : σ) :
    TransactionRun σ :=
  { run := { ending := .halted halt, registry := c.registry, world := world, steps := [] }
    transaction := tx }

def submitFrozen (c : Client) (w : Surroundings σ) (tx : Transaction) (world : σ) :
    TransactionRun σ :=
  match c.signWithOperator tx with
  | .error e => c.engine.refuseTransaction (.transaction e) tx world
  | .ok signed =>
      let (now, world) := w.timer world
      match now.plus? c.config.requestTimeout with
      | none => c.haltTransaction .outOfRange signed world
      | some deadline => c.engine.submit w signed deadline world

def execute (c : Client) (w : Surroundings σ) (tx : Transaction) (world : σ) :
    TransactionRun σ :=
  if tx.state = .draft then
    match c.freezeWith w tx world with
    | (tx, .error e, world) => c.engine.refuseTransaction (.transaction e) tx world
    | (tx, .ok (), world) => c.submitFrozen w tx world
  else c.submitFrozen w tx world

def executeAll (c : Client) (w : Surroundings σ) (b : Batch) (world : σ) : BatchRun σ :=
  match c.signBatchWithOperator b with
  | (b, .error e) =>
      { ending := .failed (.transaction e)
        registry := c.registry
        world := world
        batch := b
        parts := [] }
  | (b, .ok ()) => c.engine.submitAll w b c.config.requestTimeout world

def query (c : Client) (w : Surroundings σ) (q : Query) (world : σ) : Run σ Response :=
  let (now, world) := w.timer world
  match now.plus? c.config.requestTimeout with
  | none => { ending := .halted .outOfRange, registry := c.registry, world := world, steps := [] }
  | some deadline => c.engine.query w q deadline world

/-!
## Health
-/

def report (c : Client) (now : Timestamp) : List Registry.Status :=
  c.registry.report now

/-- Forgets what is known of one node, or of all. -/
def resetHealth (c : Client) : Option NodeId → Except ClientError Client
  | none => .ok (c.withRegistry c.registry.resetAll)
  | some id =>
      match c.registry.resetHealth id with
      | .error e => .error e
      | .ok registry => .ok (c.withRegistry registry)

end Client

end LedgerClient
