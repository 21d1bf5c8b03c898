import Mathlib.Logic.Relation
import LedgerClient.Proofs.Delivery.Series
import LedgerClient.Proofs.Transaction.Signing

/-!
# What frozen transactions become

From the moment a transaction is frozen its fields and bodies stay as they are.  Signatures
are added behind those that are there, and the state goes from frozen to signed and, by a
delivery, from there to its end.  This module says so of one step and shows it of signing and
of submission.
-/

namespace LedgerClient

theorem forall₂_trans {α : Type} {r : α -> α -> Prop}
    (htrans : forall {a b c : α}, r a b -> r b c -> r a c) {as bs cs : List α}
    (hfirst : List.Forall₂ r as bs) (hsecond : List.Forall₂ r bs cs) : List.Forall₂ r as cs := by
  induction hfirst generalizing cs with
  | nil => exact hsecond
  | cons hhead _ ih =>
      cases hsecond with
      | cons hnext hrest => exact .cons (htrans hhead hnext) (ih hrest)

theorem SignatureMap.get?_of_prefix {m later : SignatureMap} (h : m.pairs <+: later.pairs)
    {key : PublicKey} {signature : Signature} (hget : m.get? key = some signature) :
    later.get? key = some signature := by
  rcases h with ⟨added, hpairs⟩
  unfold get? at hget ⊢
  rw [← hpairs, List.find?_append]
  cases hfind : m.pairs.find? (fun p => p.publicKey == key) with
  | none =>
      rw [hfind] at hget
      cases hget
  | some pair =>
      rw [hfind] at hget
      exact hget

/-- The same body for the same node, with more signatures behind those it had. -/
structure Payload.Extends (p later : Payload) : Prop where
  node : later.node = p.node
  body : later.body = p.body
  signatures : p.signatures.pairs <+: later.signatures.pairs

namespace Payload

variable {key : PublicKey} {p q r : Payload}

theorem Extends.refl (p : Payload) : p.Extends p where
  node := rfl
  body := rfl
  signatures := List.prefix_refl _

theorem Extends.trans (hpq : p.Extends q) (hqr : q.Extends r) : p.Extends r where
  node := hqr.node.trans hpq.node
  body := hqr.body.trans hpq.body
  signatures := hpq.signatures.trans hqr.signatures

theorem SignedBy.extends (h : SignedBy key p q) : p.Extends q := by
  cases h with
  | before _ => exact .refl p
  | now signature _ =>
      exact { node := rfl, body := rfl, signatures := List.prefix_append _ _ }

end Payload

/-!
## Steps
-/

/-- What a call does with a transaction. -/
inductive CallKind where
  /-- It delivers nothing. -/
  | handling
  /-- It delivers the transaction, or declines to, and comes back with a result. -/
  | execution
  /-- It begins to deliver the transaction and does not come back. -/
  | interruption
deriving DecidableEq

def Ending.kind {α : Type} : Ending α → CallKind
  | .halted _ => .interruption
  | _ => .execution

theorem Ending.kind_ne_handling {α : Type} (ending : Ending α) : ending.kind ≠ .handling := by
  cases ending with
  | answered _ => exact CallKind.noConfusion
  | failed _ => exact CallKind.noConfusion
  | halted _ => exact CallKind.noConfusion

/-- How a call of some kind may move the state of a transaction that is not a draft. -/
inductive TransactionState.Moves : CallKind -> TransactionState -> TransactionState -> Prop where
  | signed (kind : CallKind) : Moves kind .frozen .signed
  | completed {kind : CallKind} : kind ≠ .handling -> Moves kind .signed .completed
  | failed {kind : CallKind} : kind ≠ .handling -> Moves kind .signed .failed
  | begun : Moves .interruption .signed .executing

theorem TransactionState.Moves.ne_draft {kind : CallKind} {s t : TransactionState}
    (h : Moves kind s t) : t ≠ .draft := by
  cases h with
  | signed _ => decide
  | completed _ => decide
  | failed _ => decide
  | begun => decide

namespace Transaction

/-- The same fields, and payloads with the same bodies and more signatures. -/
structure GrowsTo (tx later : Transaction) : Prop where
  id : later.id = tx.id
  nodes : later.nodes = tx.nodes
  maxFee : later.maxFee = tx.maxFee
  validDuration : later.validDurationSecs = tx.validDurationSecs
  memo : later.memo = tx.memo
  operation : later.operation = tx.operation
  payloads : List.Forall₂ Payload.Extends tx.payloads later.payloads

/-- A transaction grows while its state goes by some moves. -/
structure Progresses (moves : TransactionState -> TransactionState -> Prop)
    (tx later : Transaction) : Prop where
  grows : tx.GrowsTo later
  path : Relation.ReflTransGen moves tx.state later.state
  /-- Nothing is done any more with what is neither frozen nor signed. -/
  still : tx.state ≠ .frozen -> tx.state ≠ .signed -> later = tx

variable {tx between later : Transaction}

theorem GrowsTo.withState (tx : Transaction) (state : TransactionState) :
    tx.GrowsTo { tx with state := state } where
  id := rfl
  nodes := rfl
  maxFee := rfl
  validDuration := rfl
  memo := rfl
  operation := rfl
  payloads := List.forall₂_same.mpr fun p _ => .refl p

theorem GrowsTo.trans (hfirst : tx.GrowsTo between) (hsecond : between.GrowsTo later) :
    tx.GrowsTo later where
  id := hsecond.id.trans hfirst.id
  nodes := hsecond.nodes.trans hfirst.nodes
  maxFee := hsecond.maxFee.trans hfirst.maxFee
  validDuration := hsecond.validDuration.trans hfirst.validDuration
  memo := hsecond.memo.trans hfirst.memo
  operation := hsecond.operation.trans hfirst.operation
  payloads := forall₂_trans (fun hpq hqr => hpq.trans hqr) hfirst.payloads hsecond.payloads

section

variable {moves others : TransactionState -> TransactionState -> Prop}

theorem Progresses.refl (moves : TransactionState -> TransactionState -> Prop)
    (tx : Transaction) : Progresses moves tx tx where
  grows := .withState tx tx.state
  path := .refl
  still := fun _ _ => rfl

theorem Progresses.trans (hfirst : Progresses moves tx between)
    (hsecond : Progresses moves between later) : Progresses moves tx later where
  grows := hfirst.grows.trans hsecond.grows
  path := hfirst.path.trans hsecond.path
  still := by
    intro hfrozen hsigned
    have hsame := hfirst.still hfrozen hsigned
    rw [hsame] at hsecond
    exact hsecond.still hfrozen hsigned

theorem Progresses.mono (hmoves : forall s t, moves s t -> others s t)
    (h : Progresses moves tx later) : Progresses others tx later where
  grows := h.grows
  path := Relation.ReflTransGen.mono hmoves _ _ h.path
  still := h.still

/-- A signed transaction moves on and changes in nothing else. -/
theorem Progresses.move (hsigned : tx.state = .signed) {state : TransactionState}
    (hmove : moves .signed state) : Progresses moves tx { tx with state := state } where
  grows := .withState tx state
  path := by
    rw [hsigned]
    exact .single hmove
  still := fun _ hother => (hother hsigned).elim

end

/-!
## Signing
-/

section

variable {σ : Type} {key : PublicKey} {sign : Bytes → σ → Signature × σ}

theorem progresses_of_signWith (kind : CallKind) {s after : σ}
    (h : tx.signWith key sign s = .ok (later, after)) :
    Progresses (TransactionState.Moves kind) tx later := by
  rcases signWith_eq_ok h with ⟨hstate, _, payloads, hpayloads, hsigned⟩
  rw [hsigned]
  constructor
  case grows =>
    constructor
    case payloads => exact hpayloads.imp fun _ _ hsignedBy => hsignedBy.extends
    all_goals rfl
  case path =>
    rcases hstate with hfrozen | hagain
    · rw [hfrozen]
      exact .single (.signed kind)
    · rw [hagain]
  case still =>
    intro hfrozen hagain
    rcases hstate with hfirst | hsecond
    · exact (hfrozen hfirst).elim
    · exact (hagain hsecond).elim

/-- What signing does to each transaction it does to those of a batch, as far as it gets. -/
theorem signEach_rel {R : Transaction -> Transaction -> Prop} (hrefl : forall tx, R tx tx)
    (hsign : forall tx signed s after, tx.signWith key sign s = .ok (signed, after) -> R tx signed)
    (txs : List Transaction) (s : σ) : List.Forall₂ R txs (Batch.signEach key sign txs s).1 := by
  induction txs generalizing s with
  | nil => exact .nil
  | cons tx rest ih =>
      rw [Batch.signEach]
      cases hwith : tx.signWith key sign s with
      | error e => exact List.forall₂_same.mpr fun other _ => hrefl other
      | ok done =>
          rcases done with ⟨signed, after⟩
          exact .cons (hsign tx signed s after hwith) (ih after)

theorem signBatch_rel {R : Transaction -> Transaction -> Prop} (hrefl : forall tx, R tx tx)
    (hsign : forall tx signed s after, tx.signWith key sign s = .ok (signed, after) -> R tx signed)
    (b : Batch) (s : σ) :
    List.Forall₂ R b.transactions (b.signWith key sign s).1.transactions := by
  unfold Batch.signWith
  cases checkSigner key (b.transactions.flatMap Transaction.payloads) with
  | error e => exact List.forall₂_same.mpr fun tx _ => hrefl tx
  | ok checked => exact signEach_rel hrefl hsign b.transactions s

theorem signBatch_progresses (kind : CallKind) (b : Batch) (s : σ) :
    List.Forall₂ (Progresses (TransactionState.Moves kind)) b.transactions
      (b.signWith key sign s).1.transactions :=
  signBatch_rel (.refl _) (fun _ _ _ _ h => progresses_of_signWith kind h) b s

end

/-!
## Submission
-/

section

variable {σ : Type}

theorem progresses_of_reports {course : List Step} {ending : Ending Receipt}
    {state : TransactionState} (hsigned : tx.state = .signed)
    (h : Engine.Reports tx course ending state) :
    Progresses (TransactionState.Moves ending.kind) tx { tx with state := state } := by
  have hsame : { tx with state := .signed } = tx := by rw [← hsigned]
  cases h with
  | completed receipt _ => exact .move hsigned (.completed (Ending.kind_ne_handling _))
  | failed node code => exact .move hsigned (.failed (Ending.kind_ne_handling _))
  | exhausted attempts nodes setback =>
      rw [hsame]
      exact .refl _ tx
  | cancelled =>
      rw [hsame]
      exact .refl _ tx
  | halted halt => exact .move hsigned .begun

theorem progresses_of_submit (e : Engine) (w : Surroundings σ) (tx : Transaction)
    (deadline : Instant) (world : σ) :
    Progresses (TransactionState.Moves (e.submit w tx deadline world).run.ending.kind) tx
      (e.submit w tx deadline world).transaction := by
  rcases e.submit_reports w tx deadline world with
    ⟨error, _, hrun⟩ | ⟨hready, state, hreports, hdone⟩
  · rw [hrun]
    exact .refl _ tx
  · rw [hdone]
    exact progresses_of_reports hready.state hreports

/-- Each transaction of a series was submitted or was not touched. -/
theorem progresses_of_series {index : Nat} {receipts : List Receipt} {txs after : List Transaction}
    {ending : Ending (List Receipt)} {parts : List (List Step)}
    (h : Series index receipts txs ending after parts)
    (hready : forall tx, tx ∈ txs -> tx.IsReady) :
    List.Forall₂ (Progresses (TransactionState.Moves ending.kind)) txs after := by
  induction h with
  | finished => exact .nil
  | accepted _ _ _ ih =>
      rw [List.forall_mem_cons] at hready
      exact .cons (.move hready.left.state (.completed (Ending.kind_ne_handling _)))
        (ih hready.right)
  | @broken _ _ tx _ _ _ state _ hstate =>
      rw [List.forall_mem_cons] at hready
      have hsigned := hready.left.state
      refine .cons ?_ (List.forall₂_same.mpr fun other _ => .refl _ other)
      by_cases hsame : state = tx.state
      · rw [hsame]
        exact .refl _ tx
      · have hfailed : state = .failed := by
          rcases hstate with hfailed | hagain | hunchanged
          · exact hfailed
          · exact (hsame (hagain.trans hsigned.symm)).elim
          · exact (hsame hunchanged).elim
        rw [hfailed]
        exact .move hsigned (.failed (Ending.kind_ne_handling _))
  | halted _ =>
      rw [List.forall_mem_cons] at hready
      exact .cons (.move hready.left.state .begun)
        (List.forall₂_same.mpr fun other _ => .refl _ other)
  | untimed => exact List.forall₂_same.mpr fun other _ => .refl _ other

theorem progresses_of_submitAll (e : Engine) (w : Surroundings σ) (b : Batch) (timeout : Duration)
    (world : σ) :
    List.Forall₂ (Progresses (TransactionState.Moves (e.submitAll w b timeout world).ending.kind))
      b.transactions (e.submitAll w b timeout world).batch.transactions := by
  unfold Engine.submitAll
  cases hfirst : Engine.firstUnready? 0 b.transactions with
  | none =>
      exact progresses_of_series (Engine.submitEach_series w timeout 0 b.transactions e [] world)
        (Engine.firstUnready?_eq_none.mp hfirst)
  | some found => exact List.forall₂_same.mpr fun tx _ => .refl _ tx

end

end Transaction

end LedgerClient
