import LedgerClient.Proofs.Delivery.Submission
import LedgerClient.Proofs.Transaction.Coherent
import LedgerClient.Proofs.Wire.Values

/-!
# Reachable transactions

A transaction that was made here came about by a sequence of calls, some of which may have
failed.  Every such transaction is coherent, and its bodies say what its fields say.
-/

namespace LedgerClient

namespace Transaction

/-- A transaction after a call that changes nothing when it fails. -/
def afterCall (tx : Transaction) : Except TransactionError Transaction → Transaction
  | .ok changed => changed
  | .error _ => tx

/-- What one call, failed or not, makes of a transaction. -/
inductive Changes : Transaction -> Transaction -> Prop where
  | setId (tx : Transaction) (id : TransactionId) : Changes tx (tx.afterCall (tx.setId id))
  | setNodes (tx : Transaction) (nodes : List NodeId) :
      Changes tx (tx.afterCall (tx.setNodes nodes))
  | setMaxFee (tx : Transaction) (fee : Amount) : Changes tx (tx.afterCall (tx.setMaxFee fee))
  | setValidDurationSecs (tx : Transaction) (secs : UInt64) :
      Changes tx (tx.afterCall (tx.setValidDurationSecs secs))
  | setMemo (tx : Transaction) (memo : String) : Changes tx (tx.afterCall (tx.setMemo memo))
  | setOperation (tx : Transaction) (operation : Operation) :
      Changes tx (tx.afterCall (tx.setOperation operation))
  | freeze (tx : Transaction) : Changes tx (tx.afterCall tx.freeze)
  | freezeWith (tx : Transaction) (nodes : List NodeId) : Changes tx (tx.freezeWith nodes).1
  | sign (tx : Transaction) (signer : Signer) : Changes tx (tx.afterCall (tx.sign signer))
  | signWith {σ : Type} (tx : Transaction) (key : PublicKey)
      (sign : Bytes → σ → Signature × σ) (s : σ) :
      Changes tx (tx.afterCall ((tx.signWith key sign s).map Prod.fst))
  | submit {σ : Type} (tx : Transaction) (e : Engine) (w : Surroundings σ) (deadline : Instant)
      (world : σ) : Changes tx (e.submit w tx deadline world).transaction
  /-- A submission that began and is no longer followed. -/
  | abandon {tx : Transaction} {e : Engine} {request : Request} {id : TransactionId}
      {hashes : List (NodeId × Hash)} : e.Admits tx request id hashes ->
      Changes tx tx.beginExecution

inductive Reachable : Transaction -> Prop where
  | new (operation : Operation) : Reachable (new operation)
  | changed {tx changed : Transaction} : Reachable tx -> Changes tx changed -> Reachable changed
  | chunk {tx part : Transaction} {size maxChunks : Nat} {b : Batch} : Reachable tx ->
      tx.chunk size maxChunks = .ok b -> part ∈ b.transactions -> Reachable part
  | schedule {tx wrapped : Transaction} : Reachable tx -> tx.schedule = .ok wrapped ->
      Reachable wrapped

variable {tx changed : Transaction}

theorem Coherent.afterCall (h : tx.Coherent) {result : Except TransactionError Transaction}
    (hok : forall changed, result = .ok changed -> changed.Coherent) :
    (tx.afterCall result).Coherent := by
  cases result with
  | error e => exact h
  | ok changed => exact hok changed rfl

/-- A transaction that could be submitted was signed. -/
theorem Coherent.afterDelivery (h : tx.Coherent) (hready : tx.IsReady) {state : TransactionState}
    (hafter : state ≠ .draft ∧ state ≠ .frozen) : Coherent { tx with state := state } := by
  apply h.withState _ hafter
  rw [hready.state]
  exact ⟨by decide, by decide⟩

theorem Coherent.submit {σ : Type} (h : tx.Coherent) (e : Engine) (w : Surroundings σ)
    (deadline : Instant) (world : σ) : (e.submit w tx deadline world).transaction.Coherent := by
  rcases e.submit_reports w tx deadline world with
    ⟨error, _, hrun⟩ | ⟨hready, state, hreports, hdone⟩
  · rw [hrun]
    exact h
  · rw [hdone]
    exact h.afterDelivery hready hreports.sealed

theorem coherent_of_changes (hchanges : Changes tx changed) (h : tx.Coherent) :
    changed.Coherent := by
  cases hchanges with
  | setId _ id => exact h.afterCall fun _ hset => h.setId hset
  | setNodes _ nodes => exact h.afterCall fun _ hset => h.setNodes hset
  | setMaxFee _ fee => exact h.afterCall fun _ hset => h.setMaxFee hset
  | setValidDurationSecs _ secs => exact h.afterCall fun _ hset => h.setValidDurationSecs hset
  | setMemo _ memo => exact h.afterCall fun _ hset => h.setMemo hset
  | setOperation _ operation => exact h.afterCall fun _ hset => h.setOperation hset
  | freeze _ => exact h.afterCall fun _ hfreeze => h.freeze hfreeze
  | freezeWith _ nodes => exact h.freezeWith nodes
  | sign _ signer => exact h.afterCall fun _ hsign => h.sign hsign
  | signWith _ key sign s =>
      apply h.afterCall
      intro signed hsign
      cases hwith : tx.signWith key sign s with
      | error e =>
          rw [hwith] at hsign
          cases hsign
      | ok done =>
          rcases done with ⟨other, after⟩
          rw [hwith] at hsign
          cases hsign
          exact h.signWith hwith
  | submit _ e w deadline world => exact h.submit e w deadline world
  | abandon hadmits => exact h.afterDelivery hadmits.isReady ⟨by decide, by decide⟩

theorem coherent_of_reachable (h : Reachable tx) : tx.Coherent := by
  induction h with
  | new operation => exact coherent_new operation
  | changed _ hchanges ih => exact coherent_of_changes hchanges ih
  | chunk _ hchunk hpart ih => exact ih.chunk hchunk _ hpart
  | schedule _ hschedule _ => exact coherent_of_schedule hschedule

/-!
## What the bodies say
-/

/-- The body of a payload says what the transaction says. -/
structure Speaks (tx : Transaction) (p : Payload) (body : Body) : Prop where
  id : tx.id = some body.transactionId
  node : body.node = p.node
  maxFee : tx.maxFee = some body.maxFee
  validDuration : tx.validDurationSecs = some body.validDurationSecs
  memo : body.memo = tx.memo
  operation : body.operation = tx.operation

/-- The body of a payload is read as what the transaction says. -/
theorem IsSealed.readable {id : TransactionId} {fee : Amount} {secs : UInt64}
    {signers : List PublicKey} (h : tx.IsSealed id fee secs signers) {p : Payload}
    (hp : p ∈ tx.payloads) (hcount : Codec.Countable p.body) :
    exists body, Body.codec.decode p.body = .ok (body, []) ∧ tx.Speaks p body := by
  rw [h.bodies p hp] at hcount
  have hread := Body.lossless_codec _ hcount []
  rw [List.append_nil, ← h.bodies p hp] at hread
  exact ⟨_, hread, h.identified, rfl, h.maxFee, h.validDuration, rfl, rfl⟩

/-- Everything that can be relied upon in a transaction. -/
structure Consistent (tx : Transaction) : Prop where
  draft : tx.state = .draft -> tx.payloads = []
  sealed : tx.state ≠ .draft ->
    exists id fee secs signers, tx.IsSealed id fee secs signers ∧ secs ≠ 0
  memo : tx.memo.utf8ByteSize ≤ maxMemoLength
  /-- No octets in memory are more than a length can count. -/
  readable : forall p, p ∈ tx.payloads -> Codec.Countable p.body ->
    exists body, Body.codec.decode p.body = .ok (body, []) ∧ tx.Speaks p body
  unsigned : tx.state = .frozen -> forall p, p ∈ tx.payloads -> p.signatures.isEmpty = true
  signed : tx.state ≠ .draft -> tx.state ≠ .frozen ->
    forall p, p ∈ tx.payloads -> p.signatures.isEmpty = false

theorem Coherent.consistent (h : tx.Coherent) : tx.Consistent where
  draft := h.draft
  sealed := by
    intro hfrozen
    rcases h.sealed hfrozen with ⟨id, fee, secs, signers, hsealed⟩
    refine ⟨id, fee, secs, signers, hsealed, ?_⟩
    intro hzero
    apply h.duration
    rw [hsealed.validDuration, hzero]
  memo := h.memo
  readable := by
    intro p hp hcount
    by_cases hdraft : tx.state = .draft
    · rw [h.draft hdraft] at hp
      cases hp
    · rcases h.sealed hdraft with ⟨id, fee, secs, signers, hsealed⟩
      exact hsealed.readable hp hcount
  unsigned := by
    intro hfrozen p hp
    have hother : tx.state ≠ .draft := by
      rw [hfrozen]
      decide
    rcases h.sealed hother with ⟨id, fee, secs, signers, hsealed⟩
    rw [SignatureMap.isEmpty_iff, hsealed.signed p hp]
    exact hsealed.unsigned.mp hfrozen
  signed := by
    intro hdraft hfrozen p hp
    rcases h.sealed hdraft with ⟨id, fee, secs, signers, hsealed⟩
    cases hempty : p.signatures.isEmpty with
    | false => rfl
    | true =>
        rw [SignatureMap.isEmpty_iff, hsealed.signed p hp] at hempty
        exact (hfrozen (hsealed.unsigned.mpr hempty)).elim

theorem consistent_of_reachable (h : Reachable tx) : tx.Consistent :=
  (coherent_of_reachable h).consistent

/-- A transfer to two nodes by an account that has signed it. -/
def signedTransfer (account : AccountId) (amount : Amount) (signer : Signer) : Transaction :=
  let draft := new (.transfer (some account) amount)
  let named := draft.afterCall (draft.setId (.new account 1000))
  let frozen := (named.freezeWith [⟨3⟩, ⟨4⟩]).1
  frozen.afterCall (frozen.sign signer)

theorem reachable_signedTransfer (account : AccountId) (amount : Amount) (signer : Signer) :
    Reachable (signedTransfer account amount signer) := by
  have hdraft := Reachable.new (.transfer (some account) amount)
  have hnamed := hdraft.changed (.setId _ (.new account 1000))
  have hfrozen := hnamed.changed (.freezeWith _ [⟨3⟩, ⟨4⟩])
  exact hfrozen.changed (.sign _ signer)

theorem consistent_signedTransfer :
    exists tx, Reachable tx ∧ tx.state = .signed ∧
      (forall p, p ∈ tx.payloads -> Codec.Countable p.body) ∧ tx.Consistent := by
  have hreachable :=
    reachable_signedTransfer ⟨.fill 32 7⟩ 5 ⟨.fill 32 1, fun _ => .fill 64 2⟩
  refine ⟨_, hreachable, rfl, ?_, consistent_of_reachable hreachable⟩
  simp only [Codec.countable_iff]
  decide +kernel

end Transaction

end LedgerClient
