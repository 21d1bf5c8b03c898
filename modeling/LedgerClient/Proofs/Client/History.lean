import LedgerClient.Proofs.Client.Calls
import LedgerClient.Proofs.Delivery.Sending
import LedgerClient.Proofs.Transaction.Growth
import LedgerClient.Proofs.Transaction.Reachable

/-!
# The history of a transaction

All that can be done with a transaction, alone or in a batch, by itself, by an engine or by a
client, and what any number of such calls leave of it once it is frozen.
-/

namespace LedgerClient

namespace Transaction

/-- What one call, failed or not, makes of a transaction.  A client that begins to deliver and does
not come back has signed for its operator and then begun, which are two of these. -/
inductive Undergoes : CallKind -> Transaction -> Transaction -> Prop where
  /-- Chunking, scheduling, hashing and writing octets only read. -/
  | read (tx : Transaction) : Undergoes .handling tx tx
  | setId (tx : Transaction) (id : TransactionId) :
      Undergoes .handling tx (tx.afterCall (tx.setId id))
  | setNodes (tx : Transaction) (nodes : List NodeId) :
      Undergoes .handling tx (tx.afterCall (tx.setNodes nodes))
  | setMaxFee (tx : Transaction) (fee : Amount) :
      Undergoes .handling tx (tx.afterCall (tx.setMaxFee fee))
  | setValidDurationSecs (tx : Transaction) (secs : UInt64) :
      Undergoes .handling tx (tx.afterCall (tx.setValidDurationSecs secs))
  | setMemo (tx : Transaction) (memo : String) :
      Undergoes .handling tx (tx.afterCall (tx.setMemo memo))
  | setOperation (tx : Transaction) (operation : Operation) :
      Undergoes .handling tx (tx.afterCall (tx.setOperation operation))
  | freeze (tx : Transaction) : Undergoes .handling tx (tx.afterCall tx.freeze)
  | freezeWith (tx : Transaction) (nodes : List NodeId) :
      Undergoes .handling tx (tx.freezeWith nodes).1
  | freezeFor {σ : Type} (tx : Transaction) (c : Client) (w : Surroundings σ) (world : σ) :
      Undergoes .handling tx (c.freezeWith w tx world).1
  | sign (tx : Transaction) (signer : Signer) :
      Undergoes .handling tx (tx.afterCall (tx.sign signer))
  | signWith {σ : Type} (tx : Transaction) (key : PublicKey)
      (sign : Bytes → σ → Signature × σ) (s : σ) :
      Undergoes .handling tx (tx.afterCall ((tx.signWith key sign s).map Prod.fst))
  | signBatch {b : Batch} {place : Nat} {tx later : Transaction} (signer : Signer) :
      b.get? place = some tx -> (b.sign signer).1.get? place = some later ->
      Undergoes .handling tx later
  | signBatchWith {σ : Type} {b : Batch} {place : Nat} {tx later : Transaction} (key : PublicKey)
      (sign : Bytes → σ → Signature × σ) (s : σ) :
      b.get? place = some tx -> (b.signWith key sign s).1.get? place = some later ->
      Undergoes .handling tx later
  | submit {σ : Type} (tx : Transaction) (e : Engine) (w : Surroundings σ) (deadline : Instant)
      (world : σ) :
      Undergoes (e.submit w tx deadline world).run.ending.kind tx
        (e.submit w tx deadline world).transaction
  | execute {σ : Type} (tx : Transaction) (c : Client) (w : Surroundings σ) (world : σ) :
      Undergoes (c.execute w tx world).run.ending.kind tx (c.execute w tx world).transaction
  | submitAll {σ : Type} {b : Batch} {place : Nat} {tx later : Transaction} (e : Engine)
      (w : Surroundings σ) (timeout : Duration) (world : σ) :
      b.get? place = some tx -> (e.submitAll w b timeout world).batch.get? place = some later ->
      Undergoes (e.submitAll w b timeout world).ending.kind tx later
  | executeAll {σ : Type} {b : Batch} {place : Nat} {tx later : Transaction} (c : Client)
      (w : Surroundings σ) (world : σ) :
      b.get? place = some tx -> (c.executeAll w b world).batch.get? place = some later ->
      Undergoes (c.executeAll w b world).ending.kind tx later
  /-- A submission that began and is no longer followed. -/
  | abandon {tx : Transaction} {e : Engine} {request : Request} {id : TransactionId}
      {hashes : List (NodeId × Hash)} : e.Admits tx request id hashes ->
      Undergoes .interruption tx tx.beginExecution

/-- What any number of calls of some kinds make of a transaction. -/
def Becomes (kinds : CallKind -> Prop) : Transaction -> Transaction -> Prop :=
  Relation.ReflTransGen fun tx later => exists kind, kinds kind ∧ Undergoes kind tx later

/-- How calls of some kinds may move the state of a transaction. -/
def MovesBy (kinds : CallKind -> Prop) (s t : TransactionState) : Prop :=
  exists kind, kinds kind ∧ TransactionState.Moves kind s t

variable {kind : CallKind} {tx later : Transaction}

/-!
## One call
-/

/-- A call that works on drafts alone leaves any other transaction as it is. -/
theorem afterCall_of_sealed (hsealed : tx.state ≠ .draft)
    {result : Except TransactionError Transaction}
    (h : forall changed, result = .ok changed -> tx.state = .draft) : tx.afterCall result = tx := by
  cases result with
  | error e => rfl
  | ok changed => exact (hsealed (h changed rfl)).elim

theorem freezeWith_of_sealed (hsealed : tx.state ≠ .draft) (nodes : List NodeId) :
    (tx.freezeWith nodes).1 = tx := by
  unfold Transaction.freezeWith
  cases hset : tx.setNodes nodes with
  | error e => rfl
  | ok addressed => exact (hsealed (requireDraft_bind_eq_ok hset).left).elim

theorem progresses_of_drafting (hsealed : tx.state ≠ .draft)
    {next : Except TransactionError Transaction} :
    Progresses (TransactionState.Moves kind) tx
      (tx.afterCall (do tx.requireDraft; next)) := by
  rw [afterCall_of_sealed hsealed fun _ hset => (requireDraft_bind_eq_ok hset).left]
  exact .refl _ tx

theorem rel_of_place {R : Transaction -> Transaction -> Prop} {before after : Batch} {place : Nat}
    (h : List.Forall₂ R before.transactions after.transactions)
    (htx : before.get? place = some tx) (hlater : after.get? place = some later) :
    R tx later := by
  rcases List.getElem?_eq_some_iff.mp htx with ⟨hbefore, hfirst⟩
  rcases List.getElem?_eq_some_iff.mp hlater with ⟨hafter, hsecond⟩
  have hplace := (List.forall₂_iff_get.mp h).right place hbefore hafter
  rwa [List.get_eq_getElem, List.get_eq_getElem, hfirst, hsecond] at hplace

theorem progresses_of_execute {σ : Type} (hsealed : tx.state ≠ .draft) (c : Client)
    (w : Surroundings σ) (world : σ) :
    Progresses (TransactionState.Moves (c.execute w tx world).run.ending.kind) tx
      (c.execute w tx world).transaction := by
  rw [Client.execute_of_sealed hsealed]
  have hsigned : forall signed kind, c.signWithOperator tx = .ok signed ->
      Progresses (TransactionState.Moves kind) tx signed := by
    intro signed kind hsign
    rcases Client.signWithOperator_eq_ok hsign with hsame | ⟨operator, _, _, hsigned⟩
    · rw [hsame]
      exact .refl _ tx
    · exact progresses_of_signWith kind (signWith_of_sign hsigned)
  rcases c.submitFrozen_cases w tx world with
    ⟨e, _, hrun⟩ | ⟨signed, hsign, ⟨_, hrun⟩ | ⟨deadline, _, hrun⟩⟩
  · rw [hrun]
    exact .refl _ tx
  · rw [hrun]
    exact hsigned signed _ hsign
  · rw [hrun]
    exact (hsigned signed _ hsign).trans (progresses_of_submit _ w signed deadline _)

theorem progresses_of_executeAll {σ : Type} (c : Client) (w : Surroundings σ) (b : Batch)
    (world : σ) :
    List.Forall₂ (Progresses (TransactionState.Moves (c.executeAll w b world).ending.kind))
      b.transactions (c.executeAll w b world).batch.transactions := by
  have hsigned : forall kind, List.Forall₂ (Progresses (TransactionState.Moves kind))
      b.transactions (c.signBatchWithOperator b).1.transactions := by
    intro kind
    rcases c.signBatchWithOperator_cases b with hsame | ⟨operator, _, _, hsign⟩
    · rw [hsame]
      exact List.forall₂_same.mpr fun tx _ => .refl _ tx
    · rw [hsign]
      exact signBatch_progresses kind b ()
  rcases c.executeAll_cases w b world with ⟨signed, e, hsign, hrun⟩ | ⟨signed, hsign, hrun⟩
  · rw [hsign] at hsigned
    rw [hrun]
    exact hsigned _
  · rw [hsign] at hsigned
    rw [hrun]
    exact forall₂_trans (fun hpq hqr => hpq.trans hqr) (hsigned _)
      (progresses_of_submitAll c.engine w signed _ world)

/-- Whatever is done with a transaction that is no draft, it progresses. -/
theorem progresses_of_undergoes (h : Undergoes kind tx later) (hsealed : tx.state ≠ .draft) :
    Progresses (TransactionState.Moves kind) tx later := by
  cases h with
  | read _ => exact .refl _ tx
  | setId _ id => exact progresses_of_drafting hsealed
  | setNodes _ nodes => exact progresses_of_drafting hsealed
  | setMaxFee _ fee => exact progresses_of_drafting hsealed
  | setValidDurationSecs _ secs => exact progresses_of_drafting hsealed
  | setMemo _ memo => exact progresses_of_drafting hsealed
  | setOperation _ operation => exact progresses_of_drafting hsealed
  | freeze _ =>
      rw [afterCall_of_sealed hsealed fun _ hfreeze => (freeze_eq_ok hfreeze).left]
      exact .refl _ tx
  | freezeWith _ nodes =>
      rw [freezeWith_of_sealed hsealed]
      exact .refl _ tx
  | freezeFor _ c w world =>
      rcases c.freezeWith_of_sealed w hsealed world with ⟨e, started, hfreeze⟩
      rw [hfreeze]
      exact .refl _ tx
  | sign _ signer =>
      cases hsign : tx.sign signer with
      | error e => exact .refl _ tx
      | ok signed => exact progresses_of_signWith _ (signWith_of_sign hsign)
  | signWith _ key sign s =>
      cases hsign : tx.signWith key sign s with
      | error e => exact .refl _ tx
      | ok done =>
          rcases done with ⟨signed, after⟩
          exact progresses_of_signWith _ hsign
  | signBatch signer htx hlater =>
      exact rel_of_place (signBatch_progresses _ _ ()) htx hlater
  | signBatchWith key sign s htx hlater =>
      exact rel_of_place (signBatch_progresses _ _ s) htx hlater
  | submit _ e w deadline world => exact progresses_of_submit e w tx deadline world
  | execute _ c w world => exact progresses_of_execute hsealed c w world
  | submitAll e w timeout world htx hlater =>
      exact rel_of_place (progresses_of_submitAll e w _ timeout world) htx hlater
  | executeAll c w world htx hlater =>
      exact rel_of_place (progresses_of_executeAll c w _ world) htx hlater
  | abandon hadmits => exact .move hadmits.isReady.state .begun

/-!
## Any number of calls
-/

theorem ne_draft_of_path {kinds : CallKind -> Prop} {s t : TransactionState}
    (h : Relation.ReflTransGen (MovesBy kinds) s t) (hs : s ≠ .draft) : t ≠ .draft := by
  cases h with
  | refl => exact hs
  | tail _ hlast =>
      rcases hlast with ⟨kind, _, hmove⟩
      exact hmove.ne_draft

theorem progresses_of_becomes {kinds : CallKind -> Prop} (hsealed : tx.state ≠ .draft)
    (h : Becomes kinds tx later) : Progresses (MovesBy kinds) tx later := by
  induction h with
  | refl => exact .refl _ tx
  | tail _ hlast ih =>
      rcases hlast with ⟨kind, hkind, hundergoes⟩
      have hnext := progresses_of_undergoes hundergoes (ne_draft_of_path ih.path hsealed)
      exact ih.trans (hnext.mono fun s t hmove => ⟨kind, hkind, hmove⟩)

/-- From the moment it is no draft any more a transaction keeps its fields and bodies, whatever is
called, and its payloads keep all signatures they have and get new ones behind them.  The state
moves as the calls allow and stays where it is for good at the end of a delivery. -/
theorem frozen_only_grows {kinds : CallKind -> Prop} (hsealed : tx.state ≠ .draft)
    (h : Becomes kinds tx later) :
    tx.GrowsTo later ∧
      (forall (place : Nat) (p : Payload), tx.payloads[place]? = some p ->
        exists q, later.payloads[place]? = some q ∧ p.Extends q ∧
          forall key signature, p.signatures.get? key = some signature ->
            q.signatures.get? key = some signature) ∧
      Relation.ReflTransGen (MovesBy kinds) tx.state later.state ∧
      (tx.state.isTerminal = true -> later = tx) := by
  have hprogresses := progresses_of_becomes hsealed h
  refine ⟨hprogresses.grows, ?_, hprogresses.path, ?_⟩
  · intro place p hp
    rcases List.getElem?_eq_some_iff.mp hp with ⟨hplace, hget⟩
    have heach := List.forall₂_iff_get.mp hprogresses.grows.payloads
    have hlater : place < later.payloads.length := by
      rw [← heach.left]
      exact hplace
    have hextends := heach.right place hplace hlater
    rw [List.get_eq_getElem, List.get_eq_getElem, hget] at hextends
    exact ⟨_, List.getElem?_eq_getElem hlater, hextends,
      fun _ _ hsignature => SignatureMap.get?_of_prefix hextends.signatures hsignature⟩
  · intro hterminal
    apply hprogresses.still
    · intro hfrozen
      rw [hfrozen] at hterminal
      cases hterminal
    · intro hsigned
      rw [hsigned] at hterminal
      cases hterminal

/-- A frozen transfer to one node. -/
def frozenTransfer : Transaction :=
  let draft := new (.transfer (some ⟨.fill 32 7⟩) 5)
  let named := draft.afterCall (draft.setId (.new ⟨.fill 32 7⟩ 1000))
  (named.freezeWith [⟨3⟩]).1

/-- The transfer is signed and accepted, and says what it said when it was frozen. -/
theorem frozenTransfer_grows :
    exists later, Becomes (fun kind => kind ≠ .interruption) frozenTransfer later ∧
      frozenTransfer.state ≠ .draft ∧ later.state = .completed ∧ frozenTransfer.GrowsTo later := by
  have hsealed : frozenTransfer.state ≠ .draft := by decide
  have hsigned : Undergoes .handling frozenTransfer soleTransfer :=
    .sign frozenTransfer ⟨.fill 32 1, fun _ => .fill 64 2⟩
  have hsubmitted : Undergoes acceptedRun.run.ending.kind soleTransfer acceptedRun.transaction :=
    .submit soleTransfer soleEngine accepting (Instant.ofMillis 10000) false
  have hreturned : acceptedRun.run.ending.kind ≠ .interruption := by
    decide +kernel
  have hbecomes : Becomes (fun kind => kind ≠ .interruption) frozenTransfer
      acceptedRun.transaction :=
    (Relation.ReflTransGen.single ⟨_, by decide, hsigned⟩).tail ⟨_, hreturned, hsubmitted⟩
  exact ⟨_, hbecomes, hsealed, acceptedRun_state, (frozen_only_grows hsealed hbecomes).left⟩

end Transaction

end LedgerClient
