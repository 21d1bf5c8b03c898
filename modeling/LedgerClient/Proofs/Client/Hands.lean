import LedgerClient.Client

/-!
# Calls through other hands

In a call a client turns to others: to the signer of its operator and to the engine.  Here the calls
are written once for whomever it turns to, and these may keep something of what they are asked for.
Hands that do what the signer and the engine do leave a call as it is, whatever they keep.
-/

namespace LedgerClient

variable {σ τ : Type}

/-- Whom a client turns to in a call. -/
structure Hands (σ τ : Type) where
  sign : Signer → Bytes → τ → Signature × τ
  submit : Engine → Surroundings σ → Transaction → Instant → σ → τ → TransactionRun σ × τ
  submitAll : Engine → Surroundings σ → Batch → Duration → σ → τ → BatchRun σ × τ

/-- Hands that do what the signer and the engine do. -/
structure Hands.AreTrue (h : Hands σ τ) : Prop where
  sign : forall s body kept, (h.sign s body kept).1 = s.sign body
  submit : forall e w tx deadline world kept,
    (h.submit e w tx deadline world kept).1 = e.submit w tx deadline world
  submitAll : forall e w b timeout world kept,
    (h.submitAll e w b timeout world kept).1 = e.submitAll w b timeout world

/-!
## Calls
-/

namespace Client

def signWithOperatorBy (h : Hands σ τ) (c : Client) (tx : Transaction) (kept : τ) :
    Except TransactionError Transaction × τ :=
  match c.operator with
  | none => (.ok tx, kept)
  | some operator =>
      if pays operator tx && !tx.isSignedBy operator.signer.publicKey then
        match tx.signWith operator.signer.publicKey (h.sign operator.signer) kept with
        | .error e => (.error e, kept)
        | .ok (signed, kept) => (.ok signed, kept)
      else (.ok tx, kept)

def signBatchWithOperatorBy (h : Hands σ τ) (c : Client) (b : Batch) (kept : τ) :
    (Batch × Except TransactionError Unit) × τ :=
  match c.operator with
  | none => ((b, .ok ()), kept)
  | some operator =>
      if b.transactions.all (pays operator) then
        let (b, kept, result) :=
          b.signWith operator.signer.publicKey (h.sign operator.signer) kept
        ((b, result), kept)
      else ((b, .ok ()), kept)

def submitFrozenBy (h : Hands σ τ) (c : Client) (w : Surroundings σ) (tx : Transaction) (world : σ)
    (kept : τ) : TransactionRun σ × τ :=
  match c.signWithOperatorBy h tx kept with
  | (.error e, kept) => (c.engine.refuseTransaction (.transaction e) tx world, kept)
  | (.ok signed, kept) =>
      let (now, world) := w.timer world
      match now.plus? c.config.requestTimeout with
      | none => (c.haltTransaction .outOfRange signed world, kept)
      | some deadline => h.submit c.engine w signed deadline world kept

def executeBy (h : Hands σ τ) (c : Client) (w : Surroundings σ) (tx : Transaction) (world : σ)
    (kept : τ) : TransactionRun σ × τ :=
  if tx.state = .draft then
    match c.freezeWith w tx world with
    | (tx, .error e, world) => (c.engine.refuseTransaction (.transaction e) tx world, kept)
    | (tx, .ok (), world) => c.submitFrozenBy h w tx world kept
  else c.submitFrozenBy h w tx world kept

def executeAllBy (h : Hands σ τ) (c : Client) (w : Surroundings σ) (b : Batch) (world : σ)
    (kept : τ) : BatchRun σ × τ :=
  match c.signBatchWithOperatorBy h b kept with
  | ((b, .error e), kept) =>
      ({ ending := .failed (.transaction e)
         registry := c.registry
         world := world
         batch := b
         parts := [] }, kept)
  | ((b, .ok ()), kept) => h.submitAll c.engine w b c.config.requestTimeout world kept

end Client

/-!
## Signing
-/

section

variable {s : Signer} {sign : Bytes → τ → Signature × τ}

namespace Transaction

theorem signPayloads_fst (hsign : forall body kept, (sign body kept).1 = s.sign body)
    (payloads : List Payload) (kept : τ) :
    (signPayloads s.publicKey sign payloads kept).1 =
      (signPayloads s.publicKey (fun body (_ : Unit) => (s.sign body, ())) payloads ()).1 := by
  induction payloads generalizing kept with
  | nil => rfl
  | cons p rest ih =>
      rw [signPayloads, signPayloads]
      cases p.signatures.contains s.publicKey with
      | true => simp [ih]
      | false => simp [ih, hsign]

theorem signWith_fst (hsign : forall body kept, (sign body kept).1 = s.sign body)
    (tx : Transaction) (kept : τ) :
    (tx.signWith s.publicKey sign kept).map Prod.fst = tx.sign s := by
  have hpayloads := signPayloads_fst hsign tx.payloads kept
  unfold Transaction.sign signWith
  cases tx.requireSignable with
  | error e => rfl
  | ok signable =>
      cases checkSigner s.publicKey tx.payloads with
      | error e => rfl
      | ok checked =>
          show Except.ok { tx with
            payloads := (signPayloads s.publicKey sign tx.payloads kept).1, state := .signed } = _
          rw [hpayloads]
          rfl

theorem signWith_of_sign_error (hsign : forall body kept, (sign body kept).1 = s.sign body)
    {tx : Transaction} {e : TransactionError} (h : tx.sign s = .error e) (kept : τ) :
    tx.signWith s.publicKey sign kept = .error e := by
  rw [← signWith_fst hsign tx kept] at h
  cases hwith : tx.signWith s.publicKey sign kept with
  | error cause =>
      rw [hwith] at h
      cases h
      rfl
  | ok done =>
      rw [hwith] at h
      cases h

theorem signWith_of_sign_ok (hsign : forall body kept, (sign body kept).1 = s.sign body)
    {tx signed : Transaction} (h : tx.sign s = .ok signed) (kept : τ) :
    exists after, tx.signWith s.publicKey sign kept = .ok (signed, after) := by
  rw [← signWith_fst hsign tx kept] at h
  cases hwith : tx.signWith s.publicKey sign kept with
  | error cause =>
      rw [hwith] at h
      cases h
  | ok done =>
      rw [hwith] at h
      cases h
      exact ⟨done.2, rfl⟩

end Transaction

namespace Batch

theorem signEach_fst (hsign : forall body kept, (sign body kept).1 = s.sign body)
    (txs : List Transaction) (kept : τ) :
    (signEach s.publicKey sign txs kept).1 =
        (signEach s.publicKey (fun body (_ : Unit) => (s.sign body, ())) txs ()).1 ∧
      (signEach s.publicKey sign txs kept).2.2 =
        (signEach s.publicKey (fun body (_ : Unit) => (s.sign body, ())) txs ()).2.2 := by
  have hplain : forall body (u : Unit), (s.sign body, u).1 = s.sign body := fun _ _ => rfl
  induction txs generalizing kept with
  | nil => exact ⟨rfl, rfl⟩
  | cons tx rest ih =>
      rw [signEach, signEach]
      cases hsigned : tx.sign s with
      | error e =>
          rw [Transaction.signWith_of_sign_error hsign hsigned,
            Transaction.signWith_of_sign_error hplain hsigned]
          exact ⟨rfl, rfl⟩
      | ok signed =>
          rcases Transaction.signWith_of_sign_ok hsign hsigned kept with ⟨after, hwith⟩
          rcases Transaction.signWith_of_sign_ok hplain hsigned () with ⟨_, halone⟩
          rcases ih after with ⟨hrest, hresult⟩
          rw [hwith, halone]
          exact ⟨congrArg (signed :: ·) hrest, hresult⟩

theorem signWith_fst (hsign : forall body kept, (sign body kept).1 = s.sign body) (b : Batch)
    (kept : τ) :
    ((b.signWith s.publicKey sign kept).1, (b.signWith s.publicKey sign kept).2.2) = b.sign s := by
  rcases signEach_fst hsign b.transactions kept with ⟨htransactions, hresult⟩
  unfold Batch.sign Batch.signWith
  cases Transaction.checkSigner s.publicKey (b.transactions.flatMap Transaction.payloads) with
  | error e => rfl
  | ok checked =>
      dsimp only
      rw [htransactions, hresult]

end Batch

end

/-!
## True hands
-/

namespace Client

variable {h : Hands σ τ}

theorem signWithOperatorBy_fst (htrue : h.AreTrue) (c : Client) (tx : Transaction) (kept : τ) :
    (c.signWithOperatorBy h tx kept).1 = c.signWithOperator tx := by
  unfold signWithOperatorBy signWithOperator
  cases c.operator with
  | none => rfl
  | some operator =>
      dsimp only
      cases pays operator tx && !tx.isSignedBy operator.signer.publicKey with
      | false => rfl
      | true =>
          cases hsigned : tx.sign operator.signer with
          | error e =>
              rw [Transaction.signWith_of_sign_error (htrue.sign operator.signer) hsigned]
              rfl
          | ok signed =>
              rcases Transaction.signWith_of_sign_ok (htrue.sign operator.signer) hsigned kept with
                ⟨after, hwith⟩
              rw [hwith]
              rfl

theorem signBatchWithOperatorBy_fst (htrue : h.AreTrue) (c : Client) (b : Batch) (kept : τ) :
    (c.signBatchWithOperatorBy h b kept).1 = c.signBatchWithOperator b := by
  unfold signBatchWithOperatorBy signBatchWithOperator
  cases c.operator with
  | none => rfl
  | some operator =>
      dsimp only
      rw [← b.signWith_fst (htrue.sign operator.signer) kept]
      cases b.transactions.all (pays operator) with
      | false => rfl
      | true => rfl

theorem submitFrozenBy_fst (htrue : h.AreTrue) (c : Client) (w : Surroundings σ) (tx : Transaction)
    (world : σ) (kept : τ) :
    (c.submitFrozenBy h w tx world kept).1 = c.submitFrozen w tx world := by
  have hsame := signWithOperatorBy_fst htrue c tx kept
  -- The timeout is not to be computed with.
  obtain ⟨timeout, htimeout⟩ : exists timeout, c.config.requestTimeout = timeout := ⟨_, rfl⟩
  rcases hsigned : c.signWithOperatorBy h tx kept with ⟨result, after⟩
  rcases htimer : w.timer world with ⟨now, started⟩
  rw [hsigned] at hsame
  unfold submitFrozenBy submitFrozen
  rw [← hsame, hsigned, htimeout, htimer]
  cases result with
  | error e => rfl
  | ok signed =>
      dsimp only
      cases now.plus? timeout with
      | none => rfl
      | some deadline => exact htrue.submit c.engine w signed deadline started after

theorem executeBy_fst (htrue : h.AreTrue) (c : Client) (w : Surroundings σ) (tx : Transaction)
    (world : σ) (kept : τ) : (c.executeBy h w tx world kept).1 = c.execute w tx world := by
  unfold executeBy execute
  by_cases hdraft : tx.state = .draft
  · rcases c.freezeWith w tx world with ⟨frozen, result, started⟩
    rw [if_pos hdraft, if_pos hdraft]
    cases result with
    | error e => rfl
    | ok done => exact submitFrozenBy_fst htrue c w frozen started kept
  · rw [if_neg hdraft, if_neg hdraft]
    exact submitFrozenBy_fst htrue c w tx world kept

theorem executeAllBy_fst (htrue : h.AreTrue) (c : Client) (w : Surroundings σ) (b : Batch)
    (world : σ) (kept : τ) : (c.executeAllBy h w b world kept).1 = c.executeAll w b world := by
  have hsame := signBatchWithOperatorBy_fst htrue c b kept
  rcases hsigned : c.signBatchWithOperatorBy h b kept with ⟨⟨signed, result⟩, after⟩
  rw [hsigned] at hsame
  unfold executeAllBy executeAll
  rw [← hsame, hsigned]
  cases result with
  | error e => rfl
  | ok done => exact htrue.submitAll c.engine w signed _ world after

end Client

end LedgerClient
