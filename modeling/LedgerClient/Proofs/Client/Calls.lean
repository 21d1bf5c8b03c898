import LedgerClient.Client
import LedgerClient.Proofs.Transaction.Coherent

/-!
# What a client does in a call

A client prepares a transaction, by freezing it if it is a draft and by the operator's
signatures if the operator pays for it, and hands it to its engine.  It gives up before if that
fails, and it has no deadline to give if its timeout leads out of the range of time.
-/

namespace LedgerClient

namespace Client

variable {σ : Type} {c : Client} {w : Surroundings σ} {tx frozen signed : Transaction}
  {world started : σ}

/-!
## Freezing
-/

theorem applyEach_cons_eq_ok {change : Transaction → Except TransactionError Transaction}
    {rest : List (Transaction → Except TransactionError Transaction)}
    (h : applyEach (change :: rest) tx = (frozen, .ok ())) :
    exists changed, change tx = .ok changed ∧ applyEach rest changed = (frozen, .ok ()) := by
  unfold applyEach at h
  cases hchange : change tx with
  | error e =>
      rw [hchange] at h
      cases h
  | ok changed =>
      rw [hchange] at h
      exact ⟨changed, rfl, h⟩

section

variable {R : Transaction -> Transaction -> Prop}

theorem applyEach_rel (hrefl : forall tx, R tx tx) (htrans : forall a b d, R a b -> R b d -> R a d)
    {changes : List (Transaction → Except TransactionError Transaction)}
    (h : forall change, change ∈ changes -> forall before after, change before = .ok after ->
      R before after) (tx : Transaction) : R tx (applyEach changes tx).1 := by
  induction changes generalizing tx with
  | nil => exact hrefl tx
  | cons change rest ih =>
      rw [List.forall_mem_cons] at h
      unfold applyEach
      cases hchange : change tx with
      | error e => exact hrefl tx
      | ok changed => exact htrans _ _ _ (h.left tx changed hchange) (ih h.right changed)

theorem fill_rel (hrefl : forall tx, R tx tx) {needed : Bool} {before after : Transaction}
    {result : Except TransactionError Transaction}
    (hresult : forall changed, result = .ok changed -> R before changed)
    (h : (if needed then result else .ok before) = .ok after) : R before after := by
  cases needed with
  | true => exact hresult after h
  | false =>
      cases h
      exact hrefl before

/-- What the setters and freezing do to a transaction at most, the client does at most. -/
theorem freezeIdentified_rel (c : Client) (hrefl : forall tx, R tx tx)
    (htrans : forall a b d, R a b -> R b d -> R a d)
    (hnodes : forall before after nodes, before.setNodes nodes = .ok after -> R before after)
    (hfee : forall before after fee, before.setMaxFee fee = .ok after -> R before after)
    (hduration : forall before after secs, before.setValidDurationSecs secs = .ok after ->
      R before after)
    (hfreeze : forall before after, before.freeze = .ok after -> R before after)
    (tx : Transaction) : R tx (c.freezeIdentified tx).1 := by
  apply applyEach_rel hrefl htrans
  intro change hchange before after hafter
  simp only [List.mem_cons, List.not_mem_nil, or_false] at hchange
  rcases hchange with hchange | hchange | hchange | hchange
  · rw [hchange] at hafter
    exact fill_rel hrefl (fun changed => hnodes before changed _) hafter
  · rw [hchange] at hafter
    exact fill_rel hrefl (fun changed => hfee before changed _) hafter
  · rw [hchange] at hafter
    exact fill_rel hrefl (fun changed => hduration before changed _) hafter
  · rw [hchange] at hafter
    exact hfreeze before after hafter

end

theorem applyEach_of_error {e : TransactionError}
    {changes : List (Transaction → Except TransactionError Transaction)}
    (hkeeps : forall change, change ∈ changes -> change tx = .ok tx ∨ change tx = .error e)
    (hfails : exists change, change ∈ changes ∧ change tx = .error e) :
    applyEach changes tx = (tx, .error e) := by
  induction changes with
  | nil =>
      rcases hfails with ⟨change, hnone, _⟩
      cases hnone
  | cons first rest ih =>
      rw [List.forall_mem_cons] at hkeeps
      unfold applyEach
      rcases hkeeps.left with hkept | hfirst
      · rw [hkept]
        apply ih hkeeps.right
        rcases hfails with ⟨change, hchange, hfailed⟩
        rcases List.mem_cons.mp hchange with hsame | hlater
        · rw [hsame, hkept] at hfailed
          cases hfailed
        · exact ⟨change, hlater, hfailed⟩
      · rw [hfirst]

theorem freezeIdentified_of_sealed (c : Client) (hsealed : tx.state ≠ .draft) :
    c.freezeIdentified tx = (tx, .error .alreadyFrozen) := by
  have hfreeze : tx.freeze = .error .alreadyFrozen := tx.requireDraft_bind_of_sealed hsealed _
  have hfill : forall (needed : Bool) (next : Except TransactionError Transaction),
      (if needed then (do tx.requireDraft; next) else .ok tx) = .ok tx ∨
        (if needed then (do tx.requireDraft; next) else .ok tx) = .error .alreadyFrozen := by
    intro needed next
    cases needed with
    | true => exact Or.inr (tx.requireDraft_bind_of_sealed hsealed next)
    | false => exact Or.inl rfl
  apply applyEach_of_error
  · simp only [List.forall_mem_cons, List.not_mem_nil, false_implies, implies_true, and_true]
    exact ⟨hfill _ _, hfill _ _, hfill _ _, Or.inr hfreeze⟩
  · exact ⟨Transaction.freeze, by simp, hfreeze⟩

/-- What is no draft stays as it is. -/
theorem freezeWith_of_sealed (c : Client) (w : Surroundings σ) (hsealed : tx.state ≠ .draft)
    (world : σ) : exists e started, c.freezeWith w tx world = (tx, .error e, started) := by
  unfold freezeWith
  cases tx.id with
  | some id =>
      rw [c.freezeIdentified_of_sealed hsealed]
      exact ⟨_, _, rfl⟩
  | none =>
      cases c.operator with
      | none => exact ⟨_, _, rfl⟩
      | some operator =>
          have hset : forall id, tx.setId id = .error .alreadyFrozen :=
            fun id => tx.requireDraft_bind_of_sealed hsealed _
          dsimp only
          rw [hset]
          exact ⟨_, _, rfl⟩

theorem freezeIdentified_eq_ok (h : c.freezeIdentified tx = (frozen, .ok ())) :
    exists addressed priced timed, c.fillNodes tx = .ok addressed ∧
      c.fillMaxFee addressed = .ok priced ∧ c.fillValidDuration priced = .ok timed ∧
      timed.freeze = .ok frozen := by
  rcases applyEach_cons_eq_ok h with ⟨addressed, hnodes, hrest⟩
  rcases applyEach_cons_eq_ok hrest with ⟨priced, hfee, hrest⟩
  rcases applyEach_cons_eq_ok hrest with ⟨timed, hduration, hrest⟩
  rcases applyEach_cons_eq_ok hrest with ⟨last, hfreeze, hnone⟩
  cases hnone
  exact ⟨addressed, priced, timed, hnodes, hfee, hduration, hfreeze⟩

theorem freezeWith_eq_ok (h : c.freezeWith w tx world = (frozen, .ok (), started)) :
    exists identified, c.freezeIdentified identified = (frozen, .ok ()) ∧
      (identified = tx ∨
        exists operator, tx.id = none ∧ c.operator = some operator ∧
          tx.setId (TransactionId.generate operator.account (w.clock world).1
            (w.nonce (w.clock world).2).1) = .ok identified) := by
  unfold freezeWith at h
  cases hid : tx.id with
  | some id =>
      rw [hid] at h
      refine ⟨tx, ?_, Or.inl rfl⟩
      injection h with hfrozen hrest
      injection hrest with hresult _
      exact Prod.ext hfrozen hresult
  | none =>
      cases hoperator : c.operator with
      | none =>
          rw [hid, hoperator] at h
          cases h
      | some operator =>
          rw [hid, hoperator] at h
          dsimp only at h
          cases hset : tx.setId (TransactionId.generate operator.account (w.clock world).1
              (w.nonce (w.clock world).2).1) with
          | error e =>
              rw [hset] at h
              cases h
          | ok identified =>
              rw [hset] at h
              refine ⟨identified, ?_, Or.inr ⟨operator, rfl, rfl, hset⟩⟩
              injection h with hfrozen hrest
              injection hrest with hresult _
              exact Prod.ext hfrozen hresult

/-!
## Signing for the operator
-/

theorem pays_iff {operator : Operator} :
    pays operator tx = true <-> exists id, tx.id = some id ∧ id.account = operator.account := by
  unfold pays
  cases tx.id with
  | none => simp
  | some id => simp

theorem signWithOperator_eq_ok (h : c.signWithOperator tx = .ok signed) :
    signed = tx ∨
      exists operator, c.operator = some operator ∧ pays operator tx = true ∧
        tx.sign operator.signer = .ok signed := by
  unfold signWithOperator at h
  cases hoperator : c.operator with
  | none =>
      rw [hoperator] at h
      cases h
      exact Or.inl rfl
  | some operator =>
      rw [hoperator] at h
      dsimp only at h
      cases hneeded : pays operator tx && !tx.isSignedBy operator.signer.publicKey with
      | true =>
          rw [hneeded] at h
          exact Or.inr ⟨operator, rfl, (Bool.and_eq_true_iff.mp hneeded).left, h⟩
      | false =>
          rw [hneeded] at h
          cases h
          exact Or.inl rfl

/-- Afterwards the operator has signed all payloads of a transaction that the operator pays for. -/
theorem signWithOperator_contains (h : c.signWithOperator tx = .ok signed) {operator : Operator}
    (hoperator : c.operator = some operator) (hpays : pays operator tx = true) {p : Payload}
    (hp : p ∈ signed.payloads) : p.signatures.contains operator.signer.publicKey = true := by
  simp only [signWithOperator, hoperator, hpays, Bool.true_and] at h
  cases halready : tx.isSignedBy operator.signer.publicKey with
  | true =>
      rw [halready] at h
      cases h
      exact List.all_eq_true.mp (Bool.and_eq_true_iff.mp halready).right p hp
  | false =>
      rw [halready] at h
      rcases Transaction.signWith_eq_ok (Transaction.signWith_of_sign h) with
        ⟨_, hclash, payloads, hpayloads, hsigned⟩
      rw [hsigned] at hp
      rcases Payload.exists_of_signed hpayloads hp with ⟨before, hbefore, hsignedBy⟩
      exact hsignedBy.contains (hclash before hbefore)

/-- The operator does not sign again. -/
theorem signWithOperator_eq_self (hstate : tx.state = .signed)
    (h : forall operator, c.operator = some operator -> pays operator tx = true ->
      forall p, p ∈ tx.payloads -> p.signatures.contains operator.signer.publicKey = true) :
    c.signWithOperator tx = .ok tx := by
  unfold signWithOperator
  cases hoperator : c.operator with
  | none => rfl
  | some operator =>
      dsimp only
      cases hpays : pays operator tx with
      | false => rfl
      | true =>
          cases halready : tx.isSignedBy operator.signer.publicKey with
          | true => rfl
          | false =>
              -- Then there is no payload that could be signed.
              have hall : tx.payloads.all
                  (fun p => p.signatures.contains operator.signer.publicKey) = true :=
                List.all_eq_true.mpr (h operator hoperator hpays)
              have hnone : tx.payloads = [] := by
                simpa [Transaction.isSignedBy, hall] using halready
              exact Transaction.sign_of_no_payloads hstate hnone operator.signer

theorem signBatchWithOperator_cases (c : Client) (b : Batch) :
    c.signBatchWithOperator b = (b, .ok ()) ∨
      exists operator, c.operator = some operator ∧
        (forall tx, tx ∈ b.transactions -> pays operator tx = true) ∧
        c.signBatchWithOperator b = b.sign operator.signer := by
  unfold signBatchWithOperator
  cases hoperator : c.operator with
  | none => exact Or.inl rfl
  | some operator =>
      dsimp only
      cases hall : b.transactions.all (pays operator) with
      | true => exact Or.inr ⟨operator, rfl, List.all_eq_true.mp hall, rfl⟩
      | false => exact Or.inl rfl

/-!
## Delivery
-/

/-- A transaction is frozen and signed as it is handed to the engine. -/
inductive Prepares (c : Client) (w : Surroundings σ) (tx : Transaction) (world : σ) :
    Transaction -> Prop where
  | frozen {frozen signed : Transaction} {started : σ} : tx.state = .draft ->
      c.freezeWith w tx world = (frozen, .ok (), started) ->
      c.signWithOperator frozen = .ok signed -> Prepares c w tx world signed
  | sealed {signed : Transaction} : tx.state ≠ .draft -> c.signWithOperator tx = .ok signed ->
      Prepares c w tx world signed

theorem submitFrozen_cases (c : Client) (w : Surroundings σ) (tx : Transaction) (world : σ) :
    (exists e, c.signWithOperator tx = .error e ∧
        c.submitFrozen w tx world = c.engine.refuseTransaction (.transaction e) tx world) ∨
      exists signed, c.signWithOperator tx = .ok signed ∧
        ((w.timer world).1.plus? c.config.requestTimeout = none ∧
            c.submitFrozen w tx world = c.haltTransaction .outOfRange signed (w.timer world).2 ∨
          exists deadline, (w.timer world).1.plus? c.config.requestTimeout = some deadline ∧
            c.submitFrozen w tx world = c.engine.submit w signed deadline (w.timer world).2) := by
  -- Left in its place the timeout would be computed with, which is a product of large numbers.
  obtain ⟨timeout, htimeout⟩ : exists timeout, c.config.requestTimeout = timeout := ⟨_, rfl⟩
  rcases htimer : w.timer world with ⟨now, started⟩
  cases hsign : c.signWithOperator tx with
  | error e =>
      refine Or.inl ⟨e, rfl, ?_⟩
      unfold submitFrozen
      rw [hsign]
  | ok signed =>
      refine Or.inr ⟨signed, rfl, ?_⟩
      unfold submitFrozen
      rw [hsign, htimeout, htimer]
      dsimp only
      cases now.plus? timeout with
      | none => exact Or.inl ⟨rfl, rfl⟩
      | some deadline => exact Or.inr ⟨deadline, rfl, rfl⟩

theorem execute_of_sealed (hsealed : tx.state ≠ .draft) :
    c.execute w tx world = c.submitFrozen w tx world :=
  if_neg hsealed

/-- A transaction is refused before it is prepared, or prepared and halted for want of a deadline,
or prepared and submitted. -/
theorem execute_cases (c : Client) (w : Surroundings σ) (tx : Transaction) (world : σ) :
    (exists e left after,
        c.execute w tx world = c.engine.refuseTransaction (.transaction e) left after) ∨
      exists signed, c.Prepares w tx world signed ∧
        ((exists after, c.execute w tx world = c.haltTransaction .outOfRange signed after) ∨
          exists deadline after,
            c.execute w tx world = c.engine.submit w signed deadline after) := by
  have hfrozen : (exists e left after,
        c.execute w tx world = c.engine.refuseTransaction (.transaction e) left after) ∨
      exists frozen started, c.execute w tx world = c.submitFrozen w frozen started ∧
        forall signed, c.signWithOperator frozen = .ok signed -> c.Prepares w tx world signed := by
    by_cases hdraft : tx.state = .draft
    · rcases hfreeze : c.freezeWith w tx world with ⟨frozen, result, started⟩
      simp only [execute, if_pos hdraft, hfreeze]
      cases result with
      | error e => exact Or.inl ⟨e, frozen, started, rfl⟩
      | ok done => exact Or.inr ⟨frozen, started, rfl, fun _ hsign => .frozen hdraft hfreeze hsign⟩
    · exact Or.inr ⟨tx, world, execute_of_sealed hdraft, fun _ hsign => .sealed hdraft hsign⟩
  rcases hfrozen with hrefused | ⟨frozen, started, hsame, hprepares⟩
  · exact Or.inl hrefused
  · rw [hsame]
    rcases c.submitFrozen_cases w frozen started with
      ⟨e, _, hrun⟩ | ⟨signed, hsign, ⟨_, hrun⟩ | ⟨deadline, _, hrun⟩⟩
    · exact Or.inl ⟨e, frozen, started, hrun⟩
    · exact Or.inr ⟨signed, hprepares signed hsign, Or.inl ⟨_, hrun⟩⟩
    · exact Or.inr ⟨signed, hprepares signed hsign, Or.inr ⟨deadline, _, hrun⟩⟩

theorem executeAll_cases (c : Client) (w : Surroundings σ) (b : Batch) (world : σ) :
    (exists signed e, c.signBatchWithOperator b = (signed, .error e) ∧
        c.executeAll w b world =
          { ending := .failed (.transaction e)
            registry := c.registry
            world := world
            batch := signed
            parts := [] }) ∨
      exists signed, c.signBatchWithOperator b = (signed, .ok ()) ∧
        c.executeAll w b world = c.engine.submitAll w signed c.config.requestTimeout world := by
  rcases hsign : c.signBatchWithOperator b with ⟨signed, result⟩
  unfold executeAll
  rw [hsign]
  cases result with
  | error e => exact Or.inl ⟨signed, e, rfl, rfl⟩
  | ok done => exact Or.inr ⟨signed, rfl, rfl⟩

/-- As functions the two sides are compared as they stand, without computing the timeout. -/
theorem query_eq_fun : @query σ = fun c w q world =>
    match w.timer world with
    | (now, started) =>
        match now.plus? c.config.requestTimeout with
        | none =>
            { ending := .halted .outOfRange, registry := c.registry, world := started, steps := [] }
        | some deadline => c.engine.query w q deadline started :=
  rfl

theorem exists_query_eq (c : Client) (w : Surroundings σ) (q : Query) (world : σ) :
    exists timeout : Duration, c.config.requestTimeout = timeout ∧ c.query w q world =
      match w.timer world with
      | (now, started) =>
          match now.plus? timeout with
          | none =>
              { ending := .halted .outOfRange, registry := c.registry, world := started
                steps := [] }
          | some deadline => c.engine.query w q deadline started :=
  ⟨c.config.requestTimeout, rfl,
    congrFun (congrFun (congrFun (congrFun query_eq_fun c) w) q) world⟩

theorem query_cases (c : Client) (w : Surroundings σ) (q : Query) (world : σ) :
    ((w.timer world).1.plus? c.config.requestTimeout = none ∧
        c.query w q world =
          { ending := .halted .outOfRange
            registry := c.registry
            world := (w.timer world).2
            steps := [] }) ∨
      exists deadline, (w.timer world).1.plus? c.config.requestTimeout = some deadline ∧
        c.query w q world = c.engine.query w q deadline (w.timer world).2 := by
  rcases c.exists_query_eq w q world with ⟨timeout, htimeout, hquery⟩
  rw [hquery, htimeout]
  rcases w.timer world with ⟨now, started⟩
  dsimp only
  cases now.plus? timeout with
  | none => exact Or.inl ⟨rfl, rfl⟩
  | some deadline => exact Or.inr ⟨deadline, rfl, rfl⟩

end Client

end LedgerClient
