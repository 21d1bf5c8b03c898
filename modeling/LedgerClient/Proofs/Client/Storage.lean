import LedgerClient.Proofs.Client.History
import LedgerClient.Proofs.Transaction.Refusals

/-!
# Transactions that are stored

Whatever a client, an engine or a batch does with a transaction could have been done to it in
single calls, so a transaction that was made here stays one of those.  Unless it is a draft it
can be written down at any time, and it is read again as it was.
-/

namespace LedgerClient

namespace Transaction

/-- What any number of single calls make of a transaction. -/
abbrev ChangesTo : Transaction -> Transaction -> Prop :=
  Relation.ReflTransGen Changes

variable {σ : Type} {tx later changed : Transaction}

theorem ChangesTo.reachable (h : ChangesTo tx later) (htx : Reachable tx) : Reachable later := by
  induction h with
  | refl => exact htx
  | tail _ hlast ih => exact ih.changed hlast

/-- A call that succeeded is a change. -/
theorem changesTo_of_ok {result : Except TransactionError Transaction}
    (h : Changes tx (tx.afterCall result)) (hok : result = .ok changed) : ChangesTo tx changed := by
  rw [hok] at h
  exact .single h

/-!
## Calls of a client
-/

theorem changesTo_of_freezeIdentified (c : Client) (tx : Transaction) :
    ChangesTo tx (c.freezeIdentified tx).1 := by
  apply c.freezeIdentified_rel (fun _ => .refl) fun _ _ _ hfirst hsecond => hfirst.trans hsecond
  case hnodes => exact fun before _ nodes h => changesTo_of_ok (.setNodes before nodes) h
  case hfee => exact fun before _ fee h => changesTo_of_ok (.setMaxFee before fee) h
  case hduration =>
    exact fun before _ secs h => changesTo_of_ok (.setValidDurationSecs before secs) h
  case hfreeze => exact fun before _ h => changesTo_of_ok (.freeze before) h

theorem changesTo_of_freezeWith (c : Client) (w : Surroundings σ) (tx : Transaction) (world : σ) :
    ChangesTo tx (c.freezeWith w tx world).1 := by
  unfold Client.freezeWith
  cases tx.id with
  | some id => exact changesTo_of_freezeIdentified c tx
  | none =>
      cases c.operator with
      | none => exact .refl
      | some operator =>
          dsimp only
          cases hset : tx.setId (TransactionId.generate operator.account (w.clock world).1
              (w.nonce (w.clock world).2).1) with
          | error e => exact .refl
          | ok identified =>
              exact (changesTo_of_ok (.setId tx _) hset).trans
                (changesTo_of_freezeIdentified c identified)

theorem changesTo_of_submitFrozen (c : Client) (w : Surroundings σ) (tx : Transaction)
    (world : σ) : ChangesTo tx (c.submitFrozen w tx world).transaction := by
  have hsigned : forall signed, c.signWithOperator tx = .ok signed -> ChangesTo tx signed := by
    intro signed hsign
    rcases Client.signWithOperator_eq_ok hsign with hsame | ⟨operator, _, _, hsigned⟩
    · rw [hsame]
    · exact changesTo_of_ok (.sign tx operator.signer) hsigned
  rcases c.submitFrozen_cases w tx world with
    ⟨e, _, hrun⟩ | ⟨signed, hsign, ⟨_, hrun⟩ | ⟨deadline, _, hrun⟩⟩
  · rw [hrun]
    exact .refl
  · rw [hrun]
    exact hsigned signed hsign
  · rw [hrun]
    exact (hsigned signed hsign).tail (.submit signed c.engine w deadline _)

theorem changesTo_of_execute (c : Client) (w : Surroundings σ) (tx : Transaction) (world : σ) :
    ChangesTo tx (c.execute w tx world).transaction := by
  by_cases hdraft : tx.state = .draft
  · have hfrozen := changesTo_of_freezeWith c w tx world
    rcases hfreeze : c.freezeWith w tx world with ⟨frozen, result, started⟩
    rw [hfreeze] at hfrozen
    simp only [Client.execute, if_pos hdraft, hfreeze]
    cases result with
    | error e => exact hfrozen
    | ok done => exact hfrozen.trans (changesTo_of_submitFrozen c w frozen started)
  · rw [Client.execute_of_sealed hdraft]
    exact changesTo_of_submitFrozen c w tx world

/-!
## Calls on a batch
-/

theorem forall₂_changesTo_refl (txs : List Transaction) : List.Forall₂ ChangesTo txs txs :=
  List.forall₂_same.mpr fun _ _ => .refl

theorem changesTo_of_signBatch {key : PublicKey} {sign : Bytes → σ → Signature × σ} (b : Batch)
    (s : σ) : List.Forall₂ ChangesTo b.transactions (b.signWith key sign s).1.transactions := by
  apply signBatch_rel fun _ => .refl
  intro tx signed s after hsign
  have hchange := Changes.signWith tx key sign s
  rw [hsign] at hchange
  exact .single hchange

theorem changesTo_of_submitEach (w : Surroundings σ) (timeout : Duration) (index : Nat)
    (txs : List Transaction) (e : Engine) (receipts : List Receipt) (world : σ) :
    List.Forall₂ ChangesTo txs
      (Engine.submitEach w timeout index txs e receipts world).batch.transactions := by
  induction txs generalizing index e receipts world with
  | nil => exact .nil
  | cons tx rest ih =>
      rcases htimer : w.timer world with ⟨now, started⟩
      cases hdeadline : now.plus? timeout with
      | none =>
          simp only [Engine.submitEach, htimer, hdeadline]
          exact forall₂_changesTo_refl _
      | some deadline =>
          have hfirst : ChangesTo tx (e.submit w tx deadline started).transaction :=
            .single (.submit tx e w deadline started)
          simp only [Engine.submitEach, htimer, hdeadline]
          cases (e.submit w tx deadline started).run.ending with
          | halted halt => exact .cons hfirst (forall₂_changesTo_refl rest)
          | failed error => exact .cons hfirst (forall₂_changesTo_refl rest)
          | answered receipt => exact .cons hfirst (ih _ _ _ _)

theorem changesTo_of_submitAll (e : Engine) (w : Surroundings σ) (b : Batch) (timeout : Duration)
    (world : σ) :
    List.Forall₂ ChangesTo b.transactions
      (e.submitAll w b timeout world).batch.transactions := by
  unfold Engine.submitAll
  cases Engine.firstUnready? 0 b.transactions with
  | none => exact changesTo_of_submitEach w timeout 0 b.transactions e [] world
  | some found => exact forall₂_changesTo_refl _

theorem changesTo_of_executeAll (c : Client) (w : Surroundings σ) (b : Batch) (world : σ) :
    List.Forall₂ ChangesTo b.transactions
      (c.executeAll w b world).batch.transactions := by
  have hsigned : List.Forall₂ ChangesTo b.transactions
      (c.signBatchWithOperator b).1.transactions := by
    rcases c.signBatchWithOperator_cases b with hsame | ⟨operator, _, _, hsign⟩
    · rw [hsame]
      exact forall₂_changesTo_refl _
    · rw [hsign]
      exact changesTo_of_signBatch b ()
  rcases c.executeAll_cases w b world with ⟨signed, e, hsign, hrun⟩ | ⟨signed, hsign, hrun⟩
  · rw [hsign] at hsigned
    rw [hrun]
    exact hsigned
  · rw [hsign] at hsigned
    rw [hrun]
    exact forall₂_trans (fun hpq hqr => hpq.trans hqr) hsigned
      (changesTo_of_submitAll c.engine w signed _ world)

/-!
## All calls
-/

theorem changesTo_of_undergoes {kind : CallKind} (h : Undergoes kind tx later) :
    ChangesTo tx later := by
  cases h with
  | read _ => exact .refl
  | setId _ id => exact .single (.setId tx id)
  | setNodes _ nodes => exact .single (.setNodes tx nodes)
  | setMaxFee _ fee => exact .single (.setMaxFee tx fee)
  | setValidDurationSecs _ secs => exact .single (.setValidDurationSecs tx secs)
  | setMemo _ memo => exact .single (.setMemo tx memo)
  | setOperation _ operation => exact .single (.setOperation tx operation)
  | freeze _ => exact .single (.freeze tx)
  | freezeWith _ nodes => exact .single (.freezeWith tx nodes)
  | freezeFor _ c w world => exact changesTo_of_freezeWith c w tx world
  | sign _ signer => exact .single (.sign tx signer)
  | signWith _ key sign s => exact .single (.signWith tx key sign s)
  | signBatch signer htx hlater => exact rel_of_place (changesTo_of_signBatch _ ()) htx hlater
  | signBatchWith key sign s htx hlater =>
      exact rel_of_place (changesTo_of_signBatch _ s) htx hlater
  | submit _ e w deadline world => exact .single (.submit tx e w deadline world)
  | execute _ c w world => exact changesTo_of_execute c w tx world
  | submitAll e w timeout world htx hlater =>
      exact rel_of_place (changesTo_of_submitAll e w _ timeout world) htx hlater
  | executeAll c w world htx hlater =>
      exact rel_of_place (changesTo_of_executeAll c w _ world) htx hlater
  | abandon hadmits => exact .single (.abandon hadmits)

/-- A transaction that was made here stays one, whatever is called. -/
theorem Reachable.becomes {kinds : CallKind -> Prop} (hmade : Reachable tx)
    (h : Becomes kinds tx later) : Reachable later := by
  induction h with
  | refl => exact hmade
  | tail _ hlast ih =>
      rcases hlast with ⟨kind, _, hundergoes⟩
      exact (changesTo_of_undergoes hundergoes).reachable ih

theorem toBytes_eq_error_iff {e : TransactionError} :
    tx.toBytes = .error e <-> tx.state = .draft ∧ e = .notFrozen := by
  unfold toBytes
  by_cases hdraft : tx.state = .draft
  · simp [hdraft, eq_comm]
  · simp [hdraft]

/-- The octets of a transaction, with anything behind them, are read as that transaction if it is no
draft and its payloads are what its nodes ask for, and otherwise what is wrong first is reported.
Nothing is ever wrong with a transaction that was made here, whatever was called, once it is no
draft: it is written down, and read again with all it had. -/
theorem stored_and_read_back :
    (forall (tx : Transaction) (rest : Bytes), Codec.Countable (codec.encode tx) ->
      (forall read, ofBytes (codec.encode tx ++ rest) = .ok read <-> read = tx ∧ tx.Checked) ∧
        forall e, ofBytes (codec.encode tx ++ rest) = .error e <-> tx.ReadFault e) ∧
      (forall (tx : Transaction) (e : TransactionError),
        tx.toBytes = .error e <-> tx.state = .draft ∧ e = .notFrozen) ∧
      forall (kinds : CallKind -> Prop) (made tx : Transaction),
        Reachable made -> Becomes kinds made tx -> tx.state ≠ .draft ->
        exists bs, tx.toBytes = .ok bs ∧
          (Codec.Countable bs -> forall rest, ofBytes (bs ++ rest) = .ok tx) := by
  refine ⟨fun tx rest hcount => ofBytes_encode_decides hcount rest,
    fun tx e => toBytes_eq_error_iff, ?_⟩
  intro kinds made tx hmade hbecomes hstate
  refine ⟨codec.encode tx, if_neg hstate, ?_⟩
  intro hcount rest
  have hconsistent := consistent_of_reachable (hmade.becomes hbecomes)
  exact ofBytes_encode (hconsistent.checked hstate) hcount rest

/-- Its first payload is signed twice by one key, and its second is for another node. -/
def clashing : Transaction :=
  { misquoting with
    nodes := [⟨3⟩, ⟨4⟩]
    payloads :=
      [⟨⟨3⟩, [], ⟨[⟨.fill 32 1, .fill 64 2⟩, ⟨.fill 32 1, .fill 64 2⟩]⟩⟩, ⟨⟨5⟩, [], .empty⟩] }

/-- A signed transfer is read again, and of the two faults the one of the first payload is
reported. -/
theorem signedTransfer_stored :
    exists tx bs, Reachable tx ∧ tx.state = .signed ∧ tx.toBytes = .ok bs ∧
      ofBytes (bs ++ [7]) = .ok tx ∧
      ofBytes (codec.encode clashing ++ []) = .error (.sharedTag [1, 1, 1, 1, 1, 1]) := by
  have hreachable :=
    reachable_signedTransfer ⟨.fill 32 7⟩ 5 ⟨.fill 32 1, fun _ => .fill 64 2⟩
  have hcount : Codec.Countable (codec.encode (signedTransfer ⟨.fill 32 7⟩ 5
      ⟨.fill 32 1, fun _ => .fill 64 2⟩)) := Codec.countable_iff.mpr (by decide +kernel)
  have hclashing : Codec.Countable (codec.encode clashing) :=
    Codec.countable_iff.mpr (by decide +kernel)
  have hfault : clashing.ReadFault (.sharedTag [1, 1, 1, 1, 1, 1]) := by
    refine .pair (by decide) rfl (@Payload.PairFault.shared [] _ _ [⟨4⟩] _ (by simp) ?_)
    exact ⟨[[1, 1, 1, 1, 1, 1]], [], rfl, List.nodup_singleton _, List.mem_singleton_self _⟩
  have hdecides := stored_and_read_back.left clashing [] hclashing
  rcases stored_and_read_back.right.right (fun _ => True) _ _ hreachable .refl (by decide) with
    ⟨bs, hbytes, hread⟩
  cases hbytes
  exact ⟨_, _, hreachable, rfl, rfl, hread hcount [7], (hdecides.right _).mpr hfault⟩

end Transaction

end LedgerClient
