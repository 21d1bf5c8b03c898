import LedgerClient.Proofs.Client.Calls
import LedgerClient.Proofs.Client.Hands

/-!
# Calls with notes

Hands that note what they are asked for show what a call needs of the signer and of the engine.  The
notes leave nothing out: another signer that answers alike what was noted leaves the call as it is,
and a call that notes no delivery has taken no step towards one.
-/

namespace LedgerClient

variable {σ : Type}

/-- What a client turns to others for. -/
inductive Deed where
  /-- The signer of the operator is asked to sign a body. -/
  | asked (body : Bytes)
  /-- A transaction is handed to the engine by itself. -/
  | handed (tx : Transaction)
  | handedAll (b : Batch)

def Signer.noting (s : Signer) (body : Bytes) (deeds : List Deed) : Signature × List Deed :=
  (s.sign body, deeds ++ [.asked body])

def Hands.noting : Hands σ (List Deed) where
  sign := Signer.noting
  submit e w tx deadline world deeds := (e.submit w tx deadline world, deeds ++ [.handed tx])
  submitAll e w b timeout world deeds := (e.submitAll w b timeout world, deeds ++ [.handedAll b])

theorem Hands.noting_areTrue : (Hands.noting : Hands σ (List Deed)).AreTrue where
  sign := fun _ _ _ => rfl
  submit := fun _ _ _ _ _ _ => rfl
  submitAll := fun _ _ _ _ _ _ => rfl

/-- What signing some payloads asks of the owner of a key. -/
def Deed.signing (key : PublicKey) (payloads : List Payload) : List Deed :=
  (payloads.filter fun p => !p.signatures.contains key).map fun p => .asked p.body

section

variable {key : PublicKey} {payloads : List Payload} {p : Payload}

theorem Deed.signing_cons_of_contains (h : p.signatures.contains key = true) :
    Deed.signing key (p :: payloads) = Deed.signing key payloads := by
  simp [Deed.signing, h]

theorem Deed.signing_cons (h : p.signatures.contains key = false) :
    Deed.signing key (p :: payloads) = .asked p.body :: Deed.signing key payloads := by
  simp [Deed.signing, h]

theorem Deed.mem_signing {deed : Deed} (h : deed ∈ Deed.signing key payloads) :
    exists p, p ∈ payloads ∧ p.signatures.contains key = false ∧ deed = .asked p.body := by
  rcases List.mem_map.mp h with ⟨p, hp, hdeed⟩
  rcases List.mem_filter.mp hp with ⟨hpayload, hnew⟩
  exact ⟨p, hpayload, by simpa using hnew, hdeed.symm⟩

end

/-- Notes in which nothing is handed over. -/
def Deed.OnlyAsked (deeds : List Deed) : Prop :=
  forall deed, deed ∈ deeds -> exists body, deed = .asked body

namespace Deed.OnlyAsked

variable {deeds : List Deed}

theorem not_handed (h : OnlyAsked deeds) (tx : Transaction) : .handed tx ∉ deeds := by
  intro hmem
  rcases h _ hmem with ⟨body, hbody⟩
  cases hbody

theorem not_handedAll (h : OnlyAsked deeds) (b : Batch) : .handedAll b ∉ deeds := by
  intro hmem
  rcases h _ hmem with ⟨body, hbody⟩
  cases hbody

theorem handed_mem_iff (h : OnlyAsked deeds) {tx other : Transaction} :
    .handed other ∈ deeds ++ [.handed tx] <-> other = tx := by
  simp [h.not_handed other]

theorem handedAll_mem_iff (h : OnlyAsked deeds) {b other : Batch} :
    .handedAll other ∈ deeds ++ [.handedAll b] <-> other = b := by
  simp [h.not_handedAll other]

end Deed.OnlyAsked

def Operator.PaysFor (operator : Operator) (tx : Transaction) : Prop :=
  exists id, tx.id = some id ∧ id.account = operator.account

/-- Another signer with the same key, which answers alike whatever was asked. -/
structure Signer.AnswersAlike (s other : Signer) (deeds : List Deed) : Prop where
  key : other.publicKey = s.publicKey
  sign : forall body, .asked body ∈ deeds -> other.sign body = s.sign body

theorem Signer.AnswersAlike.mono {s other : Signer} {deeds more : List Deed}
    (h : s.AnswersAlike other more) (hsubset : deeds ⊆ more) : s.AnswersAlike other deeds :=
  ⟨h.key, fun body hbody => h.sign body (hsubset hbody)⟩

/-!
## Notes of signing
-/

section

variable {s other : Signer}

namespace Transaction

theorem signPayloads_noting (s : Signer) (payloads : List Payload) (deeds : List Deed) :
    (signPayloads s.publicKey s.noting payloads deeds).2 =
      deeds ++ Deed.signing s.publicKey payloads := by
  induction payloads generalizing deeds with
  | nil => exact (List.append_nil deeds).symm
  | cons p rest ih =>
      rw [signPayloads]
      cases hcontains : p.signatures.contains s.publicKey with
      | true =>
          rw [Deed.signing_cons_of_contains hcontains]
          exact ih deeds
      | false =>
          rw [Deed.signing_cons hcontains, List.append_cons]
          exact ih (deeds ++ [.asked p.body])

theorem signWith_alone (tx : Transaction) (s : Signer) :
    tx.signWith s.publicKey (fun body (_ : Unit) => (s.sign body, ())) () =
      (tx.sign s).map fun signed => (signed, ()) := by
  unfold Transaction.sign
  cases tx.signWith s.publicKey (fun body (_ : Unit) => (s.sign body, ())) () with
  | error e => rfl
  | ok done => rfl

theorem signWith_noting (tx : Transaction) (s : Signer) (deeds : List Deed) :
    tx.signWith s.publicKey s.noting deeds =
      (tx.sign s).map fun signed => (signed, deeds ++ Deed.signing s.publicKey tx.payloads) := by
  have hpayloads : (signPayloads s.publicKey s.noting tx.payloads deeds).1 =
      (signPayloads s.publicKey (fun body (_ : Unit) => (s.sign body, ())) tx.payloads ()).1 :=
    signPayloads_fst (fun _ _ => rfl) tx.payloads deeds
  have hdeeds := signPayloads_noting s tx.payloads deeds
  unfold Transaction.sign signWith
  cases tx.requireSignable with
  | error e => rfl
  | ok signable =>
      cases checkSigner s.publicKey tx.payloads with
      | error e => rfl
      | ok checked =>
          rw [← hdeeds]
          show Except.ok ({ tx with
            payloads := (signPayloads s.publicKey s.noting tx.payloads deeds).1, state := .signed },
              (signPayloads s.publicKey s.noting tx.payloads deeds).2) = _
          rw [hpayloads]
          rfl

end Transaction

namespace Batch

theorem signEach_noting (s : Signer) (txs : List Transaction) (deeds : List Deed) :
    exists more, (signEach s.publicKey s.noting txs deeds).2.1 = deeds ++ more ∧
      forall deed, deed ∈ more ->
        exists tx, tx ∈ txs ∧ deed ∈ Deed.signing s.publicKey tx.payloads := by
  induction txs generalizing deeds with
  | nil => exact ⟨[], (List.append_nil deeds).symm, List.forall_mem_nil _⟩
  | cons tx rest ih =>
      rw [signEach, Transaction.signWith_noting]
      cases tx.sign s with
      | error e => exact ⟨[], (List.append_nil deeds).symm, List.forall_mem_nil _⟩
      | ok signed =>
          rcases ih (deeds ++ Deed.signing s.publicKey tx.payloads) with ⟨more, hmore, hall⟩
          refine ⟨Deed.signing s.publicKey tx.payloads ++ more, ?_, ?_⟩
          · rw [← List.append_assoc]
            exact hmore
          · intro deed hdeed
            rcases List.mem_append.mp hdeed with hhere | hlater
            · exact ⟨tx, List.mem_cons_self, hhere⟩
            · rcases hall deed hlater with ⟨other, hother, hasked⟩
              exact ⟨other, List.mem_cons_of_mem tx hother, hasked⟩

theorem signWith_noting (b : Batch) (s : Signer) :
    forall deed, deed ∈ (b.signWith s.publicKey s.noting []).2.1 ->
      exists tx, tx ∈ b.transactions ∧ deed ∈ Deed.signing s.publicKey tx.payloads := by
  unfold Batch.signWith
  cases Transaction.checkSigner s.publicKey (b.transactions.flatMap Transaction.payloads) with
  | error e => exact List.forall_mem_nil _
  | ok checked =>
      rcases signEach_noting s b.transactions [] with ⟨deeds, hdeeds, hall⟩
      rw [List.nil_append] at hdeeds
      dsimp only
      rw [hdeeds]
      exact hall

end Batch

/-!
## Signers that answer alike
-/

namespace Transaction

theorem signPayloads_alike {payloads : List Payload}
    (h : s.AnswersAlike other (Deed.signing s.publicKey payloads)) :
    signPayloads other.publicKey (fun body (_ : Unit) => (other.sign body, ())) payloads () =
      signPayloads s.publicKey (fun body (_ : Unit) => (s.sign body, ())) payloads () := by
  rw [h.key]
  induction payloads with
  | nil => rfl
  | cons p rest ih =>
      rw [signPayloads, signPayloads]
      cases hcontains : p.signatures.contains s.publicKey with
      | true =>
          rw [Deed.signing_cons_of_contains hcontains] at h
          rw [ih h]
          rfl
      | false =>
          rw [Deed.signing_cons hcontains] at h
          have hrest := ih (h.mono (List.subset_cons_self _ _))
          simp only [h.sign p.body List.mem_cons_self, hrest]

/-- What cannot be signed is refused whatever a signer would answer. -/
theorem sign_alike {tx : Transaction} (hkey : other.publicKey = s.publicKey)
    (h : forall signed, tx.sign s = .ok signed ->
      s.AnswersAlike other (Deed.signing s.publicKey tx.payloads)) : tx.sign other = tx.sign s := by
  cases hsignable : tx.requireSignable with
  | error e =>
      unfold Transaction.sign signWith
      rw [hsignable]
      rfl
  | ok signable =>
      cases hcheck : checkSigner s.publicKey tx.payloads with
      | error e =>
          unfold Transaction.sign signWith
          rw [hsignable, hkey, hcheck]
          rfl
      | ok checked =>
          have hsigned : forall signer : Signer, signer.publicKey = s.publicKey ->
              tx.sign signer = .ok { tx with
                payloads := (signPayloads signer.publicKey
                  (fun body (_ : Unit) => (signer.sign body, ())) tx.payloads ()).1
                state := .signed } := by
            intro signer hsame
            unfold Transaction.sign signWith
            rw [hsignable, hsame, hcheck]
            rfl
          rw [hsigned other hkey, hsigned s rfl, signPayloads_alike (h _ (hsigned s rfl))]

end Transaction

namespace Batch

theorem signEach_alike {txs : List Transaction} {deeds : List Deed}
    (h : s.AnswersAlike other (signEach s.publicKey s.noting txs deeds).2.1) :
    signEach other.publicKey (fun body (_ : Unit) => (other.sign body, ())) txs () =
      signEach s.publicKey (fun body (_ : Unit) => (s.sign body, ())) txs () := by
  induction txs generalizing deeds with
  | nil => rfl
  | cons tx rest ih =>
      rw [signEach, Transaction.signWith_noting] at h
      rw [signEach, signEach, Transaction.signWith_alone, Transaction.signWith_alone]
      cases hsigned : tx.sign s with
      | error e =>
          have hsame : tx.sign other = tx.sign s := by
            apply Transaction.sign_alike h.key
            intro signed hok
            rw [hsigned] at hok
            cases hok
          rw [hsame, hsigned]
          rfl
      | ok signed =>
          rw [hsigned] at h
          have hlater : s.AnswersAlike other
              (signEach s.publicKey s.noting rest
                (deeds ++ Deed.signing s.publicKey tx.payloads)).2.1 := h
          have hsame : tx.sign other = tx.sign s := by
            apply Transaction.sign_alike h.key
            intro _ _
            rcases signEach_noting s rest (deeds ++ Deed.signing s.publicKey tx.payloads) with
              ⟨more, hmore, _⟩
            rw [hmore] at hlater
            exact hlater.mono fun deed hdeed =>
              List.mem_append_left more (List.mem_append_right deeds hdeed)
          rw [hsame, hsigned]
          simp only [Except.map, ih hlater]

theorem sign_alike {b : Batch} (h : s.AnswersAlike other (b.signWith s.publicKey s.noting []).2.1) :
    b.sign other = b.sign s := by
  unfold Batch.sign Batch.signWith
  unfold Batch.signWith at h
  rw [h.key]
  cases hcheck : Transaction.checkSigner s.publicKey
      (b.transactions.flatMap Transaction.payloads) with
  | error e => rfl
  | ok checked =>
      rw [hcheck] at h
      have heach := signEach_alike h
      rw [h.key] at heach
      rw [heach]

end Batch

end

/-!
## Notes of a call
-/

namespace Client

variable {c : Client}

/-- The client with another signer for its operator, if it has one. -/
def withSigner (c : Client) (signer : Signer) : Client :=
  { c with operator := c.operator.map fun operator => { operator with signer := signer } }

theorem withSigner_operator {operator : Operator} (hoperator : c.operator = some operator)
    (signer : Signer) :
    (c.withSigner signer).operator = some { operator with signer := signer } := by
  rw [withSigner, hoperator]
  rfl

theorem freezeWith_withSigner (c : Client) (signer : Signer) (w : Surroundings σ)
    (tx : Transaction) (world : σ) :
    (c.withSigner signer).freezeWith w tx world = c.freezeWith w tx world := by
  unfold freezeWith withSigner
  cases tx.id with
  | some id => rfl
  | none =>
      cases c.operator with
      | none => rfl
      | some operator => rfl

/-- The signer is asked for nothing, or the operator pays. -/
theorem signWithOperatorBy_noting {operator : Operator} (hoperator : c.operator = some operator)
    (tx : Transaction) :
    (c.signWithOperatorBy (Hands.noting : Hands σ _) tx []).2 = [] ∨
      operator.PaysFor tx ∧
        (c.signWithOperatorBy (Hands.noting : Hands σ _) tx []).2 =
          Deed.signing operator.signer.publicKey tx.payloads := by
  simp only [signWithOperatorBy, hoperator, Hands.noting, Transaction.signWith_noting]
  cases hneeded : pays operator tx && !tx.isSignedBy operator.signer.publicKey with
  | false => exact Or.inl rfl
  | true =>
      cases tx.sign operator.signer with
      | error e => exact Or.inl rfl
      | ok signed => exact Or.inr ⟨pays_iff.mp (Bool.and_eq_true_iff.mp hneeded).left, rfl⟩

/-- The signer is asked for nothing, or the operator pays for every transaction. -/
theorem signBatchWithOperatorBy_noting {operator : Operator}
    (hoperator : c.operator = some operator) (b : Batch) :
    (c.signBatchWithOperatorBy (Hands.noting : Hands σ _) b []).2 = [] ∨
      (forall tx, tx ∈ b.transactions -> operator.PaysFor tx) ∧
        forall deed, deed ∈ (c.signBatchWithOperatorBy (Hands.noting : Hands σ _) b []).2 ->
          exists tx, tx ∈ b.transactions ∧
            deed ∈ Deed.signing operator.signer.publicKey tx.payloads := by
  simp only [signBatchWithOperatorBy, hoperator]
  cases hall : b.transactions.all (pays operator) with
  | false => exact Or.inl rfl
  | true =>
      exact Or.inr ⟨fun tx htx => pays_iff.mp (List.all_eq_true.mp hall tx htx),
        b.signWith_noting operator.signer⟩

theorem signWithOperator_alike {operator : Operator} (hoperator : c.operator = some operator)
    {signer : Signer} {tx : Transaction}
    (h : operator.signer.AnswersAlike signer
      (c.signWithOperatorBy (Hands.noting : Hands σ _) tx []).2) :
    (c.withSigner signer).signWithOperator tx = c.signWithOperator tx := by
  have hpays : pays { operator with signer := signer } tx = pays operator tx := rfl
  simp only [signWithOperatorBy, hoperator, Hands.noting, Transaction.signWith_noting] at h
  simp only [signWithOperator, withSigner_operator hoperator, hoperator, hpays, h.key]
  cases hneeded : pays operator tx && !tx.isSignedBy operator.signer.publicKey with
  | false => rfl
  | true =>
      apply Transaction.sign_alike h.key
      intro signed hsigned
      rw [hneeded, hsigned] at h
      exact h

theorem signBatchWithOperator_alike {operator : Operator} (hoperator : c.operator = some operator)
    {signer : Signer} {b : Batch}
    (h : operator.signer.AnswersAlike signer
      (c.signBatchWithOperatorBy (Hands.noting : Hands σ _) b []).2) :
    (c.withSigner signer).signBatchWithOperator b = c.signBatchWithOperator b := by
  have hpays : pays { operator with signer := signer } = pays operator := rfl
  simp only [signBatchWithOperatorBy, hoperator, Hands.noting] at h
  simp only [signBatchWithOperator, withSigner_operator hoperator, hoperator, hpays]
  cases hall : b.transactions.all (pays operator) with
  | false => rw [if_neg Bool.false_ne_true, if_neg Bool.false_ne_true]
  | true =>
      rw [hall] at h
      exact Batch.sign_alike h

/-!
## Deliveries that are noted
-/

/-- No delivery is noted and no step is taken, or the one that is noted is the whole run. -/
theorem submitFrozenBy_noting (c : Client) (w : Surroundings σ) (tx : Transaction) (world : σ) :
    ((c.submitFrozenBy Hands.noting w tx world []).2 =
          (c.signWithOperatorBy (Hands.noting : Hands σ _) tx []).2 ∧
        (c.submitFrozen w tx world).run.steps = []) ∨
      exists signed deadline, c.signWithOperator tx = .ok signed ∧
        c.submitFrozen w tx world = c.engine.submit w signed deadline (w.timer world).2 ∧
        (c.submitFrozenBy Hands.noting w tx world []).2 =
          (c.signWithOperatorBy (Hands.noting : Hands σ _) tx []).2 ++ [.handed signed] := by
  have hsame := signWithOperatorBy_fst (Hands.noting_areTrue (σ := σ)) c tx []
  -- The timeout is not to be computed with.
  obtain ⟨timeout, htimeout⟩ : exists timeout, c.config.requestTimeout = timeout := ⟨_, rfl⟩
  rcases hnoted : c.signWithOperatorBy (Hands.noting : Hands σ _) tx [] with ⟨result, deeds⟩
  rcases htimer : w.timer world with ⟨now, started⟩
  rw [hnoted] at hsame
  unfold submitFrozenBy submitFrozen
  rw [← hsame, hnoted, htimeout, htimer]
  cases result with
  | error e => exact Or.inl ⟨rfl, rfl⟩
  | ok signed =>
      dsimp only
      cases now.plus? timeout with
      | none => exact Or.inl ⟨rfl, rfl⟩
      | some deadline => exact Or.inr ⟨signed, deadline, rfl, rfl, rfl⟩

theorem executeAllBy_noting (c : Client) (w : Surroundings σ) (b : Batch) (world : σ) :
    ((c.executeAllBy Hands.noting w b world []).2 =
          (c.signBatchWithOperatorBy (Hands.noting : Hands σ _) b []).2 ∧
        (c.executeAll w b world).parts = []) ∨
      exists signed, c.signBatchWithOperator b = (signed, .ok ()) ∧
        c.executeAll w b world = c.engine.submitAll w signed c.config.requestTimeout world ∧
        (c.executeAllBy Hands.noting w b world []).2 =
          (c.signBatchWithOperatorBy (Hands.noting : Hands σ _) b []).2 ++ [.handedAll signed] := by
  have hsame := signBatchWithOperatorBy_fst (Hands.noting_areTrue (σ := σ)) c b []
  rcases hnoted : c.signBatchWithOperatorBy (Hands.noting : Hands σ _) b [] with
    ⟨⟨signed, result⟩, deeds⟩
  rw [hnoted] at hsame
  unfold executeAllBy executeAll
  rw [← hsame, hnoted]
  cases result with
  | error e => exact Or.inl ⟨rfl, rfl⟩
  | ok done => exact Or.inr ⟨signed, rfl, rfl, rfl⟩

section

variable {operator : Operator} {signer : Signer} {w : Surroundings σ} {tx : Transaction}
  {b : Batch} {world : σ}

theorem submitFrozen_alike (hoperator : c.operator = some operator)
    (h : operator.signer.AnswersAlike signer (c.submitFrozenBy Hands.noting w tx world []).2) :
    (c.withSigner signer).submitFrozen w tx world = c.submitFrozen w tx world := by
  have hsigned : (c.withSigner signer).signWithOperator tx = c.signWithOperator tx := by
    apply signWithOperator_alike (σ := σ) hoperator
    apply h.mono
    rcases c.submitFrozenBy_noting w tx world with ⟨hdeeds, _⟩ | ⟨_, _, _, _, hdeeds⟩
    · rw [hdeeds]
      exact List.Subset.refl _
    · rw [hdeeds]
      exact List.subset_append_left _ _
  have hconfig : (c.withSigner signer).config = c.config := rfl
  obtain ⟨timeout, htimeout⟩ : exists timeout, c.config.requestTimeout = timeout := ⟨_, rfl⟩
  rcases htimer : w.timer world with ⟨now, started⟩
  unfold submitFrozen
  rw [hsigned, hconfig, htimeout, htimer]
  cases c.signWithOperator tx with
  | error e => rfl
  | ok signed =>
      dsimp only
      cases now.plus? timeout with
      | none => rfl
      | some deadline => rfl

theorem execute_alike (hoperator : c.operator = some operator)
    (h : operator.signer.AnswersAlike signer (c.executeBy Hands.noting w tx world []).2) :
    (c.withSigner signer).execute w tx world = c.execute w tx world := by
  unfold executeBy at h
  unfold execute
  rw [c.freezeWith_withSigner]
  by_cases hdraft : tx.state = .draft
  · rw [if_pos hdraft] at h
    rw [if_pos hdraft, if_pos hdraft]
    rcases hfreeze : c.freezeWith w tx world with ⟨frozen, result, started⟩
    rw [hfreeze] at h
    cases result with
    | error e => rfl
    | ok done => exact submitFrozen_alike hoperator h
  · rw [if_neg hdraft] at h
    rw [if_neg hdraft, if_neg hdraft]
    exact submitFrozen_alike hoperator h

theorem executeAll_alike (hoperator : c.operator = some operator)
    (h : operator.signer.AnswersAlike signer (c.executeAllBy Hands.noting w b world []).2) :
    (c.withSigner signer).executeAll w b world = c.executeAll w b world := by
  have hsigned : (c.withSigner signer).signBatchWithOperator b = c.signBatchWithOperator b := by
    apply signBatchWithOperator_alike (σ := σ) hoperator
    apply h.mono
    rcases c.executeAllBy_noting w b world with ⟨hdeeds, _⟩ | ⟨_, _, _, hdeeds⟩
    · rw [hdeeds]
      exact List.Subset.refl _
    · rw [hdeeds]
      exact List.subset_append_left _ _
  have hconfig : (c.withSigner signer).config = c.config := rfl
  obtain ⟨timeout, htimeout⟩ : exists timeout, c.config.requestTimeout = timeout := ⟨_, rfl⟩
  unfold executeAll
  rw [hsigned, hconfig, htimeout]
  rcases c.signBatchWithOperator b with ⟨signed, result⟩
  cases result with
  | error e => rfl
  | ok done => rfl

end

end Client

end LedgerClient
