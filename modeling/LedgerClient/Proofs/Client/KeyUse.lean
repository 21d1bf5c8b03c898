import LedgerClient.Proofs.Client.Notes
import LedgerClient.Proofs.Client.Resubmission
import LedgerClient.Proofs.Delivery.Series

/-!
# What the operator's key is used for

The calls of a client are followed through their notes, which tell what its signer was asked to sign
and what was handed to the engine.  The signer is asked only for what its owner pays for, and what
its owner pays for and is executed alone carries its key before it is delivered.
-/

namespace LedgerClient

variable {σ : Type}

/-- What is asked of a client. -/
inductive Task where
  | freeze (tx : Transaction)
  | chunk (tx : Transaction)
  | execute (tx : Transaction)
  | executeAll (b : Batch)

/-- What comes of a call: transactions, the records of the nodes and what was noted. -/
structure Service where
  transactions : List Transaction
  registry : Registry
  deeds : List Deed

namespace Execution

def withSigner (x : Execution σ) (signer : Signer) : Execution σ :=
  { x with client := x.client.withSigner signer }

def runAll (x : Execution σ) (b : Batch) : BatchRun σ :=
  x.client.executeAll x.surroundings b x.world

/-- In freezing and in chunking there is nothing to note. -/
def serve (x : Execution σ) : Task → Service
  | .freeze tx =>
      { transactions := [(x.client.freezeWith x.surroundings tx x.world).1]
        registry := x.client.registry
        deeds := [] }
  | .chunk tx =>
      { transactions := (x.client.chunk tx).toOption.elim [] Batch.transactions
        registry := x.client.registry
        deeds := [] }
  | .execute tx =>
      let noted := x.client.executeBy Hands.noting x.surroundings tx x.world []
      { transactions := [noted.1.transaction]
        registry := noted.1.run.registry
        deeds := noted.2 }
  | .executeAll b =>
      let noted := x.client.executeAllBy Hands.noting x.surroundings b x.world []
      { transactions := noted.1.batch.transactions
        registry := noted.1.registry
        deeds := noted.2 }

/-- A transaction as it stands when a call comes to sign it. -/
def Treats (x : Execution σ) : Task → Transaction → Prop
  | .freeze _, _ => False
  | .chunk _, _ => False
  | .execute given, tx =>
      given.state ≠ .draft ∧ tx = given ∨
        given.state = .draft ∧
          exists started, x.client.freezeWith x.surroundings given x.world = (tx, .ok (), started)
  | .executeAll b, tx => tx ∈ b.transactions

end Execution

/-- Calls of one client in a row, each with surroundings of its own.  A call leaves to the next what
it has learned of the nodes. -/
inductive Client.Serves : Client -> List (Execution σ × Task) -> Prop where
  | done (c : Client) : Serves c []
  | next (x : Execution σ) (task : Task) {rest : List (Execution σ × Task)} :
      Serves (x.client.withRegistry (x.serve task).registry) rest ->
      Serves x.client ((x, task) :: rest)

/-- In a call the operator signs only what the operator pays for, and all of that. -/
structure Execution.KeepsKey (x : Execution σ) (task : Task) (operator : Operator) : Prop where
  /-- The signer is asked only for what it has not signed, of what its owner pays for. -/
  own : forall body, Deed.asked body ∈ (x.serve task).deeds ->
    exists tx p, x.Treats task tx ∧ operator.PaysFor tx ∧ p ∈ tx.payloads ∧ p.body = body ∧
      p.signatures.contains operator.signer.publicKey = false
  /-- Freezing and chunking come out the same whatever the signer does. -/
  silent : forall tx signer, task = .freeze tx ∨ task = .chunk tx ->
    (x.client.withSigner signer).freezeWith x.surroundings tx x.world =
        x.client.freezeWith x.surroundings tx x.world ∧
      (x.client.withSigner signer).chunk tx = x.client.chunk tx
  /-- A transaction keeps its payer when it is frozen. -/
  foreign : forall tx id, task = .execute tx -> tx.id = some id ->
    id.account ≠ operator.account -> forall body, Deed.asked body ∉ (x.serve task).deeds
  mixed : forall b tx, task = .executeAll b -> tx ∈ b.transactions -> ¬operator.PaysFor tx ->
    (forall body, Deed.asked body ∉ (x.serve task).deeds) ∧
      (x.serve task).transactions.map Transaction.payloads =
        b.transactions.map Transaction.payloads
  handed : forall tx, Deed.handed tx ∈ (x.serve task).deeds ->
    (exists given deadline after, task = .execute given ∧
        x.run given = x.client.engine.submit x.surroundings tx deadline after) ∧
      (operator.PaysFor tx ->
        forall p, p ∈ tx.payloads -> p.signatures.contains operator.signer.publicKey = true)
  /-- What comes of a call is what comes of it without notes. -/
  executes : forall tx, task = .execute tx ->
    (x.serve task).transactions = [(x.run tx).transaction] ∧
      (x.serve task).registry = (x.run tx).run.registry
  executesAll : forall b, task = .executeAll b ->
    (x.serve task).transactions = (x.runAll b).batch.transactions ∧
      (x.serve task).registry = (x.runAll b).registry
  /-- The signer was asked for nothing but what was noted. -/
  nothingElse : forall signer, operator.signer.AnswersAlike signer (x.serve task).deeds ->
    (forall tx, task = .execute tx -> (x.withSigner signer).run tx = x.run tx) ∧
      forall b, task = .executeAll b -> (x.withSigner signer).runAll b = x.runAll b
  /-- Nothing was done towards a delivery but for the transaction that was noted. -/
  delivered : forall given, task = .execute given ->
    (exists tx deadline after, (forall other, .handed other ∈ (x.serve task).deeds <-> other = tx) ∧
        x.run given = x.client.engine.submit x.surroundings tx deadline after) ∨
      (forall other, .handed other ∉ (x.serve task).deeds) ∧ (x.run given).run.steps = []
  deliveredAll : forall b, task = .executeAll b ->
    (exists signed, (forall other, .handedAll other ∈ (x.serve task).deeds <-> other = signed) ∧
        x.runAll b = x.client.engine.submitAll x.surroundings signed
          x.client.config.requestTimeout x.world) ∨
      (forall other, .handedAll other ∉ (x.serve task).deeds) ∧ (x.runAll b).parts = []

/-!
## Payers and payloads
-/

namespace Client

theorem id_of_freezeIdentified (c : Client) (tx : Transaction) :
    (c.freezeIdentified tx).1.id = tx.id := by
  apply c.freezeIdentified_rel (R := fun before after => after.id = before.id) (fun _ => rfl)
    (fun _ _ _ hfirst hsecond => hsecond.trans hfirst)
  case hnodes =>
    intro before after nodes h
    cases (Transaction.requireDraft_bind_eq_ok h).right
    rfl
  case hfee =>
    intro before after fee h
    cases (Transaction.requireDraft_bind_eq_ok h).right
    rfl
  case hduration =>
    intro before after secs h
    have hset := (Transaction.requireDraft_bind_eq_ok h).right
    by_cases hzero : secs = 0
    · rw [if_pos hzero] at hset
      cases hset
    · rw [if_neg hzero] at hset
      cases hset
      rfl
  case hfreeze =>
    intro before after h
    rcases Transaction.freeze_eq_ok h with ⟨_, _, _, _, id, _, hfrozen⟩
    rw [hfrozen]
    rfl

end Client

namespace Execution

variable {x : Execution σ} {given tx : Transaction} {operator : Operator}

theorem Treats.id (h : x.Treats (.execute given) tx) {id : TransactionId}
    (hid : given.id = some id) : tx.id = some id := by
  rcases h with ⟨_, hsame⟩ | ⟨_, started, hfreeze⟩
  · rw [hsame]
    exact hid
  · have hkept := x.client.id_of_freezeIdentified given
    simp only [Client.freezeWith, hid] at hfreeze
    rw [(Prod.ext_iff.mp hfreeze).left] at hkept
    exact hkept.trans hid

end Execution

theorem Engine.payloads_of_submitAll (e : Engine) (w : Surroundings σ) (b : Batch)
    (timeout : Duration) (world : σ) :
    (e.submitAll w b timeout world).batch.transactions.map Transaction.payloads =
      b.transactions.map Transaction.payloads := by
  unfold Engine.submitAll
  cases Engine.firstUnready? 0 b.transactions with
  | none => exact (Engine.submitEach_series w timeout 0 b.transactions e [] world).payloads
  | some found => rfl

namespace Client

/-- If another than the operator pays for a transaction of a batch, none of the batch is signed. -/
theorem payloads_of_mixed {c : Client} {operator : Operator}
    (hoperator : c.operator = some operator) {b : Batch} {tx : Transaction}
    (htx : tx ∈ b.transactions) (hother : ¬operator.PaysFor tx) (w : Surroundings σ) (world : σ) :
    (c.executeAll w b world).batch.transactions.map Transaction.payloads =
      b.transactions.map Transaction.payloads := by
  have hunsigned : c.signBatchWithOperator b = (b, .ok ()) := by
    rcases c.signBatchWithOperator_cases b with hsame | ⟨same, hsame, hall, _⟩
    · exact hsame
    · rw [hoperator] at hsame
      cases hsame
      exact (hother (pays_iff.mp (hall tx htx))).elim
  rcases c.executeAll_cases w b world with ⟨_, _, hsign, _⟩ | ⟨signed, hsign, hrun⟩
  · rw [hunsigned] at hsign
    cases hsign
  · rw [hunsigned] at hsign
    cases hsign
    rw [hrun]
    exact c.engine.payloads_of_submitAll w b _ world

end Client

/-!
## Notes of a call
-/

namespace Execution

variable {x : Execution σ} {operator : Operator}

theorem executeBy_cases (x : Execution σ) (given : Transaction) :
    ((x.serve (.execute given)).deeds = [] ∧ (x.run given).run.steps = []) ∨
      exists tx started, x.Treats (.execute given) tx ∧
        x.run given = x.client.submitFrozen x.surroundings tx started ∧
        (x.serve (.execute given)).deeds =
          (x.client.submitFrozenBy Hands.noting x.surroundings tx started []).2 := by
  have hdeeds : (x.serve (.execute given)).deeds =
      (x.client.executeBy Hands.noting x.surroundings given x.world []).2 := rfl
  rw [hdeeds]
  unfold run Client.executeBy Client.execute
  by_cases hdraft : given.state = .draft
  · rcases hfreeze : x.client.freezeWith x.surroundings given x.world with ⟨tx, result, started⟩
    rw [if_pos hdraft, if_pos hdraft]
    cases result with
    | error e => exact Or.inl ⟨rfl, rfl⟩
    | ok done => exact Or.inr ⟨tx, started, Or.inr ⟨hdraft, started, hfreeze⟩, rfl, rfl⟩
  · rw [if_neg hdraft, if_neg hdraft]
    exact Or.inr ⟨given, x.world, Or.inl ⟨hdraft, rfl⟩, rfl, rfl⟩

/-- Notes of signing, all of it for transactions of the call that the operator pays for. -/
def SignsOwn (x : Execution σ) (task : Task) (operator : Operator) (asked : List Deed) : Prop :=
  forall deed, deed ∈ asked -> exists tx p, x.Treats task tx ∧ operator.PaysFor tx ∧
    p ∈ tx.payloads ∧ p.signatures.contains operator.signer.publicKey = false ∧
    deed = .asked p.body

theorem SignsOwn.onlyAsked {task : Task} {asked : List Deed} (h : x.SignsOwn task operator asked) :
    Deed.OnlyAsked asked := by
  intro deed hdeed
  rcases h deed hdeed with ⟨_, p, _, _, _, _, hbody⟩
  exact ⟨p.body, hbody⟩

theorem SignsOwn.own {task : Task} {asked : List Deed} (h : x.SignsOwn task operator asked)
    {body : Bytes} (hbody : .asked body ∈ asked) :
    exists tx p, x.Treats task tx ∧ operator.PaysFor tx ∧ p ∈ tx.payloads ∧ p.body = body ∧
      p.signatures.contains operator.signer.publicKey = false := by
  rcases h _ hbody with ⟨tx, p, htreats, hpays, hp, hnew, hsame⟩
  cases hsame
  exact ⟨tx, p, htreats, hpays, hp, rfl, hnew⟩

/-- What is noted of an execution: what was asked of the signer and, behind that, at most one
delivery. -/
theorem execute_notes (x : Execution σ) (given : Transaction)
    (hoperator : x.client.operator = some operator) :
    exists asked, x.SignsOwn (.execute given) operator asked ∧
      ((x.serve (.execute given)).deeds = asked ∧ (x.run given).run.steps = [] ∨
        exists tx deadline after, (x.serve (.execute given)).deeds = asked ++ [.handed tx] ∧
          x.run given = x.client.engine.submit x.surroundings tx deadline after ∧
          (operator.PaysFor tx -> forall p, p ∈ tx.payloads ->
            p.signatures.contains operator.signer.publicKey = true)) := by
  rcases x.executeBy_cases given with ⟨hnone, hidle⟩ | ⟨tx, started, htreats, hrun, hnoted⟩
  · exact ⟨[], List.forall_mem_nil _, Or.inl ⟨hnone, hidle⟩⟩
  · refine ⟨(x.client.signWithOperatorBy (Hands.noting : Hands σ _) tx []).2, ?_, ?_⟩
    · intro deed hdeed
      rcases Client.signWithOperatorBy_noting (σ := σ) hoperator tx with hnone | ⟨hpays, hall⟩
      · rw [hnone] at hdeed
        cases hdeed
      · rw [hall] at hdeed
        rcases Deed.mem_signing hdeed with ⟨p, hp, hnew, hasked⟩
        exact ⟨tx, p, htreats, hpays, hp, hnew, hasked⟩
    · rw [hrun, hnoted]
      rcases x.client.submitFrozenBy_noting x.surroundings tx started with
        hidle | ⟨signed, deadline, hsign, hsubmit, hdeeds⟩
      · exact Or.inl hidle
      · refine Or.inr ⟨signed, deadline, _, hdeeds, hsubmit, ?_⟩
        rintro ⟨id, hid, haccount⟩ p hp
        rw [Client.id_of_signWithOperator hsign] at hid
        exact Client.signWithOperator_contains hsign hoperator
          (Client.pays_iff.mpr ⟨id, hid, haccount⟩) hp

theorem executeAll_notes (x : Execution σ) (b : Batch)
    (hoperator : x.client.operator = some operator) :
    exists asked, x.SignsOwn (.executeAll b) operator asked ∧
      (asked = [] ∨ forall tx, tx ∈ b.transactions -> operator.PaysFor tx) ∧
      ((x.serve (.executeAll b)).deeds = asked ∧ (x.runAll b).parts = [] ∨
        exists signed, (x.serve (.executeAll b)).deeds = asked ++ [.handedAll signed] ∧
          x.runAll b = x.client.engine.submitAll x.surroundings signed
            x.client.config.requestTimeout x.world) := by
  have hnoted := Client.signBatchWithOperatorBy_noting (σ := σ) hoperator b
  refine ⟨(x.client.signBatchWithOperatorBy (Hands.noting : Hands σ _) b []).2, ?_,
    hnoted.imp_right And.left, ?_⟩
  · intro deed hdeed
    rcases hnoted with hnone | ⟨hpays, hall⟩
    · rw [hnone] at hdeed
      cases hdeed
    · rcases hall deed hdeed with ⟨tx, htx, hsigning⟩
      rcases Deed.mem_signing hsigning with ⟨p, hp, hnew, hasked⟩
      exact ⟨tx, p, htx, hpays tx htx, hp, hnew, hasked⟩
  · rcases x.client.executeAllBy_noting x.surroundings b x.world with
      hidle | ⟨signed, _, hsubmit, hdeeds⟩
    · exact Or.inl hidle
    · exact Or.inr ⟨signed, hdeeds, hsubmit⟩

theorem silent_of_signer (x : Execution σ) (signer : Signer) (tx : Transaction) :
    (x.client.withSigner signer).freezeWith x.surroundings tx x.world =
        x.client.freezeWith x.surroundings tx x.world ∧
      (x.client.withSigner signer).chunk tx = x.client.chunk tx :=
  ⟨x.client.freezeWith_withSigner signer x.surroundings tx x.world, rfl⟩

/-!
## A call, and any number of calls
-/

/-- A call that neither signs nor delivers. -/
theorem keepsKey_of_idle {x : Execution σ} {task : Task} (hnone : (x.serve task).deeds = [])
    (hexecute : forall tx, task ≠ .execute tx) (hall : forall b, task ≠ .executeAll b) :
    x.KeepsKey task operator := by
  constructor
  case own =>
    intro body hbody
    rw [hnone] at hbody
    cases hbody
  case silent => exact fun tx signer _ => x.silent_of_signer signer tx
  case foreign => exact fun tx _ htask => (hexecute tx htask).elim
  case mixed => exact fun b _ htask => (hall b htask).elim
  case handed =>
    intro tx htx
    rw [hnone] at htx
    cases htx
  case executes => exact fun tx htask => (hexecute tx htask).elim
  case executesAll => exact fun b htask => (hall b htask).elim
  case nothingElse =>
    exact fun _ _ =>
      ⟨fun tx htask => (hexecute tx htask).elim, fun b htask => (hall b htask).elim⟩
  case delivered => exact fun tx htask => (hexecute tx htask).elim
  case deliveredAll => exact fun b htask => (hall b htask).elim

theorem keepsKey_execute (x : Execution σ) (given : Transaction)
    (hoperator : x.client.operator = some operator) : x.KeepsKey (.execute given) operator := by
  rcases x.execute_notes given hoperator with ⟨asked, hasked, hcourse⟩
  have honly := hasked.onlyAsked
  have hown : forall body, .asked body ∈ (x.serve (.execute given)).deeds ->
      exists tx p, x.Treats (.execute given) tx ∧ operator.PaysFor tx ∧ p ∈ tx.payloads ∧
        p.body = body ∧ p.signatures.contains operator.signer.publicKey = false := by
    intro body hbody
    rcases hcourse with ⟨hdeeds, _⟩ | ⟨_, _, _, hdeeds, _⟩
    · rw [hdeeds] at hbody
      exact hasked.own hbody
    · rw [hdeeds] at hbody
      exact hasked.own (by simpa using hbody)
  have hsame : (x.client.executeBy Hands.noting x.surroundings given x.world []).1 = x.run given :=
    Client.executeBy_fst Hands.noting_areTrue x.client x.surroundings given x.world []
  constructor
  case own => exact hown
  case silent => exact fun tx signer _ => x.silent_of_signer signer tx
  case foreign =>
    intro tx id htask hid hother body hbody
    cases htask
    rcases hown body hbody with ⟨treated, _, htreats, ⟨same, hsame, haccount⟩, _⟩
    rw [htreats.id hid] at hsame
    cases hsame
    exact hother haccount
  case mixed =>
    intro b tx htask
    cases htask
  case handed =>
    intro tx htx
    rcases hcourse with ⟨hdeeds, _⟩ | ⟨submitted, deadline, after, hdeeds, hrun, hsigned⟩
    · rw [hdeeds] at htx
      exact (honly.not_handed tx htx).elim
    · rw [hdeeds] at htx
      cases honly.handed_mem_iff.mp htx
      exact ⟨⟨given, deadline, after, rfl, hrun⟩, hsigned⟩
  case executes =>
    intro tx htask
    cases htask
    exact ⟨congrArg (fun done : TransactionRun σ => [done.transaction]) hsame,
      congrArg (fun done : TransactionRun σ => done.run.registry) hsame⟩
  case executesAll =>
    intro b htask
    cases htask
  case nothingElse =>
    intro signer halike
    constructor
    · intro tx htask
      cases htask
      exact Client.execute_alike hoperator halike
    · intro b htask
      cases htask
  case delivered =>
    intro tx htask
    cases htask
    rcases hcourse with ⟨hdeeds, hidle⟩ | ⟨submitted, deadline, after, hdeeds, hrun, _⟩
    · rw [hdeeds]
      exact Or.inr ⟨honly.not_handed, hidle⟩
    · rw [hdeeds]
      exact Or.inl ⟨submitted, deadline, after, fun _ => honly.handed_mem_iff, hrun⟩
  case deliveredAll =>
    intro b htask
    cases htask

theorem keepsKey_executeAll (x : Execution σ) (b : Batch)
    (hoperator : x.client.operator = some operator) : x.KeepsKey (.executeAll b) operator := by
  rcases x.executeAll_notes b hoperator with ⟨asked, hasked, hpaid, hcourse⟩
  have honly := hasked.onlyAsked
  have hmem : forall body, .asked body ∈ (x.serve (.executeAll b)).deeds -> .asked body ∈ asked := by
    intro body hbody
    rcases hcourse with ⟨hdeeds, _⟩ | ⟨_, hdeeds, _⟩
    · rwa [hdeeds] at hbody
    · rw [hdeeds] at hbody
      simpa using hbody
  have hsame : (x.client.executeAllBy Hands.noting x.surroundings b x.world []).1 = x.runAll b :=
    Client.executeAllBy_fst Hands.noting_areTrue x.client x.surroundings b x.world []
  have hexecuted : (x.serve (.executeAll b)).transactions = (x.runAll b).batch.transactions ∧
      (x.serve (.executeAll b)).registry = (x.runAll b).registry :=
    ⟨congrArg (fun done : BatchRun σ => done.batch.transactions) hsame,
      congrArg BatchRun.registry hsame⟩
  constructor
  case own => exact fun body hbody => hasked.own (hmem body hbody)
  case silent => exact fun tx signer _ => x.silent_of_signer signer tx
  case foreign =>
    intro tx id htask
    cases htask
  case mixed =>
    intro same tx htask htx hother
    cases htask
    constructor
    · intro body hbody
      rcases hpaid with hnone | hall
      · have hnoted := hmem body hbody
        rw [hnone] at hnoted
        cases hnoted
      · exact hother (hall tx htx)
    · rw [hexecuted.left]
      exact Client.payloads_of_mixed hoperator htx hother x.surroundings x.world
  case handed =>
    intro tx htx
    rcases hcourse with ⟨hdeeds, _⟩ | ⟨_, hdeeds, _⟩
    · rw [hdeeds] at htx
      exact (honly.not_handed tx htx).elim
    · rw [hdeeds] at htx
      exact (honly.not_handed tx (by simpa using htx)).elim
  case executes =>
    intro tx htask
    cases htask
  case executesAll =>
    intro same htask
    cases htask
    exact hexecuted
  case nothingElse =>
    intro signer halike
    constructor
    · intro tx htask
      cases htask
    · intro same htask
      cases htask
      exact Client.executeAll_alike hoperator halike
  case delivered =>
    intro tx htask
    cases htask
  case deliveredAll =>
    intro same htask
    cases htask
    rcases hcourse with ⟨hdeeds, hidle⟩ | ⟨signed, hdeeds, hrun⟩
    · rw [hdeeds]
      exact Or.inr ⟨honly.not_handedAll, hidle⟩
    · rw [hdeeds]
      exact Or.inl ⟨signed, fun _ => honly.handedAll_mem_iff, hrun⟩

theorem keepsKey (x : Execution σ) (task : Task) (hoperator : x.client.operator = some operator) :
    x.KeepsKey task operator := by
  cases task with
  | freeze tx => exact keepsKey_of_idle rfl (fun _ => Task.noConfusion) fun _ => Task.noConfusion
  | chunk tx => exact keepsKey_of_idle rfl (fun _ => Task.noConfusion) fun _ => Task.noConfusion
  | execute tx => exact x.keepsKey_execute tx hoperator
  | executeAll b => exact x.keepsKey_executeAll b hoperator

end Execution

/-- In whatever calls a client makes, its operator is asked to sign only transactions that the
operator pays for, and nothing of a batch that is in part another's; all that the operator pays for
and that is executed alone carries the operator's key when it is handed to the engine.  Nothing else
is asked of the signer or done for a delivery than what the notes of the calls say. -/
theorem Client.operator_signs_own {c : Client} {calls : List (Execution σ × Task)}
    {operator : Operator} (h : c.Serves calls) (hoperator : c.operator = some operator) :
    forall x task, (x, task) ∈ calls -> x.KeepsKey task operator := by
  induction h with
  | done c =>
      intro x task hcall
      cases hcall
  | next first task _ ih =>
      intro x other hcall
      rcases List.mem_cons.mp hcall with hhead | hlater
      · cases hhead
        exact first.keepsKey task hoperator
      · exact ih hoperator x other hlater

/-- A transfer that the operator of `payingClient` does not pay for. -/
def foreignTransfer : Transaction :=
  let draft := Transaction.new (.transfer (some ⟨.fill 32 9⟩) 5)
  let named := draft.afterCall (draft.setId (.new ⟨.fill 32 8⟩ 1000))
  (named.freezeWith [⟨3⟩]).1

def firstPaying : Execution Bool :=
  ⟨payingClient, accepting, false⟩

def secondPaying : Execution Bool :=
  ⟨payingClient.withRegistry (firstPaying.serve (.execute draftTransfer)).registry, accepting,
    true⟩

/-- What the operator paid for, with what another pays for. -/
def mixedBatch : Batch :=
  ⟨[(firstPaying.run draftTransfer).transaction, foreignTransfer]⟩

/-- The operator signs a transfer that is sent, and nothing of the batch with one of another. -/
theorem payingClient_signs_own :
    exists operator,
      payingClient.Serves
        [(firstPaying, .execute draftTransfer), (secondPaying, .executeAll mixedBatch)] ∧
      payingClient.operator = some operator ∧
      operator.PaysFor (firstPaying.run draftTransfer).transaction ∧
      (firstPaying.serve (.execute draftTransfer)).deeds.length = 2 ∧
      firstPaying.KeepsKey (.execute draftTransfer) operator ∧
      forall body, Deed.asked body ∉ (secondPaying.serve (.executeAll mixedBatch)).deeds := by
  have hserves : payingClient.Serves
      [(firstPaying, .execute draftTransfer), (secondPaying, .executeAll mixedBatch)] :=
    .next firstPaying _ (.next secondPaying _ (.done _))
  have hkeeps := Client.operator_signs_own hserves rfl
  have hdeeds : (firstPaying.serve (.execute draftTransfer)).deeds.length = 2 := by
    decide +kernel
  have hpays : Client.pays ⟨⟨.fill 32 7⟩, ⟨.fill 32 1, fun _ => .fill 64 2⟩⟩
      (firstPaying.run draftTransfer).transaction = true := by
    decide +kernel
  have hother : Client.pays ⟨⟨.fill 32 7⟩, ⟨.fill 32 1, fun _ => .fill 64 2⟩⟩
      foreignTransfer = false := by
    decide +kernel
  have hmember : foreignTransfer ∈ mixedBatch.transactions := by
    simp [mixedBatch]
  refine ⟨_, hserves, rfl, Client.pays_iff.mp hpays, hdeeds, hkeeps firstPaying _ (by simp), ?_⟩
  apply ((hkeeps secondPaying _ (by simp)).mixed mixedBatch foreignTransfer rfl hmember ?_).left
  intro hforeign
  rw [Client.pays_iff.mpr hforeign] at hother
  cases hother

end LedgerClient
