import LedgerClient.Proofs.Client.Calls
import LedgerClient.Proofs.Delivery.Sending
import LedgerClient.Proofs.Transaction.Reachable

/-!
# Executing once more what was left open

A transaction whose execution ended without an answer can be executed again, since nodes
recognise it by its id.  The first execution has frozen and signed it, so a later one has
nothing left to do but to send the same octets once more.
-/

namespace LedgerClient

variable {σ : Type}

/-- The account that pays and the key that signs for it. -/
def Client.payer? (c : Client) : Option (AccountId × PublicKey) :=
  c.operator.map fun operator => (operator.account, operator.signer.publicKey)

/-- A call of a client; clients with one operator may differ in all else, as in what they have
learned of nodes meanwhile. -/
structure Execution (σ : Type) where
  client : Client
  surroundings : Surroundings σ
  world : σ

def Execution.run (x : Execution σ) (tx : Transaction) : TransactionRun σ :=
  x.client.execute x.surroundings tx x.world

/-- A transaction is executed for one payer, and once more after each execution that left it
open. -/
inductive Resubmissions (payer : Option (AccountId × PublicKey)) :
    Transaction -> List (TransactionRun σ) -> Prop where
  | last (x : Execution σ) (tx : Transaction) : x.client.payer? = payer ->
      Resubmissions payer tx [x.run tx]
  | again (x : Execution σ) (tx : Transaction) {later : List (TransactionRun σ)} :
      x.client.payer? = payer -> (x.run tx).run.ending.IsOpen ->
      Resubmissions payer (x.run tx).transaction later ->
      Resubmissions payer tx (x.run tx :: later)

namespace Transaction

/-- If the payer pays for the transaction, its key has signed all payloads. -/
def IsCountersigned (tx : Transaction) (payer : Option (AccountId × PublicKey)) : Prop :=
  forall account key, payer = some (account, key) ->
    (exists id, tx.id = some id ∧ id.account = account) ->
    forall p, p ∈ tx.payloads -> p.signatures.contains key = true

/-- The body of each payload carries the id of the transaction and the node of the payload. -/
def IsNamed (tx : Transaction) : Prop :=
  forall p, p ∈ tx.payloads ->
    exists body, p.body = Body.codec.encode body ∧ tx.id = some body.transactionId ∧
      body.node = p.node

theorem IsSealed.isNamed {tx : Transaction} {id : TransactionId} {fee : Amount} {secs : UInt64}
    {signers : List PublicKey} (h : tx.IsSealed id fee secs signers) : tx.IsNamed :=
  fun p hp => ⟨_, h.bodies p hp, h.identified, rfl⟩

end Transaction

/-- A run that sends what a transaction has for its nodes and changes the state of it alone. -/
structure Repeats (tx : Transaction) (done : TransactionRun σ) : Prop where
  sends : Sends tx done.run.steps
  frame : done.transaction = { tx with state := done.transaction.state }
  identified : forall receipt, done.run.ending = .answered receipt ->
    tx.id = some receipt.transactionId
  open_signed : done.run.ending.IsOpen -> done.transaction.state = .signed

/-!
## One execution
-/

section

variable {c : Client} {w : Surroundings σ} {tx signed : Transaction} {world : σ}
  {done : TransactionRun σ}

theorem repeats_submit (e : Engine) (w : Surroundings σ) (tx : Transaction) (deadline : Instant)
    (world : σ) : Repeats tx (e.submit w tx deadline world) := by
  have hsettles := e.submit_settles w tx deadline world
  constructor
  case sends => exact e.submit_sends w tx deadline world
  case frame => exact hsettles.frame
  case identified =>
    intro receipt hending
    rcases e.submit_reports w tx deadline world with
      ⟨error, _, hrun⟩ | ⟨_, state, hreports, _⟩
    · rw [hrun] at hending
      cases hending
    · rw [hending] at hreports
      cases hreports with
      | completed _ haccepted => exact haccepted.identified
  case open_signed =>
    intro hopen
    rw [hsettles.signed_of_isOpen hopen]

theorem repeats_halt (c : Client) (halt : Halt) (tx : Transaction) (world : σ) :
    Repeats tx (c.haltTransaction halt tx world) where
  sends := sends_nil tx
  frame := rfl
  identified := by
    intro receipt hending
    cases hending
  open_signed := fun hopen => hopen.elim

theorem repeats_refuse (e : Engine) (error : TransactionError) (tx : Transaction) (world : σ) :
    Repeats tx (e.refuseTransaction (.transaction error) tx world) where
  sends := sends_nil tx
  frame := rfl
  identified := by
    intro receipt hending
    cases hending
  open_signed := fun hopen => hopen.elim

theorem Repeats.isNamed (h : Repeats signed done) (hnamed : signed.IsNamed) :
    done.transaction.IsNamed := by
  rw [h.frame]
  exact hnamed

theorem Repeats.isCountersigned (h : Repeats signed done)
    {payer : Option (AccountId × PublicKey)} (hsigned : signed.IsCountersigned payer) :
    done.transaction.IsCountersigned payer := by
  rw [h.frame]
  exact hsigned

/-- What is sent does not depend on the state, so what a run leaves is repeated as well. -/
theorem Repeats.ofState (h : Repeats signed done) : Repeats done.transaction done := by
  have hframe := h.frame
  generalize done.transaction.state = state at hframe
  constructor
  case sends =>
    rw [hframe]
    exact h.sends
  case frame => rfl
  case identified =>
    rw [hframe]
    exact h.identified
  case open_signed => exact h.open_signed

namespace Client

theorem id_of_signWithOperator (h : c.signWithOperator tx = .ok signed) : signed.id = tx.id := by
  rcases signWithOperator_eq_ok h with hsame | ⟨operator, _, _, hsign⟩
  · rw [hsame]
  · rcases Transaction.signWith_eq_ok (Transaction.signWith_of_sign hsign) with
      ⟨_, _, payloads, _, hsigned⟩
    rw [hsigned]

theorem isCountersigned_of_signWithOperator (h : c.signWithOperator tx = .ok signed) :
    signed.IsCountersigned c.payer? := by
  intro account key hpayer hpays p hp
  unfold payer? at hpayer
  cases hoperator : c.operator with
  | none =>
      rw [hoperator] at hpayer
      cases hpayer
  | some operator =>
      rw [hoperator] at hpayer
      cases hpayer
      rw [id_of_signWithOperator h] at hpays
      exact signWithOperator_contains h hoperator (pays_iff.mpr hpays) hp

theorem Prepares.isCountersigned (h : c.Prepares w tx world signed) :
    signed.IsCountersigned c.payer? := by
  cases h with
  | frozen _ _ hsign => exact isCountersigned_of_signWithOperator hsign
  | sealed _ hsign => exact isCountersigned_of_signWithOperator hsign

theorem signWithOperator_of_isCountersigned (hstate : tx.state = .signed)
    (h : tx.IsCountersigned c.payer?) : c.signWithOperator tx = .ok tx := by
  apply signWithOperator_eq_self hstate
  intro operator hoperator hpays
  refine h operator.account operator.signer.publicKey ?_ (pays_iff.mp hpays)
  rw [payer?, hoperator, Option.map_some]

/-- What was a draft or was made here is sealed when it is handed to the engine. -/
theorem Prepares.isNamed (h : c.Prepares w tx world signed)
    (hmade : tx.state = .draft ∨ Transaction.Reachable tx) : signed.IsNamed := by
  have hsign : forall before id fee secs signers, c.signWithOperator before = .ok signed ->
      before.IsSealed id fee secs signers -> signed.IsNamed := by
    intro before id fee secs signers hsign hsealed
    rcases signWithOperator_eq_ok hsign with hsame | ⟨operator, _, _, hsigned⟩
    · rw [hsame]
      exact hsealed.isNamed
    · rcases hsealed.of_signWith (Transaction.signWith_of_sign hsigned) with ⟨more, hmore⟩
      exact hmore.isNamed
  cases h with
  | frozen _ hfreeze hsigned =>
      rcases freezeWith_eq_ok hfreeze with ⟨identified, hidentified, _⟩
      rcases freezeIdentified_eq_ok hidentified with ⟨_, _, timed, _, _, _, hfrozen⟩
      rcases Transaction.isSealed_of_freeze hfrozen with ⟨id, _, hsealed⟩
      exact hsign _ _ _ _ _ hsigned hsealed
  | sealed hother hsigned =>
      rcases hmade with hdraft | hreachable
      · exact (hother hdraft).elim
      · rcases (Transaction.coherent_of_reachable hreachable).sealed hother with
          ⟨id, fee, secs, signers, hsealed⟩
        exact hsign _ _ _ _ _ hsigned hsealed

end Client

namespace Execution

/-- A transaction is refused at once, or what was made of it is sent. -/
theorem run_cases (x : Execution σ) (tx : Transaction) :
    (exists e left after,
        x.run tx = x.client.engine.refuseTransaction (.transaction e) left after) ∨
      exists signed, x.client.Prepares x.surroundings tx x.world signed ∧
        Repeats signed (x.run tx) := by
  unfold run
  rcases x.client.execute_cases x.surroundings tx x.world with
    ⟨e, left, after, hrun⟩ | ⟨signed, hprepares, ⟨after, hrun⟩ | ⟨deadline, after, hrun⟩⟩
  · exact Or.inl ⟨e, left, after, hrun⟩
  · refine Or.inr ⟨signed, hprepares, ?_⟩
    rw [hrun]
    exact repeats_halt x.client .outOfRange signed after
  · refine Or.inr ⟨signed, hprepares, ?_⟩
    rw [hrun]
    exact repeats_submit x.client.engine x.surroundings signed deadline after

/-- There is nothing to prepare in a transaction that is signed. -/
theorem run_repeats (x : Execution σ) (hstate : tx.state = .signed)
    (h : tx.IsCountersigned x.client.payer?) : Repeats tx (x.run tx) := by
  have hsealed : tx.state ≠ .draft := by
    rw [hstate]
    decide
  have hsign := Client.signWithOperator_of_isCountersigned hstate h
  unfold run
  rw [Client.execute_of_sealed hsealed]
  rcases x.client.submitFrozen_cases x.surroundings tx x.world with
    ⟨e, herror, _⟩ | ⟨signed, hsigned, ⟨_, hrun⟩ | ⟨deadline, _, hrun⟩⟩
  · rw [hsign] at herror
    cases herror
  · rw [hsign] at hsigned
    cases hsigned
    rw [hrun]
    exact repeats_halt x.client .outOfRange tx _
  · rw [hsign] at hsigned
    cases hsigned
    rw [hrun]
    exact repeats_submit x.client.engine x.surroundings tx deadline _

end Execution

end

/-!
## Any number of executions
-/

namespace Resubmissions

variable {payer : Option (AccountId × PublicKey)} {tx : Transaction}
  {runs : List (TransactionRun σ)}

/-- Every execution of a signed transaction repeats it. -/
theorem repeats (h : Resubmissions payer tx runs) (hstate : tx.state = .signed)
    (hsigned : tx.IsCountersigned payer) :
    forall done, done ∈ runs -> Repeats tx done := by
  induction h with
  | last x tx hpayer =>
      intro done hdone
      rw [List.mem_singleton.mp hdone]
      rw [← hpayer] at hsigned
      exact x.run_repeats hstate hsigned
  | again x tx hpayer hopen _ ih =>
      have hfirst : Repeats tx (x.run tx) := by
        rw [← hpayer] at hsigned
        exact x.run_repeats hstate hsigned
      have hsame : (x.run tx).transaction = tx := by
        rw [hfirst.frame, hfirst.open_signed hopen, ← hstate]
      rw [hsame] at ih
      intro done hdone
      rcases List.mem_cons.mp hdone with hhead | hlater
      · rw [hhead]
        exact hfirst
      · exact ih hstate hsigned done hlater

/-- After the first execution nothing is added any more: all of them repeat what it left.  Unless it
was refused at once and nothing was sent at all, that was sealed. -/
theorem repeats_first (h : Resubmissions payer tx runs) :
    exists first later, runs = first :: later ∧
      (forall done, done ∈ runs -> Repeats first.transaction done) ∧
      (tx.state = .draft ∨ Transaction.Reachable tx ->
        (forall done, done ∈ runs -> done.run.attempts = []) ∨ first.transaction.IsNamed) := by
  cases h with
  | last x _ _ =>
      refine ⟨x.run tx, [], rfl, ?_, ?_⟩
      · intro done hdone
        rw [List.mem_singleton.mp hdone]
        rcases x.run_cases tx with ⟨e, left, after, hrun⟩ | ⟨signed, _, hrepeats⟩
        · rw [hrun]
          exact repeats_refuse x.client.engine e left after
        · exact hrepeats.ofState
      · intro hmade
        rcases x.run_cases tx with ⟨e, left, after, hrun⟩ | ⟨signed, hprepares, hrepeats⟩
        · left
          intro done hdone
          rw [List.mem_singleton.mp hdone, hrun]
          rfl
        · exact Or.inr (hrepeats.isNamed (hprepares.isNamed hmade))
  | @again x _ later hpayer hopen hlater =>
      rcases x.run_cases tx with ⟨e, left, after, hrun⟩ | ⟨signed, hprepares, hrepeats⟩
      · rw [hrun] at hopen
        exact hopen.elim
      · have hstate := hrepeats.open_signed hopen
        have hsigned : (x.run tx).transaction.IsCountersigned payer := by
          rw [← hpayer]
          exact hrepeats.isCountersigned hprepares.isCountersigned
        refine ⟨x.run tx, later, rfl, ?_, ?_⟩
        · intro done hdone
          rcases List.mem_cons.mp hdone with hhead | hnext
          · rw [hhead]
            exact hrepeats.ofState
          · exact hlater.repeats hstate hsigned done hnext
        · intro hmade
          exact Or.inr (hrepeats.isNamed (hprepares.isNamed hmade))

/-- However often a transaction is executed because the execution before was left open, the first
execution alone freezes and signs it.  All octets that are sent to one node are the same, and they
are those of a body with the id of the transaction. -/
theorem send_alike (h : Resubmissions payer tx runs) :
    exists first later, runs = first :: later ∧
      (forall done, done ∈ later ->
        done.transaction = { first.transaction with state := done.transaction.state }) ∧
      (forall one other a b, one ∈ runs -> other ∈ runs -> a ∈ one.run.attempts ->
        b ∈ other.run.attempts -> a.node = b.node -> a.call.payload = b.call.payload) ∧
      (forall done, done ∈ runs -> Sends first.transaction done.run.steps ∧
        forall receipt, done.run.ending = .answered receipt ->
          first.transaction.id = some receipt.transactionId) ∧
      (tx.state = .draft ∨ Transaction.Reachable tx ->
        forall done a, done ∈ runs -> a ∈ done.run.attempts ->
          exists body signatures,
            a.call.payload = Envelope.codec.encode ⟨Body.codec.encode body, signatures⟩ ∧
              first.transaction.id = some body.transactionId ∧ body.node = a.node) := by
  rcases h.repeats_first with ⟨first, later, hruns, hrepeats, hnamed⟩
  refine ⟨first, later, hruns, ?_, ?_, ?_, ?_⟩
  · intro done hdone
    apply (hrepeats done _).frame
    rw [hruns]
    exact List.mem_cons_of_mem first hdone
  · intro one other a b hone hother ha hb hnode
    rcases (hrepeats one hone).sends a ha with ⟨p, hp, hfirst, _⟩
    rcases (hrepeats other hother).sends b hb with ⟨q, hq, hsecond, _⟩
    rw [hnode, hq] at hp
    cases hp
    rw [hfirst, hsecond]
  · intro done hdone
    exact ⟨(hrepeats done hdone).sends, (hrepeats done hdone).identified⟩
  · intro hmade done a hdone ha
    rcases hnamed hmade with hnothing | hall
    · rw [hnothing done hdone] at ha
      cases ha
    · rcases (hrepeats done hdone).sends a ha with ⟨p, hp, hsent, _⟩
      rcases hall p (List.mem_of_find?_eq_some hp) with ⟨body, hbody, hid, hnode⟩
      have hfound := List.find?_some hp
      refine ⟨body, p.signatures, ?_, hid, ?_⟩
      · rw [hsent, ← hbody]
        rfl
      · rw [hnode]
        exact beq_iff_eq.mp hfound

end Resubmissions

/-!
## A transfer whose first answer is lost
-/

/-- A client whose operator pays for the transfer. -/
def payingClient : Client :=
  { config := .localNetwork
    engine := soleEngine
    operator := some ⟨⟨.fill 32 7⟩, ⟨.fill 32 1, fun _ => .fill 64 2⟩⟩ }

def draftTransfer : Transaction :=
  .new (.transfer (some ⟨.fill 32 9⟩) 5)

/-- The transfer is accepted, but the answer is lost. -/
def lostTransfer : TransactionRun Bool :=
  Execution.run ⟨payingClient, lossy, false⟩ draftTransfer

def repeatedTransfer : TransactionRun Bool :=
  Execution.run ⟨payingClient, accepting, false⟩ lostTransfer.transaction

theorem lostTransfer_ending :
    lostTransfer.run.ending =
      .failed (.deadlineExceeded 1 [⟨3⟩] (some (.failed (.transport .timeout)))) := by
  decide +kernel

theorem repeatedTransfer_alike :
    exists a b, Resubmissions payingClient.payer? draftTransfer [lostTransfer, repeatedTransfer] ∧
      draftTransfer.state = .draft ∧ a ∈ lostTransfer.run.attempts ∧
      b ∈ repeatedTransfer.run.attempts ∧ a.call.payload = b.call.payload := by
  have hopen : lostTransfer.run.ending.IsOpen := by
    rw [lostTransfer_ending]
    trivial
  have hruns : Resubmissions payingClient.payer? draftTransfer [lostTransfer, repeatedTransfer] :=
    .again ⟨payingClient, lossy, false⟩ draftTransfer rfl hopen
      (.last ⟨payingClient, accepting, false⟩ lostTransfer.transaction rfl)
  have hlost : lostTransfer.run.attempts.map Attempt.node = [⟨3⟩] := by
    decide +kernel
  have hrepeated : repeatedTransfer.run.attempts.map Attempt.node = [⟨3⟩] := by
    decide +kernel
  rcases List.map_eq_singleton_iff.mp hlost with ⟨a, ha, hanode⟩
  rcases List.map_eq_singleton_iff.mp hrepeated with ⟨b, hb, hbnode⟩
  have hmema : a ∈ lostTransfer.run.attempts := by
    rw [ha]
    exact List.mem_singleton_self a
  have hmemb : b ∈ repeatedTransfer.run.attempts := by
    rw [hb]
    exact List.mem_singleton_self b
  rcases hruns.send_alike with ⟨_, _, _, _, hsame, _, _⟩
  refine ⟨a, b, hruns, rfl, hmema, hmemb, ?_⟩
  exact hsame lostTransfer repeatedTransfer a b (by simp) (by simp) hmema hmemb
    (hanode.trans hbnode.symm)

end LedgerClient
