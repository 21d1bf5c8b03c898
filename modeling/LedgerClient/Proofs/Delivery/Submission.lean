import LedgerClient.Delivery.Submission
import LedgerClient.Proofs.Delivery.Result
import LedgerClient.Proofs.Transaction.Readiness

/-!
# Submission of one transaction

A submission is either refused before anything is done, or it delivers the request of a
transaction that is ready.  In the second case the candidates, the ranking, the request and
the payloads all speak of the same nodes, so a delivery never finds a foreign node and an
answer always comes with a hash.  The state of the transaction follows from the result.
-/

namespace LedgerClient

/-- The attempts of a course send nodes the octets that a transaction has for them. -/
def Sends (tx : Transaction) (course : List Step) : Prop :=
  forall a, a ∈ attemptsIn course ->
    exists p, tx.payloadFor? a.node = some p ∧ a.call.payload = p.wireBytes ∧
      a.call.method = tx.operation.method

theorem sends_nil (tx : Transaction) : Sends tx [] := by
  intro a ha
  cases ha

/-- The last attempt of a course was answered with success, and the receipt says so. -/
structure IsAccepted (tx : Transaction) (course : List Step) (receipt : Receipt) : Prop where
  answered : exists a payload, (attemptsIn course).getLast? = some a ∧
    a.reply? = some ⟨.ok, payload⟩ ∧ receipt.node = a.node
  attempts : receipt.attempts = (attemptsIn course).length
  identified : tx.id = some receipt.transactionId
  hashed : exists p, tx.payloadFor? receipt.node = some p ∧ receipt.hash = p.hash

namespace Engine

variable {σ : Type}

/-- What a delivery of a transaction needs. -/
structure Admits (e : Engine) (tx : Transaction) (request : Request) (id : TransactionId)
    (hashes : List (NodeId × Hash)) : Prop where
  built : Request.ofTransaction tx = .ok request
  identified : tx.id = some id
  hashed : tx.hashes = .ok hashes
  known : exists candidates, e.registry.candidates request.nodes = .ok candidates

theorem carryOut_ending (e : Engine) (w : Surroundings σ) (tx : Transaction) (request : Request)
    (id : TransactionId) (hashes : List (NodeId × Hash)) (deadline : Instant) (world : σ) :
    (e.carryOut w tx request id hashes deadline world).run.ending =
      (settle id hashes tx.beginExecution (e.deliver w request deadline world).ending).1 :=
  rfl

theorem carryOut_transaction (e : Engine) (w : Surroundings σ) (tx : Transaction)
    (request : Request) (id : TransactionId) (hashes : List (NodeId × Hash)) (deadline : Instant)
    (world : σ) :
    (e.carryOut w tx request id hashes deadline world).transaction =
      (settle id hashes tx.beginExecution (e.deliver w request deadline world).ending).2 :=
  rfl

theorem carryOut_steps (e : Engine) (w : Surroundings σ) (tx : Transaction) (request : Request)
    (id : TransactionId) (hashes : List (NodeId × Hash)) (deadline : Instant) (world : σ) :
    (e.carryOut w tx request id hashes deadline world).run.steps =
      (e.deliver w request deadline world).steps :=
  rfl

/-- Whether a transaction is delivered depends on the transaction and the registry alone. -/
theorem submit_verdict (e : Engine) (tx : Transaction) :
    (exists error : ClientError, error.isLocal = true ∧
        forall (w : Surroundings σ) (deadline : Instant) (world : σ),
          e.submit w tx deadline world = e.refuseTransaction error tx world) ∨
      exists request id hashes, e.Admits tx request id hashes ∧
        forall (w : Surroundings σ) (deadline : Instant) (world : σ),
          e.submit w tx deadline world = e.carryOut w tx request id hashes deadline world := by
  unfold submit
  cases hrequest : Request.ofTransaction tx with
  | error error => exact Or.inl ⟨_, rfl, fun _ _ _ => rfl⟩
  | ok request =>
      cases hhashes : tx.hashes with
      | error error => exact Or.inl ⟨_, rfl, fun _ _ _ => rfl⟩
      | ok hashes =>
          cases hid : tx.id with
          | none => exact Or.inl ⟨_, rfl, fun _ _ _ => rfl⟩
          | some id =>
              cases hcandidates : e.registry.candidates request.nodes with
              | error error =>
                  rcases Registry.candidates_eq_error hcandidates with ⟨node, hnode⟩
                  refine Or.inl ⟨error, ?_, fun _ _ _ => ?_⟩
                  · rw [hnode]
                    rfl
                  · simp only [hcandidates]
              | ok candidates =>
                  refine Or.inr ⟨request, id, hashes, ?_, fun _ _ _ => ?_⟩
                  · exact ⟨hrequest, hid, hhashes, candidates, hcandidates⟩
                  · simp only [hcandidates]

theorem submit_cases (e : Engine) (w : Surroundings σ) (tx : Transaction) (deadline : Instant)
    (world : σ) :
    (exists error : ClientError, error.isLocal = true ∧
        e.submit w tx deadline world = e.refuseTransaction error tx world) ∨
      exists request id hashes, e.Admits tx request id hashes ∧
        e.submit w tx deadline world = e.carryOut w tx request id hashes deadline world := by
  rcases e.submit_verdict tx with ⟨error, hlocal, hrun⟩ | ⟨request, id, hashes, hadmits, hrun⟩
  · exact Or.inl ⟨error, hlocal, hrun w deadline world⟩
  · exact Or.inr ⟨request, id, hashes, hadmits, hrun w deadline world⟩

section

variable {e : Engine} {tx : Transaction} {request : Request} {id : TransactionId}
  {hashes : List (NodeId × Hash)}

theorem Admits.submit_eq (h : e.Admits tx request id hashes) (w : Surroundings σ)
    (deadline : Instant) (world : σ) :
    e.submit w tx deadline world = e.carryOut w tx request id hashes deadline world := by
  rcases h.known with ⟨candidates, hcandidates⟩
  simp only [submit, h.built, h.hashed, h.identified, hcandidates]

theorem Admits.isReady (h : e.Admits tx request id hashes) : tx.IsReady :=
  (Request.ofTransaction_eq_ok h.built).left

theorem Admits.nodes (h : e.Admits tx request id hashes) : request.nodes = tx.nodes := by
  rcases Request.ofTransaction_eq_ok h.built with ⟨_, _, _, hrequest⟩
  rw [hrequest]

/-- Every node of an admitted request has octets and a hash. -/
theorem Admits.payload (h : e.Admits tx request id hashes) {node : NodeId}
    (hnode : node ∈ request.nodes) :
    exists p, tx.payloadFor? node = some p ∧ request.payloadFor? node = some p.wireBytes ∧
      hashes.find? (fun entry => entry.1 == node) = some (node, p.hash) := by
  rw [h.nodes] at hnode
  rcases Transaction.exists_payloadFor? h.isReady hnode with ⟨p, hp, _, hpnode⟩
  refine ⟨p, hp, ?_, ?_⟩
  · rw [Request.payloadFor?_ofTransaction h.built, hp]
    rfl
  · have hhashes := h.hashed
    rw [Transaction.hashes_of_isReady h.isReady] at hhashes
    cases hhashes
    rw [Transaction.find?_hashes]
    have hfind : tx.payloads.find? (fun q => q.node == node) = some p := hp
    rw [hfind, ← hpnode]
    rfl

/-- The endings of an admitted delivery and the states they lead to. -/
inductive Leaves : Ending Response -> TransactionState -> Prop where
  | completed (r : Response) : Leaves (.answered r) .completed
  | failed (node : NodeId) (code : PrecheckCode) :
      Leaves (.failed (.precheck node code)) .failed
  | exhausted (attempts : Nat) (nodes : List NodeId) (setback : Option Setback) :
      Leaves (.failed (.deadlineExceeded attempts nodes setback)) .signed
  | cancelled : Leaves (.failed .cancelled) .signed
  | halted (halt : Halt) : Leaves (.halted halt) .executing

theorem Admits.deliver_leaves (h : e.Admits tx request id hashes) (w : Surroundings σ)
    (deadline : Instant) (world : σ) :
    exists state, Leaves (e.deliver w request deadline world).ending state := by
  rcases h.known with ⟨candidates, hcandidates⟩
  have hconcludes := deliver_concludes hcandidates w deadline world
  generalize (e.deliver w request deadline world).steps = course at hconcludes
  generalize (e.deliver w request deadline world).ending = ending at hconcludes
  cases hconcludes with
  | answered _ _ _ => exact ⟨_, .completed _⟩
  | rejected _ _ => exact ⟨_, .failed _ _⟩
  | discarded _ => exact ⟨_, .cancelled⟩
  | withdrawn _ => exact ⟨_, .cancelled⟩
  | interrupted _ => exact ⟨_, .cancelled⟩
  | exhausted _ => exact ⟨_, .exhausted _ _ _⟩
  | halted halt _ => exact ⟨_, .halted halt⟩
  | foreign _ hnode hnone =>
      rcases h.payload hnode with ⟨p, _, hsome, _⟩
      rw [hsome] at hnone
      cases hnone

/-- An answer is the reply to the last attempt, from a node that the transaction has a hash for. -/
theorem Admits.exists_accepted (h : e.Admits tx request id hashes) {w : Surroundings σ}
    {deadline : Instant} {world : σ} {r : Response}
    (hending : (e.deliver w request deadline world).ending = .answered r) :
    exists a p, (e.deliver w request deadline world).attempts.getLast? = some a ∧
      a.reply? = some ⟨.ok, r.payload⟩ ∧ r.node = a.node ∧
      r.attempts = (e.deliver w request deadline world).attempts.length ∧
      tx.payloadFor? r.node = some p ∧
      hashes.find? (fun entry => entry.1 == r.node) = some (r.node, p.hash) := by
  rcases h.known with ⟨candidates, hcandidates⟩
  have hconcludes := deliver_concludes hcandidates w deadline world
  rcases (answered_iff hconcludes).mp hending with ⟨a, hlast, haccepted, _, hnode, hattempts⟩
  have hrequested := node_mem_of_answered hconcludes hending
  rcases h.payload hrequested with ⟨p, hp, _, hhash⟩
  exact ⟨a, p, hlast, Attempt.outcome_eq_accepted_iff.mp haccepted, hnode, hattempts, hp, hhash⟩

/-- What the caller is told of a delivery that left a transaction in a state. -/
inductive Reports (tx : Transaction) (course : List Step) :
    Ending Receipt -> TransactionState -> Prop where
  | completed (receipt : Receipt) :
      IsAccepted tx course receipt -> Reports tx course (.answered receipt) .completed
  | failed (node : NodeId) (code : PrecheckCode) :
      Reports tx course (.failed (.precheck node code)) .failed
  | exhausted (attempts : Nat) (nodes : List NodeId) (setback : Option Setback) :
      Reports tx course (.failed (.deadlineExceeded attempts nodes setback)) .signed
  | cancelled : Reports tx course (.failed .cancelled) .signed
  | halted (halt : Halt) : Reports tx course (.halted halt) .executing

theorem Reports.sealed {course : List Step} {ending : Ending Receipt} {state : TransactionState}
    (h : Reports tx course ending state) : state ≠ .draft ∧ state ≠ .frozen := by
  cases h with
  | completed _ _ => exact ⟨by decide, by decide⟩
  | failed _ _ => exact ⟨by decide, by decide⟩
  | exhausted _ _ _ => exact ⟨by decide, by decide⟩
  | cancelled => exact ⟨by decide, by decide⟩
  | halted _ => exact ⟨by decide, by decide⟩

/-- A delivery changes the state alone, and as its ending says. -/
theorem Admits.carryOut_reports (h : e.Admits tx request id hashes) (w : Surroundings σ)
    (deadline : Instant) (world : σ) :
    exists state,
      Reports tx (e.carryOut w tx request id hashes deadline world).run.steps
          (e.carryOut w tx request id hashes deadline world).run.ending state ∧
        (e.carryOut w tx request id hashes deadline world).transaction =
          { tx with state := state } := by
  have haccepted : forall r, (e.deliver w request deadline world).ending = .answered r ->
      exists a p, (e.deliver w request deadline world).attempts.getLast? = some a ∧
        a.reply? = some ⟨.ok, r.payload⟩ ∧ r.node = a.node ∧
        r.attempts = (e.deliver w request deadline world).attempts.length ∧
        tx.payloadFor? r.node = some p ∧
        hashes.find? (fun entry => entry.1 == r.node) = some (r.node, p.hash) :=
    fun r hr => h.exists_accepted hr
  rcases h.deliver_leaves w deadline world with ⟨state, hleaves⟩
  rw [carryOut_ending, carryOut_transaction, carryOut_steps]
  generalize (e.deliver w request deadline world).ending = ending at hleaves haccepted
  cases hleaves with
  | completed r =>
      rcases haccepted r rfl with ⟨a, p, hlast, hreply, hnode, hattempts, hp, hfind⟩
      refine ⟨.completed, ?_, ?_⟩
      · simp only [settle, hfind]
        exact .completed _
          { answered := ⟨a, r.payload, hlast, hreply, hnode⟩
            attempts := hattempts
            identified := h.identified
            hashed := ⟨p, hp, rfl⟩ }
      · simp only [settle, hfind]
        rfl
  | failed node code => exact ⟨.failed, .failed node code, rfl⟩
  | exhausted attempts nodes setback =>
      exact ⟨.signed, .exhausted attempts nodes setback, rfl⟩
  | cancelled => exact ⟨.signed, .cancelled, rfl⟩
  | halted halt => exact ⟨.executing, .halted halt, rfl⟩

/-- The attempts of a delivery send the octets of the transaction's own payloads. -/
theorem Admits.deliver_sends (h : e.Admits tx request id hashes) (w : Surroundings σ)
    (deadline : Instant) (world : σ) : Sends tx (e.deliver w request deadline world).steps := by
  intro a ha
  rcases e.deliver_calls w request deadline world ha with ⟨hpayload, hmethod⟩
  rcases Request.ofTransaction_eq_ok h.built with ⟨_, _, _, hrequest⟩
  rw [Request.payloadFor?_ofTransaction h.built] at hpayload
  cases hp : tx.payloadFor? a.node with
  | none =>
      rw [hp] at hpayload
      cases hpayload
  | some p =>
      rw [hp] at hpayload
      injection hpayload with hwire
      refine ⟨p, rfl, hwire.symm, ?_⟩
      rw [hmethod, hrequest]

end

/-!
## The state after a submission
-/

/-- What a submission does to a transaction: it sets the state, as its result says. -/
structure Settles (tx : Transaction) (done : TransactionRun σ) : Prop where
  frame : done.transaction = { tx with state := done.transaction.state }
  answered : forall receipt, done.run.ending = .answered receipt ->
    done.transaction.state = .completed
  rejected : forall node code, done.run.ending = .failed (.precheck node code) ->
    done.transaction.state = .failed
  exhausted : forall attempts nodes setback,
    done.run.ending = .failed (.deadlineExceeded attempts nodes setback) ->
      done.transaction.state = .signed
  cancelled : done.run.ending = .failed .cancelled -> done.transaction.state = .signed
  refused : forall error, error.isLocal = true -> done.run.ending = .failed error ->
    done.transaction.state = tx.state ∧ done.run.steps = []
  noOther : forall error, done.run.ending = .failed error ->
    error.isLocal = true ∨ error = .cancelled ∨ (exists node code, error = .precheck node code) ∨
      exists attempts nodes setback, error = .deadlineExceeded attempts nodes setback
  /-- Only a delivery that does not come back leaves a transaction executing. -/
  notExecuting : tx.state ≠ .executing -> (forall halt, done.run.ending ≠ .halted halt) ->
    done.transaction.state ≠ .executing

theorem settles_refuse {e : Engine} {error : ClientError} (hlocal : error.isLocal = true)
    (tx : Transaction) (world : σ) : Settles tx (e.refuseTransaction error tx world) where
  frame := rfl
  answered := by
    intro receipt hending
    cases hending
  rejected := by
    intro node code hending
    cases hending
    cases hlocal
  exhausted := by
    intro attempts nodes setback hending
    cases hending
    cases hlocal
  cancelled := by
    intro hending
    cases hending
    cases hlocal
  refused := fun _ _ _ => ⟨rfl, rfl⟩
  noOther := by
    intro other hending
    cases hending
    exact Or.inl hlocal
  notExecuting := fun hstate _ => hstate

theorem settles_of_reports {tx : Transaction} {done : TransactionRun σ} {state : TransactionState}
    (hreports : Reports tx done.run.steps done.run.ending state)
    (hdone : done.transaction = { tx with state := state }) : Settles tx done := by
  have hstate : done.transaction.state = state := by rw [hdone]
  have hframe : done.transaction = { tx with state := done.transaction.state } := by
    rw [hstate]
    exact hdone
  generalize hending : done.run.ending = ending at hreports
  constructor
  case frame => exact hframe
  all_goals
    rw [hending]
    try rw [hstate]
  case answered =>
    intro receipt heq
    rw [heq] at hreports
    cases hreports
    rfl
  case rejected =>
    intro node code heq
    rw [heq] at hreports
    cases hreports
    rfl
  case exhausted =>
    intro attempts nodes setback heq
    rw [heq] at hreports
    cases hreports
    rfl
  case cancelled =>
    intro heq
    rw [heq] at hreports
    cases hreports
    rfl
  case refused =>
    intro error hlocal heq
    rw [heq] at hreports
    cases hreports <;> cases hlocal
  case noOther =>
    intro error heq
    rw [heq] at hreports
    cases hreports with
    | failed node code => exact Or.inr (Or.inr (Or.inl ⟨node, code, rfl⟩))
    | exhausted attempts nodes setback =>
        exact Or.inr (Or.inr (Or.inr ⟨attempts, nodes, setback, rfl⟩))
    | cancelled => exact Or.inr (Or.inl rfl)
  case notExecuting =>
    intro _ hreturned hexecuting
    rw [hexecuting] at hreports
    cases hreports with
    | halted halt => exact hreturned halt rfl

theorem submit_reports (e : Engine) (w : Surroundings σ) (tx : Transaction) (deadline : Instant)
    (world : σ) :
    (exists error : ClientError, error.isLocal = true ∧
        e.submit w tx deadline world = e.refuseTransaction error tx world) ∨
      tx.IsReady ∧
        exists state, Reports tx (e.submit w tx deadline world).run.steps
            (e.submit w tx deadline world).run.ending state ∧
          (e.submit w tx deadline world).transaction = { tx with state := state } := by
  rcases e.submit_cases w tx deadline world with
    hrefused | ⟨request, id, hashes, hadmits, hrun⟩
  · exact Or.inl hrefused
  · right
    rw [hrun]
    exact ⟨hadmits.isReady, hadmits.carryOut_reports w deadline world⟩

theorem submit_sends (e : Engine) (w : Surroundings σ) (tx : Transaction) (deadline : Instant)
    (world : σ) : Sends tx (e.submit w tx deadline world).run.steps := by
  rcases e.submit_cases w tx deadline world with
    ⟨error, _, hrun⟩ | ⟨request, id, hashes, hadmits, hrun⟩
  · rw [hrun]
    exact sends_nil tx
  · rw [hrun]
    exact hadmits.deliver_sends w deadline world

theorem submit_settles (e : Engine) (w : Surroundings σ) (tx : Transaction) (deadline : Instant)
    (world : σ) : Settles tx (e.submit w tx deadline world) := by
  rcases e.submit_reports w tx deadline world with
    ⟨error, hlocal, hrun⟩ | ⟨_, state, hreports, hdone⟩
  · rw [hrun]
    exact settles_refuse hlocal tx world
  · exact settles_of_reports hreports hdone

/-- The result of a submission determines the state of the transaction and nothing else changes.  A
transaction that is admitted is delivered; its delivery never comes to a foreign node, and an answer
always comes with a hash. -/
theorem submit_settles_and_delivers (e : Engine) (w : Surroundings σ) (tx : Transaction)
    (deadline : Instant) (world : σ) :
    Settles tx (e.submit w tx deadline world) ∧
      forall request id hashes, e.Admits tx request id hashes ->
        e.submit w tx deadline world = e.carryOut w tx request id hashes deadline world ∧
        (forall error, error.isLocal = true ->
          (e.deliver w request deadline world).ending ≠ .failed error) ∧
        forall r, (e.deliver w request deadline world).ending = .answered r ->
          exists p, tx.payloadFor? r.node = some p ∧
            hashes.find? (fun entry => entry.1 == r.node) = some (r.node, p.hash) := by
  constructor
  · exact e.submit_settles w tx deadline world
  · intro request id hashes hadmits
    refine ⟨hadmits.submit_eq w deadline world, ?_, ?_⟩
    · intro error hlocal hending
      rcases hadmits.deliver_leaves w deadline world with ⟨state, hleaves⟩
      rw [hending] at hleaves
      cases hleaves <;> cases hlocal
    · intro r hending
      rcases hadmits.exists_accepted hending with ⟨_, p, _, _, _, _, hp, hhash⟩
      exact ⟨p, hp, hhash⟩

end Engine

end LedgerClient
