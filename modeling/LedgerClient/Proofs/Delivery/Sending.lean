import LedgerClient.Proofs.Delivery.Recognition

/-!
# What is sent, and to whom

The octets for a node stand in the request by position, the hashes of a transaction by node,
the addresses in the registry, and the ranking changes the order.  This module shows that the
four agree: whatever is sent to a node is what the transaction has for it, at the address of
that node, and the hash that is reported is the hash of what was sent.
-/

namespace LedgerClient

/-- A call takes the method and the octets to a registered node, at its address. -/
structure Call.Brings (call : Call) (registry : Registry) (method : Method) (payload : Bytes) :
    Prop where
  node : exists n, registry.get? call.node = some n ∧ call.address = n.address
  method : call.method = method
  payload : call.payload = payload

/-- A receipt speaks of the last attempt, and its hash is that of the octets its node was sent
and of the transaction. -/
structure Receipt.Certifies (receipt : Receipt) (attempts : List Attempt) (tx : Transaction) :
    Prop where
  answered : exists a payload, attempts.getLast? = some a ∧ a.reply? = some ⟨.ok, payload⟩ ∧
    receipt.node = a.node
  sent : forall a, a ∈ attempts -> a.node = receipt.node ->
    receipt.hash = Blake3.hash a.call.payload
  hash : tx.hash receipt.node = .ok receipt.hash

/-!
## Requests
-/

namespace Request

theorem find?_zip_replicate {nodes : List NodeId} {node : NodeId} (hnode : node ∈ nodes)
    (payload : Bytes) :
    (nodes.zip (List.replicate nodes.length payload)).find? (fun entry => entry.1 == node) =
      some (node, payload) := by
  induction nodes with
  | nil => cases hnode
  | cons first rest ih =>
      rw [List.length_cons, List.replicate_succ, List.zip_cons_cons, List.find?_cons]
      by_cases hfirst : first = node
      · simp [hfirst]
      · have hrest : node ∈ rest := by
          rcases List.mem_cons.mp hnode with heq | hmem
          · exact (hfirst heq.symm).elim
          · exact hmem
        have hother : (first == node) = false := by simpa using hfirst
        rw [hother]
        exact ih hrest

theorem nodes_ofQuery {q : Query} {nodes : List NodeId} {request : Request}
    (h : ofQuery q nodes = .ok request) : request.nodes = nodes := by
  unfold ofQuery at h
  split at h
  · cases h
  · cases h
    rfl

/-- The request of a query has the same octets for every node that is asked. -/
theorem payloadFor?_ofQuery {q : Query} {nodes : List NodeId} {request : Request}
    (h : ofQuery q nodes = .ok request) :
    request.method = q.method ∧
      forall node, node ∈ request.nodes -> request.payloadFor? node = some q.payload := by
  unfold ofQuery at h
  cases hempty : nodes.isEmpty with
  | true =>
      rw [hempty] at h
      cases h
  | false =>
      rw [hempty] at h
      cases h
      refine ⟨rfl, ?_⟩
      intro node hnode
      simp only [payloadFor?]
      rw [find?_zip_replicate hnode]
      rfl

/-- Requests are built from transactions and from queries, and in no other way. -/
inductive Built (r : Request) : Prop where
  | transaction (tx : Transaction) : ofTransaction tx = .ok r -> Built r
  | query (q : Query) (nodes : List NodeId) : ofQuery q nodes = .ok r -> Built r

theorem Built.exists_payload {r : Request} (h : r.Built) {node : NodeId} (hnode : node ∈ r.nodes) :
    exists payload, r.payloadFor? node = some payload := by
  cases h with
  | transaction tx hbuilt =>
      rcases ofTransaction_eq_ok hbuilt with ⟨hready, id, _, hrequest⟩
      have htx : node ∈ tx.nodes := by
        rw [hrequest] at hnode
        exact hnode
      rcases Transaction.exists_payloadFor? hready htx with ⟨p, hp, _, _⟩
      refine ⟨p.wireBytes, ?_⟩
      rw [payloadFor?_ofTransaction hbuilt, hp]
      rfl
  | query q nodes hbuilt => exact ⟨q.payload, (payloadFor?_ofQuery hbuilt).right node hnode⟩

end Request

/-!
## Deliveries
-/

/-- A transaction that is ready keeps the hash of a node's payload when it is completed. -/
theorem Transaction.hash_complete {tx : Transaction} (hready : tx.IsReady) {node : NodeId}
    {p : Payload} (hp : tx.payloadFor? node = some p) : tx.complete.hash node = .ok p.hash := by
  have hsigned : tx.complete.requireSigned = .ok () := by
    have hbefore := (requireSigned_of_signed hready.state).mpr hready.signed
    simpa [requireSigned, complete, hready.state] using hbefore
  have hsame : tx.complete.payloadFor? node = some p := hp
  simp only [hash, hsigned, hsame]
  rfl

namespace Engine

variable {σ : Type}

/-- Every attempt of a delivery brings a node what the request has for it. -/
theorem deliver_brings (e : Engine) (w : Surroundings σ) (request : Request) (deadline : Instant)
    (world : σ) {a : Attempt} (ha : a ∈ (e.deliver w request deadline world).attempts) :
    exists payload, request.payloadFor? a.node = some payload ∧ a.node ∈ request.nodes ∧
      a.call.Brings e.registry request.method payload := by
  rcases e.deliver_attempts w request deadline world ha with
    ⟨candidates, node, hcandidates, hnode, hrequested, hcall⟩
  have hregistered := Registry.get?_of_mem_candidates hcandidates hnode
  rw [Attempt.node, hcall.node]
  refine ⟨a.call.payload, hcall.payload, hrequested, ⟨node, ?_, hcall.address⟩, hcall.method, rfl⟩
  rw [hcall.node]
  exact hregistered

/-- Every attempt of a submission brings a node the octets of the transaction's payload for it. -/
theorem submit_brings (e : Engine) (w : Surroundings σ) (tx : Transaction) (deadline : Instant)
    (world : σ) {a : Attempt} (ha : a ∈ (e.submit w tx deadline world).run.attempts) :
    exists p, tx.payloadFor? a.node = some p ∧
      a.call.Brings e.registry tx.operation.method p.wireBytes := by
  rcases e.submit_cases w tx deadline world with
    ⟨error, _, hrun⟩ | ⟨request, id, hashes, hadmits, hrun⟩
  · rw [hrun] at ha
    cases ha
  · rw [hrun] at ha
    rcases e.deliver_brings w request deadline world ha with
      ⟨payload, hpayload, hrequested, hbrings⟩
    rcases hadmits.payload hrequested with ⟨p, hp, hwire, _⟩
    rcases Request.ofTransaction_eq_ok hadmits.built with ⟨_, _, _, hrequest⟩
    have hmethod : request.method = tx.operation.method := by rw [hrequest]
    rw [hpayload] at hwire
    injection hwire with hsame
    rw [hmethod, hsame] at hbrings
    exact ⟨p, hp, hbrings⟩

theorem submit_certifies (e : Engine) (w : Surroundings σ) (tx : Transaction)
    (deadline : Instant) (world : σ) {receipt : Receipt}
    (hending : (e.submit w tx deadline world).run.ending = .answered receipt) :
    receipt.Certifies (e.submit w tx deadline world).run.attempts
      (e.submit w tx deadline world).transaction := by
  rcases e.submit_reports w tx deadline world with
    ⟨error, _, hrun⟩ | ⟨hready, state, hreports, hdone⟩
  · rw [hrun] at hending
    cases hending
  · rw [hending] at hreports
    cases hreports with
    | completed _ haccepted =>
        rcases haccepted.hashed with ⟨p, hp, hhash⟩
        refine ⟨haccepted.answered, ?_, ?_⟩
        · intro a ha hnode
          rcases e.submit_brings w tx deadline world ha with ⟨q, hq, hbrings⟩
          rw [hnode, hp] at hq
          injection hq with hsame
          rw [hhash, hbrings.payload, ← hsame]
          rfl
        · rw [hdone, hhash]
          exact Transaction.hash_complete hready hp

/-- A request has octets for all of its nodes, so none of them is found to be foreign. -/
theorem deliver_ne_foreign {e : Engine} {request : Request} (hbuilt : request.Built)
    (w : Surroundings σ) (deadline : Instant) (world : σ) (node : NodeId) :
    (e.deliver w request deadline world).ending ≠
      .failed (.transaction (.foreignNode node)) := by
  intro hending
  cases hcandidates : e.registry.candidates request.nodes with
  | error error =>
      rcases Registry.candidates_eq_error hcandidates with ⟨unknown, hunknown⟩
      rw [deliver_eq_refuse hcandidates, hunknown] at hending
      cases hending
  | ok candidates =>
      have hconcludes := deliver_concludes hcandidates w deadline world
      rw [hending] at hconcludes
      generalize (e.deliver w request deadline world).steps = course at hconcludes
      cases hconcludes with
      | foreign _ hrequested hnone =>
          rcases hbuilt.exists_payload hrequested with ⟨payload, hpayload⟩
          rw [hpayload] at hnone
          cases hnone

/-- The nodes that a query is meant for. -/
def askedNodes (e : Engine) (q : Query) : List NodeId :=
  if q.nodes.isEmpty then e.registry.ids else q.nodes

theorem askedNodes_ne_nil (e : Engine) (q : Query) : e.askedNodes q ≠ [] := by
  unfold askedNodes
  cases hnodes : q.nodes with
  | nil => simpa [Registry.ids] using e.registry.nodes_ne_nil
  | cons first rest => simp

/-- There is always somebody to ask, so every query is delivered. -/
theorem exists_query_eq (e : Engine) (w : Surroundings σ) (q : Query) (deadline : Instant)
    (world : σ) :
    exists request, Request.ofQuery q (e.askedNodes q) = .ok request ∧
      e.query w q deadline world = e.deliver w request deadline world := by
  have hsome : (e.askedNodes q).isEmpty = false := by simpa using e.askedNodes_ne_nil q
  have hrequest : exists request, Request.ofQuery q (e.askedNodes q) = .ok request := by
    rw [Request.ofQuery, hsome]
    exact ⟨_, rfl⟩
  rcases hrequest with ⟨request, hrequest⟩
  refine ⟨request, hrequest, ?_⟩
  unfold askedNodes at hrequest
  unfold query
  dsimp only
  rw [hrequest]

/-- Every attempt of a query brings a registered node the payload of the query, and none of its
nodes is found to be foreign. -/
theorem query_brings (e : Engine) (w : Surroundings σ) (q : Query) (deadline : Instant)
    (world : σ) :
    (forall a, a ∈ (e.query w q deadline world).attempts ->
        a.call.Brings e.registry q.method q.payload) ∧
      forall node, (e.query w q deadline world).ending ≠
        .failed (.transaction (.foreignNode node)) := by
  rcases e.exists_query_eq w q deadline world with ⟨request, hrequest, hrun⟩
  rcases Request.payloadFor?_ofQuery hrequest with ⟨hmethod, hpayload⟩
  rw [hrun]
  refine ⟨?_, ?_⟩
  · intro a ha
    rcases e.deliver_brings w request deadline world ha with
      ⟨payload, hfound, hrequested, hbrings⟩
    rw [hpayload _ hrequested] at hfound
    injection hfound with hsame
    rw [hmethod, ← hsame] at hbrings
    exact hbrings
  · exact deliver_ne_foreign (.query q _ hrequest) w deadline world

/-- Whatever is sent to a node is what the transaction or the query has for it, at the node's own
address.  The hash that a submission reports is that of the octets its node was sent. -/
theorem sends_and_hashes (e : Engine) (w : Surroundings σ) (deadline : Instant) (world : σ) :
    (forall tx : Transaction,
      (forall a, a ∈ (e.submit w tx deadline world).run.attempts ->
        exists p, tx.payloadFor? a.node = some p ∧
          a.call.Brings e.registry tx.operation.method p.wireBytes) ∧
      forall receipt, (e.submit w tx deadline world).run.ending = .answered receipt ->
        receipt.Certifies (e.submit w tx deadline world).run.attempts
          (e.submit w tx deadline world).transaction) ∧
    forall q : Query,
      (forall a, a ∈ (e.query w q deadline world).attempts ->
        a.call.Brings e.registry q.method q.payload) ∧
      forall node, (e.query w q deadline world).ending ≠
        .failed (.transaction (.foreignNode node)) := by
  constructor
  · intro tx
    constructor
    · intro a ha
      exact e.submit_brings w tx deadline world ha
    · intro receipt hending
      exact e.submit_certifies w tx deadline world hending
  · intro q
    exact e.query_brings w q deadline world

end Engine

/-!
## A transfer that is accepted
-/

/-- The node accepts what it is sent. -/
def accepting : Surroundings Bool :=
  answering (.received (NodeResponse.codec.encode ⟨.ok, []⟩)) true

def acceptedRun : TransactionRun Bool :=
  soleEngine.submit accepting soleTransfer (Instant.ofMillis 10000) false

theorem acceptedRun_state : acceptedRun.transaction.state = .completed := by
  decide +kernel

theorem acceptedRun_certified :
    exists receipt a, acceptedRun.run.ending = .answered receipt ∧
      acceptedRun.run.attempts.getLast? = some a ∧
      a.call.address = "10.0.0.3:50211" ∧
      receipt.hash = Blake3.hash a.call.payload ∧
      acceptedRun.transaction.hash receipt.node = .ok receipt.hash := by
  have hdecision := soleEngine.submit_decision accepting soleTransfer (Instant.ofMillis 10000) false
  rcases hdecision.right (by decide +kernel) acceptedRun_state with ⟨receipt, hending⟩
  have hboth := (soleEngine.sends_and_hashes accepting (Instant.ofMillis 10000) false).left
    soleTransfer
  have hcertifies := hboth.right receipt hending
  rcases hcertifies.answered with ⟨a, payload, hlast, _, hnode⟩
  have hmem : a ∈ acceptedRun.run.attempts := List.mem_of_getLast? hlast
  have haddress : acceptedRun.run.attempts.getLast?.map (fun b => b.call.address) =
      some "10.0.0.3:50211" := by
    decide +kernel
  refine ⟨receipt, a, hending, hlast, ?_, hcertifies.sent a hmem hnode.symm, hcertifies.hash⟩
  rw [show acceptedRun.run.attempts.getLast? = some a from hlast] at haddress
  injection haddress

end LedgerClient
