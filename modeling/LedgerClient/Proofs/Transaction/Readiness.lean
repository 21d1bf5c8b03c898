import LedgerClient.Delivery.Request

/-!
# Transactions that are ready for submission

A transaction is ready if it is signed and has, for each of its nodes in order, a payload
with signatures that can be told apart.  Its request then has octets for every node.
-/

namespace LedgerClient

namespace Transaction

theorem checkPairs_eq_ok_iff {payloads : List Payload} {nodes : List NodeId}
    (hlength : payloads.length = nodes.length) :
    checkPairs payloads nodes = .ok () <->
      payloads.map Payload.node = nodes ∧
        forall p, p ∈ payloads -> p.signatures.validate = .ok () := by
  induction payloads generalizing nodes with
  | nil =>
      cases nodes with
      | nil => simp [checkPairs]
      | cons node rest => cases hlength
  | cons p payloads ih =>
      cases nodes with
      | nil => cases hlength
      | cons node nodes =>
          have hrest := ih (Nat.succ.inj hlength)
          unfold checkPairs
          by_cases hnode : p.node = node
          · rw [if_pos hnode]
            cases hvalid : p.signatures.validate with
            | error e => simp [hvalid]
            | ok valid =>
                cases valid
                simp [hrest, hnode, hvalid]
          · rw [if_neg hnode]
            simp [hnode]

theorem checkPayloads_eq_ok_iff {tx : Transaction} :
    tx.checkPayloads = .ok () <->
      tx.payloads.map Payload.node = tx.nodes ∧
        forall p, p ∈ tx.payloads -> p.signatures.validate = .ok () := by
  unfold checkPayloads
  by_cases hlength : tx.payloads.length = tx.nodes.length
  · rw [if_pos hlength]
    exact checkPairs_eq_ok_iff hlength
  · rw [if_neg hlength]
    constructor
    · intro h
      cases h
    · intro h
      have hsame : tx.payloads.length = tx.nodes.length := by
        rw [← h.left, List.length_map]
      exact (hlength hsame).elim

/-- Signed, with one payload per node in order, each of them signed so that the signers can be
told apart. -/
structure IsReady (tx : Transaction) : Prop where
  state : tx.state = .signed
  nodes : tx.payloads.map Payload.node = tx.nodes
  valid : forall p, p ∈ tx.payloads -> p.signatures.validate = .ok ()
  signed : forall p, p ∈ tx.payloads -> p.signatures.isEmpty = false

theorem requireSigned_of_signed {tx : Transaction} (hstate : tx.state = .signed) :
    tx.requireSigned = .ok () <->
      forall p, p ∈ tx.payloads -> p.signatures.isEmpty = false := by
  unfold requireSigned
  simp [hstate]

theorem validateForExecution_eq_ok_iff {tx : Transaction} :
    tx.validateForExecution = .ok () <-> tx.IsReady := by
  constructor
  · intro h
    unfold validateForExecution at h
    cases hstate : tx.state with
    | signed =>
        simp only [hstate] at h
        cases hpayloads : tx.checkPayloads with
        | error e =>
            rw [hpayloads] at h
            cases h
        | ok checked =>
            rw [hpayloads] at h
            rcases checkPayloads_eq_ok_iff.mp hpayloads with ⟨hnodes, hvalid⟩
            exact ⟨hstate, hnodes, hvalid, (requireSigned_of_signed hstate).mp h⟩
    | draft => simp [hstate] at h
    | frozen => simp [hstate] at h
    | executing => simp [hstate] at h
    | completed => simp [hstate] at h
    | failed => simp [hstate] at h
  · intro h
    have hpayloads := checkPayloads_eq_ok_iff.mpr ⟨h.nodes, h.valid⟩
    have hsigned := (requireSigned_of_signed h.state).mpr h.signed
    simp only [validateForExecution, h.state, hpayloads]
    exact hsigned

theorem hashes_of_isReady {tx : Transaction} (h : tx.IsReady) :
    tx.hashes = .ok (tx.payloads.map fun p => (p.node, p.hash)) := by
  have hsigned := (requireSigned_of_signed h.state).mpr h.signed
  simp only [hashes, hsigned]
  rfl

/-- Every node of the transaction has a payload. -/
theorem exists_payloadFor? {tx : Transaction} (h : tx.IsReady) {node : NodeId}
    (hnode : node ∈ tx.nodes) :
    exists p, tx.payloadFor? node = some p ∧ p ∈ tx.payloads ∧ p.node = node := by
  rw [← h.nodes] at hnode
  rcases List.mem_map.mp hnode with ⟨q, hq, hqnode⟩
  cases hfind : tx.payloadFor? node with
  | none =>
      have hmiss := List.find?_eq_none.mp hfind q hq
      simp [hqnode] at hmiss
  | some p =>
      have hmem := List.mem_of_find?_eq_some hfind
      have htest := List.find?_some hfind
      exact ⟨p, rfl, hmem, by simpa using htest⟩

/-- The hash that is reported for a node is that of the node's payload. -/
theorem find?_hashes (payloads : List Payload) (node : NodeId) :
    (payloads.map fun p => (p.node, p.hash)).find? (fun h => h.1 == node) =
      (payloads.find? (fun p => p.node == node)).map fun p => (p.node, p.hash) := by
  rw [List.find?_map]
  rfl

end Transaction

namespace Request

theorem ofTransaction_eq_ok {tx : Transaction} {request : Request}
    (h : ofTransaction tx = .ok request) :
    tx.IsReady ∧
      exists id, tx.id = some id ∧
        request =
          { subject := .transaction id
            method := tx.operation.method
            nodes := tx.nodes
            payloads := tx.payloads.map Payload.wireBytes } := by
  unfold ofTransaction at h
  cases hvalid : tx.validateForExecution with
  | error e =>
      rw [hvalid] at h
      cases h
  | ok valid =>
      rw [hvalid] at h
      have hready := Transaction.validateForExecution_eq_ok_iff.mp hvalid
      cases hid : tx.id with
      | none =>
          rw [hid] at h
          cases h
      | some id =>
          rw [hid] at h
          cases h
          exact ⟨hready, id, rfl, rfl⟩

/-- What a node gets is the wire form of its payload. -/
theorem payloadFor?_ofTransaction {tx : Transaction} {request : Request}
    (h : ofTransaction tx = .ok request) (node : NodeId) :
    request.payloadFor? node = (tx.payloadFor? node).map Payload.wireBytes := by
  rcases ofTransaction_eq_ok h with ⟨hready, id, _, hrequest⟩
  rw [hrequest]
  simp only [payloadFor?, Transaction.payloadFor?, ← hready.nodes, List.zip_map', List.find?_map,
    Option.map_map]
  rfl

end Request

end LedgerClient
