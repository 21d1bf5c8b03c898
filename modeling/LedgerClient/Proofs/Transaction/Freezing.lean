import LedgerClient.Transaction.Basic

/-!
# Freezing

When a draft can be frozen and what becomes of it.
-/

namespace LedgerClient

namespace Transaction

theorem firstRepeated?_eq_none_iff {earlier nodes : List NodeId} :
    firstRepeated? earlier nodes = none <->
      nodes.Nodup ∧ forall node, node ∈ nodes -> node ∉ earlier := by
  induction nodes generalizing earlier with
  | nil => simp [firstRepeated?]
  | cons node rest ih =>
      rw [firstRepeated?]
      by_cases hnode : node ∈ earlier
      · simp [hnode]
      · simp only [List.contains_iff_mem, hnode, if_false, ih, List.nodup_cons, List.mem_cons,
          forall_eq_or_imp, not_or, not_false_eq_true, true_and]
        constructor
        · intro h
          exact ⟨⟨fun hmem => (h.right node hmem).left rfl, h.left⟩,
            fun other hother => (h.right other hother).right⟩
        · intro h
          refine ⟨h.left.right, fun other hother => ⟨?_, h.right other hother⟩⟩
          intro heq
          rw [heq] at hother
          exact h.left.left hother

theorem requireDraft_eq_ok_iff {tx : Transaction} :
    tx.requireDraft = .ok () <-> tx.state = .draft := by
  unfold requireDraft
  by_cases hstate : tx.state = .draft
  · simp [hstate]
  · simp [hstate]

/-- The frozen form of a draft with this id. -/
def frozenAs (tx : Transaction) (id : TransactionId) : Transaction :=
  let fee := tx.maxFee.getD defaultMaxFee
  let secs := tx.validDurationSecs.getD defaultValidDurationSecs
  { tx with
    state := .frozen
    maxFee := some fee
    validDurationSecs := some secs
    payloads := tx.nodes.map (unsignedPayload id fee secs tx.memo tx.operation) }

theorem freeze_eq_ok {tx frozen : Transaction} (h : tx.freeze = .ok frozen) :
    tx.state = .draft ∧ tx.nodes ≠ [] ∧ tx.nodes.Nodup ∧ tx.operation.validate = .ok () ∧
      exists id, tx.id = some id ∧ frozen = tx.frozenAs id := by
  unfold freeze at h
  cases hstate : tx.requireDraft with
  | error e =>
      rw [hstate] at h
      cases h
  | ok draft =>
      rw [hstate] at h
      cases hnodes : tx.nodes.isEmpty with
      | true =>
          rw [hnodes] at h
          cases h
      | false =>
          rw [hnodes] at h
          cases hrepeated : firstRepeated? [] tx.nodes with
          | some node =>
              rw [hrepeated] at h
              cases h
          | none =>
              rw [hrepeated] at h
              cases hid : tx.id with
              | none =>
                  rw [hid] at h
                  cases h
              | some id =>
                  rw [hid] at h
                  cases hvalid : tx.operation.validate with
                  | error e =>
                      rw [hvalid] at h
                      cases h
                  | ok valid =>
                      rw [hvalid] at h
                      cases h
                      refine ⟨requireDraft_eq_ok_iff.mp hstate, by simpa using hnodes,
                        (firstRepeated?_eq_none_iff.mp hrepeated).left, rfl, id, rfl, ?_⟩
                      rw [frozenAs, hid]

theorem freeze_of_valid {tx : Transaction} {id : TransactionId} (hstate : tx.state = .draft)
    (hnodes : tx.nodes ≠ []) (hdistinct : tx.nodes.Nodup) (hid : tx.id = some id)
    (hvalid : tx.operation.validate = .ok ()) : tx.freeze = .ok (tx.frozenAs id) := by
  have hdraft := requireDraft_eq_ok_iff.mpr hstate
  have haddressed : tx.nodes.isEmpty = false := by simpa using hnodes
  have hrepeated : firstRepeated? [] tx.nodes = none :=
    firstRepeated?_eq_none_iff.mpr ⟨hdistinct, fun _ _ => List.not_mem_nil⟩
  unfold freeze
  rw [hdraft, haddressed, hrepeated, hid, hvalid, frozenAs, hid]
  rfl

/-- What freezing complains about is the state, the nodes, the id or the operation. -/
theorem freeze_eq_error {tx : Transaction} {e : TransactionError} (h : tx.freeze = .error e) :
    e = .alreadyFrozen ∨ e = .noNodes ∨ (exists node, e = .nodeTwice node) ∨
      e = .missing .transactionId ∨ tx.operation.validate = .error e := by
  unfold freeze requireDraft at h
  by_cases hstate : tx.state = .draft
  · rw [if_pos hstate] at h
    cases hnodes : tx.nodes.isEmpty with
    | true =>
        rw [hnodes] at h
        cases h
        exact Or.inr (Or.inl rfl)
    | false =>
        rw [hnodes] at h
        cases hrepeated : firstRepeated? [] tx.nodes with
        | some node =>
            rw [hrepeated] at h
            cases h
            exact Or.inr (Or.inr (Or.inl ⟨node, rfl⟩))
        | none =>
            rw [hrepeated] at h
            cases hid : tx.id with
            | none =>
                rw [hid] at h
                cases h
                exact Or.inr (Or.inr (Or.inr (Or.inl rfl)))
            | some id =>
                rw [hid] at h
                cases hvalid : tx.operation.validate with
                | ok valid =>
                    rw [hvalid] at h
                    cases h
                | error cause =>
                    rw [hvalid] at h
                    cases h
                    exact Or.inr (Or.inr (Or.inr (Or.inr rfl)))
  · rw [if_neg hstate] at h
    cases h
    exact Or.inl rfl

end Transaction

end LedgerClient
