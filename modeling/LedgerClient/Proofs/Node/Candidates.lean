import LedgerClient.Node.Ranking
import LedgerClient.Node.Registry

/-!
# Candidates for a request

Looking up the nodes of a request gives them in the order of their ids; ranking them only
changes the order.
-/

namespace LedgerClient

namespace Registry

theorem id_of_get? {r : Registry} {id : NodeId} {n : Node} (h : r.get? id = some n) :
    n.id = id := by
  have htest := List.find?_some h
  simpa using htest

theorem mem_ids_of_get? {r : Registry} {id : NodeId} {n : Node} (h : r.get? id = some n) :
    id ∈ r.ids := by
  rw [← id_of_get? h]
  exact List.mem_map_of_mem (List.mem_of_find?_eq_some h)

theorem candidates_cons {r : Registry} {id : NodeId} {rest : List NodeId} {nodes : List Node}
    (h : r.candidates (id :: rest) = .ok nodes) :
    exists n others, r.get? id = some n ∧ r.candidates rest = .ok others ∧
      nodes = n :: others := by
  unfold candidates at h
  cases hget : r.get? id with
  | none =>
      rw [hget] at h
      cases h
  | some n =>
      rw [hget] at h
      cases hrest : r.candidates rest with
      | error e =>
          rw [hrest] at h
          cases h
      | ok others =>
          rw [hrest] at h
          cases h
          exact ⟨n, others, rfl, rfl, rfl⟩

theorem map_id_candidates {r : Registry} {ids : List NodeId} {nodes : List Node}
    (h : r.candidates ids = .ok nodes) : nodes.map Node.id = ids := by
  induction ids generalizing nodes with
  | nil =>
      cases h
      rfl
  | cons id rest ih =>
      rcases candidates_cons h with ⟨n, others, hget, hrest, hnodes⟩
      rw [hnodes, List.map_cons, ih hrest, id_of_get? hget]

/-- A candidate is the registered node with its id. -/
theorem get?_of_mem_candidates {r : Registry} {ids : List NodeId} {nodes : List Node}
    (h : r.candidates ids = .ok nodes) {n : Node} (hn : n ∈ nodes) :
    r.get? n.id = some n := by
  induction ids generalizing nodes with
  | nil =>
      cases h
      cases hn
  | cons id rest ih =>
      rcases candidates_cons h with ⟨first, others, hget, hrest, hnodes⟩
      rw [hnodes] at hn
      rcases List.mem_cons.mp hn with hfirst | hother
      · rw [hfirst, id_of_get? hget]
        exact hget
      · exact ih hrest hother

theorem candidates_eq_error {r : Registry} {ids : List NodeId} {error : ClientError}
    (h : r.candidates ids = .error error) : exists id, error = .unknownNode id := by
  induction ids with
  | nil => cases h
  | cons id rest ih =>
      unfold candidates at h
      cases hget : r.get? id with
      | none =>
          rw [hget] at h
          cases h
          exact ⟨id, rfl⟩
      | some n =>
          rw [hget] at h
          cases hrest : r.candidates rest with
          | error e =>
              rw [hrest] at h
              cases h
              exact ih hrest
          | ok others =>
              rw [hrest] at h
              cases h

end Registry

namespace Ranking

theorem mem_rank {now : Timestamp} {nodes : List Node} {n : Node} :
    n ∈ rank now nodes <-> n ∈ nodes :=
  (List.mergeSort_perm nodes (precedes now)).mem_iff

end Ranking

end LedgerClient
