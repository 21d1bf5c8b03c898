import LedgerClient.Proofs.Node.Candidates
import LedgerClient.Proofs.Node.Records
import Mathlib.Data.List.Forall2
import Mathlib.Data.List.Nodup

/-!
# Looking up nodes

A registry is made from any nodes that differ in id and in address, as many as there are but one at
least.  Such a node is found by its id and by its address, and by nothing else.  The nodes of a
request are looked up one after the other, up to the first id that is not known.
-/

namespace LedgerClient

namespace Registry

/-!
## Construction
-/

section

variable {nodes : List Node} {e : ConfigError}

theorem ofNodes_eq_error_iff : ofNodes nodes = .error e <->
    (nodes = [] ∧ e = .noNodes) ∨ (nodes ≠ [] ∧ findClash [] [] nodes = some e) := by
  cases nodes with
  | nil => simp [ofNodes, eq_comm]
  | cons first rest =>
      simp only [ofNodes, reduceCtorEq, false_and, ne_eq, not_false_eq_true, true_and, false_or]
      split
      · rename_i clash hclash
        simp [hclash]
      · rename_i hclash
        simp [hclash]

theorem nodes_of_ofNodes {r : Registry} (h : ofNodes nodes = .ok r) : r.nodes = nodes := by
  cases nodes with
  | nil => cases h
  | cons first rest =>
      simp only [ofNodes] at h
      split at h
      · cases h
      · cases h
        rfl

/-- There is no clash if ids and addresses are new, each among themselves and to what was met. -/
theorem findClash_of_nodup {ids : List NodeId} {addresses : List String}
    (hids : (nodes.map Node.id).Nodup) (hfreshId : forall n, n ∈ nodes -> n.id ∉ ids)
    (haddresses : (nodes.map Node.address).Nodup)
    (hfreshAddress : forall n, n ∈ nodes -> n.address ∉ addresses) :
    findClash ids addresses nodes = none := by
  induction nodes generalizing ids addresses with
  | nil => rfl
  | cons n rest ih =>
      rw [List.map_cons, List.nodup_cons] at hids haddresses
      rw [List.forall_mem_cons] at hfreshId hfreshAddress
      rw [findClash, if_neg hfreshId.left, if_neg hfreshAddress.left]
      apply ih hids.right _ haddresses.right
      · intro m hm hmem
        rcases List.mem_cons.mp hmem with hsame | hother
        · exact haddresses.left (List.mem_map.mpr ⟨m, hm, hsame⟩)
        · exact hfreshAddress.right m hm hother
      · intro m hm hmem
        rcases List.mem_cons.mp hmem with hsame | hother
        · exact hids.left (List.mem_map.mpr ⟨m, hm, hsame⟩)
        · exact hfreshId.right m hm hother

theorem exists_ofNodes_iff : (exists r, ofNodes nodes = .ok r) <->
    nodes ≠ [] ∧ (nodes.map Node.id).Nodup ∧ (nodes.map Node.address).Nodup := by
  constructor
  · rintro ⟨r, hr⟩
    rw [← nodes_of_ofNodes hr]
    exact ⟨r.nodes_ne_nil, r.ids_nodup, r.addresses_nodup⟩
  · rintro ⟨hsome, hids, haddresses⟩
    have hclash : findClash [] [] nodes = none :=
      findClash_of_nodup hids (fun _ _ => List.not_mem_nil) haddresses
        (fun _ _ => List.not_mem_nil)
    cases hmade : ofNodes nodes with
    | ok r => exact ⟨r, rfl⟩
    | error e =>
        rcases ofNodes_eq_error_iff.mp hmade with ⟨hnone, _⟩ | ⟨_, hfound⟩
        · exact (hsome hnone).elim
        · rw [hclash] at hfound
          cases hfound

end

/-!
## Single nodes
-/

/-- Where keys differ, the first node with a key is the only one. -/
theorem find?_key_eq_some_iff {α : Type} [DecidableEq α] {nodes : List Node} {key : Node → α}
    (hdistinct : (nodes.map key).Nodup) {k : α} {n : Node} :
    nodes.find? (fun n => key n == k) = some n <-> n ∈ nodes ∧ key n = k := by
  constructor
  · intro h
    exact ⟨List.mem_of_find?_eq_some h, by simpa using List.find?_some h⟩
  · rintro ⟨hn, hkey⟩
    cases hfound : nodes.find? (fun n => key n == k) with
    | none =>
        have hmiss := List.find?_eq_none.mp hfound n hn
        simp [hkey] at hmiss
    | some found =>
        have hfoundKey : key found = k := by simpa using List.find?_some hfound
        have hsame := List.inj_on_of_nodup_map hdistinct (List.mem_of_find?_eq_some hfound) hn
          (hfoundKey.trans hkey.symm)
        rw [hsame]

theorem get?_eq_some_iff {r : Registry} {id : NodeId} {n : Node} :
    r.get? id = some n <-> n ∈ r.nodes ∧ n.id = id :=
  find?_key_eq_some_iff r.ids_nodup

theorem getByAddress?_eq_some_iff {r : Registry} {address : String} {n : Node} :
    r.getByAddress? address = some n <-> n ∈ r.nodes ∧ n.address = address :=
  find?_key_eq_some_iff r.addresses_nodup

theorem get?_eq_none_iff {r : Registry} {id : NodeId} : r.get? id = none <-> id ∉ r.ids := by
  constructor
  · intro h hid
    rcases exists_get? hid with ⟨n, hn, _⟩
    rw [h] at hn
    cases hn
  · intro hid
    cases hget : r.get? id with
    | none => rfl
    | some n => exact (hid (mem_ids_of_get? hget)).elim

/-!
## Candidates
-/

/-- All ids must be known; each then stands for its node. -/
theorem candidates_eq_ok_iff {r : Registry} {ids : List NodeId} {nodes : List Node} :
    r.candidates ids = .ok nodes <->
      (forall id, id ∈ ids -> id ∈ r.ids) ∧ nodes = ids.filterMap r.get? := by
  induction ids generalizing nodes with
  | nil =>
      simp only [candidates, List.filterMap_nil, List.not_mem_nil, false_implies, implies_true,
        true_and, Except.ok.injEq]
      exact eq_comm
  | cons id rest ih =>
      rw [List.forall_mem_cons]
      cases hget : r.get? id with
      | none =>
          simp [candidates, hget, get?_eq_none_iff.mp hget]
      | some n =>
          have hid : id ∈ r.ids := mem_ids_of_get? hget
          rw [List.filterMap_cons_some hget]
          constructor
          · intro h
            rcases candidates_cons h with ⟨first, others, hfirst, hrest, hnodes⟩
            rw [hget] at hfirst
            cases hfirst
            rcases ih.mp hrest with ⟨hknown, hothers⟩
            exact ⟨⟨hid, hknown⟩, by rw [hnodes, hothers]⟩
          · rintro ⟨⟨_, hknown⟩, hnodes⟩
            rw [candidates, hget, ih.mpr ⟨hknown, rfl⟩, hnodes]

theorem exists_candidates_iff {r : Registry} {ids : List NodeId} :
    (exists nodes, r.candidates ids = .ok nodes) <-> forall id, id ∈ ids -> id ∈ r.ids := by
  constructor
  · rintro ⟨nodes, hnodes⟩
    exact (candidates_eq_ok_iff.mp hnodes).left
  · intro hknown
    exact ⟨_, candidates_eq_ok_iff.mpr ⟨hknown, rfl⟩⟩

/-- One node for each id, in the order of the ids. -/
theorem candidates_eq_ok_iff_forall₂ {r : Registry} {ids : List NodeId} {nodes : List Node} :
    r.candidates ids = .ok nodes <-> List.Forall₂ (fun id n => r.get? id = some n) ids nodes := by
  constructor
  · intro h
    induction ids generalizing nodes with
    | nil =>
        cases h
        exact .nil
    | cons id rest ih =>
        rcases candidates_cons h with ⟨n, others, hget, hrest, hnodes⟩
        rw [hnodes]
        exact .cons hget (ih hrest)
  · intro h
    induction h with
    | nil => rfl
    | cons hget _ ih => rw [candidates, hget, ih]

/-- The first id that is not known is reported. -/
theorem candidates_eq_error_iff {r : Registry} {ids : List NodeId} {error : ClientError} :
    r.candidates ids = .error error <->
      exists before id after, ids = before ++ id :: after ∧
        (forall known, known ∈ before -> known ∈ r.ids) ∧ id ∉ r.ids ∧
        error = .unknownNode id := by
  induction ids with
  | nil => simp [candidates]
  | cons first rest ih =>
      cases hget : r.get? first with
      | none =>
          have hunknown := get?_eq_none_iff.mp hget
          rw [candidates, hget]
          constructor
          · intro h
            cases h
            exact ⟨[], first, rest, rfl, List.forall_mem_nil _, hunknown, rfl⟩
          · rintro ⟨before, id, after, hids, hknown, _, herror⟩
            cases before with
            | nil =>
                cases hids
                rw [herror]
            | cons other before =>
                cases hids
                exact (hunknown (hknown _ List.mem_cons_self)).elim
      | some n =>
          have hfirst := mem_ids_of_get? hget
          have hstep : r.candidates (first :: rest) = .error error <->
              r.candidates rest = .error error := by
            rw [candidates, hget]
            cases r.candidates rest with
            | error e => rfl
            | ok nodes => simp
          rw [hstep, ih]
          constructor
          · rintro ⟨before, id, after, hids, hknown, hunknown, herror⟩
            refine ⟨first :: before, id, after, by rw [hids]; rfl, ?_, hunknown, herror⟩
            exact List.forall_mem_cons.mpr ⟨hfirst, hknown⟩
          · rintro ⟨before, id, after, hids, hknown, hunknown, herror⟩
            cases before with
            | nil =>
                cases hids
                exact (hunknown hfirst).elim
            | cons other before =>
                cases hids
                exact ⟨before, id, after, rfl, (List.forall_mem_cons.mp hknown).right, hunknown,
                  herror⟩

end Registry

end LedgerClient
