import LedgerClient.Proofs.Node.Ranking
import LedgerClient.Proofs.Node.Records

/-!
# Balanced use of nodes

Among healthy nodes the ranking puts those first that were used less often.  So using the first
few of them once more, however many, keeps the numbers of uses within one of each other.
-/

namespace LedgerClient

/-!
## Healthy nodes in the ranking
-/

namespace Ranking

/-- Of two healthy nodes, the one that comes first was not used more often. -/
theorem useCount_le_of_precedes {now : Timestamp} {a b : Node} (h : precedes now a b = true)
    (ha : a.health.isHealthy now = true) (hb : b.health.isHealthy now = true) :
    a.health.useCount ≤ b.health.useCount :=
  ((precedes_iff.mp h).right (ha.trans hb.symm)).left

theorem rank_useCount {now : Timestamp} {nodes : List Node}
    (hhealthy : forall n, n ∈ nodes -> n.health.isHealthy now = true) :
    (rank now nodes).Pairwise fun a b => a.health.useCount ≤ b.health.useCount := by
  apply (rank_sorted now nodes).imp_of_mem
  intro a b ha hb hab
  exact useCount_le_of_precedes hab (hhealthy a (mem_rank.mp ha)) (hhealthy b (mem_rank.mp hb))

end Ranking

/-!
## Balance
-/

namespace Registry

/-- The numbers of uses are within one of each other. -/
def Balanced (r : Registry) : Prop :=
  forall m n, m ∈ r.nodes -> n ∈ r.nodes -> m.health.useCount ≤ n.health.useCount + 1

instance (r : Registry) : Decidable r.Balanced :=
  decidable_of_iff (forall m, m ∈ r.nodes -> forall n, n ∈ r.nodes ->
    m.health.useCount ≤ n.health.useCount + 1)
    ⟨fun h m n hm hn => h m hm n hn, fun h m hm n hn => h m n hm hn⟩

/-- Nodes that were never used are balanced. -/
theorem balanced_of_unused {r : Registry} (h : forall n, n ∈ r.nodes -> n.health.useCount = 0) :
    r.Balanced := by
  intro m n hm _
  rw [h m hm]
  exact Nat.zero_le _

theorem health_of_mem {r : Registry} {n : Node} (h : n ∈ r.nodes) : r.health n.id = n.health := by
  rcases exists_get? (List.mem_map_of_mem h) with ⟨found, hget, hid⟩
  have hfound : found ∈ r.nodes := List.mem_of_find?_eq_some hget
  have hsame := List.inj_on_of_nodup_map r.ids_nodup hfound h hid
  rw [health, hget, hsame]

theorem balanced_iff {r : Registry} :
    r.Balanced <->
      forall m n, m ∈ r.ids -> n ∈ r.ids ->
        (r.health m).useCount ≤ (r.health n).useCount + 1 := by
  constructor
  · intro h m n hm hn
    rcases List.mem_map.mp hm with ⟨p, hp, hpid⟩
    rcases List.mem_map.mp hn with ⟨q, hq, hqid⟩
    rw [← hpid, ← hqid, health_of_mem hp, health_of_mem hq]
    exact h p q hp hq
  · intro h m n hm hn
    have hboth := h m.id n.id (List.mem_map_of_mem hm) (List.mem_map_of_mem hn)
    rw [health_of_mem hm, health_of_mem hn] at hboth
    exact hboth

/-- Using the first few of the nodes once more, in the order of their uses, keeps the balance. -/
theorem Balanced.of_front {r last : Registry} {front order : List NodeId} (h : r.Balanced)
    (hids : last.ids = r.ids) (hall : forall id, id ∈ r.ids -> id ∈ order)
    (hsorted : order.Pairwise fun a b => (r.health a).useCount ≤ (r.health b).useCount)
    (hfront : front <+: order)
    (huses : forall id, id ∈ r.ids ->
      (last.health id).useCount = (r.health id).useCount + if id ∈ front then 1 else 0) :
    last.Balanced := by
  rw [balanced_iff, hids]
  intro m n hm hn
  have hnear := balanced_iff.mp h m n hm hn
  rw [huses m hm, huses n hn]
  by_cases hfirst : m ∈ front
  · by_cases hsecond : n ∈ front
    · rw [if_pos hfirst, if_pos hsecond]
      omega
    · -- The node that is used comes before the one that is not.
      have hle : (r.health m).useCount ≤ (r.health n).useCount := by
        rcases hfront with ⟨back, horder⟩
        rw [← horder, List.pairwise_append] at hsorted
        have hlater : n ∈ back := by
          have hmem := hall n hn
          rw [← horder, List.mem_append] at hmem
          exact hmem.resolve_left hsecond
        exact hsorted.right.right m hfirst n hlater
      rw [if_pos hfirst, if_neg hsecond]
      omega
  · rw [if_neg hfirst]
    omega

end Registry

end LedgerClient
