import LedgerClient.Proofs.Node.Candidates
import Mathlib.Data.List.Nodup
import Mathlib.Data.Set.Function
import Mathlib.Order.Defs.Unbundled

/-!
# The order of the ranking

The ranking compares nodes by four things one after the other, and each of them counts only among
nodes that agree in those before it.  The last is the id, so nodes with distinct ids have one order,
whatever the order was in which they came; and the comparison itself is a strict total order of them
at any time.
-/

namespace LedgerClient

namespace Ranking

variable {now : Timestamp} {a b : Node} {nodes : List Node}

theorem compare_not (x y : Bool) : Ord.compare (!x) (!y) = Ord.compare y x := by
  cases x with
  | false => cases y <;> rfl
  | true => cases y <;> rfl

theorem compare_eq (now : Timestamp) :
    compare now =
      compareLex (compareOn fun a : Entry => !a.2.isHealthy now)
        (compareLex (compareOn fun a : Entry => a.2.useCount)
          (compareLex (compareOn fun a : Entry => a.2.lastUsedAt)
            (compareOn fun a : Entry => a.1.number))) := by
  funext a b
  show (Ord.compare (b.2.isHealthy now) (a.2.isHealthy now)).then _ =
    (Ord.compare (!a.2.isHealthy now) (!b.2.isHealthy now)).then _
  rw [compare_not]
  rfl

instance (now : Timestamp) : Std.TransCmp (compare now) := by
  rw [compare_eq]
  infer_instance

theorem rank_perm (now : Timestamp) (nodes : List Node) : (rank now nodes).Perm nodes :=
  List.mergeSort_perm nodes (precedes now)

theorem rank_sorted (now : Timestamp) (nodes : List Node) :
    (rank now nodes).Pairwise fun a b => precedes now a b = true := by
  apply List.pairwise_mergeSort
  · intro a b c hab hbc
    exact @Std.TransCmp.isLE_trans _ (compare now) _ _ _ _ hab hbc
  · intro a b
    rw [Bool.or_eq_true]
    cases hab : compare now (entry a) (entry b) with
    | lt => exact Or.inl (by simp [precedes, hab])
    | eq => exact Or.inl (by simp [precedes, hab])
    | gt =>
        right
        have hba := Std.OrientedCmp.lt_of_gt hab
        simp [precedes, hba]

/-!
## What comes first
-/

/-- A healthy node comes before one that is left alone.  Of two that are alike in this, the one
comes first that was used less often, then the one that was last used longer ago, then the one with
the smaller id. -/
def MayPrecede (now : Timestamp) (a b : Node) : Prop :=
  (b.health.isHealthy now = true -> a.health.isHealthy now = true) ∧
    (a.health.isHealthy now = b.health.isHealthy now ->
      a.health.useCount ≤ b.health.useCount ∧
        (a.health.useCount = b.health.useCount ->
          a.health.lastUsedAt ≤ b.health.lastUsedAt ∧
            (a.health.lastUsedAt = b.health.lastUsedAt -> a.id.number ≤ b.id.number)))

/-- The first of two comparisons decides unless it finds its sides equal. -/
theorem isLE_then_iff {first rest : Ordering} :
    (first.then rest).isLE = true <-> first.isLE = true ∧ (first = .eq -> rest.isLE = true) := by
  cases first with
  | lt => simp
  | eq => simp
  | gt => simp

theorem isLE_compare_flipped {x y : Bool} :
    (Ord.compare y x).isLE = true <-> (y = true -> x = true) := by
  cases x with
  | false => cases y <;> decide
  | true => cases y <;> decide

theorem precedes_iff : precedes now a b = true <-> MayPrecede now a b := by
  unfold precedes compare
  rw [isLE_then_iff, isLE_then_iff, isLE_then_iff, isLE_compare_flipped, Std.isLE_compare,
    Std.isLE_compare, Std.isLE_compare, Std.compare_eq_iff_eq, Std.compare_eq_iff_eq,
    Std.compare_eq_iff_eq, @eq_comm _ ((entry b).2.isHealthy now) ((entry a).2.isHealthy now)]
  rfl

/-!
## Other orders of the same nodes
-/

theorem eq_of_precedes (hdistinct : (nodes.map Node.id).Nodup) (ha : a ∈ nodes) (hb : b ∈ nodes)
    (hab : precedes now a b = true) (hba : precedes now b a = true) : a = b := by
  rcases precedes_iff.mp hab with ⟨hhealthy, hafter⟩
  rcases precedes_iff.mp hba with ⟨hhealthier, hbefore⟩
  have hsame : a.health.isHealthy now = b.health.isHealthy now :=
    Bool.eq_iff_iff.mpr ⟨hhealthier, hhealthy⟩
  rcases hafter hsame with ⟨huses, hafter⟩
  rcases hbefore hsame.symm with ⟨hmore, hbefore⟩
  have hcount := Nat.le_antisymm huses hmore
  rcases hafter hcount with ⟨hused, hafter⟩
  rcases hbefore hcount.symm with ⟨hlater, hbefore⟩
  have htime := UInt64.le_antisymm hused hlater
  have hid : a.id = b.id :=
    NodeId.ext (UInt64.le_antisymm (hafter htime) (hbefore htime.symm))
  exact List.inj_on_of_nodup_map hdistinct ha hb hid

theorem rank_eq_of_perm {other : List Node} (hdistinct : (nodes.map Node.id).Nodup)
    (hperm : other.Perm nodes) (now : Timestamp) : rank now other = rank now nodes := by
  have hranked : (rank now other).Perm (rank now nodes) :=
    (rank_perm now other).trans (hperm.trans (rank_perm now nodes).symm)
  apply hranked.eq_of_pairwise ?_ (rank_sorted now other) (rank_sorted now nodes)
  intro a b ha hb hab hba
  exact eq_of_precedes hdistinct (hperm.mem_iff.mp (mem_rank.mp ha)) (mem_rank.mp hb) hab hba

/-!
## A total order of entries
-/

section

variable {x y z : Entry}

theorem compare_eq_iff :
    compare now x y = .eq <->
      x.1 = y.1 ∧ x.2.isHealthy now = y.2.isHealthy now ∧ x.2.useCount = y.2.useCount ∧
        x.2.lastUsedAt = y.2.lastUsedAt := by
  unfold compare
  simp only [Ordering.then_eq_eq, Std.compare_eq_iff_eq, NodeId.ext_iff]
  constructor
  · rintro ⟨hhealthy, huses, htime, hid⟩
    exact ⟨hid, hhealthy.symm, huses, htime⟩
  · rintro ⟨hid, hhealthy, huses, htime⟩
    exact ⟨hhealthy.symm, huses, htime, hid⟩

/-- What stands between two entries that are equal in the order is equal to both. -/
theorem compare_eq_of_between (hxy : (compare now x y).isLE = true)
    (hyz : (compare now y z).isLE = true) (hxz : compare now x z = .eq) :
    compare now x y = .eq ∧ compare now y z = .eq := by
  have hzx : (compare now z x).isLE = true := by
    rw [@Std.OrientedCmp.eq_swap _ (compare now) _ z x, hxz]
    rfl
  constructor
  · exact Std.OrientedCmp.isLE_antisymm hxy (Std.TransCmp.isLE_trans hyz hzx)
  · exact Std.OrientedCmp.isLE_antisymm hyz (Std.TransCmp.isLE_trans hzx hxy)

end

/-- The order compares any two entries from both sides alike, is transitive, and finds two entries
equal only if they agree in all that it looks at, the id among them.  So it puts entries with
distinct ids in one strict order. -/
theorem compare_orders_totally (now : Timestamp) :
    (forall a b : Entry, compare now a b = (compare now b a).swap) ∧
      (forall a b c : Entry, (compare now a b).isLE = true -> (compare now b c).isLE = true ->
        (compare now a c).isLE = true ∧
          (compare now a c = .eq -> compare now a b = .eq ∧ compare now b c = .eq)) ∧
      (forall a b : Entry, compare now a b = .eq <->
        a.1 = b.1 ∧ a.2.isHealthy now = b.2.isHealthy now ∧ a.2.useCount = b.2.useCount ∧
          a.2.lastUsedAt = b.2.lastUsedAt) ∧
      forall entries : Set Entry, entries.InjOn Prod.fst ->
        IsStrictTotalOrder entries fun a b => compare now a.val b.val = .lt := by
  refine ⟨fun a b => Std.OrientedCmp.eq_swap, ?transitive, fun a b => compare_eq_iff, ?strict⟩
  case transitive =>
    intro a b c hab hbc
    exact ⟨Std.TransCmp.isLE_trans hab hbc, compare_eq_of_between hab hbc⟩
  case strict =>
    intro entries hdistinct
    refine { trichotomous := ?_, irrefl := ?_, trans := ?_ }
    · intro a b hless hmore
      have hequal : compare now a.val b.val = .eq := by
        cases hcompare : compare now a.val b.val with
        | eq => rfl
        | lt => exact (hless hcompare).elim
        | gt => exact (hmore (Std.OrientedCmp.lt_of_gt hcompare)).elim
      exact Subtype.ext (hdistinct a.property b.property (compare_eq_iff.mp hequal).left)
    · intro a hself
      rw [@Std.ReflCmp.compare_self _ (compare now) _ a.val] at hself
      cases hself
    · intro a b c hab hbc
      exact Std.TransCmp.lt_trans hab hbc

/-- A node that was never used but has just failed, a node that was used, and one with a larger id
that was used in the same way. -/
def threeEntries : List Entry :=
  [(⟨3⟩, ((Health.new (.ofMillis 250) (.ofMillis 8000)).recordFailure 1000).snapshot),
    (⟨4⟩, ((Health.new (.ofMillis 250) (.ofMillis 8000)).markUsed 900).snapshot),
    (⟨5⟩, ((Health.new (.ofMillis 250) (.ofMillis 8000)).markUsed 900).snapshot)]

/-- The failed node is last as long as it is left alone, and first after that. -/
theorem threeEntries_ordered :
    {a | a ∈ threeEntries}.InjOn Prod.fst ∧
      compare 1100 threeEntries[1] threeEntries[2] = .lt ∧
      compare 1100 threeEntries[2] threeEntries[0] = .lt ∧
      (compare 1100 threeEntries[1] threeEntries[0]).isLE = true ∧
      compare 1300 threeEntries[0] threeEntries[1] = .lt ∧
      forall now : Timestamp, IsStrictTotalOrder {a | a ∈ threeEntries} fun a b =>
        compare now a.val b.val = .lt := by
  have hdistinct : {a | a ∈ threeEntries}.InjOn Prod.fst :=
    fun a ha b hb => List.inj_on_of_nodup_map (by decide) ha hb
  have hfirst : compare 1100 threeEntries[1] threeEntries[2] = .lt := by decide
  have hsecond : compare 1100 threeEntries[2] threeEntries[0] = .lt := by decide
  rcases compare_orders_totally 1100 with ⟨_, htransitive, _, _⟩
  have hlast := htransitive _ _ _ (by rw [hfirst]; rfl) (by rw [hsecond]; rfl)
  refine ⟨hdistinct, hfirst, hsecond, hlast.left, by decide, ?_⟩
  intro now
  exact (compare_orders_totally now).right.right.right _ hdistinct

end Ranking

end LedgerClient
