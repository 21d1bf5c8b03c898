import LedgerClient.Proofs.Delivery.Failover
import LedgerClient.Proofs.Node.Lookups
import LedgerClient.Proofs.Node.Ranking

/-!
# Requests that list their nodes in another order

A delivery looks up the nodes of a request and ranks them before it asks any.  Since the ranking
forgets in which order it was given the nodes, two requests for the same nodes are delivered in the
same steps.
-/

namespace LedgerClient

/-!
## Candidates
-/

namespace Registry

theorem candidates_of_perm {r : Registry} {ids others : List NodeId} {nodes : List Node}
    (hperm : others.Perm ids) (h : r.candidates ids = .ok nodes) :
    exists found, r.candidates others = .ok found ∧ found.Perm nodes := by
  rcases candidates_eq_ok_iff.mp h with ⟨hknown, hnodes⟩
  rw [hnodes]
  exact ⟨_, candidates_eq_ok_iff.mpr ⟨fun id hid => hknown id (hperm.mem_iff.mp hid), rfl⟩,
    hperm.filterMap r.get?⟩

end Registry

/-!
## Deliveries
-/

/-- The other request asks the same of the same nodes, but may list them in another order. -/
structure Request.Relists (request other : Request) : Prop where
  method : other.method = request.method
  nodes : other.nodes.Perm request.nodes
  payload : forall node, other.payloadFor? node = request.payloadFor? node

namespace Progress

variable {σ : Type} {w : Surroundings σ} {settings : DeliverySettings} {request other : Request}

theorem approach_relisted (h : request.Relists other) (node : Node) (isLast : Bool)
    (left : Duration) (p : Progress σ) :
    p.approach w settings other node isLast left =
      p.approach w settings request node isLast left := by
  unfold approach
  rw [h.method, h.payload]

theorem turn_relisted (h : request.Relists other) (deadline : Instant) (maxAttempts : Nat)
    (node : Node) (isFinal : Bool) (p : Progress σ) :
    p.turn w settings other deadline maxAttempts node isFinal =
      p.turn w settings request deadline maxAttempts node isFinal := by
  unfold turn
  simp only [approach_relisted h]

theorem visit_relisted (h : request.Relists other) (deadline : Instant) (maxAttempts : Nat)
    (candidates : List Node) (p : Progress σ) :
    visit w settings other deadline maxAttempts candidates p =
      visit w settings request deadline maxAttempts candidates p := by
  induction candidates generalizing p with
  | nil => rfl
  | cons node rest ih =>
      unfold visit
      simp only [turn_relisted h, ih]

end Progress

namespace Engine

variable {σ : Type} {e : Engine} {request other : Request}

theorem deliver_relisted (h : request.Relists other) (hdistinct : request.nodes.Nodup)
    {candidates : List Node} (hcandidates : e.registry.candidates request.nodes = .ok candidates)
    (w : Surroundings σ) (deadline : Instant) (world : σ) :
    e.deliver w other deadline world = e.deliver w request deadline world := by
  rcases Registry.candidates_of_perm h.nodes hcandidates with ⟨found, hfound, hperm⟩
  have hnodes : (candidates.map Node.id).Nodup := by
    rw [Registry.map_id_candidates hcandidates]
    exact hdistinct
  simp only [deliver, hcandidates, hfound, Ranking.rank_eq_of_perm hnodes hperm,
    Progress.visit_relisted h]

/-- If a node is unknown, no request for it takes a step. -/
theorem steps_relisted (h : request.Relists other) (hdistinct : request.nodes.Nodup)
    (w : Surroundings σ) (deadline : Instant) (world : σ) :
    (e.deliver w other deadline world).steps = (e.deliver w request deadline world).steps := by
  cases hcandidates : e.registry.candidates request.nodes with
  | ok candidates => rw [deliver_relisted h hdistinct hcandidates]
  | error unknown =>
      cases hothers : e.registry.candidates other.nodes with
      | error first => rw [deliver_eq_refuse hcandidates, deliver_eq_refuse hothers, refuse, refuse]
      | ok found =>
          rcases Registry.candidates_of_perm h.nodes.symm hothers with ⟨candidates, hall, _⟩
          rw [hcandidates] at hall
          cases hall

end Engine

/-- The ranking only changes the order: healthy nodes before the others, and among nodes that are
alike in this, those first that were used less often, then longer ago, then those with the smaller
id.  For distinct nodes it does not depend on the order in which they come, so it does not matter
for a delivery in which order a request lists its nodes. -/
theorem ranking_orders_any_listing {σ : Type} (now : Timestamp) (nodes : List Node) :
    (Ranking.rank now nodes).Perm nodes ∧
      (Ranking.rank now nodes).Pairwise (Ranking.MayPrecede now) ∧
      ((nodes.map Node.id).Nodup -> forall listed : List Node, listed.Perm nodes ->
        Ranking.rank now listed = Ranking.rank now nodes) ∧
      forall (e : Engine) (w : Surroundings σ) (request other : Request) (deadline : Instant)
        (world : σ), request.nodes.Nodup -> request.Relists other ->
          (e.deliver w other deadline world).steps = (e.deliver w request deadline world).steps ∧
          ((forall id, id ∈ request.nodes -> id ∈ e.registry.ids) ->
            e.deliver w other deadline world = e.deliver w request deadline world) := by
  refine ⟨Ranking.rank_perm now nodes, ?sorted, ?listed, ?delivered⟩
  case sorted => exact (Ranking.rank_sorted now nodes).imp Ranking.precedes_iff.mp
  case listed =>
    exact fun hdistinct listed hperm => Ranking.rank_eq_of_perm hdistinct hperm now
  case delivered =>
    intro e w request other deadline world hdistinct hrelists
    refine ⟨Engine.steps_relisted hrelists hdistinct w deadline world, ?_⟩
    intro hknown
    exact Engine.deliver_relisted hrelists hdistinct
      (Registry.candidates_eq_ok_iff.mpr ⟨hknown, rfl⟩) w deadline world

/-- The two nodes, the second before the first. -/
def turnedRequest : Request :=
  { twoNodesRequest with nodes := [⟨4⟩, ⟨3⟩] }

theorem relists_turnedRequest : twoNodesRequest.Relists turnedRequest := by
  constructor
  case method => rfl
  case nodes => exact .swap _ _ []
  case payload =>
    intro node
    by_cases hfirst : node = ⟨3⟩
    · rw [hfirst]
      rfl
    · by_cases hsecond : node = ⟨4⟩
      · rw [hsecond]
        rfl
      · have hneither : (⟨3⟩ == node) = false ∧ (⟨4⟩ == node) = false :=
          ⟨by simpa using Ne.symm hfirst, by simpa using Ne.symm hsecond⟩
        simp [Request.payloadFor?, turnedRequest, twoNodesRequest, twoNodes, soleNode, Node.new,
          hneither]

/-- Both requests are answered by the node that is not busy, after the other was asked. -/
theorem turnedRequest_delivered :
    (twoNodes.map Node.id).Nodup ∧ [twoNodes[1], twoNodes[0]].Perm twoNodes ∧
      Ranking.rank 0 [twoNodes[1], twoNodes[0]] = twoNodes ∧
      twoNodesRequest.nodes.Nodup ∧ twoNodesRequest.Relists turnedRequest ∧
      (forall id, id ∈ twoNodesRequest.nodes -> id ∈ twoNodesEngine.registry.ids) ∧
      twoNodesEngine.deliver (busyAt ⟨3⟩) turnedRequest (Instant.ofMillis 1000) () = busyRun := by
  have hdistinct : (twoNodes.map Node.id).Nodup := by decide
  have hturned : [twoNodes[1], twoNodes[0]].Perm twoNodes := .swap _ _ []
  have hknown : forall id, id ∈ twoNodesRequest.nodes -> id ∈ twoNodesEngine.registry.ids := by
    decide
  rcases ranking_orders_any_listing 0 twoNodes with ⟨_, _, hlisted, hdelivered⟩
  have hrun := hdelivered twoNodesEngine (busyAt ⟨3⟩) twoNodesRequest turnedRequest
    (Instant.ofMillis 1000) () hdistinct relists_turnedRequest
  exact ⟨hdistinct, hturned, (hlisted hdistinct _ hturned).trans rank_twoNodes, hdistinct,
    relists_turnedRequest, hknown, hrun.right hknown⟩

end LedgerClient
