import LedgerClient.Proofs.Delivery.Clocks
import LedgerClient.Proofs.Delivery.Deliveries
import LedgerClient.Proofs.Delivery.Failover
import LedgerClient.Proofs.Node.Balance
import Mathlib.Data.List.Count

/-!
# Load balance

A request for all nodes uses the first few of them as they are ranked, however it ends.  While
all nodes are healthy when they are ranked and nobody else uses them, none is passed over, so
requests in a row keep the numbers of uses within one of each other.
-/

namespace LedgerClient

variable {σ : Type}

/-- At different nodes there is at most one attempt each. -/
theorem length_attemptsAt {attempts : List Attempt} (h : (attempts.map Attempt.node).Nodup)
    (node : NodeId) :
    (attemptsAt node attempts).length = if node ∈ attempts.map Attempt.node then 1 else 0 := by
  have hcount : (attempts.map Attempt.node).count node = (attemptsAt node attempts).length := by
    rw [List.count_eq_countP, List.countP_map, List.countP_eq_length_filter]
    rfl
  rw [← hcount, h.count]

/-!
## Fair requests
-/

/-- A request for all nodes, each listed once, all of which are healthy when they are ranked. -/
structure Delivery.IsFair (w : Surroundings σ) (d : Delivery σ) : Prop where
  all : d.request.nodes.Perm d.registry.ids
  healthy : forall n, n ∈ d.registry.nodes -> n.health.isHealthy (w.clock d.world).1 = true

namespace Delivery

variable {w : Surroundings σ} {d : Delivery σ} {candidates : List Node}

def ranked (w : Surroundings σ) (d : Delivery σ) (candidates : List Node) : List NodeId :=
  (Ranking.rank (w.clock d.world).1 candidates).map Node.id

theorem ranked_perm (w : Surroundings σ)
    (hcandidates : d.registry.candidates d.request.nodes = .ok candidates) :
    (d.ranked w candidates).Perm d.request.nodes := by
  rw [← Registry.map_id_candidates hcandidates]
  exact (List.mergeSort_perm candidates _).map Node.id

theorem visits_ranked (w : Surroundings σ)
    (hcandidates : d.registry.candidates d.request.nodes = .ok candidates) :
    visitsIn (d.run w).steps <+: d.ranked w candidates :=
  (Engine.deliver_visits (e := d.engine) hcandidates w d.deadline d.world).left

theorem IsFair.perm (h : d.IsFair w)
    (hcandidates : d.registry.candidates d.request.nodes = .ok candidates) :
    (d.ranked w candidates).Perm d.registry.ids :=
  (d.ranked_perm w hcandidates).trans h.all

theorem IsFair.nodup (h : d.IsFair w)
    (hcandidates : d.registry.candidates d.request.nodes = .ok candidates) :
    (d.ranked w candidates).Nodup :=
  (h.perm hcandidates).nodup_iff.mpr d.registry.ids_nodup

theorem IsFair.healthy_at (h : d.IsFair w) {node : NodeId} (hnode : node ∈ d.registry.ids) :
    d.start.healthy w node = true := by
  rcases List.mem_map.mp hnode with ⟨n, hn, hid⟩
  rw [← hid]
  show (d.registry.health n.id).isHealthy _ = true
  rw [Registry.health_of_mem hn]
  exact h.healthy n hn

/-- A node whose record is as it was when it was ranked is still healthy. -/
theorem IsFair.healthy_later (h : d.IsFair w) (hclock : w.ClockRuns) (halone : w.Alone)
    {before : List Step} {m : Scene σ} {node : NodeId} (hbefore : Passage w d.start before m)
    (hnode : node ∈ d.registry.ids)
    (hunused : node ∉ (attemptsIn before).map Attempt.node) :
    (m.timed w).healthy w node = true := by
  rcases hbefore.chronicle with ⟨others, hchronicle⟩
  have hothers := halone.chronicle hchronicle
  subst hothers
  have hnone : attemptsAt node (attemptsIn before) = [] := by
    apply List.filter_eq_nil_iff.mpr
    intro a ha hsame
    apply hunused
    rw [← of_decide_eq_true hsame]
    exact List.mem_map_of_mem ha
  have hkept : m.registry.health node = d.registry.health node :=
    (hchronicle.accounts hnode (List.not_mem_nil)).untouched hnone rfl
  have hread : Passage w d.start (before ++ []) (m.timed w) :=
    hbefore.append (.timed (.done _))
  have hhealthy := Scene.healthy_iff.mp (h.healthy_at hnode)
  apply Scene.healthy_iff.mpr
  show (m.registry.health node).backoffUntil ≤ _
  rw [hkept]
  exact UInt64.le_trans hhealthy (hclock.passage hread)

theorem IsFair.not_skipped (h : d.IsFair w) (hclock : w.ClockRuns) (halone : w.Alone)
    (hcandidates : d.registry.candidates d.request.nodes = .ok candidates)
    (node : NodeId) (backoff left : Duration) :
    Step.skipped node backoff left ∉ (d.run w).steps := by
  intro hskipped
  rcases List.append_of_mem hskipped with ⟨before, after, hsteps⟩
  have hvisits := d.visits_ranked w hcandidates
  have hnodup := h.nodup hcandidates
  rw [hsteps, visitsIn_append, visitsIn_skipped] at hvisits
  have hranked : node ∈ d.ranked w candidates :=
    hvisits.subset (List.mem_append_right _ (List.mem_cons_self ..))
  have hnode : node ∈ d.registry.ids := (h.perm hcandidates).mem_iff.mp hranked
  have hnew : node ∉ visitsIn before := by
    have hdistinct := hnodup.sublist hvisits.sublist
    rw [List.nodup_append] at hdistinct
    intro hmem
    exact hdistinct.right.right node hmem node (List.mem_cons_self ..) rfl
  have hunused : node ∉ (attemptsIn before).map Attempt.node :=
    fun hmem => hnew ((map_node_sublist before).subset hmem)
  rcases Engine.deliver_warrantedAt (e := d.engine) hsteps with
    ⟨m, c, next, hbefore, hwarranted, _, _⟩
  cases hwarranted with
  | skipped _ _ hunhealthy _ =>
      rw [h.healthy_later hclock halone hbefore hnode hunused] at hunhealthy
      cases hunhealthy

/-- The nodes that are used are the first few of the ranking. -/
theorem IsFair.attempts_ranked (h : d.IsFair w) (hclock : w.ClockRuns) (halone : w.Alone)
    (hcandidates : d.registry.candidates d.request.nodes = .ok candidates) :
    (d.run w).attempts.map Attempt.node <+: d.ranked w candidates := by
  have hvisits := d.visits_ranked w hcandidates
  rw [visitsIn_of_no_skip (h.not_skipped hclock halone hcandidates)] at hvisits
  exact hvisits

theorem IsFair.ranked_sorted (h : d.IsFair w)
    (hcandidates : d.registry.candidates d.request.nodes = .ok candidates) :
    (d.ranked w candidates).Pairwise fun a b =>
      (d.registry.health a).useCount ≤ (d.registry.health b).useCount := by
  have hregistered : forall n, n ∈ candidates -> n ∈ d.registry.nodes :=
    fun n hn => List.mem_of_find?_eq_some (Registry.get?_of_mem_candidates hcandidates hn)
  have hhealthy : forall n, n ∈ candidates -> n.health.isHealthy (w.clock d.world).1 = true :=
    fun n hn => h.healthy n (hregistered n hn)
  apply List.pairwise_map.mpr
  apply (Ranking.rank_useCount hhealthy).imp_of_mem
  intro a b ha hb hle
  rw [Registry.health_of_mem (hregistered a (Ranking.mem_rank.mp ha)),
    Registry.health_of_mem (hregistered b (Ranking.mem_rank.mp hb))]
  exact hle

theorem IsFair.balanced (h : d.IsFair w) (hclock : w.ClockRuns) (halone : w.Alone)
    (hbalanced : d.registry.Balanced) : (d.run w).registry.Balanced := by
  cases hcandidates : d.registry.candidates d.request.nodes with
  | error error =>
      have hrefused := Engine.deliver_eq_refuse (e := d.engine) hcandidates w d.deadline d.world
      rw [run, hrefused]
      exact hbalanced
  | ok candidates =>
      have hfront := h.attempts_ranked hclock halone hcandidates
      have hnodup := (h.nodup hcandidates).sublist hfront.sublist
      have hpassage := d.engine.deliver_passage w d.request d.deadline d.world
      rcases hpassage.chronicle with ⟨others, hchronicle⟩
      have hothers := halone.chronicle hchronicle
      subst hothers
      apply hbalanced.of_front hchronicle.ids _ (h.ranked_sorted hcandidates) hfront
      · intro id hid
        have hused := (hchronicle.accounts hid (List.not_mem_nil)).used
        have hcount := length_attemptsAt hnodup id
        rw [← hcount]
        exact hused
      · intro id hid
        exact (h.perm hcandidates).mem_iff.mpr hid

end Delivery

/-!
## Requests in a row
-/

/-- Deliveries, each with the records that the one before it left. -/
inductive InTurn (w : Surroundings σ) : Registry -> List (Delivery σ) -> Registry -> Prop where
  | none (registry : Registry) : InTurn w registry [] registry
  | next {first : Delivery σ} {rest : List (Delivery σ)} {last : Registry} :
      InTurn w (first.run w).registry rest last ->
      InTurn w first.registry (first :: rest) last

section

variable {w : Surroundings σ} {registry last : Registry} {ds : List (Delivery σ)}

theorem InTurn.append {between : Registry} {others : List (Delivery σ)}
    (hfirst : InTurn w registry ds between) (hsecond : InTurn w between others last) :
    InTurn w registry (ds ++ others) last := by
  induction hfirst with
  | none registry => exact hsecond
  | next _ ih => exact .next (ih hsecond)

theorem Deliveries.inTurn {settings : DeliverySettings} {c d : Scene σ}
    (h : Deliveries w settings c ds d) : InTurn w c.registry ds d.registry := by
  induction h with
  | none c => exact .none _
  | timed _ ih => exact ih
  | next _ _ ih => exact .next ih

theorem InTurn.ids (h : InTurn w registry ds last) :
    forall d, d ∈ ds -> d.registry.ids = registry.ids := by
  induction h with
  | none registry => exact List.forall_mem_nil _
  | @next first rest last _ ih =>
      have hkept : (first.run w).registry.ids = first.registry.ids :=
        (first.engine.deliver_passage w first.request first.deadline first.world).ids
      rw [hkept] at ih
      exact List.forall_mem_cons.mpr ⟨rfl, ih⟩

theorem InTurn.balanced (h : InTurn w registry ds last) (hclock : w.ClockRuns)
    (halone : w.Alone) (hfair : forall d, d ∈ ds -> d.IsFair w) (hbalanced : registry.Balanced) :
    last.Balanced ∧ forall d, d ∈ ds -> (d.run w).registry.Balanced := by
  induction h with
  | none registry => exact ⟨hbalanced, fun d hd => (List.not_mem_nil hd).elim⟩
  | @next first rest last _ ih =>
      have hfirst := (hfair first (List.mem_cons_self ..)).balanced hclock halone hbalanced
      rcases ih (fun d hd => hfair d (List.mem_cons_of_mem _ hd)) hfirst with ⟨hlast, hrest⟩
      refine ⟨hlast, ?_⟩
      intro d hd
      rcases List.mem_cons.mp hd with hsame | hother
      · rw [hsame]
        exact hfirst
      · exact hrest d hother

end

/-!
## Errands in a row
-/

/-- The deliveries that errands in a row come to, errand by errand: each is of a request that its
errand asks for. -/
structure Errand.ComeTo (w : Surroundings σ) (registry : Registry) (errands : List (Errand σ))
    (rows : List (List (Delivery σ))) : Prop where
  asked : List.Forall₂
    (fun errand ds => forall d, d ∈ ds -> errand.demand.Asks registry.ids d.request) errands rows
  inTurn : InTurn w registry rows.flatten (Errand.runAll w registry errands).2
  steps : Delivery.stepsOf w rows.flatten = (Errand.runAll w registry errands).1

namespace Errand

variable {w : Surroundings σ} {registry : Registry} {errands : List (Errand σ)}
  {rows : List (List (Delivery σ))}

theorem exists_comeTo (w : Surroundings σ) (registry : Registry) (errands : List (Errand σ)) :
    exists rows, Errand.ComeTo w registry errands rows := by
  induction errands generalizing registry with
  | nil => exact ⟨[], .nil, .none registry, rfl⟩
  | cons errand rest ih =>
      rcases errand.delivers w registry with ⟨first, hfirst, hsteps, hasked⟩
      rcases ih (errand.run w registry).2.registry with ⟨others, hothers⟩
      have hrest := hothers.asked
      rw [(errand.passage w registry).ids] at hrest
      refine ⟨first :: others, .cons hasked hrest, ?_, ?_⟩
      · rw [List.flatten_cons]
        exact hfirst.inTurn.append hothers.inTurn
      · rw [List.flatten_cons, Delivery.stepsOf_append, ← hsteps, hothers.steps]
        rfl

theorem ComeTo.exists_errand (h : Errand.ComeTo w registry errands rows) {d : Delivery σ}
    (hd : d ∈ rows.flatten) :
    exists errand, errand ∈ errands ∧ errand.demand.Asks registry.ids d.request := by
  have hasked := h.asked
  clear h
  induction hasked with
  | nil => cases hd
  | @cons errand row errands rows hrow _ ih =>
      rw [List.flatten_cons] at hd
      rcases List.mem_append.mp hd with hhere | hlater
      · exact ⟨errand, List.mem_cons_self, hrow d hhere⟩
      · rcases ih hlater with ⟨other, hother, hrequest⟩
        exact ⟨other, List.mem_cons_of_mem errand hother, hrequest⟩

/-- Errands whose requests are for all nodes are fair while all nodes are healthy. -/
theorem ComeTo.fair (h : Errand.ComeTo w registry errands rows)
    (hall : forall errand request, errand ∈ errands ->
      errand.demand.Asks registry.ids request -> request.nodes.Perm registry.ids)
    (hhealthy : forall d, d ∈ rows.flatten -> forall n, n ∈ d.registry.nodes ->
      n.health.isHealthy (w.clock d.world).1 = true) :
    forall d, d ∈ rows.flatten -> d.IsFair w := by
  intro d hd
  rcases h.exists_errand hd with ⟨errand, herrand, hasked⟩
  constructor
  case all =>
    rw [h.inTurn.ids d hd]
    exact hall errand d.request herrand hasked
  case healthy => exact hhealthy d hd

end Errand

/-- Requests for all nodes, all of them healthy whenever they are ranked, keep the numbers of uses
within one of each other, whatever becomes of the requests.  Transactions, queries and batches
come to such requests of theirs in a row, so they keep them within one of each other too. -/
theorem uses_stay_balanced {w : Surroundings σ} (hclock : w.ClockRuns) (halone : w.Alone) :
    (forall registry ds last, InTurn w registry ds last -> registry.Balanced ->
      (forall d, d ∈ ds -> d.IsFair w) ->
      last.Balanced ∧ forall d, d ∈ ds -> (d.run w).registry.Balanced) ∧
    forall (registry : Registry) (errands : List (Errand σ)),
      (exists rows, Errand.ComeTo w registry errands rows) ∧
      forall rows, Errand.ComeTo w registry errands rows -> registry.Balanced ->
        (forall errand request, errand ∈ errands ->
          errand.demand.Asks registry.ids request -> request.nodes.Perm registry.ids) ->
        (forall d, d ∈ rows.flatten -> forall n, n ∈ d.registry.nodes ->
          n.health.isHealthy (w.clock d.world).1 = true) ->
        (Errand.runAll w registry errands).2.Balanced ∧
          forall d, d ∈ rows.flatten -> (d.run w).registry.Balanced := by
  constructor
  · intro registry ds last hturn hbalanced hfair
    exact hturn.balanced hclock halone hfair hbalanced
  · intro registry errands
    refine ⟨Errand.exists_comeTo w registry errands, ?_⟩
    intro rows hrows hbalanced hall hhealthy
    exact hrows.inTurn.balanced hclock halone (hrows.fair hall hhealthy) hbalanced

/-!
## Two requests with one attempt each
-/

/-- Every node answers at once. -/
def welcoming : Surroundings Nat :=
  ticking (fun _ _ => []) fun _ _ now =>
    (.received (NodeResponse.codec.encode ⟨.ok, []⟩), [], now)

def firstLight : Delivery Nat :=
  { settings := { twoNodesEngine.settings with maxAttempts := some 1 }
    registry := twoNodesEngine.registry
    request := twoNodesRequest
    deadline := Instant.ofMillis 1000
    world := 0 }

def secondLight : Delivery Nat :=
  { firstLight with registry := (firstLight.run welcoming).registry }

/-- The first request uses one node, and both are healthy after it. -/
theorem firstLight_run :
    (firstLight.run welcoming).attempts.map Attempt.node = [⟨3⟩] ∧
      (firstLight.run welcoming).registry.ids = [⟨3⟩, ⟨4⟩] ∧
      forall n, n ∈ (firstLight.run welcoming).registry.nodes ->
        n.health.isHealthy (welcoming.clock secondLight.world).1 = true := by
  have hcandidates : firstLight.engine.registry.candidates firstLight.request.nodes =
      .ok twoNodes := candidates_twoNodes
  have hclock : (welcoming.clock firstLight.world).1 = 0 := rfl
  simp only [Delivery.run, Engine.deliver, hcandidates, hclock, rank_twoNodes]
  decide +kernel

theorem lights_inTurn :
    InTurn welcoming firstLight.registry [firstLight, secondLight]
      (secondLight.run welcoming).registry := by
  have hrest : InTurn welcoming secondLight.registry [secondLight]
      (secondLight.run welcoming).registry := .next (.none _)
  exact .next hrest

/-- The query that both requests are made for. -/
def lightQuery : Query :=
  { method := .accountBalance, payload := [1], nodes := [] }

def lightErrand : Errand Nat :=
  { settings := firstLight.settings
    world := 0
    demand := .query lightQuery (Instant.ofMillis 1000) }

theorem lightErrand_asks {request : Request} :
    lightErrand.demand.Asks [⟨3⟩, ⟨4⟩] request <-> request = twoNodesRequest := by
  constructor
  · intro hasked
    cases hasked
    rfl
  · intro hsame
    rw [hsame]
    rfl

theorem lightErrand_run {registry : Registry} (hids : registry.ids = [⟨3⟩, ⟨4⟩]) :
    lightErrand.run welcoming registry =
      ((({ firstLight with registry := registry } : Delivery Nat).run welcoming).steps,
        (({ firstLight with registry := registry } : Delivery Nat).run welcoming).scene) := by
  let light : Delivery Nat := { firstLight with registry := registry }
  rcases light.engine.exists_query_eq welcoming lightQuery (Instant.ofMillis 1000) 0 with
    ⟨request, hrequest, hrun⟩
  have hasked : lightErrand.demand.Asks registry.ids request := hrequest
  rw [hids] at hasked
  rw [lightErrand_asks.mp hasked] at hrun
  show ((light.engine.query welcoming lightQuery (Instant.ofMillis 1000) 0).steps,
    (light.engine.query welcoming lightQuery (Instant.ofMillis 1000) 0).scene) = _
  rw [hrun]
  rfl

/-- The two errands come to the two requests. -/
theorem lightErrands_comeTo (hids : (firstLight.run welcoming).registry.ids = [⟨3⟩, ⟨4⟩]) :
    Errand.ComeTo welcoming firstLight.registry [lightErrand, lightErrand]
      [[firstLight], [secondLight]] := by
  have hstart : firstLight.registry.ids = [⟨3⟩, ⟨4⟩] := by decide
  have hfirst : lightErrand.run welcoming firstLight.registry =
      ((firstLight.run welcoming).steps, (firstLight.run welcoming).scene) :=
    lightErrand_run hstart
  have hsecond : lightErrand.run welcoming (firstLight.run welcoming).registry =
      ((secondLight.run welcoming).steps, (secondLight.run welcoming).scene) :=
    lightErrand_run hids
  have hall : Errand.runAll welcoming firstLight.registry [lightErrand, lightErrand] =
      ((firstLight.run welcoming).steps ++ ((secondLight.run welcoming).steps ++ []),
        (secondLight.run welcoming).registry) := by
    simp only [Errand.runAll, hfirst]
    show ((firstLight.run welcoming).steps ++
      ((lightErrand.run welcoming (firstLight.run welcoming).registry).1 ++ []),
        (lightErrand.run welcoming (firstLight.run welcoming).registry).2.registry) = _
    rw [hsecond]
    rfl
  constructor
  case asked =>
    rw [hstart]
    refine .cons ?_ (.cons ?_ .nil)
    · intro d hd
      rw [List.mem_singleton.mp hd]
      exact lightErrand_asks.mpr rfl
    · intro d hd
      rw [List.mem_singleton.mp hd]
      exact lightErrand_asks.mpr rfl
  case inTurn =>
    rw [hall]
    exact lights_inTurn
  case steps =>
    rw [hall]
    rfl

/-- Two requests in a row and the two errands that come to them. -/
theorem secondLight_balanced :
    welcoming.ClockRuns ∧ welcoming.Alone ∧ firstLight.registry.Balanced ∧
      firstLight.IsFair welcoming ∧ secondLight.IsFair welcoming ∧
      (firstLight.run welcoming).attempts.map Attempt.node = [⟨3⟩] ∧
      (secondLight.run welcoming).registry.Balanced ∧
      (Errand.runAll welcoming firstLight.registry [lightErrand, lightErrand]).2.Balanced := by
  have hclock : welcoming.ClockRuns := ticking_clockRuns fun _ _ _ => Nat.le_refl _
  have halone : welcoming.Alone := ⟨fun _ _ => rfl, fun _ _ _ => rfl⟩
  have hbalanced : firstLight.registry.Balanced := Registry.balanced_of_unused (by decide +kernel)
  have hfirst : firstLight.IsFair welcoming := ⟨by decide +kernel, by decide +kernel⟩
  rcases firstLight_run with ⟨hattempts, hids, hhealthy⟩
  have hsecond : secondLight.IsFair welcoming := by
    constructor
    case all =>
      show twoNodesRequest.nodes.Perm (firstLight.run welcoming).registry.ids
      rw [hids]
      decide +kernel
    case healthy => exact hhealthy
  have hfair : forall d, d ∈ [firstLight, secondLight] -> d.IsFair welcoming :=
    List.forall_mem_cons.mpr ⟨hfirst, List.forall_mem_singleton.mpr hsecond⟩
  have hall : forall errand request, errand ∈ [lightErrand, lightErrand] ->
      errand.demand.Asks firstLight.registry.ids request ->
        request.nodes.Perm firstLight.registry.ids := by
    intro errand request herrand hasked
    have hsame : errand = lightErrand := by simpa using herrand
    rw [hsame] at hasked
    rw [lightErrand_asks.mp hasked]
    exact hfirst.all
  rcases uses_stay_balanced hclock halone with ⟨hrequests, herrands⟩
  refine ⟨hclock, halone, hbalanced, hfirst, hsecond, hattempts, ?_, ?_⟩
  · exact (hrequests _ _ _ lights_inTurn hbalanced hfair).left
  · have hcomeTo := lightErrands_comeTo hids
    exact ((herrands _ _).right _ hcomeTo hbalanced hall fun d hd => (hfair d hd).healthy).left

end LedgerClient
