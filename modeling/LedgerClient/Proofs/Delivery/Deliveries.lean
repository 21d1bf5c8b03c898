import LedgerClient.Proofs.Delivery.Errands

/-!
# What errands deliver

A transaction or a query comes to one delivery at most, a batch to one for each transaction
whose submission began.  In between only the timer is read.  So errands are deliveries in a
row of their own requests, each with the records that the one before it left, and what every
delivery keeps, errands keep.
-/

namespace LedgerClient

variable {σ : Type}

/-- A request that an engine delivers, with the state of the surroundings at its start. -/
structure Delivery (σ : Type) where
  settings : DeliverySettings
  registry : Registry
  request : Request
  deadline : Instant
  world : σ

namespace Delivery

def engine (d : Delivery σ) : Engine :=
  { settings := d.settings, registry := d.registry }

def start (d : Delivery σ) : Scene σ :=
  { world := d.world, registry := d.registry }

def run (w : Surroundings σ) (d : Delivery σ) : Run σ Response :=
  d.engine.deliver w d.request d.deadline d.world

def stepsOf (w : Surroundings σ) (ds : List (Delivery σ)) : List Step :=
  ds.flatMap fun d => (d.run w).steps

@[simp]
theorem stepsOf_nil (w : Surroundings σ) : stepsOf w [] = [] :=
  rfl

@[simp]
theorem stepsOf_cons (w : Surroundings σ) (d : Delivery σ) (ds : List (Delivery σ)) :
    stepsOf w (d :: ds) = (d.run w).steps ++ stepsOf w ds :=
  List.flatMap_cons

@[simp]
theorem stepsOf_append (w : Surroundings σ) (xs ys : List (Delivery σ)) :
    stepsOf w (xs ++ ys) = stepsOf w xs ++ stepsOf w ys :=
  List.flatMap_append

theorem warranted (w : Surroundings σ) (d : Delivery σ) :
    Guarded w (Warranted w d.settings d.deadline) d.start (d.run w).steps (d.run w).scene :=
  d.engine.deliver_warranted w d.request d.deadline d.world

theorem registered (w : Surroundings σ) (d : Delivery σ) {a : Attempt}
    (ha : a ∈ attemptsIn (d.run w).steps) : a.node ∈ d.registry.ids := by
  rcases d.engine.deliver_brings w d.request d.deadline d.world ha with ⟨_, _, _, hbrings⟩
  exact hbrings.registered

end Delivery

/-- The deliveries between two scenes, all with the same settings. -/
inductive Deliveries (w : Surroundings σ) (settings : DeliverySettings) :
    Scene σ -> List (Delivery σ) -> Scene σ -> Prop where
  | none (c : Scene σ) : Deliveries w settings c [] c
  | timed {c d : Scene σ} {ds : List (Delivery σ)} :
      Deliveries w settings (c.timed w) ds d -> Deliveries w settings c ds d
  | next {first : Delivery σ} {rest : List (Delivery σ)} {d : Scene σ} :
      first.settings = settings ->
      Deliveries w settings (first.run w).scene rest d ->
      Deliveries w settings first.start (first :: rest) d

theorem Deliveries.append {w : Surroundings σ} {settings : DeliverySettings}
    {c between d : Scene σ} {xs ys : List (Delivery σ)}
    (hxs : Deliveries w settings c xs between) (hys : Deliveries w settings between ys d) :
    Deliveries w settings c (xs ++ ys) d := by
  induction hxs with
  | none c => exact hys
  | timed _ ih => exact .timed (ih hys)
  | next hsettings _ ih => exact .next hsettings (ih hys)

/-- The steps between two scenes are those of deliveries, each of a request of some kind. -/
def Delivers (w : Surroundings σ) (settings : DeliverySettings) (asked : Request -> Prop)
    (c : Scene σ) (steps : List Step) (d : Scene σ) : Prop :=
  exists ds, Deliveries w settings c ds d ∧ steps = Delivery.stepsOf w ds ∧
    forall d, d ∈ ds -> asked d.request

section

variable {w : Surroundings σ} {settings : DeliverySettings} {asked : Request -> Prop}
  {c between d : Scene σ} {xs ys : List Step}

theorem Delivers.refl (c : Scene σ) : Delivers w settings asked c [] c :=
  ⟨[], .none c, rfl, List.forall_mem_nil _⟩

theorem Delivers.timed (h : Delivers w settings asked (c.timed w) xs d) :
    Delivers w settings asked c xs d := by
  rcases h with ⟨ds, hds, hsteps, hasked⟩
  exact ⟨ds, .timed hds, hsteps, hasked⟩

theorem Delivers.append (hxs : Delivers w settings asked c xs between)
    (hys : Delivers w settings asked between ys d) :
    Delivers w settings asked c (xs ++ ys) d := by
  rcases hxs with ⟨first, hfirst, hfirstSteps, hfirstAsked⟩
  rcases hys with ⟨second, hsecond, hsecondSteps, hsecondAsked⟩
  refine ⟨first ++ second, hfirst.append hsecond, ?_, ?_⟩
  · rw [hfirstSteps, hsecondSteps, Delivery.stepsOf_append]
  · exact List.forall_mem_append.mpr ⟨hfirstAsked, hsecondAsked⟩

theorem Delivers.mono {others : Request -> Prop} (h : Delivers w settings asked c xs d)
    (hothers : forall request, asked request -> others request) :
    Delivers w settings others c xs d := by
  rcases h with ⟨ds, hds, hsteps, hasked⟩
  exact ⟨ds, hds, hsteps, fun d hd => hothers d.request (hasked d hd)⟩

end

/-- The requests that are made for a demand where these nodes are registered. -/
def Demand.Asks (registered : List NodeId) : Demand -> Request -> Prop
  | .transaction tx _, request => Request.ofTransaction tx = .ok request
  | .query q _, request =>
      Request.ofQuery q (if q.nodes.isEmpty then registered else q.nodes) = .ok request
  | .batch b _, request => exists tx, tx ∈ b.transactions ∧ Request.ofTransaction tx = .ok request

/-!
## Every errand is made of deliveries
-/

namespace Engine

theorem deliver_delivers (e : Engine) (w : Surroundings σ) {asked : Request -> Prop}
    {request : Request} (hasked : asked request) (deadline : Instant) (world : σ) :
    Delivers w e.settings asked { world := world, registry := e.registry }
      (e.deliver w request deadline world).steps (e.deliver w request deadline world).scene := by
  let only : Delivery σ :=
    { settings := e.settings
      registry := e.registry
      request := request
      deadline := deadline
      world := world }
  have honly : Deliveries w e.settings only.start [only] (only.run w).scene :=
    .next rfl (.none _)
  refine ⟨[only], honly, (List.append_nil _).symm, ?_⟩
  intro d hd
  rw [List.mem_singleton.mp hd]
  exact hasked

theorem submit_delivers (e : Engine) (w : Surroundings σ) (tx : Transaction) (deadline : Instant)
    (world : σ) :
    Delivers w e.settings (fun request => Request.ofTransaction tx = .ok request)
      { world := world, registry := e.registry } (e.submit w tx deadline world).run.steps
      (e.submit w tx deadline world).run.scene := by
  rcases e.submit_cases w tx deadline world with
    ⟨error, _, hrun⟩ | ⟨request, id, hashes, hadmits, hrun⟩
  · rw [hrun]
    exact .refl _
  · rw [hrun]
    exact e.deliver_delivers w hadmits.built deadline world

theorem query_delivers (e : Engine) (w : Surroundings σ) (q : Query) (deadline : Instant)
    (world : σ) :
    Delivers w e.settings (fun request => Request.ofQuery q (e.askedNodes q) = .ok request)
      { world := world, registry := e.registry } (e.query w q deadline world).steps
      (e.query w q deadline world).scene := by
  rcases e.exists_query_eq w q deadline world with ⟨request, hrequest, hrun⟩
  rw [hrun]
  exact e.deliver_delivers w hrequest deadline world

theorem submitEach_delivers (w : Surroundings σ) (timeout : Duration) (index : Nat)
    (txs : List Transaction) (e : Engine) (receipts : List Receipt) (world : σ) :
    Delivers w e.settings
      (fun request => exists tx, tx ∈ txs ∧ Request.ofTransaction tx = .ok request)
      { world := world, registry := e.registry }
      (submitEach w timeout index txs e receipts world).parts.flatten
      (submitEach w timeout index txs e receipts world).scene := by
  induction txs generalizing index e receipts world with
  | nil => exact .refl _
  | cons tx rest ih =>
      have hfirst : forall request, Request.ofTransaction tx = .ok request ->
          exists other, other ∈ tx :: rest ∧ Request.ofTransaction other = .ok request :=
        fun request hrequest => ⟨tx, List.mem_cons_self, hrequest⟩
      have hlater : forall request,
          (exists other, other ∈ rest ∧ Request.ofTransaction other = .ok request) ->
            exists other, other ∈ tx :: rest ∧ Request.ofTransaction other = .ok request :=
        fun request ⟨other, hother, hrequest⟩ =>
          ⟨other, List.mem_cons_of_mem tx hother, hrequest⟩
      apply Delivers.timed
      rcases submitEach_cons w timeout index tx rest e receipts world with
        ⟨hparts, hscene⟩ | ⟨deadline, done, _, hdone, hcourse⟩
      · rw [hparts, hscene]
        exact .refl _
      · have hsubmit := (e.submit_delivers w tx deadline (w.timer world).2).mono hfirst
        rw [← hdone] at hsubmit
        rcases hcourse with ⟨hparts, hscene⟩ | ⟨receipt, next, hnext, hparts, hscene⟩
        · rw [hparts, hscene, List.flatten_singleton]
          exact hsubmit
        · have hrest := (ih (index + 1) { e with registry := done.run.registry }
            (receipts ++ [receipt]) done.run.world).mono hlater
          rw [← hnext] at hrest
          rw [hparts, hscene, List.flatten_cons]
          exact hsubmit.append hrest

theorem submitAll_delivers (e : Engine) (w : Surroundings σ) (b : Batch) (timeout : Duration)
    (world : σ) :
    Delivers w e.settings
      (fun request => exists tx, tx ∈ b.transactions ∧ Request.ofTransaction tx = .ok request)
      { world := world, registry := e.registry } (e.submitAll w b timeout world).parts.flatten
      (e.submitAll w b timeout world).scene := by
  unfold submitAll
  cases firstUnready? 0 b.transactions with
  | none => exact submitEach_delivers w timeout 0 b.transactions e [] world
  | some unready => exact .refl _

end Engine

theorem Errand.delivers (w : Surroundings σ) (registry : Registry) (errand : Errand σ) :
    Delivers w errand.settings (errand.demand.Asks registry.ids) (errand.start registry)
      (errand.run w registry).1 (errand.run w registry).2 := by
  rcases errand with ⟨settings, world, demand⟩
  let e : Engine := { settings := settings, registry := registry }
  cases demand with
  | transaction tx deadline => exact e.submit_delivers w tx deadline world
  | query q deadline => exact e.query_delivers w q deadline world
  | batch b timeout => exact e.submitAll_delivers w b timeout world

end LedgerClient
