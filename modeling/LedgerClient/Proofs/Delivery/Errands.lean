import LedgerClient.Proofs.Delivery.Accounting
import LedgerClient.Proofs.Delivery.Sending

/-!
# Requests in a row

Transactions, queries and batches are requested one after the other through one registry, each
with its own settings and in surroundings of its own.  Each of them is a passage, so the
accounts of a node add up over all of them.
-/

namespace LedgerClient

variable {σ : Type}

inductive Demand where
  | transaction (tx : Transaction) (deadline : Instant)
  | query (q : Query) (deadline : Instant)
  | batch (b : Batch) (timeout : Duration)

/-- Something to be done, with the settings for it and the state of the surroundings at its start. -/
structure Errand (σ : Type) where
  settings : DeliverySettings
  world : σ
  demand : Demand

namespace Errand

def start (errand : Errand σ) (registry : Registry) : Scene σ :=
  { world := errand.world, registry := registry }

/-- The steps made for an errand and the scene it leaves behind. -/
def run (w : Surroundings σ) (registry : Registry) (errand : Errand σ) : List Step × Scene σ :=
  let e : Engine := { settings := errand.settings, registry := registry }
  match errand.demand with
  | .transaction tx deadline =>
      let done := e.submit w tx deadline errand.world
      (done.run.steps, done.run.scene)
  | .query q deadline =>
      let run := e.query w q deadline errand.world
      (run.steps, run.scene)
  | .batch b timeout =>
      let done := e.submitAll w b timeout errand.world
      (done.parts.flatten, { world := done.world, registry := done.registry })

end Errand

/-!
## Errands are passages
-/

/-- The scene a batch leaves behind. -/
def BatchRun.scene (done : BatchRun σ) : Scene σ :=
  { world := done.world, registry := done.registry }

namespace Engine

theorem query_passage (e : Engine) (w : Surroundings σ) (q : Query) (deadline : Instant)
    (world : σ) :
    Passage w { world := world, registry := e.registry } (e.query w q deadline world).steps
      (e.query w q deadline world).scene := by
  rcases e.exists_query_eq w q deadline world with ⟨request, _, hrun⟩
  rw [hrun]
  exact e.deliver_passage w request deadline world

/-- A batch comes to nothing, ends with its first transaction or goes on after it. -/
theorem submitEach_cons (w : Surroundings σ) (timeout : Duration) (index : Nat) (tx : Transaction)
    (rest : List Transaction) (e : Engine) (receipts : List Receipt) (world : σ) :
    (submitEach w timeout index (tx :: rest) e receipts world).parts = [] ∧
        (submitEach w timeout index (tx :: rest) e receipts world).scene =
          { world := (w.timer world).2, registry := e.registry } ∨
      exists deadline done, (w.timer world).1.plus? timeout = some deadline ∧
        done = e.submit w tx deadline (w.timer world).2 ∧
        ((submitEach w timeout index (tx :: rest) e receipts world).parts = [done.run.steps] ∧
            (submitEach w timeout index (tx :: rest) e receipts world).scene = done.run.scene ∨
          exists receipt next,
            next = submitEach w timeout (index + 1) rest { e with registry := done.run.registry }
              (receipts ++ [receipt]) done.run.world ∧
            (submitEach w timeout index (tx :: rest) e receipts world).parts =
              done.run.steps :: next.parts ∧
            (submitEach w timeout index (tx :: rest) e receipts world).scene = next.scene) := by
  cases hdeadline : (w.timer world).1.plus? timeout with
  | none =>
      left
      simp [submitEach, hdeadline, BatchRun.scene]
  | some deadline =>
      right
      refine ⟨deadline, _, rfl, rfl, ?_⟩
      simp only [submitEach, hdeadline]
      generalize e.submit w tx deadline (w.timer world).2 = done
      cases done.run.ending with
      | halted halt => exact Or.inl ⟨rfl, rfl⟩
      | failed error => exact Or.inl ⟨rfl, rfl⟩
      | answered receipt => exact Or.inr ⟨receipt, _, rfl, rfl, rfl⟩

theorem submitEach_passage (w : Surroundings σ) (timeout : Duration) (index : Nat)
    (txs : List Transaction) (e : Engine) (receipts : List Receipt) (world : σ) :
    Passage w { world := world, registry := e.registry }
      (submitEach w timeout index txs e receipts world).parts.flatten
      (submitEach w timeout index txs e receipts world).scene := by
  induction txs generalizing index e receipts world with
  | nil => exact .done _
  | cons tx rest ih =>
      apply Passage.timed
      rcases submitEach_cons w timeout index tx rest e receipts world with
        ⟨hparts, hscene⟩ | ⟨deadline, done, _, hdone, hcourse⟩
      · rw [hparts, hscene]
        exact .done _
      · have hsubmit := e.submit_passage w tx deadline (w.timer world).2
        rw [← hdone] at hsubmit
        rcases hcourse with ⟨hparts, hscene⟩ | ⟨receipt, next, hnext, hparts, hscene⟩
        · rw [hparts, hscene, List.flatten_singleton]
          exact hsubmit
        · have hrest := ih (index + 1) { e with registry := done.run.registry }
            (receipts ++ [receipt]) done.run.world
          rw [← hnext] at hrest
          rw [hparts, hscene, List.flatten_cons]
          exact hsubmit.append hrest

theorem submitAll_passage (e : Engine) (w : Surroundings σ) (b : Batch) (timeout : Duration)
    (world : σ) :
    Passage w { world := world, registry := e.registry }
      (e.submitAll w b timeout world).parts.flatten (e.submitAll w b timeout world).scene := by
  unfold submitAll
  cases firstUnready? 0 b.transactions with
  | none => exact submitEach_passage w timeout 0 b.transactions e [] world
  | some unready => exact .done _

end Engine

theorem Errand.passage (w : Surroundings σ) (registry : Registry) (errand : Errand σ) :
    Passage w (errand.start registry) (errand.run w registry).1 (errand.run w registry).2 := by
  rcases errand with ⟨settings, world, demand⟩
  let e : Engine := { settings := settings, registry := registry }
  cases demand with
  | transaction tx deadline => exact e.submit_passage w tx deadline world
  | query q deadline => exact e.query_passage w q deadline world
  | batch b timeout => exact e.submitAll_passage w b timeout world

/-!
## Errands are done at registered nodes
-/

theorem Call.Brings.registered {call : Call} {registry : Registry} {method : Method}
    {payload : Bytes} (h : call.Brings registry method payload) : call.node ∈ registry.ids := by
  rcases h.node with ⟨n, hget, _⟩
  exact Registry.mem_ids_of_get? hget

namespace Engine

theorem submit_registered (e : Engine) (w : Surroundings σ) (tx : Transaction)
    (deadline : Instant) (world : σ) {a : Attempt}
    (ha : a ∈ attemptsIn (e.submit w tx deadline world).run.steps) : a.node ∈ e.registry.ids := by
  rcases e.submit_brings w tx deadline world ha with ⟨p, _, hbrings⟩
  exact hbrings.registered

theorem submitEach_registered (w : Surroundings σ) (timeout : Duration) (index : Nat)
    (txs : List Transaction) (e : Engine) (receipts : List Receipt) (world : σ) {a : Attempt}
    (ha : a ∈ attemptsIn (submitEach w timeout index txs e receipts world).parts.flatten) :
    a.node ∈ e.registry.ids := by
  induction txs generalizing index e receipts world with
  | nil => cases ha
  | cons tx rest ih =>
      rcases submitEach_cons w timeout index tx rest e receipts world with
        ⟨hparts, _⟩ | ⟨deadline, done, _, hdone, hcourse⟩
      · rw [hparts] at ha
        cases ha
      · have hsubmit := @submit_registered σ e w tx deadline (w.timer world).2 a
        have hids := (e.submit_passage w tx deadline (w.timer world).2).ids
        rw [← hdone] at hsubmit hids
        rcases hcourse with ⟨hparts, _⟩ | ⟨receipt, next, hnext, hparts, _⟩
        · rw [hparts, List.flatten_singleton] at ha
          exact hsubmit ha
        · rw [hparts, List.flatten_cons, attemptsIn_append, List.mem_append, hnext] at ha
          rcases ha with hfirst | hother
          · exact hsubmit hfirst
          · rw [← hids]
            exact ih (index + 1) { e with registry := done.run.registry } (receipts ++ [receipt])
              done.run.world hother

theorem submitAll_registered (e : Engine) (w : Surroundings σ) (b : Batch) (timeout : Duration)
    (world : σ) {a : Attempt} (ha : a ∈ attemptsIn (e.submitAll w b timeout world).parts.flatten) :
    a.node ∈ e.registry.ids := by
  unfold submitAll at ha
  cases hunready : firstUnready? 0 b.transactions with
  | none =>
      rw [hunready] at ha
      exact submitEach_registered w timeout 0 b.transactions e [] world ha
  | some unready =>
      rw [hunready] at ha
      cases ha

end Engine

theorem Errand.registered (w : Surroundings σ) (registry : Registry) (errand : Errand σ)
    {a : Attempt} (ha : a ∈ attemptsIn (errand.run w registry).1) : a.node ∈ registry.ids := by
  rcases errand with ⟨settings, world, demand⟩
  let e : Engine := { settings := settings, registry := registry }
  cases demand with
  | transaction tx deadline => exact e.submit_registered w tx deadline world ha
  | query q deadline => exact ((e.query_brings w q deadline world).left a ha).registered
  | batch b timeout => exact e.submitAll_registered w b timeout world ha

/-!
## One after the other
-/

/-- Runs errands, each with the records that the one before it left. -/
def Errand.runAll (w : Surroundings σ) : Registry → List (Errand σ) → List Step × Registry
  | registry, [] => ([], registry)
  | registry, errand :: rest =>
      let (steps, left) := errand.run w registry
      let (others, last) := runAll w left.registry rest
      (steps ++ others, last)

theorem Errand.runAll_registered (w : Surroundings σ) (registry : Registry)
    (errands : List (Errand σ)) {a : Attempt}
    (ha : a ∈ attemptsIn (Errand.runAll w registry errands).1) : a.node ∈ registry.ids := by
  induction errands generalizing registry with
  | nil => cases ha
  | cons errand rest ih =>
      simp only [Errand.runAll, attemptsIn_append] at ha
      rcases List.mem_append.mp ha with hfirst | hother
      · exact errand.registered w registry hfirst
      · have hids : (errand.run w registry).2.registry.ids = registry.ids :=
          (errand.passage w registry).ids
        rw [← hids]
        exact ih _ hother

/-- What others did to the records while errands were run. -/
inductive Overlaps (w : Surroundings σ) :
    Registry -> List (Errand σ) -> List Happening -> Prop where
  | none (registry : Registry) : Overlaps w registry [] []
  | next {registry : Registry} {errand : Errand σ} {rest : List (Errand σ)}
      {during others : List Happening} :
      Chronicle w (errand.start registry) (errand.run w registry).1 during
        (errand.run w registry).2 ->
      Overlaps w (errand.run w registry).2.registry rest others ->
      Overlaps w registry (errand :: rest) (during ++ others)

namespace Overlaps

variable {w : Surroundings σ} {registry : Registry} {errands : List (Errand σ)}
  {others : List Happening}

theorem exists_of_list (w : Surroundings σ) (registry : Registry) (errands : List (Errand σ)) :
    exists others, Overlaps w registry errands others := by
  induction errands generalizing registry with
  | nil => exact ⟨[], .none registry⟩
  | cons errand rest ih =>
      rcases (errand.passage w registry).chronicle with ⟨during, hduring⟩
      rcases ih (errand.run w registry).2.registry with ⟨others, hrest⟩
      exact ⟨during ++ others, .next hduring hrest⟩

theorem nil_of_alone (h : Overlaps w registry errands others) (halone : w.Alone) :
    others = [] := by
  induction h with
  | none registry => rfl
  | next hduring _ ih => rw [halone.chronicle hduring, ih, List.nil_append]

theorem accounts (h : Overlaps w registry errands others) {node : NodeId}
    (hnode : node ∈ registry.ids) (hkept : Health.Event.forgotten ∉ eventsAt node others) :
    Accounts (registry.health node) ((Errand.runAll w registry errands).2.health node)
      (attemptsAt node (attemptsIn (Errand.runAll w registry errands).1))
      (eventsAt node others) := by
  induction h with
  | none registry => exact .refl _
  | @next registry errand rest during others hduring _ ih =>
      rw [eventsAt_append, List.mem_append, not_or] at hkept
      have hnext : node ∈ (errand.run w registry).2.registry.ids := by
        rw [hduring.ids]
        exact hnode
      have hboth := (hduring.accounts hnode hkept.left).trans (ih hnext hkept.right)
      simp only [Errand.runAll, attemptsIn_append, attemptsAt, List.filter_append,
        eventsAt_append]
      exact hboth

end Overlaps

/-- All attempts are made at registered nodes, and the accounts of such a node add up over any
errands.  A rejection on the way changes the record of its node by a use and by nothing else. -/
theorem errands_account (w : Surroundings σ) (registry : Registry) (errands : List (Errand σ)) :
    (forall a, a ∈ attemptsIn (Errand.runAll w registry errands).1 -> a.node ∈ registry.ids) ∧
    (exists others, Overlaps w registry errands others) ∧
    (forall others, Overlaps w registry errands others ->
      (w.Alone -> others = []) ∧
      forall node, node ∈ registry.ids -> Health.Event.forgotten ∉ eventsAt node others ->
        Accounts (registry.health node) ((Errand.runAll w registry errands).2.health node)
          (attemptsAt node (attemptsIn (Errand.runAll w registry errands).1))
          (eventsAt node others)) ∧
    forall (start : Registry) (errand : Errand σ) (before after : List Step) (a : Attempt)
      (code : PrecheckCode), (errand.run w start).1 = before ++ .attempted a :: after ->
      a.outcome = .rejected code ->
      exists c d, Passage w (errand.start start) before c ∧ Makes w c (.attempted a) d ∧
        Passage w d after (errand.run w start).2 ∧
        d.registry =
          (c.registry.record a.node (.used a.usedAt)).meanwhile
            (c.meantime w (.attempted a)) := by
  refine ⟨?_, Overlaps.exists_of_list w registry errands, ?_, ?_⟩
  · intro a ha
    exact Errand.runAll_registered w registry errands ha
  · intro others h
    exact ⟨h.nil_of_alone, fun node hnode hkept => h.accounts hnode hkept⟩
  · intro start errand before after a code hsteps hrejected
    have hpassage := errand.passage w start
    rw [hsteps] at hpassage
    rcases hpassage.at_step with ⟨c, d, hbefore, hmakes, hafter⟩
    exact ⟨c, d, hbefore, hmakes, hafter, hmakes.rejected hrejected⟩

/-!
## A lost answer and a rejection
-/

def lostErrand : Errand Bool :=
  { settings := soleEngine.settings
    world := false
    demand := .transaction soleTransfer (Instant.ofMillis 10000) }

def rejectedErrand : Errand Bool :=
  { settings := soleEngine.settings
    world := true
    demand := .query ⟨.accountBalance, [], []⟩ (Instant.ofMillis 10000) }

theorem lossy_alone : lossy.Alone where
  pause := fun _ _ => rfl
  exchange := by
    intro call limit s
    cases s with
    | false => rfl
    | true => rfl

theorem lostErrand_account :
    lossy.Alone ∧ (⟨3⟩ : NodeId) ∈ soleEngine.registry.ids ∧
      Overlaps lossy soleEngine.registry [lostErrand, rejectedErrand] [] ∧
      ((Errand.runAll lossy soleEngine.registry [lostErrand, rejectedErrand]).2.health
        ⟨3⟩).useCount = 2 ∧
      ((Errand.runAll lossy soleEngine.registry [lostErrand, rejectedErrand]).2.health
        ⟨3⟩).failureCount = 1 := by
  rcases errands_account lossy soleEngine.registry [lostErrand, rejectedErrand] with
    ⟨_, ⟨others, hoverlaps⟩, haccounts, _⟩
  rcases haccounts others hoverlaps with ⟨hothers, hnodes⟩
  have hnone := hothers lossy_alone
  subst hnone
  have hnode : (⟨3⟩ : NodeId) ∈ soleEngine.registry.ids := by decide
  have haccount := hnodes ⟨3⟩ hnode (by decide)
  refine ⟨lossy_alone, hnode, hoverlaps, ?_, ?_⟩
  · rw [haccount.used]
    decide +kernel
  · rw [haccount.failed]
    decide +kernel

end LedgerClient
