import LedgerClient.Proofs.Delivery.Halting
import LedgerClient.Proofs.Delivery.Sending

/-!
# Failover

A delivery gives up only when its attempts are used up, when it has seen that no time is left
or when every candidate has had its turn.  A turn is an attempt, or the candidate is passed
over because it is left alone for at least the time that is left.  Where nothing keeps the
candidates from their turns, the first that does not fail in a way that lets another be tried
decides the delivery.
-/

namespace LedgerClient

variable {σ : Type}

/-!
## Visits
-/

/-- The node whose turn a step is. -/
def Step.visited? : Step → Option NodeId
  | .attempted a => some a.node
  | .skipped node _ _ => some node
  | _ => none

def visitsIn (course : List Step) : List NodeId :=
  course.filterMap Step.visited?

@[simp]
theorem visitsIn_nil : visitsIn [] = [] :=
  rfl

@[simp]
theorem visitsIn_attempted (a : Attempt) (rest : List Step) :
    visitsIn (.attempted a :: rest) = a.node :: visitsIn rest :=
  rfl

@[simp]
theorem visitsIn_skipped (node : NodeId) (backoff left : Duration) (rest : List Step) :
    visitsIn (.skipped node backoff left :: rest) = node :: visitsIn rest :=
  rfl

@[simp]
theorem visitsIn_looked (cancelled : Bool) (rest : List Step) :
    visitsIn (.looked cancelled :: rest) = visitsIn rest :=
  rfl

@[simp]
theorem visitsIn_expired (rest : List Step) : visitsIn (.expired :: rest) = visitsIn rest :=
  rfl

@[simp]
theorem visitsIn_paused (node : NodeId) (length left : Duration) (wake : Wake)
    (rest : List Step) : visitsIn (.paused node length left wake :: rest) = visitsIn rest :=
  rfl

@[simp]
theorem visitsIn_append (xs ys : List Step) :
    visitsIn (xs ++ ys) = visitsIn xs ++ visitsIn ys :=
  List.filterMap_append

theorem Pauses.visitsIn_eq {node : NodeId} {pauses : List Step} (h : Pauses node pauses) :
    visitsIn pauses = [] := by
  induction h with
  | none => rfl
  | one _ _ ih => exact ih

theorem map_node_sublist (course : List Step) :
    ((attemptsIn course).map Attempt.node).Sublist (visitsIn course) := by
  induction course with
  | nil => exact List.Sublist.refl []
  | cons step rest ih =>
      cases step with
      | attempted a => exact ih.cons_cons a.node
      | skipped node backoff left => exact ih.cons node
      | looked cancelled => exact ih
      | expired => exact ih
      | paused node length left wake => exact ih

theorem length_attemptsIn_le (course : List Step) :
    (attemptsIn course).length ≤ (visitsIn course).length := by
  have hlength := (map_node_sublist course).length_le
  rw [List.length_map] at hlength
  exact hlength

theorem visitsIn_of_no_skip {course : List Step}
    (h : forall node backoff left, Step.skipped node backoff left ∉ course) :
    visitsIn course = (attemptsIn course).map Attempt.node := by
  induction course with
  | nil => rfl
  | cons step rest ih =>
      have hrest := ih fun node backoff left hmem =>
        h node backoff left (List.mem_cons_of_mem _ hmem)
      cases step with
      | attempted a => rw [visitsIn_attempted, attemptsIn_attempted, List.map_cons, hrest]
      | skipped node backoff left => exact (h node backoff left (List.mem_cons_self ..)).elim
      | looked cancelled => exact hrest
      | expired => exact hrest
      | paused node length left wake => exact hrest

namespace Progress

variable {settings : DeliverySettings} {request : Request} {maxAttempts : Nat} {node : Node}
  {p p' : Progress σ} {steps : List Step}

/-- A turn visits its candidate and no other; one that lets the next candidate have its turn
does visit it. -/
theorem turn_visits {t : Turn}
    (hturn : TurnCourse settings request maxAttempts node p p' steps t) :
    visitsIn steps <+: [node.id] ∧ (t = .onward -> visitsIn steps = [node.id]) := by
  cases hturn with
  | spent _ => simp
  | withdrawn => simp
  | expired hpauses => simp [hpauses.visitsIn_eq]
  | cancelled hgate =>
      cases hgate with
      | cancelled hpauses _ => simp [hpauses.visitsIn_eq]
  | stillWaiting hgate =>
      cases hgate with
      | stillWaiting hpauses => simp [hpauses.visitsIn_eq]
  | skipped hgate =>
      cases hgate with
      | skipped hpauses _ => simp [hpauses.visitsIn_eq]
  | approached _ hpauses happroach =>
      cases happroach with
      | foreign _ => simp [hpauses.visitsIn_eq]
      | outOfRange => simp [hpauses.visitsIn_eq]
      | discarded ha => simp [hpauses.visitsIn_eq, Attempt.node, ha.node]
      | concluded ha => simp [hpauses.visitsIn_eq, Attempt.node, ha.node]

/-- A turn gives up because the attempts are used up or no time is left. -/
theorem turn_exhausted {attempts : Nat} {nodes : List NodeId} {setback : Option Setback}
    (hcontinues : p.Continues steps p') (hbooked : p.Booked)
    (hturn : TurnCourse settings request maxAttempts node p p' steps
      (.ended (.failed (.deadlineExceeded attempts nodes setback)))) :
    maxAttempts ≤ p'.made.length ∨ Step.expired ∈ p'.course := by
  rw [made_of_continues hcontinues, hcontinues.course]
  generalize hended : Turn.ended (.failed (.deadlineExceeded attempts nodes setback)) = t at hturn
  cases hturn with
  | spent hspent =>
      rw [hbooked.attempts] at hspent
      simp [hspent]
  | expired hpauses => simp
  | withdrawn => cases hended
  | cancelled _ => cases hended
  | stillWaiting _ => cases hended
  | skipped _ => cases hended
  | approached _ _ happroach =>
      cases happroach with
      | foreign _ => cases hended
      | outOfRange => cases hended
      | discarded _ => cases hended
      | @concluded a _ =>
          unfold conclude at hended
          cases houtcome : a.outcome with
          | accepted answer =>
              rw [houtcome] at hended
              cases hended
          | rejected code =>
              rw [houtcome] at hended
              cases hended
          | retryable fault =>
              rw [houtcome] at hended
              cases hended

/-- The candidates are visited in their order.  A pass that gives up has used up the attempts,
has seen that no time is left or has visited all of them. -/
theorem visit_visits (w : Surroundings σ) (settings : DeliverySettings) (request : Request)
    (deadline : Instant) (maxAttempts : Nat) (candidates : List Node) (hbooked : p.Booked) :
    exists front,
      visitsIn (visit w settings request deadline maxAttempts candidates p).2.course =
          visitsIn p.course ++ front ∧
        front <+: candidates.map Node.id ∧
        forall attempts nodes setback,
          (visit w settings request deadline maxAttempts candidates p).1 =
              .failed (.deadlineExceeded attempts nodes setback) ->
            maxAttempts ≤
                (visit w settings request deadline maxAttempts candidates p).2.made.length ∨
              Step.expired ∈
                (visit w settings request deadline maxAttempts candidates p).2.course ∨
              front = candidates.map Node.id := by
  induction candidates generalizing p with
  | nil =>
      refine ⟨[], (List.append_nil _).symm, List.prefix_refl [], ?_⟩
      intro _ _ _ _
      exact Or.inr (Or.inr rfl)
  | cons node rest ih =>
      rcases turn_course w settings request deadline maxAttempts node rest.isEmpty p with
        ⟨steps, hcontinues, hturn⟩
      unfold visit
      rcases hresult : p.turn w settings request deadline maxAttempts node rest.isEmpty with
        ⟨t, p'⟩
      rw [hresult] at hcontinues hturn
      rcases turn_visits hturn with ⟨hone, honward⟩
      have hcourse : visitsIn p'.course = visitsIn p.course ++ visitsIn steps := by
        rw [hcontinues.course, visitsIn_append]
      cases t with
      | ended ending =>
          refine ⟨visitsIn steps, hcourse, hone.trans (List.prefix_append [node.id] _), ?_⟩
          intro attempts nodes setback hending
          dsimp only at hending
          rw [hending] at hturn
          rcases turn_exhausted hcontinues hbooked hturn with hspent | hexpired
          · exact Or.inl hspent
          · exact Or.inr (Or.inl hexpired)
      | onward =>
          rcases ih (hcontinues.booked hbooked) with ⟨front, hfront, hinOrder, hexhausted⟩
          refine ⟨node.id :: front, ?_, List.cons_prefix_cons.mpr ⟨rfl, hinOrder⟩, ?_⟩
          · rw [hfront, hcourse, honward rfl, List.append_assoc]
            rfl
          · intro attempts nodes setback hending
            rcases hexhausted attempts nodes setback hending with hspent | hexpired | hall
            · exact Or.inl hspent
            · exact Or.inr (Or.inl hexpired)
            · right
              right
              rw [hall, List.map_cons]

end Progress

/-!
## Courses without hindrance
-/

/-- Whether a step shows something that keeps a candidate from its turn: that the caller has
cancelled, that no time is left, or that a node is left alone. -/
def Step.hinders : Step → Bool
  | .looked cancelled => cancelled
  | .attempted _ => false
  | _ => true

section

variable {course : List Step}

theorem visitsIn_of_unhindered (h : forall step, step ∈ course -> step.hinders = false) :
    visitsIn course = (attemptsIn course).map Attempt.node := by
  apply visitsIn_of_no_skip
  intro node backoff left hskipped
  have hhinders := h _ hskipped
  cases hhinders

theorem showsCancelled_of_unhindered (h : forall step, step ∈ course -> step.hinders = false) :
    course.any Step.showsCancelled = false := by
  rw [List.any_eq_false]
  intro step hstep
  have hhinders := h step hstep
  cases step with
  | attempted a => simp
  | looked cancelled => simpa [Step.hinders] using hhinders
  | expired => cases hhinders
  | paused node length left wake => cases hhinders
  | skipped node backoff left => cases hhinders

theorem not_endsWaiting_of_unhindered (h : forall step, step ∈ course -> step.hinders = false)
    {count : Nat} (hcount : 0 < count) : ¬ Progress.EndsWaiting course count := by
  intro hwaiting
  rcases hwaiting with ⟨earlier, node, pauses, hcourse, hpauses, hlength⟩
  cases hpauses with
  | none =>
      rw [← hlength] at hcount
      exact Nat.lt_irrefl 0 hcount
  | @one rest length left _ _ =>
      have hmem : Step.paused node length left .elapsed ∈ course := by simp [hcourse]
      have hhinders := h _ hmem
      cases hhinders

end

/-!
## Deliveries
-/

/-- The first candidate in order that does not fail retryably decides a delivery, and if there
is none, all of them have been tried. -/
inductive FirstDecides (ranked : List Node) (run : Run σ Response) : Prop where
  | answered {before : List Attempt} {a : Attempt} {payload : Bytes} :
      run.attempts = before ++ [a] ->
      run.attempts.map Attempt.node <+: ranked.map Node.id ->
      (forall b, b ∈ before -> exists fault, b.outcome = .retryable fault) ->
      a.outcome = .accepted payload ->
      run.ending = .answered ⟨a.node, payload, run.attempts.length⟩ ->
      FirstDecides ranked run
  | rejected {before : List Attempt} {a : Attempt} {code : PrecheckCode} :
      run.attempts = before ++ [a] ->
      run.attempts.map Attempt.node <+: ranked.map Node.id ->
      (forall b, b ∈ before -> exists fault, b.outcome = .retryable fault) ->
      a.outcome = .rejected code ->
      run.ending = .failed (.precheck a.node code) ->
      FirstDecides ranked run
  | none (setback : Option Setback) :
      run.attempts.map Attempt.node = ranked.map Node.id ->
      (forall b, b ∈ run.attempts -> exists fault, b.outcome = .retryable fault) ->
      run.ending = .failed (.deadlineExceeded run.attempts.length
        (run.attempts.map Attempt.node) setback) ->
      FirstDecides ranked run

/-- An unhindered course ends with the first decision or with the last candidate. -/
theorem firstDecides_of_concludes {ranked : List Node} {request : Request}
    {run : Run σ Response} (hconcludes : Concludes request run.steps run.ending)
    (hfree : forall step, step ∈ run.steps -> step.hinders = false)
    (hinOrder : visitsIn run.steps <+: ranked.map Node.id)
    (hexhausted : forall attempts nodes setback,
      run.ending = .failed (.deadlineExceeded attempts nodes setback) ->
        visitsIn run.steps = ranked.map Node.id)
    (hforeign : forall node, run.ending ≠ .failed (.transaction (.foreignNode node)))
    (hhalted : forall halt, run.ending ≠ .halted halt) : FirstDecides ranked run := by
  have hquiet := showsCancelled_of_unhindered hfree
  rw [visitsIn_of_unhindered hfree] at hinOrder hexhausted
  have hattempts : run.attempts = attemptsIn run.steps := rfl
  rw [← hattempts] at hinOrder hexhausted
  generalize hsteps : run.steps = steps at hconcludes hquiet hattempts
  generalize hending : run.ending = ending at hconcludes hexhausted hforeign hhalted
  cases hconcludes with
  | @answered earlier a payload hundecided _ houtcome =>
      have hall : run.attempts = attemptsIn earlier ++ [a] := by simp [hattempts]
      apply FirstDecides.answered hall hinOrder _ houtcome
      · rw [hending, hall, List.length_append, List.length_singleton]
      · exact fun b hb => retryable_of_undecided hundecided hb
  | @rejected earlier a code hundecided houtcome =>
      have hall : run.attempts = attemptsIn earlier ++ [a] := by simp [hattempts]
      exact .rejected hall hinOrder (fun b hb => retryable_of_undecided hundecided hb) houtcome
        hending
  | discarded _ => simp at hquiet
  | withdrawn _ => simp at hquiet
  | interrupted _ => simp at hquiet
  | exhausted hundecided =>
      have hall := hexhausted _ _ _ rfl
      rw [← hattempts] at hending
      refine .none _ hall ?_ hending
      rw [hattempts]
      exact fun b hb => retryable_of_undecided hundecided hb
  | foreign _ _ _ => exact (hforeign _ rfl).elim
  | halted halt _ => exact (hhalted halt rfl).elim

/-- What a delivery from `start` does to find a candidate that decides it. -/
structure FailsOver (e : Engine) (w : Surroundings σ) (request : Request) (deadline : Instant)
    (start : Scene σ) (ranked : List Node) (run : Run σ Response) : Prop where
  inOrder : visitsIn run.steps <+: ranked.map Node.id
  /-- Each step was called for by what was read right before it. -/
  warranted : forall before step after, run.steps = before ++ step :: after ->
    exists m c d, Passage w start before m ∧ Warranted w e.settings deadline m step c ∧
      Makes w c step d ∧ Passage w d after run.scene
  exhausted : forall attempts nodes setback,
    run.ending = .failed (.deadlineExceeded attempts nodes setback) ->
      (exists max, e.settings.maxAttempts = some max ∧ run.attempts.length = max.toNat) ∨
      Step.expired ∈ run.steps ∨
      visitsIn run.steps = ranked.map Node.id ∧
        forall a, a ∈ run.attempts -> exists fault, a.outcome = .retryable fault
  unskipped : e.settings.waitForUnhealthy = false ->
    forall node backoff left, Step.skipped node backoff left ∉ run.steps
  unhindered : e.settings.validate = .ok () -> deadline.InRange -> 0 < w.patience ->
    request.Built -> e.settings.maxAttempts = none ->
    (forall step, step ∈ run.steps -> step.hinders = false) -> FirstDecides ranked run

namespace Engine

variable {e : Engine} {w : Surroundings σ} {request : Request} {deadline : Instant} {world : σ}
  {candidates : List Node}

theorem deliver_visits (hcandidates : e.registry.candidates request.nodes = .ok candidates)
    (w : Surroundings σ) (deadline : Instant) (world : σ) :
    visitsIn (e.deliver w request deadline world).steps <+:
        (Ranking.rank (w.clock world).1 candidates).map Node.id ∧
      forall attempts nodes setback,
        (e.deliver w request deadline world).ending =
            .failed (.deadlineExceeded attempts nodes setback) ->
          e.maxAttempts (Ranking.rank (w.clock world).1 candidates) ≤
              (e.deliver w request deadline world).attempts.length ∨
            Step.expired ∈ (e.deliver w request deadline world).steps ∨
            visitsIn (e.deliver w request deadline world).steps =
              (Ranking.rank (w.clock world).1 candidates).map Node.id := by
  have hbooked := Progress.booked_start e.registry (w.clock world).2
  rcases Progress.visit_visits w e.settings request deadline
    (e.maxAttempts (Ranking.rank (w.clock world).1 candidates))
    (Ranking.rank (w.clock world).1 candidates) hbooked with
    ⟨front, hfront, hinOrder, hexhausted⟩
  have hstart : (Progress.start e.registry (w.clock world).2).course = [] := rfl
  rw [hstart, visitsIn_nil, List.nil_append] at hfront
  rw [← hfront] at hinOrder hexhausted
  simp only [deliver, hcandidates]
  exact ⟨hinOrder, hexhausted⟩

theorem deliver_exhausted (hcandidates : e.registry.candidates request.nodes = .ok candidates)
    {attempts : Nat} {nodes : List NodeId} {setback : Option Setback}
    (hending : (e.deliver w request deadline world).ending =
      .failed (.deadlineExceeded attempts nodes setback)) :
    (exists max, e.settings.maxAttempts = some max ∧
        (e.deliver w request deadline world).attempts.length = max.toNat) ∨
      Step.expired ∈ (e.deliver w request deadline world).steps ∨
      visitsIn (e.deliver w request deadline world).steps =
        (Ranking.rank (w.clock world).1 candidates).map Node.id := by
  rcases deliver_visits hcandidates w deadline world with ⟨hinOrder, hexhausted⟩
  rcases hexhausted attempts nodes setback hending with hspent | hexpired | hall
  · cases hmax : e.settings.maxAttempts with
    | some max =>
        left
        have hwithin := deliver_within hcandidates w deadline world hmax
        simp only [maxAttempts, hmax] at hspent
        exact ⟨max, rfl, Nat.le_antisymm hwithin hspent⟩
    | none =>
        -- Without a limit there are as many attempts as candidates, so all were visited.
        right
        right
        simp only [maxAttempts, hmax] at hspent
        apply hinOrder.eq_of_length_le
        rw [List.length_map]
        exact Nat.le_trans hspent (length_attemptsIn_le _)
  · exact Or.inr (Or.inl hexpired)
  · exact Or.inr (Or.inr hall)

theorem deliver_retryable (hcandidates : e.registry.candidates request.nodes = .ok candidates)
    {attempts : Nat} {nodes : List NodeId} {setback : Option Setback}
    (hending : (e.deliver w request deadline world).ending =
      .failed (.deadlineExceeded attempts nodes setback)) :
    forall a, a ∈ (e.deliver w request deadline world).attempts ->
      exists fault, a.outcome = .retryable fault := by
  have hconcludes := deliver_concludes hcandidates w deadline world
  rw [hending] at hconcludes
  rcases exhausted_of_concludes hconcludes with ⟨_, _, _, hundecided⟩
  exact fun a ha => retryable_of_undecided hundecided ha

theorem deliver_firstDecides
    (hcandidates : e.registry.candidates request.nodes = .ok candidates)
    (hvalid : e.settings.validate = .ok ()) (hdeadline : deadline.InRange)
    (hpatience : 0 < w.patience) (hbuilt : request.Built) (hlimit : e.settings.maxAttempts = none)
    (hfree : forall step, step ∈ (e.deliver w request deadline world).steps ->
      step.hinders = false) :
    FirstDecides (Ranking.rank (w.clock world).1 candidates)
      (e.deliver w request deadline world) := by
  apply firstDecides_of_concludes (deliver_concludes hcandidates w deadline world) hfree
  · exact (deliver_visits hcandidates w deadline world).left
  · intro attempts nodes setback hending
    rcases deliver_exhausted hcandidates hending with ⟨max, hmax, _⟩ | hexpired | hall
    · rw [hlimit] at hmax
      cases hmax
    · have hhinders := hfree _ hexpired
      cases hhinders
    · exact hall
  · exact deliver_ne_foreign hbuilt w deadline world
  · intro halt hending
    rcases deliver_halted hvalid hdeadline hending with ⟨_, hwaiting⟩
    exact not_endsWaiting_of_unhindered hfree hpatience hwaiting

theorem deliver_warrantedAt {before after : List Step} {step : Step}
    (hsteps : (e.deliver w request deadline world).steps = before ++ step :: after) :
    exists m c d, Passage w { world := world, registry := e.registry } before m ∧
      Warranted w e.settings deadline m step c ∧ Makes w c step d ∧
      Passage w d after (e.deliver w request deadline world).scene := by
  have hguarded := e.deliver_warranted w request deadline world
  rw [hsteps] at hguarded
  rcases hguarded.at_step with ⟨m, c, d, hbefore, hwarranted, hmakes, hafter⟩
  have hread : forall m step c, Warranted w e.settings deadline m step c -> Passage w m [] c :=
    fun _ _ _ h => h.passage
  exact ⟨m, c, d, .of_guarded hread hbefore, hwarranted, hmakes, .of_guarded hread hafter⟩

theorem failsOver_of_candidates
    (hcandidates : e.registry.candidates request.nodes = .ok candidates) :
    FailsOver e w request deadline { world := world, registry := e.registry }
      (Ranking.rank (w.clock world).1 candidates) (e.deliver w request deadline world) where
  inOrder := (deliver_visits hcandidates w deadline world).left
  warranted := fun _ _ _ hsteps => deliver_warrantedAt hsteps
  exhausted := by
    intro attempts nodes setback hending
    rcases deliver_exhausted hcandidates hending with hspent | hexpired | hall
    · exact Or.inl hspent
    · exact Or.inr (Or.inl hexpired)
    · exact Or.inr (Or.inr ⟨hall, deliver_retryable hcandidates hending⟩)
  unskipped := by
    intro hwait node backoff left hskipped
    rcases List.append_of_mem hskipped with ⟨before, after, hsteps⟩
    rcases deliver_warrantedAt hsteps with ⟨m, c, d, _, hwarranted, _, _⟩
    cases hwarranted with
    | skipped hwaiting _ _ _ =>
        rw [hwait] at hwaiting
        cases hwaiting
  unhindered := deliver_firstDecides hcandidates

/-- A delivery gives up only when its attempts are used up, when it has seen that no time is left
or when every candidate was tried in vain or passed over with good reason.  If nothing keeps the
candidates from their turns, the first that does not fail retryably decides it. -/
theorem deliver_failsOver (e : Engine) (w : Surroundings σ) (request : Request)
    (deadline : Instant) (world : σ) :
    match e.registry.candidates request.nodes with
    | .error error => e.deliver w request deadline world = e.refuse error world
    | .ok candidates =>
        FailsOver e w request deadline { world := world, registry := e.registry }
          (Ranking.rank (w.clock world).1 candidates) (e.deliver w request deadline world) := by
  cases hcandidates : e.registry.candidates request.nodes with
  | error error => exact deliver_eq_refuse hcandidates w deadline world
  | ok candidates => exact failsOver_of_candidates hcandidates

end Engine

/-!
## A node that is busy
-/

def twoNodes : List Node :=
  [soleNode, .new ⟨4⟩ "10.0.0.4:50211" Health.defaultMinBackoff Health.defaultMaxBackoff]

def twoNodesEngine : Engine :=
  { settings :=
      { transport := .plaintext
        maxAttempts := none
        attemptShare := .ofRatio 1 2
        waitForUnhealthy := true }
    registry :=
      { nodes := twoNodes
        nodes_ne_nil := by decide
        ids_nodup := by decide
        addresses_nodup := by decide } }

/-- One node is busy and all others answer. -/
def busyAt (node : NodeId) : Surroundings Unit where
  timer s := (⟨0⟩, s)
  clock s := (0, s)
  isCancelled s := (false, s)
  pause _ s := (.elapsed, [], s)
  exchange call _ s :=
    let reply : NodeResponse := if call.node = node then ⟨.busy, []⟩ else ⟨.ok, [7]⟩
    (.received (NodeResponse.codec.encode reply), [], s)
  nonce s := (0, s)
  patience := 1

def twoNodesRequest : Request :=
  { subject := .query
    method := .accountBalance
    nodes := twoNodes.map Node.id
    payloads := [[1], [1]] }

def busyRun : Run Unit Response :=
  twoNodesEngine.deliver (busyAt ⟨3⟩) twoNodesRequest (Instant.ofMillis 1000) ()

theorem candidates_twoNodes :
    twoNodesEngine.registry.candidates twoNodesRequest.nodes = .ok twoNodes := by
  decide +kernel

theorem rank_twoNodes : Ranking.rank 0 twoNodes = twoNodes := by
  apply List.mergeSort_of_pairwise
  simp only [twoNodes, List.pairwise_cons, List.mem_singleton, forall_eq]
  exact ⟨by decide +kernel, by simp⟩

/-- The pass over the two nodes, which are ranked as they stand. -/
theorem busyRun_eq :
    busyRun.ending = .answered ⟨⟨4⟩, [7], 2⟩ ∧
      forall step, step ∈ busyRun.steps -> step.hinders = false := by
  have hclock : ((busyAt ⟨3⟩).clock ()).1 = 0 := rfl
  simp only [busyRun, Engine.deliver, candidates_twoNodes, hclock, rank_twoNodes]
  decide +kernel

theorem busyRun_firstDecides :
    busyRun.ending = .answered ⟨⟨4⟩, [7], 2⟩ ∧
      FirstDecides (Ranking.rank 0 twoNodes) busyRun := by
  have hfailsOver := twoNodesEngine.deliver_failsOver (busyAt ⟨3⟩) twoNodesRequest
    (Instant.ofMillis 1000) ()
  rw [candidates_twoNodes] at hfailsOver
  refine ⟨busyRun_eq.left, hfailsOver.unhindered ?_ ?_ ?_ ?_ rfl busyRun_eq.right⟩
  · decide +kernel
  · decide
  · decide
  · exact .query ⟨.accountBalance, [1], []⟩ (twoNodes.map Node.id) rfl

end LedgerClient
