import LedgerClient.Proofs.Delivery.Pass
import LedgerClient.Proofs.Node.Candidates

/-!
# What the result of a delivery says

The result of a delivery and the nodes that were tried belong together: an answer or a
rejection is that of the last attempt, everything before it failed in a way that lets
another node be tried, and the report of a failure lists exactly what was done.
-/

namespace LedgerClient

/-!
## The last setback
-/

def skippedIn (course : List Step) : List NodeId :=
  course.filterMap fun step =>
    match step with
    | .skipped node _ _ => some node
    | _ => none

/-- A failed attempt hides what was before it; a node passed over counts only if nothing else
has gone wrong yet. -/
theorem setbackAfter_of_undecided {course : List Step} (h : Undecided course) :
    (forall a, (attemptsIn course).getLast? = some a ->
        exists fault, a.outcome = .retryable fault ∧
          setbackAfter course = some (.failed fault)) ∧
      (attemptsIn course = [] ->
        setbackAfter course = (skippedIn course).head?.map .inBackoff) := by
  induction course using List.reverseRecOn with
  | nil => simp [setbackAfter, skippedIn]
  | append_singleton earlier step ih =>
      have hboth := undecided_append.mp h
      rcases ih hboth.left with ⟨hlast, hnone⟩
      rw [setbackAfter_concat]
      cases step with
      | attempted a =>
          have hdecisive : Step.isDecisive (.attempted a) = false :=
            (undecided_cons.mp hboth.right).left
          constructor
          · intro b hb
            have hab : a = b := by simpa using hb
            subst hab
            cases houtcome : a.outcome with
            | retryable fault => exact ⟨fault, rfl, by simp [setbackOf, houtcome]⟩
            | accepted payload => simp [houtcome] at hdecisive
            | rejected code => simp [houtcome] at hdecisive
          · intro hempty
            simp at hempty
      | looked cancelled => simpa [setbackOf, skippedIn] using And.intro hlast hnone
      | expired => simpa [setbackOf, skippedIn] using And.intro hlast hnone
      | paused node length left wake => simpa [setbackOf, skippedIn] using And.intro hlast hnone
      | skipped node backoff left =>
          constructor
          · intro a ha
            rcases hlast a (by simpa using ha) with ⟨fault, houtcome, hsetback⟩
            exact ⟨fault, houtcome, by simp [setbackOf, hsetback]⟩
          · intro hempty
            have hsetback := hnone (by simpa using hempty)
            have hskipped : skippedIn (earlier ++ [.skipped node backoff left]) =
                skippedIn earlier ++ [node] := by
              simp [skippedIn]
            rw [hskipped, setbackOf, hsetback]
            cases skippedIn earlier with
            | nil => rfl
            | cons first rest => rfl

/-!
## Courses and their endings

The last attempt and what was seen of the caller decide how a concluded course ends, and
the other way round.
-/

section

variable {request : Request} {course : List Step} {ending : Ending Response}

theorem retryable_of_concludes (h : Concludes request course ending) {a : Attempt}
    (ha : a ∈ (attemptsIn course).dropLast) : exists fault, a.outcome = .retryable fault := by
  cases h with
  | answered hundecided _ _ => exact retryable_of_undecided hundecided (by simpa using ha)
  | rejected hundecided _ => exact retryable_of_undecided hundecided (by simpa using ha)
  | discarded hundecided => exact retryable_of_undecided hundecided (by simpa using ha)
  | withdrawn hundecided =>
      exact retryable_of_undecided hundecided (List.dropLast_subset _ (by simpa using ha))
  | interrupted hundecided =>
      exact retryable_of_undecided hundecided (List.dropLast_subset _ (by simpa using ha))
  | exhausted hundecided => exact retryable_of_undecided hundecided (List.dropLast_subset _ ha)
  | foreign hundecided _ _ => exact retryable_of_undecided hundecided (List.dropLast_subset _ ha)
  | halted _ hundecided => exact retryable_of_undecided hundecided (List.dropLast_subset _ ha)

/-- In a course in which nothing is decided the last attempt is not one that decides. -/
theorem not_settled_of_undecided (h : Undecided course) {a : Attempt}
    (hlast : (attemptsIn course).getLast? = some a)
    (hsettled : forall fault, a.outcome ≠ .retryable fault) : False := by
  rcases retryable_of_undecided h (List.mem_of_getLast? hlast) with ⟨fault, hfault⟩
  exact hsettled fault hfault

/-- A last attempt that settles the request decides the ending, unless the caller cancelled. -/
theorem concludes_settled (h : Concludes request course ending) {a : Attempt}
    (hlast : (attemptsIn course).getLast? = some a)
    (hsettled : forall fault, a.outcome ≠ .retryable fault)
    (hquiet : course.any Step.showsCancelled = false) :
    (exists payload, a.outcome = .accepted payload ∧
        ending = .answered ⟨a.node, payload, (attemptsIn course).length⟩) ∨
      exists code, a.outcome = .rejected code ∧ ending = .failed (.precheck a.node code) := by
  cases h with
  | @answered earlier b payload hundecided _ houtcome =>
      have hsame : b = a := by simpa using hlast
      subst hsame
      exact Or.inl ⟨payload, houtcome, by simp⟩
  | @rejected earlier b code hundecided houtcome =>
      have hsame : b = a := by simpa using hlast
      subst hsame
      exact Or.inr ⟨code, houtcome, rfl⟩
  | discarded _ => simp at hquiet
  | withdrawn _ => simp at hquiet
  | interrupted _ => simp at hquiet
  | exhausted hundecided => exact (not_settled_of_undecided hundecided hlast hsettled).elim
  | foreign hundecided _ _ => exact (not_settled_of_undecided hundecided hlast hsettled).elim
  | halted _ hundecided => exact (not_settled_of_undecided hundecided hlast hsettled).elim

theorem answered_iff (h : Concludes request course ending) {r : Response} :
    ending = .answered r <->
      exists a, (attemptsIn course).getLast? = some a ∧ a.outcome = .accepted r.payload ∧
        course.any Step.showsCancelled = false ∧ r.node = a.node ∧
        r.attempts = (attemptsIn course).length := by
  constructor
  · intro heq
    rw [heq] at h
    cases h with
    | @answered earlier a payload hundecided _ houtcome =>
        refine ⟨a, by simp, houtcome, ?_, rfl, by simp⟩
        simp [showsCancelled_of_undecided hundecided]
  · intro hcause
    rcases hcause with ⟨a, hlast, haccepted, hquiet, hnode, hattempts⟩
    rcases concludes_settled h hlast (by simp [haccepted]) hquiet with
      ⟨payload, houtcome, hending⟩ | ⟨code, houtcome, _⟩
    · have hpayload : r.payload = payload := by
        rw [haccepted] at houtcome
        injection houtcome
      rw [hending, ← hnode, ← hpayload, ← hattempts]
    · rw [haccepted] at houtcome
      cases houtcome

theorem node_mem_of_answered (h : Concludes request course ending) {r : Response}
    (hending : ending = .answered r) : r.node ∈ request.nodes := by
  rw [hending] at h
  cases h with
  | answered _ hnode _ => exact hnode

theorem rejected_iff (h : Concludes request course ending) {node : NodeId}
    {code : PrecheckCode} :
    ending = .failed (.precheck node code) <->
      exists a, (attemptsIn course).getLast? = some a ∧ a.outcome = .rejected code ∧
        course.any Step.showsCancelled = false ∧ node = a.node := by
  constructor
  · intro heq
    rw [heq] at h
    cases h with
    | @rejected earlier a _ hundecided houtcome =>
        refine ⟨a, by simp, houtcome, ?_, rfl⟩
        simp [showsCancelled_of_undecided hundecided]
  · intro hcause
    rcases hcause with ⟨a, hlast, hrejected, hquiet, hnode⟩
    rcases concludes_settled h hlast (by simp [hrejected]) hquiet with
      ⟨payload, houtcome, _⟩ | ⟨other, houtcome, hending⟩
    · rw [hrejected] at houtcome
      cases houtcome
    · have hcode : code = other := by
        rw [hrejected] at houtcome
        injection houtcome
      rw [hending, hnode, hcode]

theorem exhausted_of_concludes {attempts : Nat} {nodes : List NodeId} {setback : Option Setback}
    (h : Concludes request course (.failed (.deadlineExceeded attempts nodes setback))) :
    attempts = (attemptsIn course).length ∧ nodes = (attemptsIn course).map Attempt.node ∧
      setback = setbackAfter course ∧ Undecided course := by
  cases h with
  | exhausted hundecided => exact ⟨rfl, rfl, rfl, hundecided⟩

theorem cancelled_iff (h : Concludes request course ending) :
    ending = .failed .cancelled <-> course.any Step.showsCancelled = true := by
  constructor
  · intro heq
    rw [heq] at h
    cases h with
    | discarded _ => simp
    | withdrawn _ => simp
    | interrupted _ => simp
  · intro hshown
    cases h with
    | answered hundecided _ _ => simp [showsCancelled_of_undecided hundecided] at hshown
    | rejected hundecided _ => simp [showsCancelled_of_undecided hundecided] at hshown
    | discarded _ => rfl
    | withdrawn _ => rfl
    | interrupted _ => rfl
    | exhausted hundecided => simp [showsCancelled_of_undecided hundecided] at hshown
    | foreign hundecided _ _ => simp [showsCancelled_of_undecided hundecided] at hshown
    | halted _ hundecided => simp [showsCancelled_of_undecided hundecided] at hshown

end

/-!
## Deliveries
-/

/-- The result of one pass over candidates in the order `ranked`. -/
structure IsOnePass {σ : Type} (ranked : List Node) (limit : Option UInt32)
    (run : Run σ Response) : Prop where
  inOrder : (run.attempts.map Attempt.node).Sublist (ranked.map Node.id)
  withinCandidates : run.attempts.length ≤ ranked.length
  withinLimit : forall max, limit = some max -> run.attempts.length ≤ max.toNat
  /-- Before the last attempt nothing could be read or a node would not take the request now. -/
  retried : forall a, a ∈ run.attempts.dropLast ->
    a.reply? = none ∨
      exists reply, a.reply? = some reply ∧
        reply.status ∈ [PrecheckCode.busy, .transactionNotCreated, .notActive]
  looked : LooksAfter run.steps
  answered : forall r,
    run.ending = .answered r <->
      exists a, run.attempts.getLast? = some a ∧ a.reply? = some ⟨.ok, r.payload⟩ ∧
        run.sawCancelled = false ∧ r.node = a.node ∧ r.attempts = run.attempts.length
  rejected : forall node code,
    run.ending = .failed (.precheck node code) <->
      exists a payload, run.attempts.getLast? = some a ∧ a.reply? = some ⟨code, payload⟩ ∧
        code.classify = .fatal ∧ run.sawCancelled = false ∧ node = a.node
  cancelled : run.ending = .failed .cancelled <-> run.sawCancelled = true
  /-- The setback is the fault of the last attempt; without one, that the first node that was
  passed over is left alone. -/
  exhausted : forall attempts nodes setback,
    run.ending = .failed (.deadlineExceeded attempts nodes setback) ->
      attempts = nodes.length ∧ nodes = run.attempts.map Attempt.node ∧
        (forall a, run.attempts.getLast? = some a ->
          exists fault, a.outcome = .retryable fault ∧ setback = some (.failed fault)) ∧
        (run.attempts = [] -> setback = (skippedIn run.steps).head?.map .inBackoff)

theorem isOnePass_of_concludes {σ : Type} {ranked : List Node} {limit : Option UInt32}
    {request : Request} {run : Run σ Response}
    (hconcludes : Concludes request run.steps run.ending)
    (hsublist : (run.attempts.map Attempt.node).Sublist (ranked.map Node.id))
    (hlimit : forall max, limit = some max -> run.attempts.length ≤ max.toNat)
    (hlooks : LooksAfter run.steps) : IsOnePass ranked limit run where
  inOrder := hsublist
  withinCandidates := by simpa using hsublist.length_le
  withinLimit := hlimit
  retried := by
    intro a ha
    exact Attempt.outcome_eq_retryable_iff.mp (retryable_of_concludes hconcludes ha)
  looked := hlooks
  answered := by
    intro r
    simp only [← Attempt.outcome_eq_accepted_iff]
    exact answered_iff hconcludes
  rejected := by
    intro node code
    constructor
    · intro heq
      rcases (rejected_iff hconcludes).mp heq with ⟨a, hlast, hrejected, hquiet, hnode⟩
      rcases Attempt.outcome_eq_rejected_iff.mp hrejected with ⟨payload, hreply, hfatal⟩
      exact ⟨a, payload, hlast, hreply, hfatal, hquiet, hnode⟩
    · intro hcause
      rcases hcause with ⟨a, payload, hlast, hreply, hfatal, hquiet, hnode⟩
      have hrejected := Attempt.outcome_eq_rejected_iff.mpr ⟨payload, hreply, hfatal⟩
      exact (rejected_iff hconcludes).mpr ⟨a, hlast, hrejected, hquiet, hnode⟩
  cancelled := cancelled_iff hconcludes
  exhausted := by
    intro attempts nodes setback heq
    rw [heq] at hconcludes
    rcases exhausted_of_concludes hconcludes with ⟨hattempts, hnodes, hsetback, hundecided⟩
    rw [hsetback]
    refine ⟨?_, hnodes, setbackAfter_of_undecided hundecided⟩
    rw [hattempts, hnodes, List.length_map]

namespace Engine

variable {σ : Type}

theorem deliver_eq_refuse {e : Engine} {request : Request} {error : ClientError}
    (herror : e.registry.candidates request.nodes = .error error) (w : Surroundings σ)
    (deadline : Instant) (world : σ) :
    e.deliver w request deadline world = e.refuse error world := by
  simp [deliver, herror]

theorem deliver_concludes {e : Engine} {request : Request} {candidates : List Node}
    (hcandidates : e.registry.candidates request.nodes = .ok candidates) (w : Surroundings σ)
    (deadline : Instant) (world : σ) :
    Concludes request (e.deliver w request deadline world).steps
      (e.deliver w request deadline world).ending := by
  have hrequested : forall node, node ∈ Ranking.rank (w.clock world).1 candidates ->
      node.id ∈ request.nodes := by
    intro node hnode
    rw [← Registry.map_id_candidates hcandidates]
    exact List.mem_map_of_mem (Ranking.mem_rank.mp hnode)
  simp only [deliver, hcandidates]
  exact Progress.visit_concludes w deadline _ (Progress.booked_start _ _) undecided_nil hrequested

theorem deliver_attempts (e : Engine) (w : Surroundings σ) (request : Request)
    (deadline : Instant) (world : σ) {a : Attempt}
    (ha : a ∈ (e.deliver w request deadline world).attempts) :
    exists candidates node, e.registry.candidates request.nodes = .ok candidates ∧
      node ∈ candidates ∧ node.id ∈ request.nodes ∧ IsAttemptAt e.settings request node a := by
  cases hcandidates : e.registry.candidates request.nodes with
  | error error =>
      rw [deliver_eq_refuse hcandidates] at ha
      cases ha
  | ok candidates =>
      simp only [deliver, hcandidates] at ha
      have hnone : forall b, b ∈ (Progress.start e.registry (w.clock world).2).made ->
          exists node, node ∈ Ranking.rank (w.clock world).1 candidates ∧
            IsAttemptAt e.settings request node b := by
        intro b hb
        cases hb
      rcases Progress.visit_calls w deadline _ hnone a ha with ⟨node, hnode, hcall⟩
      have hcandidate : node ∈ candidates := Ranking.mem_rank.mp hnode
      refine ⟨candidates, node, rfl, hcandidate, ?_, hcall⟩
      rw [← Registry.map_id_candidates hcandidates]
      exact List.mem_map_of_mem hcandidate

/-- Every attempt sends a node what the request has for it. -/
theorem deliver_calls (e : Engine) (w : Surroundings σ) (request : Request) (deadline : Instant)
    (world : σ) {a : Attempt} (ha : a ∈ (e.deliver w request deadline world).attempts) :
    request.payloadFor? a.node = some a.call.payload ∧ a.call.method = request.method := by
  rcases e.deliver_attempts w request deadline world ha with ⟨_, node, _, _, _, hcall⟩
  rw [Attempt.node, hcall.node]
  exact ⟨hcall.payload, hcall.method⟩

theorem deliver_inOrder {e : Engine} {request : Request} {candidates : List Node}
    (hcandidates : e.registry.candidates request.nodes = .ok candidates) (w : Surroundings σ)
    (deadline : Instant) (world : σ) :
    ((e.deliver w request deadline world).attempts.map Attempt.node).Sublist
      ((Ranking.rank (w.clock world).1 candidates).map Node.id) := by
  have hpass := @Progress.visit_sublist σ e.settings request
    (e.maxAttempts (Ranking.rank (w.clock world).1 candidates)) w deadline
    (Ranking.rank (w.clock world).1 candidates) (.start e.registry (w.clock world).2)
  rcases hpass with ⟨more, hmade, hsublist⟩
  have hall : (e.deliver w request deadline world).attempts = more := by
    simp only [deliver, hcandidates]
    exact hmade
  rw [hall]
  exact hsublist

theorem deliver_within {e : Engine} {request : Request} {candidates : List Node}
    (hcandidates : e.registry.candidates request.nodes = .ok candidates) (w : Surroundings σ)
    (deadline : Instant) (world : σ) {max : UInt32} (hmax : e.settings.maxAttempts = some max) :
    (e.deliver w request deadline world).attempts.length ≤ max.toNat := by
  have hlimit : e.maxAttempts (Ranking.rank (w.clock world).1 candidates) = max.toNat := by
    simp only [maxAttempts, hmax]
  rw [← hlimit]
  simp only [deliver, hcandidates]
  exact Progress.visit_within w deadline _ (Progress.booked_start _ _) (Nat.zero_le _)

theorem deliver_looksAfter {e : Engine} {request : Request} {candidates : List Node}
    (hcandidates : e.registry.candidates request.nodes = .ok candidates) (w : Surroundings σ)
    (deadline : Instant) (world : σ) : LooksAfter (e.deliver w request deadline world).steps := by
  simp only [deliver, hcandidates]
  exact Progress.visit_looksAfter w deadline _ (looksAfter_of_no_attempt rfl)

/-- One delivery is one pass over the candidates as they were ranked at its start. -/
theorem deliver_isOnePass (e : Engine) (w : Surroundings σ) (request : Request)
    (deadline : Instant) (world : σ) :
    match e.registry.candidates request.nodes with
    | .error error => e.deliver w request deadline world = e.refuse error world
    | .ok candidates =>
        IsOnePass (Ranking.rank (w.clock world).1 candidates) e.settings.maxAttempts
          (e.deliver w request deadline world) := by
  cases hcandidates : e.registry.candidates request.nodes with
  | error error => exact deliver_eq_refuse hcandidates w deadline world
  | ok candidates =>
      apply isOnePass_of_concludes
      · exact deliver_concludes hcandidates w deadline world
      · exact deliver_inOrder hcandidates w deadline world
      · intro max hmax
        exact deliver_within hcandidates w deadline world hmax
      · exact deliver_looksAfter hcandidates w deadline world

end Engine

end LedgerClient
