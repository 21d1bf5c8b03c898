import LedgerClient.Proofs.Delivery.Turn
import Mathlib.Data.List.Induction

/-!
# One pass over the candidates

How a delivery ends follows from its course alone.  `Concludes` says how; a turn that is
not the last leaves the delivery undecided, a last turn concludes it, and by induction on
the candidates every delivery ends as its course says.  The main statement collects what
that means for the nodes that were tried, the result and the report of a failure.
-/

namespace LedgerClient

/-!
## What an attempt brought back
-/

namespace PrecheckCode

theorem classify_eq_accepted_iff {code : PrecheckCode} :
    code.classify = .accepted <-> code = .ok := by
  cases code <;> simp [classify]

theorem classify_eq_retryable_iff {code : PrecheckCode} :
    code.classify = .retryable <-> code ∈ [busy, transactionNotCreated, notActive] := by
  cases code <;> simp [classify]

end PrecheckCode

namespace Attempt

/-- The response of a node, if one came back and could be read. -/
def reply? (a : Attempt) : Option NodeResponse :=
  match a.answer with
  | .received bs =>
      match NodeResponse.codec.read bs with
      | .ok reply => some reply
      | .error _ => none
  | _ => none

/-- The outcome of an attempt is that of its response; without one another node may be tried. -/
theorem outcome_eq (a : Attempt) :
    (exists reply, a.reply? = some reply ∧ a.outcome = Outcome.ofResponse reply) ∨
      (a.reply? = none ∧ exists fault, a.outcome = .retryable fault) := by
  unfold reply? outcome Outcome.ofAnswer
  cases a.answer with
  | refused cause => exact Or.inr ⟨rfl, _, rfl⟩
  | failed cause => exact Or.inr ⟨rfl, _, rfl⟩
  | timedOut => exact Or.inr ⟨rfl, _, rfl⟩
  | received bs =>
      cases hread : NodeResponse.codec.read bs with
      | error cause =>
          dsimp only
          rw [hread]
          exact Or.inr ⟨rfl, _, rfl⟩
      | ok reply =>
          dsimp only
          rw [hread]
          exact Or.inl ⟨reply, rfl, rfl⟩

theorem outcome_eq_accepted_iff {a : Attempt} {payload : Bytes} :
    a.outcome = .accepted payload <-> a.reply? = some ⟨.ok, payload⟩ := by
  rcases a.outcome_eq with ⟨⟨code, content⟩, hreply, houtcome⟩ | ⟨hreply, fault, houtcome⟩
  · rw [houtcome, hreply, Outcome.ofResponse]
    cases hclass : code.classify with
    | accepted =>
        have hok := PrecheckCode.classify_eq_accepted_iff.mp hclass
        simp [hok]
    | retryable =>
        have hok : code ≠ .ok := by
          intro hok
          rw [hok] at hclass
          cases hclass
        simp [hok]
    | fatal =>
        have hok : code ≠ .ok := by
          intro hok
          rw [hok] at hclass
          cases hclass
        simp [hok]
  · simp [houtcome, hreply]

theorem outcome_eq_rejected_iff {a : Attempt} {code : PrecheckCode} :
    a.outcome = .rejected code <->
      exists payload, a.reply? = some ⟨code, payload⟩ ∧ code.classify = .fatal := by
  rcases a.outcome_eq with ⟨⟨other, content⟩, hreply, houtcome⟩ | ⟨hreply, fault, houtcome⟩
  · rw [houtcome, hreply, Outcome.ofResponse]
    constructor
    · intro h
      cases hclass : other.classify with
      | accepted => simp [hclass] at h
      | retryable => simp [hclass] at h
      | fatal =>
          have hcode : other = code := by simpa [hclass] using h
          subst hcode
          exact ⟨content, rfl, hclass⟩
    · intro h
      rcases h with ⟨payload, hpair, hfatal⟩
      cases hpair
      simp [hfatal]
  · simp [houtcome, hreply]

/-- Another node may be tried when no response could be read or the node would not take the
request now. -/
theorem outcome_eq_retryable_iff {a : Attempt} :
    (exists fault, a.outcome = .retryable fault) <->
      a.reply? = none ∨
        exists reply, a.reply? = some reply ∧
          reply.status ∈ [PrecheckCode.busy, .transactionNotCreated, .notActive] := by
  rcases a.outcome_eq with ⟨⟨code, content⟩, hreply, houtcome⟩ | ⟨hreply, fault, houtcome⟩
  · rw [houtcome, hreply, Outcome.ofResponse]
    simp only [← PrecheckCode.classify_eq_retryable_iff]
    cases hclass : code.classify <;> simp [hclass]
  · simp [houtcome, hreply]

end Attempt

/-!
## How a delivery ends
-/

/-- The ending of a delivery with this course. -/
inductive Concludes (request : Request) : List Step -> Ending Response -> Prop where
  | answered {earlier : List Step} {a : Attempt} {payload : Bytes} :
      Undecided earlier ->
      a.node ∈ request.nodes ->
      a.outcome = .accepted payload ->
      Concludes request (earlier ++ [.attempted a, .looked false])
        (.answered ⟨a.node, payload, (attemptsIn earlier).length + 1⟩)
  | rejected {earlier : List Step} {a : Attempt} {code : PrecheckCode} :
      Undecided earlier ->
      a.outcome = .rejected code ->
      Concludes request (earlier ++ [.attempted a, .looked false])
        (.failed (.precheck a.node code))
  | discarded {earlier : List Step} {a : Attempt} :
      Undecided earlier ->
      Concludes request (earlier ++ [.attempted a, .looked true]) (.failed .cancelled)
  | withdrawn {earlier : List Step} :
      Undecided earlier ->
      Concludes request (earlier ++ [.looked true]) (.failed .cancelled)
  | interrupted {earlier : List Step} {node : NodeId} {length left : Duration} :
      Undecided earlier ->
      Concludes request (earlier ++ [.paused node length left .cancelled]) (.failed .cancelled)
  | exhausted {course : List Step} :
      Undecided course ->
      Concludes request course
        (.failed (.deadlineExceeded (attemptsIn course).length
          ((attemptsIn course).map Attempt.node) (setbackAfter course)))
  | foreign {course : List Step} {node : NodeId} :
      Undecided course ->
      node ∈ request.nodes ->
      request.payloadFor? node = none ->
      Concludes request course (.failed (.transaction (.foreignNode node)))
  | halted {course : List Step} (halt : Halt) :
      Undecided course ->
      Concludes request course (.halted halt)

/-- What a course says about a turn that came to this. -/
def Progress.Turn.Follows (request : Request) (course : List Step) : Progress.Turn -> Prop
  | .ended ending => Concludes request course ending
  | .onward => Undecided course

theorem GateCourse.attemptsIn_eq {node : NodeId} {steps : List Step} {gate : Progress.Gate}
    (h : GateCourse node steps gate) : attemptsIn steps = [] := by
  cases h with
  | opened left hpauses => exact hpauses.attemptsIn_eq
  | skipped hpauses _ => simp [hpauses.attemptsIn_eq]
  | cancelled hpauses _ => simp [hpauses.attemptsIn_eq]
  | stillWaiting hpauses => exact hpauses.attemptsIn_eq

/-- A look that shows nothing and pauses that go on decide nothing. -/
theorem undecided_waited {earlier pauses : List Step} {node : NodeId}
    (hearlier : Undecided earlier) (hpauses : Pauses node pauses) :
    Undecided (earlier ++ .looked false :: pauses) := by
  simpa [hearlier] using hpauses.undecided

namespace Progress

variable {σ : Type} {settings : DeliverySettings} {request : Request} {maxAttempts : Nat}
  {node : Node} {p p' : Progress σ} {steps : List Step}

theorem exhausted_eq (hbooked : p.Booked) :
    p.exhausted =
      .failed (.deadlineExceeded (attemptsIn p.course).length
        ((attemptsIn p.course).map Attempt.node) (setbackAfter p.course)) := by
  rw [exhausted, hbooked.attempts, hbooked.nodesTried, hbooked.setback]
  rfl

theorem exhausted_concludes (hbooked : p.Booked) (hundecided : Undecided p.course) :
    Concludes request p.course p.exhausted := by
  rw [exhausted_eq hbooked]
  exact .exhausted hundecided

/-- An attempt and a look after it settle the request or leave it to the next candidate. -/
theorem conclude_follows {earlier : List Step} {a : Attempt} (hbooked : p.Booked)
    (hcourse : p.course = earlier ++ [.attempted a, .looked false])
    (hnode : a.call.node = node.id) (hrequested : node.id ∈ request.nodes)
    (hundecided : Undecided earlier) :
    (p.conclude node.id a.outcome).Follows request p.course := by
  have hattempts : p.attempts = (attemptsIn earlier).length + 1 := by
    rw [hbooked.attempts, made, hcourse]
    simp
  rw [← hnode] at hrequested
  rw [hcourse, ← hnode]
  cases houtcome : a.outcome with
  | accepted payload =>
      have hanswered := Concludes.answered hundecided hrequested houtcome
      rw [← hattempts] at hanswered
      exact hanswered
  | rejected code => exact Concludes.rejected hundecided houtcome
  | retryable fault =>
      show Undecided _
      simp [hundecided, houtcome]

/-- One turn decides what its steps say. -/
theorem turn_follows {t : Turn} (hcontinues : p.Continues steps p') (hbooked : p.Booked)
    (hundecided : Undecided p.course) (hrequested : node.id ∈ request.nodes)
    (hturn : TurnCourse settings request maxAttempts node p p' steps t) :
    t.Follows request p'.course := by
  have hcourse := hcontinues.course
  have hbooked' := hcontinues.booked hbooked
  cases hturn with
  | spent _ =>
      apply exhausted_concludes hbooked'
      simpa [hcourse] using hundecided
  | withdrawn =>
      rw [hcourse]
      exact Concludes.withdrawn hundecided
  | expired hpauses =>
      apply exhausted_concludes hbooked'
      simp [hcourse, hundecided, hpauses.undecided]
  | cancelled hgate =>
      cases hgate with
      | cancelled hpauses _ =>
          have hwaited := undecided_waited hundecided hpauses
          rw [hcourse, ← List.cons_append, ← List.append_assoc]
          exact Concludes.interrupted hwaited
  | stillWaiting hgate =>
      cases hgate with
      | stillWaiting hpauses =>
          apply Concludes.halted
          simp [hcourse, hundecided, hpauses.undecided]
  | skipped hgate =>
      cases hgate with
      | skipped hpauses _ =>
          show Undecided _
          simp [hcourse, hundecided, hpauses.undecided]
  | approached hfree hpauses happroach =>
      have hwaited := undecided_waited hundecided hpauses
      cases happroach with
      | foreign hpayload =>
          apply Concludes.foreign
          · simpa [hcourse] using hwaited
          · exact hrequested
          · exact hpayload
      | outOfRange =>
          apply Concludes.halted
          simpa [hcourse] using hwaited
      | discarded ha =>
          rw [hcourse, ← List.cons_append, ← List.append_assoc]
          exact Concludes.discarded hwaited
      | concluded ha =>
          apply conclude_follows hbooked' _ ha.node hrequested hwaited
          simpa using hcourse

theorem turn_attempts {t : Turn}
    (hturn : TurnCourse settings request maxAttempts node p p' steps t) :
    attemptsIn steps = [] ∨
      exists a, attemptsIn steps = [a] ∧ IsAttemptAt settings request node a ∧
        p.attempts < maxAttempts := by
  cases hturn with
  | spent _ => exact Or.inl rfl
  | withdrawn => exact Or.inl rfl
  | expired hpauses => simp [hpauses.attemptsIn_eq]
  | cancelled hgate => simp [hgate.attemptsIn_eq]
  | stillWaiting hgate => simp [hgate.attemptsIn_eq]
  | skipped hgate => simp [hgate.attemptsIn_eq]
  | approached hfree hpauses happroach =>
      cases happroach with
      | foreign _ => simp [hpauses.attemptsIn_eq]
      | outOfRange => simp [hpauses.attemptsIn_eq]
      | discarded ha =>
          exact Or.inr ⟨_, by simp [hpauses.attemptsIn_eq], ha, hfree⟩
      | concluded ha =>
          exact Or.inr ⟨_, by simp [hpauses.attemptsIn_eq], ha, hfree⟩

theorem turn_sublist {t : Turn}
    (hturn : TurnCourse settings request maxAttempts node p p' steps t) :
    ((attemptsIn steps).map Attempt.node).Sublist [node.id] := by
  rcases turn_attempts hturn with hnone | ⟨a, hone, ha, _⟩
  · simp [hnone]
  · simp [hone, Attempt.node, ha.node]

theorem turn_within {t : Turn}
    (hturn : TurnCourse settings request maxAttempts node p p' steps t) :
    p.attempts + (attemptsIn steps).length ≤ max p.attempts maxAttempts := by
  rcases turn_attempts hturn with hnone | ⟨a, hone, _, hfree⟩
  · rw [hnone]
    exact Nat.le_max_left _ _
  · simp only [hone, List.length_singleton]
    omega

theorem turn_looksAfter {t : Turn}
    (hturn : TurnCourse settings request maxAttempts node p p' steps t) : LooksAfter steps := by
  cases hturn with
  | spent _ => exact looksAfter_of_no_attempt rfl
  | withdrawn => exact looksAfter_of_no_attempt rfl
  | expired hpauses => exact looksAfter_of_no_attempt (by simp [hpauses.attemptsIn_eq])
  | cancelled hgate => exact looksAfter_of_no_attempt (by simp [hgate.attemptsIn_eq])
  | stillWaiting hgate => exact looksAfter_of_no_attempt (by simp [hgate.attemptsIn_eq])
  | skipped hgate => exact looksAfter_of_no_attempt (by simp [hgate.attemptsIn_eq])
  | @approached pauses _ _ hfree hpauses happroach =>
      have hwaited : LooksAfter (.looked false :: pauses) :=
        looksAfter_of_no_attempt (by simp [hpauses.attemptsIn_eq])
      cases happroach with
      | foreign _ => simpa using hwaited
      | outOfRange => simpa using hwaited
      | discarded ha => exact looksAfter_append hwaited (looksAfter_pair _ _)
      | concluded ha => exact looksAfter_append hwaited (looksAfter_pair _ _)

/-!
## The whole pass
-/

theorem visit_concludes (w : Surroundings σ) (deadline : Instant) (candidates : List Node)
    (hbooked : p.Booked) (hundecided : Undecided p.course)
    (hrequested : forall node, node ∈ candidates -> node.id ∈ request.nodes) :
    Concludes request (visit w settings request deadline maxAttempts candidates p).2.course
      (visit w settings request deadline maxAttempts candidates p).1 := by
  induction candidates generalizing p with
  | nil => exact exhausted_concludes hbooked hundecided
  | cons node rest ih =>
      rcases turn_course w settings request deadline maxAttempts node rest.isEmpty p with
        ⟨steps, hcontinues, hturn⟩
      unfold visit
      rcases hresult : p.turn w settings request deadline maxAttempts node rest.isEmpty with
        ⟨t, p'⟩
      rw [hresult] at hcontinues hturn
      have hfollows := turn_follows hcontinues hbooked hundecided
        (hrequested node (List.mem_cons_self ..)) hturn
      cases t with
      | ended ending => exact hfollows
      | onward =>
          apply ih (hcontinues.booked hbooked) hfollows
          intro other hother
          exact hrequested other (List.mem_cons_of_mem _ hother)

theorem made_of_continues (hcontinues : p.Continues steps p') :
    p'.made = p.made ++ attemptsIn steps := by
  rw [made, hcontinues.course, attemptsIn_append]
  rfl

theorem visit_sublist (w : Surroundings σ) (deadline : Instant) (candidates : List Node)
    (p : Progress σ) :
    exists more : List Attempt,
      (visit w settings request deadline maxAttempts candidates p).2.made = p.made ++ more ∧
        (more.map Attempt.node).Sublist (candidates.map Node.id) := by
  induction candidates generalizing p with
  | nil => exact ⟨[], by simp [visit], List.Sublist.refl _⟩
  | cons node rest ih =>
      rcases turn_course w settings request deadline maxAttempts node rest.isEmpty p with
        ⟨steps, hcontinues, hturn⟩
      unfold visit
      rcases hresult : p.turn w settings request deadline maxAttempts node rest.isEmpty with
        ⟨t, p'⟩
      rw [hresult] at hcontinues hturn
      have hmade := made_of_continues hcontinues
      have hone := turn_sublist hturn
      cases t with
      | ended ending =>
          refine ⟨attemptsIn steps, hmade, ?_⟩
          exact hone.trans (List.singleton_sublist.mpr (by simp))
      | onward =>
          rcases ih p' with ⟨more, hmore, hsublist⟩
          refine ⟨attemptsIn steps ++ more, ?_, ?_⟩
          · rw [hmore, hmade, List.append_assoc]
          · rw [List.map_append]
            exact hone.append hsublist

/-- What holds at the start and is kept by every turn holds at the end. -/
theorem visit_induction {motive : Progress σ -> Prop} (w : Surroundings σ) (deadline : Instant)
    (candidates : List Node)
    (hturn : forall node p p' steps t, node ∈ candidates -> p.Continues steps p' ->
      TurnCourse settings request maxAttempts node p p' steps t -> motive p -> motive p')
    (hstart : motive p) :
    motive (visit w settings request deadline maxAttempts candidates p).2 := by
  induction candidates generalizing p with
  | nil => exact hstart
  | cons node rest ih =>
      rcases turn_course w settings request deadline maxAttempts node rest.isEmpty p with
        ⟨steps, hcontinues, hcourse⟩
      have hnext := hturn node p _ steps _ (List.mem_cons_self ..) hcontinues hcourse hstart
      unfold visit
      rcases hresult : p.turn w settings request deadline maxAttempts node rest.isEmpty with
        ⟨t, p'⟩
      rw [hresult] at hnext
      cases t with
      | ended ending => exact hnext
      | onward =>
          apply ih _ hnext
          intro other q q' more u hother
          exact hturn other q q' more u (List.mem_cons_of_mem _ hother)

theorem visit_within (w : Surroundings σ) (deadline : Instant) (candidates : List Node)
    (hbooked : p.Booked) (hmade : p.made.length ≤ maxAttempts) :
    (visit w settings request deadline maxAttempts candidates p).2.made.length ≤ maxAttempts := by
  have hboth : (visit w settings request deadline maxAttempts candidates p).2.Booked ∧
      (visit w settings request deadline maxAttempts candidates p).2.made.length ≤ maxAttempts := by
    apply visit_induction (motive := fun q => q.Booked ∧ q.made.length ≤ maxAttempts) w deadline
      candidates
    · intro node q q' steps t _ hcontinues hturn hq
      refine ⟨hcontinues.booked hq.left, ?_⟩
      have hwithin := turn_within hturn
      rw [hq.left.attempts] at hwithin
      rw [made_of_continues hcontinues, List.length_append]
      exact Nat.le_trans hwithin (Nat.max_le.mpr ⟨hq.right, Nat.le_refl _⟩)
    · exact ⟨hbooked, hmade⟩
  exact hboth.right

theorem visit_looksAfter (w : Surroundings σ) (deadline : Instant) (candidates : List Node)
    (hlooks : LooksAfter p.course) :
    LooksAfter (visit w settings request deadline maxAttempts candidates p).2.course := by
  apply visit_induction (motive := fun q => LooksAfter q.course) w deadline candidates _ hlooks
  intro node q q' steps t _ hcontinues hturn hq
  rw [hcontinues.course]
  exact looksAfter_append hq (turn_looksAfter hturn)

/-- Every attempt sends what the request has for a candidate. -/
theorem visit_calls (w : Surroundings σ) (deadline : Instant) (candidates : List Node)
    (hcalls : forall a, a ∈ p.made ->
      exists node, node ∈ candidates ∧ IsAttemptAt settings request node a) :
    forall a, a ∈ (visit w settings request deadline maxAttempts candidates p).2.made ->
      exists node, node ∈ candidates ∧ IsAttemptAt settings request node a := by
  apply visit_induction (motive := fun q => forall a, a ∈ q.made ->
    exists node, node ∈ candidates ∧ IsAttemptAt settings request node a) w deadline candidates _
    hcalls
  intro node q q' steps t hnode hcontinues hturn hq a ha
  rw [made_of_continues hcontinues] at ha
  rcases List.mem_append.mp ha with hearlier | hnew
  · exact hq a hearlier
  · rcases turn_attempts hturn with hnone | ⟨b, hone, hb, _⟩
    · rw [hnone] at hnew
      cases hnew
    · have hsame : a = b := by simpa [hone] using hnew
      rw [hsame]
      exact ⟨node, hnode, hb⟩

end Progress

end LedgerClient
