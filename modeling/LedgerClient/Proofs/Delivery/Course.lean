import LedgerClient.Delivery.Engine

/-!
# The course of one turn

A delivery keeps books while it runs: how many attempts it made, at which nodes, and what
last kept it from being answered.  This module shows that the books always agree with the
steps that were made, and says once what the steps of one turn of a candidate can be.  What
holds of whole deliveries is derived from these two facts.
-/

namespace LedgerClient

/-!
## Courses

A course is a list of steps in the order in which they were made.
-/

def attemptsIn (course : List Step) : List Attempt :=
  course.filterMap Step.attempt?

/-- What a step leaves as the last thing that kept a request from being answered. -/
def setbackOf (earlier : Option Setback) : Step → Option Setback
  | .skipped node _ _ => some (earlier.getD (.inBackoff node))
  | .attempted a =>
      match a.outcome with
      | .retryable fault => some (.failed fault)
      | _ => earlier
  | _ => earlier

def setbackAfter (course : List Step) : Option Setback :=
  course.foldl setbackOf none

attribute [simp] Step.showsCancelled

/-- Whether a delivery has to end at a step, or right after it. -/
@[simp]
def Step.isDecisive : Step → Bool
  | attempted a =>
      match a.outcome with
      | .retryable _ => false
      | _ => true
  | step => step.showsCancelled

/-- Nothing in the course ends the delivery. -/
def Undecided (course : List Step) : Prop :=
  forall step, step ∈ course -> step.isDecisive = false

@[simp]
theorem attemptsIn_nil : attemptsIn [] = [] :=
  rfl

@[simp]
theorem attemptsIn_attempted (a : Attempt) (rest : List Step) :
    attemptsIn (.attempted a :: rest) = a :: attemptsIn rest :=
  rfl

@[simp]
theorem attemptsIn_looked (cancelled : Bool) (rest : List Step) :
    attemptsIn (.looked cancelled :: rest) = attemptsIn rest :=
  rfl

@[simp]
theorem attemptsIn_expired (rest : List Step) :
    attemptsIn (.expired :: rest) = attemptsIn rest :=
  rfl

@[simp]
theorem attemptsIn_paused (node : NodeId) (length left : Duration) (wake : Wake)
    (rest : List Step) :
    attemptsIn (.paused node length left wake :: rest) = attemptsIn rest :=
  rfl

@[simp]
theorem attemptsIn_skipped (node : NodeId) (backoff left : Duration) (rest : List Step) :
    attemptsIn (.skipped node backoff left :: rest) = attemptsIn rest :=
  rfl

@[simp]
theorem attemptsIn_append (xs ys : List Step) :
    attemptsIn (xs ++ ys) = attemptsIn xs ++ attemptsIn ys := by
  simp [attemptsIn]

theorem setbackAfter_concat (course : List Step) (step : Step) :
    setbackAfter (course ++ [step]) = setbackOf (setbackAfter course) step := by
  simp [setbackAfter]

@[simp]
theorem undecided_nil : Undecided [] := by
  intro step hstep
  cases hstep

@[simp]
theorem undecided_cons {step : Step} {rest : List Step} :
    Undecided (step :: rest) <-> step.isDecisive = false ∧ Undecided rest :=
  List.forall_mem_cons

@[simp]
theorem undecided_append {xs ys : List Step} :
    Undecided (xs ++ ys) <-> Undecided xs ∧ Undecided ys :=
  List.forall_mem_append

theorem retryable_of_undecided {course : List Step} (h : Undecided course)
    {a : Attempt} (ha : a ∈ attemptsIn course) :
    exists fault, a.outcome = .retryable fault := by
  rcases List.mem_filterMap.mp ha with ⟨step, hstep, hattempt⟩
  cases step with
  | attempted b =>
      have hab : b = a := by simpa [Step.attempt?] using hattempt
      subst hab
      have hdecisive := h _ hstep
      cases houtcome : b.outcome with
      | retryable fault => exact ⟨fault, rfl⟩
      | accepted payload => simp [houtcome] at hdecisive
      | rejected code => simp [houtcome] at hdecisive
  | looked _ => cases hattempt
  | expired => cases hattempt
  | paused _ _ _ _ => cases hattempt
  | skipped _ _ _ => cases hattempt

theorem showsCancelled_of_undecided {course : List Step} (h : Undecided course) :
    course.any Step.showsCancelled = false := by
  rw [List.any_eq_false]
  intro step hstep
  have hdecisive := h step hstep
  cases step with
  | attempted _ => simp
  | looked _ => simpa using hdecisive
  | expired => simp
  | paused _ _ _ _ => simpa using hdecisive
  | skipped _ _ _ => simp

/-- After every attempt it was looked whether the caller has cancelled. -/
def LooksAfter (course : List Step) : Prop :=
  forall a, a ∈ attemptsIn course ->
    exists cancelled, [Step.attempted a, .looked cancelled] <:+: course

theorem looksAfter_append {xs ys : List Step} (hxs : LooksAfter xs) (hys : LooksAfter ys) :
    LooksAfter (xs ++ ys) := by
  intro a ha
  rw [attemptsIn_append] at ha
  rcases List.mem_append.mp ha with hleft | hright
  · rcases hxs a hleft with ⟨cancelled, hinfix⟩
    exact ⟨cancelled, hinfix.trans (List.prefix_append xs ys).isInfix⟩
  · rcases hys a hright with ⟨cancelled, hinfix⟩
    exact ⟨cancelled, hinfix.trans (List.suffix_append xs ys).isInfix⟩

theorem looksAfter_of_no_attempt {course : List Step} (h : attemptsIn course = []) :
    LooksAfter course := by
  intro a ha
  rw [h] at ha
  cases ha

theorem looksAfter_pair (a : Attempt) (cancelled : Bool) :
    LooksAfter [.attempted a, .looked cancelled] := by
  intro b hb
  have hsame : b = a := by simpa using hb
  rw [hsame]
  exact ⟨cancelled, List.infix_refl _⟩

/-- Pauses for a node, each shorter than the time that was left and none cut short. -/
inductive Pauses (node : NodeId) : List Step -> Prop where
  | none : Pauses node []
  | one {rest : List Step} {length left : Duration} :
      length < left ->
      Pauses node rest ->
      Pauses node (.paused node length left .elapsed :: rest)

theorem Pauses.undecided {node : NodeId} {pauses : List Step} (h : Pauses node pauses) :
    Undecided pauses := by
  induction h with
  | none => exact undecided_nil
  | one _ _ ih => exact undecided_cons.mpr ⟨rfl, ih⟩

theorem Pauses.attemptsIn_eq {node : NodeId} {pauses : List Step} (h : Pauses node pauses) :
    attemptsIn pauses = [] := by
  induction h with
  | none => rfl
  | one _ _ ih => simpa using ih

namespace Progress

variable {σ : Type}

/-!
## Books
-/

def course (p : Progress σ) : List Step :=
  p.steps.reverse

def made (p : Progress σ) : List Attempt :=
  attemptsIn p.course

/-- The books agree with what was done. -/
structure Booked (p : Progress σ) : Prop where
  attempts : p.attempts = p.made.length
  nodesTried : p.nodesTried = p.made.map Attempt.node
  setback : p.setback = setbackAfter p.course

/-- `p'` comes after `p`, with the steps `added` in between. -/
structure Continues (p : Progress σ) (added : List Step) (p' : Progress σ) : Prop where
  course : p'.course = p.course ++ added
  booked : p.Booked -> p'.Booked

theorem booked_start (registry : Registry) (world : σ) : (start registry world).Booked where
  attempts := rfl
  nodesTried := rfl
  setback := rfl

theorem Continues.refl (p : Progress σ) : p.Continues [] p where
  course := (List.append_nil _).symm
  booked := id

theorem Continues.trans {p q r : Progress σ} {xs ys : List Step}
    (hpq : p.Continues xs q) (hqr : q.Continues ys r) : p.Continues (xs ++ ys) r where
  course := by rw [hqr.course, hpq.course, List.append_assoc]
  booked := fun h => hqr.booked (hpq.booked h)

theorem continues_ask {α : Type} (p : Progress σ) (question : σ -> α × σ) :
    p.Continues [] (p.ask question).2 where
  course := (List.append_nil _).symm
  booked := fun h => ⟨h.attempts, h.nodesTried, h.setback⟩

/-- One step and the entries that belong to it keep the books in order. -/
theorem continues_step {p p' : Progress σ} {step : Step} (hsteps : p'.steps = step :: p.steps)
    (hattempts : p'.attempts = p.attempts + (attemptsIn [step]).length)
    (hnodes : p'.nodesTried = p.nodesTried ++ (attemptsIn [step]).map Attempt.node)
    (hsetback : p'.setback = setbackOf p.setback step) :
    p.Continues [step] p' := by
  have hcourse : p'.course = p.course ++ [step] := by
    simp [course, hsteps]
  have hmade : p'.made = p.made ++ attemptsIn [step] := by
    rw [made, hcourse, attemptsIn_append]
    rfl
  refine ⟨hcourse, ?_⟩
  intro h
  refine ⟨?_, ?_, ?_⟩
  · rw [hattempts, hmade, List.length_append, h.attempts]
  · rw [hnodes, hmade, List.map_append, h.nodesTried]
  · rw [hsetback, hcourse, setbackAfter_concat, h.setback]

theorem continues_look (w : Surroundings σ) (p : Progress σ) :
    p.Continues [.looked (p.look w).1] (p.look w).2 :=
  (p.continues_ask w.isCancelled).trans
    (continues_step rfl rfl (List.append_nil _).symm rfl)

theorem continues_timeLeft (w : Surroundings σ) (deadline : Instant) (p : Progress σ) :
    p.Continues [] (p.timeLeft w deadline).2 :=
  p.continues_ask w.timer

theorem continues_backoff (w : Surroundings σ) (node : NodeId) (p : Progress σ) :
    p.Continues [] (p.backoff w node).2 :=
  p.continues_ask w.clock

theorem continues_expire (p : Progress σ) : p.Continues [.expired] p.expire.2 :=
  continues_step rfl rfl (List.append_nil _).symm rfl

theorem continues_skip (p : Progress σ) (node : NodeId) (backoff left : Duration) :
    p.Continues [.skipped node backoff left]
      ({ p with setback := some (p.setback.getD (.inBackoff node)) }.log
        (.skipped node backoff left)) :=
  continues_step rfl rfl (List.append_nil _).symm rfl

theorem continues_pause (p : Progress σ) (world : σ) (registry : Registry) (node : NodeId)
    (length left : Duration) (wake : Wake) :
    p.Continues [.paused node length left wake]
      ({ p with world := world, registry := registry }.log (.paused node length left wake)) :=
  continues_step rfl rfl (List.append_nil _).symm rfl

end Progress

end LedgerClient
