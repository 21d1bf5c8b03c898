import LedgerClient.Proofs.Delivery.Warrant
import LedgerClient.Proofs.Delivery.Result
import LedgerClient.Rehearsal.Network
import Mathlib.Data.List.Basic

/-!
# Deliveries that were cancelled

A caller may cancel at any time.  A delivery looks before each candidate and after each
attempt, and a pause can be cut short; what is seen then ends the delivery.  But a pause may
also report that its time is up when the caller has cancelled by then.  Nobody looks after a
pause, so one more attempt can follow.  The main statement says what cancellation means at
each step of a delivery; an example shows that the attempt too many is made.
-/

namespace LedgerClient

/-!
## What follows a step
-/

def BeginsWithLook (course : List Step) : Prop :=
  exists cancelled rest, course = .looked cancelled :: rest

/-- Right after an attempt comes a look, and after a node was passed over if anything comes. -/
def Step.Precedes (after : List Step) : Step -> Prop
  | .attempted _ => BeginsWithLook after
  | .skipped _ _ _ => after = [] ∨ BeginsWithLook after
  | _ => True

def Orderly : List Step -> Prop
  | [] => True
  | step :: rest => step.Precedes rest ∧ Orderly rest

theorem BeginsWithLook.append {xs : List Step} (h : BeginsWithLook xs) (ys : List Step) :
    BeginsWithLook (xs ++ ys) := by
  rcases h with ⟨cancelled, rest, hxs⟩
  rw [hxs]
  exact ⟨cancelled, rest ++ ys, rfl⟩

theorem Step.Precedes.append {step : Step} {xs ys : List Step} (h : step.Precedes xs)
    (hys : ys = [] ∨ BeginsWithLook ys) : step.Precedes (xs ++ ys) := by
  cases step with
  | attempted a => exact BeginsWithLook.append h ys
  | skipped node backoff left =>
      rcases h with hnone | hlook
      · rw [hnone]
        exact hys
      · exact Or.inr (hlook.append ys)
  | looked cancelled => trivial
  | expired => trivial
  | paused node length left wake => trivial

theorem orderly_append {xs ys : List Step} (hxs : Orderly xs) (hys : Orderly ys)
    (hbegin : ys = [] ∨ BeginsWithLook ys) : Orderly (xs ++ ys) := by
  induction xs with
  | nil => exact hys
  | cons step rest ih => exact ⟨hxs.left.append hbegin, ih hxs.right⟩

theorem precedes_of_orderly {before after : List Step} {step : Step}
    (h : Orderly (before ++ step :: after)) : step.Precedes after ∧ Orderly after := by
  induction before with
  | nil => exact h
  | cons first rest ih => exact ih h.right

theorem orderly_pauses {node : NodeId} {pauses rest : List Step} (h : Pauses node pauses)
    (hrest : Orderly rest) : Orderly (pauses ++ rest) := by
  induction h with
  | none => exact hrest
  | one _ _ ih => exact ⟨trivial, ih⟩

theorem Pauses.orderly {node : NodeId} {pauses : List Step} (h : Pauses node pauses) :
    Orderly pauses := by
  have hnone : Orderly [] := trivial
  rw [← List.append_nil pauses]
  exact orderly_pauses h hnone

theorem orderly_gate {node : NodeId} {steps : List Step} {gate : Progress.Gate}
    (h : GateCourse node steps gate) : Orderly steps := by
  cases h with
  | opened left hpauses => exact hpauses.orderly
  | skipped hpauses _ => exact orderly_pauses hpauses ⟨Or.inl rfl, trivial⟩
  | cancelled hpauses _ => exact orderly_pauses hpauses ⟨trivial, trivial⟩
  | stillWaiting hpauses => exact hpauses.orderly

namespace Progress

variable {σ : Type} {settings : DeliverySettings} {request : Request} {maxAttempts : Nat}
  {node : Node} {p p' : Progress σ} {steps : List Step}

theorem orderly_approach {t : Turn} (h : ApproachCourse settings request node p steps t) :
    Orderly steps := by
  cases h with
  | foreign _ => trivial
  | outOfRange => trivial
  | discarded _ => exact ⟨⟨true, [], rfl⟩, trivial, trivial⟩
  | concluded _ => exact ⟨⟨false, [], rfl⟩, trivial, trivial⟩

/-- A turn in which anything is done begins with a look. -/
theorem turn_orderly {t : Turn}
    (h : TurnCourse settings request maxAttempts node p p' steps t) :
    Orderly steps ∧ (steps = [] ∨ BeginsWithLook steps) := by
  cases h with
  | spent _ => exact ⟨trivial, Or.inl rfl⟩
  | withdrawn => exact ⟨⟨trivial, trivial⟩, Or.inr ⟨true, [], rfl⟩⟩
  | expired hpauses =>
      exact ⟨⟨trivial, orderly_pauses hpauses ⟨trivial, trivial⟩⟩, Or.inr ⟨false, _, rfl⟩⟩
  | cancelled hgate => exact ⟨⟨trivial, orderly_gate hgate⟩, Or.inr ⟨false, _, rfl⟩⟩
  | stillWaiting hgate => exact ⟨⟨trivial, orderly_gate hgate⟩, Or.inr ⟨false, _, rfl⟩⟩
  | skipped hgate => exact ⟨⟨trivial, orderly_gate hgate⟩, Or.inr ⟨false, _, rfl⟩⟩
  | approached _ hpauses happroach =>
      exact ⟨⟨trivial, orderly_pauses hpauses (orderly_approach happroach)⟩,
        Or.inr ⟨false, _, rfl⟩⟩

theorem visit_orderly (w : Surroundings σ) (deadline : Instant) (candidates : List Node)
    (horderly : Orderly p.course) :
    Orderly (visit w settings request deadline maxAttempts candidates p).2.course := by
  apply visit_induction (motive := fun q => Orderly q.course) w deadline candidates _ horderly
  intro node q q' steps t _ hcontinues hturn hq
  rw [hcontinues.course]
  exact orderly_append hq (turn_orderly hturn).left (turn_orderly hturn).right

end Progress

/-!
## Looks that show cancellation
-/

/-- A node has answered for or against the request. -/
def Ending.IsVerdict : Ending Response -> Prop
  | .answered _ => True
  | .failed (.precheck _ _) => True
  | _ => False

section

variable {request : Request} {before after : List Step} {step : Step} {ending : Ending Response}

/-- Nothing that shows cancellation stands before the end of a course. -/
theorem showsCancelled_dropLast {course : List Step} (h : Concludes request course ending)
    (hstep : step ∈ course.dropLast) : step.showsCancelled = false := by
  have hquiet : forall earlier : List Step, Undecided earlier -> step ∈ earlier ->
      step.showsCancelled = false := by
    intro earlier hundecided hmem
    have hall := showsCancelled_of_undecided hundecided
    rw [List.any_eq_false] at hall
    simpa using hall step hmem
  have hquietAttempt : forall (earlier : List Step) (a : Attempt), Undecided earlier ->
      step ∈ earlier ++ [.attempted a] -> step.showsCancelled = false := by
    intro earlier a hundecided hmem
    rcases List.mem_append.mp hmem with hearlier | hattempt
    · exact hquiet earlier hundecided hearlier
    · rw [List.mem_singleton.mp hattempt]
      rfl
  cases h with
  | answered hundecided _ _ => exact hquietAttempt _ _ hundecided (by simpa using hstep)
  | rejected hundecided _ => exact hquietAttempt _ _ hundecided (by simpa using hstep)
  | discarded hundecided => exact hquietAttempt _ _ hundecided (by simpa using hstep)
  | withdrawn hundecided => exact hquiet _ hundecided (by simpa using hstep)
  | interrupted hundecided => exact hquiet _ hundecided (by simpa using hstep)
  | exhausted hundecided => exact hquiet _ hundecided (List.dropLast_subset _ hstep)
  | foreign hundecided _ _ => exact hquiet _ hundecided (List.dropLast_subset _ hstep)
  | halted _ hundecided => exact hquiet _ hundecided (List.dropLast_subset _ hstep)

/-- A step that shows cancellation is the last one. -/
theorem ended_of_showsCancelled (h : Concludes request (before ++ step :: after) ending)
    (hshows : step.showsCancelled = true) : after = [] ∧ ending = .failed .cancelled := by
  constructor
  · cases hafter : after with
    | nil => rfl
    | cons next rest =>
        have hmem : step ∈ (before ++ step :: after).dropLast := by
          rw [hafter, List.dropLast_append_cons, List.dropLast_cons_cons]
          simp
        rw [showsCancelled_dropLast h hmem] at hshows
        cases hshows
  · exact (cancelled_iff h).mpr (List.any_eq_true.mpr ⟨step, by simp, hshows⟩)

/-- Wherever it is looked from here on, cancellation is seen. -/
def AllShow (course : List Step) : Prop :=
  forall cancelled, .looked cancelled ∈ course -> cancelled = true

theorem ended_of_beginsWithLook (h : Concludes request (before ++ after) ending)
    (hshow : AllShow after) (hbegins : BeginsWithLook after) :
    after = [.looked true] ∧ ending = .failed .cancelled := by
  rcases hbegins with ⟨cancelled, rest, hafter⟩
  have htrue : cancelled = true := hshow cancelled (by simp [hafter])
  rw [hafter] at h
  rcases ended_of_showsCancelled h htrue with ⟨hrest, hending⟩
  rw [hafter, htrue, hrest]
  exact ⟨rfl, hending⟩

/-- The first attempt is followed by a look, and the look ends the delivery. -/
theorem attemptsIn_of_allShow (h : Concludes request (before ++ after) ending)
    (hshow : AllShow after) (horderly : Orderly after) : (attemptsIn after).length ≤ 1 := by
  induction after generalizing before with
  | nil => exact Nat.zero_le 1
  | cons step rest ih =>
      rw [List.append_cons] at h
      have hrest : AllShow rest :=
        fun cancelled hmem => hshow cancelled (List.mem_cons_of_mem step hmem)
      cases step with
      | attempted a =>
          rw [(ended_of_beginsWithLook h hrest horderly.left).left]
          exact Nat.le_refl 1
      | looked cancelled => exact ih h hrest horderly.right
      | expired => exact ih h hrest horderly.right
      | paused node length left wake => exact ih h hrest horderly.right
      | skipped node backoff left => exact ih h hrest horderly.right

/-- A verdict is only given after a look that shows nothing. -/
theorem not_isVerdict {course : List Step} (h : Concludes request course ending)
    (hlast : course.getLast? ≠ some (.looked false)) : ¬ ending.IsVerdict := by
  cases h with
  | answered _ _ _ => exact (hlast (by simp)).elim
  | rejected _ _ => exact (hlast (by simp)).elim
  | discarded _ => exact id
  | withdrawn _ => exact id
  | interrupted _ => exact id
  | exhausted _ => exact id
  | foreign _ _ _ => exact id
  | halted _ _ => exact id

theorem not_isVerdict_of_allShow (h : Concludes request (before ++ step :: after) ending)
    (hshow : AllShow after) (hstep : step ≠ .looked false) : ¬ ending.IsVerdict := by
  apply not_isVerdict h
  intro hlast
  rw [List.getLast?_append_of_ne_nil before (List.cons_ne_nil step after)] at hlast
  rcases List.mem_cons.mp (List.mem_of_getLast? hlast) with hsame | hmem
  · exact hstep hsame.symm
  · cases hshow false hmem

end

/-!
## Cancellation at each step
-/

variable {σ : Type}

def Surroundings.HasCancelled (w : Surroundings σ) (s : σ) : Prop :=
  (w.isCancelled s).1 = true

theorem Makes.looked_eq {w : Surroundings σ} {c d : Scene σ} {cancelled : Bool}
    (h : Makes w c (.looked cancelled) d) :
    cancelled = (w.isCancelled c.world).1 ∧ d = c.move (w.isCancelled c.world).2 := by
  cases h
  exact ⟨rfl, rfl⟩

theorem Makes.paused_eq {w : Surroundings σ} {c d : Scene σ} {node : NodeId}
    {length left : Duration} {wake : Wake} (h : Makes w c (.paused node length left wake) d) :
    wake = (w.pause length c.world).1 ∧ d = c.paused w length := by
  cases h
  exact ⟨rfl, rfl⟩

/-- Once the caller has cancelled, every look shows it. -/
theorem Passage.allShow {w : Surroundings σ} {c d : Scene σ} {steps : List Step}
    (hlasts : w.Lasting w.HasCancelled) (h : Passage w c steps d) (hc : w.HasCancelled c.world) :
    AllShow steps := by
  induction h with
  | done c =>
      intro cancelled hmem
      cases hmem
  | timed _ ih => exact ih (hlasts.timer _ hc)
  | clocked _ ih => exact ih (hlasts.clock _ hc)
  | made hstep _ ih =>
      intro cancelled hmem
      rcases List.mem_cons.mp hmem with hfirst | hrest
      · rw [← hfirst] at hstep
        exact hstep.looked_eq.left.trans hc
      · exact ih (hlasts.makes hstep hc) cancelled hrest

/-- Looking leaves the records of the nodes as they are. -/
theorem Passage.registry_looked {w : Surroundings σ} {c d : Scene σ} {steps : List Step}
    (h : Passage w c steps d) (hlooks : forall step, step ∈ steps -> step = .looked true) :
    d.registry = c.registry := by
  induction h with
  | done c => rfl
  | timed _ ih => exact ih hlooks
  | clocked _ ih => exact ih hlooks
  | made hstep _ ih =>
      rw [List.forall_mem_cons] at hlooks
      rw [ih hlooks.right]
      rw [hlooks.left] at hstep
      rw [hstep.looked_eq.right]
      rfl

/-- What it means for a delivery that the caller has cancelled at the step from `c` to `d`, with
the steps `after` still to come. -/
structure Heeds (w : Surroundings σ) (c d : Scene σ) (step : Step) (after : List Step)
    (run : Run σ Response) : Prop where
  looking : forall cancelled, step = .looked cancelled -> w.HasCancelled c.world ->
    after = [] ∧ run.ending = .failed .cancelled
  passingOver : forall node backoff left, step = .skipped node backoff left ->
    w.HasCancelled d.world -> attemptsIn after = [] ∧ ¬ run.ending.IsVerdict
  /-- An attempt is finished and recorded, then its result is dropped. -/
  attempting : forall a, step = .attempted a -> w.HasCancelled d.world ->
    after = [.looked true] ∧ run.ending = .failed .cancelled ∧ run.registry = d.registry
  noticing : forall node length left, step = .paused node length left .cancelled ->
    after = [] ∧ run.ending = .failed .cancelled ∧ run.registry = d.registry
  /-- When a pause does not tell, one more attempt may follow; its result is dropped too. -/
  overlooking : forall node length left, step = .paused node length left .elapsed ->
    w.HasCancelled d.world -> (attemptsIn after).length ≤ 1 ∧ ¬ run.ending.IsVerdict

theorem heeds_of_passage {w : Surroundings σ} {c d : Scene σ} {request : Request} {step : Step}
    {before after : List Step} {run : Run σ Response} (hlasts : w.Lasting w.HasCancelled)
    (hconcludes : Concludes request (before ++ step :: after) run.ending)
    (horderly : Orderly (before ++ step :: after)) (hmakes : Makes w c step d)
    (hafter : Passage w d after run.scene) : Heeds w c d step after run := by
  have hsuffix : Concludes request ((before ++ [step]) ++ after) run.ending := by
    rw [← List.append_cons]
    exact hconcludes
  rcases precedes_of_orderly horderly with ⟨hprecedes, hrest⟩
  constructor
  case looking =>
    intro cancelled hstep hcancelled
    rw [hstep] at hmakes
    apply ended_of_showsCancelled hconcludes
    rw [hstep]
    exact hmakes.looked_eq.left.trans hcancelled
  case passingOver =>
    intro node backoff left hstep hcancelled
    have hshow := hafter.allShow hlasts hcancelled
    rw [hstep] at hprecedes
    refine ⟨?_, not_isVerdict_of_allShow hconcludes hshow (by simp [hstep])⟩
    rcases hprecedes with hnone | hbegins
    · rw [hnone]
      rfl
    · rw [(ended_of_beginsWithLook hsuffix hshow hbegins).left]
      rfl
  case attempting =>
    intro a hstep hcancelled
    have hshow := hafter.allShow hlasts hcancelled
    rw [hstep] at hprecedes
    rcases ended_of_beginsWithLook hsuffix hshow hprecedes with ⟨hlook, hending⟩
    refine ⟨hlook, hending, hafter.registry_looked ?_⟩
    rw [hlook]
    simp
  case noticing =>
    intro node length left hstep
    rcases ended_of_showsCancelled hconcludes (by simp [hstep]) with ⟨hnone, hending⟩
    refine ⟨hnone, hending, hafter.registry_looked ?_⟩
    rw [hnone]
    simp
  case overlooking =>
    intro node length left hstep hcancelled
    have hshow := hafter.allShow hlasts hcancelled
    exact ⟨attemptsIn_of_allShow hsuffix hshow hrest,
      not_isVerdict_of_allShow hconcludes hshow (by simp [hstep])⟩

namespace Engine

theorem deliver_orderly (e : Engine) (w : Surroundings σ) (request : Request) (deadline : Instant)
    (world : σ) : Orderly (e.deliver w request deadline world).steps := by
  unfold deliver
  cases e.registry.candidates request.nodes with
  | error error => trivial
  | ok candidates => exact Progress.visit_orderly w deadline _ trivial

/-- A step of a delivery was made between two scenes on its way, and between whichever scenes it was
made, it heeds cancellation. -/
theorem deliver_heeds (e : Engine) (w : Surroundings σ) (request : Request) (deadline : Instant)
    (world : σ) (hlasts : w.Lasting w.HasCancelled) :
    forall before step after,
      (e.deliver w request deadline world).steps = before ++ step :: after ->
        (exists c d, Passage w { world := world, registry := e.registry } before c ∧
          Makes w c step d ∧ Passage w d after (e.deliver w request deadline world).scene) ∧
        forall c d, Makes w c step d ->
          Passage w d after (e.deliver w request deadline world).scene ->
          Heeds w c d step after (e.deliver w request deadline world) := by
  intro before step after hsteps
  have horderly := e.deliver_orderly w request deadline world
  rw [hsteps] at horderly
  constructor
  · have hpassage := e.deliver_passage w request deadline world
    rw [hsteps] at hpassage
    exact hpassage.at_step
  · intro c d hmakes hafter
    cases hcandidates : e.registry.candidates request.nodes with
    | error error =>
        rw [deliver_eq_refuse hcandidates] at hsteps
        simp [refuse] at hsteps
    | ok candidates =>
        have hconcludes := deliver_concludes hcandidates w deadline world
        rw [hsteps] at hconcludes
        exact heeds_of_passage hlasts hconcludes horderly hmakes hafter

end Engine

/-!
## An attempt in flight and a pause that does not tell
-/

/-- A node that has failed at zero and is left alone for a quarter of a second. -/
def failedNode : Node :=
  (Node.new ⟨3⟩ "10.0.0.3:50211" Health.defaultMinBackoff Health.defaultMaxBackoff).record (.failed 0)

def waitingEngine : Engine :=
  { settings :=
      { transport := .plaintext
        maxAttempts := none
        attemptShare := default
        waitForUnhealthy := true }
    registry :=
      { nodes := [failedNode]
        nodes_ne_nil := List.cons_ne_nil failedNode []
        ids_nodup := by decide
        addresses_nodup := by decide } }

/-- What is asked of the failed node. -/
def patientQuery : Request :=
  { subject := .query, method := ⟨100⟩, nodes := [⟨3⟩], payloads := [[]] }

/-- The caller cancels while a node is asked, which then does not answer. -/
def interrupting : Surroundings Bool where
  timer s := (⟨0⟩, s)
  clock s := (250, s)
  isCancelled s := (s, s)
  pause _ s := (.elapsed, [], s)
  exchange _ _ _ := (.timedOut, [], true)
  nonce s := (0, s)
  patience := 1

theorem interrupting_lasting : interrupting.Lasting interrupting.HasCancelled where
  timer := fun _ h => h
  clock := fun _ h => h
  isCancelled := fun _ h => h
  pause := fun _ _ h => h
  exchange := fun _ _ _ _ => rfl

def interruptedRun : Run Bool Response :=
  waitingEngine.deliver interrupting patientQuery (Instant.ofMillis 10000) false

/-- The only attempt of the interrupted run. -/
def interruptedAttempt : Attempt :=
  { call :=
      { node := ⟨3⟩
        address := "10.0.0.3:50211"
        mode := .plaintext
        method := ⟨100⟩
        payload := [] }
    left := Duration.ofMillis 10000
    limit := Duration.ofMillis 10000
    usedAt := 250
    answer := .timedOut }

theorem interruptedRun_steps :
    interruptedRun.steps = [.looked false] ++ .attempted interruptedAttempt :: [.looked true] := by
  decide +kernel

theorem interruptedRun_heeds :
    interrupting.Lasting interrupting.HasCancelled ∧
      exists c d, Makes interrupting c (.attempted interruptedAttempt) d ∧
        Heeds interrupting c d (.attempted interruptedAttempt) [.looked true] interruptedRun := by
  rcases waitingEngine.deliver_heeds interrupting patientQuery (Instant.ofMillis 10000) false
    interrupting_lasting _ _ _ interruptedRun_steps with ⟨⟨c, d, _, hmakes, hafter⟩, hheeds⟩
  exact ⟨interrupting_lasting, c, d, hmakes, hheeds c d hmakes hafter⟩

/-- Where reading timer and clock changes nothing, there is no scene between two steps. -/
theorem Passage.eq_of_nil {w : Surroundings σ} {c d : Scene σ}
    (hreads : forall s, (w.timer s).2 = s ∧ (w.clock s).2 = s) (h : Passage w c [] d) : d = c := by
  generalize hnone : ([] : List Step) = steps at h
  induction h with
  | done c => rfl
  | timed _ ih => rw [ih hnone, Scene.move, (hreads _).left]
  | clocked _ ih => rw [ih hnone, Scene.move, (hreads _).right]
  | made _ _ _ => cases hnone

namespace Rehearsal

/-- A network whose caller cancels at the moment at which the node may be tried again. -/
def punctual : Network :=
  { Network.new (.running 0) with
    caller := { watched := true, cancelled := false, cancelsAt := some 250, leavesAt := none } }

def punctualRun : Run Network Response :=
  waitingEngine.deliver (surroundings 0) patientQuery (Instant.ofMillis 10000) punctual

theorem punctualRun_paused :
    punctualRun.steps.take 2 =
      [.looked false, .paused ⟨3⟩ (Duration.ofMillis 250) (Duration.ofMillis 10000) .elapsed] := by
  decide +kernel

theorem punctualRun_attempted : (attemptsIn (punctualRun.steps.drop 2)).length = 1 := by
  decide +kernel

theorem punctualRun_passage :
    Passage (surroundings 0) { world := punctual, registry := waitingEngine.registry }
      punctualRun.steps punctualRun.scene :=
  waitingEngine.deliver_passage (surroundings 0) _ _ punctual

/-- The caller has cancelled when the pause is over, and yet an attempt is made. -/
theorem attempt_after_overlooked_cancellation :
    ¬ forall before node length left wake after c d,
        punctualRun.steps = before ++ .paused node length left wake :: after ->
        Passage (surroundings 0) { world := punctual, registry := waitingEngine.registry }
          before c ->
        Makes (surroundings 0) c (.paused node length left wake) d ->
        Passage (surroundings 0) d after punctualRun.scene ->
        (surroundings 0).HasCancelled d.world ->
        attemptsIn after = [] := by
  intro hclaim
  have hsteps := List.take_append_drop 2 punctualRun.steps
  rw [punctualRun_paused, List.cons_append, List.cons_append, List.nil_append] at hsteps
  have hrun := punctualRun_passage
  rw [← hsteps] at hrun
  have hreads : forall n, ((surroundings 0).timer n).2 = n ∧ ((surroundings 0).clock n).2 = n :=
    fun _ => ⟨rfl, rfl⟩
  -- Nothing happens before the look and between it and the pause.
  rcases hrun.first with ⟨start, looked, hstart, hlook, hwait⟩
  rcases hwait.first with ⟨c, d, hc, hpause, hafter⟩
  rw [hstart.eq_of_nil hreads] at hlook
  rw [hc.eq_of_nil hreads, hlook.looked_eq.right] at hpause
  have hbefore := Passage.made hlook (.done looked)
  have hcancelled : (surroundings 0).HasCancelled d.world := by
    rw [hpause.paused_eq.right]
    rfl
  rw [← hlook.looked_eq.right] at hpause
  have hnone := hclaim [.looked false] _ _ _ _ _ looked d hsteps.symm hbefore hpause hafter
    hcancelled
  have hattempt := punctualRun_attempted
  rw [hnone] at hattempt
  cases hattempt

end Rehearsal

end LedgerClient
