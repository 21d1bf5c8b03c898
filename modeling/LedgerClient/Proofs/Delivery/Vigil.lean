import LedgerClient.Proofs.Delivery.Failover
import LedgerClient.Proofs.Delivery.Guard
import LedgerClient.Proofs.Node.Windows

/-!
# Windows in which a node is left alone

A failure opens a window in which its node is left alone.  Requests that wait for nodes keep to
it, also when the node stands twice in one request or is used again by a later one: the next
attempt is not made before the window has ended.  Only others can end it sooner, by a failure
whose window ends sooner or by a reset.
-/

namespace LedgerClient

variable {σ : Type}

/-!
## The record of a node in a step
-/

section

variable {w : Surroundings σ} {c d : Scene σ} {step : Step} {node : NodeId}

/-- A step that is no attempt at a node leaves its record to others. -/
theorem Makes.health_of_others (h : Makes w c step d) (hnode : node ∈ c.registry.ids)
    (hother : forall a, step = .attempted a -> a.node ≠ node) :
    d.registry.health node =
      (eventsAt node (c.meantime w step)).foldl Health.record (c.registry.health node) := by
  cases hattempt : step.attempt? with
  | none => rw [h.entries_of_no_attempt hattempt, Registry.health_meanwhile hnode]
  | some a =>
      cases step with
      | attempted b =>
          have hne := hother b rfl
          rcases h.entries_of_attempted with ⟨now, hentries⟩
          rw [hentries, Registry.health_meanwhile hnode, eventsAt_append, eventsAt_append,
            eventsAt_other hne, eventsAt_other hne, List.nil_append, List.append_nil]
      | _ => cases hattempt

/-- A failure opens a window at the time it is entered, which is not before the node was used. -/
theorem Makes.opens_window (hclock : w.ClockRuns) {a : Attempt} (h : Makes w c (.attempted a) d)
    (hnode : a.node ∈ c.registry.ids) (hfailed : a.outcome.isRetryable = true) :
    exists now earlier, a.usedAt ≤ now ∧
      d.registry.health a.node = Health.recordFailure earlier now := by
  have hids : a.node ∈ (c.sent w a.call a.left a.limit).2.registry.ids := by
    show a.node ∈ ((c.registry.record a.node _).meanwhile _).ids
    rw [Registry.ids_meanwhile, Registry.ids_record]
    exact hnode
  have hlater : a.usedAt ≤ (c.sent w a.call a.left a.limit).2.reading w := by
    rw [h.usedAt_eq]
    exact (hclock _).exchange a.call a.limit _ ((hclock _).clock _ (UInt64.le_refl _))
  refine ⟨_, (c.sent w a.call a.left a.limit).2.registry.health a.node, hlater, ?_⟩
  rw [h.attempted_eq.right]
  cases houtcome : a.outcome with
  | accepted payload =>
      rw [houtcome] at hfailed
      cases hfailed
  | rejected code =>
      rw [houtcome] at hfailed
      cases hfailed
  | retryable fault => exact Registry.health_record_same hids _

end

/-!
## Moments
-/

/-- A step of a delivery, or an interlude between requests, with all that others did to the
records meanwhile. -/
structure Moment (σ : Type) where
  here : Scene σ
  step : Option Step
  others : List Happening
  next : Scene σ

/-- Others end a window at a node that lasted until `till`. -/
def Moment.CutsShort (moment : Moment σ) (node : NodeId) (till : Timestamp) : Prop :=
  (moment.here.registry.health node).CutShort (eventsAt node moment.others) till

/-- An attempt is made at a registered node that is not left alone. -/
def Step.IsPatient (c : Scene σ) (step : Step) : Prop :=
  forall a, step = .attempted a ->
    a.node ∈ c.registry.ids ∧ (c.registry.health a.node).backoffUntil ≤ a.usedAt

/-- The moments between two scenes when no node is tried while it is left alone. -/
inductive Vigil (w : Surroundings σ) : Scene σ -> List (Moment σ) -> Scene σ -> Prop where
  | done (c : Scene σ) : Vigil w c [] c
  | timed {c d : Scene σ} {moments : List (Moment σ)} :
      Vigil w (c.timed w) moments d -> Vigil w c moments d
  | clocked {c d : Scene σ} {moments : List (Moment σ)} :
      Vigil w (c.clocked w) moments d -> Vigil w c moments d
  | made {c next d : Scene σ} {step : Step} {moments : List (Moment σ)} :
      step.IsPatient c ->
      Makes w c step next ->
      Vigil w next moments d ->
      Vigil w c (⟨c, some step, c.meantime w step, next⟩ :: moments) d
  | interlude {c next d : Scene σ} {others : List Happening} {moments : List (Moment σ)} :
      c.reading w ≤ next.reading w ->
      next.registry = c.registry.meanwhile others ->
      Vigil w next moments d ->
      Vigil w c (⟨c, none, others, next⟩ :: moments) d

namespace Vigil

variable {w : Surroundings σ} {c d : Scene σ} {xs ys : List (Moment σ)} {node : NodeId}
  {till : Timestamp}

theorem append {between : Scene σ} (hxs : Vigil w c xs between) (hys : Vigil w between ys d) :
    Vigil w c (xs ++ ys) d := by
  induction hxs with
  | done c => exact hys
  | timed _ ih => exact .timed (ih hys)
  | clocked _ ih => exact .clocked (ih hys)
  | made hpatient hmakes _ ih => exact .made hpatient hmakes (ih hys)
  | interlude hclock hothers _ ih => exact .interlude hclock hothers (ih hys)

/-- There is a scene for every place in a vigil. -/
theorem split (h : Vigil w c (xs ++ ys) d) :
    exists between, Vigil w c xs between ∧ Vigil w between ys d := by
  generalize hmoments : xs ++ ys = moments at h
  induction h generalizing xs with
  | done c =>
      rcases List.append_eq_nil_iff.mp hmoments with ⟨hxs, hys⟩
      rw [hxs, hys]
      exact ⟨c, .done c, .done c⟩
  | timed _ ih =>
      rcases ih hmoments with ⟨between, hfirst, hsecond⟩
      exact ⟨between, .timed hfirst, hsecond⟩
  | clocked _ ih =>
      rcases ih hmoments with ⟨between, hfirst, hsecond⟩
      exact ⟨between, .clocked hfirst, hsecond⟩
  | @made c next d step moments hpatient hmakes hrest ih =>
      cases xs with
      | nil =>
          rw [List.nil_append] at hmoments
          rw [hmoments]
          exact ⟨c, .done c, .made hpatient hmakes hrest⟩
      | cons first others =>
          rw [List.cons_append] at hmoments
          injection hmoments with hfirst hothers
          rcases ih hothers with ⟨between, hbefore, hafter⟩
          rw [hfirst]
          exact ⟨between, .made hpatient hmakes hbefore, hafter⟩
  | @interlude c next d happenings moments hclock hregistry hrest ih =>
      cases xs with
      | nil =>
          rw [List.nil_append] at hmoments
          rw [hmoments]
          exact ⟨c, .done c, .interlude hclock hregistry hrest⟩
      | cons first others =>
          rw [List.cons_append] at hmoments
          injection hmoments with hfirst hothers
          rcases ih hothers with ⟨between, hbefore, hafter⟩
          rw [hfirst]
          exact ⟨between, .interlude hclock hregistry hbefore, hafter⟩

/-- The first of the moments, if it is a step, is made after readings alone. -/
theorem first {moment : Moment σ} {step : Step} (h : Vigil w c (moment :: xs) d)
    (hstep : moment.step = some step) :
    Vigil w c [] moment.here ∧ step.IsPatient moment.here ∧
      Makes w moment.here step moment.next ∧ Vigil w moment.next xs d := by
  generalize hmoments : moment :: xs = moments at h
  induction h with
  | done c => cases hmoments
  | timed _ ih =>
      rcases ih hmoments with ⟨hread, hrest⟩
      exact ⟨.timed hread, hrest⟩
  | clocked _ ih =>
      rcases ih hmoments with ⟨hread, hrest⟩
      exact ⟨.clocked hread, hrest⟩
  | made hpatient hmakes hrest _ =>
      cases hmoments
      cases hstep
      exact ⟨.done _, hpatient, hmakes, hrest⟩
  | interlude _ _ _ _ =>
      cases hmoments
      cases hstep

theorem ids (h : Vigil w c xs d) : d.registry.ids = c.registry.ids := by
  induction h with
  | done c => rfl
  | timed _ ih => exact ih
  | clocked _ ih => exact ih
  | made _ hmakes _ ih => rw [ih, hmakes.ids]
  | interlude _ hothers _ ih => rw [ih, hothers, Registry.ids_meanwhile]

end Vigil

/-!
## Windows are kept
-/

/-- A window at a node that lasted until `till` lasts still, or that time has come. -/
def Scene.Keeps (w : Surroundings σ) (node : NodeId) (till : Timestamp) (c : Scene σ) : Prop :=
  till ≤ (c.registry.health node).backoffUntil ∨ till ≤ c.reading w

section

variable {w : Surroundings σ} {c d : Scene σ} {node : NodeId} {till : Timestamp}

/-- If others act on a record alone, a window is kept unless they end it. -/
theorem Scene.Keeps.of_others {others : List Happening} (h : c.Keeps w node till)
    (hclock : c.reading w ≤ d.reading w)
    (hhealth : d.registry.health node =
      (eventsAt node others).foldl Health.record (c.registry.health node)) :
    d.Keeps w node till ∨ (c.registry.health node).CutShort (eventsAt node others) till := by
  rcases h with hlasts | hpast
  · rcases Health.lasts_or_cutShort hlasts (eventsAt node others) with hkept | hcut
    · rw [← hhealth] at hkept
      exact Or.inl (Or.inl hkept)
    · exact Or.inr hcut
  · exact Or.inl (Or.inr (UInt64.le_trans hpast hclock))

/-- When a node may be tried, every window that was kept has ended. -/
theorem Scene.Keeps.ended {a : Attempt} (h : c.Keeps w a.node till)
    (hpatient : (Step.attempted a).IsPatient c) (hmakes : Makes w c (.attempted a) d) :
    till ≤ a.usedAt := by
  rcases h with hlasts | hpast
  · exact UInt64.le_trans hlasts (hpatient a rfl).right
  · rw [hmakes.usedAt_eq]
    exact hpast

theorem Scene.Keeps.makes {step : Step} (h : c.Keeps w node till) (hclock : w.ClockRuns)
    (hnode : node ∈ c.registry.ids) (hpatient : step.IsPatient c) (hmakes : Makes w c step d) :
    d.Keeps w node till ∨
      (c.registry.health node).CutShort (eventsAt node (c.meantime w step)) till := by
  by_cases hself : exists a, step = .attempted a ∧ a.node = node
  · rcases hself with ⟨a, hstep, hsame⟩
    rw [← hsame] at h
    rw [hstep] at hpatient hmakes
    have hended := h.ended hpatient hmakes
    rw [hmakes.usedAt_eq] at hended
    exact Or.inl (Or.inr (UInt64.le_trans hended (hclock.makes hmakes)))
  · have hother : forall a, step = .attempted a -> a.node ≠ node :=
      fun a hstep hsame => hself ⟨a, hstep, hsame⟩
    exact h.of_others (hclock.makes hmakes) (hmakes.health_of_others hnode hother)

theorem Vigil.keeps {moments : List (Moment σ)} (hvigil : Vigil w c moments d)
    (hclock : w.ClockRuns) (hnode : node ∈ c.registry.ids) (hkeeps : c.Keeps w node till) :
    d.Keeps w node till ∨ exists moment, moment ∈ moments ∧ moment.CutsShort node till := by
  induction hvigil with
  | done c => exact Or.inl hkeeps
  | @timed c d moments _ ih =>
      have hread : c.reading w ≤ (c.timed w).reading w :=
        hclock.passage (.timed (.done _) : Passage w c [] (c.timed w))
      exact ih hnode (hkeeps.imp id fun hpast => UInt64.le_trans hpast hread)
  | @clocked c d moments _ ih =>
      have hread : c.reading w ≤ (c.clocked w).reading w :=
        hclock.passage (.clocked (.done _) : Passage w c [] (c.clocked w))
      exact ih hnode (hkeeps.imp id fun hpast => UInt64.le_trans hpast hread)
  | made hpatient hmakes _ ih =>
      rcases hkeeps.makes hclock hnode hpatient hmakes with hnext | hcut
      · rw [← hmakes.ids] at hnode
        rcases ih hnode hnext with hlast | ⟨moment, hmem, hcut⟩
        · exact Or.inl hlast
        · exact Or.inr ⟨moment, List.mem_cons_of_mem _ hmem, hcut⟩
      · exact Or.inr ⟨_, List.mem_cons_self .., hcut⟩
  | @interlude c next d others moments hforward hothers _ ih =>
      have hhealth := Registry.health_meanwhile hnode others
      rw [← hothers] at hhealth
      rcases hkeeps.of_others hforward hhealth with hnext | hcut
      · rw [← Registry.ids_meanwhile, ← hothers] at hnode
        rcases ih hnode hnext with hlast | ⟨moment, hmem, hcut⟩
        · exact Or.inl hlast
        · exact Or.inr ⟨moment, List.mem_cons_of_mem _ hmem, hcut⟩
      · exact Or.inr ⟨_, List.mem_cons_self .., hcut⟩

end

/-- Between a failed attempt at a node and a later attempt at it, the window that the failure
opened has ended or others have ended it sooner. -/
def KeepsWindows (moments : List (Moment σ)) : Prop :=
  forall earlier p between q later a b,
    moments = earlier ++ p :: (between ++ q :: later) ->
    p.step = some (.attempted a) -> q.step = some (.attempted b) ->
    b.node = a.node -> a.outcome.isRetryable = true ->
    exists now record, a.usedAt ≤ now ∧
      p.next.registry.health a.node = Health.recordFailure record now ∧
      ((record.recordFailure now).backoffUntil ≤ b.usedAt ∨
        exists moment, moment ∈ between ∧
          moment.CutsShort a.node (record.recordFailure now).backoffUntil)

theorem Vigil.keepsWindows {w : Surroundings σ} {c d : Scene σ} {moments : List (Moment σ)}
    (hclock : w.ClockRuns) (h : Vigil w c moments d) : KeepsWindows moments := by
  intro earlier p between q later a b hmoments hp hq hnode hfailed
  rw [hmoments] at h
  rcases h.split with ⟨_, _, hfrom⟩
  rcases hfrom.first hp with ⟨_, hpatient, hmakes, hafter⟩
  have hregistered := (hpatient a rfl).left
  rcases hmakes.opens_window hclock hregistered hfailed with ⟨now, record, hlater, hwindow⟩
  refine ⟨now, record, hlater, hwindow, ?_⟩
  rcases hafter.split with ⟨m, hbetween, hrest⟩
  rcases hrest.first hq with ⟨hread, hready, hagain, _⟩
  rw [← hmakes.ids] at hregistered
  -- The window lasts when it is opened; what keeps it is followed up to the later attempt.
  have hopened : p.next.Keeps w a.node (record.recordFailure now).backoffUntil := by
    left
    rw [hwindow]
    exact UInt64.le_refl _
  have hreach := hbetween.append hread
  rw [List.append_nil] at hreach
  rcases hreach.keeps hclock hregistered hopened with hkept | hcut
  · left
    rw [← hnode] at hkept
    exact hkept.ended hready hagain
  · exact Or.inr hcut

/-!
## Requests that wait are vigils
-/

/-- The steps between two scenes are those of a vigil. -/
def KeepsVigil (w : Surroundings σ) (c : Scene σ) (steps : List Step) (d : Scene σ) : Prop :=
  exists moments, Vigil w c moments d ∧ moments.filterMap Moment.step = steps

section

variable {w : Surroundings σ} {c between d : Scene σ} {xs ys : List Step}

theorem KeepsVigil.refl (c : Scene σ) : KeepsVigil w c [] c :=
  ⟨[], .done c, rfl⟩

theorem KeepsVigil.append (hxs : KeepsVigil w c xs between) (hys : KeepsVigil w between ys d) :
    KeepsVigil w c (xs ++ ys) d := by
  rcases hxs with ⟨first, hfirst, hfirstSteps⟩
  rcases hys with ⟨second, hsecond, hsecondSteps⟩
  refine ⟨first ++ second, hfirst.append hsecond, ?_⟩
  rw [List.filterMap_append, hfirstSteps, hsecondSteps]

theorem KeepsVigil.of_passage_nil (h : Passage w c [] d) : KeepsVigil w c [] d := by
  generalize hsteps : [] = steps at h
  induction h with
  | done c => exact .refl c
  | timed _ ih =>
      rcases ih hsteps with ⟨moments, hvigil, hmoments⟩
      exact ⟨moments, .timed hvigil, hmoments⟩
  | clocked _ ih =>
      rcases ih hsteps with ⟨moments, hvigil, hmoments⟩
      exact ⟨moments, .clocked hvigil, hmoments⟩
  | made _ _ _ => cases hsteps

theorem KeepsVigil.of_guarded (hclock : w.ClockRuns) {settings : DeliverySettings}
    {deadline : Instant} (hwait : settings.waitForUnhealthy = true)
    (h : Guarded w (Warranted w settings deadline) c xs d)
    (hregistered : forall a, a ∈ attemptsIn xs -> a.node ∈ c.registry.ids) :
    KeepsVigil w c xs d := by
  induction h with
  | done c => exact .refl c
  | timed _ ih =>
      rcases ih hregistered with ⟨moments, hvigil, hmoments⟩
      exact ⟨moments, .timed hvigil, hmoments⟩
  | clocked _ ih =>
      rcases ih hregistered with ⟨moments, hvigil, hmoments⟩
      exact ⟨moments, .clocked hvigil, hmoments⟩
  | @made m c next d step steps hwarranted hmakes _ ih =>
      have hread := hwarranted.passage
      have hpatient : step.IsPatient c := by
        intro a hstep
        subst hstep
        constructor
        · rw [hread.ids]
          exact hregistered a (List.mem_cons_self ..)
        · cases hwarranted with
          | attempted hfree _ =>
              rw [hmakes.usedAt_eq]
              exact hfree.backoffUntil_le hwait hclock
      have hrest : forall a, a ∈ attemptsIn steps -> a.node ∈ next.registry.ids := by
        intro a ha
        rw [hmakes.ids, hread.ids]
        apply hregistered a
        rw [show step :: steps = [step] ++ steps from rfl, attemptsIn_append]
        exact List.mem_append_right _ ha
      rcases ih hrest with ⟨moments, hvigil, hmoments⟩
      have hstep : KeepsVigil w c (step :: steps) d :=
        ⟨_, .made hpatient hmakes hvigil, by rw [← hmoments]; rfl⟩
      exact (of_passage_nil hread).append hstep

theorem Deliveries.keepsVigil {settings : DeliverySettings} {ds : List (Delivery σ)}
    (h : Deliveries w settings c ds d) (hclock : w.ClockRuns)
    (hwait : settings.waitForUnhealthy = true) : KeepsVigil w c (Delivery.stepsOf w ds) d := by
  induction h with
  | none c => exact .refl c
  | timed _ ih =>
      rcases ih with ⟨moments, hvigil, hmoments⟩
      exact ⟨moments, .timed hvigil, hmoments⟩
  | @next first rest d hsettings _ ih =>
      rw [← hsettings] at hwait
      have hfirst := KeepsVigil.of_guarded hclock hwait (first.warranted w)
        (fun a ha => first.registered w ha)
      exact hfirst.append ih

end

/-- Requests through one registry, one after the other, all of which wait for nodes.  In between
others use the records and time goes by. -/
inductive Season (w : Surroundings σ) : Scene σ -> List Step -> Scene σ -> Prop where
  | done (c : Scene σ) : Season w c [] c
  | errand {c d : Scene σ} {errand : Errand σ} {steps : List Step} :
      errand.world = c.world ->
      errand.settings.waitForUnhealthy = true ->
      Season w (errand.run w c.registry).2 steps d ->
      Season w c ((errand.run w c.registry).1 ++ steps) d
  | interlude {c next d : Scene σ} {others : List Happening} {steps : List Step} :
      c.reading w ≤ next.reading w ->
      next.registry = c.registry.meanwhile others ->
      Season w next steps d ->
      Season w c steps d

theorem Season.keepsVigil {w : Surroundings σ} {c d : Scene σ} {steps : List Step}
    (h : Season w c steps d) (hclock : w.ClockRuns) : KeepsVigil w c steps d := by
  induction h with
  | done c => exact .refl c
  | @errand c d errand steps hworld hwait _ ih =>
      have hstart : errand.start c.registry = c := Scene.ext hworld rfl
      rcases errand.delivers w c.registry with ⟨ds, hds, hsteps, _⟩
      rw [hstart] at hds
      rw [hsteps]
      exact (hds.keepsVigil hclock hwait).append ih
  | interlude hforward hothers _ ih =>
      rcases ih with ⟨moments, hvigil, hmoments⟩
      exact ⟨_, .interlude hforward hothers hvigil, hmoments⟩

/-- An attempt is made with time and attempts left and, where nodes are waited for, at a node that
is not left alone then.  From the time the deadline is reached nothing is tried and no record
changes.  Over any requests that wait for nodes, the window that a failure opens is kept unless
others end it. -/
theorem attempts_guarded {w : Surroundings σ} (htimer : w.TimerRuns) (hclock : w.ClockRuns) :
    (forall (d : Delivery σ) before a after,
      (d.run w).steps = before ++ .attempted a :: after ->
      exists m c next, Passage w d.start before m ∧ d.Permits w before m c a ∧
        Makes w c (.attempted a) next ∧ Passage w next after (d.run w).scene) ∧
    (forall (d : Delivery σ) before after x, (d.run w).steps = before ++ after ->
      Guarded w (Warranted w d.settings d.deadline) d.start before x ->
      Guarded w (Warranted w d.settings d.deadline) x after (d.run w).scene ->
      d.deadline.nanos ≤ x.time w ->
      attemptsIn after = [] ∧ (d.run w).registry = x.registry) ∧
    forall c steps d, Season w c steps d ->
      exists moments, Vigil w c moments d ∧ moments.filterMap Moment.step = steps ∧
        KeepsWindows moments := by
  refine ⟨?_, ?_, ?_⟩
  · intro d before a after hsteps
    exact d.permits hclock hsteps
  · intro d before after x _ _ hafter hlate
    exact idle_of_late htimer hafter hlate
  · intro c steps d hseason
    rcases hseason.keepsVigil hclock with ⟨moments, hvigil, hmoments⟩
    exact ⟨moments, hvigil, hmoments, hvigil.keepsWindows hclock⟩

/-!
## A window that others end
-/

/-- Node 3 has failed so often that its next window is the longest. -/
def oftenFailed : Registry :=
  twoNodesEngine.registry.meanwhile
    ((List.replicate 5 (Health.Event.failed 0)).map (Happening.mk ⟨3⟩))

/-- Node 3 is busy.  While node 4 is asked, others succeed at node 3 five times and then fail
there. -/
def overlapping : Surroundings Nat :=
  ticking (fun _ _ => []) fun call _ now =>
    if call.node = ⟨3⟩ then (.received (NodeResponse.codec.encode ⟨.busy, []⟩), [], now)
    else
      (.received (NodeResponse.codec.encode ⟨.ok, []⟩),
        (List.replicate 5 Health.Event.succeeded ++ [Health.Event.failed 4000]).map
          (Happening.mk ⟨3⟩),
        now + 250000000)

theorem overlapping_forward (call : Call) (limit : Duration) (now : Nat) :
    now ≤ (overlapping.exchange call limit now).2.2 := by
  by_cases hnode : call.node = ⟨3⟩
  · simp [overlapping, ticking, hnode]
  · simp [overlapping, ticking, hnode]

def askAt (node : NodeId) (world : Nat) : Errand Nat :=
  { settings := twoNodesEngine.settings
    world := world
    demand := .query ⟨.accountBalance, [], [node]⟩ (Instant.ofMillis 20000) }

/-- Node 3 is asked four seconds after it failed last. -/
def firstAsked : List Step × Scene Nat :=
  (askAt ⟨3⟩ 4000000000).run overlapping oftenFailed

def secondAsked : List Step × Scene Nat :=
  (askAt ⟨4⟩ firstAsked.2.world).run overlapping firstAsked.2.registry

def thirdAsked : List Step × Scene Nat :=
  (askAt ⟨3⟩ secondAsked.2.world).run overlapping secondAsked.2.registry

/-- The failure at 4000 opens a window until 12000, and the node is tried again at 4250. -/
theorem window_ended_by_others :
    overlapping.TimerRuns ∧ overlapping.ClockRuns ∧
      Season overlapping ((askAt ⟨3⟩ 4000000000).start oftenFailed)
        (firstAsked.1 ++ (secondAsked.1 ++ (thirdAsked.1 ++ []))) thirdAsked.2 ∧
      (attemptsIn firstAsked.1).map (fun a => (a.node, a.outcome.isRetryable, a.usedAt)) =
        [(⟨3⟩, true, 4000)] ∧
      (firstAsked.2.registry.health ⟨3⟩).backoffUntil = 12000 ∧
      (attemptsIn secondAsked.1).map Attempt.node = [⟨4⟩] ∧
      (attemptsIn thirdAsked.1).map (fun a => (a.node, a.usedAt)) = [(⟨3⟩, 4250)] := by
  refine ⟨ticking_timerRuns overlapping_forward, ticking_clockRuns overlapping_forward, ?_, ?_⟩
  · exact .errand rfl rfl (.errand rfl rfl (.errand rfl rfl (.done _)))
  · decide +kernel

/-- Without a second request in between, the third waits for the end of the window. -/
def patientAsked : List Step × Scene Nat :=
  (askAt ⟨3⟩ firstAsked.2.world).run overlapping firstAsked.2.registry

theorem patientAsked_guarded :
    overlapping.TimerRuns ∧ overlapping.ClockRuns ∧
      (attemptsIn (firstAsked.1 ++ (patientAsked.1 ++ []))).map
          (fun a => (a.node, a.outcome.isRetryable, a.usedAt)) =
        [(⟨3⟩, true, 4000), (⟨3⟩, true, 12000)] ∧
      exists moments,
        Vigil overlapping ((askAt ⟨3⟩ 4000000000).start oftenFailed) moments
          patientAsked.2 ∧
        moments.filterMap Moment.step = firstAsked.1 ++ (patientAsked.1 ++ []) ∧
        KeepsWindows moments := by
  have htimer : overlapping.TimerRuns := ticking_timerRuns overlapping_forward
  have hclock : overlapping.ClockRuns := ticking_clockRuns overlapping_forward
  have hseason : Season overlapping ((askAt ⟨3⟩ 4000000000).start oftenFailed)
      (firstAsked.1 ++ (patientAsked.1 ++ [])) patientAsked.2 :=
    .errand rfl rfl (.errand rfl rfl (.done _))
  refine ⟨htimer, hclock, ?_, ?_⟩
  · decide +kernel
  · exact (attempts_guarded htimer hclock).right.right _ _ _ hseason

end LedgerClient
