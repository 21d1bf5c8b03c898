import LedgerClient.Proofs.Delivery.Recognition
import LedgerClient.Proofs.Node.Records

/-!
# Accounting

The record of a node is kept in separate entries around an attempt, with a wait in between and
several ways out.  This module shows that no way out leaves an attempt half recorded: over any
list of requests through one registry the counters of a node grow by its attempts and by its
failures, besides what others did meanwhile.
-/

namespace LedgerClient

variable {σ : Type}

/-!
## What others do meanwhile
-/

/-- What others do to the records while a step is made. -/
def Scene.meantime (w : Surroundings σ) (c : Scene σ) : Step → List Happening
  | .paused _ length _ _ => (w.pause length c.world).2.1
  | .attempted a => (w.exchange a.call a.limit (w.clock c.world).2).2.1
  | _ => []

/-- A passage with all that others did to the records on the way. -/
inductive Chronicle (w : Surroundings σ) :
    Scene σ -> List Step -> List Happening -> Scene σ -> Prop where
  | done (c : Scene σ) : Chronicle w c [] [] c
  | timed {c d : Scene σ} {steps : List Step} {others : List Happening} :
      Chronicle w (c.move (w.timer c.world).2) steps others d -> Chronicle w c steps others d
  | clocked {c d : Scene σ} {steps : List Step} {others : List Happening} :
      Chronicle w (c.move (w.clock c.world).2) steps others d -> Chronicle w c steps others d
  | made {c between d : Scene σ} {step : Step} {steps : List Step} {others : List Happening} :
      Makes w c step between ->
      Chronicle w between steps others d ->
      Chronicle w c (step :: steps) (c.meantime w step ++ others) d

/-- Nobody else uses the records. -/
structure Surroundings.Alone (w : Surroundings σ) : Prop where
  pause : forall length s, (w.pause length s).2.1 = []
  exchange : forall call limit s, (w.exchange call limit s).2.1 = []

section

variable {w : Surroundings σ} {c d : Scene σ} {step : Step} {steps : List Step}
  {others : List Happening}

theorem Passage.chronicle (h : Passage w c steps d) : exists others, Chronicle w c steps others d := by
  induction h with
  | done c => exact ⟨[], .done c⟩
  | timed _ ih =>
      rcases ih with ⟨others, hrest⟩
      exact ⟨others, .timed hrest⟩
  | clocked _ ih =>
      rcases ih with ⟨others, hrest⟩
      exact ⟨others, .clocked hrest⟩
  | made hstep _ ih =>
      rcases ih with ⟨others, hrest⟩
      exact ⟨_, .made hstep hrest⟩

theorem Surroundings.Alone.meantime (h : w.Alone) (c : Scene σ) (step : Step) :
    c.meantime w step = [] := by
  cases step with
  | looked cancelled => rfl
  | expired => rfl
  | paused node length left wake => exact h.pause length c.world
  | skipped node backoff left => rfl
  | attempted a => exact h.exchange a.call a.limit _

theorem Surroundings.Alone.chronicle (h : w.Alone) (hchronicle : Chronicle w c steps others d) :
    others = [] := by
  induction hchronicle with
  | done c => rfl
  | timed _ ih => exact ih
  | clocked _ ih => exact ih
  | made _ _ ih => rw [h.meantime, ih, List.nil_append]

/-!
## What a step enters
-/

/-- What an outcome is entered as; a rejection leaves no entry. -/
def Outcome.events (now : Timestamp) : Outcome → List Health.Event
  | accepted _ => [.succeeded]
  | retryable _ => [.failed now]
  | rejected _ => []

theorem Scene.registry_settled (w : Surroundings σ) (c : Scene σ) (node : NodeId)
    (outcome : Outcome) :
    (c.settled w node outcome).registry =
      c.registry.meanwhile ((outcome.events (w.clock c.world).1).map (Happening.mk node)) := by
  cases outcome with
  | accepted payload => rfl
  | retryable fault => rfl
  | rejected code => rfl

/-- An attempt is entered as a use when it begins and by its outcome when it is over. -/
theorem Makes.entries_of_attempted {a : Attempt} (h : Makes w c (.attempted a) d) :
    exists now,
      d.registry =
        c.registry.meanwhile
          ([Health.Event.used a.usedAt].map (Happening.mk a.node) ++ (c.meantime w (.attempted a) ++
            (a.outcome.events now).map (Happening.mk a.node))) := by
  have husedAt : a.usedAt = (w.clock c.world).1 := by
    cases h
    rfl
  refine ⟨(w.clock (c.sent w a.call a.left a.limit).2.world).1, ?_⟩
  rw [h.attempted_eq.right, Scene.registry_settled, Registry.meanwhile_append,
    Registry.meanwhile_append, husedAt]
  rfl

theorem Makes.entries_of_no_attempt (h : Makes w c step d) (hnone : step.attempt? = none) :
    d.registry = c.registry.meanwhile (c.meantime w step) := by
  cases h with
  | looked => rfl
  | expired => rfl
  | paused node length left => rfl
  | skipped node backoff left => rfl
  | attempted call left limit => cases hnone

/-- Records change by entries alone. -/
theorem Makes.exists_entries (h : Makes w c step d) :
    exists happenings, d.registry = c.registry.meanwhile happenings := by
  cases hattempt : step.attempt? with
  | none => exact ⟨_, h.entries_of_no_attempt hattempt⟩
  | some a =>
      cases step with
      | attempted b =>
          rcases h.entries_of_attempted with ⟨now, hentries⟩
          exact ⟨_, hentries⟩
      | _ => cases hattempt

theorem Passage.exists_entries (h : Passage w c steps d) :
    exists happenings, d.registry = c.registry.meanwhile happenings := by
  induction h with
  | done c => exact ⟨[], rfl⟩
  | timed _ ih => exact ih
  | clocked _ ih => exact ih
  | made hstep _ ih =>
      rcases hstep.exists_entries with ⟨first, hfirst⟩
      rcases ih with ⟨others, hothers⟩
      exact ⟨first ++ others, by rw [hothers, hfirst, Registry.meanwhile_append]⟩

/-- A rejection is entered as a use and as nothing else. -/
theorem Makes.rejected {a : Attempt} {code : PrecheckCode} (h : Makes w c (.attempted a) d)
    (hrejected : a.outcome = .rejected code) :
    d.registry =
      (c.registry.record a.node (.used a.usedAt)).meanwhile (c.meantime w (.attempted a)) := by
  rcases h.entries_of_attempted with ⟨now, hentries⟩
  rw [hentries, hrejected, Registry.meanwhile_append]
  simp only [Outcome.events, List.map_nil, List.append_nil]
  rfl

end

/-!
## Accounts
-/

namespace Outcome

def isAccepted : Outcome → Bool
  | accepted _ => true
  | _ => false

def isRetryable : Outcome → Bool
  | retryable _ => true
  | _ => false

def isRejected : Outcome → Bool
  | rejected _ => true
  | _ => false

end Outcome

def attemptsAt (node : NodeId) (attempts : List Attempt) : List Attempt :=
  attempts.filter fun a => a.node = node

/-- The record of a node before and after attempts at it and events that others brought. -/
structure Accounts (before after : Health) (attempts : List Attempt)
    (others : List Health.Event) : Prop where
  used : after.useCount =
    before.useCount + attempts.length + others.countP Health.Event.isUse
  failed : after.failureCount =
    before.failureCount + attempts.countP (fun a => a.outcome.isRetryable) +
      others.countP Health.Event.isFailure
  divided : attempts.length =
    attempts.countP (fun a => a.outcome.isAccepted) +
      attempts.countP (fun a => a.outcome.isRetryable) +
      attempts.countP (fun a => a.outcome.isRejected)
  untouched : attempts = [] -> others = [] -> after = before

theorem Accounts.refl (h : Health) : Accounts h h [] [] where
  used := rfl
  failed := rfl
  divided := rfl
  untouched := fun _ _ => rfl

theorem Accounts.trans {first second third : Health} {xs ys : List Attempt}
    {us vs : List Health.Event} (hx : Accounts first second xs us)
    (hy : Accounts second third ys vs) : Accounts first third (xs ++ ys) (us ++ vs) where
  used := by
    rw [hy.used, hx.used, List.length_append, List.countP_append]
    omega
  failed := by
    rw [hy.failed, hx.failed, List.countP_append, List.countP_append]
    omega
  divided := by
    rw [List.length_append, hx.divided, hy.divided, List.countP_append, List.countP_append,
      List.countP_append]
    omega
  untouched := by
    intro hattempts hothers
    rcases List.append_eq_nil_iff.mp hattempts with ⟨hxs, hys⟩
    rcases List.append_eq_nil_iff.mp hothers with ⟨hus, hvs⟩
    rw [hy.untouched hys hvs, hx.untouched hxs hus]

/-- Events of others alone. -/
theorem Accounts.others {events : List Health.Event} (hkept : Health.Event.forgotten ∉ events)
    (h : Health) : Accounts h (events.foldl Health.record h) [] events where
  used := Health.useCount_foldl hkept h
  failed := Health.failureCount_foldl hkept h
  divided := rfl
  untouched := by
    intro _ hevents
    rw [hevents]
    rfl

theorem Accounts.attempt {events : List Health.Event} (hkept : Health.Event.forgotten ∉ events)
    (h : Health) (a : Attempt) (now : Timestamp) :
    Accounts h
      (([Health.Event.used a.usedAt] ++ (events ++ a.outcome.events now)).foldl Health.record h)
      [a] events := by
  have hentries : Health.Event.forgotten ∉
      [Health.Event.used a.usedAt] ++ (events ++ a.outcome.events now) := by
    cases a.outcome <;> simp [Outcome.events, hkept]
  constructor
  case used =>
    have hopening : [Health.Event.used a.usedAt].countP Health.Event.isUse = 1 := rfl
    have hclosing : (a.outcome.events now).countP Health.Event.isUse = 0 := by
      cases a.outcome <;> rfl
    rw [Health.useCount_foldl hentries, List.countP_append, List.countP_append, hopening,
      hclosing, List.length_singleton]
    omega
  case failed =>
    have hopening : [Health.Event.used a.usedAt].countP Health.Event.isFailure = 0 := rfl
    have hclosing : (a.outcome.events now).countP Health.Event.isFailure =
        [a].countP (fun b => b.outcome.isRetryable) := by
      rw [List.countP_singleton]
      cases a.outcome <;> rfl
    rw [Health.failureCount_foldl hentries, List.countP_append, List.countP_append, hopening,
      hclosing]
    omega
  case divided =>
    cases houtcome : a.outcome <;>
      simp [Outcome.isAccepted, Outcome.isRetryable, Outcome.isRejected, houtcome]
  case untouched =>
    intro hnone
    cases hnone

section

variable {w : Surroundings σ} {c d : Scene σ} {step : Step} {steps : List Step}
  {others : List Happening} {node : NodeId}

theorem Makes.accounts (h : Makes w c step d) (hnode : node ∈ c.registry.ids)
    (hkept : Health.Event.forgotten ∉ eventsAt node (c.meantime w step)) :
    Accounts (c.registry.health node) (d.registry.health node)
      (attemptsAt node (attemptsIn [step])) (eventsAt node (c.meantime w step)) := by
  cases hattempt : step.attempt? with
  | none =>
      have hnone : attemptsIn [step] = [] := by simp [attemptsIn, hattempt]
      rw [h.entries_of_no_attempt hattempt, Registry.health_meanwhile hnode, hnone]
      exact Accounts.others hkept _
  | some a =>
      have hstep : step = .attempted a := by
        cases step with
        | attempted b =>
            injection hattempt with hsame
            rw [hsame]
        | _ => cases hattempt
      subst hstep
      rcases h.entries_of_attempted with ⟨now, hentries⟩
      rw [hentries, Registry.health_meanwhile hnode, eventsAt_append, eventsAt_append]
      by_cases hsame : a.node = node
      · subst hsame
        rw [eventsAt_same, eventsAt_same]
        simpa [attemptsAt] using Accounts.attempt hkept _ a now
      · rw [eventsAt_other hsame, eventsAt_other hsame, List.nil_append, List.append_nil]
        simpa [attemptsAt, hsame] using Accounts.others hkept (c.registry.health node)

theorem Makes.ids (h : Makes w c step d) : d.registry.ids = c.registry.ids := by
  rcases h.exists_entries with ⟨happenings, hentries⟩
  rw [hentries, Registry.ids_meanwhile]

theorem Chronicle.ids (h : Chronicle w c steps others d) : d.registry.ids = c.registry.ids := by
  induction h with
  | done c => rfl
  | timed _ ih => exact ih
  | clocked _ ih => exact ih
  | made hstep _ ih => rw [ih, hstep.ids]

theorem Passage.ids (h : Passage w c steps d) : d.registry.ids = c.registry.ids := by
  rcases h.chronicle with ⟨others, hchronicle⟩
  exact hchronicle.ids

/-- Whatever way a course takes, the record of a node accounts for it. -/
theorem Chronicle.accounts (h : Chronicle w c steps others d) (hnode : node ∈ c.registry.ids)
    (hkept : Health.Event.forgotten ∉ eventsAt node others) :
    Accounts (c.registry.health node) (d.registry.health node)
      (attemptsAt node (attemptsIn steps)) (eventsAt node others) := by
  induction h with
  | done c => exact .refl _
  | timed _ ih => exact ih hnode hkept
  | clocked _ ih => exact ih hnode hkept
  | @made c between d step steps others hstep hrest ih =>
      rw [eventsAt_append, List.mem_append, not_or] at hkept
      have hbetween : node ∈ between.registry.ids := by
        rw [hstep.ids]
        exact hnode
      have hboth := (hstep.accounts hnode hkept.left).trans (ih hbetween hkept.right)
      rw [show step :: steps = [step] ++ steps from rfl, attemptsIn_append, attemptsAt,
        List.filter_append, eventsAt_append]
      exact hboth

end

end LedgerClient
