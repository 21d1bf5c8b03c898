import LedgerClient.Proofs.Delivery.Clocks
import LedgerClient.Proofs.Delivery.Deliveries

/-!
# When a node may be tried

Every way to an attempt leads past three guards: time is left, attempts are left, and a node
that is waited for is no longer left alone.  What the guards read is read anew after each pause,
so they hold when the attempt is made and not only when the wait for the node began.
-/

namespace LedgerClient

variable {σ : Type}

/-!
## The number of attempts
-/

/-- Without a limit, every node of the request may be tried. -/
def Delivery.maxAttempts (d : Delivery σ) : Nat :=
  match d.settings.maxAttempts with
  | some max => max.toNat
  | none => d.request.nodes.length

theorem Delivery.maxAttempts_eq {d : Delivery σ} {candidates : List Node}
    (hcandidates : d.registry.candidates d.request.nodes = .ok candidates) (now : Timestamp) :
    d.engine.maxAttempts (Ranking.rank now candidates) = d.maxAttempts := by
  unfold Engine.maxAttempts Delivery.maxAttempts
  show (match d.settings.maxAttempts with
    | some max => max.toNat
    | none => _) = _
  cases d.settings.maxAttempts with
  | some max => rfl
  | none =>
      have hlength : (Ranking.rank now candidates).length = candidates.length :=
        (List.mergeSort_perm candidates _).length_eq
      show (Ranking.rank now candidates).length = d.request.nodes.length
      rw [hlength, ← Registry.map_id_candidates hcandidates, List.length_map]

theorem Delivery.attempts_le (w : Surroundings σ) (d : Delivery σ) :
    (d.run w).attempts.length ≤ d.maxAttempts := by
  cases hcandidates : d.registry.candidates d.request.nodes with
  | error error =>
      have hrefused := Engine.deliver_eq_refuse (e := d.engine) hcandidates w d.deadline d.world
      rw [run, hrefused]
      exact Nat.zero_le _
  | ok candidates =>
      have hcandidates' : d.engine.registry.candidates d.request.nodes = .ok candidates :=
        hcandidates
      rw [← maxAttempts_eq hcandidates (w.clock d.world).1]
      simp only [run, Engine.deliver, hcandidates']
      exact Progress.visit_within w d.deadline _ (Progress.booked_start _ _) (Nat.zero_le _)

/-!
## The guards of an attempt
-/

theorem Makes.usedAt_eq {w : Surroundings σ} {c d : Scene σ} {a : Attempt}
    (h : Makes w c (.attempted a) d) : a.usedAt = c.reading w := by
  cases h
  rfl

/-- A node that was found healthy still is when it is used. -/
theorem Free.backoffUntil_le {w : Surroundings σ} {settings : DeliverySettings}
    {deadline : Instant} {node : NodeId} {m c : Scene σ} {left : Duration}
    (h : Free w settings deadline node m c left) (hwait : settings.waitForUnhealthy = true)
    (hclock : w.ClockRuns) : (c.registry.health node).backoffUntil ≤ c.reading w := by
  cases h with
  | unasked hunasked =>
      rw [hwait] at hunasked
      cases hunasked
  | healthy _ hhealthy =>
      have hbefore : (m.registry.health node).backoffUntil ≤ (m.timed w).reading w :=
        Scene.healthy_iff.mp hhealthy
      have hread : Passage w (m.timed w) [] ((m.timed w).clocked w) := .clocked (.done _)
      exact UInt64.le_trans hbefore (hclock.passage hread)

/-- What holds of an attempt that is made in `c` after the steps `made`.  From `m` on only timer
and clock were read. -/
structure Delivery.Permits (w : Surroundings σ) (d : Delivery σ) (made : List Step)
    (m c : Scene σ) (a : Attempt) : Prop where
  read : Passage w m [] c
  left : a.left = m.timeLeft w d.deadline
  inTime : m.time w < d.deadline.nanos
  onTime : w.Prompt -> c.time w < d.deadline.nanos
  spare : (attemptsIn made).length < d.maxAttempts
  free : d.settings.waitForUnhealthy = true ->
    (c.registry.health a.node).backoffUntil ≤ a.usedAt

theorem Delivery.permits {w : Surroundings σ} (hclock : w.ClockRuns) {d : Delivery σ}
    {before after : List Step} {a : Attempt}
    (hsteps : (d.run w).steps = before ++ .attempted a :: after) :
    exists m c next, Passage w d.start before m ∧ d.Permits w before m c a ∧
      Makes w c (.attempted a) next ∧ Passage w next after (d.run w).scene := by
  have hguarded := d.warranted w
  rw [hsteps] at hguarded
  rcases hguarded.at_step with ⟨m, c, next, hbefore, hwarranted, hmakes, hafter⟩
  have hread : forall m step c, Warranted w d.settings d.deadline m step c -> Passage w m [] c :=
    fun _ _ _ h => h.passage
  refine ⟨m, c, next, .of_guarded hread hbefore, ?_, hmakes, .of_guarded hread hafter⟩
  cases hwarranted with
  | attempted hfree hleft =>
      have hearly : m.time w < d.deadline.nanos := by
        apply Nat.lt_of_not_le
        intro hlate
        rw [hfree.left_eq, Scene.isZero_timeLeft.mpr hlate] at hleft
        cases hleft
      constructor
      case read => exact hfree.passage
      case left => exact hfree.left_eq
      case inTime => exact hearly
      case onTime =>
        intro hprompt
        rw [hprompt.readings hfree.passage]
        exact hearly
      case spare =>
        have hall : (attemptsIn (d.run w).steps).length ≤ d.maxAttempts := d.attempts_le w
        rw [hsteps, attemptsIn_append, attemptsIn_attempted, List.length_append,
          List.length_cons] at hall
        omega
      case free =>
        intro hwait
        rw [hmakes.usedAt_eq]
        exact hfree.backoffUntil_le hwait hclock

/-!
## After the deadline
-/

/-- Once the deadline is reached nothing is tried and no record changes. -/
theorem idle_of_late {w : Surroundings σ} (htimer : w.TimerRuns) {settings : DeliverySettings}
    {deadline : Instant} {x y : Scene σ} {steps : List Step}
    (h : Guarded w (Warranted w settings deadline) x steps y)
    (hlate : deadline.nanos ≤ x.time w) :
    attemptsIn steps = [] ∧ y.registry = x.registry := by
  induction h with
  | done c => exact ⟨rfl, rfl⟩
  | timed _ ih => exact ih ((htimer _).timer _ hlate)
  | clocked _ ih => exact ih ((htimer _).clock _ hlate)
  | @made m c next y step steps hwarranted hmakes _ ih =>
      have hspent : (m.timeLeft w deadline).isZero = true := Scene.isZero_timeLeft.mpr hlate
      have hthere : deadline.nanos ≤ c.time w :=
        Nat.le_trans hlate (htimer.passage hwarranted.passage)
      rcases ih ((htimer _).makes hmakes hthere) with ⟨hnone, hkept⟩
      cases hwarranted with
      | looked cancelled =>
          cases hmakes
          exact ⟨hnone, hkept⟩
      | late _ =>
          cases hmakes
          exact ⟨hnone, hkept⟩
      | overslept hfree _ =>
          cases hmakes
          cases hfree with
          | unasked _ => exact ⟨hnone, hkept⟩
          | healthy _ _ => exact ⟨hnone, hkept⟩
      | paused wake _ hseen _ hlt =>
          have hpositive := Nat.lt_of_le_of_lt (Nat.zero_le _) hlt
          rw [hseen.left, beq_iff_eq.mp hspent] at hpositive
          exact (Nat.lt_irrefl 0 hpositive).elim
      | skipped _ hseen _ _ =>
          rw [hseen.scene] at hmakes
          cases hmakes
          exact ⟨hnone, hkept⟩
      | attempted hfree hleft =>
          rw [hfree.left_eq, hspent] at hleft
          cases hleft

end LedgerClient
