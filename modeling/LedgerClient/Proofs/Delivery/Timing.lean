import LedgerClient.Proofs.Delivery.Cancellation
import LedgerClient.Proofs.Delivery.Failover
import LedgerClient.Proofs.Delivery.Guard

/-!
# How long deliveries take

A wait for a node goes by the clock and sleeps by the timer, and others may make it longer while
it sleeps.  What bounds it is the time that is left: every pause takes at least a millisecond of
it and is shorter than all of it.  If pauses and exchanges are over in time, so is a delivery.
-/

namespace LedgerClient

variable {σ : Type}

/-!
## Laws
-/

namespace Surroundings

/-- The timer does not go back, and a pause that is over took no less than it was to take. -/
structure Sleeps (w : Surroundings σ) : Prop where
  runs : w.TimerRuns
  pause : forall length s, (w.pause length s).1 = .elapsed ->
    (w.timer s).1.nanos + length.nanos ≤ (w.timer (w.pause length s).2.2).1.nanos

/-- Only pauses and exchanges take time, and none takes more than it was given. -/
structure OnTime (w : Surroundings σ) : Prop where
  prompt : w.Prompt
  pause : forall length s,
    (w.timer (w.pause length s).2.2).1.nanos ≤ (w.timer s).1.nanos + length.nanos
  exchange : forall call limit s,
    (w.timer (w.exchange call limit s).2.2).1.nanos ≤ (w.timer s).1.nanos + limit.nanos

end Surroundings

/-!
## The number of pauses
-/

def Step.isPause : Step → Bool
  | .paused _ _ _ _ => true
  | _ => false

theorem Pauses.countP_eq {node : NodeId} {pauses : List Step} (h : Pauses node pauses) :
    pauses.countP Step.isPause = pauses.length := by
  induction h with
  | none => rfl
  | one _ _ ih =>
      rw [List.countP_cons, ih, List.length_cons]
      rfl

section

variable {w : Surroundings σ} {settings : DeliverySettings} {deadline : Instant}
  {m c d x y : Scene σ} {node : NodeId} {backoff left : Duration} {step : Step}
  {steps : List Step}

/-- A node that is left alone is left alone for a millisecond or more. -/
theorem Seen.milli_le (h : Seen w deadline node m c backoff left)
    (hunhealthy : (m.timed w).healthy w node = false) :
    Duration.nanosPerMilli ≤ backoff.nanos := by
  rw [← h.isZero_backoff, h.backoff] at hunhealthy
  rw [h.backoff]
  unfold Scene.backoff Health.remainingBackoff Timestamp.timeUntil Duration.isZero at *
  rw [Duration.nanos_ofMillis] at hunhealthy ⊢
  have hpositive : Duration.nanosPerMilli = 1000000 := rfl
  rw [beq_eq_false_iff_ne] at hunhealthy
  rw [hpositive] at hunhealthy ⊢
  omega

theorem Scene.nanos_timeLeft_le (w : Surroundings σ) (deadline : Instant) (c : Scene σ) :
    (c.timeLeft w deadline).nanos ≤ deadline.nanos - c.time w :=
  Nat.min_le_left _ _

/-- A step that shows cancellation is the last one. -/
def EndsWhenCancelled (steps : List Step) : Prop :=
  forall before step after, steps = before ++ step :: after -> step.showsCancelled = true ->
    after = []

theorem EndsWhenCancelled.of_append {xs ys : List Step} (h : EndsWhenCancelled (xs ++ ys)) :
    EndsWhenCancelled ys := by
  intro before step after hys hshows
  apply h (xs ++ before) step after _ hshows
  rw [hys, List.append_assoc]

theorem Delivery.endsWhenCancelled (w : Surroundings σ) (d : Delivery σ) :
    EndsWhenCancelled (d.run w).steps := by
  intro before step after hsteps hshows
  cases hcandidates : d.registry.candidates d.request.nodes with
  | error error =>
      have hrefused := Engine.deliver_eq_refuse (e := d.engine) hcandidates w d.deadline d.world
      rw [run, hrefused] at hsteps
      have hnone : [] = before ++ step :: after := hsteps
      simp at hnone
  | ok candidates =>
      have hconcludes := Engine.deliver_concludes (e := d.engine) hcandidates w d.deadline d.world
      have hcourse : (d.engine.deliver w d.request d.deadline d.world).steps =
          before ++ step :: after := hsteps
      rw [hcourse] at hconcludes
      exact (ended_of_showsCancelled hconcludes hshows).left

/-- Each pause takes a millisecond of the time that is left and leaves some of it. -/
theorem pauses_le (hsleeps : w.Sleeps) (h : Guarded w (Warranted w settings deadline) x steps y)
    (hends : EndsWhenCancelled steps) :
    steps.countP Step.isPause * Duration.nanosPerMilli ≤ deadline.nanos - x.time w := by
  induction h with
  | done c => simp
  | @timed c d steps _ ih =>
      have hlater := hsleeps.runs.passage (.timed (.done _) : Passage w c [] (c.timed w))
      exact Nat.le_trans (ih hends) (Nat.sub_le_sub_left hlater _)
  | @clocked c d steps _ ih =>
      have hlater := hsleeps.runs.passage (.clocked (.done _) : Passage w c [] (c.clocked w))
      exact Nat.le_trans (ih hends) (Nat.sub_le_sub_left hlater _)
  | @made m c next y step steps hwarranted hmakes _ ih =>
      have hrest := ih (@EndsWhenCancelled.of_append [step] _ hends)
      have hthere : m.time w ≤ c.time w := hsleeps.runs.passage hwarranted.passage
      have hnext : c.time w ≤ next.time w :=
        hsleeps.runs.passage (.made hmakes (.done _) : Passage w c [step] next)
      have hkept : steps.countP Step.isPause * Duration.nanosPerMilli ≤
          deadline.nanos - m.time w :=
        Nat.le_trans hrest (Nat.sub_le_sub_left (Nat.le_trans hthere hnext) _)
      rw [List.countP_cons]
      cases hwarranted with
      | looked cancelled => exact hkept
      | late _ => exact hkept
      | overslept _ _ => exact hkept
      | skipped _ _ _ _ => exact hkept
      | attempted _ _ => exact hkept
      | @paused node _ backoff left wake _ hseen hunhealthy hlt =>
          have hmilli := hseen.milli_le hunhealthy
          have hleft := m.nanos_timeLeft_le w deadline
          rw [← hseen.left] at hleft
          have hshort : backoff.nanos < left.nanos := hlt
          show (steps.countP Step.isPause + 1) * Duration.nanosPerMilli ≤ _
          rw [Nat.succ_mul]
          cases wake with
          | cancelled =>
              -- Nothing follows a pause that was cut short.
              have hlast := hends [] _ steps rfl rfl
              rw [hlast, List.countP_nil, Nat.zero_mul]
              omega
          | elapsed =>
              rcases hmakes.paused_eq with ⟨hwake, hscene⟩
              have hslept := hsleeps.pause backoff c.world hwake.symm
              have hover : c.time w + backoff.nanos ≤ next.time w := by
                rw [hscene]
                exact hslept
              omega

theorem pauses_le_millis (hsleeps : w.Sleeps) (hdeadline : deadline.InRange)
    (h : Guarded w (Warranted w settings deadline) x steps y) (hends : EndsWhenCancelled steps) :
    steps.countP Step.isPause ≤ (x.timeLeft w deadline).millis := by
  have hcount := pauses_le hsleeps h hends
  rw [Duration.millis, Scene.timeLeft, Instant.nanos_timeUntil hdeadline]
  exact (Nat.le_div_iff_mul_le (by decide)).mpr hcount

/-!
## In time
-/

/-- An attempt takes no longer than its limit. -/
theorem Makes.attempted_onTime (hontime : w.OnTime) {a : Attempt}
    (h : Makes w c (.attempted a) d) : d.time w ≤ c.time w + a.limit.nanos := by
  have hsent : (c.sent w a.call a.left a.limit).2.time w ≤ c.time w + a.limit.nanos := by
    rw [← hontime.prompt.time_clocked c]
    exact hontime.exchange a.call a.limit _
  have hsettled : d.time w = (c.sent w a.call a.left a.limit).2.time w := by
    rw [h.attempted_eq.right]
    cases a.outcome with
    | accepted payload => exact hontime.prompt.time_clocked _
    | retryable fault => exact hontime.prompt.time_clocked _
    | rejected code => rfl
  rw [hsettled]
  exact hsent

/-- What is over before some time stays so up to the deadline. -/
theorem time_le_of_onTime (hontime : w.OnTime)
    (h : Guarded w (Warranted w settings deadline) x steps y)
    (hlimits : forall a, a ∈ attemptsIn steps -> a.limit ≤ a.left) {late : Nat}
    (hstart : x.time w ≤ late) (hdeadline : deadline.nanos ≤ late) : y.time w ≤ late := by
  induction h with
  | done c => exact hstart
  | @timed c d steps _ ih =>
      apply ih hlimits
      rw [← hontime.prompt.time_timed c] at hstart
      exact hstart
  | @clocked c d steps _ ih =>
      apply ih hlimits
      rw [← hontime.prompt.time_clocked c] at hstart
      exact hstart
  | @made m c next y step steps hwarranted hmakes _ ih =>
      have hthere : c.time w = m.time w := hontime.prompt.readings hwarranted.passage
      have hrest : forall a, a ∈ attemptsIn steps -> a.limit ≤ a.left := by
        intro a ha
        apply hlimits
        rw [show step :: steps = [step] ++ steps from rfl, attemptsIn_append]
        exact List.mem_append_right _ ha
      apply ih hrest
      rw [← hthere] at hstart
      have hleft := m.nanos_timeLeft_le w deadline
      cases hwarranted with
      | looked cancelled =>
          cases hmakes
          have hlook := hontime.prompt.isCancelled m.world
          show (w.timer (w.isCancelled m.world).2).1.nanos ≤ late
          rw [hlook]
          exact hstart
      | late _ =>
          cases hmakes
          exact hstart
      | overslept _ _ =>
          cases hmakes
          exact hstart
      | skipped _ _ _ _ =>
          cases hmakes
          exact hstart
      | @paused node _ backoff left wake _ hseen _ hlt =>
          have hshort : backoff.nanos < left.nanos := hlt
          have hover : next.time w ≤ c.time w + backoff.nanos := by
            rw [hmakes.paused_eq.right]
            exact hontime.pause backoff c.world
          rw [← hseen.left] at hleft
          omega
      | @attempted a _ hfree hpositive =>
          have hover := hmakes.attempted_onTime hontime
          have hlimit : a.limit.nanos ≤ a.left.nanos := hlimits a (List.mem_cons_self ..)
          rw [← hfree.left_eq] at hleft
          have hsome : a.left.nanos ≠ 0 := by simpa [Duration.isZero] using hpositive
          omega

end

/-!
## Patience

Waits are followed for so many pauses.  Where that was enough, following them further changes
nothing.
-/

def Surroundings.withPatience (w : Surroundings σ) (patience : Nat) : Surroundings σ :=
  { w with patience := patience }

namespace Progress

variable {w : Surroundings σ} {settings : DeliverySettings} {deadline : Instant}
  {p : Progress σ}

theorem await_of_le {node : NodeId} {patience more : Nat} {backoff left : Duration}
    (hle : patience ≤ more)
    (h : (await w deadline node patience backoff left p).1 ≠ .stillWaiting) :
    await w deadline node more backoff left p =
      await w deadline node patience backoff left p := by
  induction patience generalizing more backoff left p with
  | zero =>
      unfold await at h ⊢
      by_cases hzero : backoff.isZero = true
      · rw [if_pos hzero, if_pos hzero]
      · rw [if_neg hzero] at h
        rw [if_neg hzero, if_neg hzero]
        by_cases hskip : left ≤ backoff
        · rw [if_pos hskip, if_pos hskip]
        · rw [if_neg hskip] at h
          exact (h rfl).elim
  | succ patience ih =>
      cases more with
      | zero => cases hle
      | succ more =>
          unfold await at h ⊢
          by_cases hzero : backoff.isZero = true
          · rw [if_pos hzero, if_pos hzero]
          · rw [if_neg hzero] at h
            rw [if_neg hzero, if_neg hzero]
            by_cases hskip : left ≤ backoff
            · rw [if_pos hskip, if_pos hskip]
            · rw [if_neg hskip] at h
              rw [if_neg hskip, if_neg hskip]
              dsimp only at h ⊢
              cases hwake : (w.pause backoff p.world).1 with
              | cancelled => rfl
              | elapsed =>
                  rw [hwake] at h
                  exact ih (Nat.le_of_succ_le_succ hle) h

theorem await_withPatience (patience : Nat) :
    await (w.withPatience patience) deadline = await w deadline := by
  funext node count backoff left p
  induction count generalizing backoff left p with
  | zero => rfl
  | succ count ih =>
      unfold await
      simp only [ih]
      rfl

theorem gate_withPatience {node : NodeId} {left : Duration} {more : Nat}
    (hle : w.patience ≤ more) (h : (p.gate w settings deadline node left).1 ≠ .stillWaiting) :
    p.gate (w.withPatience more) settings deadline node left =
      p.gate w settings deadline node left := by
  unfold gate at h ⊢
  by_cases hwait : settings.waitForUnhealthy = true
  · rw [if_pos hwait] at h
    rw [if_pos hwait, if_pos hwait, await_withPatience]
    exact await_of_le hle h
  · rw [if_neg hwait, if_neg hwait]

theorem turn_withPatience {request : Request} {maxAttempts more : Nat} {node : Node}
    {isFinal : Bool} (hle : w.patience ≤ more)
    (h : (p.turn w settings request deadline maxAttempts node isFinal).1 ≠
      .ended (.halted .stillWaiting)) :
    p.turn (w.withPatience more) settings request deadline maxAttempts node isFinal =
      p.turn w settings request deadline maxAttempts node isFinal := by
  have hlook : p.look (w.withPatience more) = p.look w := rfl
  have htime : (p.look w).2.timeLeft (w.withPatience more) deadline =
    (p.look w).2.timeLeft w deadline := rfl
  unfold turn at h ⊢
  by_cases hspent : maxAttempts ≤ p.attempts
  · rw [if_pos hspent, if_pos hspent]
  · rw [if_neg hspent] at h
    rw [if_neg hspent, if_neg hspent, hlook]
    dsimp only at h ⊢
    rw [htime]
    cases hcancelled : (p.look w).1 with
    | true => rfl
    | false =>
        rw [hcancelled] at h
        by_cases hzero : ((p.look w).2.timeLeft w deadline).1.isZero = true
        · simp only [hzero, if_true]
        · simp only [hzero, Bool.false_eq_true, if_false] at h ⊢
          rw [gate_withPatience hle]
          · rfl
          · intro hwaiting
            rw [hwaiting] at h
            exact h rfl

theorem visit_withPatience {request : Request} {maxAttempts more : Nat} {candidates : List Node}
    (hle : w.patience ≤ more)
    (h : (visit w settings request deadline maxAttempts candidates p).1 ≠
      .halted .stillWaiting) :
    visit (w.withPatience more) settings request deadline maxAttempts candidates p =
      visit w settings request deadline maxAttempts candidates p := by
  induction candidates generalizing p with
  | nil => rfl
  | cons node rest ih =>
      have hturn := @turn_withPatience σ w settings deadline p request maxAttempts more node
        rest.isEmpty hle
      unfold visit at h ⊢
      rcases hresult : p.turn w settings request deadline maxAttempts node rest.isEmpty with
        ⟨t, p'⟩
      rw [hresult] at h hturn
      cases t with
      | ended ending =>
          have hended : Turn.ended ending ≠ .ended (.halted .stillWaiting) := by
            intro hsame
            injection hsame with hsame
            exact h hsame
          rw [hturn hended]
      | onward =>
          rw [hturn (by simp)]
          exact ih h

end Progress

theorem Delivery.run_withPatience {w : Surroundings σ} {d : Delivery σ} {more : Nat}
    (hle : w.patience ≤ more) (h : (d.run w).ending ≠ .halted .stillWaiting) :
    d.run (w.withPatience more) = d.run w := by
  have hclock : (w.withPatience more).clock d.world = w.clock d.world := rfl
  unfold run Engine.deliver at h ⊢
  rw [hclock]
  cases hcandidates : d.engine.registry.candidates d.request.nodes with
  | error error => rfl
  | ok candidates =>
      rw [hcandidates] at h
      dsimp only at h ⊢
      rw [Progress.visit_withPatience hle h]

/-!
## Deliveries
-/

/-- How a delivery spends its time. -/
structure Delivery.Timely (w : Surroundings σ) (d : Delivery σ) : Prop where
  /-- From any scene on the way there are no more pauses than milliseconds are left. -/
  pauses : forall before after x, (d.run w).steps = before ++ after ->
    Guarded w (Warranted w d.settings d.deadline) d.start before x ->
    Guarded w (Warranted w d.settings d.deadline) x after (d.run w).scene ->
    after.countP Step.isPause ≤ (x.timeLeft w d.deadline).millis
  /-- A pause is shorter than the time that was left right before it. -/
  shorter : forall before after node length left wake,
    (d.run w).steps = before ++ .paused node length left wake :: after ->
    exists m c next, Passage w d.start before m ∧ Passage w m [] c ∧
      Makes w c (.paused node length left wake) next ∧
      left = m.timeLeft w d.deadline ∧ length < left ∧
      (w.Prompt -> length < c.timeLeft w d.deadline)
  /-- The waits come to an end, however much further they would be followed. -/
  returns : d.settings.validate = .ok () ->
    (d.start.timeLeft w d.deadline).millis < w.patience ->
    (forall halt, (d.run w).ending ≠ .halted halt) ∧
      forall more, w.patience ≤ more -> d.run (w.withPatience more) = d.run w
  /-- The delivery is over when the deadline is reached, or at once if it was reached before. -/
  onTime : w.OnTime -> (forall a, a ∈ (d.run w).attempts -> a.limit ≤ a.left) ->
    (d.run w).scene.time w ≤ max (d.start.time w) d.deadline.nanos

namespace Delivery

variable {w : Surroundings σ} {d : Delivery σ}

theorem not_halted (hsleeps : w.Sleeps) (hdeadline : d.deadline.InRange)
    (hvalid : d.settings.validate = .ok ())
    (hpatience : (d.start.timeLeft w d.deadline).millis < w.patience) (halt : Halt) :
    (d.run w).ending ≠ .halted halt := by
  intro hhalted
  rcases Engine.deliver_halted (e := d.engine) hvalid hdeadline hhalted with
    ⟨_, earlier, node, pauses, hsteps, hpauses, hlength⟩
  have hguarded := d.warranted w
  have hends := d.endsWhenCancelled w
  rw [run, hsteps] at hguarded hends
  rcases hguarded.split with ⟨x, hbefore, hafter⟩
  have hcount := pauses_le_millis hsleeps hdeadline hafter hends.of_append
  have hread : forall m step c, Warranted w d.settings d.deadline m step c -> Passage w m [] c :=
    fun _ _ _ h => h.passage
  have hlater := hsleeps.runs.passage (.of_guarded hread hbefore)
  have hless : (x.timeLeft w d.deadline).millis ≤ (d.start.timeLeft w d.deadline).millis := by
    apply Nat.div_le_div_right
    rw [Scene.timeLeft, Instant.nanos_timeUntil hdeadline, Scene.timeLeft,
      Instant.nanos_timeUntil hdeadline]
    exact Nat.sub_le_sub_left hlater _
  rw [hpauses.countP_eq, hlength] at hcount
  omega

theorem timely (hsleeps : w.Sleeps) (hdeadline : d.deadline.InRange) : d.Timely w where
  pauses := by
    intro before after x hsteps _ hafter
    have hends := d.endsWhenCancelled w
    rw [hsteps] at hends
    exact pauses_le_millis hsleeps hdeadline hafter hends.of_append
  shorter := by
    intro before after node length left wake hsteps
    rcases Engine.deliver_warrantedAt (e := d.engine) hsteps with
      ⟨m, c, next, hbefore, hwarranted, hmakes, _⟩
    have hread := hwarranted.passage
    cases hwarranted with
    | paused _ _ hseen _ hlt =>
        refine ⟨m, c, next, hbefore, hread, hmakes, hseen.left, hlt, ?_⟩
        intro hprompt
        have hsame : (w.timer c.world).1 = (w.timer m.world).1 :=
          Instant.ext (hprompt.readings hread)
        rw [Scene.timeLeft, hsame]
        rw [hseen.left] at hlt
        exact hlt
  returns := by
    intro hvalid hpatience
    have hreturns := not_halted hsleeps hdeadline hvalid hpatience
    exact ⟨hreturns, fun more hle => run_withPatience hle (hreturns _)⟩
  onTime := by
    intro hontime hlimits
    exact time_le_of_onTime hontime (d.warranted w) hlimits (Nat.le_max_left _ _)
      (Nat.le_max_right _ _)

end Delivery

/-!
## Batches
-/

namespace Engine

variable {e : Engine} {w : Surroundings σ} {world : σ}

theorem settle_ne_halted {id : TransactionId} {hashes : List (NodeId × Hash)} {tx : Transaction}
    {ending : Ending Response} {halt : Halt} (h : ending ≠ .halted halt) :
    (settle id hashes tx ending).1 ≠ .halted halt := by
  intro hhalted
  cases ending with
  | halted other =>
      cases hhalted
      exact h rfl
  | failed error => cases hhalted
  | answered response =>
      unfold settle at hhalted
      dsimp only at hhalted
      split at hhalted
      · cases hhalted
      · cases hhalted

theorem submit_not_halted (hsleeps : w.Sleeps) {tx : Transaction} {deadline : Instant}
    (hdeadline : deadline.InRange) (hvalid : e.settings.validate = .ok ())
    (hpatience : ((w.timer world).1.timeUntil deadline).millis < w.patience) (halt : Halt) :
    (e.submit w tx deadline world).run.ending ≠ .halted halt := by
  rcases e.submit_cases w tx deadline world with
    ⟨error, _, hrun⟩ | ⟨request, id, hashes, _, hrun⟩
  · rw [hrun]
    intro hhalted
    cases hhalted
  · let only : Delivery σ :=
      { settings := e.settings
        registry := e.registry
        request := request
        deadline := deadline
        world := world }
    have hreturns : forall halt, (only.run w).ending ≠ .halted halt :=
      only.not_halted hsleeps hdeadline hvalid hpatience
    rw [hrun, carryOut_ending]
    exact settle_ne_halted (hreturns halt)

theorem submit_time (hontime : w.OnTime) {tx : Transaction} {deadline : Instant}
    (hlimits : forall a, a ∈ attemptsIn (e.submit w tx deadline world).run.steps ->
      a.limit ≤ a.left) :
    (w.timer (e.submit w tx deadline world).run.world).1.nanos ≤
      max (w.timer world).1.nanos deadline.nanos := by
  rcases e.submit_cases w tx deadline world with
    ⟨error, _, hrun⟩ | ⟨request, id, hashes, _, hrun⟩
  · rw [hrun]
    exact Nat.le_max_left _ _
  · rw [hrun] at hlimits ⊢
    exact time_le_of_onTime hontime (e.deliver_warranted w request deadline world) hlimits
      (Nat.le_max_left _ _) (Nat.le_max_right _ _)

/-- What a batch comes to when each of its transactions is over in time. -/
theorem submitEach_time (hontime : w.OnTime) {timeout : Duration} {index : Nat}
    {txs : List Transaction} {receipts : List Receipt}
    (hlimits : forall a,
      a ∈ attemptsIn (submitEach w timeout index txs e receipts world).parts.flatten ->
        a.limit ≤ a.left) :
    (submitEach w timeout index txs e receipts world).scene.time w ≤
      (w.timer world).1.nanos + txs.length * timeout.nanos := by
  induction txs generalizing index e receipts world with
  | nil => exact Nat.le_add_right _ _
  | cons tx rest ih =>
      have hread : (w.timer (w.timer world).2).1 = (w.timer world).1 := hontime.prompt.timer world
      rw [List.length_cons, Nat.succ_mul]
      rcases submitEach_cons w timeout index tx rest e receipts world with
        ⟨_, hscene⟩ | ⟨deadline, done, hdeadline, hdone, hcourse⟩
      · rw [hscene]
        show (w.timer (w.timer world).2).1.nanos ≤ _
        rw [hread]
        exact Nat.le_add_right _ _
      · have hend := Instant.nanos_of_plus? hdeadline
        have hsubmit := @submit_time σ e w (w.timer world).2 hontime tx deadline
        rw [← hdone, hread, hend] at hsubmit
        rcases hcourse with ⟨hparts, hscene⟩ | ⟨receipt, next, hnext, hparts, hscene⟩
        · rw [hparts, List.flatten_singleton] at hlimits
          have hfirst := hsubmit hlimits
          have hover : done.run.scene.time w ≤ _ := hfirst
          rw [hscene]
          omega
        · rw [hparts, List.flatten_cons, attemptsIn_append] at hlimits
          have hfirst := hsubmit fun a ha => hlimits a (List.mem_append_left _ ha)
          have hrest := @ih { e with registry := done.run.registry } done.run.world (index + 1)
            (receipts ++ [receipt])
          rw [← hnext] at hrest
          have hothers := hrest fun a ha => hlimits a (List.mem_append_right _ ha)
          rw [hscene]
          omega

theorem submitEach_not_halted (hsleeps : w.Sleeps) (hontime : w.OnTime) {timeout : Duration}
    {index : Nat} {txs : List Transaction} {receipts : List Receipt}
    (hvalid : e.settings.validate = .ok ())
    (hrange : (Instant.mk ((w.timer world).1.nanos + txs.length * timeout.nanos)).InRange)
    (hpatience : timeout.millis < w.patience)
    (hlimits : forall a,
      a ∈ attemptsIn (submitEach w timeout index txs e receipts world).parts.flatten ->
        a.limit ≤ a.left) (halt : Halt) :
    (submitEach w timeout index txs e receipts world).ending ≠ .halted halt := by
  induction txs generalizing index e receipts world with
  | nil =>
      intro hhalted
      cases hhalted
  | cons tx rest ih =>
      have hread : (w.timer (w.timer world).2).1 = (w.timer world).1 := hontime.prompt.timer world
      rw [List.length_cons, Nat.succ_mul] at hrange
      -- The first deadline is not later than the last one, which is in range.
      let deadline : Instant := ⟨(w.timer world).1.nanos + timeout.nanos⟩
      have hin : deadline.InRange := by
        apply hrange.mono
        show (w.timer world).1.nanos + timeout.nanos ≤ _ + _
        omega
      have hdeadline : (w.timer world).1.plus? timeout = some deadline :=
        Instant.plus?_of_inRange hin
      have hleft : ((w.timer (w.timer world).2).1.timeUntil deadline).millis < w.patience := by
        have hspan : ((w.timer world).1.timeUntil deadline).nanos = timeout.nanos := by
          rw [Instant.nanos_timeUntil hin]
          exact Nat.add_sub_cancel_left _ _
        rw [hread, Duration.millis, hspan]
        exact hpatience
      have hreturns : forall halt,
          (e.submit w tx deadline (w.timer world).2).run.ending ≠ .halted halt :=
        submit_not_halted hsleeps hin hvalid hleft
      have htime := @submit_time σ e w (w.timer world).2 hontime tx deadline
      have hend : deadline.nanos = (w.timer world).1.nanos + timeout.nanos := rfl
      rw [hread, hend] at htime
      simp only [submitEach, hdeadline] at hlimits ⊢
      generalize e.submit w tx deadline (w.timer world).2 = done at *
      cases hending : done.run.ending with
      | halted other => exact (hreturns other hending).elim
      | failed error =>
          intro hhalted
          cases hhalted
      | answered receipt =>
          simp only [hending, List.flatten_cons, attemptsIn_append] at hlimits
          have hfirst := htime fun a ha => hlimits a (List.mem_append_left _ ha)
          have hrest := @ih { e with registry := done.run.registry } done.run.world (index + 1)
            (receipts ++ [receipt]) hvalid
          apply hrest
          · apply hrange.mono
            show (w.timer done.run.world).1.nanos + _ ≤ _ + _
            omega
          · exact fun a ha => hlimits a (List.mem_append_right _ ha)

end Engine

/-- If pauses take no less than they are to take, every wait ends after fewer pauses than
milliseconds are left, whatever the clock shows and others do.  If pauses and exchanges are over
in time as well, a delivery is over when its deadline is reached, and a batch takes no longer
than all of its timeouts. -/
theorem deliveries_timely {w : Surroundings σ} (hsleeps : w.Sleeps) :
    (forall d : Delivery σ, d.deadline.InRange -> d.Timely w) ∧
    (w.OnTime -> forall (e : Engine) (b : Batch) (timeout : Duration) (world : σ),
      (forall a, a ∈ attemptsIn (e.submitAll w b timeout world).parts.flatten ->
        a.limit ≤ a.left) ->
      (e.submitAll w b timeout world).scene.time w ≤
          (w.timer world).1.nanos + b.transactions.length * timeout.nanos ∧
        (e.settings.validate = .ok () ->
          (Instant.mk ((w.timer world).1.nanos +
            b.transactions.length * timeout.nanos)).InRange ->
          timeout.millis < w.patience ->
          forall halt, (e.submitAll w b timeout world).ending ≠ .halted halt)) := by
  constructor
  · intro d hdeadline
    exact d.timely hsleeps hdeadline
  · intro hontime e b timeout world hlimits
    unfold Engine.submitAll at hlimits ⊢
    cases hunready : Engine.firstUnready? 0 b.transactions with
    | some unready =>
        refine ⟨Nat.le_add_right _ _, ?_⟩
        intro _ _ _ halt hhalted
        cases hhalted
    | none =>
        rw [hunready] at hlimits
        refine ⟨Engine.submitEach_time hontime hlimits, ?_⟩
        intro hvalid hrange hpatience halt
        exact Engine.submitEach_not_halted hsleeps hontime hvalid hrange hpatience hlimits halt

/-!
## A window that grows while it is waited for
-/

/-- Others fail at node 3 while it is waited for in the first half of a second; then it
answers. -/
def restless : Surroundings Nat :=
  ticking
    (fun _ now => if now < 500000000 then [⟨⟨3⟩, .failed 250⟩] else [])
    (fun _ _ now => (.received (NodeResponse.codec.encode ⟨.ok, []⟩), [], now))

theorem restless_sleeps : restless.Sleeps where
  runs := ticking_timerRuns fun _ _ _ => Nat.le_refl _
  pause := fun _ _ _ => Nat.le_refl _

theorem restless_onTime : restless.OnTime where
  prompt := ticking_prompt
  pause := fun _ _ => Nat.le_refl _
  exchange := fun _ _ _ => Nat.le_add_right _ _

/-- A node that is left alone for a quarter of a second is asked. -/
def patientDelivery : Delivery Nat :=
  { settings := twoNodesEngine.settings
    registry := waitingEngine.registry
    request := patientQuery
    deadline := Instant.ofMillis 10000
    world := 0 }

theorem patientDelivery_timely :
    restless.Sleeps ∧ restless.OnTime ∧ patientDelivery.deadline.InRange ∧
      patientDelivery.settings.validate = .ok () ∧
      (patientDelivery.start.timeLeft restless patientDelivery.deadline).millis <
        restless.patience ∧
      (forall a, a ∈ (patientDelivery.run restless).attempts -> a.limit ≤ a.left) ∧
      (patientDelivery.run restless).steps.map Step.isPause =
        [false, true, true, true, false, false] ∧
      patientDelivery.Timely restless := by
  have hdeadline : patientDelivery.deadline.InRange := by decide
  refine ⟨restless_sleeps, restless_onTime, hdeadline, by decide +kernel, by decide +kernel,
    by decide +kernel, by decide +kernel, ?_⟩
  exact (deliveries_timely restless_sleeps).left patientDelivery hdeadline

end LedgerClient
