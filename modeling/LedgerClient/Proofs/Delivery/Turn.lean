import LedgerClient.Proofs.Delivery.Course

/-!
# What a turn can be

The cases of a turn are listed once, with all its steps and what comes of it.  Every
invariant of a delivery is proved by going through this list.
-/

namespace LedgerClient

/-- The steps made while a node was waited for, and what came of the wait. -/
inductive GateCourse (node : NodeId) : List Step -> Progress.Gate -> Prop where
  | opened {pauses : List Step} (left : Duration) :
      Pauses node pauses ->
      GateCourse node pauses (.opened left)
  | skipped {pauses : List Step} {backoff left : Duration} :
      Pauses node pauses ->
      left ≤ backoff ->
      GateCourse node (pauses ++ [.skipped node backoff left]) .skipped
  | cancelled {pauses : List Step} {length left : Duration} :
      Pauses node pauses ->
      length < left ->
      GateCourse node (pauses ++ [.paused node length left .cancelled]) .cancelled
  | stillWaiting {pauses : List Step} :
      Pauses node pauses ->
      GateCourse node pauses .stillWaiting

/-- A pause before a wait is part of the wait. -/
theorem GateCourse.cons {node : NodeId} {steps : List Step} {gate : Progress.Gate}
    {length left : Duration} (hlength : length < left) (h : GateCourse node steps gate) :
    GateCourse node (.paused node length left .elapsed :: steps) gate := by
  cases h with
  | opened left hpauses => exact .opened left (.one hlength hpauses)
  | skipped hpauses hle => exact .skipped (.one hlength hpauses) hle
  | cancelled hpauses hlt => exact .cancelled (.one hlength hpauses) hlt
  | stillWaiting hpauses => exact .stillWaiting (.one hlength hpauses)

/-- An attempt at a node as it follows from a request. -/
structure IsAttemptAt (settings : DeliverySettings) (request : Request) (candidate : Node)
    (a : Attempt) : Prop where
  node : a.call.node = candidate.id
  address : a.call.address = candidate.address
  mode : a.call.mode = settings.transport
  method : a.call.method = request.method
  payload : request.payloadFor? candidate.id = some a.call.payload
  left : a.left.isZero = false

namespace Progress

variable {σ : Type}

/-- The steps made once a node may be tried, and what comes of them. -/
inductive ApproachCourse (settings : DeliverySettings) (request : Request) (node : Node)
    (after : Progress σ) : List Step -> Turn -> Prop where
  | foreign :
      request.payloadFor? node.id = none ->
      ApproachCourse settings request node after []
        (.ended (.failed (.transaction (.foreignNode node.id))))
  | outOfRange :
      ApproachCourse settings request node after [] (.ended (.halted .outOfRange))
  | discarded {a : Attempt} :
      IsAttemptAt settings request node a ->
      ApproachCourse settings request node after [.attempted a, .looked true]
        (.ended (.failed .cancelled))
  | concluded {a : Attempt} :
      IsAttemptAt settings request node a ->
      ApproachCourse settings request node after [.attempted a, .looked false]
        (after.conclude node.id a.outcome)

/-- The steps of the turn of a candidate, and what comes of them. -/
inductive TurnCourse (settings : DeliverySettings) (request : Request) (maxAttempts : Nat)
    (node : Node) (before after : Progress σ) : List Step -> Turn -> Prop where
  | spent :
      maxAttempts ≤ before.attempts ->
      TurnCourse settings request maxAttempts node before after [] (.ended after.exhausted)
  | withdrawn :
      TurnCourse settings request maxAttempts node before after [.looked true]
        (.ended (.failed .cancelled))
  | expired {pauses : List Step} :
      Pauses node.id pauses ->
      TurnCourse settings request maxAttempts node before after
        (.looked false :: (pauses ++ [.expired])) (.ended after.exhausted)
  | cancelled {steps : List Step} :
      GateCourse node.id steps .cancelled ->
      TurnCourse settings request maxAttempts node before after (.looked false :: steps)
        (.ended (.failed .cancelled))
  | stillWaiting {steps : List Step} :
      GateCourse node.id steps .stillWaiting ->
      TurnCourse settings request maxAttempts node before after (.looked false :: steps)
        (.ended (.halted .stillWaiting))
  | skipped {steps : List Step} :
      GateCourse node.id steps .skipped ->
      TurnCourse settings request maxAttempts node before after (.looked false :: steps) .onward
  | approached {pauses steps : List Step} {t : Turn} :
      before.attempts < maxAttempts ->
      Pauses node.id pauses ->
      ApproachCourse settings request node after steps t ->
      TurnCourse settings request maxAttempts node before after
        (.looked false :: (pauses ++ steps)) t

/-!
## Waiting
-/

theorem await_course (w : Surroundings σ) (deadline : Instant) (node : NodeId)
    (patience : Nat) (backoff left : Duration) (p : Progress σ) :
    exists steps,
      p.Continues steps (await w deadline node patience backoff left p).2 ∧
        GateCourse node steps (await w deadline node patience backoff left p).1 := by
  induction patience generalizing backoff left p with
  | zero =>
      unfold await
      by_cases hzero : backoff.isZero = true
      · rw [if_pos hzero]
        exact ⟨[], Continues.refl p, .opened left .none⟩
      · rw [if_neg hzero]
        by_cases hle : left ≤ backoff
        · rw [if_pos hle]
          exact ⟨_, continues_skip p node backoff left, .skipped .none hle⟩
        · rw [if_neg hle]
          exact ⟨[], Continues.refl p, .stillWaiting .none⟩
  | succ patience ih =>
      unfold await
      by_cases hzero : backoff.isZero = true
      · rw [if_pos hzero]
        exact ⟨[], Continues.refl p, .opened left .none⟩
      · rw [if_neg hzero]
        by_cases hle : left ≤ backoff
        · rw [if_pos hle]
          exact ⟨_, continues_skip p node backoff left, .skipped .none hle⟩
        · rw [if_neg hle]
          have hlt : backoff < left := Nat.lt_of_not_le hle
          rcases w.pause backoff p.world with ⟨wake, happenings, world⟩
          have hpause := p.continues_pause world (p.registry.meanwhile happenings) node backoff
            left wake
          cases wake with
          | cancelled =>
              exact ⟨_, hpause, .cancelled .none hlt⟩
          | elapsed =>
              -- The time that is left and the backoff are read again, then the wait goes on.
              have hleft := hpause.trans (continues_timeLeft w deadline _)
              have hbackoff := hleft.trans (continues_backoff w node _)
              rcases ih _ _ _ with ⟨steps, hsteps, hgate⟩
              exact ⟨_, hbackoff.trans hsteps, hgate.cons hlt⟩

theorem gate_course (w : Surroundings σ) (settings : DeliverySettings) (deadline : Instant)
    (node : NodeId) (left : Duration) (p : Progress σ) :
    exists steps,
      p.Continues steps (p.gate w settings deadline node left).2 ∧
        GateCourse node steps (p.gate w settings deadline node left).1 := by
  unfold gate
  by_cases hwait : settings.waitForUnhealthy = true
  · rw [if_pos hwait]
    rcases await_course w deadline node w.patience _ left _ with ⟨steps, hsteps, hgate⟩
    exact ⟨steps, (continues_backoff w node p).trans hsteps, hgate⟩
  · rw [if_neg hwait]
    exact ⟨[], Continues.refl p, .opened left .none⟩

/-!
## Trying
-/

@[simp]
theorem attempts_settle (w : Surroundings σ) (node : NodeId) (outcome : Outcome)
    (p : Progress σ) : (p.settle w node outcome).attempts = p.attempts := by
  cases outcome <;> rfl

@[simp]
theorem nodesTried_settle (w : Surroundings σ) (node : NodeId) (outcome : Outcome)
    (p : Progress σ) : (p.settle w node outcome).nodesTried = p.nodesTried := by
  cases outcome <;> rfl

@[simp]
theorem setback_settle (w : Surroundings σ) (node : NodeId) (outcome : Outcome)
    (p : Progress σ) : (p.settle w node outcome).setback = p.setback := by
  cases outcome <;> rfl

@[simp]
theorem steps_settle (w : Surroundings σ) (node : NodeId) (outcome : Outcome)
    (p : Progress σ) : (p.settle w node outcome).steps = p.steps := by
  cases outcome <;> rfl

theorem attempt_course (w : Surroundings σ) (call : Call) (left limit : Duration)
    (p : Progress σ) :
    exists a : Attempt,
      a.call = call ∧ a.left = left ∧ a.limit = limit ∧
        (p.attempt w call left limit).1 = a.outcome ∧
        p.Continues [.attempted a] (p.attempt w call left limit).2 := by
  refine ⟨(p.send w call left limit).1, rfl, rfl, rfl, rfl, ?_⟩
  apply continues_step
  · simp [attempt, log, send, ask]
  · simp [attempt, log, send, ask]
  · simp [attempt, log, send, ask, Attempt.node]
  · simp only [attempt, log, setback_settle]
    rfl

theorem approach_course (w : Surroundings σ) (settings : DeliverySettings) (request : Request)
    (node : Node) (isLast : Bool) (left : Duration) (p : Progress σ)
    (hleft : left.isZero = false) :
    exists steps,
      p.Continues steps (p.approach w settings request node isLast left).2 ∧
        ApproachCourse settings request node (p.approach w settings request node isLast left).2
          steps (p.approach w settings request node isLast left).1 := by
  unfold approach
  cases hpayload : request.payloadFor? node.id with
  | none => exact ⟨[], Continues.refl p, .foreign hpayload⟩
  | some payload =>
      cases hlimit : limit? settings isLast left with
      | none => exact ⟨[], Continues.refl p, .outOfRange⟩
      | some limit =>
          let call : Call :=
            { node := node.id
              address := node.address
              mode := settings.transport
              method := request.method
              payload := payload }
          rcases attempt_course w call left limit p with ⟨a, hcall, haleft, _, houtcome, hattempt⟩
          have hlook := hattempt.trans (continues_look w _)
          have ha : IsAttemptAt settings request node a :=
            { node := by rw [hcall]
              address := by rw [hcall]
              mode := by rw [hcall]
              method := by rw [hcall]
              payload := by rw [hcall, hpayload]
              left := by rw [haleft, hleft] }
          cases hcancelled : ((p.attempt w call left limit).2.look w).1 with
          | true =>
              rw [hcancelled] at hlook
              simp only [call] at hcancelled hlook
              simp only [hcancelled, if_true]
              exact ⟨_, hlook, .discarded ha⟩
          | false =>
              rw [hcancelled] at hlook
              simp only [call] at hcancelled hlook houtcome
              simp only [hcancelled, houtcome]
              exact ⟨_, hlook, .concluded ha⟩

theorem turn_course (w : Surroundings σ) (settings : DeliverySettings) (request : Request)
    (deadline : Instant) (maxAttempts : Nat) (node : Node) (isFinal : Bool) (p : Progress σ) :
    exists steps,
      p.Continues steps (p.turn w settings request deadline maxAttempts node isFinal).2 ∧
        TurnCourse settings request maxAttempts node p
          (p.turn w settings request deadline maxAttempts node isFinal).2 steps
          (p.turn w settings request deadline maxAttempts node isFinal).1 := by
  unfold turn
  by_cases hspent : maxAttempts ≤ p.attempts
  · rw [if_pos hspent]
    exact ⟨[], Continues.refl p, .spent hspent⟩
  · rw [if_neg hspent]
    have hlook := continues_look w p
    cases hcancelled : (p.look w).1 with
    | true =>
        rw [hcancelled] at hlook
        simp only [hcancelled, if_true]
        exact ⟨_, hlook, .withdrawn⟩
    | false =>
        rw [hcancelled] at hlook
        have htime := hlook.trans (continues_timeLeft w deadline (p.look w).2)
        simp only [hcancelled]
        by_cases hzero : ((p.look w).2.timeLeft w deadline).1.isZero = true
        · simp only [hzero, if_true]
          exact ⟨_, htime.trans (continues_expire _), .expired .none⟩
        · rcases gate_course w settings deadline node.id ((p.look w).2.timeLeft w deadline).1
            ((p.look w).2.timeLeft w deadline).2 with ⟨steps, hsteps, hgate⟩
          have hwaited := htime.trans hsteps
          simp only [hzero]
          cases hopen : (((p.look w).2.timeLeft w deadline).2.gate w settings deadline node.id
              ((p.look w).2.timeLeft w deadline).1).1 with
          | cancelled =>
              rw [hopen] at hgate
              exact ⟨_, hwaited, .cancelled hgate⟩
          | stillWaiting =>
              rw [hopen] at hgate
              exact ⟨_, hwaited, .stillWaiting hgate⟩
          | skipped =>
              rw [hopen] at hgate
              exact ⟨_, hwaited, .skipped hgate⟩
          | opened left =>
              rw [hopen] at hgate
              cases hgate with
              | opened _ hpauses =>
                  by_cases hover : left.isZero = true
                  · simp only [hover, if_true]
                    exact ⟨_, hwaited.trans (continues_expire _), .expired hpauses⟩
                  · have hleft : left.isZero = false := by simpa using hover
                    simp only [hleft]
                    rcases approach_course w settings request node
                      (isFinal || _ + 1 == maxAttempts) left _ hleft with ⟨more, hmore, happroach⟩
                    exact ⟨_, hwaited.trans hmore,
                      .approached (Nat.lt_of_not_le hspent) hpauses happroach⟩

end Progress

end LedgerClient
