import LedgerClient.Proofs.Delivery.Warrant
import LedgerClient.Proofs.Number.Shares

/-!
# Deliveries that do not come back

A delivery is halted when a wait is no longer followed, or when a share of the time that is
left is no span.  The first takes as many pauses in a row as are followed.  The second never
happens to an engine with valid settings and a deadline that a timer can count to.
-/

namespace LedgerClient

variable {σ : Type}

/-- A timer can count to this point. -/
def Instant.InRange (i : Instant) : Prop :=
  i.nanos / Duration.nanosPerSecond < endSeconds

instance (i : Instant) : Decidable i.InRange :=
  inferInstanceAs (Decidable (_ < _))

theorem Instant.seconds_timeUntil {deadline : Instant} (h : deadline.InRange) (now : Instant) :
    (now.timeUntil deadline).seconds < endSeconds := by
  have hnanos : (now.timeUntil deadline).nanos ≤ deadline.nanos :=
    Nat.le_trans (Nat.min_le_left _ _) (Nat.sub_le _ _)
  exact Nat.lt_of_le_of_lt (Nat.div_le_div_right hnanos) h

theorem DeliverySettings.isShare_of_validate {settings : DeliverySettings}
    (h : settings.validate = .ok ()) : settings.attemptShare.isShare = true := by
  unfold validate at h
  cases hshare : settings.attemptShare.isShare with
  | true => rfl
  | false => simp [hshare] at h

namespace Progress

variable {w : Surroundings σ} {settings : DeliverySettings} {deadline : Instant}
  {p : Progress σ}

theorem exists_limit? (hvalid : settings.validate = .ok ()) (hdeadline : deadline.InRange)
    (isLast : Bool) (now : Instant) :
    exists limit, limit? settings isLast (now.timeUntil deadline) = some limit := by
  cases isLast with
  | true => exact ⟨_, rfl⟩
  | false =>
      exact Duration.exists_scale? (Instant.seconds_timeUntil hdeadline now)
        (DeliverySettings.isShare_of_validate hvalid)

/-!
## Waits that are no longer followed
-/

theorem await_stillWaiting {node : NodeId} {patience : Nat} {backoff left : Duration}
    (h : (await w deadline node patience backoff left p).1 = .stillWaiting) :
    exists pauses, p.Continues pauses (await w deadline node patience backoff left p).2 ∧
      Pauses node pauses ∧ pauses.length = patience := by
  induction patience generalizing backoff left p with
  | zero =>
      unfold await at h ⊢
      by_cases hzero : backoff.isZero = true
      · rw [if_pos hzero] at h
        cases h
      · rw [if_neg hzero] at h ⊢
        by_cases hle : left ≤ backoff
        · rw [if_pos hle] at h
          cases h
        · rw [if_neg hle]
          exact ⟨[], Continues.refl p, .none, rfl⟩
  | succ patience ih =>
      unfold await at h ⊢
      by_cases hzero : backoff.isZero = true
      · rw [if_pos hzero] at h
        cases h
      · rw [if_neg hzero] at h ⊢
        by_cases hle : left ≤ backoff
        · rw [if_pos hle] at h
          cases h
        · rw [if_neg hle] at h ⊢
          have hlt : backoff < left := Nat.lt_of_not_le hle
          have hpause := p.continues_pause (w.pause backoff p.world).2.2
            (p.registry.meanwhile (w.pause backoff p.world).2.1) node backoff left
            (w.pause backoff p.world).1
          dsimp only at h ⊢
          cases hwake : (w.pause backoff p.world).1 with
          | cancelled =>
              rw [hwake] at h
              cases h
          | elapsed =>
              rw [hwake] at h hpause
              have hread := hpause.trans
                ((continues_timeLeft w deadline _).trans (continues_backoff w node _))
              rcases ih h with ⟨pauses, hrest, hpauses, hlength⟩
              exact ⟨_, hread.trans hrest, .one hlt hpauses, by simp [hlength]⟩

theorem gate_stillWaiting {node : NodeId} {left : Duration}
    (h : (p.gate w settings deadline node left).1 = .stillWaiting) :
    exists pauses, p.Continues pauses (p.gate w settings deadline node left).2 ∧
      Pauses node pauses ∧ pauses.length = w.patience := by
  unfold gate at h ⊢
  by_cases hwait : settings.waitForUnhealthy = true
  · rw [if_pos hwait] at h ⊢
    rcases await_stillWaiting h with ⟨pauses, hcontinues, hpauses⟩
    exact ⟨pauses, (continues_backoff w node p).trans hcontinues, hpauses⟩
  · rw [if_neg hwait] at h
    cases h

/-- The course ends with so many pauses in a row for one node. -/
def EndsWaiting (course : List Step) (count : Nat) : Prop :=
  exists earlier node pauses, course = earlier ++ pauses ∧ Pauses node pauses ∧
    pauses.length = count

/-!
## Deliveries
-/

theorem conclude_ne_halted (node : NodeId) (outcome : Outcome) (halt : Halt) :
    p.conclude node outcome ≠ .ended (.halted halt) := by
  intro h
  cases outcome with
  | accepted answer => cases h
  | retryable fault => cases h
  | rejected code => cases h

theorem approach_ne_halted {isLast : Bool} {left : Duration}
    (hlimit : exists limit, limit? settings isLast left = some limit) (request : Request)
    (node : Node) (halt : Halt) :
    (p.approach w settings request node isLast left).1 ≠ .ended (.halted halt) := by
  intro h
  rcases hlimit with ⟨limit, hlimit⟩
  unfold approach at h
  cases hpayload : request.payloadFor? node.id with
  | none =>
      rw [hpayload] at h
      cases h
  | some payload =>
      rw [hpayload, hlimit] at h
      dsimp only at h
      split at h
      · cases h
      · exact conclude_ne_halted _ _ _ h

theorem turn_halted (hvalid : settings.validate = .ok ()) (hdeadline : deadline.InRange)
    {request : Request} {maxAttempts : Nat} {node : Node} {isFinal : Bool} {halt : Halt}
    (h : (p.turn w settings request deadline maxAttempts node isFinal).1 =
      .ended (.halted halt)) :
    halt = .stillWaiting ∧
      EndsWaiting (p.turn w settings request deadline maxAttempts node isFinal).2.course
        w.patience := by
  have htime := (proceeds_look w settings deadline p).read_timer
  unfold turn at h ⊢
  by_cases hspent : maxAttempts ≤ p.attempts
  · rw [if_pos hspent] at h
    cases h
  · rw [if_neg hspent] at h ⊢
    dsimp only at h ⊢
    cases hcancelled : (p.look w).1 with
    | true =>
        simp only [hcancelled, if_true] at h
        cases h
    | false =>
        simp only [hcancelled] at h ⊢
        by_cases hzero : ((p.look w).2.timeLeft w deadline).1.isZero = true
        · simp only [hzero, if_true] at h
          cases h
        · simp only [hzero] at h ⊢
          rcases passed_gate node.id htime rfl rfl with ⟨_, hfree⟩
          cases hgate : (((p.look w).2.timeLeft w deadline).2.gate w settings deadline node.id
              ((p.look w).2.timeLeft w deadline).1).1 with
          | cancelled =>
              rw [hgate] at h
              cases h
          | skipped =>
              rw [hgate] at h
              cases h
          | stillWaiting =>
              rw [hgate] at h
              cases h
              rcases gate_stillWaiting hgate with ⟨pauses, hcontinues, hpauses, hlength⟩
              exact ⟨rfl, _, node.id, pauses, hcontinues.course, hpauses, hlength⟩
          | opened left =>
              rw [hgate] at h
              rcases hfree left hgate with ⟨m, _, hnode⟩
              have hlimit : forall isLast, exists limit,
                  limit? settings isLast left = some limit := by
                intro isLast
                rw [hnode.left_eq]
                exact exists_limit? hvalid hdeadline isLast _
              by_cases hover : left.isZero = true
              · simp only [hover, if_true] at h
                cases h
              · simp only [hover, Bool.false_eq_true, if_false] at h
                exact (approach_ne_halted (hlimit _) request node halt h).elim

theorem visit_halted (hvalid : settings.validate = .ok ()) (hdeadline : deadline.InRange)
    {request : Request} {maxAttempts : Nat} {candidates : List Node} {halt : Halt}
    (h : (visit w settings request deadline maxAttempts candidates p).1 = .halted halt) :
    halt = .stillWaiting ∧
      EndsWaiting (visit w settings request deadline maxAttempts candidates p).2.course
        w.patience := by
  induction candidates generalizing p with
  | nil => cases h
  | cons node rest ih =>
      have hturn := @turn_halted σ w settings deadline p hvalid hdeadline request maxAttempts node
        rest.isEmpty halt
      unfold visit at h ⊢
      rcases hresult : p.turn w settings request deadline maxAttempts node rest.isEmpty with
        ⟨t, p'⟩
      rw [hresult] at h hturn
      cases t with
      | ended ending =>
          dsimp only at h
          rw [h] at hturn
          exact hturn rfl
      | onward => exact ih h

end Progress

namespace Engine

/-- A delivery that does not come back is waiting for a node, for as long as it was followed. -/
theorem deliver_halted {e : Engine} {w : Surroundings σ} {request : Request} {deadline : Instant}
    {world : σ} {halt : Halt} (hvalid : e.settings.validate = .ok ())
    (hdeadline : deadline.InRange)
    (h : (e.deliver w request deadline world).ending = .halted halt) :
    halt = .stillWaiting ∧
      Progress.EndsWaiting (e.deliver w request deadline world).steps w.patience := by
  unfold deliver at h ⊢
  cases hcandidates : e.registry.candidates request.nodes with
  | error error =>
      rw [hcandidates] at h
      cases h
  | ok candidates =>
      rw [hcandidates] at h
      exact Progress.visit_halted hvalid hdeadline h

end Engine

end LedgerClient
