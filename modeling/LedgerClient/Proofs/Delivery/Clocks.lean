import LedgerClient.Proofs.Delivery.Halting

/-!
# Laws of timers and clocks

Nothing is assumed of the surroundings unless a statement says so.  Here are the laws that
statements about time ask for: that the timer or the clock does not go back, that readings take
no time, and how long pauses and exchanges take.
-/

namespace LedgerClient

variable {σ : Type}

/-!
## Spans
-/

theorem Instant.isZero_timeUntil {now later : Instant} :
    (now.timeUntil later).isZero = true <-> later.nanos ≤ now.nanos := by
  rw [Duration.isZero, beq_iff_eq, timeUntil]
  show min (later.nanos - now.nanos) Duration.maxNanos = 0 <-> _
  have hpositive : 0 < Duration.maxNanos := by decide
  omega

/-- Up to a point that a timer can count to, a span is never cut off. -/
theorem Instant.nanos_timeUntil {later : Instant} (h : later.InRange) (now : Instant) :
    (now.timeUntil later).nanos = later.nanos - now.nanos := by
  apply Duration.nanos_ofNanos
  have hseconds : later.nanos < endSeconds * Duration.nanosPerSecond :=
    (Nat.div_lt_iff_lt_mul (by decide)).mp h
  have hend : endSeconds * Duration.nanosPerSecond ≤ Duration.maxNanos := by decide
  omega

theorem Instant.InRange.mono {earlier later : Instant} (h : later.InRange)
    (hle : earlier.nanos ≤ later.nanos) : earlier.InRange :=
  Nat.lt_of_le_of_lt (Nat.div_le_div_right hle) h

theorem Instant.plus?_of_inRange {start : Instant} {d : Duration}
    (h : (Instant.mk (start.nanos + d.nanos)).InRange) :
    start.plus? d = some ⟨start.nanos + d.nanos⟩ :=
  if_pos h

theorem Instant.nanos_of_plus? {start later : Instant} {d : Duration}
    (h : start.plus? d = some later) : later.nanos = start.nanos + d.nanos := by
  unfold plus? at h
  dsimp only at h
  split at h
  · injection h with h
    rw [← h]
  · cases h

/-!
## Laws
-/

namespace Scene

/-- The reading of the timer in a scene. -/
def time (w : Surroundings σ) (c : Scene σ) : Nat :=
  (w.timer c.world).1.nanos

/-- The reading of the clock in a scene. -/
def reading (w : Surroundings σ) (c : Scene σ) : Timestamp :=
  (w.clock c.world).1

theorem isZero_timeLeft {w : Surroundings σ} {deadline : Instant} {c : Scene σ} :
    (c.timeLeft w deadline).isZero = true <-> deadline.nanos ≤ c.time w :=
  Instant.isZero_timeUntil

theorem healthy_iff {w : Surroundings σ} {node : NodeId} {c : Scene σ} :
    c.healthy w node = true <-> (c.registry.health node).backoffUntil ≤ c.reading w :=
  decide_eq_true_iff

end Scene

namespace Surroundings

/-- The timer never goes back. -/
def TimerRuns (w : Surroundings σ) : Prop :=
  forall t, w.Lasting fun s => t ≤ (w.timer s).1.nanos

/-- The clock never goes back. -/
def ClockRuns (w : Surroundings σ) : Prop :=
  forall t, w.Lasting fun s => t ≤ (w.clock s).1

/-- Readings take no time. -/
structure Prompt (w : Surroundings σ) : Prop where
  timer : forall s, (w.timer (w.timer s).2).1 = (w.timer s).1
  clock : forall s, (w.timer (w.clock s).2).1 = (w.timer s).1
  isCancelled : forall s, (w.timer (w.isCancelled s).2).1 = (w.timer s).1

end Surroundings

section

variable {w : Surroundings σ} {c d : Scene σ} {step : Step} {steps : List Step}

theorem Surroundings.TimerRuns.passage (h : w.TimerRuns) (hpassage : Passage w c steps d) :
    c.time w ≤ d.time w :=
  (h (c.time w)).passage hpassage (Nat.le_refl _)

theorem Surroundings.ClockRuns.passage (h : w.ClockRuns) (hpassage : Passage w c steps d) :
    c.reading w ≤ d.reading w :=
  (h (c.reading w)).passage hpassage (UInt64.le_refl _)

theorem Surroundings.ClockRuns.makes (h : w.ClockRuns) (hstep : Makes w c step d) :
    c.reading w ≤ d.reading w :=
  (h (c.reading w)).makes hstep (UInt64.le_refl _)

theorem Surroundings.Prompt.time_timed (h : w.Prompt) (c : Scene σ) :
    (c.timed w).time w = c.time w := by
  show (w.timer (w.timer c.world).2).1.nanos = _
  rw [h.timer]
  rfl

theorem Surroundings.Prompt.time_clocked (h : w.Prompt) (c : Scene σ) :
    (c.clocked w).time w = c.time w := by
  show (w.timer (w.clock c.world).2).1.nanos = _
  rw [h.clock]
  rfl

/-- While nothing is done but readings, no time passes. -/
theorem Surroundings.Prompt.readings (h : w.Prompt) (hread : Passage w c [] d) :
    d.time w = c.time w := by
  generalize hsteps : [] = steps at hread
  induction hread with
  | done c => rfl
  | timed _ ih => exact (ih hsteps).trans (h.time_timed _)
  | clocked _ ih => exact (ih hsteps).trans (h.time_clocked _)
  | made _ _ _ => cases hsteps

end

/-!
## A steady timer and a steady clock
-/

/-- The state is the time in nanoseconds.  Timer and clock show it, pauses are kept to, and what
others do during a pause or an exchange is given. -/
def ticking (others : Duration → Nat → List Happening)
    (exchange : Call → Duration → Nat → Answer × List Happening × Nat) : Surroundings Nat where
  timer now := (⟨now⟩, now)
  clock now := (Timestamp.plusMillis 0 (now / Duration.nanosPerMilli), now)
  isCancelled now := (false, now)
  pause length now := (.elapsed, others length now, now + length.nanos)
  exchange := exchange
  nonce now := (0, now)
  patience := 20000

section

variable {others : Duration → Nat → List Happening}
  {exchange : Call → Duration → Nat → Answer × List Happening × Nat}

/-- What holds from some time on lasts if exchanges do not go back in time. -/
theorem ticking_lasting (hexchange : forall call limit now, now ≤ (exchange call limit now).2.2)
    {property : Nat -> Prop} (hproperty : forall s t, s ≤ t -> property s -> property t) :
    (ticking others exchange).Lasting property where
  timer := fun _ h => h
  clock := fun _ h => h
  isCancelled := fun _ h => h
  pause := fun _ _ h => hproperty _ _ (Nat.le_add_right _ _) h
  exchange := fun call limit now h => hproperty _ _ (hexchange call limit now) h

theorem ticking_timerRuns
    (hexchange : forall call limit now, now ≤ (exchange call limit now).2.2) :
    (ticking others exchange).TimerRuns :=
  fun _ => ticking_lasting hexchange fun _ _ hle h => Nat.le_trans h hle

theorem ticking_clockRuns
    (hexchange : forall call limit now, now ≤ (exchange call limit now).2.2) :
    (ticking others exchange).ClockRuns := by
  intro t
  apply ticking_lasting hexchange
  intro s now hle h
  refine UInt64.le_trans h ?_
  rw [UInt64.le_iff_toNat_le]
  show (Timestamp.plusMillis 0 _).toNat ≤ (Timestamp.plusMillis 0 _).toNat
  rw [Timestamp.toNat_plusMillis, Timestamp.toNat_plusMillis]
  have hmillis := Nat.div_le_div_right (c := Duration.nanosPerMilli) hle
  omega

theorem ticking_prompt : (ticking others exchange).Prompt where
  timer := fun _ => rfl
  clock := fun _ => rfl
  isCancelled := fun _ => rfl

end

end LedgerClient
