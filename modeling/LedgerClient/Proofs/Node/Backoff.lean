import LedgerClient.Proofs.Node.Windows
import Mathlib.Algebra.Group.Nat.Defs
import Mathlib.Data.List.Induction

/-!
# The length of windows

Each failure doubles the length of the next window up to the upper bound, and each success halves
it down to the lower one.  The upper bound is a span itself, so doubling is never cut off by the
longest span there is, and halving rounds down as if it were done at once.  So the length after
several failures or successes in a row has a closed form, from every state that a record can be in.
-/

namespace LedgerClient

namespace Health

variable {h : Health} {event : Event} {events : List Event}

/-!
## Bounds
-/

theorem IsBounded.ordered (hbounded : h.IsBounded) : h.minBackoff ≤ h.maxBackoff :=
  Nat.le_trans (Duration.le_def.mp hbounded.low) (Duration.le_def.mp hbounded.high)

/-- Forgetting keeps the bounds because they are in order already. -/
theorem IsBounded.bounds_record (hbounded : h.IsBounded) (event : Event) :
    (h.record event).minBackoff = h.minBackoff ∧ (h.record event).maxBackoff = h.maxBackoff := by
  cases event with
  | used now => exact ⟨rfl, rfl⟩
  | failed now => exact ⟨rfl, rfl⟩
  | succeeded => exact ⟨rfl, rfl⟩
  | forgotten =>
      have hordered := hbounded.ordered
      exact ⟨if_pos hordered, if_pos hordered⟩

theorem IsBounded.bounds_foldl (hbounded : h.IsBounded) (events : List Event) :
    (events.foldl Health.record h).minBackoff = h.minBackoff ∧
      (events.foldl Health.record h).maxBackoff = h.maxBackoff := by
  induction events generalizing h with
  | nil => exact ⟨rfl, rfl⟩
  | cons event rest ih =>
      rcases hbounded.bounds_record event with ⟨hlow, hhigh⟩
      rw [← hlow, ← hhigh]
      exact ih (hbounded.record event)

/-!
## One event
-/

theorem nanos_recordFailure (h : Health) (now : Timestamp) :
    (h.recordFailure now).currentBackoff.nanos =
      min (h.currentBackoff.nanos * 2) h.maxBackoff.nanos := by
  have hlongest := h.maxBackoff.nanos_le
  show (min h.currentBackoff.double h.maxBackoff).nanos = _
  rw [Duration.nanos_min]
  show min (min (h.currentBackoff.nanos * 2) Duration.maxNanos) h.maxBackoff.nanos = _
  omega

theorem nanos_recordSuccess (h : Health) :
    h.recordSuccess.currentBackoff.nanos =
      max (h.currentBackoff.nanos / 2) h.minBackoff.nanos :=
  Duration.nanos_max _ _

/-- The length in milliseconds and the end of the window each stay in the range of timestamps. -/
theorem toNat_windowEnd (h : Health) (now : Timestamp) :
    (h.windowEnd now).toNat =
      min (now.toNat + min (h.currentBackoff.nanos / Duration.nanosPerMilli) Timestamp.last.toNat)
        Timestamp.last.toNat := by
  rw [windowEnd, Timestamp.toNat_plusMillis, Duration.millis]
  omega

/-!
## Several in a row
-/

def Event.isSuccess : Event → Bool
  | succeeded => true
  | _ => false

/-- Events of one kind one after the other; the node may be used in between. -/
def IsStreak (counts : Event → Bool) (events : List Event) : Prop :=
  forall event, event ∈ events -> counts event = true ∨ event.isUse = true

theorem isStreak_append {counts : Event → Bool} {later : List Event} :
    IsStreak counts (events ++ later) <-> IsStreak counts events ∧ IsStreak counts later :=
  List.forall_mem_append

/-- The induction is on the last event, which acts on what the streak before it has made. -/
theorem nanos_of_failures (hbounded : h.IsBounded) (hstreak : IsStreak Event.isFailure events) :
    (events.foldl record h).currentBackoff.nanos =
      min (h.currentBackoff.nanos * 2 ^ events.countP Event.isFailure) h.maxBackoff.nanos := by
  induction events using List.reverseRecOn with
  | nil =>
      have hhigh := Duration.le_def.mp hbounded.high
      simp only [List.foldl_nil, List.countP_nil, Nat.pow_zero, Nat.mul_one]
      exact (Nat.min_eq_left hhigh).symm
  | append_singleton before last ih =>
      rcases isStreak_append.mp hstreak with ⟨hbefore, hlast⟩
      have hlength := ih hbefore
      rw [List.foldl_append, List.countP_append]
      cases last with
      | used now => exact hlength
      | failed now =>
          show (Health.recordFailure _ now).currentBackoff.nanos = min (_ * 2 ^ (_ + 1)) _
          rw [nanos_recordFailure, hlength, (hbounded.bounds_foldl before).right, Nat.pow_succ,
            ← Nat.mul_assoc]
          omega
      | succeeded => simp [IsStreak, Event.isFailure, Event.isUse] at hlast
      | forgotten => simp [IsStreak, Event.isFailure, Event.isUse] at hlast

theorem nanos_of_successes (hbounded : h.IsBounded) (hstreak : IsStreak Event.isSuccess events) :
    (events.foldl record h).currentBackoff.nanos =
      max (h.currentBackoff.nanos / 2 ^ events.countP Event.isSuccess) h.minBackoff.nanos := by
  induction events using List.reverseRecOn with
  | nil =>
      have hlow := Duration.le_def.mp hbounded.low
      simp only [List.foldl_nil, List.countP_nil, Nat.pow_zero, Nat.div_one]
      exact (Nat.max_eq_left hlow).symm
  | append_singleton before last ih =>
      rcases isStreak_append.mp hstreak with ⟨hbefore, hlast⟩
      have hlength := ih hbefore
      rw [List.foldl_append, List.countP_append]
      cases last with
      | used now => exact hlength
      | failed now => simp [IsStreak, Event.isSuccess, Event.isUse] at hlast
      | succeeded =>
          show (Health.recordSuccess _).currentBackoff.nanos = max (_ / 2 ^ (_ + 1)) _
          rw [nanos_recordSuccess, hlength, (hbounded.bounds_foldl before).left, Nat.pow_succ,
            ← Nat.div_div_eq_div_mul]
          omega
      | forgotten => simp [IsStreak, Event.isSuccess, Event.isUse] at hlast

theorem not_isOpening_of_successes (hstreak : IsStreak Event.isSuccess events) :
    forall event, event ∈ events -> ¬ event.IsOpening := by
  intro event hevent hopening
  have hkind := hstreak event hevent
  cases event with
  | used now => exact hopening
  | failed now => simp [Event.isSuccess, Event.isUse] at hkind
  | succeeded => exact hopening
  | forgotten => simp [Event.isSuccess, Event.isUse] at hkind

/-- Enough successes divide the length to nothing. -/
theorem eq_minBackoff_of_successes (hbounded : h.IsBounded)
    (hstreak : IsStreak Event.isSuccess events)
    (hmany : h.currentBackoff.nanos < 2 ^ events.countP Event.isSuccess) :
    (events.foldl record h).currentBackoff = h.minBackoff := by
  apply Duration.ext
  rw [nanos_of_successes hbounded hstreak, Nat.div_eq_of_lt hmany]
  exact Nat.max_eq_right (Nat.zero_le _)

/-- Whatever a record went through, the length of the next window lies between the bounds it was
made with.  From there several failures in a row double it up to the upper bound, each of them
opening a window of the length reached before, and several successes halve it down to the lower
bound, which they reach, and open no window. -/
theorem windows_double_and_halve {low high : Duration} {past : List Event}
    (hmade : h = past.foldl record (new low high)) :
    (h.IsBounded ∧ h.minBackoff = min low high ∧ h.maxBackoff = max low high) ∧
    (forall failures, IsStreak Event.isFailure failures ->
      (failures.foldl record h).currentBackoff.nanos =
        min (h.currentBackoff.nanos * 2 ^ failures.countP Event.isFailure) h.maxBackoff.nanos) ∧
    (forall (earlier : List Event) (now : Timestamp), IsStreak Event.isFailure earlier ->
      ((earlier ++ [Event.failed now]).foldl record h).backoffUntil.toNat =
        min
          (now.toNat +
            min (min (h.currentBackoff.nanos * 2 ^ earlier.countP Event.isFailure)
              h.maxBackoff.nanos / Duration.nanosPerMilli) Timestamp.last.toNat)
          Timestamp.last.toNat) ∧
    forall successes, IsStreak Event.isSuccess successes ->
      (successes.foldl record h).currentBackoff.nanos =
          max (h.currentBackoff.nanos / 2 ^ successes.countP Event.isSuccess)
            h.minBackoff.nanos ∧
        (h.currentBackoff.nanos < 2 ^ successes.countP Event.isSuccess ->
          (successes.foldl record h).currentBackoff = h.minBackoff) ∧
        (successes.foldl record h).backoffUntil = h.backoffUntil := by
  have hnew := isBounded_new low high
  have hbounded : h.IsBounded := by
    rw [hmade]
    exact hnew.foldl past
  rcases hnew.bounds_foldl past with ⟨hlow, hhigh⟩
  rw [← hmade] at hlow hhigh
  refine ⟨⟨hbounded, hlow, hhigh⟩, ?failures, ?window, ?successes⟩
  case failures => exact fun failures hstreak => nanos_of_failures hbounded hstreak
  case window =>
    intro earlier now hstreak
    rw [List.foldl_append]
    show ((earlier.foldl record h).windowEnd now).toNat = _
    rw [toNat_windowEnd, nanos_of_failures hbounded hstreak]
  case successes =>
    intro successes hstreak
    exact ⟨nanos_of_successes hbounded hstreak, eq_minBackoff_of_successes hbounded hstreak,
      backoffUntil_foldl (not_isOpening_of_successes hstreak)⟩

/-- A record whose bounds came in the wrong order, after a use and a failure. -/
def onceFailed : Health :=
  [Event.used 5, .failed 10].foldl record (new defaultMaxBackoff defaultMinBackoff)

/-- A second failure makes the next window last a second, which a third one opens; thirty successes
instead lead back to a quarter of a second. -/
theorem onceFailed_doubles_and_halves :
    onceFailed =
        [Event.used 5, .failed 10].foldl record (new defaultMaxBackoff defaultMinBackoff) ∧
      IsStreak Event.isFailure [.used 20, .failed 20] ∧
      IsStreak Event.isSuccess (List.replicate 30 .succeeded) ∧
      onceFailed.currentBackoff.nanos <
        2 ^ (List.replicate 30 .succeeded).countP Event.isSuccess ∧
      ([Event.used 20, .failed 20].foldl record onceFailed).currentBackoff.nanos = 1000000000 ∧
      (([Event.used 20, .failed 20] ++ [Event.failed 30]).foldl record
        onceFailed).backoffUntil.toNat = 1030 ∧
      ((List.replicate 30 .succeeded).foldl record onceFailed).currentBackoff =
        defaultMinBackoff := by
  have hfailures : IsStreak Event.isFailure [.used 20, .failed 20] := by
    unfold IsStreak
    decide
  have hsuccesses : IsStreak Event.isSuccess (List.replicate 30 .succeeded) := by
    intro event hevent
    rw [List.eq_of_mem_replicate hevent]
    exact Or.inl rfl
  have hmany : onceFailed.currentBackoff.nanos <
      2 ^ (List.replicate 30 .succeeded).countP Event.isSuccess := by decide
  rcases @windows_double_and_halve onceFailed defaultMaxBackoff defaultMinBackoff
    [.used 5, .failed 10] rfl with ⟨⟨_, hlow, _⟩, hdoubled, hwindow, hhalved⟩
  refine ⟨rfl, hfailures, hsuccesses, hmany, ?length, ?window, ?lower⟩
  case length =>
    rw [hdoubled _ hfailures]
    decide
  case window =>
    rw [hwindow _ 30 hfailures]
    decide
  case lower =>
    rw [(hhalved _ hsuccesses).right.left hmany, hlow]
    decide

end Health

end LedgerClient
