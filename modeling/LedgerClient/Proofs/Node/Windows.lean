import LedgerClient.Proofs.Node.Records

/-!
# Windows in the record of a node

A failure opens a window of its own length, and the record keeps the end of that window alone.
As long as windows grow from one failure to the next, each of them ends after the one before.
Successes in between make the next window shorter, so a failure that comes after them can open a
window that ends before the running one does.
-/

namespace LedgerClient

theorem Duration.le_double (d : Duration) : d ≤ d.double :=
  Nat.le_min.mpr ⟨Nat.le_mul_of_pos_right d.nanos Nat.two_pos, d.nanos_le⟩

theorem Duration.millis_le_millis {d e : Duration} (h : d ≤ e) : d.millis ≤ e.millis :=
  Nat.div_le_div_right h

theorem Timestamp.plusMillis_le_plusMillis {s t : Timestamp} (hst : s ≤ t) {ms more : Nat}
    (hms : ms ≤ more) : s.plusMillis ms ≤ t.plusMillis more := by
  rw [UInt64.le_iff_toNat_le, Timestamp.toNat_plusMillis, Timestamp.toNat_plusMillis]
  rw [UInt64.le_iff_toNat_le] at hst
  omega

namespace Health

namespace Event

/-- An event that opens a new window or none. -/
def IsOpening : Event -> Prop
  | failed _ => True
  | forgotten => True
  | _ => False

/-- When the event was entered, if that is kept. -/
def time? : Event → Option Timestamp
  | used now => some now
  | failed now => some now
  | _ => none

theorem last_opening (events : List Event) :
    (forall e, e ∈ events -> ¬ e.IsOpening) ∨
      exists before e between, events = before ++ e :: between ∧ e.IsOpening ∧
        forall other, other ∈ between -> ¬ other.IsOpening := by
  induction events with
  | nil => exact Or.inl (List.forall_mem_nil _)
  | cons e rest ih =>
      rcases ih with hnone | ⟨before, last, between, hrest, hlast, hafter⟩
      · by_cases hopening : e.IsOpening
        · exact Or.inr ⟨[], e, rest, rfl, hopening, hnone⟩
        · exact Or.inl (List.forall_mem_cons.mpr ⟨hopening, hnone⟩)
      · exact Or.inr ⟨e :: before, last, between, by rw [hrest]; rfl, hlast, hafter⟩

end Event

/-- Among the events is one before which a window lasted until `till`, and after which none
does. -/
def CutShort (h : Health) (events : List Event) (till : Timestamp) : Prop :=
  exists earlier event later, events = earlier ++ event :: later ∧ event.IsOpening ∧
    till ≤ (earlier.foldl record h).backoffUntil ∧
    ((earlier.foldl record h).record event).backoffUntil < till

variable {h : Health} {event : Event} {events : List Event} {till : Timestamp}

theorem isOpening_of_lt (hbefore : till ≤ h.backoffUntil)
    (hafter : (h.record event).backoffUntil < till) : event.IsOpening := by
  cases event with
  | used now => exact (UInt64.not_lt.mpr hbefore hafter).elim
  | failed now => trivial
  | succeeded => exact (UInt64.not_lt.mpr hbefore hafter).elim
  | forgotten => trivial

theorem lasts_or_cutShort (hbefore : till ≤ h.backoffUntil) (events : List Event) :
    till ≤ (events.foldl record h).backoffUntil ∨ h.CutShort events till := by
  induction events generalizing h with
  | nil => exact Or.inl hbefore
  | cons event rest ih =>
      by_cases hlasts : till ≤ (h.record event).backoffUntil
      · rcases ih hlasts with hkept | ⟨earlier, other, later, hrest, hopening, hlong, hshort⟩
        · exact Or.inl hkept
        · right
          exact ⟨event :: earlier, other, later, by rw [hrest]; rfl, hopening, hlong, hshort⟩
      · right
        have hafter : (h.record event).backoffUntil < till := UInt64.not_le.mp hlasts
        exact ⟨[], event, rest, rfl, isOpening_of_lt hbefore hafter, hbefore, hafter⟩

/-!
## The length of the next window
-/

/-- The length of the next window lies between the bounds. -/
structure IsBounded (h : Health) : Prop where
  low : h.minBackoff ≤ h.currentBackoff
  high : h.currentBackoff ≤ h.maxBackoff

theorem isBounded_new (a b : Duration) : (new a b).IsBounded := by
  by_cases hle : a ≤ b
  · simp only [new, if_pos hle]
    exact ⟨Nat.le_refl a.nanos, hle⟩
  · simp only [new, if_neg hle]
    exact ⟨Nat.le_refl b.nanos, Nat.le_of_not_le hle⟩

theorem IsBounded.record (hbounded : h.IsBounded) (event : Event) :
    (h.record event).IsBounded := by
  have hlow := Duration.le_def.mp hbounded.low
  have hhigh := Duration.le_def.mp hbounded.high
  cases event with
  | used now => exact ⟨hbounded.low, hbounded.high⟩
  | failed now =>
      have hdouble := Duration.le_def.mp h.currentBackoff.le_double
      constructor
      · show h.minBackoff.nanos ≤ (min h.currentBackoff.double h.maxBackoff).nanos
        rw [Duration.nanos_min]
        exact Nat.le_min.mpr ⟨Nat.le_trans hlow hdouble, Nat.le_trans hlow hhigh⟩
      · show (min h.currentBackoff.double h.maxBackoff).nanos ≤ h.maxBackoff.nanos
        rw [Duration.nanos_min]
        exact Nat.min_le_right _ _
  | succeeded =>
      have hhalf : h.currentBackoff.half.nanos ≤ h.currentBackoff.nanos := Nat.div_le_self _ _
      constructor
      · show h.minBackoff.nanos ≤ (max h.currentBackoff.half h.minBackoff).nanos
        rw [Duration.nanos_max]
        exact Nat.le_max_right _ _
      · show (max h.currentBackoff.half h.minBackoff).nanos ≤ h.maxBackoff.nanos
        rw [Duration.nanos_max]
        exact Nat.max_le.mpr ⟨Nat.le_trans hhalf hhigh, Nat.le_trans hlow hhigh⟩
  | forgotten => exact isBounded_new _ _

theorem IsBounded.foldl (hbounded : h.IsBounded) (events : List Event) :
    (events.foldl Health.record h).IsBounded := by
  induction events generalizing h with
  | nil => exact hbounded
  | cons event rest ih => exact ih (hbounded.record event)

/-!
## The end of the window
-/

/-- The end of the window that a failure would open now. -/
def windowEnd (h : Health) (now : Timestamp) : Timestamp :=
  now.plusMillis h.currentBackoff.millis

theorem backoffUntil_record (hother : ¬ event.IsOpening) :
    (h.record event).backoffUntil = h.backoffUntil := by
  cases event with
  | used now => rfl
  | failed now => exact (hother trivial).elim
  | succeeded => rfl
  | forgotten => exact (hother trivial).elim

theorem backoffUntil_foldl (hothers : forall event, event ∈ events -> ¬ event.IsOpening) :
    (events.foldl record h).backoffUntil = h.backoffUntil := by
  induction events generalizing h with
  | nil => rfl
  | cons event rest ih =>
      rw [List.forall_mem_cons] at hothers
      rw [List.foldl_cons, ih hothers.right, backoffUntil_record hothers.left]

/-- Being used changes nothing about windows. -/
theorem currentBackoff_foldl (hothers : forall event, event ∈ events -> ¬ event.IsOpening)
    (hnone : Event.succeeded ∉ events) :
    (events.foldl record h).currentBackoff = h.currentBackoff := by
  induction events generalizing h with
  | nil => rfl
  | cons event rest ih =>
      rw [List.forall_mem_cons] at hothers
      rw [List.mem_cons, not_or] at hnone
      rw [List.foldl_cons, ih hothers.right hnone.right]
      cases event with
      | used now => rfl
      | failed now => exact (hothers.left trivial).elim
      | succeeded => exact (hnone.left rfl).elim
      | forgotten => exact (hothers.left trivial).elim

/-- A window was opened by the failure that came last. -/
theorem window_opened (a b : Duration) (events : List Event) :
    (events.foldl record (new a b)).backoffUntil = 0 ∨
      exists before now between, events = before ++ .failed now :: between ∧
        (forall event, event ∈ between -> ¬ event.IsOpening) ∧
        (events.foldl record (new a b)).backoffUntil =
          (before.foldl record (new a b)).windowEnd now := by
  rcases Event.last_opening events with hnone | ⟨before, last, between, hevents, hlast, hothers⟩
  · exact Or.inl (backoffUntil_foldl hnone)
  · rw [hevents, List.foldl_append, List.foldl_cons, backoffUntil_foldl hothers]
    cases last with
    | used now => exact hlast.elim
    | failed now => exact Or.inr ⟨before, now, between, rfl, hothers, rfl⟩
    | succeeded => exact hlast.elim
    | forgotten => exact Or.inl rfl

/-!
## Windows that end early
-/

/-- The events were entered in the order of time. -/
def InOrder (events : List Event) : Prop :=
  (events.filterMap Event.time?).Pairwise (· ≤ ·)

/-- There was a success after the failure that came last. -/
def IsRelieved (events : List Event) : Prop :=
  exists before now between, events = before ++ .failed now :: between ∧
    (forall event, event ∈ between -> ¬ event.IsOpening) ∧ Event.succeeded ∈ between

/-- The end of the window is never moved back. -/
def WindowsLast (h : Health) (events : List Event) : Prop :=
  forall first next rest, events = first ++ (next ++ rest) ->
    (first.foldl record h).backoffUntil ≤ ((first ++ next).foldl record h).backoffUntil

theorem InOrder.le_of_failures {before between : List Event} {earlier now : Timestamp}
    (horder : InOrder (before ++ .failed earlier :: between ++ [.failed now])) :
    earlier ≤ now := by
  unfold InOrder at horder
  rw [List.filterMap_append, List.pairwise_append] at horder
  apply horder.right.right earlier _ now (List.mem_singleton_self now)
  rw [List.filterMap_append]
  exact List.mem_append_right _ List.mem_cons_self

/-- Windows grow from one failure to the next unless there was a success in between. -/
theorem windowEnd_reaches (a b : Duration) {now : Timestamp}
    (horder : InOrder (events ++ [.failed now])) (hrelieved : ¬ IsRelieved events) :
    (events.foldl record (new a b)).backoffUntil ≤
      (events.foldl record (new a b)).windowEnd now := by
  rcases window_opened a b events with hnone | ⟨before, earlier, between, hevents, hothers, hwindow⟩
  · rw [hnone]
    exact UInt64.zero_le
  · have hnone : Event.succeeded ∉ between :=
      fun hmem => hrelieved ⟨before, earlier, between, hevents, hothers, hmem⟩
    rw [hevents] at horder
    have hlater := horder.le_of_failures
    have hbounded := (isBounded_new a b).foldl before
    rw [hwindow, hevents, List.foldl_append, List.foldl_cons, windowEnd, windowEnd,
      currentBackoff_foldl hothers hnone]
    apply Timestamp.plusMillis_le_plusMillis hlater
    apply Duration.millis_le_millis
    show _ ≤ (min (before.foldl record (new a b)).currentBackoff.double
      (before.foldl record (new a b)).maxBackoff).nanos
    rw [Duration.nanos_min]
    exact Nat.le_min.mpr ⟨Duration.le_double _, hbounded.high⟩

/-- The end of the window is moved back by failures alone, and only by one whose own window ends
before the one that is running. -/
theorem windowsLast_iff (hkept : Event.forgotten ∉ events) :
    h.WindowsLast events <->
      forall first now rest, events = first ++ .failed now :: rest ->
        (first.foldl record h).backoffUntil ≤ (first.foldl record h).windowEnd now := by
  constructor
  · intro hlast first now rest hevents
    have hnext := hlast first [.failed now] rest hevents
    rw [List.foldl_append] at hnext
    exact hnext
  · intro hreach first next rest hevents
    rw [List.foldl_append]
    rcases lasts_or_cutShort (UInt64.le_refl (first.foldl record h).backoffUntil) next with
      hlasts | ⟨earlier, event, later, hnext, hopening, hlong, hshort⟩
    · exact hlasts
    · have hplace : events = (first ++ earlier) ++ event :: (later ++ rest) := by
        rw [hevents, hnext]
        simp
      cases event with
      | used now => exact hopening.elim
      | failed now =>
          have hend := hreach _ now _ hplace
          rw [List.foldl_append] at hend
          exact (UInt64.not_lt.mpr (UInt64.le_trans hlong hend) hshort).elim
      | succeeded => exact hopening.elim
      | forgotten =>
          apply (hkept _).elim
          rw [hplace]
          exact List.mem_append_right _ List.mem_cons_self

/-- Two failures at once; the second opens a window until 1500. -/
def twoFailures : List Event :=
  [.failed 1000, .failed 1000]

/-- A node with the default bounds after two failures. -/
def twiceFailed : Health :=
  twoFailures.foldl record (new defaultMinBackoff defaultMaxBackoff)

end Health

end LedgerClient
