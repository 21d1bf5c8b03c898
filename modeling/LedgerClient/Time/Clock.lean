import LedgerClient.Time.Duration

/-!
# Readings of the wall clock

A reading is a number of milliseconds since the epoch.  A clock either stands until it
is moved or runs with the time that passes.
-/

namespace LedgerClient

abbrev Timestamp := UInt64

namespace Timestamp

def last : Timestamp := 18446744073709551615

/-- The reading `ms` milliseconds later; there is none after `last`. -/
def plusMillis (t : Timestamp) (ms : Nat) : Timestamp :=
  UInt64.ofNat (min (t.toNat + ms) last.toNat)

def timeUntil (t later : Timestamp) : Duration :=
  Duration.ofMillis (UInt64.ofNat (later.toNat - t.toNat))

theorem toNat_plusMillis (t : Timestamp) (ms : Nat) :
    (t.plusMillis ms).toNat = min (t.toNat + ms) last.toNat := by
  unfold plusMillis
  rw [UInt64.toNat_ofNat']
  apply Nat.mod_eq_of_lt
  exact Nat.lt_of_le_of_lt (Nat.min_le_right _ _) last.toNat_lt

end Timestamp

inductive Clock where
  | standing (reading : Timestamp)
  | running (origin : Timestamp)
deriving DecidableEq

namespace Clock

def read (elapsed : Duration) : Clock → Timestamp
  | standing reading => reading
  | running origin => origin + UInt64.ofNat elapsed.millis

/-- Moves a standing clock by whole milliseconds, around the end of its range. -/
def advance (d : Duration) : Clock → Clock
  | standing reading => standing (reading + UInt64.ofNat d.millis)
  | running origin => running origin

def set (reading : Timestamp) : Clock → Clock
  | standing _ => standing reading
  | running origin => running origin

end Clock

end LedgerClient
