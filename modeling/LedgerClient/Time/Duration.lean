/-!
# Spans of time

A span is a whole number of nanoseconds.  There is a longest span: one second less
than `2 ^ 64` seconds and all nanoseconds of the last one.  Arithmetic that would leave
the range stays at its end, and subtraction stops at zero.
-/

namespace LedgerClient

namespace Duration

def nanosPerSecond : Nat := 1000000000

def nanosPerMilli : Nat := 1000000

def maxNanos : Nat := 18446744073709551615999999999

end Duration

@[ext]
structure Duration where
  nanos : Nat
  nanos_le : nanos ≤ Duration.maxNanos
deriving DecidableEq

namespace Duration

/-- The span of `n` nanoseconds, or the longest one if there is no such span. -/
def ofNanos (n : Nat) : Duration :=
  ⟨min n maxNanos, Nat.min_le_right n maxNanos⟩

def zero : Duration :=
  ofNanos 0

instance : Inhabited Duration :=
  ⟨zero⟩

def ofMillis (ms : UInt64) : Duration :=
  ofNanos (ms.toNat * nanosPerMilli)

def ofSeconds (secs : UInt64) : Duration :=
  ofNanos (secs.toNat * nanosPerSecond)

def seconds (d : Duration) : Nat :=
  d.nanos / nanosPerSecond

def subsecNanos (d : Duration) : Nat :=
  d.nanos % nanosPerSecond

/-- Whole milliseconds; a started one does not count. -/
def millis (d : Duration) : Nat :=
  d.nanos / nanosPerMilli

/-- Whole milliseconds, a started one counted as a whole one. -/
def millisUp (d : Duration) : Nat :=
  (d.nanos + (nanosPerMilli - 1)) / nanosPerMilli

def isZero (d : Duration) : Bool :=
  d.nanos == 0

def double (d : Duration) : Duration :=
  ofNanos (d.nanos * 2)

def half (d : Duration) : Duration :=
  ⟨d.nanos / 2, Nat.le_trans (Nat.div_le_self _ _) d.nanos_le⟩

def add (a b : Duration) : Duration :=
  ofNanos (a.nanos + b.nanos)

def sub (a b : Duration) : Duration :=
  ⟨a.nanos - b.nanos, Nat.le_trans (Nat.sub_le _ _) a.nanos_le⟩

instance : LE Duration :=
  ⟨fun a b => a.nanos ≤ b.nanos⟩

instance : LT Duration :=
  ⟨fun a b => a.nanos < b.nanos⟩

instance (a b : Duration) : Decidable (a ≤ b) :=
  inferInstanceAs (Decidable (a.nanos ≤ b.nanos))

instance (a b : Duration) : Decidable (a < b) :=
  inferInstanceAs (Decidable (a.nanos < b.nanos))

instance : Min Duration :=
  ⟨fun a b => if a ≤ b then a else b⟩

instance : Max Duration :=
  ⟨fun a b => if a ≤ b then b else a⟩

theorem le_def {a b : Duration} : a ≤ b ↔ a.nanos ≤ b.nanos :=
  Iff.rfl

theorem lt_def {a b : Duration} : a < b ↔ a.nanos < b.nanos :=
  Iff.rfl

theorem nanos_ofNanos {n : Nat} (h : n ≤ maxNanos) : (ofNanos n).nanos = n :=
  Nat.min_eq_left h

theorem nanos_ofMillis (ms : UInt64) : (ofMillis ms).nanos = ms.toNat * nanosPerMilli := by
  apply nanos_ofNanos
  have h := ms.toNat_lt
  unfold maxNanos nanosPerMilli
  omega

theorem nanos_min (a b : Duration) : (min a b).nanos = min a.nanos b.nanos := by
  show (if a ≤ b then a else b).nanos = _
  by_cases h : a.nanos ≤ b.nanos
  · simp [le_def, h]
  · simp [le_def, h, Nat.min_eq_right (Nat.le_of_not_le h)]

theorem nanos_max (a b : Duration) : (max a b).nanos = max a.nanos b.nanos := by
  show (if a ≤ b then b else a).nanos = _
  by_cases h : a.nanos ≤ b.nanos
  · simp [le_def, h]
  · simp [le_def, h, Nat.max_eq_left (Nat.le_of_not_le h)]

end Duration

end LedgerClient
