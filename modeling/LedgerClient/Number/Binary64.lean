import LedgerClient.Time.Duration

/-!
# Binary floating point with 53 significant bits

Every finite number of this kind is a whole number of units of `2 ^ -1074`, so a
finite number is a sign and a count of units, and a result is rounded by one exact
division: to the nearest number, and of two equally near ones to the even one.
Sums, products and spans of time are thereby exact statements about natural numbers.
-/

namespace LedgerClient

/-- The whole number nearest to `n / d`; of two, the even one. -/
def roundHalfEven (n d : Nat) : Nat :=
  let q := n / d
  let r := n % d
  if 2 * r < d then q
  else if d < 2 * r then q + 1
  else q + q % 2

inductive Binary64 where
  | nan
  | infinite (negative : Bool)
  /-- The number `units * 2 ^ -1074`, negated if `negative`. -/
  | finite (negative : Bool) (units : Nat)
deriving DecidableEq, Inhabited

namespace Binary64

def one : Nat := 1 <<< 1074

/-- The first count of units that is too large for a finite number. -/
def overflow : Nat := 1 <<< 2098

/-- The step between neighbours is `2 ^ step units` units. -/
def step (units : Nat) : Nat :=
  units.log2 - 52

/-- `n / d` units, rounded to a number that has at most 53 significant bits. -/
def roundUnits (n d : Nat) : Nat :=
  let k := step (n / d)
  roundHalfEven n (d <<< k) <<< k

def ofUnits (negative : Bool) (n d : Nat) : Binary64 :=
  let units := roundUnits n d
  if overflow ≤ units then infinite negative else finite negative units

def ofNat (n : Nat) : Binary64 :=
  ofUnits false (n * one) 1

def ofRatio (n d : Nat) : Binary64 :=
  ofUnits false (n * one) d

def powerOfTen (exponent : Nat) : Nat :=
  Nat.pow 10 exponent

def ofDecimal (negative : Bool) (digits : Nat) (exponent : Int) : Binary64 :=
  if digits = 0 then finite negative 0
  else if 400 < exponent then infinite negative
  else if 0 ≤ exponent then ofUnits negative (digits * powerOfTen exponent.toNat * one) 1
  else if 400 + ((Nat.toDigits 10 digits).length : Int) < -exponent then finite negative 0
  else ofUnits negative (digits * one) (powerOfTen (-exponent).toNat)

def isNegative : Binary64 → Bool
  | nan => false
  | infinite negative => negative
  | finite negative _ => negative

/-- Sum of two numbers that are not negative. -/
def addMagnitudes : Binary64 → Binary64 → Binary64
  | finite _ a, finite _ b => ofUnits false (a + b) 1
  | nan, _ => nan
  | _, nan => nan
  | _, _ => infinite false

def mul : Binary64 → Binary64 → Binary64
  | finite s a, finite t b => ofUnits (s != t) (a * b) one
  | nan, _ => nan
  | _, nan => nan
  | infinite s, finite t b => if b = 0 then nan else infinite (s != t)
  | finite s a, infinite t => if a = 0 then nan else infinite (s != t)
  | infinite s, infinite t => infinite (s != t)

/-- Greater than zero and at most one; no other numbers are proper shares of a whole. -/
def isShare : Binary64 → Bool
  | finite false units => 0 < units && units ≤ one
  | _ => false

end Binary64

namespace Duration

/-- The length of a span in seconds; its whole seconds and the rest are rounded apart. -/
def toBinary64 (d : Duration) : Binary64 :=
  Binary64.addMagnitudes (Binary64.ofNat d.seconds)
    (Binary64.ofRatio d.subsecNanos nanosPerSecond)

/-- The span of that many seconds, to the nearest nanosecond; none if it is negative or too long. -/
def ofBinary64? : Binary64 → Option Duration
  | .finite negative units =>
      let nanos := roundHalfEven (units * nanosPerSecond) Binary64.one
      if negative && units != 0 then none
      else if h : nanos ≤ maxNanos then some ⟨nanos, h⟩
      else none
  | _ => none

/-- A share of a span; none if the result is no span. -/
def scale? (d : Duration) (share : Binary64) : Option Duration :=
  ofBinary64? (Binary64.mul share d.toBinary64)

end Duration

end LedgerClient
