import LedgerClient.Number.Binary64

/-!
# Shortest decimal text

A number is written with the fewest digits that read back as the same number; of
several texts with that many digits the nearest one is taken, and of two that are equally
near the one farther from zero.  The digits are found on decimal grids of 1, 2, … 17 digits
in exact arithmetic: if a point of a grid reads back as the number, so does one of the two
points of that grid next to the number.
-/

namespace LedgerClient

namespace Shortest

open Binary64 (powerOfTen)

/-- The number `digits * 10 ^ exponent`. -/
structure Decimal where
  digits : Nat
  exponent : Int
deriving DecidableEq

/-- What reads back as a number: everything between two ends, the ends themselves if `closed`.
The ends and the number are in quarters of a unit. -/
structure Range where
  low : Nat
  mid : Nat
  high : Nat
  closed : Bool

def Range.ofUnits (units : Nat) : Range :=
  let k := Binary64.step units
  let gap := 1 <<< k
  let isLeast := 0 < k && units == 1 <<< (52 + k)
  { low := 4 * units - (if isLeast then gap else 2 * gap)
    mid := 4 * units
    high := 4 * units + 2 * gap
    closed := (units / gap) % 2 == 0 }

def Decimal.quarters (d : Decimal) : Nat × Nat :=
  if 0 ≤ d.exponent then (d.digits * powerOfTen d.exponent.toNat * 4 * Binary64.one, 1)
  else (d.digits * 4 * Binary64.one, powerOfTen (-d.exponent).toNat)

def Range.holds (r : Range) (d : Decimal) : Bool :=
  let (n, q) := d.quarters
  if r.closed then r.low * q ≤ n && n ≤ r.high * q
  else r.low * q < n && n < r.high * q

/-- The exponent of the first digit of a number of units that is not zero. -/
def leadingExponent (units : Nat) : Int :=
  if Binary64.one ≤ units then ((Nat.toDigits 10 (units / Binary64.one)).length : Int) - 1
  else
    let scaled := units * powerOfTen 330 / Binary64.one
    ((Nat.toDigits 10 scaled).length : Int) - 331

/-- The grid point at or below a number of units, as a count of `10 ^ exponent`. -/
def gridFloor (units : Nat) (exponent : Int) : Nat :=
  if 0 ≤ exponent then units / (Binary64.one * powerOfTen exponent.toNat)
  else units * powerOfTen (-exponent).toNat / Binary64.one

/-- The point of one grid that reads back and is nearest, if any; half a step goes up. -/
def onGrid? (units : Nat) (r : Range) (exponent : Int) : Option Decimal :=
  let low := gridFloor units exponent
  let below : Decimal := ⟨low, exponent⟩
  let above : Decimal := ⟨low + 1, exponent⟩
  match r.holds below, r.holds above with
  | false, false => none
  | true, false => some below
  | false, true => some above
  | true, true =>
      let (a, q) := below.quarters
      let (b, _) := above.quarters
      let down := r.mid * q - a
      let up := b - r.mid * q
      if down < up then some below else some above

def search (units : Nat) (r : Range) (lead : Int) : (tries count : Nat) → Decimal
  | 0, _ => ⟨gridFloor units (lead - 16), lead - 16⟩
  | tries + 1, count =>
      match onGrid? units r (lead - count) with
      | some d => d
      | none => search units r lead tries (count + 1)

def ofUnits (units : Nat) : Decimal :=
  search units (Range.ofUnits units) (leadingExponent units) 17 0

def trimDigits : (fuel : Nat) → Decimal → Decimal
  | 0, d => d
  | fuel + 1, d =>
      if d.digits % 10 = 0 ∧ d.digits ≠ 0 then
        trimDigits fuel ⟨d.digits / 10, d.exponent + 1⟩
      else d

/-- A decimal without an exponent: zeros fill the places up to the point. -/
def Decimal.positional (d : Decimal) : String :=
  let text := Nat.toDigits 10 d.digits
  if 0 ≤ d.exponent then
    String.ofList (text ++ List.replicate d.exponent.toNat '0')
  else
    let places := (-d.exponent).toNat
    if places < text.length then
      String.ofList (text.take (text.length - places) ++ '.' :: text.drop (text.length - places))
    else
      String.ofList ('0' :: '.' :: List.replicate (places - text.length) '0' ++ text)

end Shortest

namespace Binary64

/-- Shortest digits without an exponent; a whole number has no point. -/
def text : Binary64 → String
  | nan => "NaN"
  | infinite negative => (if negative then "-" else "") ++ "inf"
  | finite negative units =>
      let magnitude :=
        if units = 0 then "0"
        else (Shortest.trimDigits 400 (Shortest.ofUnits units)).positional
      (if negative then "-" else "") ++ magnitude

def isWhole : Binary64 → Bool
  | finite _ units => units % one == 0
  | _ => false

end Binary64

end LedgerClient
