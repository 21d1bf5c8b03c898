import LedgerClient.Toml.Value

/-!
# Numbers of TOML

Integers in four bases, with underscores between digits, and floating-point numbers with a
fraction, an exponent or both.  Numbers may be of any length, but their value is found in one
pass: digits that cannot change it any more are passed over.
-/

namespace LedgerClient

namespace Toml

def isDigit (c : Char) : Bool :=
  '0' ≤ c && c ≤ '9'

def digitValue? (base : Nat) (c : Char) : Option Nat :=
  let value :=
    if isDigit c then some (c.toNat - 48)
    else if 'a' ≤ c ∧ c ≤ 'f' then some (c.toNat - 87)
    else if 'A' ≤ c ∧ c ≤ 'F' then some (c.toNat - 55)
    else none
  value.filter (· < base)

/-- The digits of a number; every underscore stands between two of them. -/
def digits? (base : Nat) : List Char → Option (List Nat)
  | [] => none
  | [c] => (digitValue? base c).map fun d => [d]
  | c :: '_' :: rest => do
      let d ← digitValue? base c
      let ds ← digits? base rest
      return d :: ds
  | c :: rest => do
      let d ← digitValue? base c
      let ds ← digits? base rest
      return d :: ds

def ofDigits (base : Nat) (ds : List Nat) : Nat :=
  ds.foldl (fun n d => base * n + d) 0

/-- The value of digits, read until it is at least `limit`; the digits behind that do not count. -/
def ofDigitsUntil (limit base : Nat) (ds : List Nat) : Nat :=
  ds.foldl (fun n d => if n < limit then base * n + d else n) 0

theorem le_foldl_digits {base : Nat} (h : 0 < base) (ds : List Nat) (n : Nat) :
    n ≤ ds.foldl (fun n d => base * n + d) n := by
  induction ds generalizing n with
  | nil => exact Nat.le_refl n
  | cons d rest ih =>
      have step : n ≤ base * n + d :=
        Nat.le_trans (Nat.le_mul_of_pos_left n h) (Nat.le_add_right _ _)
      exact Nat.le_trans step (ih (base * n + d))

/-- A value below the limit is read in full. -/
theorem ofDigitsUntil_eq {limit base : Nat} {ds : List Nat} (h : 0 < base)
    (small : ofDigits base ds < limit) : ofDigitsUntil limit base ds = ofDigits base ds := by
  suffices ∀ n, ds.foldl (fun n d => base * n + d) n < limit →
      ds.foldl (fun n d => if n < limit then base * n + d else n) n =
        ds.foldl (fun n d => base * n + d) n from this 0 small
  clear small
  induction ds with
  | nil => intro n _; rfl
  | cons d rest ih =>
      intro n below
      have hn : n < limit := Nat.lt_of_le_of_lt (le_foldl_digits h (d :: rest) n) below
      simpa [hn] using ih (base * n + d) below

def takeSign : List Char → Bool × List Char
  | '-' :: rest => (true, rest)
  | '+' :: rest => (false, rest)
  | cs => (false, cs)

/-- Decimal digits that do not start with a needless zero. -/
def wholeDigits? (cs : List Char) : Option (List Nat) :=
  match digits? 10 cs with
  | some (0 :: _ :: _) => none
  | ds => ds

/-- An integer without a sign in the base that its first two characters name. -/
def basedInteger? : List Char → Option Nat
  | '0' :: 'x' :: rest => (digits? 16 rest).map (ofDigitsUntil UInt64.size 16)
  | '0' :: 'o' :: rest => (digits? 8 rest).map (ofDigitsUntil UInt64.size 8)
  | '0' :: 'b' :: rest => (digits? 2 rest).map (ofDigitsUntil UInt64.size 2)
  | _ => none

def negateIf (negative : Bool) (n : Nat) : Int :=
  if negative then -(n : Int) else n

/-- An integer; of one that is too large for a document only so much is known. -/
def integer? (cs : List Char) : Option Int :=
  match basedInteger? cs with
  | some n => some n
  | none =>
      let (negative, cs) := takeSign cs
      (wholeDigits? cs).map fun ds => negateIf negative (ofDigitsUntil UInt64.size 10 ds)

/-- The exponent of a number, nothing being zero.  From 65536 on further digits do not count. -/
def exponent? : List Char → Option Int
  | [] => some 0
  | _ :: rest =>
      let (negative, cs) := takeSign rest
      (digits? 10 cs).map fun ds => negateIf negative (ofDigitsUntil UInt16.size 10 ds)

/-- The digits after the point, nothing being no digits. -/
def fraction? : List Char → Option (List Nat)
  | [] => some []
  | _ :: rest => digits? 10 rest

def isExponentMark (c : Char) : Bool :=
  c == 'e' || c == 'E'

/-- How many digits of a number are read one by one.  No number halfway between two neighbours has
as many, so of the digits behind them it only matters whether all are zero. -/
def longestMantissa : Nat := 800

/-- Digits and an exponent whose nearest number is the same, but at most one more digit than
`longestMantissa`. -/
def mantissa (ds : List Nat) (exponent : Int) : Nat × Int :=
  let ds := ds.dropWhile (· == 0)
  let front := ds.take longestMantissa
  let back := ds.drop longestMantissa
  if back.all (· == 0) then (ofDigits 10 front, exponent + back.length)
  else (ofDigits 10 (front ++ [1]), exponent + back.length - 1)

theorem ofDigits_dropWhile_zero (base : Nat) (ds : List Nat) :
    ofDigits base (ds.dropWhile (· == 0)) = ofDigits base ds := by
  induction ds with
  | nil => rfl
  | cons d rest ih =>
      by_cases hd : d = 0
      · subst hd
        simpa [ofDigits] using ih
      · simp [hd]

theorem mantissa_eq {ds : List Nat} (h : ds.length ≤ longestMantissa) (exponent : Int) :
    mantissa ds exponent = (ofDigits 10 ds, exponent) := by
  have short : (ds.dropWhile (· == 0)).length ≤ longestMantissa :=
    Nat.le_trans (List.dropWhile_sublist _).length_le h
  simp [mantissa, List.drop_eq_nil_of_le short, List.take_of_length_le short,
    ofDigits_dropWhile_zero]

/-- A number with a fraction, an exponent or both.  One that is too large is refused; one that is
too small in the same way is the negative infinity. -/
def decimal? (cs : List Char) : Option Binary64 := do
  let (negative, cs) := takeSign cs
  let front := cs.takeWhile fun c => !isExponentMark c
  let exponent ← exponent? (cs.dropWhile fun c => !isExponentMark c)
  let whole ← wholeDigits? (front.takeWhile (· != '.'))
  let fraction ← fraction? (front.dropWhile (· != '.'))
  let (digits, exponent) := mantissa (whole ++ fraction) (exponent - fraction.length)
  let x := Binary64.ofDecimal negative digits exponent
  if x = .infinite false then none else some x

def special? (cs : List Char) : Option Binary64 :=
  match takeSign cs with
  | (negative, ['i', 'n', 'f']) => some (.infinite negative)
  | (_, ['n', 'a', 'n']) => some .nan
  | _ => none

def number? (cs : List Char) : Option Value :=
  match special? cs with
  | some x => some (.float x)
  | none =>
      match integer? cs with
      | some n => if isInteger n then some (.integer n) else none
      | none => (decimal? cs).map .float

end Toml

end LedgerClient
