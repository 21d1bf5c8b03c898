import LedgerClient.Bytes

/-!
# The curve of the signatures

Points of the twisted Edwards curve `-x² + y² = 1 + d x² y²` over the integers modulo
`2 ^ 255 - 19`, in extended coordinates `(X : Y : Z : T)` with `x = X / Z`, `y = Y / Z` and
`x y = T / Z`.  The addition law is complete, so doubling and the neutral point need no
case of their own.
-/

namespace LedgerClient

namespace Edwards

def fieldOrder : Nat := (1 <<< 255) - 19

/-- The order of the subgroup that the base point generates. -/
def groupOrder : Nat := (1 <<< 252) + 27742317777372353535851937790883648493

/-- Raises to a power by squaring; `bits` bounds the number of binary digits of the exponent. -/
def powMod (modulus : Nat) : (bits : Nat) → (base exponent : Nat) → Nat
  | 0, _, _ => 1 % modulus
  | bits + 1, base, exponent =>
      let rest := powMod modulus bits (base * base % modulus) (exponent / 2)
      if exponent % 2 = 1 then base * rest % modulus else rest

def power (base exponent : Nat) : Nat :=
  powMod fieldOrder 256 base exponent

def inverse (x : Nat) : Nat :=
  power x (fieldOrder - 2)

def sub (x y : Nat) : Nat :=
  (x + (fieldOrder - y)) % fieldOrder

def negate (x : Nat) : Nat :=
  (fieldOrder - x) % fieldOrder

def curveD : Nat :=
  37095705934669439343138083508754565189542113879843219016388785533085940283555

def rootOfMinusOne : Nat :=
  19681161376707505956807079304988542015446066515923890162744021073123829784752

structure Point where
  x : Nat
  y : Nat
  z : Nat
  t : Nat
deriving DecidableEq

def neutral : Point :=
  { x := 0, y := 1, z := 1, t := 0 }

def ofAffine (x y : Nat) : Point :=
  { x := x, y := y, z := 1, t := x * y % fieldOrder }

def basePoint : Point :=
  ofAffine 15112221349535400772501151409588531511454012693041857206046113283949847762202
    46316835694926478169428394003475163141307993866256225615783033603165251855960

def add (p q : Point) : Point :=
  let a := sub p.y p.x * sub q.y q.x % fieldOrder
  let b := (p.y + p.x) * (q.y + q.x) % fieldOrder
  let c := p.t * 2 * curveD % fieldOrder * q.t % fieldOrder
  let d := p.z * 2 * q.z % fieldOrder
  let e := sub b a
  let f := sub d c
  let g := (d + c) % fieldOrder
  let h := (b + a) % fieldOrder
  { x := e * f % fieldOrder
    y := g * h % fieldOrder
    z := f * g % fieldOrder
    t := e * h % fieldOrder }

def opposite (p : Point) : Point :=
  { p with x := negate p.x, t := negate p.t }

/-- The `n`-fold sum of a point; `bits` bounds the number of binary digits of `n`. -/
def multiple : (bits : Nat) → Nat → Point → Point
  | 0, _, _ => neutral
  | bits + 1, n, p =>
      let rest := multiple bits (n / 2) (add p p)
      if n % 2 = 1 then add p rest else rest

def scale (n : Nat) (p : Point) : Point :=
  multiple 256 n p

/-- The ordinate in 255 bits and the parity of the abscissa in the highest bit. -/
def compress (p : Point) : Octets 32 :=
  let zi := inverse p.z
  let x := p.x * zi % fieldOrder
  let y := p.y * zi % fieldOrder
  ⟨Bytes.littleEndian 32 (y + (x % 2) <<< 255), by simp⟩

/-- A square root of `u / v`, if there is one; the even one of the two. -/
def rootOfRatio? (u v : Nat) : Option Nat :=
  let v3 := v * v % fieldOrder * v % fieldOrder
  let v7 := v3 * v3 % fieldOrder * v % fieldOrder
  let r := u * v3 % fieldOrder * power (u * v7 % fieldOrder) ((fieldOrder - 5) / 8) % fieldOrder
  let check := v * r % fieldOrder * r % fieldOrder
  let root :=
    if check = u % fieldOrder then some r
    else if check = negate (u % fieldOrder) then some (r * rootOfMinusOne % fieldOrder)
    else none
  root.map fun r => if r % 2 = 1 then negate r else r

/-- The point with a given ordinate and parity.  The ordinate need not be reduced. -/
def decompress? (octets : Octets 32) : Option Point :=
  let n := Bytes.ofLittleEndian octets.toBytes
  let y := n % (1 <<< 255) % fieldOrder
  let y2 := y * y % fieldOrder
  let u := sub y2 1
  let v := (curveD * y2 + 1) % fieldOrder
  (rootOfRatio? u v).map fun x =>
    ofAffine (if n >>> 255 = 1 then negate x else x) y

end Edwards

end LedgerClient
