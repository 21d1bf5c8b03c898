/-!
# Byte strings

A byte string is a list of octets, so that statements about it can be proved by
induction.  This module holds whole numbers written in a fixed number of octets,
in either order, and strings of a fixed length (keys, digests, signatures).
Main statements: a number that fits its width is read back from its octets, and
octets that were read as a number are written again as they were.
-/

namespace LedgerClient

abbrev Bytes := List UInt8

namespace Bytes

/-!
## Whole numbers in a fixed number of octets
-/

/-- How many numbers there are that fit `width` octets. -/
def capacity (width : Nat) : Nat :=
  Nat.pow 256 width

theorem capacity_zero : capacity 0 = 1 :=
  rfl

theorem capacity_succ (width : Nat) : capacity (width + 1) = 256 * capacity width :=
  Nat.mul_comm (capacity width) 256

/-- The `width` lowest base-256 digits of a number, the least significant first. -/
def littleEndian : (width : Nat) → Nat → Bytes
  | 0, _ => []
  | width + 1, n => UInt8.ofNat n :: littleEndian width (n / 256)

def ofLittleEndian : Bytes → Nat
  | [] => 0
  | b :: rest => b.toNat + 256 * ofLittleEndian rest

def bigEndian (width n : Nat) : Bytes :=
  (littleEndian width n).reverse

def ofBigEndian (bs : Bytes) : Nat :=
  ofLittleEndian bs.reverse

@[simp]
theorem length_littleEndian (width n : Nat) : (littleEndian width n).length = width := by
  induction width generalizing n with
  | zero => rfl
  | succ width ih => simp [littleEndian, ih]

theorem ofLittleEndian_littleEndian (width n : Nat) (h : n < capacity width) :
    ofLittleEndian (littleEndian width n) = n := by
  induction width generalizing n with
  | zero =>
      have hn : n = 0 := Nat.lt_one_iff.mp h
      simp [littleEndian, ofLittleEndian, hn]
  | succ width ih =>
      have hdiv : n / 256 < capacity width := by
        rw [capacity_succ] at h
        omega
      have hmod : (UInt8.ofNat n).toNat = n % 256 := by simp
      simp only [littleEndian, ofLittleEndian, ih _ hdiv, hmod]
      omega

theorem ofLittleEndian_lt (bs : Bytes) : ofLittleEndian bs < capacity bs.length := by
  induction bs with
  | nil => exact Nat.zero_lt_one
  | cons b rest ih =>
      have hb : b.toNat < 256 := b.toNat_lt
      simp only [ofLittleEndian, List.length_cons, capacity_succ]
      omega

theorem littleEndian_ofLittleEndian (bs : Bytes) :
    littleEndian bs.length (ofLittleEndian bs) = bs := by
  induction bs with
  | nil => rfl
  | cons b rest ih =>
      have hb : b.toNat < 256 := b.toNat_lt
      have hdiv : (b.toNat + 256 * ofLittleEndian rest) / 256 = ofLittleEndian rest := by omega
      have hhead : UInt8.ofNat (b.toNat + 256 * ofLittleEndian rest) = b := by
        apply UInt8.toNat_inj.mp
        simp only [UInt8.toNat_ofNat']
        omega
      simp [littleEndian, ofLittleEndian, hdiv, hhead, ih]

@[simp]
theorem length_bigEndian (width n : Nat) : (bigEndian width n).length = width := by
  simp [bigEndian]

theorem ofBigEndian_bigEndian (width n : Nat) (h : n < capacity width) :
    ofBigEndian (bigEndian width n) = n := by
  simp [ofBigEndian, bigEndian, ofLittleEndian_littleEndian width n h]

end Bytes

/-!
## Strings of a fixed length
-/

@[ext]
structure Octets (n : Nat) where
  toBytes : Bytes
  length_eq : toBytes.length = n
deriving DecidableEq

namespace Octets

def ofBytes? (n : Nat) (bs : Bytes) : Option (Octets n) :=
  if h : bs.length = n then some ⟨bs, h⟩ else none

def fill (n : Nat) (b : UInt8) : Octets n :=
  ⟨List.replicate n b, List.length_replicate⟩

/-- The first `n` octets of a byte string, with zeros in the place of missing ones. -/
def padded (n : Nat) (bs : Bytes) : Octets n :=
  ⟨bs.take n ++ List.replicate (n - bs.length) 0, by
    simp only [List.length_append, List.length_take, List.length_replicate]
    omega⟩

instance (n : Nat) : Inhabited (Octets n) :=
  ⟨fill n 0⟩

theorem ofBytes?_toBytes {n : Nat} (o : Octets n) : ofBytes? n o.toBytes = some o := by
  simp [ofBytes?, o.length_eq]

theorem ofBytes?_eq_some_iff {n : Nat} {bs : Bytes} {o : Octets n} :
    ofBytes? n bs = some o ↔ bs = o.toBytes := by
  constructor
  · intro h
    unfold ofBytes? at h
    split at h
    · cases h
      rfl
    · cases h
  · intro h
    rw [h]
    exact ofBytes?_toBytes o

end Octets

end LedgerClient
