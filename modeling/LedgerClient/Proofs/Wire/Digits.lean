import LedgerClient.Proofs.Wire.Lossless
import Mathlib.Data.List.Forall2

/-!
# Digits in either case

A text is read from just the octets that it is written in.  A string of hexadecimal digits is
read from two digits for each octet, each of them in either case; it is written in lower case.
-/

namespace LedgerClient

namespace Utf8

theorem encode_of_decode {bs : Bytes} {s : String} (h : decode bs = .ok s) : encode s = bs := by
  unfold decode String.fromUTF8? at h
  by_cases hvalid : (⟨bs.toArray⟩ : ByteArray).IsValidUTF8
  · simp only [dif_pos hvalid] at h
    cases h
    simp [encode, String.fromUTF8]
  · simp only [dif_neg hvalid] at h
    cases h

theorem utf8EncodeChar_ascii :
    forall n, n < 128 -> String.utf8EncodeChar (Char.ofNat n) = [UInt8.ofNat n] := by
  decide

/-- Octets below 128 are a text. -/
theorem exists_decode_of_ascii {bs : Bytes} (h : forall b, b ∈ bs -> b.toNat < 128) :
    exists s, decode bs = .ok s := by
  have hencode : encode (String.ofList (bs.map fun b => Char.ofNat b.toNat)) = bs := by
    simp only [encode, String.toByteArray_ofList, List.utf8Encode, List.flatMap_map]
    induction bs with
    | nil => rfl
    | cons b bs ih =>
        rw [List.forall_mem_cons] at h
        have hrest := ih h.right
        simp only [List.flatMap_cons, utf8EncodeChar_ascii _ h.left, UInt8.ofNat_toNat]
        simpa using hrest
  have hdecode := decode_encode (String.ofList (bs.map fun b => Char.ofNat b.toNat))
  rw [hencode] at hdecode
  exact ⟨_, hdecode⟩

end Utf8

namespace Hex

/-- A digit in lower case. -/
def lower (b : UInt8) : UInt8 :=
  if 65 ≤ b.toNat ∧ b.toNat ≤ 70 then b + 32 else b

/-- Octets that are equal except that the first may be a digit in upper case. -/
def SameButCase (b c : UInt8) : Prop :=
  b = c ∨ lower b = c

theorem alike_self (bs : Bytes) : List.Forall₂ SameButCase bs bs :=
  List.forall₂_same.mpr fun _ _ => Or.inl rfl

/-- The codes of the digits of an octet. -/
def codes (b : UInt8) : Bytes :=
  [code (b.toNat / 16), code (b.toNat % 16)]

theorem toNat_code {n : Nat} (hn : n < 16) :
    (code n).toNat = if n < 10 then 48 + n else 87 + n := by
  unfold code
  rw [UInt8.toNat_ofNat']
  split <;> omega

theorem toNat_lower (b : UInt8) :
    (lower b).toNat = if 65 ≤ b.toNat ∧ b.toNat ≤ 70 then b.toNat + 32 else b.toNat := by
  unfold lower
  split
  · rw [UInt8.toNat_add]
    show (b.toNat + 32) % 256 = _
    omega
  · rfl

theorem value?_eq_some_iff {b : UInt8} {n : Nat} :
    value? b = some n <-> n < 16 ∧ lower b = code n := by
  have hlower := toNat_lower b
  constructor
  · intro h
    have hn : n < 16 ∧ (lower b).toNat = if n < 10 then 48 + n else 87 + n := by
      unfold value? at h
      grind
    exact ⟨hn.left, UInt8.toNat_inj.mp (hn.right.trans (toNat_code hn.left).symm)⟩
  · intro h
    have hcode := toNat_code h.left
    rw [← h.right, hlower] at hcode
    unfold value?
    grind

theorem toNat_lt_of_lower {b : UInt8} {n : Nat} (hn : n < 16) (h : lower b = code n) :
    b.toNat < 128 := by
  have hcode := toNat_code hn
  rw [← h, toNat_lower] at hcode
  grind

theorem lower_of_decodePairs {position : Nat} {digits bs : Bytes}
    (h : decodePairs position digits = .ok bs) : digits.map lower = bs.flatMap codes := by
  induction position, digits using decodePairs.induct generalizing bs with
  | case1 position high low rest hhigh => simp [decodePairs, hhigh] at h
  | case2 position high low rest a hhigh hlow => simp [decodePairs, hhigh, hlow] at h
  | case3 position high low rest a b hlow hhigh fault hrest ih =>
      simp [decodePairs, hhigh, hlow, hrest] at h
  | case4 position high low rest a b hlow hhigh others hrest ih =>
      simp only [decodePairs, hhigh, hlow, hrest] at h
      cases h
      rcases value?_eq_some_iff.mp hhigh with ⟨ha, hhigh⟩
      rcases value?_eq_some_iff.mp hlow with ⟨hb, hlow⟩
      have hoctet : codes (UInt8.ofNat (16 * a + b)) = [code a, code b] := by
        have hfirst : (16 * a + b) % 256 / 16 = a := by omega
        have hsecond : (16 * a + b) % 256 % 16 = b := by omega
        simp only [codes, UInt8.toNat_ofNat', hfirst, hsecond]
      simp only [List.map_cons, List.flatMap_cons, List.cons_append, List.nil_append, hoctet, hhigh,
        hlow, ih hrest]
  | case5 position digit => simp [decodePairs] at h
  | case6 position =>
      cases h
      rfl

theorem decodePairs_of_lower {position : Nat} {digits bs : Bytes}
    (h : digits.map lower = bs.flatMap codes) : decodePairs position digits = .ok bs := by
  induction bs generalizing position digits with
  | nil =>
      have hnone : digits = [] := by simpa using h
      rw [hnone, decodePairs]
  | cons b bs ih =>
      rcases List.map_eq_cons_iff.mp h with ⟨high, others, hdigits, hhigh, hothers⟩
      rcases List.map_eq_cons_iff.mp hothers with ⟨low, rest, hothers, hlow, hrest⟩
      have hb := b.toNat_lt
      have hhigh := value?_eq_some_iff.mpr ⟨by omega, hhigh⟩
      have hlow := value?_eq_some_iff.mpr ⟨by omega, hlow⟩
      have hjoin : UInt8.ofNat (16 * (b.toNat / 16) + b.toNat % 16) = b := by
        rw [Nat.div_add_mod, UInt8.ofNat_toNat]
      rw [hdigits, hothers]
      simp only [decodePairs, hhigh, hlow, ih hrest, hjoin]

theorem length_flatMap_codes (bs : Bytes) : (bs.flatMap codes).length = 2 * bs.length := by
  induction bs with
  | nil => rfl
  | cons b bs ih =>
      simp only [List.flatMap_cons, List.length_append, List.length_cons, ih, codes,
        List.length_nil]
      omega

/-- Two digits for each octet are read, in either case. -/
theorem decode_eq_ok_iff {digits bs : Bytes} :
    decode digits = .ok bs <-> digits.map lower = Utf8.encode (encode bs) := by
  rw [utf8_encode]
  constructor
  · intro h
    unfold decode at h
    split at h
    · cases h
    · exact lower_of_decodePairs h
  · intro h
    have hlength : digits.length = 2 * bs.length := by
      rw [← length_flatMap_codes, ← List.length_map, h]
      rfl
    unfold decode
    rw [if_neg (by omega)]
    exact decodePairs_of_lower h

/-- The digits of signatures are ASCII in either case. -/
theorem ascii_of_lower {digits bs : Bytes}
    (h : digits.map lower = Utf8.encode (encode bs)) {b : UInt8} (hb : b ∈ digits) :
    b.toNat < 128 := by
  rw [utf8_encode] at h
  have hmem : lower b ∈ bs.flatMap codes := by
    have hlower := List.mem_map_of_mem (f := lower) hb
    rw [h] at hlower
    exact hlower
  rcases List.mem_flatMap.mp hmem with ⟨o, _, hcode⟩
  have ho := o.toNat_lt
  simp only [codes, List.mem_cons, List.not_mem_nil, or_false] at hcode
  rcases hcode with hhigh | hlow
  · exact toNat_lt_of_lower (by omega) hhigh
  · exact toNat_lt_of_lower (by omega) hlow

theorem length_utf8_encode (bs : Bytes) : (Utf8.encode (encode bs)).length = 2 * bs.length := by
  rw [utf8_encode]
  exact length_flatMap_codes bs

end Hex

end LedgerClient
