import LedgerClient.Wire.Codec

/-!
# Codecs that lose nothing

A codec loses nothing if a value is read back from its octets whatever follows them.  The
combinators keep this, so it holds of all that is put together from them.  Lengths travel in
eight octets; the statements are about values whose octets such a length can count.
-/

namespace LedgerClient

namespace Reader

variable {α β : Type}

theorem bind_eq {r : Reader α} {bs rest : Bytes} {a : α} (h : r bs = .ok (a, rest))
    (f : α -> Reader β) : r.bind f bs = f a rest := by
  simp only [bind, h]

theorem map_eq {r : Reader α} {bs rest : Bytes} {a : α} (h : r bs = .ok (a, rest))
    (f : α -> β) : r.map f bs = .ok (f a, rest) := by
  simp only [map, h]

theorem take_append {n : Nat} {front : Bytes} (hn : front.length = n) (rest : Bytes) :
    take n (front ++ rest) = .ok (front, rest) := by
  subst hn
  simp [take]

theorem times_append {r : Reader α} {encode : α -> Bytes} {as : List α}
    (h : forall a, a ∈ as -> forall rest, r (encode a ++ rest) = .ok (a, rest)) (rest : Bytes) :
    r.times as.length (as.flatMap encode ++ rest) = .ok (as, rest) := by
  induction as with
  | nil => rfl
  | cons a as ih =>
      have hhead := h a List.mem_cons_self (as.flatMap encode ++ rest)
      have htail := ih (fun b hb => h b (List.mem_cons_of_mem a hb))
      simp only [List.flatMap_cons, List.append_assoc, List.length_cons, times, hhead, htail]

end Reader

namespace Hex

/-- The code of a digit. -/
def code (n : Nat) : UInt8 :=
  UInt8.ofNat (if n < 10 then 48 + n else 87 + n)

theorem utf8EncodeChar_digit :
    forall n, n < 16 -> String.utf8EncodeChar (digit n) = [code n] := by
  decide

theorem value?_code : forall n, n < 16 -> value? (code n) = some n := by
  decide

theorem utf8_encode (bs : Bytes) :
    Utf8.encode (encode bs) = bs.flatMap fun b => [code (b.toNat / 16), code (b.toNat % 16)] := by
  have hdigits : forall b : UInt8,
      [digit (b.toNat / 16), digit (b.toNat % 16)].flatMap String.utf8EncodeChar =
        [code (b.toNat / 16), code (b.toNat % 16)] := by
    intro b
    have hb := b.toNat_lt
    simp only [List.flatMap_cons, List.flatMap_nil, List.append_nil]
    rw [utf8EncodeChar_digit _ (by omega), utf8EncodeChar_digit _ (by omega)]
    rfl
  simp only [Utf8.encode, encode, String.toByteArray_ofList, List.utf8Encode,
    List.flatMap_assoc, hdigits]
  simp

theorem decodePairs_codes (position : Nat) (bs : Bytes) :
    decodePairs position (bs.flatMap fun b => [code (b.toNat / 16), code (b.toNat % 16)]) =
      .ok bs := by
  induction bs generalizing position with
  | nil => rfl
  | cons b bs ih =>
      have hb := b.toNat_lt
      have hhigh := value?_code (b.toNat / 16) (by omega)
      have hlow := value?_code (b.toNat % 16) (by omega)
      have hjoin : UInt8.ofNat (16 * (b.toNat / 16) + b.toNat % 16) = b := by
        rw [Nat.div_add_mod, UInt8.ofNat_toNat]
      simp only [List.flatMap_cons, List.cons_append, List.nil_append, decodePairs, hhigh, hlow, ih,
        hjoin]

theorem decode_utf8_encode (bs : Bytes) : decode (Utf8.encode (encode bs)) = .ok bs := by
  have heven : (bs.flatMap fun b => [code (b.toNat / 16), code (b.toNat % 16)]).length % 2 = 0 := by
    induction bs with
    | nil => rfl
    | cons b bs ih =>
        simp only [List.flatMap_cons, List.length_append, List.length_cons, List.length_nil]
        omega
  rw [utf8_encode, decode, if_neg (by omega), decodePairs_codes]

end Hex

namespace Codec

variable {α β : Type}

/-- Octets that a length can count. -/
@[irreducible]
def Countable (bs : Bytes) : Prop :=
  bs.length < Bytes.capacity 8

def Lossless (c : Codec α) : Prop :=
  forall a, Countable (c.encode a) -> forall rest, c.decode (c.encode a ++ rest) = .ok (a, rest)

theorem countable_iff {bs : Bytes} : Countable bs <-> bs.length < Bytes.capacity 8 := by
  unfold Countable
  rfl

theorem Countable.of_length_le {bs more : Bytes} (h : Countable more)
    (hle : bs.length ≤ more.length) : Countable bs :=
  countable_iff.mpr (Nat.lt_of_le_of_lt hle (countable_iff.mp h))

theorem Countable.left {front back : Bytes} (h : Countable (front ++ back)) : Countable front :=
  h.of_length_le (by simp)

theorem Countable.right {front back : Bytes} (h : Countable (front ++ back)) : Countable back :=
  h.of_length_le (by simp)

/-!
## Numbers and strings
-/

theorem word_decode {width : Nat} {toNat : α -> Nat} {ofNat : Nat -> α} {a : α}
    (hfits : toNat a < Bytes.capacity width) (rest : Bytes) :
    (word width toNat ofNat).decode ((word width toNat ofNat).encode a ++ rest) =
      .ok (ofNat (toNat a), rest) := by
  have htake := Reader.take_append (Bytes.length_littleEndian width (toNat a)) rest
  have hread := Reader.map_eq htake (fun bs => ofNat (Bytes.ofLittleEndian bs))
  rw [Bytes.ofLittleEndian_littleEndian width _ hfits] at hread
  exact hread

theorem countable_word {width : Nat} (hwidth : width < 17) (toNat : α -> Nat)
    (ofNat : Nat -> α) (a : α) : Countable ((word width toNat ofNat).encode a) := by
  rw [countable_iff, word, Bytes.length_littleEndian]
  exact Nat.lt_trans hwidth (by decide)

theorem lossless_word {width : Nat} {toNat : α -> Nat} {ofNat : Nat -> α}
    (hfits : forall a, toNat a < Bytes.capacity width) (hinverse : forall a, ofNat (toNat a) = a) :
    Lossless (word width toNat ofNat) := by
  intro a _ rest
  rw [word_decode (hfits a), hinverse]

theorem lossless_u16 : Lossless u16 :=
  lossless_word (fun n => n.toNat_lt) (fun _ => UInt16.ofNat_toNat)

theorem lossless_u32 : Lossless u32 :=
  lossless_word (fun n => n.toNat_lt) (fun _ => UInt32.ofNat_toNat)

theorem lossless_u64 : Lossless u64 :=
  lossless_word (fun n => n.toNat_lt) (fun _ => UInt64.ofNat_toNat)

theorem lossless_u128 : Lossless u128 :=
  lossless_word (fun n => n.isLt) (fun n => BitVec.ofNat_toNat 128 n)

theorem lossless_octet : Lossless octet :=
  lossless_word (fun n => n.toNat_lt) (fun _ => UInt8.ofNat_toNat)

theorem octet_encode (b : UInt8) : octet.encode b = [b] := by
  show [UInt8.ofNat b.toNat] = [b]
  rw [UInt8.ofNat_toNat]

theorem octet_decode (b : UInt8) (rest : Bytes) : octet.decode (b :: rest) = .ok (b, rest) := by
  have hread := lossless_octet b (countable_word (by decide) _ _ b) rest
  rw [octet_encode] at hread
  exact hread

theorem length_decode {n : Nat} (hn : n < Bytes.capacity 8) (rest : Bytes) :
    length.decode (length.encode n ++ rest) = .ok (n, rest) :=
  word_decode hn rest

theorem lossless_flag : Lossless flag := by
  intro b _ rest
  cases b with
  | false =>
      simp only [flag, Bool.false_eq_true, if_false, List.cons_append, List.nil_append]
      rw [Reader.bind_eq (octet_decode 0 rest)]
      rfl
  | true =>
      simp only [flag, if_true, List.cons_append, List.nil_append]
      rw [Reader.bind_eq (octet_decode 1 rest)]
      rfl

theorem lossless_octets (n : Nat) : Lossless (octets n) := by
  intro o _ rest
  have htake := Reader.take_append o.length_eq rest
  simp only [octets]
  rw [Reader.bind_eq htake, Octets.ofBytes?_toBytes]

theorem lossless_blob : Lossless blob := by
  intro bs hcount rest
  simp only [blob] at *
  have hlength := length_decode (countable_iff.mp hcount.right) (bs ++ rest)
  rw [List.append_assoc, Reader.bind_eq hlength, Reader.take_append rfl]

theorem lossless_text : Lossless text := by
  intro s hcount rest
  simp only [text, blob] at *
  have hlength := length_decode (countable_iff.mp hcount.right) (Utf8.encode s ++ rest)
  rw [List.append_assoc, Reader.bind_eq hlength, Reader.take_append rfl]
  simp only [Utf8.decode_encode]

theorem lossless_signature : Lossless signature := by
  intro o hcount rest
  have htext := lossless_text (Hex.encode o.toBytes) hcount rest
  simp only [signature]
  rw [Reader.bind_eq htext]
  simp only [Hex.decode_utf8_encode, Octets.ofBytes?_toBytes]

/-!
## Values made of values
-/

theorem lossless_option {c : Codec α} (hc : Lossless c) : Lossless c.option := by
  intro a hcount rest
  cases a with
  | none =>
      simp only [option, List.cons_append, List.nil_append]
      rw [Reader.bind_eq (octet_decode 0 rest)]
      rfl
  | some a =>
      simp only [option, List.cons_append] at *
      have hvalue := hc a (hcount.of_length_le (by simp)) rest
      rw [Reader.bind_eq (octet_decode 1 (c.encode a ++ rest))]
      exact Reader.map_eq hvalue some

/-- There are at most as many elements as octets, since every element has an octet. -/
theorem length_le_flatMap {encode : α -> Bytes} (hsome : forall a, encode a ≠ []) (as : List α) :
    as.length ≤ (as.flatMap encode).length := by
  induction as with
  | nil => exact Nat.le_refl 0
  | cons a as ih =>
      have hpos := List.length_pos_iff.mpr (hsome a)
      simp only [List.flatMap_cons, List.length_append, List.length_cons]
      omega

theorem length_le_flatMap_of_mem {encode : α -> Bytes} {as : List α} {a : α} (ha : a ∈ as) :
    (encode a).length ≤ (as.flatMap encode).length := by
  rcases List.append_of_mem ha with ⟨before, after, has⟩
  rw [has, List.flatMap_append, List.flatMap_cons, List.length_append, List.length_append]
  omega

theorem lossless_list {c : Codec α} (hc : Lossless c) (hsome : forall a, c.encode a ≠ []) :
    Lossless c.list := by
  intro as hcount rest
  simp only [list] at *
  have hall := hcount.right
  have hfew : as.length < Bytes.capacity 8 :=
    Nat.lt_of_le_of_lt (length_le_flatMap hsome as) (countable_iff.mp hall)
  have hlength := length_decode hfew (as.flatMap c.encode ++ rest)
  have heach : forall a, a ∈ as -> forall rest, c.decode (c.encode a ++ rest) = .ok (a, rest) :=
    fun a ha => hc a (hall.of_length_le (length_le_flatMap_of_mem ha))
  rw [List.append_assoc, Reader.bind_eq hlength, Reader.times_append heach]

theorem lossless_pair {c : Codec α} {d : Codec β} (hc : Lossless c) (hd : Lossless d) :
    Lossless (c.pair d) := by
  intro p hcount rest
  simp only [pair] at *
  have hfirst := hc p.1 hcount.left (d.encode p.2 ++ rest)
  have hsecond := hd p.2 hcount.right rest
  rw [List.append_assoc, Reader.bind_eq hfirst, Reader.map_eq hsecond]

theorem lossless_iso {c : Codec α} {toParts : β -> α} {ofParts : α -> β} (hc : Lossless c)
    (hinverse : forall b, ofParts (toParts b) = b) : Lossless (c.iso toParts ofParts) := by
  intro b hcount rest
  have hread := Reader.map_eq (hc (toParts b) hcount rest) ofParts
  rw [hinverse] at hread
  exact hread

/-- The number of an alternative decides which reader goes on. -/
theorem decodeSum_encodeAlternative {alternatives : List (Reader α)} {index : UInt32}
    {r : Reader α} (hr : alternatives[index.toNat]? = some r) (parts rest : Bytes) :
    decodeSum alternatives (encodeAlternative index parts ++ rest) = r (parts ++ rest) := by
  have hindex : u32.decode (u32.encode index ++ (parts ++ rest)) = .ok (index, parts ++ rest) :=
    lossless_u32 index (countable_word (by decide) _ _ index) (parts ++ rest)
  rw [encodeAlternative, List.append_assoc]
  rw [decodeSum, Reader.bind_eq hindex, hr]

/-- What was written is read again. -/
theorem read_encode {c : Codec α} (hc : Lossless c) {a : α} (hcount : Countable (c.encode a)) :
    c.read (c.encode a) = .ok a := by
  have hread := hc a hcount []
  rw [List.append_nil] at hread
  simp only [read, Reader.run, hread]

end Codec

end LedgerClient
