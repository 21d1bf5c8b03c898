import LedgerClient.Proofs.Wire.Delimited
import LedgerClient.Proofs.Wire.Digits

/-!
# Spellings

The digits of a signature are read in either case, everything else in just one way.  A
spelling says which octets stand for a value.  A codec is canonical for a spelling if all that
it reads is spelled that way, and if it reads every spelling of a value that it reads at all.
The combinators keep this.  Nothing is assumed about the length of the input here: a length
that was read fits the octets that it was read from.
-/

namespace LedgerClient

namespace Reader

variable {α β : Type}

/-- There is an input from which the value is read. -/
def Yields (r : Reader α) (a : α) : Prop :=
  exists bs rest, r bs = .ok (a, rest)

theorem map_eq_ok {f : α -> β} {r : Reader α} {bs rest : Bytes} {b : β}
    (h : r.map f bs = .ok (b, rest)) : exists a, r bs = .ok (a, rest) ∧ b = f a := by
  rw [map_eq_bind] at h
  rcases bind_eq_ok h with ⟨a, between, hread, hpure⟩
  cases hpure
  exact ⟨a, hread, rfl⟩

end Reader

/-!
## Spellings
-/

/-- Which octets stand for a value. -/
abbrev Spelling (α : Type) := α -> Bytes -> Prop

namespace Spelling

variable {α β : Type}

/-- Nothing but what the codec writes. -/
def exactly (c : Codec α) : Spelling α :=
  fun a bs => bs = c.encode a

/-- A signature is spelled by a text of its digits, each of them in either case. -/
def signature : Spelling (Octets 64) :=
  fun o bs => exists digits, digits.map Hex.lower = Utf8.encode (Hex.encode o.toBytes) ∧
    bs = Codec.blob.encode digits

def pair (s : Spelling α) (t : Spelling β) : Spelling (α × β) :=
  fun p bs => exists front back, s p.1 front ∧ t p.2 back ∧ bs = front ++ back

def list (s : Spelling α) : Spelling (List α) :=
  fun as bs => exists parts, List.Forall₂ s as parts ∧
    bs = Codec.length.encode as.length ++ parts.flatten

/-- The spelling of a type whose values stand for those of another one. -/
def through (s : Spelling α) (toParts : β -> α) : Spelling β :=
  fun b => s (toParts b)

end Spelling

namespace Codec

variable {α β : Type}

/-- All that is read is spelled right, and all spellings of what is read are read again, among
them the one that is written. -/
structure Canonical (c : Codec α) (s : Spelling α) : Prop where
  written : forall a, s a (c.encode a)
  /-- A spelling is as long as what is written and differs from it in the case of digits at most. -/
  alike : forall a bs, s a bs -> List.Forall₂ Hex.SameButCase bs (c.encode a)
  read : forall bs a rest, c.decode bs = .ok (a, rest) -> exists front, bs = front ++ rest ∧ s a front
  reread : forall a, c.decode.Yields a -> forall bs, s a bs -> forall rest,
    c.decode (bs ++ rest) = .ok (a, rest)

/-- What was read is written in such a way that it is read again. -/
theorem Canonical.decode_encode {c : Codec α} {s : Spelling α} (hc : Canonical c s)
    {bs rest : Bytes} {a : α} (h : c.decode bs = .ok (a, rest)) (more : Bytes) :
    c.decode (c.encode a ++ more) = .ok (a, more) :=
  hc.reread a ⟨bs, rest, h⟩ _ (hc.written a) more

theorem Canonical.congr {c : Codec α} {s t : Spelling α} (hc : Canonical c s)
    (hsame : forall a bs, t a bs <-> s a bs) : Canonical c t where
  written := fun a => (hsame a _).mpr (hc.written a)
  alike := fun a bs ht => hc.alike a bs ((hsame a bs).mp ht)
  read := by
    intro bs a rest h
    rcases hc.read bs a rest h with ⟨front, hbs, hfront⟩
    exact ⟨front, hbs, (hsame a front).mpr hfront⟩
  reread := fun a ha bs ht rest => hc.reread a ha bs ((hsame a bs).mp ht) rest

/-- A value with one spelling is read from nothing else. -/
theorem canonical_exactly {c : Codec α}
    (hread : forall bs a rest, c.decode bs = .ok (a, rest) ->
      bs = c.encode a ++ rest ∧ forall more, c.decode (c.encode a ++ more) = .ok (a, more)) :
    Canonical c (.exactly c) where
  written := fun _ => rfl
  alike := by
    intro a bs hbs
    rw [hbs]
    exact Hex.alike_self _
  read := fun bs a rest h => ⟨c.encode a, (hread bs a rest h).left, rfl⟩
  reread := by
    intro a ha bs hbs rest
    rcases ha with ⟨input, behind, hinput⟩
    rw [hbs]
    exact (hread input a behind hinput).right rest

/-!
## Numbers and strings
-/

theorem canonical_word {width : Nat} {toNat : α -> Nat} {ofNat : Nat -> α}
    (hinverse : forall n, n < Bytes.capacity width -> toNat (ofNat n) = n) :
    Canonical (word width toNat ofNat) (.exactly (word width toNat ofNat)) := by
  apply canonical_exactly
  intro bs a rest h
  rcases Reader.map_eq_ok h with ⟨front, htake, ha⟩
  rcases Reader.take_eq_ok htake with ⟨hbs, hlength⟩
  have hfits : Bytes.ofLittleEndian front < Bytes.capacity width := by
    rw [← hlength]
    exact Bytes.ofLittleEndian_lt front
  have hnumber : toNat a = Bytes.ofLittleEndian front := by
    rw [ha, hinverse _ hfits]
  have hencode : (word width toNat ofNat).encode a = front := by
    show Bytes.littleEndian width (toNat a) = front
    rw [hnumber, ← hlength, Bytes.littleEndian_ofLittleEndian]
  refine ⟨by rw [hencode, hbs], ?_⟩
  intro more
  rw [word_decode (by rw [hnumber]; exact hfits) more, hnumber, ha]

theorem canonical_u32 : Canonical u32 (.exactly u32) :=
  canonical_word fun _ hn => UInt32.toNat_ofNat_of_lt' hn

theorem canonical_u64 : Canonical u64 (.exactly u64) :=
  canonical_word fun _ hn => UInt64.toNat_ofNat_of_lt' hn

theorem canonical_u128 : Canonical u128 (.exactly u128) :=
  canonical_word fun _ hn => Nat.mod_eq_of_lt hn

theorem canonical_octet : Canonical octet (.exactly octet) :=
  canonical_word fun _ hn => UInt8.toNat_ofNat_of_lt' hn

theorem canonical_length : Canonical length (.exactly length) :=
  canonical_word fun _ _ => rfl

/-- A length that was read fits the octets that lengths are written in. -/
theorem length_eq_ok {bs rest : Bytes} {n : Nat} (h : length.decode bs = .ok (n, rest)) :
    bs = length.encode n ++ rest ∧ n < Bytes.capacity 8 := by
  rcases canonical_length.read bs n rest h with ⟨front, hbs, hfront⟩
  rcases Reader.map_eq_ok h with ⟨octets, htake, hn⟩
  rw [hbs, hfront, hn]
  refine ⟨rfl, ?_⟩
  rw [← (Reader.take_eq_ok htake).right]
  exact Bytes.ofLittleEndian_lt octets

theorem octet_eq_ok {bs rest : Bytes} {o : UInt8} (h : octet.decode bs = .ok (o, rest)) :
    bs = o :: rest := by
  rcases canonical_octet.read bs o rest h with ⟨front, hbs, hfront⟩
  rw [hbs, hfront, octet_encode]
  rfl

theorem canonical_flag : Canonical flag (.exactly flag) := by
  apply canonical_exactly
  intro bs b rest h
  have hagain : forall more, flag.decode (flag.encode b ++ more) = .ok (b, more) := by
    intro more
    apply lossless_flag b
    rw [countable_iff]
    exact Nat.lt_trans (Nat.lt_succ_self 1) (by decide)
  refine ⟨?_, hagain⟩
  rcases Reader.bind_eq_ok h with ⟨o, between, hoctet, hflag⟩
  rw [octet_eq_ok hoctet]
  by_cases hzero : o = 0
  · rw [if_pos hzero] at hflag
    cases hflag
    rw [hzero]
    rfl
  · by_cases hone : o = 1
    · rw [if_neg hzero, if_pos hone] at hflag
      cases hflag
      rw [hone]
      rfl
    · rw [if_neg hzero, if_neg hone] at hflag
      cases hflag

theorem canonical_octets (n : Nat) : Canonical (octets n) (.exactly (octets n)) := by
  apply canonical_exactly
  intro bs o rest h
  have hagain : forall more, (octets n).decode ((octets n).encode o ++ more) = .ok (o, more) := by
    intro more
    simp only [octets]
    rw [Reader.bind_eq (Reader.take_append o.length_eq more), Octets.ofBytes?_toBytes]
  refine ⟨?_, hagain⟩
  rcases Reader.bind_eq_ok h with ⟨front, between, htake, hoctets⟩
  rcases Reader.take_eq_ok htake with ⟨hbs, hlength⟩
  cases hstring : Octets.ofBytes? n front with
  | none =>
      rw [hstring] at hoctets
      cases hoctets
  | some string =>
      rw [hstring] at hoctets
      cases hoctets
      rw [hbs, Octets.ofBytes?_eq_some_iff.mp hstring]
      rfl

theorem blob_decode {bs : Bytes} (hfits : bs.length < Bytes.capacity 8) (rest : Bytes) :
    blob.decode (blob.encode bs ++ rest) = .ok (bs, rest) := by
  have hlength := length_decode hfits (bs ++ rest)
  simp only [blob]
  rw [List.append_assoc, Reader.bind_eq hlength, Reader.take_append rfl]

theorem canonical_blob : Canonical blob (.exactly blob) := by
  apply canonical_exactly
  intro bs content rest h
  rcases Reader.bind_eq_ok h with ⟨n, between, hlength, htake⟩
  rcases length_eq_ok hlength with ⟨hbs, hfits⟩
  rcases Reader.take_eq_ok htake with ⟨hbetween, hn⟩
  rw [← hn] at hfits
  refine ⟨?_, blob_decode hfits⟩
  rw [hbs, hbetween, ← hn, ← List.append_assoc]
  rfl

theorem text_decode {bs : Bytes} (hfits : bs.length < Bytes.capacity 8) {s : String}
    (hs : Utf8.decode bs = .ok s) (rest : Bytes) :
    text.decode (blob.encode bs ++ rest) = .ok (s, rest) := by
  have hlength := length_decode hfits (bs ++ rest)
  simp only [text, blob]
  rw [List.append_assoc, Reader.bind_eq hlength, Reader.take_append rfl]
  simp only [hs]

theorem text_eq_ok {bs rest : Bytes} {s : String} (h : text.decode bs = .ok (s, rest)) :
    bs = text.encode s ++ rest ∧ (Utf8.encode s).length < Bytes.capacity 8 := by
  rcases Reader.bind_eq_ok h with ⟨n, between, hlength, hread⟩
  rcases length_eq_ok hlength with ⟨hbs, hfits⟩
  cases htake : Reader.take n between with
  | error cause =>
      simp only [htake] at hread
      cases hread
  | ok taken =>
      rcases taken with ⟨front, last⟩
      rcases Reader.take_eq_ok htake with ⟨hbetween, hn⟩
      cases hdecode : Utf8.decode front with
      | error fault =>
          simp only [htake, hdecode] at hread
          cases hread
      | ok content =>
          simp only [htake, hdecode] at hread
          cases hread
          have hencode := Utf8.encode_of_decode hdecode
          simp only [text, blob, hencode]
          rw [hn, hbs, hbetween, List.append_assoc]
          exact ⟨rfl, hfits⟩

theorem canonical_text : Canonical text (.exactly text) := by
  apply canonical_exactly
  intro bs s rest h
  rcases text_eq_ok h with ⟨hbs, hfits⟩
  exact ⟨hbs, text_decode hfits (Utf8.decode_encode s)⟩

theorem canonical_signature : Canonical signature .signature where
  written := by
    intro o
    exact ⟨_, Hex.decode_eq_ok_iff.mp (Hex.decode_utf8_encode o.toBytes), rfl⟩
  alike := by
    intro o bs hbs
    rcases hbs with ⟨digits, hdigits, hbs⟩
    have hlength := congrArg List.length hdigits
    rw [List.length_map] at hlength
    have hsame : List.Forall₂ Hex.SameButCase digits (Utf8.encode (Hex.encode o.toBytes)) := by
      rw [← hdigits, List.forall₂_map_right_iff]
      exact List.forall₂_same.mpr fun _ _ => Or.inr rfl
    rw [hbs]
    simp only [signature, text, blob, hlength]
    exact List.rel_append (Hex.alike_self _) hsame
  read := by
    intro bs o rest h
    rcases Reader.bind_eq_ok h with ⟨s, between, htext, hread⟩
    cases hdigits : Hex.decode (Utf8.encode s) with
    | error fault =>
        simp only [hdigits] at hread
        cases hread
    | ok octets =>
        cases hstring : Octets.ofBytes? 64 octets with
        | none =>
            simp only [hdigits, hstring] at hread
            cases hread
        | some string =>
            simp only [hdigits, hstring] at hread
            cases hread
            rw [Octets.ofBytes?_eq_some_iff.mp hstring] at hdigits
            exact ⟨_, (text_eq_ok htext).left, Utf8.encode s, Hex.decode_eq_ok_iff.mp hdigits, rfl⟩
  reread := by
    intro o _ bs hbs rest
    rcases hbs with ⟨digits, hdigits, hbs⟩
    have hlength : digits.length = 128 := by
      have hsame := congrArg List.length hdigits
      rw [List.length_map, Hex.length_utf8_encode, o.length_eq] at hsame
      exact hsame
    have hfits : digits.length < Bytes.capacity 8 := by
      rw [hlength]
      decide
    have hascii : forall b, b ∈ digits -> b.toNat < 128 := 
      fun _ hb => Hex.ascii_of_lower hdigits hb
    rcases Utf8.exists_decode_of_ascii hascii with ⟨s, hs⟩
    have htext := text_decode hfits hs rest
    rw [hbs]
    simp only [signature]
    rw [Reader.bind_eq htext]
    simp only [Utf8.encode_of_decode hs, Hex.decode_eq_ok_iff.mpr hdigits,
      Octets.ofBytes?_toBytes]

end Codec

end LedgerClient
