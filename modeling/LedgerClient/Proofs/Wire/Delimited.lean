import LedgerClient.Proofs.Wire.Lossless

/-!
# Values that mark their own end

A reader is steady if more input never changes what it took.  All readers of the wire format
are.  A codec that loses nothing and has a steady reader needs no mark between its values:
what follows a value is left alone, and a value that was cut short is refused.
-/

namespace LedgerClient

namespace Reader

variable {α β : Type}

/-- More input is left alone. -/
def Steady (r : Reader α) : Prop :=
  forall (bs rest : Bytes) (a : α), r bs = .ok (a, rest) ->
    forall more, r (bs ++ more) = .ok (a, rest ++ more)

theorem steady_pure (a : α) : (pure a).Steady := by
  intro bs rest b h more
  cases h
  rfl

theorem steady_error (cause : DecodeError) : Steady (fun _ => .error cause : Reader α) := by
  intro bs rest a h
  cases h

theorem bind_eq_ok {r : Reader α} {f : α -> Reader β} {bs rest : Bytes} {b : β}
    (h : r.bind f bs = .ok (b, rest)) :
    exists a between, r bs = .ok (a, between) ∧ f a between = .ok (b, rest) := by
  unfold bind at h
  cases hr : r bs with
  | error cause =>
      rw [hr] at h
      cases h
  | ok taken =>
      rcases taken with ⟨a, between⟩
      rw [hr] at h
      exact ⟨a, between, rfl, h⟩

theorem map_eq_bind (f : α -> β) (r : Reader α) : r.map f = r.bind fun a => pure (f a) :=
  rfl

theorem Steady.bind {r : Reader α} {f : α -> Reader β} (hr : r.Steady)
    (hf : forall a, (f a).Steady) : (r.bind f).Steady := by
  intro bs rest b h more
  rcases bind_eq_ok h with ⟨a, between, hfirst, hsecond⟩
  rw [bind_eq (hr bs between a hfirst more)]
  exact hf a between rest b hsecond more

theorem Steady.map {r : Reader α} (hr : r.Steady) (f : α -> β) : (r.map f).Steady := by
  rw [map_eq_bind]
  exact hr.bind fun a => steady_pure (f a)

theorem take_eq_ok {n : Nat} {bs front rest : Bytes} (h : take n bs = .ok (front, rest)) :
    bs = front ++ rest ∧ front.length = n := by
  unfold take at h
  by_cases hshort : (bs.take n).length < n
  · simp only [if_pos hshort] at h
    cases h
  · simp only [if_neg hshort] at h
    cases h
    refine ⟨(List.take_append_drop n bs).symm, ?_⟩
    have hmost := List.length_take_le n bs
    omega

theorem steady_take (n : Nat) : (take n).Steady := by
  intro bs rest front h more
  rcases take_eq_ok h with ⟨hbs, hlength⟩
  rw [hbs, List.append_assoc]
  exact take_append hlength (rest ++ more)

theorem Steady.times {r : Reader α} (hr : r.Steady) (count : Nat) : (r.times count).Steady := by
  induction count with
  | zero =>
      intro bs rest as h more
      cases h
      rfl
  | succ count ih =>
      intro bs rest as h more
      unfold Reader.times at h
      cases hhead : r bs with
      | error cause =>
          rw [hhead] at h
          cases h
      | ok taken =>
          rcases taken with ⟨a, between⟩
          rw [hhead] at h
          cases htail : r.times count between with
          | error cause =>
              simp only [htail] at h
              cases h
          | ok others =>
              rcases others with ⟨others, rest'⟩
              simp only [htail] at h
              cases h
              have hfirst := hr bs between a hhead more
              have hothers := ih between rest others htail more
              simp only [Reader.times, hfirst, hothers]

end Reader

namespace Codec

variable {α β : Type}

/-!
## Numbers and strings
-/

theorem steady_word (width : Nat) (toNat : α -> Nat) (ofNat : Nat -> α) :
    (word width toNat ofNat).decode.Steady :=
  (Reader.steady_take width).map _

theorem steady_flag : flag.decode.Steady := by
  apply (steady_word 1 _ _).bind
  intro o
  by_cases hzero : o = 0
  · simp only [if_pos hzero]
    exact Reader.steady_pure false
  · by_cases hone : o = 1
    · simp only [if_neg hzero, if_pos hone]
      exact Reader.steady_pure true
    · simp only [if_neg hzero, if_neg hone]
      exact Reader.steady_error _

theorem steady_octets (n : Nat) : (octets n).decode.Steady := by
  apply (Reader.steady_take n).bind
  intro bs
  cases Octets.ofBytes? n bs with
  | some o => exact Reader.steady_pure o
  | none => exact Reader.steady_error _

theorem steady_blob : blob.decode.Steady :=
  (steady_word 8 id id).bind Reader.steady_take

theorem steady_text : text.decode.Steady := by
  apply (steady_word 8 id id).bind
  intro n bs rest s h more
  dsimp only at h ⊢
  cases htake : Reader.take n bs with
  | error cause =>
      rw [htake] at h
      cases h
  | ok taken =>
      rcases taken with ⟨front, between⟩
      rw [htake] at h
      rw [Reader.steady_take n bs between front htake more]
      cases hdecode : Utf8.decode front with
      | error fault =>
          simp only [hdecode] at h
          cases h
      | ok text =>
          simp only [hdecode] at h ⊢
          cases h
          rfl

theorem steady_signature : signature.decode.Steady := by
  apply steady_text.bind
  intro s
  cases Hex.decode (Utf8.encode s) with
  | error fault => exact Reader.steady_error _
  | ok bs =>
      dsimp only
      cases Octets.ofBytes? 64 bs with
      | some o => exact Reader.steady_pure o
      | none => exact Reader.steady_error _

/-!
## Values made of values
-/

theorem steady_option {c : Codec α} (hc : c.decode.Steady) : c.option.decode.Steady := by
  apply (steady_word 1 _ _).bind
  intro o
  by_cases hzero : o = 0
  · simp only [if_pos hzero]
    exact Reader.steady_pure none
  · by_cases hone : o = 1
    · simp only [if_neg hzero, if_pos hone]
      exact hc.map some
    · simp only [if_neg hzero, if_neg hone]
      exact Reader.steady_error _

theorem steady_list {c : Codec α} (hc : c.decode.Steady) : c.list.decode.Steady :=
  (steady_word 8 id id).bind hc.times

theorem steady_pair {c : Codec α} {d : Codec β} (hc : c.decode.Steady) (hd : d.decode.Steady) :
    (c.pair d).decode.Steady :=
  hc.bind fun a => hd.map fun b => (a, b)

theorem steady_iso {c : Codec α} (hc : c.decode.Steady) (toParts : β -> α) (ofParts : α -> β) :
    (c.iso toParts ofParts).decode.Steady :=
  hc.map ofParts

theorem steady_decodeSum {alternatives : List (Reader α)}
    (h : forall r, r ∈ alternatives -> r.Steady) : (decodeSum alternatives).Steady := by
  apply (steady_word 4 _ _).bind
  intro index
  cases hr : alternatives[index.toNat]? with
  | some r => exact h r (List.mem_of_getElem? hr)
  | none => exact Reader.steady_error _

/-!
## Codecs whose values mark their end
-/

/-- Values can follow each other without anything between them. -/
structure SelfDelimiting (c : Codec α) : Prop where
  /-- What follows a value is left as it is. -/
  decode_append : forall a, Countable (c.encode a) -> forall rest,
    c.decode (c.encode a ++ rest) = .ok (a, rest)
  /-- A value that was cut short is not taken for another one. -/
  decode_cut : forall a, Countable (c.encode a) -> forall front, front <+: c.encode a ->
    front ≠ c.encode a -> exists cause, c.decode front = .error cause

/-- Had the reader taken a value from the front alone, it would take it from the whole too and
leave the rest of it, but it leaves nothing there. -/
theorem selfDelimiting_of_lossless {c : Codec α} (hc : Lossless c) (hsteady : c.decode.Steady) :
    SelfDelimiting c where
  decode_append := hc
  decode_cut := by
    intro a hcount front hfront hshort
    rcases hfront with ⟨more, hmore⟩
    cases hread : c.decode front with
    | error cause => exact ⟨cause, rfl⟩
    | ok taken =>
        rcases taken with ⟨b, rest⟩
        have hwhole := hc a hcount []
        rw [List.append_nil, ← hmore, hsteady front rest b hread more] at hwhole
        have hnothing : rest ++ more = [] := by
          injection hwhole with hpair
          injection hpair
        have hall : front = c.encode a := by
          rw [← hmore, (List.append_eq_nil_iff.mp hnothing).right, List.append_nil]
        exact (hshort hall).elim

/-- Two values never share their octets. -/
theorem SelfDelimiting.encode_inj {c : Codec α} (hc : SelfDelimiting c) {a b : α}
    (hcount : Countable (c.encode a)) (h : c.encode a = c.encode b) : a = b := by
  have hfirst := hc.decode_append a hcount []
  have hsecond := hc.decode_append b (h ▸ hcount) []
  rw [h, hsecond] at hfirst
  injection hfirst with hpair
  injection hpair with hsame
  exact hsame.symm

end Codec

end LedgerClient
