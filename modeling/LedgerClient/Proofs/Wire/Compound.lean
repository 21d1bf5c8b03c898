import LedgerClient.Proofs.Wire.Spelling

/-!
# Spellings of compound values

The combinators of codecs keep canonical what is made of canonical parts.  A value all of
whose parts have one spelling has one spelling itself.
-/

namespace LedgerClient

namespace Reader

theorem times_eq_ok {α : Type} {r : Reader α} {count : Nat} {bs rest : Bytes} {as : List α}
    (h : r.times count bs = .ok (as, rest)) :
    as.length = count ∧ forall a, a ∈ as -> r.Yields a := by
  induction count generalizing bs as with
  | zero =>
      cases h
      exact ⟨rfl, fun _ ha => absurd ha List.not_mem_nil⟩
  | succ count ih =>
      unfold times at h
      cases hhead : r bs with
      | error cause =>
          rw [hhead] at h
          cases h
      | ok taken =>
          rcases taken with ⟨a, between⟩
          rw [hhead] at h
          cases htail : r.times count between with
          | error cause =>
              simp only [htail] at h
              cases h
          | ok others =>
              rcases others with ⟨others, last⟩
              simp only [htail] at h
              cases h
              rcases ih htail with ⟨hlength, hall⟩
              rw [List.length_cons, hlength, List.forall_mem_cons]
              exact ⟨rfl, ⟨bs, between, hhead⟩, hall⟩

end Reader

namespace Codec

variable {α β : Type}

/-!
## Values made of values
-/

theorem option_decode_none (c : Codec α) (rest : Bytes) :
    c.option.decode (0 :: rest) = .ok (none, rest) := by
  simp only [option]
  rw [Reader.bind_eq (octet_decode 0 rest)]
  rfl

theorem option_decode_some {c : Codec α} {bs rest : Bytes} {a : α}
    (h : c.decode bs = .ok (a, rest)) : c.option.decode (1 :: bs) = .ok (some a, rest) := by
  simp only [option]
  rw [Reader.bind_eq (octet_decode 1 bs)]
  exact Reader.map_eq h some

theorem canonical_option {c : Codec α} (hc : Canonical c (.exactly c)) :
    Canonical c.option (.exactly c.option) := by
  apply canonical_exactly
  intro bs a rest h
  rcases Reader.bind_eq_ok h with ⟨o, between, hoctet, hvalue⟩
  rw [octet_eq_ok hoctet]
  by_cases hzero : o = 0
  · rw [if_pos hzero] at hvalue
    cases hvalue
    rw [hzero]
    exact ⟨rfl, option_decode_none c⟩
  · by_cases hone : o = 1
    · rw [if_neg hzero, if_pos hone] at hvalue
      rcases Reader.map_eq_ok hvalue with ⟨inner, hinner, ha⟩
      rcases hc.read between inner rest hinner with ⟨front, hbetween, hfront⟩
      rw [ha, hone, hbetween, hfront]
      exact ⟨rfl, fun more => option_decode_some (hc.decode_encode hinner more)⟩
    · rw [if_neg hzero, if_neg hone] at hvalue
      cases hvalue

theorem canonical_pair {c : Codec α} {d : Codec β} {s : Spelling α} {t : Spelling β}
    (hc : Canonical c s) (hd : Canonical d t) : Canonical (c.pair d) (s.pair t) where
  written := fun p => ⟨_, _, hc.written p.1, hd.written p.2, rfl⟩
  alike := by
    intro p bs hbs
    rcases hbs with ⟨front, back, hfront, hback, hbs⟩
    rw [hbs]
    exact List.rel_append (hc.alike _ _ hfront) (hd.alike _ _ hback)
  read := by
    intro bs p rest h
    rcases Reader.bind_eq_ok h with ⟨a, between, ha, hrest⟩
    rcases Reader.map_eq_ok hrest with ⟨b, hb, hp⟩
    rcases hc.read bs a between ha with ⟨front, hbs, hfront⟩
    rcases hd.read between b rest hb with ⟨back, hbetween, hback⟩
    rw [hbs, hbetween, hp, ← List.append_assoc]
    exact ⟨_, rfl, front, back, hfront, hback, rfl⟩
  reread := by
    intro p hp bs hbs rest
    rcases hp with ⟨input, behind, h⟩
    rcases Reader.bind_eq_ok h with ⟨a, between, ha, hrest⟩
    rcases Reader.map_eq_ok hrest with ⟨b, hb, hp⟩
    rcases hbs with ⟨front, back, hfront, hback, hbs⟩
    rw [hp] at hfront hback
    have hfirst := hc.reread a ⟨_, _, ha⟩ front hfront (back ++ rest)
    have hsecond := hd.reread b ⟨_, _, hb⟩ back hback rest
    rw [hbs, hp, List.append_assoc]
    simp only [pair]
    rw [Reader.bind_eq hfirst, Reader.map_eq hsecond]

theorem canonical_iso {c : Codec α} {s : Spelling α} {toParts : β -> α} {ofParts : α -> β}
    (hc : Canonical c s) (hinverse : forall a, toParts (ofParts a) = a) :
    Canonical (c.iso toParts ofParts) (s.through toParts) where
  written := fun b => hc.written (toParts b)
  alike := fun b bs hbs => hc.alike (toParts b) bs hbs
  read := by
    intro bs b rest h
    rcases Reader.map_eq_ok h with ⟨a, ha, hb⟩
    rcases hc.read bs a rest ha with ⟨front, hbs, hfront⟩
    refine ⟨front, hbs, ?_⟩
    show s (toParts b) front
    rw [hb, hinverse]
    exact hfront
  reread := by
    intro b hb bs hbs rest
    rcases hb with ⟨input, behind, h⟩
    rcases Reader.map_eq_ok h with ⟨a, ha, hb⟩
    have hparts : s a bs := by
      have hspelled : s (toParts b) bs := hbs
      rw [hb, hinverse] at hspelled
      exact hspelled
    rw [hb]
    exact Reader.map_eq (hc.reread a ⟨_, _, ha⟩ bs hparts rest) ofParts

theorem times_read {c : Codec α} {s : Spelling α} (hc : Canonical c s) {count : Nat}
    {bs rest : Bytes} {as : List α} (h : c.decode.times count bs = .ok (as, rest)) :
    exists parts, List.Forall₂ s as parts ∧ bs = parts.flatten ++ rest := by
  induction count generalizing bs as with
  | zero =>
      cases h
      exact ⟨[], .nil, rfl⟩
  | succ count ih =>
      unfold Reader.times at h
      cases hhead : c.decode bs with
      | error cause =>
          rw [hhead] at h
          cases h
      | ok taken =>
          rcases taken with ⟨a, between⟩
          rw [hhead] at h
          cases htail : c.decode.times count between with
          | error cause =>
              simp only [htail] at h
              cases h
          | ok others =>
              rcases others with ⟨others, last⟩
              simp only [htail] at h
              cases h
              rcases hc.read bs a between hhead with ⟨front, hbs, hfront⟩
              rcases ih htail with ⟨parts, hparts, hbetween⟩
              refine ⟨front :: parts, .cons hfront hparts, ?_⟩
              rw [hbs, hbetween, List.flatten_cons, List.append_assoc]

theorem times_reread {c : Codec α} {s : Spelling α} (hc : Canonical c s) {as : List α}
    {parts : List Bytes} (hparts : List.Forall₂ s as parts)
    (hall : forall a, a ∈ as -> c.decode.Yields a) (rest : Bytes) :
    c.decode.times as.length (parts.flatten ++ rest) = .ok (as, rest) := by
  induction hparts with
  | nil => rfl
  | @cons a part as parts hpart _ ih =>
      rw [List.forall_mem_cons] at hall
      have hhead := hc.reread a hall.left part hpart (parts.flatten ++ rest)
      have htail := ih hall.right
      rw [List.flatten_cons, List.append_assoc]
      simp only [List.length_cons, Reader.times, hhead, htail]

theorem canonical_list {c : Codec α} {s : Spelling α} (hc : Canonical c s) :
    Canonical c.list s.list where
  written := by
    intro as
    refine ⟨as.map c.encode, ?_, by rw [← List.flatMap_def]; rfl⟩
    induction as with
    | nil => exact .nil
    | cons a as ih => exact .cons (hc.written a) ih
  alike := by
    intro as bs hbs
    rcases hbs with ⟨parts, hparts, hbs⟩
    have heach : List.Forall₂ Hex.SameButCase parts.flatten (as.flatMap c.encode) := by
      clear hbs
      induction hparts with
      | nil => exact .nil
      | cons hpart _ ih =>
          rw [List.flatten_cons, List.flatMap_cons]
          exact List.rel_append (hc.alike _ _ hpart) ih
    rw [hbs]
    exact List.rel_append (Hex.alike_self _) heach
  read := by
    intro bs as rest h
    rcases Reader.bind_eq_ok h with ⟨n, between, hlength, htimes⟩
    rcases times_read hc htimes with ⟨parts, hparts, hbetween⟩
    rw [(length_eq_ok hlength).left, hbetween, ← (Reader.times_eq_ok htimes).left,
      ← List.append_assoc]
    exact ⟨_, rfl, parts, hparts, rfl⟩
  reread := by
    intro as has bs hbs rest
    rcases has with ⟨input, behind, h⟩
    rcases Reader.bind_eq_ok h with ⟨n, between, hlength, htimes⟩
    rcases Reader.times_eq_ok htimes with ⟨hn, hall⟩
    rcases hbs with ⟨parts, hparts, hbs⟩
    have hfits := (length_eq_ok hlength).right
    rw [← hn] at hfits
    rw [hbs, List.append_assoc]
    simp only [list]
    rw [Reader.bind_eq (length_decode hfits _)]
    exact times_reread hc hparts hall rest

/-!
## Values with one spelling
-/

/-- A value is spelled as it is written and not otherwise. -/
def Sole (c : Codec α) (s : Spelling α) (a : α) : Prop :=
  forall bs, s a bs -> bs = c.encode a

theorem sole_exactly (c : Codec α) (a : α) : Sole c (.exactly c) a :=
  fun _ hbs => hbs

theorem sole_pair {c : Codec α} {d : Codec β} {s : Spelling α} {t : Spelling β} {p : α × β}
    (hs : Sole c s p.1) (ht : Sole d t p.2) : Sole (c.pair d) (s.pair t) p := by
  intro bs hbs
  rcases hbs with ⟨front, back, hfront, hback, hbs⟩
  rw [hbs, hs front hfront, ht back hback]
  rfl

theorem sole_list {c : Codec α} {s : Spelling α} {as : List α}
    (hs : forall a, a ∈ as -> Sole c s a) : Sole c.list s.list as := by
  intro bs hbs
  rcases hbs with ⟨parts, hparts, hbs⟩
  have hflatten : parts.flatten = as.flatMap c.encode := by
    clear hbs
    induction hparts with
    | nil => rfl
    | cons hpart _ ih =>
        rw [List.forall_mem_cons] at hs
        rw [List.flatten_cons, List.flatMap_cons, ih hs.right, hs.left _ hpart]
  rw [hbs, hflatten]
  rfl

theorem Canonical.exact {c : Codec α} {s : Spelling α} (hc : Canonical c s)
    (hsole : forall a, Sole c s a) : Canonical c (.exactly c) := by
  apply hc.congr
  intro a bs
  constructor
  · intro hbs
    rw [hbs]
    exact hc.written a
  · exact hsole a bs

theorem exact_pair {c : Codec α} {d : Codec β} (hc : Canonical c (.exactly c))
    (hd : Canonical d (.exactly d)) : Canonical (c.pair d) (.exactly (c.pair d)) :=
  (canonical_pair hc hd).exact fun _ => sole_pair (sole_exactly c _) (sole_exactly d _)

theorem exact_iso {c : Codec α} (hc : Canonical c (.exactly c)) {toParts : β -> α}
    {ofParts : α -> β} (hinverse : forall a, toParts (ofParts a) = a) :
    Canonical (c.iso toParts ofParts) (.exactly (c.iso toParts ofParts)) :=
  canonical_iso hc hinverse

theorem exact_list {c : Codec α} (hc : Canonical c (.exactly c)) :
    Canonical c.list (.exactly c.list) :=
  (canonical_list hc).exact fun _ => sole_list fun a _ => sole_exactly c a

/-!
## Alternatives
-/

/-- How the values of one alternative are read and spelled. -/
structure Alternative (s : Spelling α) (index : UInt32) (r : Reader α) : Prop where
  read : forall bs a rest, r bs = .ok (a, rest) ->
    exists parts, bs = parts ++ rest ∧ s a (encodeAlternative index parts)
  reread : forall a, r.Yields a -> forall bs, s a bs ->
    exists parts, bs = encodeAlternative index parts ∧ forall rest, r (parts ++ rest) = .ok (a, rest)

theorem alternative_of_canonical {c : Codec β} {t : Spelling β} (hc : Canonical c t)
    {s : Spelling α} {index : UInt32} {make : β -> α}
    (hspelled : forall b bs, s (make b) bs <->
      exists parts, t b parts ∧ bs = encodeAlternative index parts) :
    Alternative s index (c.decode.map make) where
  read := by
    intro bs a rest h
    rcases Reader.map_eq_ok h with ⟨b, hb, ha⟩
    rcases hc.read bs b rest hb with ⟨parts, hbs, hparts⟩
    rw [ha]
    exact ⟨parts, hbs, (hspelled b _).mpr ⟨parts, hparts, rfl⟩⟩
  reread := by
    intro a ha bs hbs
    rcases ha with ⟨input, behind, h⟩
    rcases Reader.map_eq_ok h with ⟨b, hb, ha⟩
    rw [ha] at hbs ⊢
    rcases (hspelled b bs).mp hbs with ⟨parts, hparts, hbs⟩
    refine ⟨parts, hbs, ?_⟩
    intro rest
    exact Reader.map_eq (hc.reread b ⟨_, _, hb⟩ parts hparts rest) make

/-- An alternative all of whose parts have one spelling. -/
theorem alternative_exactly {c : Codec β} (hc : Canonical c (.exactly c)) {s : Spelling α}
    {index : UInt32} {make : β -> α}
    (hspelled : forall b bs, s (make b) bs <-> bs = encodeAlternative index (c.encode b)) :
    Alternative s index (c.decode.map make) := by
  apply alternative_of_canonical hc
  intro b bs
  rw [hspelled]
  constructor
  · exact fun hbs => ⟨_, rfl, hbs⟩
  · intro h
    rcases h with ⟨parts, hparts, hbs⟩
    rw [hbs, hparts]

/-- An alternative without parts. -/
theorem alternative_pure {s : Spelling α} {index : UInt32} {a : α}
    (hspelled : forall bs, s a bs <-> bs = encodeAlternative index []) :
    Alternative s index (.pure a) where
  read := by
    intro bs b rest h
    cases h
    exact ⟨[], rfl, (hspelled _).mpr rfl⟩
  reread := by
    intro b hb bs hbs
    rcases hb with ⟨input, behind, h⟩
    cases h
    exact ⟨[], (hspelled bs).mp hbs, fun _ => rfl⟩

theorem decodeSum_eq_ok {alternatives : List (Reader α)} {bs rest : Bytes} {a : α}
    (h : decodeSum alternatives bs = .ok (a, rest)) :
    exists index r between, alternatives[UInt32.toNat index]? = some r ∧
      bs = u32.encode index ++ between ∧ r between = .ok (a, rest) := by
  rcases Reader.bind_eq_ok h with ⟨index, between, hindex, hread⟩
  rcases canonical_u32.read bs index between hindex with ⟨front, hbs, hfront⟩
  cases hr : alternatives[index.toNat]? with
  | none =>
      rw [hr] at hread
      cases hread
  | some r =>
      rw [hr] at hread
      rw [hfront] at hbs
      exact ⟨index, r, between, hr, hbs, hread⟩

theorem canonical_sum {c : Codec α} {s : Spelling α} {alternatives : List (Reader α)}
    (hdecode : c.decode = decodeSum alternatives) (hwritten : forall a, s a (c.encode a))
    (halike : forall a bs, s a bs -> List.Forall₂ Hex.SameButCase bs (c.encode a))
    (halternatives : forall (i : Nat) (r : Reader α), alternatives[i]? = some r ->
      Alternative s (UInt32.ofNat i) r) :
    Canonical c s where
  written := hwritten
  alike := halike
  read := by
    intro bs a rest h
    rw [hdecode] at h
    rcases decodeSum_eq_ok h with ⟨index, r, between, hr, hbs, hread⟩
    have halternative := halternatives index.toNat r hr
    rw [UInt32.ofNat_toNat] at halternative
    rcases halternative.read between a rest hread with ⟨parts, hbetween, hparts⟩
    refine ⟨_, ?_, hparts⟩
    rw [hbs, hbetween, encodeAlternative, List.append_assoc]
  reread := by
    intro a ha bs hspelled rest
    rcases ha with ⟨input, behind, h⟩
    rw [hdecode] at h
    rcases decodeSum_eq_ok h with ⟨index, r, between, hr, _, hread⟩
    have halternative := halternatives index.toNat r hr
    rw [UInt32.ofNat_toNat] at halternative
    rcases halternative.reread a ⟨_, _, hread⟩ bs hspelled with ⟨parts, hbs, hagain⟩
    rw [hdecode, hbs, decodeSum_encodeAlternative hr, hagain rest]

theorem exact_sum {c : Codec α} {alternatives : List (Reader α)}
    (hdecode : c.decode = decodeSum alternatives)
    (halternatives : forall (i : Nat) (r : Reader α), alternatives[i]? = some r ->
      Alternative (.exactly c) (UInt32.ofNat i) r) :
    Canonical c (.exactly c) := by
  have hwritten : forall a, Spelling.exactly c a (c.encode a) := fun _ => rfl
  apply canonical_sum hdecode hwritten _ halternatives
  intro a bs hbs
  rw [hbs]
  exact Hex.alike_self _

end Codec

end LedgerClient
