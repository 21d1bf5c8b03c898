import LedgerClient.Proofs.Number.Shortest
import LedgerClient.Toml.Document
import Mathlib.Data.List.TakeWhile

/-!
# Numbers that are read back

What is written for a number is one word without an exponent: a sign, digits that do not start with
a needless zero and, for a floating-point number, a point with further digits behind it.  Such a
word is no date and no time and names no base, so a reader takes it for that number.  It takes in
few enough digits to look at each of them.
-/

namespace LedgerClient

namespace Toml

variable {c : Char} {cs rest : List Char}

/-!
## Decimal digits
-/

/-- Characters that are decimal digits, at least one. -/
structure AreDigits (cs : List Char) : Prop where
  digits : forall c, c ∈ cs -> c.isDigit = true
  ne_nil : cs ≠ []

theorem areDigits_toDigits (n : Nat) : AreDigits (Nat.toDigits 10 n) :=
  ⟨fun _ => Nat.isDigit_of_mem_toDigits (by decide) (by decide), Nat.toDigits_ne_nil⟩

theorem AreDigits.append {ds : List Char} (h : AreDigits cs)
    (hds : forall c, c ∈ ds -> c.isDigit = true) : AreDigits (cs ++ ds) := by
  constructor
  · intro c hc
    rcases List.mem_append.mp hc with hleft | hright
    · exact h.digits c hleft
    · exact hds c hright
  · exact List.append_ne_nil_of_left_ne_nil h.ne_nil ds

def digitOf (c : Char) : Nat :=
  c.toNat - 48

theorem digit_bounds (h : c.isDigit = true) : 48 ≤ c.toNat ∧ c.toNat ≤ 57 := by
  simpa [Char.isDigit, UInt32.le_iff_toNat_le] using h

theorem digitValue?_of_isDigit (h : c.isDigit = true) : digitValue? 10 c = some (digitOf c) := by
  rcases digit_bounds h with ⟨hlow, hhigh⟩
  have hdigit : isDigit c = true := by
    simpa [isDigit, Char.isDigit, Char.le_def] using h
  simp only [digitValue?, hdigit, if_true, digitOf]
  exact Option.filter_some_pos (decide_eq_true (by omega))

/-- Characters of which only one is of some kind differ. -/
theorem ne_of_kind {kind : Char → Bool} {d : Char} (h : kind c = true) (hd : kind d = false) :
    c ≠ d := by
  rintro rfl
  rw [h] at hd
  cases hd

theorem digits?_cons {base d : Nat} {next : Char} (hc : digitValue? base c = some d)
    (hnext : next ≠ '_') (cs : List Char) :
    digits? base (c :: next :: cs) = (digits? base (next :: cs)).map (d :: ·) := by
  rw [digits?]
  · rw [hc]
    cases digits? base (next :: cs) with
    | none => rfl
    | some ds => rfl
  · intro hnil
    cases hnil
  · intro more hmore
    exact hnext (List.cons.inj hmore).left

theorem digits?_of_no_digit {base : Nat} (hc : digitValue? base c = none) (cs : List Char) :
    digits? base (c :: cs) = none := by
  rw [digits?.eq_def]
  split
  case h_1 => rfl
  case h_2 hsole =>
    cases hsole
    rw [hc]
    rfl
  case h_3 hsplit =>
    cases hsplit
    rw [hc]
    rfl
  case h_4 hsplit =>
    cases hsplit
    rw [hc]
    rfl

theorem digits?_of_areDigits (h : AreDigits cs) : digits? 10 cs = some (cs.map digitOf) := by
  induction cs with
  | nil => exact (h.ne_nil rfl).elim
  | cons c cs ih =>
      have hc := digitValue?_of_isDigit (h.digits c List.mem_cons_self)
      cases cs with
      | nil => simp [digits?, hc]
      | cons d cs =>
          have hd := h.digits d (List.mem_cons_of_mem c List.mem_cons_self)
          have hrest :=
            ih ⟨fun e he => h.digits e (List.mem_cons_of_mem c he), List.cons_ne_nil d cs⟩
          rw [digits?_cons hc (ne_of_kind hd rfl), hrest]
          rfl

/-- A point is no digit. -/
theorem digits?_append_point (h : forall c, c ∈ cs -> c.isDigit = true) (rest : List Char) :
    digits? 10 (cs ++ '.' :: rest) = none := by
  induction cs with
  | nil => exact digits?_of_no_digit rfl rest
  | cons c cs ih =>
      have hc := digitValue?_of_isDigit (h c List.mem_cons_self)
      have hrest := ih fun d hd => h d (List.mem_cons_of_mem c hd)
      cases cs with
      | nil =>
          rw [List.cons_append, List.nil_append, digits?_cons hc (by decide),
            digits?_of_no_digit rfl]
          rfl
      | cons d cs =>
          have hd := h d (List.mem_cons_of_mem c List.mem_cons_self)
          rw [List.cons_append, List.cons_append, digits?_cons hc (ne_of_kind hd rfl),
            ← List.cons_append, hrest]
          rfl

theorem ofDigits_map (cs : List Char) :
    ofDigits 10 (cs.map digitOf) = Nat.ofDigitChars 10 cs 0 := by
  rw [ofDigits, Nat.ofDigitChars_eq_foldl, List.foldl_map]
  rfl

theorem head?_toDigits {n : Nat} (h : 0 < n) : (Nat.toDigits 10 n).head? ≠ some '0' := by
  induction n using Nat.strongRecOn with
  | ind n ih =>
      by_cases hsmall : n < 10
      · rw [Nat.toDigits_of_lt_base hsmall]
        have hdigit : forall m, m < 10 -> 0 < m -> [m.digitChar].head? ≠ some '0' := by decide
        exact hdigit n hsmall h
      · have hfront := ih (n / 10) (by omega) (by omega)
        rw [Nat.toDigits_of_base_le (by decide) (by omega),
          List.head?_append_of_ne_nil _ Nat.toDigits_ne_nil]
        exact hfront

/-!
## Signs and words
-/

/-- Characters behind a minus if they stand for something negative. -/
def signed (negative : Bool) (cs : List Char) : List Char :=
  if negative then '-' :: cs else cs

/-- What is written for a number without its sign: a digit, and behind it digits and points. -/
structure IsNumeral (cs : List Char) : Prop where
  chars : forall c, c ∈ cs -> c.isDigit = true ∨ c = '.'
  starts : exists c more, cs = c :: more ∧ c.isDigit = true

theorem AreDigits.starts (h : AreDigits cs) (rest : List Char) :
    exists c more, cs ++ rest = c :: more ∧ c.isDigit = true := by
  cases cs with
  | nil => exact (h.ne_nil rfl).elim
  | cons c cs => exact ⟨c, cs ++ rest, rfl, h.digits c List.mem_cons_self⟩

theorem isNumeral_toDigits (n : Nat) : IsNumeral (Nat.toDigits 10 n) := by
  have hdigits := areDigits_toDigits n
  constructor
  case chars => exact fun c hc => .inl (hdigits.digits c hc)
  case starts =>
    have hstarts := hdigits.starts []
    rwa [List.append_nil] at hstarts

theorem isNumeral_pointed {whole fraction : List Char} (hwhole : AreDigits whole)
    (hfraction : AreDigits fraction) : IsNumeral (whole ++ '.' :: fraction) := by
  constructor
  case chars =>
    intro c hc
    rcases List.mem_append.mp hc with hleft | hright
    · exact .inl (hwhole.digits c hleft)
    · rcases List.mem_cons.mp hright with hpoint | hmore
      · exact .inr hpoint
      · exact .inl (hfraction.digits c hmore)
  case starts => exact hwhole.starts ('.' :: fraction)

/-- Characters that are neither digits nor points stand in no number. -/
theorem IsNumeral.ne (h : IsNumeral cs) {d : Char} (hc : c ∈ cs) (hdigit : d.isDigit = false)
    (hpoint : d ≠ '.') : c ≠ d := by
  rcases h.chars c hc with hc | rfl
  · exact ne_of_kind hc hdigit
  · exact hpoint.symm

theorem takeSign_signed (negative : Bool) (h : IsNumeral cs) :
    takeSign (signed negative cs) = (negative, cs) := by
  rcases h.starts with ⟨c, more, rfl, hc⟩
  cases negative with
  | true => rfl
  | false =>
      have hminus : c ≠ '-' := ne_of_kind hc rfl
      have hplus : c ≠ '+' := ne_of_kind hc rfl
      simp [signed, takeSign, hminus, hplus]

theorem special?_signed (negative : Bool) (h : IsNumeral cs) :
    special? (signed negative cs) = none := by
  unfold special?
  rw [takeSign_signed negative h]
  rcases h.starts with ⟨c, more, rfl, hc⟩
  have hi : c ≠ 'i' := ne_of_kind hc rfl
  have hn : c ≠ 'n' := ne_of_kind hc rfl
  split
  case h_1 hsplit => exact (hi (List.cons.inj (Prod.mk.inj hsplit).right).left).elim
  case h_2 hsplit => exact (hn (List.cons.inj (Prod.mk.inj hsplit).right).left).elim
  case h_3 => rfl

/-- A decimal number names no base. -/
theorem basedInteger?_signed (negative : Bool) (h : IsNumeral cs) :
    basedInteger? (signed negative cs) = none := by
  rcases h.starts with ⟨c, more, rfl, hc⟩
  cases negative with
  | true => rfl
  | false =>
      have hsecond : forall d rest, c :: more = '0' :: d :: rest -> d ∈ c :: more := by
        intro d rest hrest
        rw [hrest]
        exact List.mem_cons_of_mem '0' List.mem_cons_self
      apply basedInteger?.eq_4
      case x_2 => exact fun rest hrest => h.ne (hsecond _ rest hrest) rfl (by decide) rfl
      case x_3 => exact fun rest hrest => h.ne (hsecond _ rest hrest) rfl (by decide) rfl
      case x_4 => exact fun rest hrest => h.ne (hsecond _ rest hrest) rfl (by decide) rfl

/-!
## Integers
-/

/-- Digits without a needless zero at the front. -/
structure AreWhole (cs : List Char) : Prop extends AreDigits cs where
  front : cs.head? ≠ some '0' ∨ cs = ['0']

theorem areWhole_toDigits (n : Nat) : AreWhole (Nat.toDigits 10 n) := by
  refine ⟨areDigits_toDigits n, ?_⟩
  rcases Nat.eq_zero_or_pos n with rfl | hpos
  · exact .inr (Nat.toDigits_zero 10)
  · exact .inl (head?_toDigits hpos)

theorem digitOf_ne_zero (h : c.isDigit = true) (hzero : c ≠ '0') : digitOf c ≠ 0 := by
  rcases digit_bounds h with ⟨hlow, _⟩
  have hcode : c.toNat ≠ '0'.toNat := fun hc => hzero (Char.toNat_inj.mp hc)
  have h48 : '0'.toNat = 48 := rfl
  unfold digitOf
  omega

theorem wholeDigits?_of_areWhole (h : AreWhole cs) : wholeDigits? cs = some (cs.map digitOf) := by
  rw [wholeDigits?, digits?_of_areDigits h.toAreDigits]
  rcases h.front with hhead | rfl
  · cases cs with
    | nil => exact (h.ne_nil rfl).elim
    | cons c cs =>
        have hfirst := digitOf_ne_zero (h.digits c List.mem_cons_self) fun hc =>
          hhead (by rw [hc]; rfl)
        simp [hfirst]
  · rfl

theorem integer?_signed (negative : Bool) {n : Nat} (h : n < UInt64.size) :
    integer? (signed negative (Nat.toDigits 10 n)) = some (negateIf negative n) := by
  have hnumeral := isNumeral_toDigits n
  have hvalue : ofDigits 10 ((Nat.toDigits 10 n).map digitOf) = n := by
    rw [ofDigits_map, Nat.ofDigitChars_ten_toDigits]
  have hread : ofDigitsUntil UInt64.size 10 ((Nat.toDigits 10 n).map digitOf) = n := by
    rw [ofDigitsUntil_eq (by decide) (Nat.lt_of_le_of_lt (Nat.le_of_eq hvalue) h), hvalue]
  simp only [integer?, basedInteger?_signed negative hnumeral, takeSign_signed negative hnumeral,
    wholeDigits?_of_areWhole (areWhole_toDigits n), Option.map_some, hread]

theorem toList_toString_int (n : Int) :
    (toString n).toList = signed (n < 0) (Nat.toDigits 10 n.natAbs) := by
  cases n with
  | ofNat n =>
      have hsign : decide (Int.ofNat n < 0) = false :=
        decide_eq_false (Int.not_lt.mpr (Int.natCast_nonneg n))
      rw [hsign]
      show (toString n).toList = _
      rw [Nat.toString_eq_ofList_toDigits, String.toList_ofList]
      rfl
  | negSucc n =>
      have hsign : decide (Int.negSucc n < 0) = true := decide_eq_true (Int.negSucc_lt_zero n)
      rw [hsign]
      show ("-" ++ toString (n + 1)).toList = _
      rw [String.toList_append, Nat.toString_eq_ofList_toDigits, String.toList_ofList]
      simp [signed]

theorem isInteger_iff {n : Int} : isInteger n = true <-> -2 ^ 63 ≤ n ∧ n < 2 ^ 63 := by
  have hleast : Int64.minValue.toInt = -2 ^ 63 := rfl
  have hmost : Int64.maxValue.toInt = 2 ^ 63 - 1 := rfl
  simp only [isInteger, hleast, hmost, Bool.and_eq_true, decide_eq_true_eq]
  omega

theorem negateIf_natAbs (n : Int) : negateIf (n < 0) n.natAbs = n := by
  unfold negateIf
  split
  case isTrue h =>
    have hneg : n < 0 := by simpa using h
    omega
  case isFalse h =>
    have hnonneg : ¬n < 0 := by simpa using h
    omega

theorem number?_toString {n : Int} (h : isInteger n = true) :
    number? (toString n).toList = some (.integer n) := by
  have hbounds := isInteger_iff.mp h
  have hsmall : n.natAbs < UInt64.size := by
    have hsize : UInt64.size = 2 ^ 64 := rfl
    omega
  rw [toList_toString_int, number?, special?_signed _ (isNumeral_toDigits n.natAbs)]
  simp only [integer?_signed _ hsmall, negateIf_natAbs, h, if_true]

/-!
## Numbers with a point
-/

theorem integer?_pointed (negative : Bool) {whole fraction : List Char} (hwhole : AreDigits whole)
    (hfraction : AreDigits fraction) :
    integer? (signed negative (whole ++ '.' :: fraction)) = none := by
  have hnumeral := isNumeral_pointed hwhole hfraction
  have hnone := digits?_append_point hwhole.digits fraction
  simp only [integer?, basedInteger?_signed negative hnumeral, takeSign_signed negative hnumeral,
    wholeDigits?, hnone, Option.map_none]

/-- No digit and no point marks an exponent. -/
theorem IsNumeral.isExponentMark_eq (h : IsNumeral cs) :
    forall c, c ∈ cs -> (!isExponentMark c) = true := by
  intro c hc
  have hsmall : c ≠ 'e' := h.ne hc rfl (by decide)
  have hcapital : c ≠ 'E' := h.ne hc rfl (by decide)
  simp [isExponentMark, hsmall, hcapital]

/-- A row of characters ends where another kind begins. -/
theorem takeWhile_append_stop {p : Char → Bool} (hcs : forall c, c ∈ cs -> p c = true)
    (hrest : forall c, rest.head? = some c -> p c = false) :
    (cs ++ rest).takeWhile p = cs ∧ (cs ++ rest).dropWhile p = rest := by
  rw [List.takeWhile_append_of_pos hcs, List.dropWhile_append_of_pos hcs]
  cases rest with
  | nil => simp
  | cons c rest => simp [hrest c rfl]

theorem takeWhile_append_point {whole : List Char} (h : AreDigits whole) (fraction : List Char) :
    (whole ++ '.' :: fraction).takeWhile (· != '.') = whole ∧
      (whole ++ '.' :: fraction).dropWhile (· != '.') = '.' :: fraction := by
  apply takeWhile_append_stop
  · intro c hc
    exact bne_iff_ne.mpr (ne_of_kind (h.digits c hc) rfl)
  · intro c hc
    cases hc
    rfl

theorem decimal?_pointed (negative : Bool) {whole fraction : List Char} (hwhole : AreWhole whole)
    (hfraction : AreDigits fraction) (hlength : (whole ++ fraction).length ≤ longestMantissa)
    {x : Binary64} (hx : Binary64.ofDecimal negative (Nat.ofDigitChars 10 (whole ++ fraction) 0)
      (-(fraction.length : Int)) = x) (hfinite : x ≠ .infinite false) :
    decimal? (signed negative (whole ++ '.' :: fraction)) = some x := by
  have hnumeral := isNumeral_pointed hwhole.toAreDigits hfraction
  have hmarks := hnumeral.isExponentMark_eq
  have hsign := takeSign_signed negative hnumeral
  rcases takeWhile_append_point hwhole.toAreDigits fraction with ⟨hfront, hback⟩
  have hnone : (whole ++ '.' :: fraction).dropWhile (fun c => !isExponentMark c) = [] := by
    rw [List.dropWhile_eq_nil_iff]
    exact hmarks
  have hall : (whole ++ '.' :: fraction).takeWhile (fun c => !isExponentMark c) =
      whole ++ '.' :: fraction := by
    rw [List.takeWhile_eq_self_iff]
    exact hmarks
  have hmantissa : mantissa (whole.map digitOf ++ fraction.map digitOf)
      (0 - ((fraction.map digitOf).length : Int)) =
        (Nat.ofDigitChars 10 (whole ++ fraction) 0, -(fraction.length : Int)) := by
    rw [mantissa_eq, ← List.map_append, ofDigits_map, List.length_map, Int.zero_sub]
    rw [← List.map_append, List.length_map]
    exact hlength
  simp only [decimal?, hsign, hall, hnone, hfront, hback, exponent?, fraction?,
    wholeDigits?_of_areWhole hwhole, digits?_of_areDigits hfraction, hmantissa, hx, hfinite,
    Option.bind_eq_bind, Option.bind_some, if_false]

theorem number?_pointed (negative : Bool) {whole fraction : List Char} (hwhole : AreWhole whole)
    (hfraction : AreDigits fraction) (hlength : (whole ++ fraction).length ≤ longestMantissa)
    {x : Binary64} (hx : Binary64.ofDecimal negative (Nat.ofDigitChars 10 (whole ++ fraction) 0)
      (-(fraction.length : Int)) = x) (hfinite : x ≠ .infinite false) :
    number? (signed negative (whole ++ '.' :: fraction)) = some (.float x) := by
  have hspecial := special?_signed negative (isNumeral_pointed hwhole.toAreDigits hfraction)
  have hinteger := integer?_pointed negative hwhole.toAreDigits hfraction
  have hdecimal := decimal?_pointed negative hwhole hfraction hlength hx hfinite
  simp only [number?, hspecial, hinteger, hdecimal, Option.map_some]

/-- What a decimal in the range of a number reads back as. -/
theorem ofDecimal_eq (negative : Bool) {units digits places : Nat} {d : Shortest.Decimal}
    (hfits : Binary64.Fits units) (hsmall : units < Binary64.overflow)
    (hd : Shortest.Has (Shortest.Range.ofUnits units) (4 * Binary64.one * d.value))
    (hvalue : (digits : ℚ) = d.value * 10 ^ places) (hdigits : 0 < digits) (hplaces : 0 < places)
    (hfew : places ≤ 400) :
    Binary64.ofDecimal negative digits (-(places : Int)) = .finite negative units := by
  have hlarge : ¬400 < -(places : Int) := by omega
  have hwhole : ¬0 ≤ -(places : Int) := by omega
  have htiny : ¬400 + ((Nat.toDigits 10 digits).length : Int) < -(-(places : Int)) := by omega
  rw [Binary64.ofDecimal, if_neg (by omega), if_neg hlarge, if_neg hwhole, if_neg htiny,
    Int.neg_neg, Int.toNat_natCast]
  have hpower : 0 < Binary64.powerOfTen places := Nat.pow_pos (by decide)
  apply Binary64.ofUnits_eq negative hfits hsmall hpower
  refine (Shortest.contains_iff hpower ?_).mpr hd
  rw [Shortest.powerOfTen_eq]
  push_cast
  rw [hvalue]
  ring

/-!
## The layout of decimals
-/

/-- A decimal that has neither too many digits for a reader nor too many places. -/
structure Bounded (d : Shortest.Decimal) : Prop where
  digits_pos : 0 < d.digits
  le_exponent : -346 ≤ d.exponent
  length_le : (Nat.toDigits 10 d.digits).length + d.exponent ≤ 309

theorem bounded_shortest {units : Nat} (hpos : 0 < units) (hfits : Binary64.Fits units)
    (hsmall : units < Binary64.overflow) : Bounded (Shortest.shortest units) := by
  have hdigits : 0 < (Shortest.shortest units).digits := by
    have hvalue := Shortest.value_shortest_pos hpos hfits
    apply Nat.pos_of_ne_zero
    intro hzero
    rw [Shortest.Decimal.value, hzero, Nat.cast_zero, zero_mul] at hvalue
    exact lt_irrefl 0 hvalue
  refine ⟨hdigits, Shortest.le_exponent_shortest hpos hfits, ?_⟩
  have hlarge := Shortest.pow_le_of_length_toDigits _ hdigits
  have hvalue := Shortest.value_shortest_lt hpos hfits hsmall
  generalize Shortest.shortest units = d at *
  have hlength := @Nat.length_toDigits_pos 10 d.digits
  generalize (Nat.toDigits 10 d.digits).length = length at *
  have hten : (10 : ℚ) ^ ((length - 1 : Nat) + d.exponent) < 10 ^ (309 : Int) := by
    calc
      (10 : ℚ) ^ ((length - 1 : Nat) + d.exponent) = 10 ^ (length - 1) * 10 ^ d.exponent := by
        rw [zpow_add₀ (by norm_num), zpow_natCast]
      _ ≤ d.value := by
        rw [Shortest.Decimal.value]
        exact mul_le_mul_of_nonneg_right (by exact_mod_cast hlarge) (by positivity)
      _ < 10 ^ (309 : Int) := by
        rw [Shortest.powerOfTen_eq] at hvalue
        exact_mod_cast hvalue
  have hplaces := (zpow_lt_zpow_iff_right₀ (by norm_num)).mp hten
  omega

/-- How the digits of a decimal stand before and behind a point. -/
structure Layout (d : Shortest.Decimal) (whole fraction : List Char) : Prop where
  areWhole : AreWhole whole
  areDigits : AreDigits fraction
  value : (Nat.ofDigitChars 10 (whole ++ fraction) 0 : ℚ) = d.value * 10 ^ fraction.length
  few : fraction.length ≤ 400
  short : (whole ++ fraction).length ≤ longestMantissa

variable {d : Shortest.Decimal}

theorem layout_of_nonneg (h : Bounded d) (hexponent : 0 ≤ d.exponent) :
    Layout d d.positional.toList ['0'] := by
  rw [Shortest.Decimal.positional, if_pos hexponent, String.toList_ofList]
  constructor
  case areWhole =>
    refine ⟨(areDigits_toDigits _).append ?_, .inl ?_⟩
    · intro c hc
      rw [List.eq_of_mem_replicate hc]
      rfl
    · rw [List.head?_append_of_ne_nil _ Nat.toDigits_ne_nil]
      exact head?_toDigits h.digits_pos
  case areDigits => exact ⟨by simp, by simp⟩
  case value =>
    have hlast : Nat.ofDigitChars 10 ['0'] (10 ^ d.exponent.toNat * d.digits) =
        10 * (10 ^ d.exponent.toNat * d.digits) := rfl
    rw [Nat.ofDigitChars_append, Nat.ofDigitChars_append, Nat.ofDigitChars_ten_toDigits,
      Nat.ofDigitChars_replicate_zero, hlast, Shortest.Decimal.value,
      Shortest.ten_zpow_of_nonneg hexponent, List.length_singleton]
    push_cast
    ring
  case few => exact Nat.le_of_ble_eq_true rfl
  case short =>
    have hlength := h.length_le
    simp only [List.length_append, List.length_replicate, List.length_singleton, longestMantissa]
    omega

theorem value_mul_of_neg (h : d.exponent < 0) :
    (d.digits : ℚ) = d.value * 10 ^ (-d.exponent).toNat := by
  rw [Shortest.Decimal.value, mul_assoc, Shortest.ten_zpow_mul_of_neg h, mul_one]

theorem layout_take (h : Bounded d) (hexponent : d.exponent < 0) {places : Nat}
    (hplaces : (-d.exponent).toNat = places) (hfew : places < (Nat.toDigits 10 d.digits).length) :
    Layout d ((Nat.toDigits 10 d.digits).take ((Nat.toDigits 10 d.digits).length - places))
      ((Nat.toDigits 10 d.digits).drop ((Nat.toDigits 10 d.digits).length - places)) := by
  have hleast := h.le_exponent
  have hlength := h.length_le
  have hdigits := areDigits_toDigits d.digits
  constructor
  case areWhole =>
    refine ⟨⟨fun c hc => hdigits.digits c (List.mem_of_mem_take hc), ?_⟩, .inl ?_⟩
    · apply List.ne_nil_of_length_pos
      rw [List.length_take]
      omega
    · rw [List.head?_take, if_neg (by omega)]
      exact head?_toDigits h.digits_pos
  case areDigits =>
    refine ⟨fun c hc => hdigits.digits c (List.mem_of_mem_drop hc), ?_⟩
    apply List.ne_nil_of_length_pos
    rw [List.length_drop]
    omega
  case value =>
    rw [List.take_append_drop, Nat.ofDigitChars_ten_toDigits, List.length_drop,
      Nat.sub_sub_self (Nat.le_of_lt hfew), ← hplaces]
    exact value_mul_of_neg hexponent
  case few =>
    rw [List.length_drop]
    omega
  case short =>
    rw [List.take_append_drop, longestMantissa]
    omega

theorem layout_fill (h : Bounded d) (hexponent : d.exponent < 0) {places : Nat}
    (hplaces : (-d.exponent).toNat = places) (hmany : (Nat.toDigits 10 d.digits).length ≤ places) :
    Layout d ['0'] (List.replicate (places - (Nat.toDigits 10 d.digits).length) '0' ++
      Nat.toDigits 10 d.digits) := by
  have hleast := h.le_exponent
  have hfill : (List.replicate (places - (Nat.toDigits 10 d.digits).length) '0' ++
      Nat.toDigits 10 d.digits).length = places := by
    rw [List.length_append, List.length_replicate]
    omega
  constructor
  case areWhole => exact ⟨⟨by simp, by simp⟩, .inr rfl⟩
  case areDigits =>
    refine ⟨?_, List.append_ne_nil_of_right_ne_nil _ Nat.toDigits_ne_nil⟩
    intro c hc
    rcases List.mem_append.mp hc with hzero | hdigit
    · rw [List.eq_of_mem_replicate hzero]
      rfl
    · exact (areDigits_toDigits d.digits).digits c hdigit
  case value =>
    have hzero : Nat.ofDigitChars 10 ['0'] 0 = 0 := rfl
    rw [hfill, Nat.ofDigitChars_append, Nat.ofDigitChars_append, hzero,
      Nat.ofDigitChars_replicate_zero, Nat.mul_zero, Nat.ofDigitChars_ten_toDigits, ← hplaces]
    exact value_mul_of_neg hexponent
  case few =>
    rw [hfill]
    omega
  case short =>
    rw [List.length_append, hfill, List.length_singleton, longestMantissa]
    omega

theorem exists_layout_of_neg (h : Bounded d) (hexponent : d.exponent < 0) :
    exists whole fraction, d.positional.toList = whole ++ '.' :: fraction ∧
      Layout d whole fraction := by
  rw [Shortest.Decimal.positional, if_neg (Int.not_le.mpr hexponent)]
  dsimp only
  by_cases hfew : (-d.exponent).toNat < (Nat.toDigits 10 d.digits).length
  · rw [if_pos hfew, String.toList_ofList]
    exact ⟨_, _, rfl, layout_take h hexponent rfl hfew⟩
  · rw [if_neg hfew, String.toList_ofList]
    exact ⟨_, _, rfl, layout_fill h hexponent rfl (Nat.le_of_not_lt hfew)⟩

/-- A decimal with a point is read back as the number whose range has it. -/
theorem number?_layout (negative : Bool) {units : Nat} {whole fraction : List Char}
    (hlayout : Layout d whole fraction) (hfits : Binary64.Fits units)
    (hsmall : units < Binary64.overflow) (hbounded : Bounded d)
    (hd : Shortest.Has (Shortest.Range.ofUnits units) (4 * Binary64.one * d.value)) :
    number? (signed negative (whole ++ '.' :: fraction)) =
      some (.float (.finite negative units)) := by
  have hdigits : 0 < Nat.ofDigitChars 10 (whole ++ fraction) 0 := by
    have hvalue : 0 < d.value * 10 ^ fraction.length := by
      have hcast : (0 : ℚ) < d.digits := by exact_mod_cast hbounded.digits_pos
      exact mul_pos (mul_pos hcast (zpow_pos (by norm_num) _)) (pow_pos (by norm_num) _)
    rw [← hlayout.value] at hvalue
    exact_mod_cast hvalue
  have hread := ofDecimal_eq negative hfits hsmall hd hlayout.value hdigits
    (List.length_pos_iff.mpr hlayout.areDigits.ne_nil) hlayout.few
  exact number?_pointed negative hlayout.areWhole hlayout.areDigits hlayout.short hread
    Binary64.noConfusion

/-- What is written of a number that is not zero. -/
theorem toList_text (negative : Bool) {units : Nat} (hpos : 0 < units) :
    (Binary64.finite negative units).text.toList =
      signed negative (Shortest.shortest units).positional.toList := by
  rw [Binary64.text, if_neg hpos.ne']
  cases negative with
  | true =>
      rw [String.toList_append]
      rfl
  | false =>
      rw [String.toList_append]
      rfl

theorem signed_append (negative : Bool) (cs ds : List Char) :
    signed negative cs ++ ds = signed negative (cs ++ ds) := by
  cases negative <;> rfl

theorem toList_floatText_zero (negative : Bool) :
    (floatText (.finite negative 0)).toList = signed negative (['0'] ++ '.' :: ['0']) := by
  cases negative <;> decide +kernel

theorem exists_layout (negative : Bool) {units : Nat} (hpos : 0 < units)
    (hfits : Binary64.Fits units) (hsmall : units < Binary64.overflow) :
    exists whole fraction,
      (floatText (.finite negative units)).toList = signed negative (whole ++ '.' :: fraction) ∧
        Layout (Shortest.shortest units) whole fraction := by
  have hbounded := bounded_shortest hpos hfits hsmall
  dsimp only [floatText]
  by_cases hwhole : units % Binary64.one = 0
  · have hlayout := layout_of_nonneg hbounded (Shortest.exponent_shortest_nonneg hpos hfits hwhole)
    refine ⟨_, _, ?_, hlayout⟩
    rw [if_pos (by rw [Binary64.isWhole, hwhole]; rfl), String.toList_append,
      toList_text negative hpos, signed_append]
    rfl
  · rcases exists_layout_of_neg hbounded (Shortest.exponent_shortest_neg hpos hfits hwhole) with
      ⟨whole, fraction, htext, hlayout⟩
    refine ⟨whole, fraction, ?_, hlayout⟩
    rw [if_neg (by simpa [Binary64.isWhole] using hwhole), toList_text negative hpos, htext]

/-- A number is read back from its text. -/
theorem number?_floatText {x : Binary64} (h : x.IsNumber) :
    number? (floatText x).toList = some (.float x) := by
  cases h with
  | nan => rfl
  | infinite negative => cases negative <;> rfl
  | @finite negative units hfits hsmall =>
      rcases Nat.eq_zero_or_pos units with rfl | hpos
      · have hread : Binary64.ofDecimal negative (Nat.ofDigitChars 10 (['0'] ++ ['0']) 0)
            (-(['0'].length : Int)) = .finite negative 0 := rfl
        have hzero : AreWhole ['0'] := areWhole_toDigits 0
        rw [toList_floatText_zero]
        exact number?_pointed negative hzero hzero.toAreDigits (by decide) hread
          Binary64.noConfusion
      · rcases exists_layout negative hpos hfits hsmall with ⟨whole, fraction, htext, hlayout⟩
        rw [htext]
        exact number?_layout negative hlayout hfits hsmall (bounded_shortest hpos hfits hsmall)
          (Shortest.shortest_has hpos hfits)

/-!
## Words
-/

/-- Characters of a word that is neither a date nor a time. -/
structure IsWord (cs : List Char) : Prop where
  shown : forall c, c ∈ cs -> isWordChar c = true
  ne_nil : cs ≠ []
  noDate : '-' ∉ cs.tail
  noTime : ':' ∉ cs

theorem isWord_iff :
    IsWord cs <-> (cs.all isWordChar && !cs.isEmpty && !cs.tail.contains '-' && !cs.contains ':') =
      true := by
  simp only [Bool.and_eq_true, Bool.not_eq_true', ← Bool.not_eq_true, List.all_eq_true,
    List.isEmpty_iff, List.contains_iff_mem]
  exact ⟨fun h => ⟨⟨⟨h.shown, h.ne_nil⟩, h.noDate⟩, h.noTime⟩,
    fun h => ⟨h.left.left.left, h.left.left.right, h.left.right, h.right⟩⟩

instance (cs : List Char) : Decidable (IsWord cs) :=
  decidable_of_iff _ isWord_iff.symm

def EndsWord (rest : List Char) : Prop :=
  forall c, rest.head? = some c -> isWordChar c = false

theorem expect?_of_not_mem (h : c ∉ cs) : expect? c cs = none := by
  cases cs with
  | nil => rfl
  | cons d cs =>
      have hd : c ≠ d := fun hcd => h (List.mem_cons.mpr (.inl hcd))
      simp [expect?, hd]

theorem fixedNumber?_snd {count : Nat} {read : Nat × List Char}
    (h : fixedNumber? count cs = some read) : read.2 = cs.drop count := by
  unfold fixedNumber? at h
  dsimp only at h
  split at h
  · cases h
    rfl
  · cases h

theorem date?_of_isWord (h : IsWord cs) : date? cs = none := by
  have hdash : expect? '-' (cs.drop 4) = none := by
    apply expect?_of_not_mem
    intro hmem
    have htail : cs.drop 4 = cs.tail.drop 3 := by rw [List.drop_tail]
    rw [htail] at hmem
    exact h.noDate (List.mem_of_mem_drop hmem)
  unfold date?
  cases hyear : fixedNumber? 4 cs with
  | none => rfl
  | some read => simp [fixedNumber?_snd hyear, hdash]

theorem time?_of_isWord (h : IsWord cs) : time? cs = none := by
  have hcolon : expect? ':' (cs.drop 2) = none :=
    expect?_of_not_mem fun hmem => h.noTime (List.mem_of_mem_drop hmem)
  unfold time?
  cases hhour : twoDigits? 23 cs with
  | none => rfl
  | some read => simp [fixedNumber?_snd (Option.filter_eq_some_iff.mp hhour).left, hcolon]

/-- A number is read up to the end of its word. -/
theorem word_append {v : Value} (h : IsWord cs) (hrest : EndsWord rest)
    (hnumber : number? cs = some v) : word (cs ++ rest) = .ok (v, rest) := by
  rcases takeWhile_append_stop h.shown hrest with ⟨hfront, hback⟩
  have hempty : cs.isEmpty = false := by simpa using h.ne_nil
  have htrue : cs ≠ ['t', 'r', 'u', 'e'] := by
    rintro rfl
    cases hnumber
  have hfalse : cs ≠ ['f', 'a', 'l', 's', 'e'] := by
    rintro rfl
    cases hnumber
  have hdate := date?_of_isWord h
  have htime := time?_of_isWord h
  simp [word, hfront, hback, hempty, htrue, hfalse, isDate, isMoment, hdate, htime, hnumber]

theorem isWord_signed (negative : Bool) (h : IsNumeral cs) : IsWord (signed negative cs) := by
  have hshown : forall c, c ∈ cs -> isWordChar c = true := by
    intro c hc
    rcases h.chars c hc with hdigit | rfl
    · simp [isWordChar, Char.isAlphanum, hdigit]
    · rfl
  have hminus : '-' ∉ cs := fun hmem => h.ne hmem rfl (by decide) rfl
  have hcolon : ':' ∉ cs := fun hmem => h.ne hmem rfl (by decide) rfl
  rcases h.starts with ⟨c, more, rfl, _⟩
  cases negative with
  | true =>
      constructor
      case shown => exact List.forall_mem_cons.mpr ⟨rfl, hshown⟩
      case ne_nil => exact List.cons_ne_nil _ _
      case noDate => exact hminus
      case noTime => exact List.not_mem_cons_of_ne_of_not_mem (by decide) hcolon
  | false =>
      constructor
      case shown => exact hshown
      case ne_nil => exact List.cons_ne_nil _ _
      case noDate => exact fun hmem => hminus (List.mem_of_mem_tail hmem)
      case noTime => exact hcolon

theorem isWord_toString (n : Int) : IsWord (toString n).toList := by
  rw [toList_toString_int]
  exact isWord_signed _ (isNumeral_toDigits n.natAbs)

theorem isWord_floatText {x : Binary64} (h : x.IsNumber) : IsWord (floatText x).toList := by
  cases h with
  | nan => exact (by decide : IsWord ['n', 'a', 'n'])
  | infinite negative => cases negative <;> decide
  | @finite negative units hfits hsmall =>
      rcases Nat.eq_zero_or_pos units with rfl | hpos
      · have hzero := areDigits_toDigits 0
        rw [toList_floatText_zero]
        exact isWord_signed negative (isNumeral_pointed hzero hzero)
      · rcases exists_layout negative hpos hfits hsmall with ⟨whole, fraction, htext, hlayout⟩
        rw [htext]
        exact isWord_signed negative
          (isNumeral_pointed hlayout.areWhole.toAreDigits hlayout.areDigits)

theorem isWord_flag (b : Bool) : IsWord (if b then "true" else "false").toList := by
  cases b <;> decide

theorem word_flag (b : Bool) (hrest : EndsWord rest) :
    word ((if b then "true" else "false").toList ++ rest) = .ok (.flag b, rest) := by
  rcases takeWhile_append_stop (isWord_flag b).shown hrest with ⟨hfront, hback⟩
  unfold word
  rw [hfront, hback]
  cases b <;> rfl

end Toml
end LedgerClient
