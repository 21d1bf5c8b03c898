import LedgerClient.Proofs.Number.Rounding
import Mathlib.Algebra.Order.Field.Power
import Mathlib.Algebra.Order.Ring.Rat
import Mathlib.Tactic.FieldSimp
import Mathlib.Tactic.Linarith
import Mathlib.Tactic.NormNum
import Mathlib.Tactic.Positivity
import Mathlib.Tactic.Ring

/-!
# Digits that are read back

The search for the shortest digits of a number goes from one decimal grid to the next finer one
until a point of the grid lies in the range of the number.  The grid of seventeen digits has such a
point for every number, so the digits that are found are always read as the number.  They show also
whether the number is whole: if it is, the search ends before it comes to the places behind the
point, and if it is not, every whole number lies outside its range.
-/

namespace LedgerClient

namespace Shortest

open Binary64 (powerOfTen one step IsLeast Fits Contains margin)

variable {d : Decimal} {r : Range} {units : Nat}

/-!
## Decimals as fractions
-/

/-- The number that a decimal stands for. -/
def Decimal.value (d : Decimal) : ℚ :=
  d.digits * (10 : ℚ) ^ d.exponent

theorem powerOfTen_eq (n : Nat) : powerOfTen n = 10 ^ n :=
  rfl

theorem one_pos : 0 < one := by
  decide +kernel

theorem Decimal.quarters_pos (d : Decimal) : 0 < d.quarters.2 := by
  unfold quarters
  split
  · exact Nat.one_pos
  · exact Nat.pow_pos (by decide)

theorem ten_zpow_of_nonneg {e : Int} (h : 0 ≤ e) : (10 : ℚ) ^ e = 10 ^ e.toNat := by
  rw [← zpow_natCast, Int.toNat_of_nonneg h]

theorem ten_zpow_mul_of_neg {e : Int} (h : e < 0) : (10 : ℚ) ^ e * 10 ^ (-e).toNat = 1 := by
  rw [← zpow_natCast, Int.toNat_of_nonneg (by omega), zpow_neg]
  exact mul_inv_cancel₀ (zpow_ne_zero _ (by norm_num))

theorem Decimal.quarters_eq (d : Decimal) :
    (d.quarters.1 : ℚ) = 4 * one * d.value * d.quarters.2 := by
  unfold quarters value
  split
  case isTrue h =>
    rw [ten_zpow_of_nonneg h, powerOfTen_eq]
    push_cast
    ring
  case isFalse h =>
    have hpower := ten_zpow_mul_of_neg (Int.not_le.mp h)
    rw [powerOfTen_eq]
    push_cast
    calc
      (d.digits : ℚ) * 4 * one = 4 * one * d.digits * 1 := by ring
      _ = 4 * one * (d.digits * 10 ^ d.exponent) * 10 ^ (-d.exponent).toNat := by
        rw [← hpower]
        ring

/-- A fraction, in quarters of a unit, lies in a range, on its ends only if they belong to it. -/
def Has (r : Range) (x : ℚ) : Prop :=
  r.low ≤ x ∧ x ≤ r.high ∧ (r.closed = false -> r.low < x ∧ x < r.high)

theorem contains_iff {n q : Nat} (hq : 0 < q) {x : ℚ} (hx : (n : ℚ) = x * q) :
    Contains r n q <-> Has r x := by
  have hpos : (0 : ℚ) < q := by exact_mod_cast hq
  have hle : forall a : Nat, a * q ≤ n <-> (a : ℚ) ≤ x := by
    intro a
    rw [← @Nat.cast_le ℚ, Nat.cast_mul, hx, mul_le_mul_iff_left₀ hpos]
  have hge : forall a : Nat, n ≤ a * q <-> x ≤ (a : ℚ) := by
    intro a
    rw [← @Nat.cast_le ℚ, Nat.cast_mul, hx, mul_le_mul_iff_left₀ hpos]
  unfold Contains Has
  rw [← Nat.not_le, ← Nat.not_le, hle, hge, hge, hle, not_le, not_le]

theorem holds_iff : r.holds d = true <-> Has r (4 * one * d.value) := by
  rw [← contains_iff d.quarters_pos d.quarters_eq]
  unfold Range.holds Contains
  cases r.closed with
  | true => simp
  | false =>
      simp only [Bool.false_eq_true, if_false, Bool.and_eq_true, decide_eq_true_eq, forall_const]
      omega

/-- What lies strictly between the ends of a range lies in it. -/
theorem holds_of_lt (hlow : (r.low : ℚ) < 4 * one * d.value) (hhigh : 4 * one * d.value < r.high) :
    r.holds d = true :=
  holds_iff.mpr ⟨hlow.le, hhigh.le, fun _ => ⟨hlow, hhigh⟩⟩

/-!
## The grids
-/

/-- A number of units as a fraction. -/
def valueOf (units : Nat) : ℚ :=
  units / one

theorem units_eq (units : Nat) : (units : ℚ) = one * valueOf units := by
  have hone : (one : ℚ) ≠ 0 := by exact_mod_cast one_pos.ne'
  rw [valueOf, mul_div_cancel₀ _ hone]

theorem floor_bounds {n q : Nat} (hq : 0 < q) {x : ℚ} (hx : (n : ℚ) = x * q) :
    ((n / q : Nat) : ℚ) ≤ x ∧ x < (n / q : Nat) + 1 := by
  have hpos : (0 : ℚ) < q := by exact_mod_cast hq
  constructor
  · rw [← mul_le_mul_iff_left₀ hpos, ← hx]
    exact_mod_cast Nat.div_mul_le_self n q
  · rw [← mul_lt_mul_iff_left₀ hpos, ← hx]
    exact_mod_cast Nat.lt_mul_of_div_lt (Nat.lt_succ_self _) hq

/-- A number lies between its point of a grid and the next one. -/
theorem gridFloor_bounds (units : Nat) (e : Int) :
    (gridFloor units e : ℚ) * 10 ^ e ≤ valueOf units ∧
      valueOf units < (gridFloor units e + 1) * 10 ^ e := by
  have hpower : (0 : ℚ) < 10 ^ e := by positivity
  rw [← le_div_iff₀ hpower, ← div_lt_iff₀ hpower]
  unfold gridFloor
  by_cases h : 0 ≤ e
  · rw [if_pos h, ten_zpow_of_nonneg h, powerOfTen_eq]
    apply floor_bounds (Nat.mul_pos one_pos (Nat.pow_pos (by decide)))
    rw [units_eq units]
    push_cast
    field_simp
  · have hinverse : (10 : ℚ) ^ (-e).toNat = 1 / 10 ^ e :=
      eq_one_div_of_mul_eq_one_right (ten_zpow_mul_of_neg (Int.not_le.mp h))
    rw [if_neg h, powerOfTen_eq]
    apply floor_bounds one_pos
    push_cast
    rw [units_eq units, hinverse]
    ring

theorem pow_le_of_length_toDigits (n : Nat) (hn : 0 < n) :
    10 ^ ((Nat.toDigits 10 n).length - 1) ≤ n := by
  by_contra hless
  by_cases hlength : (Nat.toDigits 10 n).length - 1 = 0
  · rw [hlength] at hless
    omega
  · have hshort := (Nat.length_toDigits_le_iff (by decide) (Nat.pos_of_ne_zero hlength)).mpr
      (Nat.lt_of_not_le hless)
    have hlong := @Nat.length_toDigits_pos 10 n
    omega

theorem ten_zpow_le_valueOf {length : Nat} (shift : Nat) (hlength : 0 < length)
    (h : 10 ^ (length - 1) * one ≤ units * powerOfTen shift) :
    (10 : ℚ) ^ ((length : Int) - 1 - shift) ≤ valueOf units := by
  have hone : (0 : ℚ) < one := by exact_mod_cast one_pos
  have hlast : (length : Int) - 1 = (length - 1 : Nat) := by omega
  have hcast : (10 : ℚ) ^ (length - 1) * one ≤ units * 10 ^ shift := by
    rw [powerOfTen_eq] at h
    exact_mod_cast h
  rw [valueOf, hlast, zpow_sub₀ (by norm_num), zpow_natCast, zpow_natCast,
    div_le_div_iff₀ (by positivity) hone]
  exact hcast

/-- A number is at least as large as a one at the place of its first digit. -/
theorem ten_zpow_leadingExponent_le (hpos : 0 < units) :
    (10 : ℚ) ^ leadingExponent units ≤ valueOf units := by
  unfold leadingExponent
  split
  case isTrue hlarge =>
    have hbound := pow_le_of_length_toDigits (units / one) (Nat.div_pos hlarge one_pos)
    rw [Nat.le_div_iff_mul_le one_pos] at hbound
    have hvalue := ten_zpow_le_valueOf 0 Nat.length_toDigits_pos
      (hbound.trans_eq (Nat.mul_one units).symm)
    rwa [Nat.cast_zero, sub_zero] at hvalue
  case isFalse hsmall =>
    have hscaled : one ≤ units * powerOfTen 330 :=
      (by decide +kernel : one ≤ powerOfTen 330).trans (Nat.le_mul_of_pos_left _ hpos)
    have hbound := pow_le_of_length_toDigits (units * powerOfTen 330 / one)
      (Nat.div_pos hscaled one_pos)
    rw [Nat.le_div_iff_mul_le one_pos] at hbound
    have hvalue := ten_zpow_le_valueOf 330 Nat.length_toDigits_pos hbound
    dsimp only
    convert hvalue using 2
    omega

theorem le_leadingExponent (units : Nat) : -330 ≤ leadingExponent units := by
  unfold leadingExponent
  split
  case isTrue =>
    have hlength := @Nat.length_toDigits_pos 10 (units / one)
    omega
  case isFalse =>
    have hlength := @Nat.length_toDigits_pos 10 (units * powerOfTen 330 / one)
    dsimp only
    omega

/-!
## The search
-/

theorem gap_le (hpos : 0 < units) (hfits : Fits units) : 2 ^ step units ≤ units := by
  rw [← Nat.one_shiftLeft]
  exact Nat.le_of_dvd hpos hfits

/-- Seventeen digits are enough: their grid is finer than the range is wide. -/
theorem seventeenth_step_lt (hpos : 0 < units) :
    4 * one * (10 : ℚ) ^ (leadingExponent units - 16) < margin units + 2 * 2 ^ step units := by
  have hscaled : (10 : ℚ) ^ (leadingExponent units - 16) * 10 ^ 16 ≤ valueOf units := by
    have hlead : (10 : ℚ) ^ (leadingExponent units - 16) * 10 ^ 16 =
        10 ^ leadingExponent units := by
      rw [← zpow_natCast, ← zpow_add₀ (by norm_num)]
      norm_num
    rw [hlead]
    exact ten_zpow_leadingExponent_le hpos
  have hone : (0 : ℚ) < one := by exact_mod_cast one_pos
  have hunits := units_eq units
  have hstep : 4 * one * (10 : ℚ) ^ (leadingExponent units - 16) * 10 ^ 16 ≤ 4 * units := by
    rw [hunits]
    calc
      4 * one * (10 : ℚ) ^ (leadingExponent units - 16) * 10 ^ 16 =
          4 * one * ((10 : ℚ) ^ (leadingExponent units - 16) * 10 ^ 16) := by ring
      _ ≤ 4 * one * valueOf units := mul_le_mul_of_nonneg_left hscaled (by linarith)
      _ = 4 * (one * valueOf units) := by ring
  have hgap : (0 : ℚ) < 2 ^ step units := by positivity
  unfold margin
  by_cases hleast : IsLeast units
  · rw [if_pos hleast]
    have hpower : (units : ℚ) = 2 ^ 52 * 2 ^ step units := by
      rw [← pow_add]
      exact_mod_cast hleast.right
    rw [hpower] at hstep
    push_cast
    linarith
  · rw [if_neg hleast]
    have hpower : (units : ℚ) < 2 ^ 53 * 2 ^ step units := by
      rw [← pow_add]
      exact_mod_cast Binary64.lt_of_step units
    push_cast
    linarith

theorem low_cast (hpos : 0 < units) (hfits : Fits units) :
    ((Range.ofUnits units).low : ℚ) = 4 * units - margin units := by
  have hgap := gap_le hpos hfits
  have hmargin := Binary64.margin_le units
  rw [Binary64.low_ofUnits, Nat.cast_sub (by omega)]
  push_cast
  ring

theorem high_cast (units : Nat) :
    ((Range.ofUnits units).high : ℚ) = 4 * units + 2 * 2 ^ step units := by
  rw [Binary64.high_ofUnits]
  push_cast
  ring

theorem margin_pos (units : Nat) : 0 < margin units := by
  have hgap := Nat.two_pow_pos (step units)
  unfold margin
  split <;> omega

theorem onGrid?_eq_none {e : Int} (h : onGrid? units r e = none) :
    r.holds ⟨gridFloor units e, e⟩ = false ∧ r.holds ⟨gridFloor units e + 1, e⟩ = false := by
  unfold onGrid? at h
  dsimp only at h
  split at h
  case h_1 hbelow habove => exact ⟨hbelow, habove⟩
  case h_2 => cases h
  case h_3 => cases h
  case h_4 =>
    split at h
    · cases h
    · cases h

theorem onGrid?_eq_some {e : Int} (h : onGrid? units r e = some d) :
    r.holds d = true ∧ d.exponent = e := by
  unfold onGrid? at h
  dsimp only at h
  split at h
  case h_1 => cases h
  case h_2 hbelow _ =>
    cases h
    exact ⟨hbelow, rfl⟩
  case h_3 _ habove =>
    cases h
    exact ⟨habove, rfl⟩
  case h_4 hbelow habove =>
    split at h
    · cases h
      exact ⟨hbelow, rfl⟩
    · cases h
      exact ⟨habove, rfl⟩

theorem onGrid?_seventeenth (hpos : 0 < units) (hfits : Fits units) :
    onGrid? units (Range.ofUnits units) (leadingExponent units - 16) ≠ none := by
  intro hnone
  rcases onGrid?_eq_none hnone with ⟨hbelow, habove⟩
  have hstep := seventeenth_step_lt hpos
  have hunits := units_eq units
  have hone : (0 : ℚ) < one := by exact_mod_cast one_pos
  have hmargin : (0 : ℚ) < margin units := by exact_mod_cast margin_pos units
  have hgap : (0 : ℚ) < 2 ^ step units := by positivity
  rcases gridFloor_bounds units (leadingExponent units - 16) with ⟨hfloor, hnext⟩
  generalize leadingExponent units - 16 = e at *
  have hlow : 4 * one * ((gridFloor units e : ℚ) * 10 ^ e) ≤ 4 * units := by
    rw [hunits, mul_assoc]
    exact mul_le_mul_of_nonneg_left (mul_le_mul_of_nonneg_left hfloor hone.le) (by norm_num)
  have hhigh : 4 * units < 4 * one * (((gridFloor units e : ℚ) + 1) * 10 ^ e) := by
    rw [hunits, mul_assoc]
    exact mul_lt_mul_of_pos_left (mul_lt_mul_of_pos_left hnext hone) (by norm_num)
  by_cases hnear : 4 * (units : ℚ) - margin units < 4 * one * ((gridFloor units e : ℚ) * 10 ^ e)
  · -- The point below is near enough.
    rw [holds_of_lt] at hbelow
    · cases hbelow
    · rw [low_cast hpos hfits]
      exact hnear
    · rw [high_cast]
      show 4 * one * ((gridFloor units e : ℚ) * 10 ^ e) < _
      linarith
  · rw [holds_of_lt] at habove
    · cases habove
    · rw [low_cast hpos hfits]
      show _ < 4 * one * (((gridFloor units e + 1 : Nat) : ℚ) * 10 ^ e)
      push_cast
      linarith
    · rw [high_cast]
      show 4 * one * (((gridFloor units e + 1 : Nat) : ℚ) * 10 ^ e) < _
      push_cast
      linarith

/-- A search that comes to a grid with a point in the range ends there at the latest. -/
theorem search_finds {lead : Int} {last tries count : Nat} (hcount : count ≤ last)
    (hlast : last < count + tries) (hhit : onGrid? units r (lead - last) ≠ none) :
    r.holds (search units r lead tries count) = true ∧
      lead - last ≤ (search units r lead tries count).exponent := by
  induction tries generalizing count with
  | zero => omega
  | succ tries ih =>
      rw [search]
      cases hgrid : onGrid? units r (lead - count) with
      | some d =>
          rcases onGrid?_eq_some hgrid with ⟨hholds, hexponent⟩
          refine ⟨hholds, ?_⟩
          rw [hexponent]
          omega
      | none =>
          have hmore : count ≠ last := by
            rintro rfl
            exact hhit hgrid
          exact ih (by omega) (by omega)

theorem ofUnits_finds (hpos : 0 < units) (hfits : Fits units) :
    (Range.ofUnits units).holds (ofUnits units) = true ∧
      leadingExponent units - 16 ≤ (ofUnits units).exponent :=
  search_finds (Nat.zero_le 16) (by decide) (onGrid?_seventeenth hpos hfits)

/-- The digits of a whole number end before the point. -/
theorem exponent_ofUnits_of_whole (hpos : 0 < units) (hfits : Fits units)
    (hwhole : units % one = 0) : 0 ≤ (ofUnits units).exponent := by
  have hlead : 0 ≤ leadingExponent units := by
    have hlength := @Nat.length_toDigits_pos 10 (units / one)
    have hlarge : one ≤ units := Nat.le_of_dvd hpos (Nat.dvd_of_mod_eq_zero hwhole)
    rw [leadingExponent, if_pos hlarge]
    omega
  by_cases hfew : leadingExponent units ≤ 16
  · have hplaces : ((leadingExponent units).toNat : Int) = leadingExponent units :=
      Int.toNat_of_nonneg hlead
    -- The number itself is a point of the grid of whole numbers.
    have hgrid : onGrid? units (Range.ofUnits units)
        (leadingExponent units - (leadingExponent units).toNat) ≠ none := by
      rw [hplaces, Int.sub_self]
      intro hnone
      have hvalue : 4 * one * (Decimal.value ⟨gridFloor units 0, 0⟩) = 4 * units := by
        have hfloor : gridFloor units 0 * one = units := by
          have hdiv : gridFloor units 0 = units / one := by
            rw [gridFloor, if_pos (le_refl 0), powerOfTen_eq, Int.toNat_zero, Nat.pow_zero,
              Nat.mul_one]
          rw [hdiv]
          exact Nat.div_mul_cancel (Nat.dvd_of_mod_eq_zero hwhole)
        have hcast : (gridFloor units 0 : ℚ) * one = units := by exact_mod_cast hfloor
        rw [Decimal.value, zpow_zero, mul_one, ← hcast]
        ring
      have hmargin : (0 : ℚ) < margin units := by exact_mod_cast margin_pos units
      have hgap : (0 : ℚ) < 2 ^ step units := by positivity
      have hbelow := (onGrid?_eq_none hnone).left
      rw [holds_of_lt] at hbelow
      · cases hbelow
      · rw [hvalue, low_cast hpos hfits]
        linarith
      · rw [hvalue, high_cast]
        linarith
    have hfound := (search_finds (Nat.zero_le _) (by omega : _ < 0 + 17) hgrid).right
    rw [hplaces, Int.sub_self] at hfound
    exact hfound
  · have hfound := (ofUnits_finds hpos hfits).right
    omega

/-!
## Zeros at the end
-/

theorem value_trimDigits (fuel : Nat) (d : Decimal) : (trimDigits fuel d).value = d.value := by
  induction fuel generalizing d with
  | zero => rfl
  | succ fuel ih =>
      rw [trimDigits]
      split
      case isTrue h =>
        have hdigits : ((d.digits / 10 : Nat) : ℚ) * 10 = d.digits := by
          exact_mod_cast Nat.div_mul_cancel (Nat.dvd_of_mod_eq_zero h.left)
        rw [ih, Decimal.value, Decimal.value, zpow_add₀ (by norm_num), zpow_one, ← hdigits]
        ring
      case isFalse => rfl

theorem exponent_le_trimDigits (fuel : Nat) (d : Decimal) :
    d.exponent ≤ (trimDigits fuel d).exponent := by
  induction fuel generalizing d with
  | zero => exact Int.le_refl _
  | succ fuel ih =>
      rw [trimDigits]
      split
      case isTrue => exact Int.le_trans (by dsimp only; omega) (ih _)
      case isFalse => exact Int.le_refl _

/-- The decimal whose digits are written for a number. -/
def shortest (units : Nat) : Decimal :=
  trimDigits 400 (ofUnits units)

theorem shortest_has (hpos : 0 < units) (hfits : Fits units) :
    Has (Range.ofUnits units) (4 * one * (shortest units).value) := by
  rw [shortest, value_trimDigits]
  exact holds_iff.mp (ofUnits_finds hpos hfits).left

theorem le_exponent_shortest (hpos : 0 < units) (hfits : Fits units) :
    -346 ≤ (shortest units).exponent := by
  have hfound := (ofUnits_finds hpos hfits).right
  have htrimmed := exponent_le_trimDigits 400 (ofUnits units)
  have hlead := le_leadingExponent units
  unfold shortest
  omega

theorem value_shortest_pos (hpos : 0 < units) (hfits : Fits units) :
    0 < (shortest units).value := by
  have hlow := (shortest_has hpos hfits).left
  have hone : (0 : ℚ) < one := by exact_mod_cast one_pos
  have hmargin : (margin units : ℚ) ≤ 2 * units := by
    have hgap := gap_le hpos hfits
    have hmost := Binary64.margin_le units
    exact_mod_cast (by omega : margin units ≤ 2 * units)
  have hunits : (0 : ℚ) < units := by exact_mod_cast hpos
  rw [low_cast hpos hfits] at hlow
  by_contra hnegative
  have hproduct : 4 * one * (shortest units).value ≤ 0 :=
    mul_nonpos_of_nonneg_of_nonpos (by linarith) (not_lt.mp hnegative)
  linarith

theorem value_shortest_lt (hpos : 0 < units) (hfits : Fits units)
    (hsmall : units < Binary64.overflow) : (shortest units).value < powerOfTen 309 := by
  have hhigh := (shortest_has hpos hfits).right.left
  have hone : (0 : ℚ) < one := by exact_mod_cast one_pos
  have hgap : ((2 ^ step units : Nat) : ℚ) ≤ units := by exact_mod_cast gap_le hpos hfits
  have hbound : 6 * (units : ℚ) < 4 * one * powerOfTen 309 := by
    have hlimit : 6 * Binary64.overflow ≤ 4 * one * powerOfTen 309 := by decide +kernel
    exact_mod_cast (by omega : 6 * units < 4 * one * powerOfTen 309)
  rw [high_cast] at hhigh
  push_cast at hgap
  by_contra hlarge
  have hproduct : 4 * one * (powerOfTen 309 : ℚ) ≤ 4 * one * (shortest units).value :=
    mul_le_mul_of_nonneg_left (not_lt.mp hlarge) (by linarith)
  linarith

theorem eq_of_near {gap a b : Nat} (hgap : 0 < gap) (ha : gap ∣ a) (hb : gap ∣ b)
    (hab : 4 * a ≤ 4 * b + 2 * gap) (hba : 4 * b ≤ 4 * a + 2 * gap) : a = b := by
  rcases ha with ⟨x, hx⟩
  rcases hb with ⟨y, hy⟩
  have hle : forall {x y : Nat}, 4 * (gap * x) ≤ 4 * (gap * y) + 2 * gap -> x ≤ y := by
    intro x y h
    by_contra hmore
    have hnext : gap * (y + 1) ≤ gap * x := Nat.mul_le_mul_left gap (by omega)
    rw [Nat.mul_add, Nat.mul_one] at hnext
    omega
  rw [hx, hy] at hab hba
  rw [hx, hy, Nat.le_antisymm (hle hab) (hle hba)]

theorem exists_one_eq_two_pow : exists bits, one = 2 ^ bits :=
  ⟨1074, by rw [← Nat.one_shiftLeft]; rfl⟩

theorem whole_or_gap_dvd_one (hfits : Fits units) : units % one = 0 ∨ 2 ^ step units ∣ one := by
  rcases exists_one_eq_two_pow with ⟨bits, hone⟩
  by_cases hk : step units ≤ bits
  · right
    rw [hone]
    exact Nat.pow_dvd_pow 2 hk
  · left
    have hgap : 2 ^ step units ∣ units := by
      rw [← Nat.one_shiftLeft]
      exact hfits
    apply Nat.mod_eq_zero_of_dvd
    rw [hone]
    exact Nat.dvd_trans (Nat.pow_dvd_pow 2 (by omega)) hgap

/-- A number that is not whole is farther from all whole numbers than its range reaches. -/
theorem exponent_shortest_neg (hpos : 0 < units) (hfits : Fits units)
    (hpart : units % one ≠ 0) : (shortest units).exponent < 0 := by
  by_contra hnonneg
  have hgap : 2 ^ step units ∣ units := by
    rw [← Nat.one_shiftLeft]
    exact hfits
  have hvalue : (shortest units).value =
      ((shortest units).digits * 10 ^ (shortest units).exponent.toNat : Nat) := by
    rw [Decimal.value, ten_zpow_of_nonneg (Int.not_lt.mp hnonneg)]
    push_cast
    rfl
  generalize (shortest units).digits * 10 ^ (shortest units).exponent.toNat = whole at hvalue
  rcases shortest_has hpos hfits with ⟨hlow, hhigh, _⟩
  have hmargin : (margin units : ℚ) ≤ 2 * 2 ^ step units := by
    exact_mod_cast Binary64.margin_le units
  rw [low_cast hpos hfits, hvalue] at hlow
  rw [high_cast, hvalue] at hhigh
  rcases whole_or_gap_dvd_one hfits with hwhole | hone
  · exact hpart hwhole
  · have hsame : one * whole = units := by
      apply eq_of_near (Nat.two_pow_pos (step units)) (hone.mul_right whole) hgap
      · have hcast : 4 * ((one : ℚ) * whole) ≤ 4 * units + 2 * 2 ^ step units := by linarith
        exact_mod_cast hcast
      · have hcast : 4 * (units : ℚ) ≤ 4 * (one * whole) + 2 * 2 ^ step units := by linarith
        exact_mod_cast hcast
    apply hpart
    rw [← hsame]
    exact Nat.mul_mod_right one whole

theorem exponent_shortest_nonneg (hpos : 0 < units) (hfits : Fits units)
    (hwhole : units % one = 0) : 0 ≤ (shortest units).exponent :=
  Int.le_trans (exponent_ofUnits_of_whole hpos hfits hwhole) (exponent_le_trimDigits 400 _)

end Shortest
end LedgerClient
