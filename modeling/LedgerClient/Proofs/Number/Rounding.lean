import LedgerClient.Number.Shortest
import LedgerClient.Proofs.Number.Shares
import Mathlib.Tactic.Linarith
import Mathlib.Tactic.Ring

/-!
# Numbers that are read back

A number is the nearest one to everything in its range: to what lies at most half a step above it,
and half a step below it or, where the steps get smaller, a quarter.  The ends of the range belong
to it if the number is even.  So whatever is written within the range is read as the number, and
whatever is rounded has no more bits than a number keeps.
-/

namespace LedgerClient

/-- A quotient is rounded to the number that it is at most a half away from; of two such numbers, to
the even one. -/
theorem roundHalfEven_eq {n d m : Nat} (hlow : 2 * (m * d) ≤ 2 * n + d)
    (hhigh : 2 * n ≤ 2 * (m * d) + d)
    (hnear : m % 2 = 0 ∨ 2 * (m * d) < 2 * n + d ∧ 2 * n < 2 * (m * d) + d) (hd : 0 < d) :
    roundHalfEven n d = m := by
  have hsplit := Nat.div_add_mod n d
  have hrest := Nat.mod_lt n hd
  have hleast : n / d ≤ m := by
    by_contra hless
    have hmul : (m + 1) * d ≤ n / d * d := Nat.mul_le_mul_right d (by omega)
    rw [Nat.add_mul, Nat.one_mul, Nat.mul_comm (n / d) d] at hmul
    omega
  have hmost : m ≤ n / d + 1 := by
    by_contra hmore
    have hmul : (n / d + 2) * d ≤ m * d := Nat.mul_le_mul_right d (by omega)
    rw [Nat.add_mul, Nat.mul_comm (n / d) d] at hmul
    omega
  unfold roundHalfEven
  dsimp only
  rcases (by omega : m = n / d ∨ m = n / d + 1) with hm | hm
  · rw [hm, Nat.mul_comm (n / d) d] at hnear hhigh
    split
    · exact hm.symm
    · split <;> omega
  · rw [hm, Nat.add_mul, Nat.one_mul, Nat.mul_comm (n / d) d] at hnear hlow
    split
    · omega
    · split <;> omega

namespace Binary64

open Shortest (Range)

/-- A number that is written down: it has no more significant bits than are kept, and is not too
large. -/
inductive IsNumber : Binary64 -> Prop where
  | nan : IsNumber nan
  | infinite (negative : Bool) : IsNumber (infinite negative)
  | finite (negative : Bool) {units : Nat} :
      Fits units -> units < overflow -> IsNumber (finite negative units)

variable {units n d : Nat}

theorem step_lt_iff {k : Nat} (hk : 0 < k) : step units < k <-> units < 2 ^ (52 + k) := by
  unfold step
  constructor
  · intro h
    by_cases hzero : units = 0
    · rw [hzero]
      exact Nat.two_pow_pos _
    · exact (Nat.log2_lt hzero).mp (by omega)
  · intro h
    by_cases hzero : units = 0
    · rw [hzero]
      exact hk
    · have hlog := (Nat.log2_lt hzero).mpr h
      omega

theorem step_eq {k : Nat} (hlow : k = 0 ∨ 2 ^ (52 + k) ≤ units) (hhigh : units < 2 ^ (53 + k)) :
    step units = k := by
  have hless : step units < k + 1 := by
    rw [step_lt_iff (Nat.succ_pos k)]
    exact Nat.lt_of_lt_of_eq hhigh (by rw [show 52 + (k + 1) = 53 + k by omega])
  rcases hlow with hzero | hlow
  · omega
  · by_cases hk : 0 < k
    · have hmore : ¬step units < k := by
        rw [step_lt_iff hk]
        exact Nat.not_lt.mpr hlow
      omega
    · omega

theorem lt_of_step (units : Nat) : units < 2 ^ (53 + step units) := by
  have h := (step_lt_iff (Nat.succ_pos (step units))).mp (Nat.lt_succ_self (step units))
  exact Nat.lt_of_lt_of_eq h (by rw [show 52 + (step units + 1) = 53 + step units by omega])

theorem le_of_step (h : 0 < step units) : 2 ^ (52 + step units) ≤ units :=
  Nat.not_lt.mp ((step_lt_iff h).not.mp (Nat.lt_irrefl _))

/-- A quotient lies in a range, on its ends only if they belong to it. -/
def Contains (r : Range) (n q : Nat) : Prop :=
  r.low * q ≤ n ∧ n ≤ r.high * q ∧ (r.closed = false -> r.low * q < n ∧ n < r.high * q)

/-- A number as a whole count of steps. -/
theorem exists_count (h : Fits units) : exists m, units = m * 2 ^ step units := by
  rcases h with ⟨m, hm⟩
  refine ⟨m, ?_⟩
  rw [Nat.one_shiftLeft, Nat.mul_comm] at hm
  exact hm

/-- Whether the neighbour below is nearer than the one above. -/
def IsLeast (units : Nat) : Prop :=
  0 < step units ∧ units = 2 ^ (52 + step units)

instance (units : Nat) : Decidable (IsLeast units) :=
  inferInstanceAs (Decidable (0 < step units ∧ units = 2 ^ (52 + step units)))

/-- How far the range of a number reaches down, in quarters of a unit. -/
def margin (units : Nat) : Nat :=
  if IsLeast units then 2 ^ step units else 2 * 2 ^ step units

theorem low_ofUnits (units : Nat) : (Range.ofUnits units).low = 4 * units - margin units := by
  have hleast : (0 < step units && units == 2 ^ (52 + step units)) = true <-> IsLeast units := by
    simp [IsLeast]
  simp only [Range.ofUnits, margin, Nat.one_shiftLeft]
  by_cases h : IsLeast units
  · rw [if_pos h, if_pos (hleast.mpr h)]
  · rw [if_neg h, if_neg (hleast.not.mpr h)]

theorem high_ofUnits (units : Nat) :
    (Range.ofUnits units).high = 4 * units + 2 * 2 ^ step units := by
  simp only [Range.ofUnits, Nat.one_shiftLeft]

theorem closed_ofUnits {m : Nat} (hm : units = m * 2 ^ step units) :
    (Range.ofUnits units).closed = (m % 2 == 0) := by
  have hdiv : units / 2 ^ step units = m := by
    conv => lhs; arg 1; rw [hm]
    exact Nat.mul_div_cancel m (Nat.two_pow_pos _)
  simp only [Range.ofUnits, Nat.one_shiftLeft, hdiv]

theorem margin_le (units : Nat) : margin units ≤ 2 * 2 ^ step units := by
  unfold margin
  split <;> omega

theorem Contains.low_le (h : Contains (Range.ofUnits units) n d) :
    4 * (units * d) ≤ n + margin units * d := by
  have hlow := h.left
  rw [low_ofUnits, Nat.sub_mul, Nat.mul_assoc] at hlow
  omega

theorem Contains.le_high (h : Contains (Range.ofUnits units) n d) :
    n ≤ 4 * (units * d) + 2 * (2 ^ step units * d) := by
  have hhigh := h.right.left
  rw [high_ofUnits, Nat.add_mul, Nat.mul_assoc, Nat.mul_assoc] at hhigh
  exact hhigh

theorem Contains.strict {m : Nat} (hm : units = m * 2 ^ step units)
    (h : Contains (Range.ofUnits units) n d) (hodd : m % 2 = 1) :
    4 * (units * d) < n + margin units * d ∧ n < 4 * (units * d) + 2 * (2 ^ step units * d) := by
  have hopen : (Range.ofUnits units).closed = false := by
    rw [closed_ofUnits hm, hodd]
    rfl
  have hstrict := h.right.right hopen
  rw [low_ofUnits, high_ofUnits, Nat.sub_mul, Nat.add_mul, Nat.mul_assoc, Nat.mul_assoc] at hstrict
  omega

/-- A quotient whose whole part has the step of the number is rounded on the grid of the number. -/
theorem roundUnits_of_same_step {m : Nat} (hm : units = m * 2 ^ step units) (hd : 0 < d)
    (hstep : step (n / d) = step units) (h : Contains (Range.ofUnits units) (4 * n) d) :
    roundUnits n d = units := by
  have hmargin : margin units * d ≤ 2 * (2 ^ step units * d) := by
    rw [← Nat.mul_assoc]
    exact Nat.mul_le_mul_right d (margin_le units)
  have hproduct : m * (d * 2 ^ step units) = units * d := by
    conv => rhs; rw [hm]
    ring
  have hlow := h.low_le
  have hhigh := h.le_high
  have hround : roundHalfEven n (d * 2 ^ step units) = m := by
    apply roundHalfEven_eq
    · rw [hproduct, Nat.mul_comm d]
      omega
    · rw [hproduct, Nat.mul_comm d]
      omega
    · rcases Nat.mod_two_eq_zero_or_one m with heven | hodd
      · exact .inl heven
      · have hstrict := h.strict hm hodd
        rw [hproduct, Nat.mul_comm d]
        right
        omega
    · exact Nat.mul_pos hd (Nat.two_pow_pos _)
  unfold roundUnits
  rw [hstep, Nat.shiftLeft_eq, Nat.shiftLeft_eq, hround]
  exact hm.symm

/-- The neighbours below the least number of a step are half as far apart. -/
theorem roundUnits_below_least {k : Nat} (hunits : units = 2 ^ (53 + k)) (hd : 0 < d)
    (hless : n < units * d) (hlow : 4 * (units * d) ≤ 4 * n + 2 * (2 ^ k * d)) :
    roundUnits n d = units := by
  have hpower : units = 2 ^ 53 * 2 ^ k := by rw [hunits, Nat.pow_add]
  have hhalf : 2 ^ (52 + k) = 2 ^ 52 * 2 ^ k := Nat.pow_add 2 52 k
  have hproduct : 2 ^ 53 * (d * 2 ^ k) = units * d := by
    rw [hpower]
    ring
  have hgap : 2 ^ k * d ≤ 2 ^ (52 + k) * d :=
    Nat.mul_le_mul_right d (Nat.pow_le_pow_right (by decide) (by omega))
  have hdouble : units * d = 2 * (2 ^ (52 + k) * d) := by
    rw [hpower, hhalf]
    ring
  have hstep : step (n / d) = k := by
    apply step_eq
    · right
      rw [Nat.le_div_iff_mul_le hd]
      omega
    · rw [← hunits]
      exact Nat.div_lt_of_lt_mul (by rw [Nat.mul_comm]; exact hless)
  have hround : roundHalfEven n (d * 2 ^ k) = 2 ^ 53 := by
    apply roundHalfEven_eq
    · rw [hproduct, Nat.mul_comm d]
      omega
    · rw [hproduct]
      omega
    · exact .inl (by decide)
    · exact Nat.mul_pos hd (Nat.two_pow_pos _)
  unfold roundUnits
  rw [hstep, Nat.shiftLeft_eq, Nat.shiftLeft_eq, hround]
  exact hpower.symm

/-- What lies in the range of a number is rounded to that number. -/
theorem roundUnits_eq (hfits : Fits units) (hd : 0 < d)
    (h : Contains (Range.ofUnits units) (4 * n) d) : roundUnits n d = units := by
  rcases exists_count hfits with ⟨m, hm⟩
  have hhigh := h.le_high
  have hlow := h.low_le
  -- The range ends below the next power of two.
  have hceiling : units + 2 ^ step units ≤ 2 ^ (53 + step units) := by
    have hcount : m < 2 ^ 53 := by
      apply Nat.lt_of_mul_lt_mul_right (a := 2 ^ step units)
      rw [← hm, ← Nat.pow_add]
      exact lt_of_step units
    calc
      units + 2 ^ step units = (m + 1) * 2 ^ step units := by
        rw [Nat.add_mul, Nat.one_mul, ← hm]
      _ ≤ 2 ^ 53 * 2 ^ step units := Nat.mul_le_mul_right _ hcount
      _ = 2 ^ (53 + step units) := (Nat.pow_add 2 53 _).symm
  have hbelow : n / d < 2 ^ (53 + step units) := by
    apply Nat.lt_of_lt_of_le _ hceiling
    rw [Nat.div_lt_iff_lt_mul hd, Nat.add_mul]
    have hpositive : 0 < 2 ^ step units * d := Nat.mul_pos (Nat.two_pow_pos _) hd
    omega
  by_cases hsame : step units = 0 ∨ 2 ^ (52 + step units) ≤ n / d
  · exact roundUnits_of_same_step hm hd (step_eq hsame hbelow) h
  · rw [not_or, Nat.not_le, Nat.div_lt_iff_lt_mul hd] at hsame
    have hk : 0 < step units := Nat.pos_of_ne_zero hsame.left
    have hpower : 2 ^ (52 + step units) = 2 ^ 52 * 2 ^ step units := Nat.pow_add 2 52 _
    have hmargin : margin units * d ≤ 2 * (2 ^ step units * d) := by
      rw [← Nat.mul_assoc]
      exact Nat.mul_le_mul_right d (margin_le units)
    -- Any other number of this step is more than half a step above the power of two.
    have hleast : units = 2 ^ (52 + step units) := by
      by_contra hmore
      have hcount : 2 ^ 52 < m := by
        apply Nat.lt_of_mul_lt_mul_right (a := 2 ^ step units)
        rw [← hm, ← hpower]
        exact Nat.lt_of_le_of_ne (le_of_step hk) (Ne.symm hmore)
      have hnext : 2 ^ (52 + step units) + 2 ^ step units ≤ units := by
        calc
          2 ^ (52 + step units) + 2 ^ step units = (2 ^ 52 + 1) * 2 ^ step units := by
            rw [Nat.add_mul, Nat.one_mul, hpower]
          _ ≤ m * 2 ^ step units := Nat.mul_le_mul_right _ hcount
          _ = units := hm.symm
      have hscaled := Nat.mul_le_mul_right d hnext
      rw [Nat.add_mul] at hscaled
      omega
    have hnearer : margin units = 2 ^ step units := if_pos ⟨hk, hleast⟩
    rcases Nat.exists_eq_succ_of_ne_zero hsame.left with ⟨k, hpred⟩
    apply roundUnits_below_least (k := k) (by rw [hleast, hpred]; congr 1; omega) hd
    · rw [← hleast] at hsame
      exact hsame.right
    · rw [hnearer, hpred, Nat.pow_succ, Nat.mul_comm (2 ^ k) 2, Nat.mul_assoc] at hlow
      exact hlow

theorem ofUnits_eq (negative : Bool) (hfits : Fits units) (hsmall : units < overflow) (hd : 0 < d)
    (h : Contains (Range.ofUnits units) (4 * n) d) :
    ofUnits negative n d = finite negative units := by
  unfold ofUnits
  rw [roundUnits_eq hfits hd h]
  exact if_neg (Nat.not_le_of_lt hsmall)

/-!
## Results of rounding
-/

theorem fits_of_step_le {k : Nat} (hk : 2 ^ k ∣ units) (hstep : step units ≤ k) : Fits units := by
  unfold Fits
  rw [Nat.one_shiftLeft]
  exact Nat.dvd_trans (Nat.pow_dvd_pow 2 hstep) hk

theorem step_two_pow_le (k : Nat) : step (2 ^ k) ≤ k := by
  rw [step, Nat.log2_two_pow]
  exact Nat.sub_le k 52

/-- No more bits are left after rounding than are kept. -/
theorem fits_roundUnits (n : Nat) (hd : 0 < d) : Fits (roundUnits n d) := by
  have hsmall := lt_of_step (n / d)
  unfold roundUnits
  dsimp only
  generalize step (n / d) = k at *
  have hcount : roundHalfEven n (d <<< k) ≤ 2 ^ 53 := by
    apply roundHalfEven_le
    rw [Nat.div_lt_iff_lt_mul hd, Nat.pow_add] at hsmall
    rw [Nat.shiftLeft_eq, Nat.mul_comm d, ← Nat.mul_assoc]
    exact Nat.le_of_lt hsmall
  rw [Nat.shiftLeft_eq]
  rcases Nat.lt_or_eq_of_le hcount with hless | hfull
  · have hbound : roundHalfEven n (d <<< k) * 2 ^ k < 2 ^ (52 + (k + 1)) := by
      rw [show 52 + (k + 1) = 53 + k by omega, Nat.pow_add]
      exact Nat.mul_lt_mul_of_pos_right hless (Nat.two_pow_pos k)
    exact fits_of_step_le (Nat.dvd_mul_left _ _)
      (Nat.le_of_lt_succ ((step_lt_iff (Nat.succ_pos k)).mpr hbound))
  · rw [hfull, ← Nat.pow_add]
    exact fits_of_step_le (Nat.dvd_refl _) (step_two_pow_le _)

/-- Whatever is rounded is a number. -/
theorem isNumber_ofUnits (negative : Bool) (n : Nat) (hd : 0 < d) :
    (ofUnits negative n d).IsNumber := by
  unfold ofUnits
  dsimp only
  split
  case isTrue => exact .infinite negative
  case isFalse hsmall => exact .finite negative (fits_roundUnits n hd) (Nat.lt_of_not_le hsmall)

theorem isNumber_ofRatio (n : Nat) (hd : 0 < d) : (ofRatio n d).IsNumber := by
  unfold ofRatio
  exact isNumber_ofUnits false (n * one) hd

end Binary64
end LedgerClient
