import LedgerClient.Number.Binary64
import LedgerClient.Time.Instant

/-!
# Shares of spans of time

Rounding never goes beyond a number that can be written down.  So a proper share of a span
that lies within the range of a timer is a span again.
-/

namespace LedgerClient

/-- Rounding a quotient stays below every whole number that the quotient does not exceed. -/
theorem roundHalfEven_le {n d bound : Nat} (h : n ≤ bound * d) : roundHalfEven n d ≤ bound := by
  have hsum := Nat.div_add_mod n d
  have hquotient : n / d ≤ bound := Nat.div_le_of_le_mul (by rw [Nat.mul_comm]; exact h)
  by_cases hrest : n % d = 0
  · have hexact : roundHalfEven n d = n / d := by
      unfold roundHalfEven
      rw [hrest]
      by_cases hd : d = 0
      · simp [hd]
      · simp [Nat.pos_of_ne_zero hd]
    rw [hexact]
    exact hquotient
  · -- With a rest the quotient is strictly smaller, so rounding up is still within the bound.
    have hstrict : n / d < bound := by
      apply Nat.lt_of_not_le
      intro hle
      have hmul := Nat.mul_le_mul_right d hle
      rw [Nat.mul_comm (n / d) d] at hmul
      omega
    unfold roundHalfEven
    dsimp only
    split
    · omega
    · split <;> omega

namespace Binary64

theorem step_mono {a b : Nat} (h : a ≤ b) : step a ≤ step b := by
  have hlog : a.log2 ≤ b.log2 := by
    by_cases hzero : a = 0
    · rw [hzero]
      exact Nat.zero_le _
    · have hb : b ≠ 0 := by omega
      rw [Nat.le_log2 hb]
      exact Nat.le_trans ((Nat.le_log2 hzero).mp (Nat.le_refl _)) h
  unfold step
  omega

/-- A number fits if it has no more significant bits than are kept. -/
def Fits (units : Nat) : Prop :=
  1 <<< step units ∣ units

instance (units : Nat) : Decidable (Fits units) :=
  inferInstanceAs (Decidable (1 <<< step units ∣ units))

theorem roundUnits_le {n d bound : Nat} (hfits : Fits bound) (h : n ≤ bound * d) :
    roundUnits n d ≤ bound := by
  have hquotient : n / d ≤ bound := Nat.div_le_of_le_mul (by rw [Nat.mul_comm]; exact h)
  have hstep := step_mono hquotient
  have hdivides : 2 ^ step (n / d) ∣ bound := by
    apply Nat.dvd_trans (Nat.pow_dvd_pow 2 hstep)
    rw [← Nat.one_shiftLeft]
    exact hfits
  rcases hdivides with ⟨t, ht⟩
  have hround : roundHalfEven n (d <<< step (n / d)) ≤ t := by
    apply roundHalfEven_le
    rw [ht] at h
    rw [Nat.shiftLeft_eq]
    calc
      n ≤ 2 ^ step (n / d) * t * d := h
      _ = t * (d * 2 ^ step (n / d)) := by
        rw [Nat.mul_comm (2 ^ step (n / d)) t, Nat.mul_assoc, Nat.mul_comm (2 ^ step (n / d)) d]
  unfold roundUnits
  rw [Nat.shiftLeft_eq]
  calc
    roundHalfEven n (d <<< step (n / d)) * 2 ^ step (n / d) ≤ t * 2 ^ step (n / d) :=
      Nat.mul_le_mul_right _ hround
    _ = bound := by rw [ht, Nat.mul_comm]

/-- A number that is not negative and at most so many units. -/
def AtMost (x : Binary64) (bound : Nat) : Prop :=
  exists units, x = finite false units ∧ units ≤ bound

theorem atMost_ofUnits {n d bound : Nat} (hfits : Fits bound) (hfinite : bound < overflow)
    (h : n ≤ bound * d) : (ofUnits false n d).AtMost bound := by
  have hround := roundUnits_le hfits h
  refine ⟨roundUnits n d, ?_, hround⟩
  unfold ofUnits
  exact if_neg (Nat.not_le_of_lt (Nat.lt_of_le_of_lt hround hfinite))

end Binary64

namespace Duration

open Binary64

/-- The seconds of a timer and the rest of one are less than this together, in units. -/
def longestUnits : Nat :=
  3 <<< 1136

theorem atMost_toBinary64 {d : Duration} (hd : d.seconds < Instant.endSeconds) :
    d.toBinary64.AtMost longestUnits := by
  have hseconds : (ofNat d.seconds).AtMost (1 <<< 1137) := by
    apply atMost_ofUnits (by decide +kernel) (by decide +kernel)
    calc
      d.seconds * one ≤ Instant.endSeconds * one := Nat.mul_le_mul_right one (Nat.le_of_lt hd)
      _ = (1 <<< 1137) * 1 := by decide +kernel
  have hrest : (ofRatio d.subsecNanos nanosPerSecond).AtMost one := by
    apply atMost_ofUnits (by decide +kernel) (by decide +kernel)
    rw [Nat.mul_comm]
    apply Nat.mul_le_mul_left
    exact Nat.le_of_lt (Nat.mod_lt _ (by decide))
  rcases hseconds with ⟨a, ha, hale⟩
  rcases hrest with ⟨b, hb, hble⟩
  rw [toBinary64, ha, hb]
  apply atMost_ofUnits (by decide +kernel) (by decide +kernel)
  calc
    a + b ≤ (1 <<< 1137) + one := Nat.add_le_add hale hble
    _ ≤ longestUnits * 1 := by decide +kernel

theorem atMost_of_isShare {share : Binary64} (h : share.isShare = true) :
    share.AtMost one := by
  cases share with
  | nan => cases h
  | infinite negative => cases h
  | finite negative part =>
      cases negative with
      | true => cases h
      | false =>
          have hboth : 0 < part ∧ part ≤ one := by simpa [isShare] using h
          exact ⟨part, rfl, hboth.right⟩

theorem exists_ofBinary64? {x : Binary64} (h : x.AtMost longestUnits) :
    exists d, ofBinary64? x = some d := by
  rcases h with ⟨units, hunits, hunitsle⟩
  have hnanos : roundHalfEven (units * nanosPerSecond) one ≤ maxNanos := by
    apply roundHalfEven_le
    calc
      units * nanosPerSecond ≤ longestUnits * nanosPerSecond :=
        Nat.mul_le_mul_right _ hunitsle
      _ ≤ maxNanos * one := by decide +kernel
  rw [hunits, ofBinary64?, Bool.false_and, if_neg Bool.false_ne_true, dif_pos hnanos]
  exact ⟨_, rfl⟩

/-- A proper share of the time that a timer can count is a span. -/
theorem exists_scale? {d : Duration} (hd : d.seconds < Instant.endSeconds) {share : Binary64}
    (hshare : share.isShare = true) : exists limit, d.scale? share = some limit := by
  rcases atMost_of_isShare hshare with ⟨part, hpart, hpartle⟩
  rcases atMost_toBinary64 hd with ⟨whole, hwhole, hwholele⟩
  apply exists_ofBinary64?
  rw [hpart, hwhole]
  apply atMost_ofUnits (by decide +kernel) (by decide +kernel)
  rw [Nat.mul_comm]
  exact Nat.mul_le_mul hwholele hpartle

end Duration

end LedgerClient
