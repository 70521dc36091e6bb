import Mathlib.Data.Nat.Dist
import Rebalance.Proofs.Double

/-!
# How far rounding goes

Nothing representable is nearer to an exact value than what it is rounded to. So a double that is
rounded to decimal places, and to a double again, has not moved by more than one in the last of
these places; and what an exact value is rounded to is at most half the spacing around it away.
-/

namespace Rebalance.Double

variable {den m : Nat}

/-! ## Integers -/

theorem roundHalfEven_cases (num den : Nat) :
    roundHalfEven num den = num / den ∧ 2 * (num % den) ≤ den ∨
      roundHalfEven num den = num / den + 1 ∧ den ≤ 2 * (num % den) := by
  simp only [roundHalfEven]
  repeat' split
  all_goals omega

/-- The nearest integer is at most a half away. -/
theorem two_mul_dist_roundHalfEven_le (hden : 0 < den) (num : Nat) :
    2 * Nat.dist num (roundHalfEven num den * den) ≤ den := by
  have hdiv := Nat.div_add_mod' num den
  have hmod := Nat.mod_lt num hden
  unfold Nat.dist
  rcases roundHalfEven_cases num den with ⟨heq, hle⟩ | ⟨heq, hle⟩
  · rw [heq]
    omega
  · rw [heq, Nat.succ_mul (num / den)]
    omega

/-- No integer is nearer. -/
theorem dist_roundHalfEven_le (hden : 0 < den) (num k : Nat) :
    Nat.dist num (roundHalfEven num den * den) ≤ Nat.dist num (k * den) := by
  have hhalf := two_mul_dist_roundHalfEven_le hden num
  generalize roundHalfEven num den = q at *
  have hapart : k = q ∨ k * den + den ≤ q * den ∨ q * den + den ≤ k * den := by
    rcases Nat.lt_trichotomy k q with hlt | heq | hgt
    · exact .inr (.inl (Nat.succ_mul k den ▸ Nat.mul_le_mul_right den hlt))
    · exact .inl heq
    · exact .inr (.inr (Nat.succ_mul q den ▸ Nat.mul_le_mul_right den hgt))
  unfold Nat.dist at *
  rcases hapart with rfl | hbelow | habove
  · exact Nat.le_refl _
  · omega
  · omega

/-! ## Representable numbers -/

/-- A representable number of more than 53 bits has room for all of them above the spacing. -/
theorem spacing_mul_le (n : Nat) : spacing n * 2 ^ (52 : Nat) ≤ max n (2 ^ (52 : Nat)) := by
  rcases Nat.le_total n.log2 52 with hshort | hlong
  · have hone : spacing n = 1 := by rw [spacing, Nat.sub_eq_zero_of_le hshort, Nat.pow_zero]
    rw [hone, Nat.one_mul]
    exact Nat.le_max_right ..
  · have hne : n ≠ 0 := by
      rintro rfl
      simp at hlong
    rw [spacing, ← Nat.pow_add, Nat.sub_add_cancel hlong]
    exact Nat.le_trans (Nat.log2_self_le hne) (Nat.le_max_left ..)

theorem nearestUnits_mul (num den : Nat) : nearestUnits num den * den =
    roundHalfEven num (den * spacing (num / den)) * (den * spacing (num / den)) := by
  unfold nearestUnits
  ac_rfl

/-- What is rounded is at most half the spacing around it away. -/
theorem two_mul_dist_nearestUnits_le (hden : 0 < den) (num : Nat) :
    2 * Nat.dist num (nearestUnits num den * den) ≤ den * spacing (num / den) := by
  rw [nearestUnits_mul]
  exact two_mul_dist_roundHalfEven_le (Nat.mul_pos hden (spacing_pos _)) num

/-- What is no multiple of the spacing around a number lies below the power of two under it. -/
theorem lt_pow_of_not_dvd {n : Nat} (hm : spacing m ∣ m) (hdvd : ¬ spacing n ∣ m) :
    m < 2 ^ n.log2 ∧ spacing n ∣ 2 ^ n.log2 := by
  have hlog : m.log2 - 52 < n.log2 - 52 := by
    by_contra hle
    exact hdvd ((Nat.pow_dvd_pow 2 (Nat.not_lt.1 hle)).trans hm)
  exact ⟨Nat.lt_of_lt_of_le Nat.lt_log2_self (Nat.pow_le_pow_right (by decide) (by omega)),
    Nat.pow_dvd_pow 2 (Nat.sub_le ..)⟩

/-- No representable number is nearer to an exact value than what that is rounded to. -/
theorem dist_nearestUnits_le (hden : 0 < den) (num : Nat) (hm : spacing m ∣ m) :
    Nat.dist num (nearestUnits num den * den) ≤ Nat.dist num (m * den) := by
  have hmultiple : ∀ k, spacing (num / den) ∣ k →
      Nat.dist num (nearestUnits num den * den) ≤ Nat.dist num (k * den) := by
    rintro - ⟨k, rfl⟩
    rw [nearestUnits_mul, show spacing (num / den) * k * den = k * (den * spacing (num / den)) by
      ac_rfl]
    exact dist_roundHalfEven_le (Nat.mul_pos hden (spacing_pos _)) num k
  by_cases hdvd : spacing (num / den) ∣ m
  · exact hmultiple m hdvd
  · -- The power of two is a multiple of the spacing, and stands between this number and the value.
    obtain ⟨hlt, hpow⟩ := lt_pow_of_not_dvd hm hdvd
    refine (hmultiple _ hpow).trans ?_
    have hne : num / den ≠ 0 := by
      intro hzero
      simp [hzero, spacing] at hdvd
    have hle : 2 ^ (num / den).log2 * den ≤ num :=
      (Nat.mul_le_mul_right den (Nat.log2_self_le hne)).trans (Nat.div_mul_le_self num den)
    have hless : m * den ≤ 2 ^ (num / den).log2 * den := Nat.mul_le_mul_right den hlt.le
    unfold Nat.dist
    omega

end Rebalance.Double
