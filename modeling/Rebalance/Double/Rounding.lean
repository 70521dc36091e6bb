/-!
# Rounding to nearest

A quotient of natural numbers is rounded to the nearest integer, a tie going to the even neighbour.
Binary floating point rounds to a multiple of a power of two that keeps 53 significant bits; that
multiple is `nearestUnits`. Its results have at most 53 significant bits
(`representable_nearestUnits`), which is what makes them values of a double.
-/

namespace Rebalance.Double

/-- Powers of natural numbers are those of core here, whatever else is in scope. -/
scoped instance (priority := 10000) power : Pow Nat Nat := instPowNat

/-- The integer nearest to `num / den`; a half goes to the even neighbour. -/
def roundHalfEven (num den : Nat) : Nat :=
  let quotient := num / den
  let twice := 2 * (num % den)
  if twice < den then quotient
  else if den < twice then quotient + 1
  else if quotient % 2 = 0 then quotient else quotient + 1

theorem div_le_roundHalfEven (num den : Nat) : num / den ≤ roundHalfEven num den := by
  simp only [roundHalfEven]
  repeat' split
  all_goals omega

theorem roundHalfEven_le_succ (num den : Nat) : roundHalfEven num den ≤ num / den + 1 := by
  simp only [roundHalfEven]
  repeat' split
  all_goals omega

/-- A multiple of the divisor is its own rounding. -/
theorem roundHalfEven_mul (k : Nat) {den : Nat} (h : 0 < den) :
    roundHalfEven (k * den) den = k := by
  simp [roundHalfEven, Nat.mul_div_cancel _ h, h]

/-- The distance between neighbouring representable numbers around `n`: the place of the last of
its 53 leading bits, and one below `2 ^ 53`. -/
def spacing (n : Nat) : Nat := 2 ^ (n.log2 - 52)

theorem spacing_pos (n : Nat) : 0 < spacing n := Nat.two_pow_pos _

/-- One past the largest finite magnitude, in units of the least one. -/
def unitLimit : Nat := 2 ^ (2098 : Nat)

/-- A number of units with at most 53 significant bits, below the limit. -/
def Representable (units : Nat) : Prop := units < unitLimit ∧ spacing units ∣ units

instance (units : Nat) : Decidable (Representable units) :=
  inferInstanceAs (Decidable (_ ∧ _))

theorem unitLimit_pos : 0 < unitLimit := by decide +kernel

theorem representable_zero : Representable 0 := ⟨unitLimit_pos, Nat.dvd_zero _⟩

/-- Whatever is a multiple of a power of two by at most `2 ^ 53` has at most 53 significant bits. -/
theorem spacing_dvd_mul {k : Nat} (hk : k ≤ 2 ^ (53 : Nat)) (e : Nat) :
    spacing (2 ^ e * k) ∣ 2 ^ e * k := by
  rcases Nat.eq_zero_or_pos k with rfl | hpos
  · simp
  rcases Nat.lt_or_eq_of_le hk with h | rfl
  · have hne : 2 ^ e * k ≠ 0 := Nat.mul_ne_zero (by have := Nat.two_pow_pos e; omega) (by omega)
    have hlog : (2 ^ e * k).log2 < e + 53 := by
      rw [Nat.log2_lt hne, Nat.pow_add]
      exact Nat.mul_lt_mul_of_pos_left h (Nat.two_pow_pos e)
    have hle : (2 ^ e * k).log2 - 52 ≤ e := by omega
    exact Nat.dvd_trans (Nat.pow_dvd_pow 2 hle) (Nat.dvd_mul_right _ _)
  · rw [← Nat.pow_add, spacing, Nat.log2_two_pow]
    exact Nat.pow_dvd_pow 2 (by omega)

/-- The representable number of units nearest to `num / den`, were there no upper limit. -/
def nearestUnits (num den : Nat) : Nat :=
  let step := spacing (num / den)
  step * roundHalfEven num (den * step)

theorem div_lt_spacing_mul (num den : Nat) : num / den < spacing (num / den) * 2 ^ (53 : Nat) := by
  rw [spacing, ← Nat.pow_add]
  exact Nat.lt_of_lt_of_le Nat.lt_log2_self (Nat.pow_le_pow_right (by decide) (by omega))

theorem roundHalfEven_spacing_le (num den : Nat) :
    roundHalfEven num (den * spacing (num / den)) ≤ 2 ^ (53 : Nat) := by
  refine Nat.le_trans (roundHalfEven_le_succ _ _) ?_
  rw [← Nat.div_div_eq_div_mul]
  have hs := spacing_pos (num / den)
  have := (Nat.div_lt_iff_lt_mul hs).2 (Nat.mul_comm _ _ ▸ div_lt_spacing_mul num den)
  omega

/-- A rounded number of units below the limit is representable. -/
theorem representable_nearestUnits {num den : Nat} (hlt : nearestUnits num den < unitLimit) :
    Representable (nearestUnits num den) :=
  ⟨hlt, spacing_dvd_mul (roundHalfEven_spacing_le num den) _⟩

/-- A representable number of units is its own rounding. -/
theorem nearestUnits_one {units : Nat} (h : Representable units) :
    nearestUnits units 1 = units := by
  obtain ⟨_, k, hk⟩ := h
  simp only [nearestUnits, Nat.div_one, Nat.one_mul]
  have hround : roundHalfEven units (spacing units) = k := by
    conv => lhs; arg 1; rw [hk, Nat.mul_comm]
    exact roundHalfEven_mul k (spacing_pos units)
  rw [hround, ← hk]

end Rebalance.Double
