import Mathlib.Algebra.Order.Field.Rat
import Mathlib.Tactic.FieldSimp
import Mathlib.Tactic.GCongr
import Mathlib.Tactic.Positivity
import Mathlib.Tactic.Ring
import Rebalance.Proofs.Double

/-!
# The spread of counts

The spread is computed from the number of counts, their sum and the sum of their squares. That gives
the population variance, exactly, so of as many counts those with no greater variance have no
greater spread.
-/

namespace Rebalance

/-- The mean of the squared deviations from the mean. -/
def populationVariance (counts : List Nat) : ℚ :=
  (counts.map fun n : Nat ↦ ((n : ℚ) - counts.sum / counts.length) ^ 2).sum / counts.length

/-- The sum of the squares. -/
def sumOfSquares (counts : List Nat) : Nat := (counts.map fun n ↦ n * n).sum

variable {counts counts' : List Nat}

/-- Squared deviations from any number. -/
theorem sum_deviations (m : ℚ) (counts : List Nat) :
    (counts.map fun n : Nat ↦ ((n : ℚ) - m) ^ 2).sum =
      sumOfSquares counts - 2 * m * counts.sum + counts.length * m ^ 2 := by
  induction counts with
  | nil => simp [sumOfSquares]
  | cons n rest ih =>
    have hsquares : sumOfSquares (n :: rest) = n * n + sumOfSquares rest := rfl
    rw [List.map_cons, List.sum_cons, ih, hsquares, List.sum_cons, List.length_cons]
    push_cast
    ring

/-- The deviations need not be computed one by one. -/
theorem populationVariance_eq (counts : List Nat) :
    populationVariance counts =
      (counts.length * sumOfSquares counts - counts.sum * counts.sum) / counts.length ^ 2 := by
  rw [populationVariance, sum_deviations]
  by_cases hnil : counts = []
  · simp [hnil]
  · have hlen : (counts.length : ℚ) ≠ 0 := by
      rw [Nat.cast_ne_zero]
      exact mt List.length_eq_zero_iff.1 hnil
    field_simp
    ring

/-- Of as many counts with the same sum, the variance goes by the sum of the squares. -/
theorem populationVariance_le (hlen : counts'.length = counts.length)
    (hsum : counts'.sum = counts.sum) (hle : sumOfSquares counts' ≤ sumOfSquares counts) :
    populationVariance counts' ≤ populationVariance counts := by
  rw [populationVariance_eq, populationVariance_eq, hlen, hsum]
  gcongr

/-! ## What is computed -/

namespace Summary

/-- Counts in units of a number have the variance of the counts, times the square of that number. -/
theorem variance_counts (units : Nat) (counts : List Nat) :
    variance (counts.map fun n ↦ ((n * units : Nat) : Int)) =
      units * units * (counts.length * sumOfSquares counts - counts.sum * counts.sum) := by
  have hsum : (counts.map fun n ↦ ((n * units : Nat) : Int)).sum = units * counts.sum := by
    induction counts with
    | nil => simp
    | cons n rest ih =>
      rw [List.map_cons, List.sum_cons, ih, List.sum_cons]
      push_cast
      ring
  have hsquares : ((counts.map fun n ↦ ((n * units : Nat) : Int)).map fun x ↦ x * x).sum =
      units * units * sumOfSquares counts := by
    clear hsum
    unfold sumOfSquares
    induction counts with
    | nil => simp
    | cons n rest ih =>
      rw [List.map_cons, List.map_cons, List.sum_cons, ih, List.map_cons, List.sum_cons]
      push_cast
      ring
  have htotal : ∀ values, total values = values.sum := fun _ ↦ rfl
  rw [variance, htotal, htotal, hsum, hsquares, List.length_map]
  ring

theorem deviation_withSum (sum : Double) (exact : List Int) {values : List Double}
    (hne : values ≠ []) : (withSum sum exact values).deviation = spread exact := by
  cases values with
  | nil => exact absurd rfl hne
  | cons first rest => rw [withSum]

theorem deviation_ofCounts (hne : counts ≠ []) :
    (ofCounts counts).deviation = spread (counts.map fun n ↦ (n * Double.unitsPerOne : Nat)) :=
  deviation_withSum _ _ (mt List.map_eq_nil_iff.1 hne)

/-- Of as many counts, those with no greater variance have no greater spread. -/
theorem exists_position_deviation (hne : counts ≠ []) (hlen : counts'.length = counts.length)
    (hle : populationVariance counts' ≤ populationVariance counts) :
    ∃ p q, (ofCounts counts').deviation.position = some p ∧
      (ofCounts counts).deviation.position = some q ∧ 0 ≤ p ∧ p ≤ q := by
  have hpos : 0 < counts.length := List.length_pos_iff.2 hne
  have hne' : counts' ≠ [] := List.length_pos_iff.1 (hlen ▸ hpos)
  have hexact : (counts'.length * sumOfSquares counts' - counts'.sum * counts'.sum : Int) ≤
      counts.length * sumOfSquares counts - counts.sum * counts.sum := by
    rw [populationVariance_eq, populationVariance_eq, hlen] at hle
    have hdiv := (div_le_div_iff_of_pos_right (by positivity : (0 : ℚ) < counts.length ^ 2)).1 hle
    rw [hlen]
    exact_mod_cast hdiv
  rw [deviation_ofCounts hne, deviation_ofCounts hne', spread, spread, List.length_map,
    List.length_map, hlen, variance_counts, variance_counts]
  refine Double.exists_position_sqrtUnits (Int.toNat_le_toNat ?_) _
  have hunits : (0 : Int) ≤ Double.unitsPerOne * Double.unitsPerOne :=
    Int.mul_nonneg (Int.natCast_nonneg _) (Int.natCast_nonneg _)
  exact Int.mul_le_mul_of_nonneg_left hexact hunits

end Summary

namespace Comparator

theorem compare_fst (c : Comparator) (later earlier : Summary) :
    (c.compare later earlier).1 =
      Double.compareWithin c.tolerance earlier.deviation later.deviation := by
  unfold compare
  dsimp only
  split <;> rfl

/-- So the later statistics are not found to be worse. -/
theorem zero_le_compare {goal : String} (hne : counts ≠ [])
    (hlen : counts'.length = counts.length)
    (hle : populationVariance counts' ≤ populationVariance counts) :
    0 ≤ (compare { goal } (.ofCounts counts') (.ofCounts counts)).1 := by
  obtain ⟨p, q, hp, hq, hzero, hpq⟩ := Summary.exists_position_deviation hne hlen hle
  obtain ⟨c, hc, hnonneg⟩ := Double.exists_position_defaultTolerance
  rw [compare_fst]
  dsimp only
  exact Double.zero_le_compareWithin hp hq hzero hpq hc hnonneg

end Comparator

end Rebalance
