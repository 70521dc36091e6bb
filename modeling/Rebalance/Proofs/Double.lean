import Mathlib.Algebra.Order.Group.Nat
import Mathlib.Algebra.Order.Ring.Nat
import Rebalance.Comparator

/-!
# Rounding keeps the order

The greater of two exact values is not rounded to the lesser double, and neither is its square root.
So where the exact spread of values has not grown, the rounded one has not, and no tolerance makes a
comparison find it worse.
-/

namespace Rebalance.Double

/-! ## Rounding -/

theorem roundHalfEven_mono {a b : Nat} (h : a ≤ b) (den : Nat) :
    roundHalfEven a den ≤ roundHalfEven b den := by
  rcases Nat.lt_or_eq_of_le (Nat.div_le_div_right h : a / den ≤ b / den) with hlt | heq
  · calc roundHalfEven a den ≤ a / den + 1 := roundHalfEven_le_succ a den
      _ ≤ b / den := hlt
      _ ≤ roundHalfEven b den := div_le_roundHalfEven b den
  · have hmod : a % den ≤ b % den := by
      have ha := Nat.div_add_mod a den
      have hb := Nat.div_add_mod b den
      rw [heq] at ha
      omega
    simp only [roundHalfEven, heq]
    repeat' split
    all_goals omega

/-- What is not below a whole number is not rounded below it. -/
theorem le_roundHalfEven {k num den : Nat} (hden : 0 < den) (h : k * den ≤ num) :
    k ≤ roundHalfEven num den := by
  rw [← roundHalfEven_mul k hden]
  exact roundHalfEven_mono h den

/-- A number is not rounded past the power of two above it. -/
theorem nearestUnits_le_pow (num den : Nat) :
    nearestUnits num den ≤ 2 ^ ((num / den).log2 - 52 + 53) := by
  have hle : roundHalfEven num (den * spacing (num / den)) ≤ 2 ^ (53 : Nat) :=
    roundHalfEven_spacing_le num den
  calc spacing (num / den) * roundHalfEven num (den * spacing (num / den))
      ≤ spacing (num / den) * 2 ^ (53 : Nat) := Nat.mul_le_mul_left _ hle
    _ = 2 ^ ((num / den).log2 - 52 + 53) := by rw [spacing, ← Nat.pow_add]

/-- A number of more than 53 bits is not rounded below the power of two under it. -/
theorem pow_le_nearestUnits {num den : Nat} (hden : 0 < den) (hlong : 52 < (num / den).log2) :
    2 ^ (num / den).log2 ≤ nearestUnits num den := by
  have hne : num / den ≠ 0 := by
    intro hzero
    simp [hzero] at hlong
  have hstep : spacing (num / den) * 2 ^ (52 : Nat) = 2 ^ (num / den).log2 := by
    rw [spacing, ← Nat.pow_add]
    congr 1
    omega
  have hle : 2 ^ (52 : Nat) ≤ roundHalfEven num (den * spacing (num / den)) := by
    refine le_roundHalfEven (Nat.mul_pos hden (spacing_pos _)) ?_
    calc 2 ^ (52 : Nat) * (den * spacing (num / den))
        = den * (spacing (num / den) * 2 ^ (52 : Nat)) := by ac_rfl
      _ = den * 2 ^ (num / den).log2 := by rw [hstep]
      _ ≤ den * (num / den) := Nat.mul_le_mul_left den (Nat.log2_self_le hne)
      _ ≤ num := Nat.mul_div_le num den
  calc 2 ^ (num / den).log2
      = spacing (num / den) * 2 ^ (52 : Nat) := hstep.symm
    _ ≤ spacing (num / den) * roundHalfEven num (den * spacing (num / den)) :=
      Nat.mul_le_mul_left _ hle

/-- Rounding to 53 significant bits keeps the order. Between numbers of different length there is a
power of two, past which neither of them is rounded. -/
theorem nearestUnits_mono {a b den : Nat} (hden : 0 < den) (h : a ≤ b) :
    nearestUnits a den ≤ nearestUnits b den := by
  have hdiv : a / den ≤ b / den := Nat.div_le_div_right h
  have hlog : (a / den).log2 ≤ (b / den).log2 := by
    rcases Nat.eq_zero_or_pos (a / den) with hzero | hpos
    · simp [hzero]
    · rw [Nat.le_log2 (by omega)]
      exact le_trans (Nat.log2_self_le (by omega)) hdiv
  rcases Nat.lt_or_eq_of_le (Nat.sub_le_sub_right hlog 52) with hlt | heq
  · calc nearestUnits a den
        ≤ 2 ^ ((a / den).log2 - 52 + 53) := nearestUnits_le_pow a den
      _ ≤ 2 ^ (b / den).log2 := Nat.pow_le_pow_right (by decide) (by omega)
      _ ≤ nearestUnits b den := pow_le_nearestUnits hden (by omega)
  · have hsame : spacing (a / den) = spacing (b / den) := by rw [spacing, spacing, heq]
    unfold nearestUnits
    rw [hsame]
    exact Nat.mul_le_mul_left _ (roundHalfEven_mono h _)

theorem position_ofUnits (negative : Bool) (num den : Nat) :
    (ofUnits negative num den).position =
      some (signed negative (min (nearestUnits num den) unitLimit)) := by
  unfold ofUnits
  split
  · rename_i hlt
    rw [Nat.min_eq_left (Nat.le_of_lt hlt)]
    rfl
  · rename_i hge
    rw [Nat.min_eq_right (Nat.not_lt.1 hge)]
    rfl

theorem exists_position_ofRatio (num den : Nat) :
    ∃ p, (ofRatio false num den).position = some p ∧ 0 ≤ p := by
  refine ⟨_, position_ofUnits .., ?_⟩
  rw [signed_false]
  exact Int.natCast_nonneg _

theorem exists_position_defaultTolerance :
    ∃ p, defaultTolerance.position = some p ∧ 0 ≤ p := by
  unfold defaultTolerance ofDecimal
  split
  · exact exists_position_ofRatio ..
  · exact exists_position_ofRatio ..

/-! ## Square roots -/

/-- The integer that stands for a square root in eighths, with its remainder, grows with the square.
-/
theorem exists_position_sqrtUnits {a b : Nat} (h : a ≤ b) (den : Nat) :
    ∃ p q, (sqrtUnits a den).position = some p ∧ (sqrtUnits b den).position = some q ∧ 0 ≤ p ∧
      p ≤ q := by
  unfold sqrtUnits
  refine ⟨_, _, position_ofUnits .., position_ofUnits .., ?_, ?_⟩
  · rw [signed_false]
    omega
  · have hroot : Nat.sqrt (16 * a / den) ≤ Nat.sqrt (16 * b / den) :=
      Nat.sqrt_le_sqrt (Nat.div_le_div_right (by omega))
    rw [signed_false, signed_false, Int.ofNat_le]
    refine min_le_min_right _ (nearestUnits_mono (by decide) ?_)
    rcases Nat.lt_or_eq_of_le hroot with hlt | heq
    · split <;> split <;> omega
    · -- Where the roots are the same, the greater square is the exact one only if both are.
      have hexact : Nat.sqrt (16 * b / den) * Nat.sqrt (16 * b / den) * den = 16 * b →
          16 * a = 16 * b := by
        intro hb
        have hle : Nat.sqrt (16 * a / den) * Nat.sqrt (16 * a / den) * den ≤ 16 * a :=
          le_trans (Nat.mul_le_mul_right den (Nat.sqrt_le _)) (Nat.div_mul_le_self _ _)
        rw [heq, hb] at hle
        omega
      rw [heq]
      split
      · split <;> omega
      · rename_i hne
        rw [if_neg fun hb ↦ hne (hb.trans (hexact hb).symm)]

/-! ## Comparing -/

theorem signed_not (negative : Bool) (units : Nat) :
    signed (!negative) units = -signed negative units := by
  cases negative <;> simp

theorem eq_false_of_signed_nonneg {negative : Bool} {units : Nat} (hpos : 0 < units)
    (h : 0 ≤ signed negative units) : negative = false := by
  cases negative with
  | false => rfl
  | true =>
    rw [signed_true] at h
    omega

variable {x y : Double} {a b : Int}

/-- A number that is not negative leaves nothing above zero when one that is not below it is taken
away. -/
theorem position_sub_le_zero (hx : x.position = some a) (hy : y.position = some b) (ha : 0 ≤ a)
    (hab : a ≤ b) : ∀ p, (x - y).position = some p → p ≤ 0 := by
  intro p hp
  change (add x y.neg).position = some p at hp
  cases x with
  | nan => exact absurd hx nofun
  | infinite s =>
    obtain rfl := Option.some.inj hx
    obtain rfl := eq_false_of_signed_nonneg unitLimit_pos ha
    cases y with
    | nan => exact absurd hy nofun
    | infinite t =>
      obtain rfl := Option.some.inj hy
      obtain rfl := eq_false_of_signed_nonneg unitLimit_pos (ha.trans hab)
      exact absurd hp nofun
    | finite t v hv =>
      obtain rfl := Option.some.inj hy
      have hlt := hv.1
      cases t <;> simp only [signed_false, signed_true] at ha hab <;> omega
  | finite s u hu =>
    obtain rfl := Option.some.inj hx
    cases y with
    | nan => exact absurd hy nofun
    | infinite t =>
      obtain rfl := Option.some.inj hy
      obtain rfl := eq_false_of_signed_nonneg unitLimit_pos (ha.trans hab)
      obtain rfl := Option.some.inj hp
      rw [Bool.not_false, signed_true]
      omega
    | finite t v hv =>
      obtain rfl := Option.some.inj hy
      simp only [neg, add, signed_not] at hp
      split at hp
      · rw [position_ofUnits, nearestUnits_one representable_zero, Nat.zero_min,
          Option.some.injEq] at hp
        obtain rfl := hp
        cases s && !t <;> simp
      · rename_i hne
        rw [position_ofUnits, decide_eq_true (by omega), signed_true, Option.some.injEq] at hp
        omega

/-- A number that is not above another one is never found to be the greater one. -/
theorem zero_le_compareWithin {tolerance : Double} {c : Int} (hx : x.position = some a)
    (hy : y.position = some b) (ha : 0 ≤ a) (hab : a ≤ b) (ht : tolerance.position = some c)
    (hc : 0 ≤ c) : 0 ≤ compareWithin tolerance y x := by
  have hno : ¬ tolerance < x - y := by
    rw [lt_iff]
    rintro ⟨p, q, hp, hq, hlt⟩
    obtain rfl := Option.some.inj (ht.symm.trans hp)
    have hle := position_sub_le_zero hx hy ha hab q hq
    omega
  rw [compareWithin, if_neg hno]
  split <;> decide

end Rebalance.Double
