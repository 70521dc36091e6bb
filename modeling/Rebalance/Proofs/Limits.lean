import Mathlib.Tactic.Ring
import Rebalance.Constraint
import Rebalance.Limits
import Rebalance.Proofs.Arithmetic

/-!
# What the limits admit

Rounding keeps the order, so the limits stand on both sides of the average that is rounded to nine
places. Times the number of brokers, that average is less than one replica away from the number of
replicas, unless there are very many of either: the quotient is at most a half of a replica off, and
nine places leave less than the other half. So the limits never rule out a full placement, whatever
the deviation that is allowed.
-/

namespace Rebalance

open scoped Double

variable {replicas brokers : Nat} {percentage average x : Double}

/-! ## The average -/

namespace Double

/-- The units of the double nearest to the average. -/
def averageUnits (replicas brokers : Nat) : Nat := nearestUnits (replicas * unitsPerOne) brokers

/-- Of no more than a power of two, the average is no more. -/
theorem averageUnits_le {k : Nat} (hreplicas : replicas ≤ 2 ^ k) (hk : k < 1024)
    (hbrokers : 0 < brokers) : averageUnits replicas brokers ≤ 2 ^ k * unitsPerOne := by
  have hself := nearestUnits_mul_self hbrokers (representable_two_pow_mul hk).2
  rw [← hself]
  refine nearestUnits_mono hbrokers ((Nat.mul_le_mul_right _ hreplicas).trans ?_)
  exact Nat.le_mul_of_pos_right _ hbrokers

/-- There is an average unless it is past the largest finite double. -/
theorem quotient_cases (replicas : Nat) (hbrokers : 0 < brokers) :
    (∃ average, quotient replicas brokers = .ok average ∧ average.isFinite ∧
      average.position = some ↑(averageUnits replicas brokers)) ∨
    quotient replicas brokers = .error .tooLarge ∧ unitLimit ≤ averageUnits replicas brokers := by
  unfold quotient
  rw [if_neg (by omega)]
  generalize hratio : ofRatio _ _ _ = ratio
  rw [decide_eq_false (Int.not_lt.2 (Int.natCast_nonneg replicas)),
    decide_eq_false (Int.not_lt.2 (Int.natCast_nonneg brokers)), bne_self_eq_false,
    Int.natAbs_natCast, Int.natAbs_natCast] at hratio
  have hposition := position_ofRatio replicas brokers
  rw [hratio] at hposition
  change ratio.position = some ↑(min (averageUnits replicas brokers) unitLimit) at hposition
  cases ratio with
  | nan => exact absurd hposition nofun
  | infinite s =>
    refine .inr ⟨rfl, ?_⟩
    have habs := congrArg Int.natAbs (Option.some.inj hposition)
    rw [natAbs_signed, Int.natAbs_natCast] at habs
    omega
  | finite s m hm =>
    refine .inl ⟨_, rfl, rfl, ?_⟩
    have hlt := (isFinite_iff hposition).1 rfl
    rw [Int.natAbs_natCast] at hlt
    rw [hposition, Nat.min_eq_left (by omega)]

theorem quotient_eq_ok (h : quotient replicas brokers = .ok average) :
    0 < brokers ∧ average.isFinite ∧
      average.position = some ↑(averageUnits replicas brokers) := by
  have hbrokers : 0 < brokers := by
    refine Nat.pos_of_ne_zero ?_
    rintro rfl
    exact absurd h nofun
  refine ⟨hbrokers, ?_⟩
  rcases quotient_cases replicas hbrokers with ⟨a, ha, hspec⟩ | ⟨herror, -⟩
  · rw [h] at ha
    obtain rfl := Except.ok.inj ha
    exact hspec
  · rw [h] at herror
    exact absurd herror nofun

/-- Of not too many replicas, the average is at most a half of one off, times the brokers. -/
theorem two_mul_dist_average_le (hreplicas : replicas ≤ 2 ^ (52 : Nat)) (hbrokers : 0 < brokers)
    (hmost : brokers ≤ unitsPerOne) :
    2 * Nat.dist (replicas * unitsPerOne) (averageUnits replicas brokers * brokers) ≤
      unitsPerOne := by
  refine (two_mul_dist_nearestUnits_le hbrokers _).trans ?_
  have hroom := Nat.mul_le_mul_left brokers
    (spacing_mul_le (replicas * unitsPerOne / brokers))
  have hmax : brokers * max (replicas * unitsPerOne / brokers) (2 ^ (52 : Nat)) ≤
      unitsPerOne * 2 ^ (52 : Nat) := by
    rcases Nat.le_total (replicas * unitsPerOne / brokers) (2 ^ (52 : Nat)) with hle | hge
    · rw [Nat.max_eq_right hle]
      exact Nat.mul_le_mul_right _ hmost
    · rw [Nat.max_eq_left hge, Nat.mul_comm unitsPerOne]
      exact (Nat.mul_div_le _ brokers).trans (Nat.mul_le_mul_right _ hreplicas)
  rw [← Nat.mul_assoc] at hroom
  exact Nat.le_of_mul_le_mul_right (hroom.trans hmax) (Nat.two_pow_pos _)

/-- Rounding to decimal places adds at most one in the last of them for every broker. -/
theorem dist_rounded_average_lt {places : Nat} (hreplicas : replicas ≤ 2 ^ (52 : Nat))
    (hbrokers : 0 < brokers) (hmost : 2 * brokers < 10 ^ places) (hunits : brokers ≤ unitsPerOne)
    (hrep : Representable (averageUnits replicas brokers)) :
    Nat.dist (replicas * unitsPerOne)
      (roundedUnits places (averageUnits replicas brokers) * brokers) < unitsPerOne := by
  have hquotient := two_mul_dist_average_le hreplicas hbrokers hunits
  generalize averageUnits replicas brokers = a at *
  have hplaces : Nat.dist (a * 10 ^ places) _ ≤ _ := dist_roundedUnits_le hrep.2
  generalize roundedUnits places a = r at *
  rw [Nat.dist_mul_right] at hplaces
  have htriangle := Nat.dist.triangle_inequality (replicas * unitsPerOne) (a * brokers)
    (r * brokers)
  rw [Nat.dist_mul_right a brokers r] at htriangle
  generalize Nat.dist (replicas * unitsPerOne) (r * brokers) = d at *
  generalize Nat.dist (replicas * unitsPerOne) (a * brokers) = d₁ at *
  generalize Nat.dist a r = d₂ at *
  refine Nat.lt_of_mul_lt_mul_left (a := 2 * 10 ^ places) ?_
  calc 2 * 10 ^ places * d
      ≤ 2 * 10 ^ places * (d₁ + d₂ * brokers) := Nat.mul_le_mul_left _ htriangle
    _ = 10 ^ places * (2 * d₁) + 2 * brokers * (d₂ * 10 ^ places) := by ring
    _ ≤ 10 ^ places * unitsPerOne + 2 * brokers * unitsPerOne :=
      Nat.add_le_add (Nat.mul_le_mul_left _ hquotient) (Nat.mul_le_mul_left _ hplaces)
    _ < 10 ^ places * unitsPerOne + 10 ^ places * unitsPerOne :=
      Nat.add_lt_add_left (Nat.mul_lt_mul_of_pos_right hmost unitsPerOne_pos) _
    _ = 2 * 10 ^ places * unitsPerOne := by ring

end Double

/-! ## The limits -/

namespace Limits

variable {limits : Limits}

theorem bind_eq_ok_iff {ε α β : Type} {x : Except ε α} {f : α → Except ε β} {y : β} :
    x >>= f = .ok y ↔ ∃ a, x = .ok a ∧ f a = .ok y := by
  cases x with
  | error e => exact ⟨nofun, fun ⟨_, ha, _⟩ ↦ nomatch ha⟩
  | ok a => exact ⟨fun h ↦ ⟨a, rfl, h⟩, fun ⟨_, ha, h⟩ ↦ Except.ok.inj ha ▸ h⟩

theorem of_eq_ok_iff : Limits.of replicas brokers percentage = .ok limits ↔
    Double.quotient replicas brokers = .ok limits.average ∧
      ((limits.average * (1 + percentage)).roundTo places).ceil = .ok limits.upper ∧
        ((limits.average * (1 - percentage).positivePart).roundTo places).floor =
          .ok limits.lower := by
  simp only [Limits.of, bind_eq_ok_iff]
  constructor
  · rintro ⟨average, haverage, upper, hupper, lower, hlower, heq⟩
    obtain rfl := Except.ok.inj heq
    exact ⟨haverage, hupper, hlower⟩
  · rintro ⟨haverage, hupper, hlower⟩
    exact ⟨_, haverage, _, hupper, _, hlower, rfl⟩

theorem positivePart_one_sub_le_one (h : 0 ≤ percentage) : (1 - percentage).positivePart ≤ 1 :=
  Double.positivePart_le Double.zero_le_one (Double.sub_le Double.isFinite_one h)

/-- The product that is lowered to the lower limit does not leave the finite range. -/
theorem mul_positivePart (hnonneg : 0 ≤ average) (hfin : average.isFinite)
    (hpercentage : 0 ≤ percentage) :
    0 ≤ average * (1 - percentage).positivePart ∧
      (average * (1 - percentage).positivePart).isFinite := by
  have hpart : 0 ≤ (1 - percentage).positivePart := Double.zero_le_positivePart _
  have hle := positivePart_one_sub_le_one hpercentage
  have hproduct := Double.mul_nonneg hnonneg hfin hpart
    (Double.isFinite_of_le hpart hle Double.isFinite_one)
  exact ⟨hproduct, Double.isFinite_of_le hproduct
    (Double.mul_le_mul_left hnonneg hfin hpart hle Double.isFinite_one)
    (Double.isFinite_mul_one hnonneg hfin)⟩

/-- The limits are on both sides of the rounded average. -/
theorem around_average (hpercentage : 0 ≤ percentage)
    (h : Limits.of replicas brokers percentage = .ok limits) :
    0 ≤ limits.lower ∧
      limits.lower * Double.unitsPerOne ≤
        Double.roundedUnits places (Double.averageUnits replicas brokers) ∧
      Double.roundedUnits places (Double.averageUnits replicas brokers) ≤
        limits.upper * Double.unitsPerOne := by
  obtain ⟨haverage, hupper, hlower⟩ := of_eq_ok_iff.1 h
  obtain ⟨-, hfin, hposition⟩ := Double.quotient_eq_ok haverage
  generalize limits.average = average at *
  have hnonneg : 0 ≤ average := Double.nonneg_iff.2 ⟨_, hposition⟩
  have hone : (average * 1).isFinite := Double.isFinite_mul_one hnonneg hfin
  have hrounded := Double.position_roundTo places (Double.position_mul_one hposition hfin) hone
  have hbelow : (average * (1 - percentage).positivePart).roundTo places ≤
      (average * 1).roundTo places :=
    Double.roundTo_mul_le hnonneg hfin (Double.zero_le_positivePart _)
      (positivePart_one_sub_le_one hpercentage) hone
  have habove : (average * 1).roundTo places ≤ (average * (1 + percentage)).roundTo places :=
    Double.roundTo_mul_le hnonneg hfin Double.zero_le_one
      (Double.le_add Double.isFinite_one hpercentage)
      (Double.isFinite_of_roundTo (Double.isFinite_of_ceil hupper))
  obtain ⟨hproduct, hproductfin⟩ := mul_positivePart hnonneg hfin hpercentage
  exact ⟨Double.zero_le_floor (Double.roundTo_nonneg hproduct hproductfin) hlower,
    Double.floor_le hrounded hbelow hlower, Double.le_of_ceil hrounded habove hupper⟩

theorem lower_le_upper (hpercentage : 0 ≤ percentage)
    (h : Limits.of replicas brokers percentage = .ok limits) :
    0 ≤ limits.lower ∧ limits.lower ≤ limits.upper := by
  obtain ⟨hzero, hlower, hupper⟩ := around_average hpercentage h
  refine ⟨hzero, Int.le_of_mul_le_mul_right (hlower.trans hupper) ?_⟩
  exact Int.natCast_pos.2 Double.unitsPerOne_pos

/-- The limits admit a full placement: so many replicas fit on so many brokers. -/
theorem full_placement_admitted (hreplicas : replicas ≤ 2 ^ 52) (hbrokers : 1 ≤ brokers)
    (hmost : brokers ≤ 10 ^ 8) (hpercentage : 0 ≤ percentage)
    (h : Limits.of replicas brokers percentage = .ok limits) :
    0 ≤ limits.lower ∧ limits.lower ≤ limits.upper ∧
      limits.lower * brokers ≤ replicas ∧ replicas ≤ limits.upper * brokers := by
  obtain ⟨hzero, hle⟩ := lower_le_upper hpercentage h
  obtain ⟨-, hlower, hupper⟩ := around_average hpercentage h
  obtain ⟨-, hfin, hposition⟩ := Double.quotient_eq_ok (of_eq_ok_iff.1 h).1
  have hrep := Double.representable_of_position hposition hfin
  rw [Int.natAbs_natCast] at hrep
  have hplaces : 2 * brokers < 10 ^ places := by
    have hten : 10 ^ places = 10 * 10 ^ (8 : Nat) := by decide
    omega
  have hunits : brokers ≤ Double.unitsPerOne := hmost.trans (by decide +kernel)
  have hnear := Double.dist_rounded_average_lt hreplicas hbrokers hplaces hunits hrep
  generalize Double.roundedUnits places (Double.averageUnits replicas brokers) = rounded at *
  unfold Nat.dist at hnear
  have hpos : (0 : Int) < Double.unitsPerOne := Int.natCast_pos.2 Double.unitsPerOne_pos
  generalize Double.unitsPerOne = units at *
  have hbrokers' : (0 : Int) ≤ brokers := Int.natCast_nonneg brokers
  have hbelow := Int.mul_le_mul_of_nonneg_right hlower hbrokers'
  have habove := Int.mul_le_mul_of_nonneg_right hupper hbrokers'
  refine ⟨hzero, hle, ?_, ?_⟩
  · refine Int.le_of_lt_add_one (Int.lt_of_mul_lt_mul_right (a := (units : Int)) ?_ hpos.le)
    calc limits.lower * brokers * units = limits.lower * units * brokers := by ring
      _ ≤ rounded * brokers := hbelow
      _ < replicas * units + units := by omega
      _ = (replicas + 1) * units := by ring
  · refine Int.le_of_lt_add_one (Int.lt_of_mul_lt_mul_right (a := (units : Int)) ?_ hpos.le)
    calc (replicas * units : Int) < rounded * brokers + units := by omega
      _ ≤ limits.upper * units * brokers + units := Int.add_le_add_right habove _
      _ = (limits.upper * brokers + 1) * units := by ring

theorem exists_of_toOption {ε α β : Type} {x : Except ε α} {f : α → β} {y : β}
    (h : x.toOption.map f = some y) : ∃ a, x = .ok a ∧ f a = y := by
  cases x with
  | error e => exact absurd h nofun
  | ok a => exact ⟨a, rfl, Option.some.inj h⟩

/-- With the most brokers that there may be, one replica more than they share evenly still shows in
the last of the decimal places. -/
theorem full_placement_admitted_large : ∃ limits,
    Limits.of (4503599600000001 : Nat) (100000000 : Nat) 0 = .ok limits ∧
      (limits.lower, limits.upper) = (45035996, 45035997) ∧
        limits.lower * (100000000 : Nat) ≤ (4503599600000001 : Nat) ∧
          (4503599600000001 : Nat) ≤ limits.upper * (100000000 : Nat) := by
  obtain ⟨limits, h, hlimits⟩ := exists_of_toOption (by decide +kernel :
    (Limits.of (4503599600000001 : Nat) (100000000 : Nat) 0).toOption.map
      (fun limits ↦ (limits.lower, limits.upper)) = some (45035996, 45035997))
  obtain ⟨-, -, hfits⟩ := full_placement_admitted (by decide) (by decide) (by decide)
    (by decide +kernel) h
  exact ⟨limits, h, hlimits, hfits⟩

/-! ## Constraints -/

theorem ne_nan_one : (1 : Double) ≠ .nan := Double.ne_nan_of_isFinite Double.isFinite_one

theorem zero_le_percentage {c : Constraint} (h : c.threshold ≠ .nan) : 0 ≤ c.percentage :=
  Double.sub_nonneg Double.isFinite_one (Double.le_of_not_lt h ne_nan_one c.not_below_one)

theorem percentage_eq_nan {c : Constraint} (h : c.threshold = .nan) : c.percentage = .nan := by
  rw [Constraint.percentage, h]
  exact Double.nan_add _

/-- No threshold that is not a number gives limits. -/
theorem ne_nan_of_limits {c : Constraint}
    (h : Limits.of replicas brokers c.percentage = .ok limits) : c.threshold ≠ .nan := by
  intro hnan
  obtain ⟨-, hupper, -⟩ := of_eq_ok_iff.1 h
  rw [percentage_eq_nan hnan, Double.add_nan, Double.mul_nan] at hupper
  exact absurd hupper nofun

/-- Whatever the constraint, the limits that it gives can be kept. -/
theorem lower_le_upper_of_constraint {c : Constraint}
    (h : Limits.of replicas brokers c.percentage = .ok limits) :
    0 ≤ limits.lower ∧ limits.lower ≤ limits.upper :=
  lower_le_upper (zero_le_percentage (ne_nan_of_limits h)) h

/-- A constraint gives limits exactly if neither the average nor the product that is raised to the
upper limit leaves the finite range. -/
theorem exists_limits_iff {c : Constraint} :
    (∃ limits, Limits.of replicas brokers c.percentage = .ok limits) ↔
      ∃ average, Double.quotient replicas brokers = .ok average ∧
        (average * (1 + c.percentage)).isFinite := by
  constructor
  · rintro ⟨limits, h⟩
    obtain ⟨haverage, hupper, -⟩ := of_eq_ok_iff.1 h
    exact ⟨_, haverage, Double.isFinite_of_roundTo (Double.isFinite_of_ceil hupper)⟩
  · rintro ⟨average, haverage, hproductfin⟩
    obtain ⟨-, hfin, hposition⟩ := Double.quotient_eq_ok haverage
    have hnonneg : 0 ≤ average := Double.nonneg_iff.2 ⟨_, hposition⟩
    have hpercentage : 0 ≤ c.percentage := by
      refine zero_le_percentage fun hnan ↦ ?_
      rw [percentage_eq_nan hnan, Double.add_nan, Double.mul_nan] at hproductfin
      exact absurd hproductfin nofun
    have hfactor : 0 ≤ 1 + c.percentage :=
      Double.le_trans Double.zero_le_one (Double.le_add Double.isFinite_one hpercentage)
    have hproduct := Double.mul_nonneg hnonneg hfin hfactor (Double.isFinite_of_mul hproductfin)
    obtain ⟨hpart, hpartfin⟩ := mul_positivePart hnonneg hfin hpercentage
    have hupper := Double.isFinite_roundTo places hproduct hproductfin
    have hlower := Double.isFinite_roundTo places hpart hpartfin
    obtain ⟨i, hi⟩ := Double.exists_position hupper
    obtain ⟨j, hj⟩ := Double.exists_position hlower
    exact ⟨⟨_, _, average⟩, of_eq_ok_iff.2
      ⟨haverage, Double.ceil_eq hi hupper, Double.floor_eq hj hlower⟩⟩

/-- Moderate thresholds give limits for moderate numbers of replicas. -/
theorem exists_limits_of_le {c : Constraint} {j k : Nat} (hjk : j + k ≤ 1022)
    (hthreshold : c.threshold ≤ Double.ofNat (2 ^ j)) (hreplicas : replicas ≤ 2 ^ k)
    (hbrokers : 0 < brokers) : ∃ limits, Limits.of replicas brokers c.percentage = .ok limits := by
  have hnan : c.threshold ≠ .nan := by
    intro hnan
    rw [hnan] at hthreshold
    obtain ⟨_, _, hposition, -⟩ := Double.le_iff.1 hthreshold
    exact absurd hposition nofun
  have hone : 1 ≤ c.threshold := Double.le_of_not_lt hnan ne_nan_one c.not_below_one
  have hunits := Double.averageUnits_le hreplicas (by omega) hbrokers
  have hfactor := Double.one_add_sub_one_le (by omega) hone hthreshold
  change 1 + c.percentage ≤ _ at hfactor
  obtain ⟨average, haverage, hfin, hposition⟩ | ⟨-, hlarge⟩ :=
    Double.quotient_cases replicas hbrokers
  · refine exists_limits_iff.2 ⟨average, haverage, ?_⟩
    have hfactor' : 0 ≤ 1 + c.percentage := Double.le_trans Double.zero_le_one
      (Double.le_add Double.isFinite_one (zero_le_percentage hnan))
    obtain ⟨f, b, hf, hb, hfb⟩ := Double.exists_nat_le hfactor' hfactor
    rw [Double.position_two_pow (by omega), Option.some.injEq, Int.ofNat_inj] at hb
    have hffin := Double.isFinite_of_le hfactor' hfactor (Double.isFinite_two_pow (by omega))
    rw [Double.isFinite_iff (Double.position_mul hposition hf hfin hffin), Int.natAbs_natCast]
    have hrep := Double.representable_two_pow_mul (by omega : k + (j + 1) < 1024)
    refine Nat.lt_of_le_of_lt ((Nat.min_le_left ..).trans ?_) hrep.1
    rw [← Double.nearestUnits_mul_self Double.unitsPerOne_pos hrep.2]
    refine Double.nearestUnits_mono Double.unitsPerOne_pos ?_
    calc Double.averageUnits replicas brokers * f
        ≤ 2 ^ k * Double.unitsPerOne * (2 ^ (j + 1) * Double.unitsPerOne) :=
          Nat.mul_le_mul hunits (hfb.trans hb.ge)
      _ = 2 ^ (k + (j + 1)) * Double.unitsPerOne * Double.unitsPerOne := by
          rw [Nat.mul_mul_mul_comm, ← Nat.pow_add, Nat.mul_assoc]
  · exact absurd (Double.representable_two_pow_mul (by omega : k < 1024)).1
      (Nat.not_lt.2 (hlarge.trans hunits))

end Limits

end Rebalance
