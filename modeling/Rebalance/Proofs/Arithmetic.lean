import Rebalance.Double.Arithmetic
import Rebalance.Proofs.Nearest

/-!
# Arithmetic keeps the order

Each operation rounds once, and rounding keeps the order. So what orders exact sums, products and
decimal roundings orders the doubles too, and as long as nothing overflows no bound is needed on how
far the rounding goes.
-/

namespace Rebalance.Double

variable {x y z : Double} {a b places : Nat} {i j : Int}

/-! ## The order -/

instance : LE Double := ⟨fun x y ↦ x < y ∨ x.same y⟩

instance : DecidableLE Double := fun x y ↦ inferInstanceAs (Decidable (x < y ∨ x.same y = true))

theorem le_iff : x ≤ y ↔ ∃ i j, x.position = some i ∧ y.position = some j ∧ i ≤ j := by
  change x < y ∨ x.same y = true ↔ _
  rw [lt_iff, same_iff]
  constructor
  · rintro (⟨i, j, hx, hy, hlt⟩ | ⟨i, hx, hy⟩)
    · exact ⟨i, j, hx, hy, hlt.le⟩
    · exact ⟨i, i, hx, hy, Int.le_refl i⟩
  · rintro ⟨i, j, hx, hy, hle⟩
    rcases Int.lt_or_eq_of_le hle with hlt | rfl
    · exact .inl ⟨i, j, hx, hy, hlt⟩
    · exact .inr ⟨i, hx, hy⟩

/-- To the right of a place there are only places. -/
theorem exists_position_ge (hx : x.position = some i) (h : x ≤ y) :
    ∃ j, y.position = some j ∧ i ≤ j := by
  obtain ⟨i', j, hi', hj, hle⟩ := le_iff.1 h
  rw [hx] at hi'
  obtain rfl := Option.some.inj hi'
  exact ⟨j, hj, hle⟩

/-- And so there are to the left of it. -/
theorem exists_position_le (hy : y.position = some j) (h : x ≤ y) :
    ∃ i, x.position = some i ∧ i ≤ j := by
  obtain ⟨i, j', hi, hj', hle⟩ := le_iff.1 h
  rw [hy] at hj'
  obtain rfl := Option.some.inj hj'
  exact ⟨i, hi, hle⟩

theorem le_trans (h : x ≤ y) (h' : y ≤ z) : x ≤ z := by
  obtain ⟨i, j, hi, hj, hij⟩ := le_iff.1 h
  obtain ⟨k, hk, hjk⟩ := exists_position_ge hj h'
  exact le_iff.2 ⟨i, k, hi, hk, Int.le_trans hij hjk⟩

theorem le_of_not_lt (hx : x ≠ nan) (hy : y ≠ nan) (h : ¬ x < y) : y ≤ x := by
  rcases lt_or_same_or_lt hx hy with hlt | hsame | hgt
  · exact absurd hlt h
  · obtain ⟨i, hi, hi'⟩ := same_iff.1 hsame
    exact le_iff.2 ⟨i, i, hi', hi, Int.le_refl i⟩
  · exact .inl hgt

/-! ## Places -/

theorem representable_unitsPerOne : Representable unitsPerOne := by decide +kernel

theorem unitsPerOne_pos : 0 < unitsPerOne := by decide +kernel

theorem position_ofRatio (num den : Nat) : (ofRatio false num den).position =
    some ↑(min (nearestUnits (num * unitsPerOne) den) unitLimit) := by
  rw [ofRatio, position_ofUnits, signed_false]

theorem position_ofNat (n : Nat) :
    (ofNat n).position = some ↑(min (nearestUnits (n * unitsPerOne) 1) unitLimit) :=
  position_ofRatio n 1

theorem position_zero : (0 : Double).position = some 0 := by
  change (ofNat 0).position = _
  rw [position_ofNat, Nat.zero_mul, nearestUnits_one representable_zero, Nat.zero_min,
    Int.natCast_zero]

theorem position_one : (1 : Double).position = some ↑unitsPerOne := by
  change (ofNat 1).position = _
  rw [position_ofNat, Nat.one_mul, nearestUnits_one representable_unitsPerOne,
    Nat.min_eq_left representable_unitsPerOne.1.le]

/-- What is not negative lies a natural number of units from zero. -/
theorem nonneg_iff : 0 ≤ x ↔ ∃ a : Nat, x.position = some ↑a := by
  constructor
  · intro h
    obtain ⟨j, hj, hle⟩ := exists_position_ge position_zero h
    obtain ⟨a, rfl⟩ := Int.eq_ofNat_of_zero_le hle
    exact ⟨a, hj⟩
  · rintro ⟨a, ha⟩
    exact le_iff.2 ⟨0, a, position_zero, ha, Int.natCast_nonneg a⟩

theorem natAbs_signed (negative : Bool) (units : Nat) :
    (signed negative units).natAbs = units := by
  cases negative <;> simp

/-- Whether a number is finite can be told from its place. -/
theorem isFinite_iff (hx : x.position = some i) : x.isFinite ↔ i.natAbs < unitLimit := by
  cases x with
  | nan => exact absurd hx nofun
  | infinite s =>
    obtain rfl := Option.some.inj hx
    simp [isFinite, natAbs_signed]
  | finite s m hm =>
    obtain rfl := Option.some.inj hx
    simp [isFinite, natAbs_signed, hm.1]

theorem exists_finite (hx : x.position = some i) (hfin : x.isFinite) :
    ∃ s h, x = finite s i.natAbs h ∧ signed s i.natAbs = i := by
  cases x with
  | nan => exact absurd hx nofun
  | infinite s => exact absurd hfin nofun
  | finite s m hm =>
    obtain rfl := Option.some.inj hx
    exact ⟨s, (natAbs_signed s m).symm ▸ hm, by simp only [natAbs_signed], by rw [natAbs_signed]⟩

theorem representable_of_position (hx : x.position = some i) (hfin : x.isFinite) :
    Representable i.natAbs := by
  obtain ⟨_, h, -, -⟩ := exists_finite hx hfin
  exact h

theorem natAbs_le (hx : x.position = some i) : i.natAbs ≤ unitLimit := by
  cases x with
  | nan => exact absurd hx nofun
  | infinite s =>
    obtain rfl := Option.some.inj hx
    rw [natAbs_signed]
  | finite s m hm =>
    obtain rfl := Option.some.inj hx
    rw [natAbs_signed]
    exact hm.1.le

/-- The only infinity that is not below some finite number is the positive one. -/
theorem eq_infinite_of_le (hx : x.isFinite) (h : x ≤ y) (hy : ¬ y.isFinite) :
    y = infinite false := by
  obtain ⟨i, j, hi, hj, hle⟩ := le_iff.1 h
  have hlt := (isFinite_iff hi).1 hx
  cases y with
  | nan => exact absurd hj nofun
  | infinite s =>
    obtain rfl := Option.some.inj hj
    cases s with
    | false => rfl
    | true =>
      rw [signed_true] at hle
      omega
  | finite s m hm => exact absurd rfl hy

theorem isFinite_zero : (0 : Double).isFinite := by
  rw [isFinite_iff position_zero]
  exact unitLimit_pos

theorem isFinite_one : (1 : Double).isFinite := by
  rw [isFinite_iff position_one]
  exact representable_unitsPerOne.1

theorem zero_le_one : (0 : Double) ≤ 1 := nonneg_iff.2 ⟨_, position_one⟩

/-- Of two numbers that are not negative, the places are natural numbers. -/
theorem exists_nat_le (hx : 0 ≤ x) (h : x ≤ y) :
    ∃ a b : Nat, x.position = some ↑a ∧ y.position = some ↑b ∧ a ≤ b := by
  obtain ⟨a, ha⟩ := nonneg_iff.1 hx
  obtain ⟨j, hj, hle⟩ := exists_position_ge ha h
  obtain ⟨b, rfl⟩ := Int.eq_ofNat_of_zero_le ((Int.natCast_nonneg a).trans hle)
  exact ⟨a, b, ha, hj, Int.ofNat_le.1 hle⟩

/-- Below a finite number there is no positive infinity. -/
theorem isFinite_of_le (hx : 0 ≤ x) (h : x ≤ y) (hy : y.isFinite) : x.isFinite := by
  obtain ⟨a, b, ha, hb, hle⟩ := exists_nat_le hx h
  rw [isFinite_iff ha]
  have hlt := (isFinite_iff hb).1 hy
  omega

/-! ## Sums -/

/-- The place that a whole number of units is rounded to. -/
def nearestPlace (i : Int) : Int := signed (i < 0) (min (nearestUnits i.natAbs 1) unitLimit)

theorem nearestPlace_eq (h : Representable i.natAbs) : nearestPlace i = i := by
  rw [nearestPlace, nearestUnits_one h, Nat.min_eq_left h.1.le]
  by_cases hneg : i < 0
  · rw [decide_eq_true hneg, signed_true]
    omega
  · rw [decide_eq_false hneg, signed_false]
    omega

theorem nearestPlace_zero : nearestPlace 0 = 0 := nearestPlace_eq (i := 0) representable_zero

theorem nearestPlace_mono (h : i ≤ j) : nearestPlace i ≤ nearestPlace j := by
  unfold nearestPlace
  by_cases hi : i < 0
  · rw [decide_eq_true hi, signed_true]
    by_cases hj : j < 0
    · rw [decide_eq_true hj, signed_true, Int.neg_le_neg_iff, Int.ofNat_le]
      exact min_le_min_right _ (nearestUnits_mono Nat.one_pos (by omega))
    · rw [decide_eq_false hj, signed_false]
      omega
  · have hj : ¬ j < 0 := by omega
    rw [decide_eq_false hi, decide_eq_false hj, signed_false, signed_false, Int.ofNat_le]
    exact min_le_min_right _ (nearestUnits_mono Nat.one_pos (by omega))

theorem position_add (hx : x.position = some i) (hy : y.position = some j) (hxfin : x.isFinite)
    (hyfin : y.isFinite) : (x + y).position = some (nearestPlace (i + j)) := by
  obtain ⟨s, hs, rfl, hi⟩ := exists_finite hx hxfin
  obtain ⟨t, ht, rfl, hj⟩ := exists_finite hy hyfin
  change (add _ _).position = _
  rw [add, hi, hj]
  split
  · rename_i hzero
    rw [hzero, nearestPlace_zero, position_ofUnits,
      nearestUnits_one representable_zero, Nat.zero_min]
    cases s && t <;> rfl
  · exact position_ofUnits ..

theorem position_neg (hx : x.position = some i) : x.neg.position = some (-i) := by
  cases x with
  | nan => exact absurd hx nofun
  | infinite s =>
    obtain rfl := Option.some.inj hx
    rw [neg, position, signed_not]
  | finite s m hm =>
    obtain rfl := Option.some.inj hx
    rw [neg, position, signed_not]

theorem isFinite_neg (x : Double) : x.neg.isFinite = x.isFinite := by cases x <;> rfl

theorem position_sub (hx : x.position = some i) (hy : y.position = some j) (hxfin : x.isFinite)
    (hyfin : y.isFinite) : (x - y).position = some (nearestPlace (i - j)) :=
  position_add hx (position_neg hy) hxfin ((isFinite_neg y).trans hyfin)

theorem add_infinite (hx : x.isFinite) (negative : Bool) :
    x + infinite negative = infinite negative := by
  cases x with
  | nan => exact absurd hx nofun
  | infinite s => exact absurd hx nofun
  | finite s m hm => rfl

theorem le_infinite (hx : x ≠ nan) : x ≤ infinite false := by
  obtain ⟨i, hi⟩ := Option.ne_none_iff_exists'.1 (mt position_eq_none_iff.1 hx)
  refine le_iff.2 ⟨i, unitLimit, hi, rfl, ?_⟩
  have hle := natAbs_le hi
  omega

theorem infinite_le (hx : x ≠ nan) : infinite true ≤ x := by
  obtain ⟨i, hi⟩ := Option.ne_none_iff_exists'.1 (mt position_eq_none_iff.1 hx)
  refine le_iff.2 ⟨-unitLimit, i, rfl, hi, ?_⟩
  have hle := natAbs_le hi
  omega

theorem ne_nan_of_isFinite (hx : x.isFinite) : x ≠ nan := by
  rintro rfl
  exact absurd hx nofun

theorem exists_position (hx : x.isFinite) : ∃ i, x.position = some i :=
  Option.ne_none_iff_exists'.1 (mt position_eq_none_iff.1 (ne_nan_of_isFinite hx))

theorem nan_add (y : Double) : nan + y = nan := rfl

theorem add_nan (x : Double) : x + nan = nan := by cases x <;> rfl

/-- No finite sum has a part that is not finite. -/
theorem isFinite_of_add (h : (x + y).isFinite) : x.isFinite ∧ y.isFinite := by
  change (add x y).isFinite at h
  cases x with
  | nan => exact (Bool.false_ne_true h).elim
  | infinite s =>
    cases y with
    | nan => exact (Bool.false_ne_true h).elim
    | infinite t =>
      rw [add] at h
      split at h <;> exact (Bool.false_ne_true h).elim
    | finite t n hn => exact (Bool.false_ne_true h).elim
  | finite s m hm =>
    cases y with
    | nan => exact (Bool.false_ne_true h).elim
    | infinite t => exact (Bool.false_ne_true h).elim
    | finite t n hn => exact ⟨rfl, rfl⟩

/-- Adding what is not negative does not lead to the left. -/
theorem le_add (hx : x.isFinite) (hy : 0 ≤ y) : x ≤ x + y := by
  by_cases hyfin : y.isFinite
  · obtain ⟨i, hi⟩ := exists_position hx
    obtain ⟨b, hb⟩ := nonneg_iff.1 hy
    refine le_iff.2 ⟨i, _, hi, position_add hi hb hx hyfin, ?_⟩
    calc i = nearestPlace i := (nearestPlace_eq (representable_of_position hi hx)).symm
      _ ≤ nearestPlace (i + b) := nearestPlace_mono (by omega)
  · rw [eq_infinite_of_le isFinite_zero hy hyfin, add_infinite hx]
    exact le_infinite (ne_nan_of_isFinite hx)

/-- Taking away what is not negative does not lead to the right. -/
theorem sub_le (hx : x.isFinite) (hy : 0 ≤ y) : x - y ≤ x := by
  by_cases hyfin : y.isFinite
  · obtain ⟨i, hi⟩ := exists_position hx
    obtain ⟨b, hb⟩ := nonneg_iff.1 hy
    refine le_iff.2 ⟨_, i, position_sub hi hb hx hyfin, hi, ?_⟩
    calc nearestPlace (i - b) ≤ nearestPlace i := nearestPlace_mono (by omega)
      _ = i := nearestPlace_eq (representable_of_position hi hx)
  · rw [eq_infinite_of_le isFinite_zero hy hyfin]
    change x + infinite true ≤ x
    rw [add_infinite hx]
    exact infinite_le (ne_nan_of_isFinite hx)

/-- Taking away what is not above a number leaves nothing negative. -/
theorem sub_nonneg (hy : y.isFinite) (h : y ≤ x) : 0 ≤ x - y := by
  by_cases hxfin : x.isFinite
  · obtain ⟨j, i, hj, hi, hle⟩ := le_iff.1 h
    refine le_iff.2 ⟨0, _, position_zero, position_sub hi hj hxfin hy, ?_⟩
    calc (0 : Int) = nearestPlace 0 := nearestPlace_zero.symm
      _ ≤ nearestPlace (i - j) := nearestPlace_mono (by omega)
  · rw [eq_infinite_of_le hy h hxfin]
    cases y with
    | nan => exact absurd hy nofun
    | infinite s => exact absurd hy nofun
    | finite s m hm => exact le_infinite (ne_nan_of_isFinite isFinite_zero)

theorem zero_le_positivePart (x : Double) : 0 ≤ x.positivePart := by
  unfold positivePart
  split
  · rename_i h
    obtain ⟨i, j, hi, hj, hlt⟩ := lt_iff.1 h
    obtain rfl := Option.some.inj hi
    exact le_iff.2 ⟨0, j, position_zero, hj, hlt.le⟩
  · exact le_iff.2 ⟨0, 0, position_zero, rfl, Int.le_refl 0⟩

theorem positivePart_le (hy : 0 ≤ y) (h : x ≤ y) : x.positivePart ≤ y := by
  unfold positivePart
  split
  · exact h
  · obtain ⟨b, hb⟩ := nonneg_iff.1 hy
    exact le_iff.2 ⟨0, b, rfl, hb, Int.natCast_nonneg b⟩

/-! ## Products -/

theorem mul_nan (x : Double) : x * nan = nan := by cases x <;> rfl

theorem nearestUnits_mul_self {den m : Nat} (hden : 0 < den) (hm : spacing m ∣ m) :
    nearestUnits (m * den) den = m := by
  have hdist := dist_nearestUnits_le hden (m * den) hm
  rw [Nat.dist_self, Nat.le_zero] at hdist
  exact (Nat.eq_of_mul_eq_mul_right hden (Nat.eq_of_dist_eq_zero hdist)).symm

theorem nearestUnits_zero {den : Nat} (hden : 0 < den) : nearestUnits 0 den = 0 := by
  have hself := nearestUnits_mul_self hden (m := 0) (Nat.dvd_zero _)
  rwa [Nat.zero_mul] at hself

/-- The sign of what is not negative only shows on zero. -/
theorem signed_eq {s : Bool} {n : Nat} (hs : signed s a = a) (hn : a = 0 → n = 0) :
    signed s n = n := by
  rcases Nat.eq_zero_or_pos a with hzero | hpos
  · rw [hn hzero]
    cases s <;> rfl
  · have hs' : s = false := eq_false_of_signed_nonneg hpos (by omega)
    rw [hs', signed_false]

theorem signed_bne {s t : Bool} (hs : signed s a = a) (ht : signed t b = b) :
    signed (s != t) (a * b) = (a * b : Nat) := by
  have hproduct : signed s (a * b) = (a * b : Nat) := signed_eq hs fun hzero ↦ by simp [hzero]
  cases t with
  | false => rwa [Bool.bne_false]
  | true =>
    rw [signed_true] at ht
    have hb : b = 0 := by omega
    rw [hb, Nat.mul_zero]
    cases s <;> rfl

theorem position_mul (hx : x.position = some (a : Int)) (hy : y.position = some (b : Int))
    (hxfin : x.isFinite) (hyfin : y.isFinite) :
    (x * y).position = some ↑(min (nearestUnits (a * b) unitsPerOne) unitLimit) := by
  obtain ⟨s, hs, rfl, hi⟩ := exists_finite hx hxfin
  obtain ⟨t, ht, rfl, hj⟩ := exists_finite hy hyfin
  change (mul _ _).position = _
  rw [mul, position_ofUnits, Int.natAbs_natCast, Int.natAbs_natCast]
  rw [Int.natAbs_natCast] at hi hj
  rw [signed_eq (signed_bne hi hj)]
  intro hzero
  rw [hzero, nearestUnits_zero unitsPerOne_pos, Nat.zero_min]

/-- The greater factor gives the greater product. -/
theorem mul_le_mul_left (hx : 0 ≤ x) (hxfin : x.isFinite) (hy : 0 ≤ y) (h : y ≤ z)
    (hzfin : z.isFinite) : x * y ≤ x * z := by
  obtain ⟨a, ha⟩ := nonneg_iff.1 hx
  obtain ⟨b, c, hb, hc, hle⟩ := exists_nat_le hy h
  refine le_iff.2 ⟨_, _, position_mul ha hb hxfin (isFinite_of_le hy h hzfin),
    position_mul ha hc hxfin hzfin, Int.ofNat_le.2 (min_le_min_right _ ?_)⟩
  exact nearestUnits_mono unitsPerOne_pos (Nat.mul_le_mul_left a hle)

theorem position_mul_one (hx : x.position = some (a : Int)) (hxfin : x.isFinite) :
    (x * 1).position = some ↑a := by
  have hrep := representable_of_position hx hxfin
  rw [Int.natAbs_natCast] at hrep
  rw [position_mul hx position_one hxfin isFinite_one,
    nearestUnits_mul_self unitsPerOne_pos hrep.2, Nat.min_eq_left hrep.1.le]

theorem isFinite_mul_one (hx : 0 ≤ x) (hxfin : x.isFinite) : (x * 1).isFinite := by
  obtain ⟨a, ha⟩ := nonneg_iff.1 hx
  exact (isFinite_iff (position_mul_one ha hxfin)).2 ((isFinite_iff ha).1 hxfin)

theorem mul_nonneg (hx : 0 ≤ x) (hxfin : x.isFinite) (hy : 0 ≤ y) (hyfin : y.isFinite) :
    0 ≤ x * y := by
  obtain ⟨a, ha⟩ := nonneg_iff.1 hx
  obtain ⟨b, hb⟩ := nonneg_iff.1 hy
  exact nonneg_iff.2 ⟨_, position_mul ha hb hxfin hyfin⟩

/-- No finite product has an infinite factor, or one that is not a number. -/
theorem isFinite_of_mul (h : (x * y).isFinite) : y.isFinite := by
  change (mul x y).isFinite at h
  cases y with
  | nan => cases x <;> exact (Bool.false_ne_true h).elim
  | infinite t =>
    cases x with
    | nan => exact (Bool.false_ne_true h).elim
    | infinite s => exact (Bool.false_ne_true h).elim
    | finite s m hm =>
      rw [mul] at h
      split at h <;> exact (Bool.false_ne_true h).elim
  | finite t n hn => rfl

/-! ## Powers of two -/

theorem two_pow_lt_two_pow {e n : Nat} (h : e < n) : 2 ^ e < 2 ^ n :=
  Nat.pow_lt_pow_right (by decide) h

theorem representable_two_pow {e : Nat} (he : e < 2098) : Representable (2 ^ e) := by
  refine ⟨two_pow_lt_two_pow he, ?_⟩
  have hdvd := spacing_dvd_mul (k := 1) (by decide) e
  rwa [Nat.mul_one] at hdvd

theorem representable_two_pow_mul {e : Nat} (he : e < 1024) :
    Representable (2 ^ e * unitsPerOne) := by
  rw [unitsPerOne, ← Nat.pow_add]
  exact representable_two_pow (by omega)

theorem position_two_pow {e : Nat} (he : e < 1024) :
    (ofNat (2 ^ e)).position = some ↑(2 ^ e * unitsPerOne) := by
  have hrep := representable_two_pow_mul he
  rw [position_ofNat, nearestUnits_one hrep, Nat.min_eq_left hrep.1.le]

theorem isFinite_two_pow {e : Nat} (he : e < 1024) : (ofNat (2 ^ e)).isFinite := by
  rw [isFinite_iff (position_two_pow he), Int.natAbs_natCast]
  exact (representable_two_pow_mul he).1

/-- Taking one away and adding it again, rounding both times, does not double a number. -/
theorem one_add_sub_one_le {j : Nat} (hj : j < 1023) (hone : 1 ≤ x) (h : x ≤ ofNat (2 ^ j)) :
    1 + (x - 1) ≤ ofNat (2 ^ (j + 1)) := by
  have hpow := position_two_pow (by omega : j < 1024)
  have hpow' := position_two_pow (by omega : j + 1 < 1024)
  have hx : x.isFinite := isFinite_of_le (le_trans zero_le_one hone) h (isFinite_two_pow (by omega))
  have hless : 0 ≤ x - 1 := sub_nonneg isFinite_one hone
  have hle : x - 1 ≤ x := sub_le hx zero_le_one
  obtain ⟨y, hy, hyz⟩ := exists_position_le hpow (le_trans hle h)
  refine le_iff.2 ⟨_, _, position_add position_one hy isFinite_one (isFinite_of_le hless hle hx),
    hpow', ?_⟩
  have hsum : unitsPerOne + y ≤ (2 ^ (j + 1) * unitsPerOne : Nat) := by
    have hunit : unitsPerOne ≤ 2 ^ j * unitsPerOne := Nat.le_mul_of_pos_left _ (Nat.two_pow_pos j)
    have htwice : 2 ^ (j + 1) * unitsPerOne = 2 ^ j * unitsPerOne + 2 ^ j * unitsPerOne := by
      rw [Nat.pow_succ, Nat.mul_two, Nat.add_mul]
    omega
  calc nearestPlace (unitsPerOne + y)
      ≤ nearestPlace (2 ^ (j + 1) * unitsPerOne : Nat) := nearestPlace_mono hsum
    _ = (2 ^ (j + 1) * unitsPerOne : Nat) :=
      nearestPlace_eq (representable_two_pow_mul (by omega : j + 1 < 1024))

/-! ## Decimal places -/

/-- The units of a number of units that is rounded to decimal places. -/
def roundedUnits (places units : Nat) : Nat :=
  nearestUnits (roundHalfEven (units * 10 ^ places) unitsPerOne * unitsPerOne) (10 ^ places)

theorem roundedUnits_mono (h : a ≤ b) : roundedUnits places a ≤ roundedUnits places b :=
  nearestUnits_mono (Nat.pow_pos (by decide)) (Nat.mul_le_mul_right _
    (roundHalfEven_mono (Nat.mul_le_mul_right _ h) _))

/-- Rounding a double to decimal places and to a double again moves it by no more than one in the
last of these places: half of that the first time, and no more the second time, for the double is
near enough itself. -/
theorem dist_roundedUnits_le (h : spacing a ∣ a) :
    Nat.dist (a * 10 ^ places) (roundedUnits places a * 10 ^ places) ≤ unitsPerOne := by
  have hfirst := two_mul_dist_roundHalfEven_le unitsPerOne_pos (a * 10 ^ places)
  have hsecond := dist_nearestUnits_le (Nat.pow_pos (n := places) (by decide : 0 < 10))
    (roundHalfEven (a * 10 ^ places) unitsPerOne * unitsPerOne) h
  rw [Nat.dist_comm _ (a * 10 ^ places)] at hsecond
  refine (Nat.dist.triangle_inequality _ _ _).trans ((Nat.add_le_add_left hsecond _).trans ?_)
  omega

/-- Below a power of two there is room for a step of the widest spacing. -/
theorem add_le_two_pow {n : Nat} (hn : 53 ≤ n) (ha : a < 2 ^ n) (hdvd : spacing a ∣ a) :
    a + 2 ^ (n - 53) ≤ 2 ^ n := by
  rcases Nat.lt_or_ge a.log2 (n - 1) with hshort | hlong
  · have hlt : a < 2 ^ (n - 1) :=
      Nat.lt_of_lt_of_le Nat.lt_log2_self (Nat.pow_le_pow_right (by decide) hshort)
    have hwide : 2 ^ (n - 53) ≤ 2 ^ (n - 1) := Nat.pow_le_pow_right (by decide) (by omega)
    calc a + 2 ^ (n - 53) ≤ 2 ^ (n - 1) + 2 ^ (n - 1) := Nat.add_le_add hlt.le hwide
      _ = 2 ^ n := by rw [← Nat.mul_two, ← Nat.pow_succ, Nat.succ_eq_add_one,
          Nat.sub_add_cancel (by omega)]
  · obtain ⟨k, rfl⟩ : 2 ^ (n - 53) ∣ a := (Nat.pow_dvd_pow 2 (by omega)).trans hdvd
    have hsplit : 2 ^ n = 2 ^ (n - 53) * 2 ^ (53 : Nat) := by
      rw [← Nat.pow_add, Nat.sub_add_cancel hn]
    rw [hsplit] at ha ⊢
    rw [← Nat.mul_succ]
    exact Nat.mul_le_mul_left _ (Nat.lt_of_mul_lt_mul_left ha)

/-- A finite double stays finite. -/
theorem roundedUnits_lt (h : Representable a) : roundedUnits places a < unitLimit := by
  by_contra hge
  have hten : 0 < 10 ^ places := Nat.pow_pos (by decide)
  have hnear : roundedUnits places a * 10 ^ places ≤ a * 10 ^ places + unitsPerOne := by
    have hdist : Nat.dist _ (roundedUnits places a * 10 ^ places) ≤ _ := dist_roundedUnits_le h.2
    unfold Nat.dist at hdist
    omega
  have hroom := add_le_two_pow (by decide : 53 ≤ 2098) h.1 h.2
  have hwide : unitsPerOne < 2 ^ (2098 - 53) := by decide +kernel
  generalize 2 ^ (2098 - 53) = wide at *
  have hstep : wide ≤ wide * 10 ^ places := Nat.le_mul_of_pos_right _ hten
  have hmul : (a + wide) * 10 ^ places ≤ roundedUnits places a * 10 ^ places :=
    Nat.mul_le_mul_right _ (hroom.trans (Nat.not_lt.1 hge))
  rw [Nat.add_mul] at hmul
  omega

theorem roundedUnits_zero (places : Nat) : roundedUnits places 0 = 0 := by
  have hzero := roundHalfEven_mul 0 unitsPerOne_pos
  rw [Nat.zero_mul] at hzero
  rw [roundedUnits, Nat.zero_mul, hzero, Nat.zero_mul, nearestUnits_zero (Nat.pow_pos (by decide))]

theorem position_roundTo (places : Nat) (hx : x.position = some (a : Int)) (hfin : x.isFinite) :
    (x.roundTo places).position = some ↑(roundedUnits places a) := by
  obtain ⟨s, hs, rfl, hi⟩ := exists_finite hx hfin
  rw [Int.natAbs_natCast] at hi
  have hlt : roundedUnits places a < unitLimit := roundedUnits_lt hs
  simp only [Int.natAbs_natCast, roundTo]
  rw [ofRatio, position_ofUnits]
  change some (signed s (min (roundedUnits places a) unitLimit)) = _
  rw [Nat.min_eq_left hlt.le, signed_eq hi]
  rintro rfl
  exact roundedUnits_zero places

/-- The greater number is rounded to the greater one. -/
theorem roundTo_le_roundTo (hx : 0 ≤ x) (h : x ≤ y) (hy : y.isFinite) :
    x.roundTo places ≤ y.roundTo places := by
  obtain ⟨a, b, ha, hb, hle⟩ := exists_nat_le hx h
  exact le_iff.2 ⟨_, _, position_roundTo places ha (isFinite_of_le hx h hy),
    position_roundTo places hb hy, Int.ofNat_le.2 (roundedUnits_mono hle)⟩

theorem roundTo_nonneg (hx : 0 ≤ x) (hfin : x.isFinite) : 0 ≤ x.roundTo places := by
  obtain ⟨a, ha⟩ := nonneg_iff.1 hx
  exact nonneg_iff.2 ⟨_, position_roundTo places ha hfin⟩

theorem isFinite_of_roundTo (h : (x.roundTo places).isFinite) : x.isFinite := by
  cases x with
  | nan => exact absurd h nofun
  | infinite s => exact absurd h nofun
  | finite s m hm => rfl

theorem isFinite_roundTo (places : Nat) (hx : 0 ≤ x) (hfin : x.isFinite) :
    (x.roundTo places).isFinite := by
  obtain ⟨a, ha⟩ := nonneg_iff.1 hx
  rw [isFinite_iff (position_roundTo places ha hfin), Int.natAbs_natCast]
  exact roundedUnits_lt (Int.natAbs_natCast a ▸ representable_of_position ha hfin)

/-- The greater factor gives the greater product, rounded too. -/
theorem roundTo_mul_le (hx : 0 ≤ x) (hxfin : x.isFinite) (hy : 0 ≤ y) (h : y ≤ z)
    (hz : (x * z).isFinite) : (x * y).roundTo places ≤ (x * z).roundTo places := by
  have hzfin : z.isFinite := isFinite_of_mul hz
  exact roundTo_le_roundTo (mul_nonneg hx hxfin hy (isFinite_of_le hy h hzfin))
    (mul_le_mul_left hx hxfin hy h hzfin) hz

/-! ## Integers -/

theorem isFinite_of_ceil {k : Int} (h : x.ceil = .ok k) : x.isFinite := by
  cases x with
  | nan => exact absurd h nofun
  | infinite s => exact absurd h nofun
  | finite s m hm => rfl

theorem isFinite_of_floor {k : Int} (h : x.floor = .ok k) : x.isFinite := by
  cases x with
  | nan => exact absurd h nofun
  | infinite s => exact absurd h nofun
  | finite s m hm => rfl

theorem ceil_eq (hx : x.position = some i) (hfin : x.isFinite) :
    x.ceil = .ok (-(-i / unitsPerOne)) := by
  obtain ⟨s, hm, rfl, hi⟩ := exists_finite hx hfin
  rw [ceil, hi]
  rfl

theorem floor_eq (hx : x.position = some i) (hfin : x.isFinite) :
    x.floor = .ok (i / unitsPerOne) := by
  obtain ⟨s, hm, rfl, hi⟩ := exists_finite hx hfin
  rw [floor, hi]
  rfl

/-- What is raised to an integer is not right of it. -/
theorem le_of_ceil {k : Int} (hy : y.position = some i) (h : y ≤ x) (hceil : x.ceil = .ok k) :
    i ≤ k * unitsPerOne := by
  obtain ⟨j, hj, hle⟩ := exists_position_ge hy h
  rw [ceil_eq hj (isFinite_of_ceil hceil)] at hceil
  obtain rfl := Except.ok.inj hceil
  have hdiv := Int.ediv_mul_le (-j) (Int.natCast_pos.2 unitsPerOne_pos).ne'
  rw [Int.neg_mul]
  omega

/-- What is lowered to an integer is not left of it. -/
theorem floor_le {k : Int} (hy : y.position = some i) (h : x ≤ y) (hfloor : x.floor = .ok k) :
    k * unitsPerOne ≤ i := by
  obtain ⟨j, hj, hle⟩ := exists_position_le hy h
  rw [floor_eq hj (isFinite_of_floor hfloor)] at hfloor
  obtain rfl := Except.ok.inj hfloor
  exact (Int.ediv_mul_le _ (Int.natCast_pos.2 unitsPerOne_pos).ne').trans hle

theorem zero_le_floor {k : Int} (hx : 0 ≤ x) (h : x.floor = .ok k) : 0 ≤ k := by
  obtain ⟨a, ha⟩ := nonneg_iff.1 hx
  rw [floor_eq ha (isFinite_of_floor h)] at h
  obtain rfl := Except.ok.inj h
  exact Int.ediv_nonneg (Int.natCast_nonneg a) (Int.natCast_nonneg _)

end Rebalance.Double
