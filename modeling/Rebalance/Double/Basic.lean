import Rebalance.Double.Rounding

/-!
# Doubles, exactly

A finite double of 64 bits is a whole number of the least positive one, so it is held as that number
of units with a sign; zero keeps its sign. Besides there are the two infinities and one value that
is not a number. All arithmetic is done on the exact integers and rounded once.

The order goes by `position`, the place on the number line; what is not a number has none, so it is
neither less than, nor equal to, anything.
-/

namespace Rebalance

open Double in
/-- A floating point number of 64 bits; `units` counts multiples of `2 ^ -1074`. -/
inductive Double where
  | nan
  | infinite (negative : Bool)
  | finite (negative : Bool) (units : Nat) (representable : Representable units)
deriving DecidableEq

namespace Double

/-- The number of units in one. -/
def unitsPerOne : Nat := 2 ^ (1074 : Nat)

/-- Why a number could not be computed. -/
inductive Fault where
  /-- A quotient by zero. -/
  | divisionByZero
  /-- An integer, or a quotient of integers, past the largest finite double. -/
  | tooLarge
  /-- The integer of what is not a number. -/
  | nanToInteger
  /-- The integer of an infinity. -/
  | infinityToInteger
  /-- A running sum that left the finite range. -/
  | sumTooLarge
  /-- A sum with infinities of both signs. -/
  | opposedInfinities
  /-- The spread of values that are not all finite. -/
  | spreadOfNonFinite
deriving DecidableEq, Repr

/-- The double nearest to `num / den` units, infinite from the limit on. -/
def ofUnits (negative : Bool) (num den : Nat) : Double :=
  if h : nearestUnits num den < unitLimit then
    .finite negative (nearestUnits num den) (representable_nearestUnits h)
  else .infinite negative

/-- The double nearest to `num / den`. -/
def ofRatio (negative : Bool) (num den : Nat) : Double :=
  ofUnits negative (num * unitsPerOne) den

/-- The double nearest to `digits * 10 ^ exponent`. -/
def ofDecimal (negative : Bool) (digits : Nat) (exponent : Int) : Double :=
  if 0 ≤ exponent then ofRatio negative (digits * 10 ^ exponent.toNat) 1
  else ofRatio negative digits (10 ^ (-exponent).toNat)

/-- The double nearest to an integer, infinite when it is too large. -/
def ofInt (i : Int) : Double := ofRatio (i < 0) i.natAbs 1

/-- The double nearest to a natural number. -/
def ofNat (n : Nat) : Double := ofRatio false n 1

def zero : Double := .finite false 0 representable_zero

def one : Double := ofNat 1

instance : Inhabited Double := ⟨zero⟩

instance (n : Nat) : OfNat Double n := ⟨ofNat n⟩

def isNaN : Double → Bool
  | nan => true
  | _ => false

def isFinite : Double → Bool
  | finite .. => true
  | _ => false

/-- A number of units with its sign. -/
def signed (negative : Bool) (units : Nat) : Int := if negative then -units else units

@[simp] theorem signed_false (n : Nat) : signed false n = n := rfl

@[simp] theorem signed_true (n : Nat) : signed true n = -n := rfl

/-! ## Order -/

/-- The place on the number line in units; an infinity lies one past the largest finite value. -/
def position : Double → Option Int
  | nan => none
  | infinite negative => some (signed negative unitLimit)
  | finite negative units _ => some (signed negative units)

@[simp] theorem position_nan : position nan = none := rfl

theorem position_eq_none_iff {x : Double} : x.position = none ↔ x = nan := by
  cases x <;> simp [position]

/-- Both have a place and the first is to the left. -/
def lt (x y : Double) : Bool :=
  match x.position, y.position with
  | some a, some b => a < b
  | _, _ => false

/-- Both have the same place; the two zeros do. -/
def same (x y : Double) : Bool :=
  match x.position, y.position with
  | some a, some b => a = b
  | _, _ => false

instance : LT Double := ⟨fun x y ↦ x.lt y⟩

instance : DecidableLT Double := fun x y ↦ inferInstanceAs (Decidable (x.lt y = true))

theorem lt_iff {x y : Double} :
    x < y ↔ ∃ a b, x.position = some a ∧ y.position = some b ∧ a < b := by
  change x.lt y = true ↔ _
  unfold lt
  cases x.position <;> cases y.position <;> simp

theorem same_iff {x y : Double} :
    x.same y = true ↔ ∃ a, x.position = some a ∧ y.position = some a := by
  unfold same
  cases x.position <;> cases y.position <;> simp [eq_comm]

theorem not_lt_nan (x : Double) : ¬ x < nan := by simp [lt_iff]

theorem not_nan_lt (x : Double) : ¬ nan < x := by simp [lt_iff]

theorem lt_irrefl (x : Double) : ¬ x < x := by
  rw [lt_iff]
  rintro ⟨a, b, ha, hb, hlt⟩
  rw [ha] at hb
  obtain rfl := Option.some.inj hb
  omega

theorem lt_trans {x y z : Double} (h : x < y) (h' : y < z) : x < z := by
  rw [lt_iff] at *
  obtain ⟨a, b, ha, hb, hab⟩ := h
  obtain ⟨b', c, hb', hc, hbc⟩ := h'
  rw [hb] at hb'
  obtain rfl := Option.some.inj hb'
  exact ⟨a, c, ha, hc, by omega⟩

/-- Numbers are comparable unless one of them is not a number. -/
theorem lt_or_same_or_lt {x y : Double} (hx : x ≠ nan) (hy : y ≠ nan) :
    x < y ∨ x.same y ∨ y < x := by
  obtain ⟨a, ha⟩ := Option.ne_none_iff_exists'.1 (mt position_eq_none_iff.1 hx)
  obtain ⟨b, hb⟩ := Option.ne_none_iff_exists'.1 (mt position_eq_none_iff.1 hy)
  rw [lt_iff, same_iff, lt_iff]
  rcases Int.lt_trichotomy a b with h | rfl | h
  · exact .inl ⟨a, b, ha, hb, h⟩
  · exact .inr (.inl ⟨a, ha, hb⟩)
  · exact .inr (.inr ⟨b, a, hb, ha, h⟩)

end Double

end Rebalance
