import Rebalance.Double.Arithmetic
import Rebalance.Fault

/-!
# The balance constraint

The threshold is the ratio of a broker's replica count to the average that is still in balance. It
must not be below one; what is not a number is not below one either.
-/

namespace Rebalance

/-- The threshold when none is given. -/
def defaultThreshold : Double := .ofDecimal false 110 (-2)

theorem not_defaultThreshold_lt_one : ¬ defaultThreshold < 1 := by decide +kernel

/-- How far from the average a broker may be. -/
structure Constraint where
  threshold : Double
  not_below_one : ¬ threshold < 1
deriving DecidableEq

namespace Constraint

/-- The constraint when none is given. -/
def standard : Constraint := ⟨defaultThreshold, not_defaultThreshold_lt_one⟩

instance : Inhabited Constraint := ⟨standard⟩

/-- The constraint with a threshold. -/
def ofThreshold (threshold : Double) : Except Fault Constraint :=
  if h : threshold < 1 then .error (.thresholdTooLow threshold) else .ok ⟨threshold, h⟩

/-- The deviation from the average that is allowed, as a part of the average. -/
def percentage (c : Constraint) : Double := c.threshold - 1

end Constraint

end Rebalance
