import Rebalance.Double.Arithmetic

/-!
# Balance limits

The number of replicas that a broker may hold lies between two limits around the average. They are
computed in doubles and rounded to nine places, which drops the noise of the multiplication, before
the upper one is raised and the lower one lowered to an integer.
-/

namespace Rebalance

/-- The least and the greatest number of replicas in balance, and the average. -/
structure Limits where
  lower : Int := 0
  upper : Int := 0
  average : Double := 0
deriving DecidableEq, Inhabited

namespace Limits

/-- The decimal places that are kept. -/
def places : Nat := 9

/-- The limits for a number of replicas on a number of brokers and a deviation from the average. -/
def of (replicas brokers : Int) (percentage : Double) : Except Double.Fault Limits := do
  let average ← Double.quotient replicas brokers
  let upper ← (average * (1 + percentage)).roundTo places |>.ceil
  let lower ← (average * (1 - percentage).positivePart).roundTo places |>.floor
  return { lower, upper, average }

end Limits

end Rebalance
