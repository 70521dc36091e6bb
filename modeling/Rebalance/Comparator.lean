import Rebalance.Cluster.Statistics
import Rebalance.Double.Places

/-!
# Comparing statistics

After a goal was pursued its statistics must not be worse than before. Spreads that differ by no
more than a tolerance count as equal.
-/

namespace Rebalance

namespace Double

/-- The tolerance when none is given. -/
def defaultTolerance : Double := .ofDecimal false 1 (-5)

/-- One if the first number is greater by more than the tolerance, minus one if the second is, zero
otherwise. -/
def compareWithin (tolerance x y : Double) : Int :=
  if tolerance < y - x then -1 else if tolerance < x - y then 1 else 0

end Double

/-- Prefers the statistics with the smaller spread of replica counts, and remembers why it last did
not prefer the later ones. -/
structure Comparator where
  goal : String
  tolerance : Double := Double.defaultTolerance
  reason : Option String := none
deriving DecidableEq

namespace Comparator

/-- Why later statistics are no better than earlier ones. -/
def explanation (goal : String) (later earlier : Summary) : String :=
  "Violated " ++ goal ++ ". [Std Deviation of Replica Distribution] post-optimization:" ++
    later.deviation.fixed 3 ++ " pre-optimization:" ++ earlier.deviation.fixed 3

/-- Compares later with earlier statistics: one if the later are better, minus one if they are
worse, zero if they are neither. -/
def compare (c : Comparator) (later earlier : Summary) : Int × Comparator :=
  let result := Double.compareWithin c.tolerance earlier.deviation later.deviation
  if result ≤ 0 then (result, { c with reason := some (explanation c.goal later earlier) })
  else (result, c)

/-- Whether the later statistics are better. -/
def isImprovement (c : Comparator) (later earlier : Summary) : Bool × Comparator :=
  let (result, c) := c.compare later earlier
  (0 < result, c)

end Comparator

end Rebalance
