import Rebalance.Double.Arithmetic

/-!
# Statistics of values

Mean, extremes and spread of a list of values. The mean is the exact sum, rounded, over the count;
the spread is the square root of the exact population variance, rounded once. Without values all of
them are zero.
-/

namespace Rebalance

/-- The sum of integers. -/
def total (values : List Int) : Int := values.foldr (· + ·) 0

namespace Double

/-- The exact value in units of a finite number, zero for the others. -/
def exact : Double → Int
  | finite s m _ => signed s m
  | _ => 0

def abs : Double → Double
  | finite _ m h => finite false m h
  | infinite _ => infinite false
  | nan => nan

/-! ## Sums

A running sum is kept as parts that do not overlap, the smallest first. Each new value is added to
the parts in turn; what is lost in rounding an addition remains as a part. -/

/-- Adds a number to the parts of a sum: the parts that remain, and what is carried past them. -/
def absorb : List Double → Double → List Double × Double
  | [], x => ([], x)
  | y :: rest, x =>
    let (larger, smaller) := if x.abs < y.abs then (y, x) else (x, y)
    let sum := larger + smaller
    let lost := smaller - (sum - larger)
    let (parts, carried) := absorb rest sum
    (if lost.same zero then parts else lost :: parts, carried)

/-- The parts of a running sum with one more value; a finite value must leave it in range, and after
a value that is not finite the parts begin anew. -/
def accumulate (parts : List Double) (x : Double) : Except Fault (List Double) :=
  let (parts, carried) := absorb parts x
  if carried.same zero then .ok parts
  else if carried.isFinite then .ok (parts ++ [carried])
  else if x.isFinite then .error .sumTooLarge
  else .ok []

/-- The sum of all values, rounded once. -/
def sum (values : List Double) : Except Fault Double := do
  let _ ← values.foldlM accumulate []
  if values.contains (.infinite true) && values.contains (.infinite false) then
    throw .opposedInfinities
  else if values.all isFinite then
    let units := total (values.map exact)
    return ofUnits (units < 0) units.natAbs 1
  else return (values.filter (!·.isFinite)).foldl add zero

end Double

/-- Mean, extremes and spread. -/
structure Summary where
  mean : Double := 0
  greatest : Double := 0
  least : Double := 0
  deviation : Double := 0
deriving DecidableEq, Inhabited

namespace Summary

/-- The value that no other is above, the first of several. -/
def greatestOf (first : Double) (rest : List Double) : Double :=
  rest.foldl (fun best x ↦ if best < x then x else best) first

/-- The value that no other is below, the first of several. -/
def leastOf (first : Double) (rest : List Double) : Double :=
  rest.foldl (fun best x ↦ if x < best then x else best) first

/-- The population variance of exact values, as a numerator over the square of their number. -/
def variance (values : List Int) : Int :=
  values.length * total (values.map fun x ↦ x * x) - total values * total values

/-- The double nearest to the population standard deviation of exact values in units. -/
def spread (values : List Int) : Double :=
  Double.sqrtUnits (variance values).toNat (values.length * values.length)

/-- The statistics of values with a given sum and exact values in units. -/
def withSum (sum : Double) (exact : List Int) : List Double → Summary
  | [] => {}
  | first :: rest =>
    { mean := sum.divNat (rest.length + 1)
      greatest := greatestOf first rest
      least := leastOf first rest
      deviation := spread exact }

/-- The statistics of any values; only finite ones have a spread. -/
def ofValues (values : List Double) : Except Double.Fault Summary := do
  let sum ← Double.sum values
  if values.all Double.isFinite then return withSum sum (values.map Double.exact) values
  else throw .spreadOfNonFinite

/-- The statistics of counts, which are exact whatever their size. -/
def ofCounts (counts : List Nat) : Summary :=
  withSum (Double.ofNat (counts.foldr (· + ·) 0))
    (counts.map fun n ↦ (n * Double.unitsPerOne : Nat)) (counts.map Double.ofNat)

end Summary

end Rebalance
