import Rebalance.Double.Decimal

/-!
# Doubles to a given precision

Beside its shortest text a double has texts of a given precision, in three forms: with a number of
places behind the point, with a number of places and an exponent, and with a number of significant
digits. All of them round the exact value, a half to the even neighbour.
-/

namespace Rebalance.Double

/-- The form of a text of a given precision. -/
inductive Form where
  /-- So many places behind the point. -/
  | fixed
  /-- One digit before the point, so many places behind it, and an exponent. -/
  | exponential
  /-- So many significant digits, with an exponent if the point would be far from them. -/
  | general
deriving DecidableEq

/-- A unit has this many places, so no double has more of them, nor more significant digits. -/
def unitPlaces : Nat := 1074

/-- Digits before and after a point, which is left out at the end unless it is to be kept. -/
def joinAtPoint (keepPoint : Bool) (parts : List Char × List Char) : List Char :=
  if parts.2.isEmpty && !keepPoint then parts.1 else parts.1 ++ '.' :: parts.2

/-- The digits before and after the point of a number of units, rounded to a number of places. -/
def roundedPlaces (places units : Nat) : List Char × List Char :=
  let exact := min places unitPlaces
  let digits := decimalDigits (roundHalfEven (units * 10 ^ exact) unitsPerOne)
  let padded := zeros (exact + 1 - digits.length) ++ digits
  let point := padded.length - exact
  (padded.take point, padded.drop point ++ zeros (places - exact))

/-- As many leading digits of a number of units as given, at least one, and the exponent of the
first; those that are zero for every double are left out. -/
def leadingDigits (count units : Nat) : List Char × Int :=
  let count := min count unitPlaces
  if units = 0 then (zeros count, 0)
  else
    let leading := leadingExponent units unitsPerOne
    let digits := decimalDigits (gridNeighbours units unitsPerOne (leading + 1 - count)).1
    (digits.take count, if digits.length = count then leading else leading + 1)

/-- One digit before the point, a number of places behind it, and an exponent. -/
def exponentialText (places : Nat) (keepPoint : Bool) (units : Nat) : List Char :=
  let (digits, exponent) := leadingDigits (places + 1) units
  let digits := digits ++ zeros (places + 1 - digits.length)
  joinAtPoint keepPoint (splitAtPoint digits 1) ++ exponentText exponent

/-- A number of significant digits, at least one. Trailing zeros go unless the point is kept. An
exponent is written from the one on that the digits do not reach, as for the shortest text. -/
def generalText (precision : Nat) (keepPoint : Bool) (units : Nat) : List Char :=
  let count := max precision 1
  let (digits, exponent) := leadingDigits count units
  let digits :=
    if keepPoint then digits ++ zeros (count - digits.length) else dropTrailingZeros digits
  if layout.leastPositional ≤ exponent && exponent < count then
    joinAtPoint keepPoint (splitAtPoint digits (exponent + 1))
  else joinAtPoint keepPoint (splitAtPoint digits 1) ++ exponentText exponent

/-- The text of a double without its sign. -/
def magnitude (form : Form) (precision : Nat) (keepPoint : Bool) : Double → List Char
  | nan => "nan".toList
  | infinite _ => "inf".toList
  | finite _ units _ =>
    match form with
    | .fixed => joinAtPoint keepPoint (roundedPlaces precision units)
    | .exponential => exponentialText precision keepPoint units
    | .general => generalText precision keepPoint units

/-- Whether the text of a double has a minus sign. -/
def isNegative : Double → Bool
  | nan => false
  | infinite negative => negative
  | finite negative _ _ => negative

/-- The text with a number of places behind the point. -/
def fixed (places : Nat) (x : Double) : String :=
  signText x.isNegative ++ String.ofList (x.magnitude .fixed places false)

end Rebalance.Double
