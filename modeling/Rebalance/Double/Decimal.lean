import Rebalance.Double.Basic

/-!
# Doubles in decimal

`shortest` gives the fewest decimal digits that read back as the same double and, among those, the
ones nearest to it. `text` writes them positionally from `0.0001` up to sixteen digits before the
point and with an exponent otherwise.
-/

namespace Rebalance.Double

/-- The digits of a number in base ten. -/
def decimalDigits (n : Nat) : List Char := Nat.toDigits 10 n

/-- The exponent of the leading decimal digit of `num / den`, which is above zero. -/
def leadingExponent (num den : Nat) : Int :=
  if den ≤ num then (decimalDigits (num / den)).length - 1
  else -(decimalDigits ((den - 1) / num)).length

/-- The numbers below and above `num / den` on the grid of the multiples of `10 ^ exponent`, the
nearer one first; of two that are as near, the even one. -/
def gridNeighbours (num den : Nat) (exponent : Int) : Nat × Nat :=
  let (num, den) :=
    if 0 ≤ exponent then (num, den * 10 ^ exponent.toNat) else (num * 10 ^ (-exponent).toNat, den)
  let below := num / den
  if roundHalfEven num den = below then (below, below + 1) else (below + 1, below)

/-- Whether `digits * 10 ^ exponent` rounds to the given number of units. -/
def readsBackAs (units digits : Nat) (exponent : Int) : Bool :=
  match ofDecimal false digits exponent with
  | finite _ m _ => m = units
  | _ => false

/-- Digits and exponent of the shortest decimal for a number of units, trying as many digits as
given after those tried before; seventeen always suffice. -/
def shortestFrom (units : Nat) (leading : Int) (tried : Nat) : Nat → Nat × Int
  | 0 => (0, 0)
  | left + 1 =>
    let exponent := leading - tried
    let (nearer, farther) := gridNeighbours units unitsPerOne exponent
    if readsBackAs units nearer exponent then (nearer, exponent)
    else if readsBackAs units farther exponent then (farther, exponent)
    else shortestFrom units leading (tried + 1) left

/-- The fewest decimal digits that read back as the given units, and the exponent of the last. -/
def shortest (units : Nat) : Nat × Int :=
  if units = 0 then (0, 0) else shortestFrom units (leadingExponent units unitsPerOne) 0 17

/-- Where texts of doubles change form. -/
structure Layout where
  /-- The least exponent of a leading digit that is written positionally. -/
  leastPositional : Int
  /-- The first exponent above the positional ones. -/
  firstScientific : Int
  /-- The least number of digits of an exponent. -/
  exponentDigits : Nat

/-- Numbers from `0.0001` to below `10 ^ 16` are written positionally. -/
def layout : Layout := ⟨-4, 16, 2⟩

def zeros (n : Nat) : List Char := List.replicate n '0'

def dropTrailingZeros (digits : List Char) : List Char :=
  (digits.reverse.dropWhile (· = '0')).reverse

/-- The digits before and after a point that stands behind the given number of digits; zeros fill
the gap where the digits do not reach the point. -/
def splitAtPoint (digits : List Char) (point : Int) : List Char × List Char :=
  if point ≤ 0 then (['0'], zeros (-point).toNat ++ digits)
  else
    let point := point.toNat
    (digits.take point ++ zeros (point - digits.length), digits.drop point)

/-- Digits with a point after the given number of them and at least one behind it. -/
def positional (digits : List Char) (point : Int) : List Char :=
  let (whole, fraction) := splitAtPoint digits point
  whole ++ '.' :: if fraction.isEmpty then ['0'] else fraction

/-- An exponent, with its letter and its sign. -/
def exponentText (exponent : Int) : List Char :=
  let digits := decimalDigits exponent.natAbs
  'e' :: (if exponent < 0 then '-' else '+') ::
    zeros (layout.exponentDigits - digits.length) ++ digits

/-- Digits with a point after the first one, if others follow, and an exponent. -/
def scientific (digits : List Char) (exponent : Int) : List Char :=
  let mantissa := match digits with
    | d :: e :: rest => d :: '.' :: e :: rest
    | digits => digits
  mantissa ++ exponentText exponent

/-- A decimal number without its sign: trailing zeros are not written. -/
def decimalText (digits : Nat) (exponent : Int) : List Char :=
  let all := decimalDigits digits
  let leading := exponent + all.length - 1
  let written := if digits = 0 then all else dropTrailingZeros all
  if layout.leastPositional ≤ leading && leading < layout.firstScientific then
    positional written (leading + 1)
  else scientific written leading

def signText (negative : Bool) : String := if negative then "-" else ""

/-- The shortest text that reads back as the same double. -/
def text : Double → String
  | nan => "nan"
  | infinite negative => signText negative ++ "inf"
  | finite negative units _ =>
    let (digits, exponent) := shortest units
    signText negative ++ String.ofList (decimalText digits exponent)

end Rebalance.Double
