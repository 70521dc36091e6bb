import Rebalance.Double.Basic

/-!
# Arithmetic on doubles

Each operation computes the exact result in units and rounds it once. A result past the largest
finite value is infinite, except in `quotient`, where it is a fault. The conversions to integers
refuse what has no integer.
-/

namespace Rebalance.Double

/-- The opposite number. -/
def neg : Double → Double
  | nan => nan
  | infinite negative => infinite (!negative)
  | finite negative units h => finite (!negative) units h

/-- The sum; two finite numbers that cancel give zero, negative only if both are. -/
def add : Double → Double → Double
  | nan, _ | _, nan => nan
  | infinite s, infinite t => if s = t then infinite s else nan
  | infinite s, finite .. => infinite s
  | finite .., infinite t => infinite t
  | finite s m _, finite t n _ =>
    let sum := signed s m + signed t n
    if sum = 0 then ofUnits (s && t) 0 1 else ofUnits (sum < 0) sum.natAbs 1

def sub (x y : Double) : Double := add x y.neg

/-- The product; zero times an infinity is not a number. -/
def mul : Double → Double → Double
  | nan, _ | _, nan => nan
  | infinite s, infinite t => infinite (s != t)
  | infinite s, finite t n _ | finite t n _, infinite s => if n = 0 then nan else infinite (s != t)
  | finite s m _, finite t n _ => ofUnits (s != t) (m * n) unitsPerOne

instance : Neg Double := ⟨neg⟩
instance : Add Double := ⟨add⟩
instance : Sub Double := ⟨sub⟩
instance : Mul Double := ⟨mul⟩

/-- A number divided by a positive count. -/
def divNat (x : Double) (count : Nat) : Double :=
  match x with
  | finite s m _ => ofUnits s m count
  | x => x

/-- The quotient of two integers of any size, rounded once; zero takes the sign of the quotient. -/
def quotient (a b : Int) : Except Fault Double :=
  if b = 0 then throw .divisionByZero
  else
    match ofRatio (decide (a < 0) != decide (b < 0)) a.natAbs b.natAbs with
    | finite s m h => return finite s m h
    | _ => throw .tooLarge

/-- An integer as a double. -/
def ofInt? (i : Int) : Except Fault Double :=
  match ofInt i with
  | finite s m h => return finite s m h
  | _ => throw .tooLarge

/-- The number if it is above zero, otherwise zero; so too for what is not a number. -/
def positivePart (x : Double) : Double := if zero < x then x else zero

/-- Rounds to a number of decimal places, a half to the even neighbour, and takes the nearest double
of the result. Infinities and what is not a number stay. -/
def roundTo (places : Nat) : Double → Double
  | finite s m _ => ofRatio s (roundHalfEven (m * 10 ^ places) unitsPerOne) (10 ^ places)
  | x => x

/-- The greatest integer that is not above. -/
def floor : Double → Except Fault Int
  | nan => throw .nanToInteger
  | infinite _ => throw .infinityToInteger
  | finite s m _ => return signed s m / (unitsPerOne : Int)

/-- The least integer that is not below. -/
def ceil : Double → Except Fault Int
  | nan => throw .nanToInteger
  | infinite _ => throw .infinityToInteger
  | finite s m _ => return -(-signed s m / (unitsPerOne : Int))

/-- The double nearest to the square root of `num / den` squared units. The root is taken in
quarters of a unit; half a quarter more stands for whatever the integer root leaves over, which is
enough to tell on which side of a half the exact root lies. -/
def sqrtUnits (num den : Nat) : Double :=
  let squared := 16 * num
  let root := Nat.sqrt (squared / den)
  let rest := if root * root * den = squared then 0 else 1
  ofUnits false (2 * root + rest) 8

end Rebalance.Double
