import Rebalance.Double.Basic

/-!
# The bits of a double

The interchange format packs sign, biased exponent and the 52 trailing bits of the significand. For
a number of units this is one sum: each doubling of the spacing adds `2 ^ 52`.
-/

namespace Rebalance.Double

/-- The bits of a magnitude below the limit. -/
def unitBits (units : Nat) : Nat := (units.log2 - 52) * 2 ^ (52 : Nat) + units / spacing units

def signBit (negative : Bool) : Nat := if negative then 2 ^ (63 : Nat) else 0

/-- The 64 bits as a number; what is not a number has the quiet pattern without a payload. -/
def toBits : Double → Nat
  | nan => 0x7ff8000000000000
  | infinite negative => signBit negative + 0x7ff0000000000000
  | finite negative units _ => signBit negative + unitBits units

/-- The bits in sixteen hexadecimal digits. -/
def hex (x : Double) : String :=
  let digits := Nat.toDigits 16 x.toBits
  String.ofList (List.replicate (16 - digits.length) '0' ++ digits)

end Rebalance.Double
