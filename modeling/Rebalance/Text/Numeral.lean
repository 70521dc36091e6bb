import Rebalance.Double.Basic

/-!
# Numerals

How a text is read as a number: blanks around it are dropped, the digits may be those of any script,
single underscores may stand between digits, and besides decimals with an optional fraction and
exponent the words for infinity and for what is not a number are known, in any case.
-/

namespace Rebalance.Text

/-- The code points of the zeros of the scripts with decimal digits; nine digits follow each. -/
def zeroDigits : List Nat :=
  [0x30, 0x660, 0x6f0, 0x7c0, 0x966, 0x9e6, 0xa66, 0xae6, 0xb66, 0xbe6, 0xc66, 0xce6, 0xd66, 0xde6,
   0xe50, 0xed0, 0xf20, 0x1040, 0x1090, 0x17e0, 0x1810, 0x1946, 0x19d0, 0x1a80, 0x1a90, 0x1b50,
   0x1bb0, 0x1c40, 0x1c50, 0xa620, 0xa8d0, 0xa900, 0xa9d0, 0xa9f0, 0xaa50, 0xabf0, 0xff10, 0x104a0,
   0x10d30, 0x11066, 0x110f0, 0x11136, 0x111d0, 0x112f0, 0x11450, 0x114d0, 0x11650, 0x116c0,
   0x11730, 0x118e0, 0x11950, 0x11c50, 0x11d50, 0x11da0, 0x16a60, 0x16ac0, 0x16b50, 0x1d7ce,
   0x1d7d8, 0x1d7e2, 0x1d7ec, 0x1d7f6, 0x1e140, 0x1e2f0, 0x1e950, 0x1fbf0]

/-- The value of a decimal digit of any script. -/
def digitValue? (c : Char) : Option Nat :=
  (zeroDigits.find? fun z ↦ z ≤ c.toNat && c.toNat < z + 10).map (c.toNat - ·)

/-- The blanks that may surround a numeral: those of ASCII but the four separators, and those of the
other scripts. -/
def isBlank (c : Char) : Bool :=
  let n := c.toNat
  (9 ≤ n && n ≤ 13) || n = 0x20 || n = 0x85 || n = 0xa0 || n = 0x1680 ||
    (0x2000 ≤ n && n ≤ 0x200a) || n = 0x2028 || n = 0x2029 || n = 0x202f || n = 0x205f || n = 0x3000

/-- Drops the blanks on both sides. -/
def trim (text : List Char) : List Char :=
  ((text.dropWhile isBlank).reverse.dropWhile isBlank).reverse

/-- Drops the underscores if each stands between two digits. -/
def dropUnderscores? (afterDigit : Bool) : List Char → Option (List Char)
  | [] => some []
  | '_' :: c :: rest =>
    if afterDigit && (digitValue? c).isSome then
      (dropUnderscores? true rest).map (c :: ·)
    else none
  | ['_'] => none
  | c :: rest => (dropUnderscores? (digitValue? c).isSome rest).map (c :: ·)

/-- The sign in front of a numeral, and what follows it. -/
def splitSign : List Char → Bool × List Char
  | '-' :: rest => (true, rest)
  | '+' :: rest => (false, rest)
  | text => (false, text)

/-- The digits in front of a text, and what follows them. -/
def splitDigits : List Char → List Nat × List Char
  | [] => ([], [])
  | c :: rest =>
    match digitValue? c with
    | some d => let (digits, rest) := splitDigits rest; (d :: digits, rest)
    | none => ([], c :: rest)

/-- The number that a list of digits writes. -/
def ofDigits (digits : List Nat) : Nat := digits.foldl (fun n d ↦ 10 * n + d) 0

/-- An exponent: nothing, or the letter, a sign and at least one digit, up to the end. -/
def readExponent? : List Char → Option Int
  | [] => some 0
  | c :: rest =>
    if c = 'e' || c = 'E' then
      let (negative, rest) := splitSign rest
      match splitDigits rest with
      | ([], _) => none
      | (digits, []) => some (if negative then -ofDigits digits else ofDigits digits)
      | _ => none
    else none

/-- The double of a decimal. Far out of range it is infinite or zero, whatever the digits. -/
def decimalDouble (negative : Bool) (digits : List Nat) (exponent : Int) : Double :=
  let n := ofDigits digits
  if n = 0 then Double.ofUnits negative 0 1
  else
    let leading := exponent + (Nat.toDigits 10 n).length
    if 400 < leading then .infinite negative
    else if leading < -400 then Double.ofUnits negative 0 1
    else Double.ofDecimal negative n exponent

/-- A decimal without a sign: digits with an optional point, at least one digit, and an exponent. -/
def readDecimal? (negative : Bool) (text : List Char) : Option Double :=
  let (whole, rest) := splitDigits text
  let (fraction, rest) := match rest with
    | '.' :: rest => splitDigits rest
    | rest => ([], rest)
  if whole.isEmpty && fraction.isEmpty then none
  else (readExponent? rest).map fun e ↦
    decimalDouble negative (whole ++ fraction) (e - fraction.length)

/-- The number that a text stands for. -/
def readDouble? (text : String) : Option Double := do
  let text ← dropUnderscores? false (trim text.toList)
  let (negative, rest) := splitSign text
  let word := String.ofList (rest.map Char.toLower)
  if word = "inf" || word = "infinity" then some (.infinite negative)
  else if word = "nan" then some .nan
  else readDecimal? negative rest

end Rebalance.Text
