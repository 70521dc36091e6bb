import Rebalance.Double.Arithmetic
import Rebalance.Double.Places
import Rebalance.Value.Text

/-!
# Conversions

A directive of a template says how a value is written. Its last letter names the conversion, which
gives the figure of the value; marks, a width and a precision before it shape the figure.
-/

namespace Rebalance.Template

/-- Why a template cannot be filled. -/
inductive Fault where
  /-- A value is asked for by key, and there is no table. -/
  | notTable
  /-- A value is asked for by a key that the table does not have. -/
  | unknownKey (key : String)
  /-- A value is asked for, and it was taken before. -/
  | valueMissing
  /-- The only value is not taken. -/
  | valueUnused
  /-- A key without its closing parenthesis. -/
  | openKey
  /-- A directive without its last letter. -/
  | openDirective
  | widthTooLarge
  | precisionTooLarge
  /-- A letter, at a place in the template, that names no conversion. -/
  | unknownConversion (letter : Char) (place : Nat)
  /-- A value of a type that the conversion, or the size, does not take. -/
  | unsuitable
  /-- A number that is too large for what it is to be. -/
  | outOfRange
  /-- The integer of what is not a number. -/
  | nanToInteger
  /-- A width that no text has. -/
  | tooWide
deriving DecidableEq

/-- The message for a fault, where it has one. -/
def Fault.message : Fault → Option String
  | unknownKey key => some key
  | openKey => some "incomplete format key"
  | openDirective => some "incomplete format"
  | widthTooLarge => some "width too big"
  | precisionTooLarge => some "precision too big"
  | unknownConversion c place =>
    let shown := if 31 ≤ c.toNat && c.toNat ≤ 126 then c else '?'
    some ("unsupported format character '" ++ shown.toString ++ "' (0x" ++
      String.ofList (Nat.toDigits 16 c.toNat) ++ ") at index " ++ toString place)
  | _ => none

/-- What stands before the letter of a directive. -/
structure Directive where
  /-- The width is filled up behind the figure. -/
  left : Bool := false
  /-- Numbers that are not negative get a plus sign. -/
  plus : Bool := false
  /-- Numbers that are not negative get a blank for a sign. -/
  blank : Bool := false
  /-- Numbers show their base, or their point in any case. -/
  alternate : Bool := false
  /-- Numbers are filled up with zeros. -/
  zero : Bool := false
  width : Nat := 0
  precision : Option Nat := none
deriving DecidableEq

/-- What is written for a value, before it is brought to its width. -/
inductive Figure where
  | text (body : List Char)
  | number (negative : Bool) (base digits : List Char)
deriving DecidableEq

/-! ## Numbers -/

/-- A value that counts as an integer. -/
def integer : Value → Except Fault Int
  | .bool b => .ok (if b then 1 else 0)
  | .int i => .ok i
  | _ => .error .unsuitable

/-- The integer in a number, what is behind the point being cut off. -/
def truncated : Value → Except Fault Int
  | .float .nan => .error .nanToInteger
  | .float (.infinite _) => .error .outOfRange
  | .float (.finite negative units _) =>
    .ok (Double.signed negative (units / Double.unitsPerOne))
  | v => integer v

/-- A value that counts as a number. -/
def real : Value → Except Fault Double
  | .float x => .ok x
  | v => do
    match Double.ofInt? (← integer v) with
    | .ok x => return x
    | .error _ => throw .outOfRange

/-- The greatest number of digits that can be asked for. -/
def digitLimit : Nat := 0x7ffffffc

/-- An integer in a base; a precision is the least number of digits. -/
def Directive.integerFigure (d : Directive) (base : List Char) (radix : Nat) (i : Int) :
    Except Fault Figure :=
  let digits := Nat.toDigits radix i.natAbs
  let least := d.precision.getD 0
  if digitLimit < least then .error .outOfRange
  else
    .ok (.number (i < 0) (if d.alternate then base else [])
      (Double.zeros (least - digits.length) ++ digits))

/-- A number in one of the forms of doubles, to six places or digits unless others are asked for. -/
def Directive.realFigure (d : Directive) (form : Double.Form) (x : Double) : Figure :=
  .number x.isNegative [] (x.magnitude form (d.precision.getD 6) d.alternate)

/-! ## Texts -/

/-- A text, cut off at the precision. -/
def Directive.textFigure (d : Directive) (s : String) : Figure :=
  .text (match d.precision with
    | some most => s.toList.take most
    | none => s.toList)

/-- The character with a code; the replacement character stands for a code without one. -/
def character (code : Nat) : Char := if code.isValidChar then Char.ofNat code else '\ufffd'

/-- A single character, given as a text or by its code. -/
def characterFigure : Value → Except Fault Figure
  | .text s =>
    match s.toList with
    | [c] => .ok (.text [c])
    | _ => .error .unsuitable
  | v => do
    let code ← integer v
    if 0 ≤ code && code < 0x110000 then return .text [character code.toNat]
    else throw .outOfRange

/-! ## Conversions -/

/-- Ways to write a value. -/
inductive Conversion where
  | plain
  | quoted
  | ascii
  | decimal
  | octal
  | hexadecimal
  | real (form : Double.Form)
  | character
  /-- The same in upper case. -/
  | capital (c : Conversion)
deriving DecidableEq

/-- The conversion that a letter names. -/
def Conversion.ofLetter? : Char → Option Conversion
  | 's' => some plain
  | 'r' => some quoted
  | 'a' => some ascii
  | 'd' | 'i' | 'u' => some decimal
  | 'o' => some octal
  | 'x' => some hexadecimal
  | 'X' => some (capital hexadecimal)
  | 'f' => some (real .fixed)
  | 'F' => some (capital (real .fixed))
  | 'e' => some (real .exponential)
  | 'E' => some (capital (real .exponential))
  | 'g' => some (real .general)
  | 'G' => some (capital (real .general))
  | 'c' => some character
  | _ => none

/-- A number in upper case. -/
def Figure.capital : Figure → Figure
  | number negative base digits =>
    number negative (base.map Char.toUpper) (digits.map Char.toUpper)
  | figure => figure

/-- The figure of a value. -/
def Conversion.figure (d : Directive) (v : Value) : Conversion → Except Fault Figure
  | plain => .ok (d.textFigure v.plain)
  | quoted => .ok (d.textFigure v.quoted)
  | ascii => .ok (d.textFigure v.ascii)
  | decimal => do d.integerFigure [] 10 (← truncated v)
  | octal => do d.integerFigure ['0', 'o'] 8 (← integer v)
  | hexadecimal => do d.integerFigure ['0', 'x'] 16 (← integer v)
  | real form => return d.realFigure form (← Template.real v)
  | character => characterFigure v
  | capital c => return (← c.figure d v).capital

/-! ## Width -/

/-- The least width that no text has, for want of room. -/
def widthLimit : Nat := 0x10000000000

/-- The sign of a number. -/
def Directive.sign (d : Directive) (negative : Bool) : List Char :=
  if negative then ['-'] else if d.plus then ['+'] else if d.blank then [' '] else []

/-- Fills a front and a body up to the width: behind both, between them with zeros, or before. -/
def Directive.fill (d : Directive) (zero : Bool) (front body : List Char) : List Char :=
  let missing := d.width - (front.length + body.length)
  if d.left then front ++ body ++ List.replicate missing ' '
  else if zero then front ++ List.replicate missing '0' ++ body
  else List.replicate missing ' ' ++ front ++ body

/-- Brings a figure to the width. -/
def Directive.fit (d : Directive) (figure : Figure) : Except Fault (List Char) :=
  if widthLimit ≤ d.width then .error .tooWide
  else
    .ok (match figure with
      | .text body => d.fill false [] body
      | .number negative base digits => d.fill d.zero (d.sign negative ++ base) digits)

end Rebalance.Template
