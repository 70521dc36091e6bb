import Rebalance.Text.Printable

/-!
# Quoted text

Messages show a text between single quotes, or between double quotes when it holds a single quote
and no double one. The backslash, the quote in use and whatever has no printed form are escaped:
line feed, carriage return and tab by a letter, other characters by their code in hexadecimal.
-/

namespace Rebalance.Text

/-- The quote that surrounds a text. -/
def quoteMark (text : List Char) : Char :=
  if text.contains '\'' && !text.contains '"' then '"' else '\''

/-- A number in hexadecimal, filled up with zeros to a width. -/
def hexDigits (width n : Nat) : List Char :=
  let digits := Nat.toDigits 16 n
  List.replicate (width - digits.length) '0' ++ digits

/-- A character by its code, in as few of two, four and eight digits as it takes. -/
def escapeCode (c : Char) : List Char :=
  if c.toNat < 0x100 then '\\' :: 'x' :: hexDigits 2 c.toNat
  else if c.toNat < 0x10000 then '\\' :: 'u' :: hexDigits 4 c.toNat
  else '\\' :: 'U' :: hexDigits 8 c.toNat

/-- A character inside quotes. -/
def escape (quote c : Char) : List Char :=
  if c = quote || c = '\\' then ['\\', c]
  else if c = '\n' then ['\\', 'n']
  else if c = '\r' then ['\\', 'r']
  else if c = '\t' then ['\\', 't']
  else if isPrintable c then [c]
  else escapeCode c

/-- A text in quotes. -/
def quoted (text : String) : String :=
  let mark := quoteMark text.toList
  String.ofList (mark :: text.toList.flatMap (escape mark) ++ [mark])

/-- A text in which the characters beyond ASCII are written by their codes. -/
def ascii (text : String) : String :=
  String.ofList (text.toList.flatMap fun c ↦ if c.toNat < 128 then [c] else escapeCode c)

/-- Items between brackets, parted by a comma and a space. -/
def bracketed (items : List String) : String := "[" ++ ", ".intercalate items ++ "]"

/-- A truth value, capitalised. -/
def truth (b : Bool) : String := if b then "True" else "False"

end Rebalance.Text
