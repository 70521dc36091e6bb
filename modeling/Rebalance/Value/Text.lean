import Rebalance.Double.Decimal
import Rebalance.Text.Quoted
import Rebalance.Value

/-!
# Texts of values

A value is shown in one of three ways: a text as it is, or in quotes, or in quotes and in ASCII
alone. Inside of lists and tables texts are always in quotes.
-/

namespace Rebalance.Value

mutual

/-- A value with every text in quotes. -/
def quoted : Value → String
  | null => "None"
  | bool b => Text.truth b
  | int i => toString i
  | float x => x.text
  | text s => Text.quoted s
  | list vs => Text.bracketed (quotedItems vs)
  | table entries => "\x7b" ++ ", ".intercalate (quotedEntries entries) ++ "\x7d"

def quotedItems : List Value → List String
  | [] => []
  | v :: rest => quoted v :: quotedItems rest

/-- Each entry as its key, a colon and its value. -/
def quotedEntries : List (String × Value) → List String
  | [] => []
  | (k, v) :: rest => (Text.quoted k ++ ": " ++ quoted v) :: quotedEntries rest

end

/-- A value, a text being shown as it is. -/
def plain : Value → String
  | text s => s
  | v => v.quoted

/-- A value with every text in quotes, in ASCII alone. -/
def ascii (v : Value) : String := Text.ascii v.quoted

end Rebalance.Value
