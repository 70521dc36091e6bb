import Rebalance.Double.Basic
import Rebalance.Roster

/-!
# Values

The values of settings and of the fields of log lines: their type is known only when they are read.
-/

namespace Rebalance

/-- A value of any type; a table keeps its keys in order of arrival. -/
inductive Value where
  | null
  | bool (b : Bool)
  | int (i : Int)
  | float (x : Double)
  | text (s : String)
  | list (vs : List Value)
  | table (entries : List (String × Value))

namespace Value

instance : Inhabited Value := ⟨null⟩

/-- Whether a value counts as true: what is zero or empty does not. -/
def isTruthy : Value → Bool
  | null => false
  | bool b => b
  | int i => i ≠ 0
  | float x => !x.same 0
  | text s => !s.isEmpty
  | list vs => !vs.isEmpty
  | table entries => !entries.isEmpty

/-- The values that are not made of others. -/
def isScalar : Value → Bool
  | list _ => false
  | table _ => false
  | _ => true

/-- The units in a finite number; a truth value counts as one or zero. -/
def units? : Value → Option Int
  | bool b => some (if b then Double.unitsPerOne else 0)
  | int i => some (i * Double.unitsPerOne)
  | float (.finite negative units _) => some (Double.signed negative units)
  | _ => none

/-- Whether two values that are not made of others are one element of a set: finite numbers go by
what they count, whatever their type, and no integer is as large as an infinity. -/
def sameElement : Value → Value → Bool
  | null, null => true
  | text s, text t => s = t
  | float .nan, float .nan => true
  | float (.infinite s), float (.infinite t) => s = t
  | v, w =>
    match v.units?, w.units? with
    | some a, some b => a = b
    | _, _ => false

end Value

end Rebalance
