import Rebalance.Constraint
import Rebalance.Settings.Sources

/-!
# Reading settings

What the settings say about the balance constraint and about the restrictions on an optimization.
-/

namespace Rebalance.Settings

/-- A value as a number. -/
def toDouble : Value → Except Fault Double
  | .bool b => return if b then 1 else 0
  | .int i =>
    match Double.ofInt? i with
    | .ok x => return x
    | .error _ => throw .tooLarge
  | .float x => return x
  | .text s =>
    match Text.readDouble? s with
    | some x => return x
    | none => throw (.notNumeral s)
  | _ => throw .notNumber

/-- The balance constraint. -/
def constraint (t : Table) : Except Fault Constraint := do
  let threshold ←
    toDouble (t.get "analyzer.replica_count_balance_threshold" (.float defaultThreshold))
  match Constraint.ofThreshold threshold with
  | .ok c => return c
  | .error f => throw (.refused f)

/-- The first of each kind of elements. -/
def distinct (vs : List Value) : List Value :=
  vs.foldl (fun kept v ↦ if kept.any (Value.sameElement · v) then kept else kept ++ [v]) []

/-- The elements of a value: those of a list, the keys of a table, the characters of a text. What
counts as false has none. -/
def elements (v : Value) : Except Fault (List Value) :=
  if v.isTruthy then
    match v with
    | .text s => return distinct (s.toList.map fun c ↦ .text c.toString)
    | .list vs => if vs.all Value.isScalar then return distinct vs else throw .notSet
    | .table t => return distinct (t.map fun e ↦ .text e.1)
    | _ => throw .notSet
  else return []

/-- What the settings exclude from an optimization. -/
structure Exclusions where
  topics : List Value
  brokers : List Value
  onlyImmigrants : Bool

/-- The restrictions on an optimization. -/
def exclusions (t : Table) : Except Fault Exclusions := do
  let topics ← elements (t.get "optimization.excluded_topics" .null)
  let brokers ← elements (t.get "optimization.excluded_brokers_for_replica_move" .null)
  return {
    topics
    brokers
    onlyImmigrants :=
      (t.get "optimization.only_move_immigrant_replicas" (.bool false)).isTruthy }

end Rebalance.Settings
