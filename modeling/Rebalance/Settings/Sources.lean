import Rebalance.Fault
import Rebalance.Settings.Table
import Rebalance.Text.Numeral

/-!
# Where settings come from

Settings are laid over each other in three layers: the defaults, a file if one is given, and the
environment.
-/

namespace Rebalance.Settings

/-- What went wrong with settings. -/
inductive Fault where
  | fileMissing
  /-- A file holds something other than a table. -/
  | fileNotTable
  /-- A setting would lie below a value that is not a table. -/
  | notTable
  /-- A text that is not a numeral was to be read as a number. -/
  | notNumeral (text : String)
  /-- A value that cannot be a number was to be read as one. -/
  | notNumber
  /-- An integer is past the largest finite double. -/
  | tooLarge
  /-- A value without elements, or with elements that contain others, was to be read as a set. -/
  | notSet
  /-- The settings are read, but what they say is refused. -/
  | refused (fault : Rebalance.Fault)
deriving DecidableEq

/-- The settings before any file is read. -/
def defaults : Table :=
  [("analyzer", .table [("replica_count_balance_threshold", .float (.ofDecimal false 110 (-2)))]),
    ("optimization", .table [("only_move_immigrant_replicas", .bool false),
      ("excluded_topics", .list []), ("excluded_brokers_for_replica_move", .list [])]),
    ("logging", .table [("level", .text "INFO"), ("format", .text "json"),
      ("output", .text "stdout")])]

/-- A file of settings. -/
inductive File where
  /-- None is given. -/
  | none
  /-- The file that is given does not exist. -/
  | missing
  | holding (content : Value)

/-- What the environment sets. -/
structure Environment where
  threshold : Option String := none
  level : Option String := none
  format : Option String := none

/-- The table in a file; what counts as false stands for an empty one. -/
def File.table : File → Except Fault Table
  | none => return []
  | missing => throw .fileMissing
  | holding v =>
    if v.isTruthy then
      match v with
      | .table t => return t
      | _ => throw .fileNotTable
    else return []

/-- The setting of a key. -/
def set (t : Table) (key : String) (v : Value) : Except Fault Table :=
  match t.set? key v with
  | some t => .ok t
  | none => .error .notTable

/-- A variable of the environment that is set and not empty. -/
def given (text : Option String) : Option String := text.filter (!·.isEmpty)

/-- Lays the environment over settings. -/
def Environment.apply (e : Environment) (t : Table) : Except Fault Table := do
  let t ← match given e.threshold with
    | some text =>
      match Text.readDouble? text with
      | some x => set t "analyzer.replica_count_balance_threshold" (.float x)
      | none => throw (.notNumeral text)
    | none => pure t
  let t ← match given e.level with
    | some level => set t "logging.level" (.text level)
    | none => pure t
  match given e.format with
  | some format => set t "logging.format" (.text format)
  | none => return t

/-- The settings of a file and an environment. -/
def load (file : File) (environment : Environment) : Except Fault Table := do
  let t ← file.table
  environment.apply (Table.merge defaults t)

end Rebalance.Settings
