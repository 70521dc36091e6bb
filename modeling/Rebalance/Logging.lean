import Rebalance.Journal
import Rebalance.Settings.Sources
import Rebalance.Template.Filling

/-!
# Logging

The settings say which lines are written, from which level on, and where to. A written line names
the application, its logger and its level beside the fields that it was given. Its event may be a
template, which is filled from one of the fields.
-/

namespace Rebalance.Logging

/-- Where lines are written. -/
inductive Output where
  | standard
  | error
deriving DecidableEq

/-- The least severity that is written, and where to. -/
structure Setup where
  threshold : Nat
  output : Output
deriving DecidableEq

/-- Why lines cannot be written. -/
inductive Fault where
  /-- Something other than a word of the vocabulary of logging is set as the level. -/
  | unknownLevel
  /-- A word that stands for a text, and for no level, is set as the level. -/
  | textForLevel (text : String)
  /-- A word that stands for a table is set as the level. -/
  | tableForLevel
  /-- A line is given a field under a name that belongs to the line itself. -/
  | reservedField
  /-- The record that a line is taken from is given, and it is none. -/
  | notRecord
  /-- What an event is to be filled from has no number of entries. -/
  | uncountable
  /-- A table with one entry is given to fill an event, where a list is looked for. -/
  | notList
  /-- There is no event to fill. -/
  | noEvent
  /-- An event that is to be filled and is no text. -/
  | eventNotText
  /-- An event that cannot be filled. -/
  | template (f : Template.Fault)
deriving DecidableEq

/-- The message for a fault, where it has one. -/
def Fault.message : Fault → Option String
  | textForLevel text => some ("Unknown level: " ++ Text.quoted text)
  | notList => some "0"
  | noEvent => some "event"
  | template f => f.message
  | _ => none

/-! ## Levels -/

/-- How grave a level is. -/
def severity : Level → Nat
  | .debug => 10
  | .info => 20
  | .warning => 30
  | .error => 40
  | .critical => 50

/-- What a word of the vocabulary of logging stands for. -/
inductive Meaning where
  | severity (n : Nat)
  | text (s : String)
  | table
deriving DecidableEq

/-- The words in upper case: the names of severities, a line format and the styles of formats. -/
def vocabulary : Roster String Meaning :=
  [("NOTSET", .severity 0), ("DEBUG", .severity 10), ("INFO", .severity 20),
    ("WARN", .severity 30), ("WARNING", .severity 30), ("ERROR", .severity 40),
    ("CRITICAL", .severity 50), ("FATAL", .severity 50),
    ("BASIC_FORMAT", .text "%(levelname)s:%(name)s:%(message)s"), ("_STYLES", .table)]

/-- A character in upper case, as far as that can be part of a word of the vocabulary: beside the
plain letters there are a dotless i, a long s and two ligatures. -/
def upper (c : Char) : List Char :=
  if c = 'ı' then ['I'] else if c = 'ſ' then ['S'] else if c = 'ﬅ' ∨ c = 'ﬆ' then ['S', 'T']
  else [c.toUpper]

/-- The severity that a word names in any case. -/
def threshold (word : String) : Except Fault Nat :=
  match vocabulary.entry? (String.ofList (word.toList.flatMap upper)) with
  | some (.severity n) => .ok n
  | some (.text s) => .error (.textForLevel s)
  | some .table => .error .tableForLevel
  | none => .error .unknownLevel

/-- What the settings say about logging. -/
def setup (t : Table) : Except Fault Setup :=
  match t.get "logging.level" (.text "INFO") with
  | .text word => do
    let threshold ← threshold word
    return {
      threshold
      output := match t.get "logging.output" (.text "stdout") with
        | .text "stdout" => .standard
        | _ => .error }
  | _ => .error .unknownLevel

/-- Whether lines of a level are written. -/
def Setup.writes (s : Setup) (level : Level) : Bool := s.threshold ≤ severity level

/-! ## Lines -/

/-- The name of a logger; the one without a name is the root of all others. -/
def loggerName (name : String) : String := if name.isEmpty then "root" else name

/-- The names under which a line takes no field, since they are parts of the line itself. -/
def reserved : List String := ["self", "method_name", "event"]

/-- The names of fields that are not written as they are given: the time is filled in when a line is
written, and the others only ask for the state of the program to be added. -/
def consumed : List String := ["timestamp", "exc_info", "stack_info"]

/-- What an event is filled from: a table that is the only entry of a list stands for itself. -/
def source : Value → Except Fault Value
  | .list [.table (e :: es)] => .ok (.table (e :: es))
  | .table [_] => .error .notList
  | .list vs => .ok (.list vs)
  | .table entries => .ok (.table entries)
  | .text s => .ok (.text s)
  | _ => .error .uncountable

/-- An event, filled from a value unless that counts as false. -/
def filled (event arguments : Value) : Except Fault Value :=
  if arguments.isTruthy then do
    let given ← source arguments
    match event with
    | .text template =>
      match Template.fill template given with
      | .ok text => return .text text
      | .error f => throw (.template f)
    | .null => throw .noEvent
    | _ => throw .eventNotText
  else .ok event

/-- The fields of a line as it is written. The arguments of its event are used up, unless they are
null; an event that is null is not written. -/
def fields (logger : String) (level : Level) (event : Value) (given : Roster String Value) :
    Except Fault (Roster String Value) := do
  if given.any fun e ↦ reserved.contains e.1 then throw .reservedField
  match (Roster.entry? given "_record").getD .null with
  | .null => pure ()
  | _ => throw .notRecord
  let (event, used) ← match (Roster.entry? given "positional_args").getD .null with
    | .null => pure (event, [])
    | arguments => do pure (← filled event arguments, ["positional_args"])
  let kept : Roster String Value := given.filter fun e ↦ !(consumed ++ used).contains e.1
  let kept := match event with
    | .null => kept
    | event => Roster.put kept "event" event
  return [("level", level.name), ("logger", loggerName logger), ("app", "clusterbalance")].foldl
    (fun fields (k, s) ↦ Roster.put fields k (.text s)) kept

end Rebalance.Logging
