import Rebalance.Action
import Rebalance.Cluster.Statistics
import Rebalance.Limits
import Rebalance.Value

/-!
# The journal

Everything that happens to a cluster while goals are pursued, in order. Most events are written as a
log line: a level, a text and named fields. Moves are read back from the journal as well.
-/

namespace Rebalance

/-- A change of the placement. -/
inductive Move where
  | replica (partition : TopicPartition) (source destination : BrokerId)
  | leadership (partition : TopicPartition) (source destination : BrokerId)
deriving DecidableEq

/-- Something that happened. -/
inductive Event where
  | moved (move : Move)
  /-- The goal at a place among those optimized before was asked about an action. -/
  | consulted (place : Nat)
  /-- A goal optimized before refused an action. -/
  | refused (action goal : String) (verdict : Verdict)
  | started (goal : String)
  | limited (goal : String) (limits : Limits)
  | tending (broker : BrokerId) (limits : Limits)
  | stillAbove (broker : BrokerId) (count : Nat)
  | stillUnder (broker : BrokerId) (count : Nat)
  | balanced (broker : BrokerId) (count : Nat)
  /-- A round ended with brokers above the upper limit. -/
  | leftAbove (goal : String) (brokers : List BrokerId) (upper : Int)
  /-- A round ended with brokers under the lower limit. -/
  | leftUnder (goal : String) (brokers : List BrokerId) (lower : Int)
  /-- The limits are given up for the replicas left on these dead brokers. -/
  | relaxed (goal : String) (brokers : List BrokerId)
  | finished (goal : String) (rounds : Nat) (succeeded : Bool)
  | optimized (goal : String) (succeeded : Bool) (statistics : ClusterStatistics)
  | completed (proposals : Nat) (violated : List String)

/-- What happened so far. -/
abbrev Journal := Array Event

/-- The moves, in order. -/
def Journal.moves (j : Journal) : List Move :=
  j.toList.filterMap fun
    | .moved m => some m
    | _ => none

/-- How often the goal at a place was asked. -/
def Journal.consultations (j : Journal) (place : Nat) : Nat :=
  j.toList.countP fun
    | .consulted p => p = place
    | _ => false

/-! ## Log lines -/

/-- How grave a log line is. -/
inductive Level where
  | debug
  | info
  | warning
  | error
  | critical
deriving DecidableEq

def Level.name : Level → String
  | debug => "debug"
  | info => "info"
  | warning => "warning"
  | error => "error"
  | critical => "critical"

/-- A line of the log. -/
structure LogLine where
  level : Level
  event : String
  fields : Roster String Value

namespace Value

def broker (id : BrokerId) : Value := int id

def count (n : Nat) : Value := int n

def brokers (ids : List BrokerId) : Value := list (ids.map broker)

/-- Statistics under the names of their measures. -/
def ofSummary (s : Summary) : Value :=
  table [("avg", float s.mean), ("max", float s.greatest), ("min", float s.least),
    ("st_dev", float s.deviation)]

def ofStatistics (s : ClusterStatistics) : Value :=
  table [("num_alive_brokers", count s.aliveBrokers), ("num_replicas", count s.replicas),
    ("replica_stats", ofSummary s.replicaCounts),
    ("leader_replica_stats", ofSummary s.leaderCounts)]

end Value

/-- The fields of a move. -/
def moveFields (tp : TopicPartition) (source destination : BrokerId) : Roster String Value :=
  [("topic", .text tp.topic), ("partition", .int tp.partition),
    ("source_broker_id", .broker source), ("destination_broker_id", .broker destination)]

/-- The log line for an event; being asked leaves none. -/
def Event.line? : Event → Option LogLine
  | moved (.replica tp s d) => some ⟨.debug, "Relocated replica", moveFields tp s d⟩
  | moved (.leadership tp s d) => some ⟨.debug, "Relocated leadership", moveFields tp s d⟩
  | consulted _ => none
  | refused action goal verdict =>
    some ⟨.debug, "Action rejected by optimized goal",
      [("action", .text action), ("goal", .text goal), ("acceptance", .text verdict.name)]⟩
  | started goal => some ⟨.debug, "Starting optimization", [("goal", .text goal)]⟩
  | limited goal l =>
    some ⟨.debug, "Initialized balance limits",
      [("goal", .text goal), ("average", .float l.average), ("lower", .int l.lower),
        ("upper", .int l.upper)]⟩
  | tending b l =>
    some ⟨.debug, "Rebalancing broker",
      [("broker_id", .broker b), ("lower", .int l.lower), ("upper", .int l.upper)]⟩
  | stillAbove b n =>
    some ⟨.debug, "Failed to sufficiently decrease replica count",
      [("broker_id", .broker b), ("replicas", .count n)]⟩
  | stillUnder b n =>
    some ⟨.debug, "Failed to sufficiently increase replica count",
      [("broker_id", .broker b), ("replicas", .count n)]⟩
  | balanced b n =>
    some ⟨.debug, "Balanced replica count", [("broker_id", .broker b), ("replicas", .count n)]⟩
  | leftAbove goal bs upper =>
    some ⟨.warning, "Replica count above balance limit",
      [("goal", .text goal), ("broker_ids", .brokers bs), ("upper_limit", .int upper)]⟩
  | leftUnder goal bs lower =>
    some ⟨.warning, "Replica count under balance limit",
      [("goal", .text goal), ("broker_ids", .brokers bs), ("lower_limit", .int lower)]⟩
  | relaxed goal bs =>
    some ⟨.warning, "Omitting balance limit to relocate remaining replicas from dead brokers",
      [("goal", .text goal), ("dead_broker_ids", .brokers bs)]⟩
  | finished goal rounds succeeded =>
    some ⟨.info, "Finished optimization",
      [("goal", .text goal), ("rounds", .count rounds), ("succeeded", .bool succeeded)]⟩
  | optimized goal succeeded statistics =>
    some ⟨.info, "Goal optimized",
      [("goal", .text goal), ("succeeded", .bool succeeded), ("stats", .ofStatistics statistics)]⟩
  | completed n violated =>
    some ⟨.info, "Optimization complete",
      [("proposals", .count n), ("violated_goals", .list (violated.map .text))]⟩

/-- The log. -/
def Journal.lines (j : Journal) : List LogLine := j.toList.filterMap Event.line?

end Rebalance
