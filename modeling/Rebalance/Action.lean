import Rebalance.Cluster.Partition

/-!
# Balancing actions

An action proposes to move a replica, or the leadership of a partition, from one broker to another.
A goal answers it with a verdict.
-/

namespace Rebalance

/-- What an action does. -/
inductive ActionKind where
  | replicaMovement
  | replicaSwap
  | leadershipMovement
  /-- A kind that no goal knows, under the text it was given by. -/
  | unknown (text : String)
deriving DecidableEq

namespace ActionKind

/-- The name of a known kind. -/
def name? : ActionKind → Option String
  | replicaMovement => some "inter_broker_replica_movement"
  | replicaSwap => some "inter_broker_replica_swap"
  | leadershipMovement => some "leadership_movement"
  | unknown _ => none

/-- The kind with a name; any other text is kept. -/
def ofText (text : String) : ActionKind :=
  ([replicaMovement, replicaSwap, leadershipMovement].find? (·.name? = some text)).getD
    (unknown text)

/-- How messages show a kind. -/
def label : ActionKind → String
  | replicaMovement => "ActionType.INTER_BROKER_REPLICA_MOVEMENT"
  | replicaSwap => "ActionType.INTER_BROKER_REPLICA_SWAP"
  | leadershipMovement => "ActionType.LEADERSHIP_MOVEMENT"
  | unknown text => text

end ActionKind

/-- A proposed change. -/
structure Action where
  /-- The partition whose replica, or leadership, is to move. -/
  partition : TopicPartition
  source : BrokerId
  destination : BrokerId
  kind : ActionKind
  /-- The partition of the replica that comes back in a swap. -/
  returning : Option TopicPartition := none
deriving DecidableEq

/-- Kind, partition and both brokers; only a known kind has a name. -/
def Action.text? (a : Action) : Option String :=
  a.kind.name?.map fun name ↦
    name ++ "(" ++ a.partition.text ++ ": " ++ toString a.source ++ " -> " ++
      toString a.destination ++ ")"

/-- The answer of a goal to an action. -/
inductive Verdict where
  | accept
  /-- This replica may not move; another might. -/
  | rejectReplica
  /-- Nothing may move onto the destination. -/
  | rejectBroker
deriving DecidableEq, Inhabited

namespace Verdict

def name : Verdict → String
  | accept => "accept"
  | rejectReplica => "replica_reject"
  | rejectBroker => "broker_reject"

/-- The verdict with a name. -/
def ofName? (text : String) : Option Verdict :=
  [accept, rejectReplica, rejectBroker].find? (·.name = text)

end Verdict

end Rebalance
