import Rebalance.Cluster.Basic

/-!
# Placements

Where the copies of each partition are, and which of them leads. The leader comes first; the others
follow in the order in which they were placed.
-/

namespace Rebalance

/-- Where the copies of a partition are. -/
structure Placement where
  partition : TopicPartition
  /-- The brokers with a copy, those that lead first. -/
  hosts : List BrokerId
  leader : Option BrokerId
deriving DecidableEq

namespace Cluster

variable (c : Cluster)

/-- The brokers with a copy of a partition, those that lead first. -/
def hosts (tp : TopicPartition) : List BrokerId :=
  let copies := c.copies tp
  (copies.filter (·.leads) ++ copies.filter (!·.leads)).map Replica.broker

/-- The broker that leads a partition. -/
def leader (tp : TopicPartition) : Option BrokerId :=
  ((c.copies tp).find? Replica.leads).map Replica.broker

def placement (tp : TopicPartition) : Placement := ⟨tp, c.hosts tp, c.leader tp⟩

/-- The placements of all partitions, ascending. -/
def placements : List Placement := c.partitions.map c.placement

end Cluster

end Rebalance
