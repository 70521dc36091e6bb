import Rebalance.Cluster.Basic
import Rebalance.Statistics

/-!
# Statistics of a cluster

How evenly the replicas, and the leaders among them, are spread over the brokers that are alive.
-/

namespace Rebalance

/-- The state of balance at one moment. -/
structure ClusterStatistics where
  aliveBrokers : Nat
  replicas : Nat
  /-- The statistics of the number of replicas on each alive broker. -/
  replicaCounts : Summary
  /-- The statistics of the number of leaders on each alive broker. -/
  leaderCounts : Summary
deriving DecidableEq

/-- The statistics of a cluster as it is. -/
def Cluster.statistics (c : Cluster) : ClusterStatistics where
  aliveBrokers := c.aliveBrokers.length
  replicas := c.size
  replicaCounts := .ofCounts (c.aliveBrokers.map Broker.count)
  leaderCounts := .ofCounts (c.aliveBrokers.map fun b ↦ (c.leadersOn b).length)

end Rebalance
