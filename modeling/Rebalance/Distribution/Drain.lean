import Rebalance.BrokerSet
import Rebalance.Distribution.Goal

/-!
# Draining a broker

Replicas leave a broker that holds too many, or is dead, in the order of its view. Each goes to the
emptiest broker that admits it. Brokers that may receive are kept in a set that is put in order
again after every move, instead of being searched for anew.
-/

namespace Rebalance.DistributionGoal

variable (g : DistributionGoal)

/-- Whether an alive broker may receive replicas: evacuating, always; otherwise while it is below
the upper limit. -/
def mayReceive (b : Broker) : Bool := g.evacuating || b.count < g.limits.upper

/-- The alive brokers that may receive replicas. -/
def receivers (c : Cluster) : List Broker := c.aliveBrokers.filter g.mayReceive

/-- Puts a broker that received a replica in its new place, or leaves it out if it is full. -/
def reposition (c : Cluster) (id : BrokerId) (s : BrokerSet) : BrokerSet :=
  match (c.broker? id).filter g.mayReceive with
  | some b => (s.discard id).add b
  | none => s.discard id

/-- Tries the replicas of a broker in turn until it is down to a number of them; tells whether it
still has too many. -/
def drainFrom (guards : List Guard) (options : Options) (id : BrokerId) (enough : Int) :
    List ReplicaId → BrokerSet → Planning Bool
  | [], _ => do return 0 < (← Planning.cluster).count id
  | i :: rest, receivers => do
    let c ← Planning.cluster
    if (c.replica? i).any (c.mustStay options.excludedTopics) then
      drainFrom guards options id enough rest receivers
    else
      let destination ← attempt g.demand guards options .replicaMovement i receivers.brokers
      match destination with
      | none => drainFrom guards options id enough rest receivers
      | some d =>
        let c ← Planning.cluster
        if c.count id ≤ enough then return false
        else drainFrom guards options id enough rest (g.reposition c d receivers)

/-- Moves replicas off a broker until it is down to the upper limit, or empty if it is dead; tells
whether it still has too many. -/
def drain (guards : List Guard) (options : Options) (id : BrokerId) : Planning Bool := do
  let c ← Planning.cluster
  let b ← c.broker id
  let v ← b.view g.name
  g.drainFrom guards options id (g.ceiling b) v.replicas (.ofBrokers (g.receivers c))

end Rebalance.DistributionGoal
