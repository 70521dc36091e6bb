import Rebalance.Action

/-!
# Options

What one optimization must leave alone.
-/

namespace Rebalance

/-- Restrictions on the moves of one optimization. -/
structure Options where
  /-- Topics whose replicas stay where they are, unless their broker is dead. -/
  excludedTopics : List String := []
  /-- Brokers that receive no replicas. -/
  excludedBrokers : List BrokerId := []
  /-- Whether only replicas that were moved before may move. -/
  onlyImmigrants : Bool := false
deriving DecidableEq, Inhabited

/-- Whether an action of a kind may lead to a broker. -/
def Options.allows (o : Options) (kind : ActionKind) (destination : BrokerId) : Bool :=
  kind ≠ .replicaMovement || !o.excludedBrokers.contains destination

end Rebalance
