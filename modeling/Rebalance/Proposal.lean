import Rebalance.Cluster.Placement

/-!
# Proposals

What has to be done to bring about a plan: for each partition whose brokers or leader changed, the
placement before and after.
-/

namespace Rebalance

/-- A change of the placement of one partition. -/
structure Proposal where
  partition : TopicPartition
  /-- The brokers before, the leader first. -/
  old : List BrokerId
  /-- The brokers after, the leader first. -/
  new : List BrokerId
  oldLeader : Option BrokerId := none
  newLeader : Option BrokerId := none
deriving DecidableEq

namespace Proposal

/-- The brokers that receive a copy. -/
def added (p : Proposal) : List BrokerId := p.new.filter (!p.old.contains ·)

/-- The brokers that lose their copy. -/
def removed (p : Proposal) : List BrokerId := p.old.filter (!p.new.contains ·)

/-- Whether the set of brokers changes. -/
def movesReplicas (p : Proposal) : Bool :=
  !(p.old.all p.new.contains && p.new.all p.old.contains)

/-- Whether the leader changes. -/
def movesLeader (p : Proposal) : Bool := p.oldLeader ≠ p.newLeader

/-- The change from one placement of a partition to another. -/
def between (before after : Placement) : Proposal :=
  ⟨after.partition, before.hosts, after.hosts, before.leader, after.leader⟩

/-- The changes between two lists of placements, in the order of the later one. -/
def ofPlacements (before after : List Placement) : List Proposal :=
  after.filterMap fun a ↦
    (before.find? (·.partition = a.partition)).bind fun b ↦
      let p := between b a
      if p.movesReplicas || p.movesLeader then some p else none

end Proposal

end Rebalance
