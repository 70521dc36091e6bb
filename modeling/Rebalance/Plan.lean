import Rebalance.Cluster.Change
import Rebalance.Journal

/-!
# Plans

A plan is a cluster as it would be after the moves decided so far, with the journal of how it came
to that. Planning keeps both even when it fails.
-/

namespace Rebalance

/-- A cluster and the journal of what was done to it. -/
structure Plan where
  cluster : Cluster := ∅
  journal : Journal := #[]

/-- A computation that works on a plan. -/
abbrev Planning := EStateM Fault Plan

namespace Planning

/-- Writes an event into the journal. -/
def record (e : Event) : Planning Unit := modify fun p ↦ { p with journal := p.journal.push e }

/-- The cluster as planned. -/
def cluster : Planning Cluster := do return (← get).cluster

/-- Changes the cluster. -/
def change {α : Type} (x : Cluster.Change α) : Planning α := fun p ↦
  match x p.cluster with
  | .ok a c => .ok a { p with cluster := c }
  | .error f c => .error f { p with cluster := c }

@[simp] theorem record_apply (e : Event) (p : Plan) :
    record e p = .ok () { p with journal := p.journal.push e } := rfl

@[simp] theorem cluster_apply (p : Plan) : cluster p = .ok p.cluster p := rfl

/-- Moves a replica. -/
def relocate (tp : TopicPartition) (source destination : BrokerId) : Planning Unit := do
  change (Cluster.relocate tp source destination)
  record (.moved (.replica tp source destination))

/-- Moves a leadership, if the source leads. -/
def passLeadership (tp : TopicPartition) (source destination : BrokerId) : Planning Bool := do
  let passed ← change (Cluster.passLeadership tp source destination)
  if passed then record (.moved (.leadership tp source destination))
  return passed

end Planning

end Rebalance
