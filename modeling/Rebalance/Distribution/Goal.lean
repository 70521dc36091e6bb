import Rebalance.Attempt
import Rebalance.Constraint

/-!
# The distribution goal

The goal is that every alive broker holds a number of replicas within the balance limits and every
dead broker none. It judges actions by what they would leave behind.
-/

namespace Rebalance

/-- The goal of an even distribution, with what it recorded while it was pursued. -/
structure DistributionGoal where
  name : String := "ReplicaDistributionGoal"
  constraint : Constraint := .standard
  /-- Whether the constraint was given for this goal, so that no other is adopted. -/
  ownsConstraint : Bool := false
  limits : Limits := {}
  /-- Whether only dead brokers are being emptied, without regard to the limits. -/
  evacuating : Bool := false
  /-- The brokers that stayed above the upper limit, ascending. -/
  above : List BrokerId := []
  /-- The brokers that stayed under the lower limit, ascending. -/
  under : List BrokerId := []
  finished : Bool := false
  succeeded : Bool := true
deriving DecidableEq, Inhabited

namespace DistributionGoal

/-- A goal with a constraint of its own, or the default one until it adopts another. -/
def new (name : Option String) (constraint : Option Constraint) : DistributionGoal :=
  let g : DistributionGoal :=
    { constraint := constraint.getD .standard, ownsConstraint := constraint.isSome }
  match name with
  | some name => { g with name }
  | none => g

/-- Takes over a shared constraint unless the goal has its own. -/
def adopt (constraint : Constraint) (g : DistributionGoal) : DistributionGoal :=
  if g.ownsConstraint then g else { g with constraint }

/-- How views of this goal choose and order replicas: immigrants first, then those that use less
disk; all of them, or immigrants only. -/
def criteria (options : Options) : Criteria where
  choose := if options.onlyImmigrants then some .immigrant else none
  priorities := [.immigrant]
  score := some .disk

/-- The brokers that a round tends. -/
def brokersToBalance (g : DistributionGoal) (c : Cluster) : List Broker :=
  if g.evacuating then c.deadBrokers else c.brokers

/-- The greatest number of replicas that a broker may come to. -/
def ceiling (g : DistributionGoal) (b : Broker) : Int := if b.isAlive then g.limits.upper else 0

/-- The least number of replicas that a broker may go down to. -/
def bottom (g : DistributionGoal) (b : Broker) : Int := if b.isAlive then g.limits.lower else 0

/-- The verdict on an action: a replica may move if its destination stays within the upper limit and
its source within the lower one; swaps and leaderships do not matter. -/
def judge (g : DistributionGoal) (action : Action) (c : Cluster) : Except Fault Verdict :=
  match action.kind with
  | .replicaSwap | .leadershipMovement => return .accept
  | .replicaMovement => do
    let source ← c.broker action.source
    let destination ← c.broker action.destination
    if destination.count + 1 ≤ g.ceiling destination ∧ g.bottom source ≤ source.count - 1 then
      return .accept
    else return .rejectReplica
  | kind => throw (.unsupportedAction kind)

/-- Whether the goal, while it is pursued, is satisfied with an action: evacuating, with whatever
takes a replica off a dead broker, and otherwise with what it accepts. -/
def demand (g : DistributionGoal) (action : Action) (c : Cluster) : Except Fault Bool := do
  if g.evacuating ∧ action.kind = .replicaMovement then
    let source ← c.broker action.source
    if !source.isAlive then return true
    else return (← g.judge action c) = .accept
  else return (← g.judge action c) = .accept

/-- The goal as a guard over later goals. -/
def guard (g : DistributionGoal) : Guard := ⟨g.name, g.judge⟩

end DistributionGoal

end Rebalance
