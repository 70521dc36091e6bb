import Rebalance.Comparator
import Rebalance.Distribution.Rounds
import Rebalance.Proposal

/-!
# The optimizer

Goals are pursued in order of priority on one plan. Each is guarded by those before it, and unless a
broker was dead it must not leave its statistics worse than it found them. The difference between
the placements at the start and at the end is what is proposed.
-/

namespace Rebalance

/-- What the optimizer needs of a type of goals. -/
class Goal (γ : Type) where
  name : γ → String
  /-- Takes over a constraint that goals share. -/
  adopt : Constraint → γ → γ
  /-- Changes the plan for the better, without an action that a guard refuses; tells whether the
  goal is satisfied in the end. -/
  pursue : List Guard → Options → Pursuit γ Bool
  /-- The goal as a guard over later goals. -/
  guard : γ → Guard
  /-- Compares later with earlier statistics: below zero if they are worse, with the reason. -/
  compare : γ → ClusterStatistics → ClusterStatistics → Int × Option String

instance : Goal DistributionGoal where
  name g := g.name
  adopt := .adopt
  pursue := DistributionGoal.pursue
  guard := DistributionGoal.guard
  compare g later earlier :=
    let (result, c) :=
      Comparator.compare { goal := g.name } later.replicaCounts earlier.replicaCounts
    (result, c.reason)

/-- The outcome of pursuing all goals. -/
structure Report where
  /-- Each goal and whether it is satisfied. -/
  results : List (String × Bool)
  before : ClusterStatistics
  after : ClusterStatistics
  proposals : List Proposal

/-- The goals that are not satisfied. -/
def Report.violated (r : Report) : List String := (r.results.filter (!·.2)).map Prod.fst

/-- Goals in order of priority, and the plan that they work on. -/
structure Optimization (γ : Type) where
  goals : List γ
  plan : Plan

namespace Optimization

variable {γ : Type} [Goal γ]

/-- Gives goals the constraint that they share; no two of them may have one name. -/
def enlist (constraint : Option Constraint) (goals : List γ) : Except Fault (List γ) :=
  let names := goals.map Goal.name
  if names.Nodup then
    match constraint with
    | some c => .ok (goals.map (Goal.adopt c))
    | none => .ok goals
  else .error (.duplicateGoals names)

/-- Works on the plan alone. -/
def planning {α : Type} (x : Planning α) : EStateM Fault (Optimization γ) α := fun o ↦
  match x o.plan with
  | .ok a plan => .ok a { o with plan }
  | .error f plan => .error f { o with plan }

/-- Pursues the goal at a place, guarded by those before it. -/
def pursueAt (options : Options) (place : Nat) (g : γ) : EStateM Fault (Optimization γ) Bool :=
  fun o ↦
    match Goal.pursue ((o.goals.take place).map Goal.guard) options (g, o.plan) with
    | .ok satisfied (g, plan) => .ok satisfied { goals := o.goals.set place g, plan }
    | .error f (g, plan) => .error f { goals := o.goals.set place g, plan }

/-- Pursues the goal at a place and checks what became of its statistics. -/
def step (options : Options) (place : Nat) (g : γ) :
    EStateM Fault (Optimization γ) (String × Bool) := do
  let c := (← get).plan.cluster
  let satisfied ← pursueAt options place g
  let statistics := (← get).plan.cluster.statistics
  let name := Goal.name g
  if c.hasDead then
    planning (Planning.record (.optimized name satisfied statistics))
    return (name, satisfied)
  else
    let (result, reason) := Goal.compare g statistics c.statistics
    if result < 0 then throw (.worseStatistics name reason)
    else
      planning (Planning.record (.optimized name satisfied statistics))
      return (name, satisfied)

/-- Pursues goals, the first of which is at a place, one after another. -/
def steps (options : Options) : Nat → List γ → EStateM Fault (Optimization γ) (List (String × Bool))
  | _, [] => return []
  | place, g :: rest => do
    let result ← step options place g
    let results ← steps options (place + 1) rest
    return result :: results

/-- Pursues all goals and proposes what changed. -/
def run (options : Options) : EStateM Fault (Optimization γ) Report := do
  let o ← get
  let before := o.plan.cluster
  let results ← steps options 0 o.goals
  let after := (← get).plan.cluster
  let report : Report :=
    { results
      before := before.statistics
      after := after.statistics
      proposals := Proposal.ofPlacements before.placements after.placements }
  planning (Planning.record (.completed report.proposals.length report.violated))
  return report

end Optimization

end Rebalance
