import Rebalance.Distribution.Drain
import Rebalance.Distribution.Fill

/-!
# Pursuing the distribution goal

First the limits are computed and the views tracked. Then every broker is tended once. If replicas
are left on dead brokers after that, a second round tends the dead brokers alone, without regard to
the limits; should replicas still be left, the goal has failed.
-/

namespace Rebalance

/-- A computation that works on a goal and a plan, and keeps both when it fails. -/
abbrev Pursuit (γ : Type) := EStateM Fault (γ × Plan)

namespace Pursuit

variable {γ α : Type}

/-- Planning, with the goal left alone. -/
def planning (x : Planning α) : Pursuit γ α := fun (g, p) ↦
  match x p with
  | .ok a p => .ok a (g, p)
  | .error f p => .error f (g, p)

instance : MonadLift Planning (Pursuit γ) := ⟨planning⟩

/-- The goal as it is. -/
def goal : Pursuit γ γ := do return (← get).1

/-- Changes the goal. -/
def adjust (f : γ → γ) : Pursuit γ Unit := modify fun (g, p) ↦ (f g, p)

/-- Changes the cluster where that cannot fail. -/
def changeCluster (f : Cluster → Cluster) : Pursuit γ Unit :=
  modify fun (g, p) ↦ (g, { p with cluster := f p.cluster })

@[simp] theorem goal_apply (g : γ) (p : Plan) : goal (g, p) = .ok g (g, p) := rfl

@[simp] theorem adjust_apply (f : γ → γ) (g : γ) (p : Plan) :
    adjust f (g, p) = .ok () (f g, p) := rfl

@[simp] theorem changeCluster_apply (f : Cluster → Cluster) (g : γ) (p : Plan) :
    changeCluster f (g, p) = .ok () (g, { p with cluster := f p.cluster }) := rfl

end Pursuit

namespace DistributionGoal

open Planning (record cluster)
open Pursuit (goal adjust changeCluster)

/-- Forgets what earlier rounds recorded, computes the limits and tracks the views. -/
def prepare (options : Options) : Pursuit DistributionGoal Unit := do
  adjust fun g ↦ { g with evacuating := false, above := [], under := [] }
  let g ← goal
  let c ← cluster
  if c.aliveBrokers.isEmpty then throw (.noAliveBroker g.name)
  else
    let limits ←
      (Limits.of c.size c.aliveBrokers.length g.constraint.percentage : Except Fault Limits)
    adjust fun g ↦ { g with limits }
    record (.limited g.name limits)
    changeCluster (.track g.name (criteria options))

/-- Drains or fills a broker that is out of balance, and records it if it remains so. An existing
broker is not filled while some broker is new. A broker without immigrants is not drained when only
immigrants may leave it: if the options say so, or while some other broker is dead. -/
def tend (guards : List Guard) (options : Options) (id : BrokerId) :
    Pursuit DistributionGoal Unit := do
  let g ← goal
  let c ← cluster
  let b ← c.broker id
  record (.tending id g.limits)
  let tooMany : Bool := g.ceiling b < b.count
  let tooFew : Bool := b.isAlive && b.count < g.limits.lower
  if b.isAlive && !tooFew && !tooMany then return
  else if c.hasNew && tooFew && !b.isNew then return
  else if (c.hasDead && b.isAlive || options.onlyImmigrants) && tooMany && b.immigrants.isEmpty then
    return
  else
    let stillAbove ← if tooMany then g.drain guards options id else pure false
    if stillAbove then
      adjust fun g ↦ { g with above := insertAscending id g.above }
      record (.stillAbove id ((← cluster).count id))
    else
      let stillUnder ← if tooFew then g.fill guards options id else pure false
      if stillUnder then
        adjust fun g ↦ { g with under := insertAscending id g.under }
        record (.stillUnder id ((← cluster).count id))
      else record (.balanced id ((← cluster).count id))

/-- The dead brokers that still have replicas, ascending. -/
def unemptied (c : Cluster) : List BrokerId :=
  (c.deadBrokers.filter fun b ↦ 0 < b.count).map Broker.id

/-- Reports brokers that are out of balance, if there are any; then the goal is not satisfied. -/
def report (brokers : List BrokerId) (e : Event) : Pursuit DistributionGoal Unit :=
  if brokers.isEmpty then return
  else do
    record e
    adjust fun g ↦ { g with succeeded := false }

/-- Decides what follows a round that left replicas on dead brokers: nothing is left to do, or these
brokers are evacuated, or that was tried already and the goal has failed. The views are given up
once the goal is finished or has failed. -/
def conclude (left : List BrokerId) : Pursuit DistributionGoal Unit := do
  let g ← goal
  if left.isEmpty then
    adjust fun g ↦ { g with finished := true }
    changeCluster (.untrack g.name)
  else if g.evacuating then
    changeCluster (.untrack g.name)
    throw (.deadBrokersLeft g.name left)
  else
    adjust fun g ↦ { g with evacuating := true, above := [], under := [] }
    record (.relaxed g.name left)
    if g.finished then changeCluster (.untrack g.name) else return

/-- Ends a round. -/
def close : Pursuit DistributionGoal Unit := do
  let g ← goal
  let c ← cluster
  report g.above (.leftAbove g.name g.above g.limits.upper)
  report g.under (.leftUnder g.name g.under g.limits.lower)
  conclude (unemptied c)

/-- Tends brokers one after another. -/
def tendAll (guards : List Guard) (options : Options) :
    List BrokerId → Pursuit DistributionGoal Unit
  | [] => return
  | id :: rest => do
    tend guards options id
    tendAll guards options rest

/-- Tends every broker that a round is about, and ends the round. -/
def round (guards : List Guard) (options : Options) : Pursuit DistributionGoal Unit := do
  let g ← goal
  let c ← cluster
  tendAll guards options ((g.brokersToBalance c).map Broker.id)
  close

/-- Pursues the goal; tells whether all brokers ended in balance. -/
def pursue (guards : List Guard) (options : Options) : Pursuit DistributionGoal Bool := do
  adjust fun g ↦ { g with succeeded := true, finished := false }
  let g ← goal
  record (.started g.name)
  prepare options
  round guards options
  let g ← goal
  if g.finished then
    record (.finished g.name 1 g.succeeded)
    return g.succeeded
  else
    round guards options
    let g ← goal
    record (.finished g.name 2 g.succeeded)
    return g.succeeded

end DistributionGoal

end Rebalance
